import Exokernel.Proofs.User.CopyOnWrite
/-!
# Accesses

A program that handles its faults by copy on write, if at all, reads and writes its own memory and nothing else: an
access goes through in the end, with everything else as it was, or it is the end of the program.
-/
namespace Exokernel.UserProcess

open Kernel

variable {p : UserProcess} {k k' k₁ : Kernel} {sp : Word} {access : Kernel → Access → Served Bytes} {a : Access}
  {f : PageFault} {t : Trap}

/-- The program handles its faults by copy on write, if at all. -/
def CopiesOnWrite (p : UserProcess) : Prop := ∀ h, p.runtime.handler = some h → h = Routine.copyOnWrite

/-- **A fault is served or is the end.** -/
theorem serve_cases (hc : k.Calm p.env sp) (hp : p.CopiesOnWrite) (hr : k.raise p.env f = (t, k₁))
    {r : Except UserPanic Word} (h : p.serve access k₁ t = some (r, k')) :
    (∃ va, r = .ok va ∧ k.Serves k' p.env sp) ∨ ∃ cause, r = .error cause ∧ k.Perishes k' p.env := by
  rcases hc.raise hr with ⟨rfl, hend⟩ | ⟨entry, record, fr, rfl, hs₁, hfsp, hrec⟩
  · cases h
    exact Or.inr ⟨_, rfl, hend⟩
  unfold serve at h
  dsimp only at h
  split at h
  · cases h
    exact Or.inr ⟨_, rfl, hs₁.perishes (fatal_perishes hs₁.calm _)⟩
  obtain ⟨fr', k₂, hread, hregs, hs₂⟩ := readRecord_ok hs₁.calm hrec
  have hs₂ := hs₁.trans hs₂
  rw [hread] at h
  dsimp only at h
  split at h
  · cases h
    exact Or.inr ⟨_, rfl, hs₂.perishes (fatal_perishes hs₂.calm _)⟩
  rename_i handler hh
  obtain rfl := hp handler hh
  rcases hrun : p.run access (Routine.copyOnWrite fr') k₂ with _ | ⟨res, k₃⟩
  · rw [hrun] at h
    cases h
  rw [hrun] at h
  rcases run_copyOnWrite hs₂.calm hrun with ⟨rfl, hs₃⟩ | ⟨cause, rfl, hend⟩
  · obtain ⟨k₄, hret, hs₄⟩ := returnFrom_ok hs₃.calm fr'
    rw [hregs, hfsp] at hs₄
    dsimp only at h
    rw [hret] at h
    cases h
    exact Or.inl ⟨_, rfl, (hs₂.trans hs₃).trans hs₄⟩
  · cases h
    exact Or.inr ⟨cause, rfl, hs₂.perishes hend⟩

theorem raise_of_attempt {e : Env} (he : k.env? p.env = some e) (h : p.attempt k a = (.error t, k')) :
    ∃ f, k.raise p.env f = (t, k') := by
  cases a with
  | read va len =>
    unfold attempt load at h
    rw [he] at h
    dsimp only at h
    split at h
    · cases h
    · rename_i f _
      cases h
      exact ⟨f, rfl⟩
  | write va data =>
    unfold attempt store at h
    rw [he] at h
    dsimp only at h
    split at h
    · rename_i hs
      split at hs
      · cases hs
      · rename_i f _
        cases hs
        cases h
        exact ⟨f, rfl⟩
    · cases h

/-- **An access goes through in the end, or it is the end of the program.** -/
theorem accessFrom_cases {n repeats : Nat} {last : Option Word} (hc : k.Calm p.env sp) (hp : p.CopiesOnWrite)
    {r : Except UserPanic Bytes} (h : p.accessFrom n last repeats k a = some (r, k')) :
    (∃ k₁ bytes, r = .ok bytes ∧ k.Serves k₁ p.env sp ∧ p.attempt k₁ a = (.ok bytes, k')) ∨
      ∃ cause, r = .error cause ∧ k.Perishes k' p.env := by
  induction n generalizing k last repeats with
  | zero => cases h
  | succ n ih =>
    unfold accessFrom at h
    obtain ⟨k₁, he, hq, hk₁⟩ := enter_ok (p := p) hc.sound hc.runs
    have hs₁ := hc.quiet hq hk₁
    rw [he] at h
    dsimp only at h
    rcases hat : p.attempt k₁ a with ⟨t | bytes, k₂⟩
    · rw [hat] at h
      obtain ⟨e, he, -⟩ := hs₁.calm.runs
      obtain ⟨f, hraise⟩ := raise_of_attempt he hat
      dsimp only at h
      rcases hserve : p.serve (p.accessFrom n none 0) k₂ t with _ | ⟨res, k₃⟩
      · rw [hserve] at h
        cases h
      rw [hserve] at h
      rcases serve_cases hs₁.calm hp hraise hserve with ⟨va, rfl, hs₃⟩ | ⟨cause, rfl, hend⟩
      · -- the fault is served: the access is given up or tried again
        have hs₃ := hs₁.trans hs₃
        dsimp only at h
        generalize (if last = some va then repeats + 1 else 1) = tries at h
        split at h
        · cases h
          exact Or.inr ⟨_, rfl, hs₃.perishes (fatal_perishes hs₃.calm _)⟩
        · rcases ih hs₃.calm h with ⟨k₄, bytes, rfl, hs₄, hat₄⟩ | ⟨cause, rfl, hend⟩
          · exact Or.inl ⟨k₄, bytes, rfl, hs₃.trans hs₄, hat₄⟩
          · exact Or.inr ⟨cause, rfl, hs₃.perishes hend⟩
      · cases h
        exact Or.inr ⟨cause, rfl, hs₁.perishes hend⟩
    · rw [hat] at h
      cases h
      exact Or.inl ⟨k₁, bytes, rfl, hs₁, hat⟩

/-- **What is read is what the program sees.** -/
theorem read_ok {n len : Nat} {va : Word} {bytes : Bytes} (hc : k.Calm p.env sp) (hp : p.CopiesOnWrite)
    (h : p.access n k (.read va len) = some (.ok bytes, k')) :
    k.Serves k' p.env sp ∧ bytes.size = len ∧
      ∀ x b, x < len → InProgram (va.toNat + x) → k.Shows p.env (va.toNat + x) b → bytes[x]? = some b := by
  rcases accessFrom_cases hc hp h with ⟨k₁, _, he, hs, hat⟩ | ⟨_, hr, -⟩
  · cases he
    rcases hs.calm.load hat with ⟨_, hr, rfl, hsize, hget⟩ | ⟨_, _, hr, -⟩
    · cases hr
      exact ⟨hs, hsize, fun x b hx ha hsh => hget x b hx (hs.shows _ b ha hsh)⟩
    · cases hr
  · cases hr

/-- **What a program sees it can read**, without a fault. -/
theorem access_of_shows {len : Nat} {va : Word} {d : Nat → UInt8} (hk : k.Sound []) (hr : k.Runs p.env sp)
    (h : ∀ x, x < len → k.Shows p.env (va.toNat + x) (d x)) (n : Nat) :
    ∃ bytes k', p.access (n + 1) k (.read va len) = some (.ok bytes, k') := by
  obtain ⟨k₁, he, hq, -⟩ := enter_ok (p := p) hk hr
  obtain ⟨e, henv, -⟩ := hq.runs hr
  obtain ⟨bytes, hb, -⟩ := read_of_shows henv fun x hx => hq.shows (h x hx)
  refine ⟨bytes, k₁, ?_⟩
  rw [access, accessFrom, he]
  dsimp only
  unfold attempt load
  rw [henv]
  dsimp only
  rw [hb]

/-- **What is written is seen, and by nobody else.** -/
theorem write_ok {n : Nat} {va : Word} {data bytes : Bytes} (hc : k.Calm p.env sp) (hp : p.CopiesOnWrite)
    (h : p.access n k (.write va data) = some (.ok bytes, k')) :
    k'.Calm p.env sp ∧ (∀ j, j ≠ p.env → k.Spares k' j) ∧
      (∀ x b, ¬ (va.toNat ≤ x ∧ x < va.toNat + data.size) → InProgram x → k.Shows p.env x b → k'.Shows p.env x b) ∧
      ∀ x (hx : x < data.size), k'.Shows p.env (va.toNat + x) data[x] := by
  rcases accessFrom_cases hc hp h with ⟨k₁, _, he, hs, hat⟩ | ⟨_, hr, -⟩
  · cases he
    unfold attempt at hat
    dsimp only at hat
    rcases hst : k₁.store p.env va data with ⟨_ | _, k₂⟩
    · rw [hst] at hat
      cases hat
    · rw [hst] at hat
      cases hat
      rcases hs.calm.store hst with ⟨-, hc', -, hsp, hne, hin⟩ | ⟨_, _, hr, -⟩
      · exact ⟨hc', fun j hj => (hs.spares j hj).trans (hsp j hj),
          fun x b hn ha hsh => hne x b hn (hs.shows x b ha hsh), hin⟩
      · cases hr
  · cases hr

/-- **An access that fails is the end of the program**, and nobody else has noticed. -/
theorem access_error {n : Nat} {cause : UserPanic} (hc : k.Calm p.env sp) (hp : p.CopiesOnWrite)
    (h : p.access n k a = some (.error cause, k')) : k.Perishes k' p.env := by
  rcases accessFrom_cases hc hp h with ⟨_, _, hr, -⟩ | ⟨_, -, hend⟩
  · cases hr
  · exact hend

theorem access_of_env?_none {n : Nat} {r : Except UserPanic Bytes} (hn : k.env? p.env = none)
    (h : p.access n k a = some (r, k')) : r = .error .killed ∧ k' = k := by
  cases n with
  | zero => cases h
  | succ n =>
    unfold access accessFrom at h
    rw [enter_of_env?_none hn] at h
    cases h
    exact ⟨rfl, rfl⟩

end Exokernel.UserProcess
