import Exokernel.Proofs.Kernel.Identity
import Exokernel.Proofs.User.Access
import Exokernel.Proofs.User.Isolation
import Exokernel.Proofs.User.Works
/-!
# Panics

A program that panics is ended, and to be ended it has to get the processor.  So a panic is the end of every program that
may run, wherever it comes from (`panic_ends`); a program that waits for a message and is made to go on nevertheless
reports a panic and lives on.
-/
namespace Exokernel

namespace Kernel

variable {k k' : Kernel} {i : EnvId} {e : Env} {f : PageFault} {entry record : Word}

/-- **An environment is gone with all that it had**: nobody has its id, and the frames in use are those of others. -/
structure Released (k : Kernel) (i : EnvId) : Prop where
  unknown : k.Unknown i
  accounted : k.Accounted

/-- A program that runs on, if it has not come to its end. -/
structure Fit (k : Kernel) (i : EnvId) : Prop where
  sound : k.Sound []
  able : k.Able i

/-- A program that has come to its end. -/
structure Over (k : Kernel) (i : EnvId) : Prop where
  sound : k.Sound []
  gone : k.env? i = none

theorem Fit.works (h : k.Fit i) (hw : k.Works i k') : k'.Fit i := ⟨hw.sound h.sound, hw.able h.able⟩

theorem Over.released (h : k.Over i) (hi : i.isSelf = false) : k.Released i :=
  ⟨unknown_of_env?_none hi h.gone, h.sound.accounted⟩

theorem Over.of_destroyEnv (hk : k.Sound []) (h : k.destroyEnv i = (.ok (), k')) : k'.Over i := by
  have hk' := hk.destroyEnv i
  rw [h] at hk'
  exact ⟨hk', by rw [env?_destroyEnv h, if_pos rfl]⟩

/-- The kernel writes the record of a fault only where the program may read it. -/
theorem entryAt_record (he : k.env? i = some e) (h : k.raise i f = (.upcall entry record, k')) {x : Nat}
    (hx : x < FaultRecord.size) : ∃ p, k.mappings.entryAt i (record.toNat + x) = some p ∧ p.allows .read := by
  rcases raise_cases he h with ⟨ht, -⟩ | ⟨_, r, k₁, m, -, hr, -, hw, ht, -⟩
  · cases ht
  cases ht
  have hsize : (FaultRecord.encode ⟨f.address.toUInt64, f.code, e.regs⟩).toArray.size = FaultRecord.size :=
    Vector.size_toArray _
  have hc := (AddressSpace.write_ok hw).1
  rw [hsize] at hc
  obtain ⟨p, hp, hal⟩ := AddressSpace.allows_of_check hc (Nat.le_add_right r x) (by omega)
  rw [toNat_record hr, entryAt_of_env? he]
  exact ⟨p, hp, Pte.allows_read hal⟩

theorem mappings_raise (he : k.env? i = some e) (h : k.raise i f = (.upcall entry record, k')) :
    k'.mappings = k.mappings := by
  rcases raise_cases he h with ⟨ht, -⟩ | ⟨entry', r, k₁, m, -, -, hb, -, -, rfl⟩
  · cases ht
  have hm := mappings_setRegisters { k₁ with machine := m } i { e.regs.setSp r.toUInt64 with sepc := entry' }
  have hb := (Quiet.of_bare hb).mappings
  exact hm.trans hb

end Kernel

namespace UserProcess

open Kernel

variable {p p' : UserProcess} {k k' k₁ : Kernel} {e : Env} {access : Kernel → Access → Served Bytes} {a : Access}
  {f : PageFault} {t : Trap} {cause : UserPanic}

/-! ## Taking the processor -/

/-- **Only who has ended does not get the processor.** -/
theorem enter_fit (hf : k.Fit p.env) {r : Except Errno Unit} (h : p.enter k = (r, k')) :
    (r = .ok () ∧ k'.Fit p.env ∧ ∃ e, k'.env? p.env = some e) ∨ (∃ err, r = .error err) ∧ k'.Over p.env := by
  rcases hf.able.alive with hn | ⟨sp, hr⟩
  · rw [enter_of_env?_none hn] at h
    cases h
    exact Or.inr ⟨⟨_, rfl⟩, hf.sound, hn⟩
  · obtain ⟨k₁, he, hq, -⟩ := enter_ok (p := p) hf.sound hr
    have hf' := hf.works (enter_works h)
    rw [he] at h
    cases h
    obtain ⟨e, he', -⟩ := hq.runs hr
    exact Or.inl ⟨rfl, hf', e, he'⟩

theorem fatal_over (hf : k.Fit p.env) (cause : UserPanic) : (p.fatal k cause).Over p.env := by
  obtain ⟨hends, hk⟩ := fatal_ends hf.sound hf.able.alive cause
  exact ⟨hk, hends.gone⟩

theorem enter_of_not_runnable (he : k.env? p.env = some e) (hr : ¬ e.status.isRunnable) :
    p.enter k = (.error .badEnv, k) := by
  unfold enter dispatch
  rw [he]
  dsimp only
  rw [if_pos (by simpa using hr)]

/-! ## Accesses -/

theorem attempt_works (hk : k.Sound []) {r : Except Trap Bytes} (h : p.attempt k a = (r, k')) : k.Works p.env k' := by
  cases a with
  | read va len => exact load_works hk h
  | write va data =>
    unfold attempt at h
    dsimp only at h
    rcases hs : k.store p.env va data with ⟨_ | _, k₁⟩
    all_goals
      rw [hs] at h
      cases h
      exact store_works hk hs

/-- **The handler repairs the fault, or it is the end.** -/
theorem run_copyOnWrite_fit (hf : k.Fit p.env) {record : FaultRecord} {r : Except UserPanic Unit}
    (h : p.run access (Routine.copyOnWrite record) k = some (r, k')) :
    (r = .ok () ∧ k'.Fit p.env) ∨ ∃ cause, r = .error cause ∧ k'.Over p.env := by
  unfold Routine.copyOnWrite at h
  simp only [run] at h
  rcases he : p.enter k with ⟨r₁, k₁⟩
  have hf₁ := hf.works (enter_works he)
  rw [he] at h
  have hcopy {va : Word} {q : Option Perm} (h : p.run access (Routine.copyIfMarked record va q) k₁ = some (r, k')) :
      (r = .ok () ∧ k'.Fit p.env) ∨ ∃ cause, r = .error cause ∧ k'.Over p.env := by
    unfold Routine.copyIfMarked at h
    split at h
    swap
    · simp only [run] at h
      cases h
      exact Or.inr ⟨_, rfl, fatal_over hf₁ _⟩
    simp only [run] at h
    rcases he₂ : p.enter k₁ with ⟨_ | _, k₂⟩
    all_goals
      have hf₂ := hf₁.works (enter_works he₂)
      rw [he₂] at h
      dsimp only at h
    · simp only [run] at h
      cases h
      exact Or.inr ⟨_, rfl, fatal_over hf₂ _⟩
    · obtain ⟨res, k₃, hvia, hend⟩ := run_copyPage h
      have hf₃ := hf₂.works (copyVia_works hf₂.sound hvia)
      rcases hend with ⟨-, rfl, rfl⟩ | ⟨_, cause, -, rfl, rfl⟩
      · exact Or.inl ⟨rfl, hf₃⟩
      · exact Or.inr ⟨cause, rfl, fatal_over hf₃ cause⟩
  rcases r₁ with err | _
  · exact hcopy h
  · simp only [run] at h
    exact hcopy h

/-- **The record of a fault can be read**, and if it is not, that is because the program has ended. -/
theorem readRecord_fit {record : Word} (hf : k.Fit p.env)
    (hr : ∀ x < FaultRecord.size, ∃ q, k.mappings.entryAt p.env (record.toNat + x) = some q ∧ q.allows .read)
    {r : Except UserPanic FaultRecord} (h : p.readRecord k record = (r, k')) :
    (∃ fr, r = .ok fr ∧ k'.Fit p.env) ∨ ∃ cause, r = .error cause ∧ k'.Over p.env := by
  unfold readRecord at h
  rcases he : p.enter k with ⟨r₁, k₁⟩
  rw [he] at h
  rcases enter_fit hf he with ⟨rfl, hf₁, e, hlive⟩ | ⟨⟨err, rfl⟩, hover⟩
  swap
  · cases h
    exact Or.inr ⟨_, rfl, hover⟩
  have hm : k₁.mappings = k.mappings := by
    rcases enter_cases hf.sound he with ⟨-, hq, -⟩ | ⟨-, rfl⟩
    · exact hq.mappings
    · rfl
  have hcheck : e.space.check record.toNat FaultRecord.size .read = .ok () := by
    refine AddressSpace.check_of_allows fun x hx hl => ?_
    obtain ⟨q, hq, hal⟩ := hr (x - record.toNat) (by omega)
    rw [Nat.add_sub_cancel' hx, ← hm, entryAt_of_env? hlive] at hq
    exact ⟨q, hq, hal⟩
  have hload : ∃ bytes, k₁.load p.env record FaultRecord.size = (.ok bytes, k₁) := by
    unfold load AddressSpace.read
    rw [hlive]
    dsimp only
    rw [hcheck]
    exact ⟨_, rfl⟩
  obtain ⟨bytes, hload⟩ := hload
  dsimp only at h
  rw [hload] at h
  cases h
  exact Or.inl ⟨_, rfl, hf₁⟩

theorem returnFrom_fit (hf : k.Fit p.env) {record : FaultRecord} {r : Except UserPanic Word}
    (h : p.returnFrom k record = (r, k')) :
    (∃ va, r = .ok va ∧ k'.Fit p.env) ∨ ∃ cause, r = .error cause ∧ k'.Over p.env := by
  unfold returnFrom at h
  rcases he : p.enter k with ⟨r₁, k₁⟩
  rw [he] at h
  rcases enter_fit hf he with ⟨rfl, hf₁, e, hlive⟩ | ⟨⟨err, rfl⟩, hover⟩
  swap
  · cases h
    exact Or.inr ⟨_, rfl, hover⟩
  have hres : k₁.resumeWith p.env record.regs = (.ok (), k₁.setRegisters p.env record.regs.forUser) := by
    unfold resumeWith
    rw [hlive]
  dsimp only at h
  rw [hres] at h
  cases h
  exact Or.inl ⟨_, rfl, hf₁.works (resumeWith_works hf₁.sound hres)⟩

/-- **A fault is served, or it is the end.** -/
theorem serve_fit (hf : k.Fit p.env) (he : k.env? p.env = some e) (hp : p.CopiesOnWrite)
    (hr : k.raise p.env f = (t, k₁)) {r : Except UserPanic Word} (h : p.serve access k₁ t = some (r, k')) :
    (∃ va, r = .ok va ∧ k'.Fit p.env) ∨ ∃ cause, r = .error cause ∧ k'.Over p.env := by
  rcases raise_still he hr with ⟨entry, record, rfl, hs⟩ | ⟨rfl, k₂, hb, hd⟩
  swap
  · cases h
    exact Or.inr ⟨_, rfl, .of_destroyEnv (hf.sound.of_bare hb) hd⟩
  have hk₁ := hf.sound.raise p.env f
  rw [hr] at hk₁
  have hf₁ : k₁.Fit p.env := hf.works (.tended .rested hs hk₁)
  unfold serve at h
  dsimp only at h
  split at h
  · cases h
    exact Or.inr ⟨_, rfl, fatal_over hf₁ _⟩
  rcases hread : p.readRecord k₁ record with ⟨res, k₂⟩
  rw [hread] at h
  have hrec : ∀ x < FaultRecord.size, ∃ q, k₁.mappings.entryAt p.env (record.toNat + x) = some q ∧ q.allows .read := by
    intro x hx
    rw [mappings_raise he hr]
    exact entryAt_record he hr hx
  rcases readRecord_fit hf₁ hrec hread with ⟨fr, rfl, hf₂⟩ | ⟨cause, rfl, hover⟩
  swap
  · cases h
    exact Or.inr ⟨_, rfl, hover⟩
  dsimp only at h
  split at h
  · cases h
    exact Or.inr ⟨_, rfl, fatal_over hf₂ _⟩
  rename_i handler hh
  obtain rfl := hp handler hh
  rcases hrun : p.run access (Routine.copyOnWrite fr) k₂ with _ | ⟨res, k₃⟩
  · rw [hrun] at h
    cases h
  rw [hrun] at h
  rcases run_copyOnWrite_fit hf₂ hrun with ⟨rfl, hf₃⟩ | ⟨cause, rfl, hover⟩
  · exact returnFrom_fit hf₃ (Option.some.inj h)
  · cases h
    exact Or.inr ⟨_, rfl, hover⟩

/-- **An access goes through, or it is the end.** -/
theorem accessFrom_fit {n repeats : Nat} {last : Option Word} (hf : k.Fit p.env) (hp : p.CopiesOnWrite)
    {r : Except UserPanic Bytes} (h : p.accessFrom n last repeats k a = some (r, k')) :
    (∃ bytes, r = .ok bytes ∧ k'.Fit p.env) ∨ ∃ cause, r = .error cause ∧ k'.Over p.env := by
  induction n generalizing k last repeats with
  | zero => cases h
  | succ n ih =>
    unfold accessFrom at h
    rcases he : p.enter k with ⟨r₁, k₁⟩
    rw [he] at h
    rcases enter_fit hf he with ⟨rfl, hf₁, e, hlive⟩ | ⟨⟨err, rfl⟩, hover⟩
    swap
    · cases h
      exact Or.inr ⟨_, rfl, hover⟩
    dsimp only at h
    rcases hat : p.attempt k₁ a with ⟨t | bytes, k₂⟩
    · rw [hat] at h
      obtain ⟨f, hraise⟩ := raise_of_attempt hlive hat
      dsimp only at h
      rcases hserve : p.serve (p.accessFrom n none 0) k₂ t with _ | ⟨res, k₃⟩
      · rw [hserve] at h
        cases h
      rw [hserve] at h
      rcases serve_fit hf₁ hlive hp hraise hserve with ⟨va, rfl, hf₃⟩ | ⟨cause, rfl, hover⟩
      · dsimp only at h
        generalize (if last = some va then repeats + 1 else 1) = tries at h
        split at h
        · cases h
          exact Or.inr ⟨_, rfl, fatal_over hf₃ _⟩
        · exact ih hf₃ h
      · cases h
        exact Or.inr ⟨cause, rfl, hover⟩
    · rw [hat] at h
      cases h
      exact Or.inl ⟨bytes, rfl, hf₁.works (attempt_works hf₁.sound hat)⟩

/-! ## Forks -/

/-- **A fork that panics is the end of the parent.** -/
theorem fork_over (hf : k.Fit p.env) (h : p.fork k = (.error (.panicked cause), p', k')) : k'.Over p.env := by
  rcases fork_steps h with ⟨err, p₁, k₁, hset, h⟩ | ⟨p₁, k₁, hset, h⟩
  all_goals
    obtain ⟨henv, hw⟩ := setHandler_works hf.sound hset
    have hf₁ := hf.works hw
    rw [← henv] at hf₁ ⊢
  · cases h
    exact fatal_over hf₁ _
  obtain ⟨_, -, ⟨⟩, -⟩ | ⟨c, k₂, hex, ⟨step, err, k₃, hpop, h⟩ | ⟨_, -, ⟨⟩, -⟩⟩ := h
  obtain ⟨hk₂, ⟨sp, hr₂⟩, -⟩ := exofork_ok hf₁.sound hex
  cases h
  exact fatal_over (Fit.works ⟨hk₂, able_of_runs hr₂⟩ (populate_works hk₂ hpop)) _

/-! ## Programs that wait -/

section waiting
variable (he : k.env? p.env = some e) (hr : ¬ e.status.isRunnable)
include he hr

theorem access_of_not_runnable (n : Nat) (a : Access) : p.access (n + 1) k a = some (.error .killed, k) := by
  unfold access accessFrom
  rw [enter_of_not_runnable he hr]

theorem fatal_of_not_runnable (cause : UserPanic) : p.fatal k cause = k.log (.userPanic p.env cause) := by
  have he' : (k.log (.userPanic p.env cause)).env? p.env = some e := he
  unfold fatal
  rw [enter_of_not_runnable he' hr]

theorem fork_of_not_runnable (hh : p.runtime.handler = none) : p.fork k =
    (.error (.panicked (.fork .handler .badEnv)), p, k.log (.userPanic p.env (.fork .handler .badEnv))) := by
  have hset : p.setHandler k Routine.copyOnWrite = (.error .badEnv, p, k) := by
    unfold setHandler prepareUpcall
    rw [hh, enter_of_not_runnable he hr]
    rfl
  unfold fork
  rw [hset]
  dsimp only
  rw [abortFork, fatal_of_not_runnable he hr]

end waiting

/-- **A panic is the end of a program that may run.**  One that may not is told that it was killed, or that its fork has
panicked, and nothing becomes of it. -/
theorem panic_ends (hk : k.Reachable) (hp : p.CopiesOnWrite) (he : k.env? p.env = some e) :
    (e.status.isRunnable →
      (∀ n a cause k', p.access n k a = some (.error cause, k') → k'.Released p.env) ∧
      ∀ cause p' k', p.fork k = (.error (.panicked cause), p', k') → k'.Released p.env) ∧
    (¬ e.status.isRunnable →
      (∀ n a, p.access (n + 1) k a = some (.error .killed, k)) ∧
      (p.runtime.handler = none → p.fork k =
        (.error (.panicked (.fork .handler .badEnv)), p, k.log (.userPanic p.env (.fork .handler .badEnv))))) := by
  have hself := isSelf_of_env? hk.chronicled he
  refine ⟨fun hr => ?_, fun hr => ⟨fun n a => access_of_not_runnable he hr n a, fork_of_not_runnable he hr⟩⟩
  have hf : k.Fit p.env := ⟨hk.sound, able_of_runs ⟨e, he, hr, rfl⟩⟩
  refine ⟨fun n a cause k' h => ?_, fun cause p' k' h => (fork_over hf h).released hself⟩
  rcases accessFrom_fit hf hp h with ⟨_, hr, -⟩ | ⟨_, -, hover⟩
  · cases hr
  · exact hover.released hself

/-- A program that handles no faults reads memory that it does not have, and is gone. -/
theorem panic_ends_unmapped : ∃ (k k' : Kernel) (p : UserProcess) (e : Env), k.Reachable ∧ p.CopiesOnWrite ∧
    k.env? p.env = some e ∧ e.status.isRunnable ∧ p.access 1 k (.read 0 1) = some (.error .killed, k') ∧
    k'.Released p.env := by
  let k := ((ofConfig ⟨8, 1⟩).log (.booted ⟨8, 1⟩)).step (.spawn {})
  let p : UserProcess := .ofEnv ⟨0x1000⟩ textBase.toUInt64
  have hk : k.Reachable := .step (.boot (c := ⟨8, 1⟩) rfl) _
  have hp : p.CopiesOnWrite := fun h hh => by cases hh
  obtain ⟨e, he⟩ : ∃ e, k.env? p.env = some e := Option.isSome_iff_exists.1 (by decide +kernel)
  have hr : (k.env? p.env).map (fun e => e.status.isRunnable) = some true := by decide +kernel
  rw [he, Option.map_some] at hr
  have hr : e.status.isRunnable := Option.some.inj hr
  obtain ⟨⟨r, k'⟩, ha⟩ : ∃ x, p.access 1 k (.read 0 1) = some x := Option.isSome_iff_exists.1 (by decide +kernel)
  have hx : (p.access 1 k (.read 0 1)).map (fun x => x.1) = some (.error .killed) := by decide +kernel
  rw [ha, Option.map_some] at hx
  obtain rfl : r = .error .killed := Option.some.inj hx
  exact ⟨k, k', p, e, hk, hp, he, hr, ha, ((panic_ends hk hp he).1 hr).1 1 _ _ k' ha⟩

/-- **A program that waits for a message outlives its panic**: it reads memory, is told that it was killed, and is still
there. -/
theorem panic_of_waiting : ∃ (k k' : Kernel) (p : UserProcess) (a : Access) (cause : UserPanic), k.Reachable ∧
    p.CopiesOnWrite ∧ k.env? p.env ≠ none ∧ p.access 1 k a = some (.error cause, k') ∧ k'.env? p.env ≠ none := by
  let k₁ := ((ofConfig ⟨8, 1⟩).log (.booted ⟨8, 1⟩)).step (.spawn {})
  let k := (k₁.step (.dispatch ⟨0x1000⟩)).step (.perform ⟨0x1000⟩ (.ecall 12 (Vector.replicate 5 0)))
  let p : UserProcess := .ofEnv ⟨0x1000⟩ textBase.toUInt64
  have hk : k.Reachable := .step (.step (.step (.boot (c := ⟨8, 1⟩) rfl) _) _) _
  obtain ⟨e, he⟩ : ∃ e, k.env? p.env = some e := Option.isSome_iff_exists.1 (by decide +kernel)
  have hr : (k.env? p.env).map (fun e => e.status.isRunnable) = some false := by decide +kernel
  rw [he, Option.map_some] at hr
  have hr : ¬ e.status.isRunnable := by simpa using hr
  have hlive : k.env? p.env ≠ none := by simp [he]
  exact ⟨k, k, p, .read 0 1, .killed, hk, fun h hh => (by cases hh), hlive, access_of_not_runnable he hr 0 _, hlive⟩

end UserProcess
end Exokernel
