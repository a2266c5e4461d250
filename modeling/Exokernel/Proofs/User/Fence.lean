import Exokernel.Proofs.User.Access
/-!
# Fences

Programs may share frames and still not disturb each other: if nothing that one may write is on certain pages of another,
then whatever the one does by reading and writing, faults and copies included, the other sees the same bytes there.  The
fence stands afterwards, also where both have fences and take turns.
-/
namespace Exokernel

namespace Mappings

variable {M : Mappings} {i j t : EnvId} {v s : VirtAddr} {f : Frame} {p : Pte} {q : Perm} {P Q : VirtAddr → Prop}

/-- **Nothing that `i` may write is on certain pages of `j`.** -/
def Fenced (M : Mappings) (i j : EnvId) (P : VirtAddr → Prop) : Prop :=
  ∀ v p w q, P v → M j v = some p → M i w = some q → q.perm.contains .writable → q.frame ≠ p.frame

namespace Fenced

theorem mono (h : M.Fenced i j Q) (hpq : ∀ v, P v → Q v) : M.Fenced i j P :=
  fun v p w q hv => h v p w q (hpq v hv)

theorem without (h : M.Fenced i j P) (t : EnvId) : (M.without t).Fenced i j P := by
  intro v p w q hv hp hq hw
  simp only [Mappings.without] at hp hq
  split at hp
  · cases hp
  split at hq
  · cases hq
  exact h v p w q hv hp hq hw

theorem put_none (h : M.Fenced i j P) (t : EnvId) (s : VirtAddr) : (M.put t s none).Fenced i j P := by
  intro v p w q hv hp hq hw
  simp only [put] at hp hq
  split at hp
  · cases hp
  split at hq
  · cases hq
  exact h v p w q hv hp hq hw

/-- **A fresh frame may be mapped anywhere**, and the page that it is mapped at is behind the fence too. -/
theorem put_fresh (h : M.Fenced i j P) (hij : i ≠ j) (hf : M.Fresh f) (t : EnvId) (s : VirtAddr) (q : Perm)
    (hQ : ∀ v, Q v → P v ∨ t = j ∧ s.pageDown = v.pageDown) : (M.put t s (some ⟨f, q⟩)).Fenced i j Q := by
  intro v p₁ w p₂ hv h₁ h₂ hw
  simp only [put] at h₁ h₂
  split at h₁
  · rename_i hj
    cases h₁
    rw [if_neg fun hi => hij (hi.1.symm.trans hj.1)] at h₂
    exact hf _ _ _ h₂
  · rename_i hj
    split at h₂
    · cases h₂
      exact (hf _ _ _ h₁).symm
    · exact h v p₁ w p₂ ((hQ v hv).resolve_right hj) h₁ h₂ hw

/-- **A mapping may be copied by its holder**, with the right to write where that is had, from a page behind the fence. -/
theorem put_copy (h : M.Fenced i j P) (hij : i ≠ j) (hp : M t s = some p) (hi : t = i → p.perm.contains .writable)
    (hj : t = j → P s) (v : VirtAddr) (q : Perm) : (M.put t v (some ⟨p.frame, q⟩)).Fenced i j P := by
  intro v₁ p₁ w p₂ hv h₁ h₂ hw
  simp only [put] at h₁ h₂
  split at h₁
  · rename_i hc
    cases h₁
    rw [if_neg fun hi => hij (hi.1.symm.trans hc.1)] at h₂
    obtain ⟨rfl, -⟩ := hc
    exact h s p w p₂ (hj rfl) hp h₂ hw
  · split at h₂
    · rename_i hc
      cases h₂
      obtain ⟨rfl, -⟩ := hc
      exact h v₁ p₁ s p hv h₁ hp (hi rfl)
    · exact h v₁ p₁ w p₂ hv h₁ h₂ hw

end Fenced
end Mappings

namespace Kernel

variable {k k' k₁ : Kernel} {i j : EnvId} {e : Env} {P : VirtAddr → Prop} {a : Word} {sp : Word} {f : PageFault}
  {t : Trap} {len : Nat} {data : Bytes} {m : Machine} {v : VirtAddr} {o : Option Pte}

theorem mappings_of_store (h : k.store i a data = (.ok (), k')) : k'.mappings = k.mappings := by
  obtain ⟨e, m, -, -, rfl⟩ := store_ok h
  rfl

theorem Sound.of_store (h : k.store i a data = (.ok (), k')) (hk : k.Sound []) : k'.Sound [] := by
  obtain ⟨e, m, he, hw, rfl⟩ := store_ok h
  exact hk.write he hw

theorem Runs.of_store (h : k.store i a data = (.ok (), k')) (hr : k.Runs i sp) : k'.Runs i sp := by
  obtain ⟨e, m, -, -, rfl⟩ := store_ok h
  exact hr

/-- **Two programs with fences between them**: what is on certain pages of the one, the other may not write. -/
structure Parted (k : Kernel) (i j : EnvId) (P : VirtAddr → Prop) : Prop where
  ne : i ≠ j
  sound : k.Sound []
  left : k.mappings.Fenced i j P
  right : k.mappings.Fenced j i P

/-- **What a program has done left the other's pages as they were**, and the fences stand. -/
structure Respects (k k' : Kernel) (i j : EnvId) (P : VirtAddr → Prop) : Prop where
  parted : k'.Parted i j P
  shows (v : VirtAddr) (b : UInt8) (hv : P v) (h : k.Shows j v.raw b) : k'.Shows j v.raw b

theorem Respects.trans (h : k.Respects k₁ i j P) (h' : k₁.Respects k' i j P) : k.Respects k' i j P :=
  ⟨h'.parted, fun v b hv hs => h'.shows v b hv (h.shows v b hv hs)⟩

namespace Parted

theorem symm (h : k.Parted i j P) : k.Parted j i P := ⟨h.ne.symm, h.sound, h.right, h.left⟩

theorem respects (h : k.Parted i j P) : k.Respects k i j P := ⟨h, fun _ _ _ hs => hs⟩

theorem quiet (h : k.Parted i j P) (hq : k.Quiet k') (hk : k'.Sound []) : k.Respects k' i j P :=
  ⟨⟨h.ne, hk, by rw [hq.mappings]; exact h.left, by rw [hq.mappings]; exact h.right⟩, fun _ _ _ hs => hq.shows hs⟩

theorem ends (h : k.Parted i j P) (he : k.Ends k' i) (hk : k'.Sound []) : k.Respects k' i j P :=
  ⟨⟨h.ne, hk, by rw [he.mappings]; exact h.left.without i, by rw [he.mappings]; exact h.right.without i⟩,
    fun _ _ _ hs => (he.spares j h.ne.symm).shows hs⟩

/-- **A write stays on this side of the fence.** -/
theorem write (h : k.Parted i j P) (he : k.env? i = some e) {x : Nat} (hw : e.space.write k.machine x data = .ok m) :
    k.Respects { k with machine := m } i j P := by
  refine ⟨⟨h.ne, h.sound.write he hw, h.left, h.right⟩, fun v b hv hs => ?_⟩
  obtain ⟨p, hp, hal, hb⟩ := hs
  refine ⟨p, hp, hal, ?_⟩
  rw [← hb]
  refine Classical.byContradiction fun hne => ?_
  obtain ⟨y, q, -, -, hq, hwr, hl⟩ :=
    AddressSpace.writable_of_byte_ne (fun f hf => h.sound.refs_pos_of_mem he hf) hw hne
  rw [← entryAt_of_env? he] at hq
  obtain ⟨w, -, hqw⟩ := Option.bind_eq_some_iff.1 hq
  obtain ⟨v', hv', hpv⟩ := Option.bind_eq_some_iff.1 hp
  obtain rfl : v' = v := by
    rw [VirtAddr.ofNat?_eq_some_iff] at hv'
    cases v'
    cases v
    cases hv'
    rfl
  exact h.left v' p w q hv hpv hqw hwr (Prod.mk.inj hl).1.symm

theorem setRegisters (h : k.Parted i j P) (r : Registers) : k.Respects (k.setRegisters i r) i j P := by
  have hm := mappings_setRegisters k i r
  exact ⟨⟨h.ne, h.sound.setRegisters i r, by rw [hm]; exact h.left, by rw [hm]; exact h.right⟩,
    fun _ _ _ hs => shows_setRegisters r hs⟩

/-- **A fault stays on this side of the fence**, with the record that the kernel writes. -/
theorem raise (h : k.Parted i j P) (he : k.env? i = some e) (hr : k.raise i f = (t, k')) : k.Respects k' i j P := by
  rcases raise_cases he hr with ⟨-, k₁, hb, rfl⟩ | ⟨entry, record, k₁, m, -, -, hb, hw, -, rfl⟩
  · have hs₁ := h.quiet (.of_bare hb) (h.sound.of_bare hb)
    have he₁ := (env?_congr (envs_of_bare hb) i).trans he
    have hends := ends_of_destroyEnv hs₁.parted.sound (destroyEnv_of_env? he₁)
    have hk' := hs₁.parted.sound.destroyEnv i
    rw [destroyEnv_of_env? he₁] at hk' ⊢
    exact hs₁.trans (hs₁.parted.ends hends hk')
  · have hs₁ := h.quiet (.of_bare hb) (h.sound.of_bare hb)
    have he₁ := (env?_congr (envs_of_bare hb) i).trans he
    have hs₂ := hs₁.trans (hs₁.parted.write he₁ hw)
    have hs₃ := hs₂.trans (hs₂.parted.setRegisters { e.regs.setSp record.toUInt64 with sepc := entry })
    exact hs₃.trans (hs₃.parted.quiet (.log _ _) (hs₃.parted.sound.log _))

theorem load (h : k.Parted i j P) {r : Except Trap Bytes} (hl : k.load i a len = (r, k')) : k.Respects k' i j P := by
  unfold Kernel.load at hl
  split at hl
  · cases hl
    exact h.respects
  rename_i e he
  split at hl
  · cases hl
    exact h.respects
  · cases hl
    exact h.raise he rfl

theorem store (h : k.Parted i j P) {r : Except Trap Unit} (hs : k.store i a data = (r, k')) :
    k.Respects k' i j P := by
  unfold Kernel.store at hs
  split at hs
  · cases hs
    exact h.respects
  rename_i e he
  split at hs
  · rename_i m hw
    cases hs
    exact h.write he hw
  · cases hs
    exact h.raise he rfl

theorem remaps (h : k.Parted i j P) (hm : k.Remaps k' i v o) (hk : k'.Sound []) (hl : k'.mappings.Fenced i j P)
    (hr : k'.mappings.Fenced j i P) : k.Respects k' i j P :=
  ⟨⟨h.ne, hk, hl, hr⟩, fun _ _ _ hs => (hm.spares j h.ne.symm).shows hs⟩

/-- **A page is moved in private**, if its frame is behind the fence at the page that it leaves. -/
theorem move (h : k.Parted i j P) (hr : k.Runs i sp) {s va : Word} {r : Except Errno Unit} {f : Frame}
    (hv : VirtAddr.pageOfNat? s.toNat = some v) (hs : k.mappings i v = some ⟨f, .userWritable⟩)
    (hback : k.mappings.Fenced j i fun w => P w ∨ v = w)
    (hc : k.callAll i [.pageMap .self s .self va .userWritable, .pageUnmap .self s] = (r, k')) :
    k.Respects k' i j P := by
  have hself : EnvId.self.meant i = i := rfl
  rcases callAll_cons_cases hc with ⟨err, h₁, rfl⟩ | ⟨_, k₁, h₁, hc⟩
  all_goals have hk₁ := sound_of_call h.sound h₁
  · obtain ⟨-, hq⟩ | ⟨⟨⟩, -⟩ := call_pageMap h.sound hr h₁
    exact h.quiet hq hk₁
  obtain ⟨⟨_, ⟨⟩⟩, -⟩ | ⟨-, sv, w, pte, hsv, -, hpte, hm₁⟩ := call_pageMap h.sound hr h₁
  obtain rfl : v = sv := Option.some.inj (hv.symm.trans hsv)
  rw [hself, hs] at hpte
  rw [hself] at hm₁
  cases hpte
  have hback₁ : k₁.mappings.Fenced j i fun w => P w ∨ v = w := by
    rw [hm₁.mappings]
    exact hback.put_copy h.ne.symm hs (fun hij => absurd hij h.ne) (fun _ => Or.inr rfl) _ _
  have hs₁ : k.Respects k₁ i j P := by
    refine h.remaps hm₁ hk₁ ?_ (hback₁.mono fun _ => Or.inl)
    rw [hm₁.mappings]
    exact h.left.put_copy h.ne hs (fun _ => show Perm.userWritable.contains .writable by decide)
      (fun hij => absurd hij h.ne) _ _
  rcases callAll_cons_cases hc with ⟨err, h₂, rfl⟩ | ⟨_, k₂, h₂, hc⟩
  all_goals have hk₂ := sound_of_call hk₁ h₂
  · obtain ⟨-, hq⟩ | ⟨⟨⟩, -⟩ := call_pageUnmap hk₁ (hm₁.runs hr) h₂
    exact hs₁.trans (hs₁.parted.quiet hq hk₂)
  obtain ⟨⟨_, ⟨⟩⟩, -⟩ | ⟨-, sv, -, hm₂⟩ := call_pageUnmap hk₁ (hm₁.runs hr) h₂
  rw [hself] at hm₂
  cases hc
  refine hs₁.trans (hs₁.parted.remaps hm₂ hk₂ ?_ ?_)
  · rw [hm₂.mappings]
    exact hs₁.parted.left.put_none _ _
  · rw [hm₂.mappings]
    exact hs₁.parted.right.put_none _ _

/-- **A page is copied in private**: the copy is in a fresh frame, which the other does not get to see. -/
theorem copyVia (h : k.Parted i j P) (hr : k.Runs i sp) {s va : Word} {r : Except Errno Unit}
    (hc : k.copyVia i s va .self = (r, k')) : k.Respects k' i j P := by
  have hself : EnvId.self.meant i = i := rfl
  rcases copyVia_steps hc with ⟨err, h₁, rfl⟩ | ⟨_, k₁, h₁, hc⟩
  all_goals have hk₁ := sound_of_call h.sound h₁
  · obtain ⟨-, hq⟩ | ⟨⟨⟩, -⟩ := call_pageAlloc h.sound hr h₁
    exact h.quiet hq hk₁
  obtain ⟨⟨_, ⟨⟩⟩, -⟩ | ⟨-, v, f, hv, hfresh, -, hm₁⟩ := call_pageAlloc h.sound hr h₁
  rw [hself] at hm₁
  -- the scratch page is behind the fence as long as it is there
  have hback : k₁.mappings.Fenced j i fun w => P w ∨ v = w := by
    rw [hm₁.mappings]
    exact h.right.put_fresh h.ne.symm hfresh _ _ _ fun w hw => hw.imp_right fun hvw => ⟨rfl, by rw [hvw]⟩
  have hs₁ : k.Respects k₁ i j P := by
    refine h.remaps hm₁ hk₁ ?_ (hback.mono fun _ => Or.inl)
    rw [hm₁.mappings]
    exact h.left.put_fresh h.ne hfresh _ _ _ fun _ => Or.inl
  have hscratch : k₁.mappings i v = some ⟨f, .userWritable⟩ := by rw [hm₁.mappings, Mappings.put_self]
  rcases hc with ⟨t, h₂, rfl⟩ | ⟨bytes, k₂, h₂, hc⟩
  · exact hs₁.trans (hs₁.parted.load h₂)
  obtain rfl := load_ok h₂
  rcases hc with ⟨t, h₃, rfl⟩ | ⟨k₃, h₃, hc⟩
  · exact hs₁.trans (hs₁.parted.store h₃)
  have hs₃ := hs₁.trans (hs₁.parted.store h₃)
  have hm₃ := mappings_of_store h₃
  exact hs₃.trans (hs₃.parted.move (.of_store h₃ (hm₁.runs hr)) hv (by rw [hm₃, hscratch]) (by rwa [hm₃]) hc)

end Parted
end Kernel

namespace UserProcess

open Kernel

variable {p : UserProcess} {k k' k₁ : Kernel} {j : EnvId} {P : VirtAddr → Prop} {access : Kernel → Access → Served Bytes}
  {a : Access} {t : Trap}

/-- **The program has the processor, or nothing has happened.** -/
theorem enter_cases (hk : k.Sound []) {r : Except Errno Unit} (h : p.enter k = (r, k')) :
    (r = .ok () ∧ k.Quiet k' ∧ k'.Sound [] ∧ ∃ sp, k'.Runs p.env sp) ∨ (∃ err, r = .error err) ∧ k' = k := by
  unfold enter at h
  split at h
  · cases h
    exact Or.inr ⟨⟨_, rfl⟩, rfl⟩
  rename_i k₁ hd
  cases h
  exact Or.inl ⟨rfl, .dispatch hd, hk.dispatch hd, runs_of_dispatch hd⟩

end UserProcess

namespace Kernel.Parted

open UserProcess

variable {p : UserProcess} {k k' k₁ : Kernel} {j : EnvId} {P : VirtAddr → Prop} {access : Kernel → Access → Served Bytes}
  {a : Access} {t : Trap}

theorem enter (h : k.Parted p.env j P) {r : Except Errno Unit} (he : p.enter k = (r, k')) :
    k.Respects k' p.env j P := by
  rcases enter_cases h.sound he with ⟨-, hq, hk, -⟩ | ⟨-, rfl⟩
  · exact h.quiet hq hk
  · exact h.respects

theorem fatal (h : k.Parted p.env j P) (cause : UserPanic) : k.Respects (p.fatal k cause) p.env j P := by
  have hs₁ := h.quiet (.log k (.userPanic p.env cause)) (h.sound.log _)
  unfold UserProcess.fatal
  rcases he : p.enter (k.log (.userPanic p.env cause)) with ⟨r₁, k₁⟩
  have hs₂ := hs₁.trans (hs₁.parted.enter he)
  rcases enter_cases hs₁.parted.sound he with ⟨rfl, -, hk₁, sp, hr⟩ | ⟨⟨err, rfl⟩, -⟩
  · dsimp only
    have hk₂ := hk₁.call p.env (.envDestroy .self)
    rcases hc : k₁.call p.env (.envDestroy .self) with ⟨r₂, k₂⟩
    rw [hc] at hk₂
    obtain ⟨rfl, hends⟩ := call_envDestroy hk₁ hr hc
    exact hs₂.trans (hs₂.parted.ends hends hk₂)
  · exact hs₂

/-- **The handler copies in private.** -/
theorem run_copyOnWrite (h : k.Parted p.env j P) {record : FaultRecord} {r : Except UserPanic Unit}
    (hr : p.run access (Routine.copyOnWrite record) k = some (r, k')) : k.Respects k' p.env j P := by
  unfold Routine.copyOnWrite at hr
  simp only [UserProcess.run] at hr
  rcases he : p.enter k with ⟨r₁, k₁⟩
  have hs₁ := h.enter he
  rw [he] at hr
  -- a copy is made only where the page can be looked at and is marked
  have hcopy {va : Word} {q : Option Perm} (hr : p.run access (Routine.copyIfMarked record va q) k₁ = some (r, k')) :
      k.Respects k' p.env j P := by
    unfold Routine.copyIfMarked at hr
    split at hr
    swap
    · simp only [UserProcess.run] at hr
      cases hr
      exact hs₁.trans (hs₁.parted.fatal _)
    simp only [UserProcess.run] at hr
    rcases he₂ : p.enter k₁ with ⟨r₂, k₂⟩
    have hs₂ := hs₁.trans (hs₁.parted.enter he₂)
    rw [he₂] at hr
    rcases enter_cases hs₁.parted.sound he₂ with ⟨rfl, -, -, sp, hruns⟩ | ⟨⟨err, rfl⟩, -⟩
    · obtain ⟨res, k₃, hvia, hend⟩ := run_copyPage hr
      have hs₃ := hs₂.trans (hs₂.parted.copyVia hruns hvia)
      rcases hend with ⟨-, -, rfl⟩ | ⟨_, cause, -, -, rfl⟩
      · exact hs₃
      · exact hs₃.trans (hs₃.parted.fatal cause)
    · dsimp only at hr
      simp only [UserProcess.run] at hr
      cases hr
      exact hs₂.trans (hs₂.parted.fatal _)
  rcases r₁ with err | _
  · exact hcopy hr
  · simp only [UserProcess.run] at hr
    exact hcopy hr

theorem readRecord (h : k.Parted p.env j P) {record : Word} {r : Except UserPanic FaultRecord}
    (hr : p.readRecord k record = (r, k')) : k.Respects k' p.env j P := by
  unfold UserProcess.readRecord at hr
  rcases he : p.enter k with ⟨_ | _, k₁⟩
  · rw [he] at hr
    cases hr
    exact h.enter he
  have hs₁ := h.enter he
  rw [he] at hr
  dsimp only at hr
  rcases hl : k₁.load p.env record FaultRecord.size with ⟨_ | _, k₂⟩
  all_goals
    rw [hl] at hr
    cases hr
    exact hs₁.trans (hs₁.parted.load hl)

theorem returnFrom (h : k.Parted p.env j P) (record : FaultRecord) :
    k.Respects (p.returnFrom k record).2 p.env j P := by
  unfold UserProcess.returnFrom
  rcases he : p.enter k with ⟨_ | _, k₁⟩
  · exact h.enter he
  have hs₁ := h.enter he
  dsimp only
  unfold Kernel.resumeWith
  split
  · rename_i hr
    split at hr
    · cases hr
      exact hs₁
    · cases hr
  · rename_i hr
    split at hr
    · cases hr
    · cases hr
      exact hs₁.trans (hs₁.parted.setRegisters _)

theorem attempt (h : k.Parted p.env j P) {r : Except Trap Bytes} (ha : p.attempt k a = (r, k')) :
    k.Respects k' p.env j P := by
  cases a with
  | read va len => exact h.load ha
  | write va data =>
    unfold UserProcess.attempt at ha
    dsimp only at ha
    rcases hst : k.store p.env va data with ⟨_ | _, k₂⟩
    all_goals
      rw [hst] at ha
      cases ha
      exact h.store hst

theorem serve (h : k.Parted p.env j P) (hp : p.CopiesOnWrite) {r : Except UserPanic Word}
    (hs : p.serve access k t = some (r, k')) : k.Respects k' p.env j P := by
  unfold UserProcess.serve at hs
  split at hs
  · cases hs
    exact h.respects
  split at hs
  · cases hs
    exact h.fatal _
  rcases hread : p.readRecord k _ with ⟨cause | record, k₁⟩
  · rw [hread] at hs
    cases hs
    exact h.readRecord hread
  have hs₁ := h.readRecord hread
  rw [hread] at hs
  dsimp only at hs
  split at hs
  · cases hs
    exact hs₁.trans (hs₁.parted.fatal _)
  rename_i handler hh
  obtain rfl := hp handler hh
  rcases hrun : p.run access (Routine.copyOnWrite record) k₁ with _ | ⟨cause | _, k₂⟩
  · rw [hrun] at hs
    cases hs
  · rw [hrun] at hs
    cases hs
    exact hs₁.trans (hs₁.parted.run_copyOnWrite hrun)
  · have hs₂ := hs₁.trans (hs₁.parted.run_copyOnWrite hrun)
    rw [hrun] at hs
    have hret := hs₂.parted.returnFrom record
    rw [Option.some.inj hs] at hret
    exact hs₂.trans hret

/-- **An access stays on this side of the fence**, whatever faults it takes and however it ends. -/
theorem accessFrom {n repeats : Nat} {last : Option Word} (h : k.Parted p.env j P) (hp : p.CopiesOnWrite)
    {r : Except UserPanic Bytes} (ha : p.accessFrom n last repeats k a = some (r, k')) : k.Respects k' p.env j P := by
  induction n generalizing k last repeats with
  | zero => cases ha
  | succ n ih =>
    unfold UserProcess.accessFrom at ha
    rcases he : p.enter k with ⟨_ | _, k₁⟩
    · rw [he] at ha
      cases ha
      exact h.enter he
    have hs₁ := h.enter he
    rw [he] at ha
    dsimp only at ha
    rcases hat : p.attempt k₁ a with ⟨t | bytes, k₂⟩
    · have hs₂ := hs₁.trans (hs₁.parted.attempt hat)
      rw [hat] at ha
      dsimp only at ha
      rcases hserve : p.serve (p.accessFrom n none 0) k₂ t with _ | ⟨cause | va, k₃⟩
      · rw [hserve] at ha
        cases ha
      · rw [hserve] at ha
        cases ha
        exact hs₂.trans (hs₂.parted.serve hp hserve)
      · have hs₃ := hs₂.trans (hs₂.parted.serve hp hserve)
        rw [hserve] at ha
        dsimp only at ha
        generalize (if last = some va then repeats + 1 else 1) = tries at ha
        split at ha
        · cases ha
          exact hs₃.trans (hs₃.parted.fatal _)
        · exact hs₃.trans (ih hs₃.parted ha)
    · rw [hat] at ha
      cases ha
      exact hs₁.trans (hs₁.parted.attempt hat)

end Kernel.Parted

/-! ## Taking turns -/

namespace UserProcess

variable {p q : UserProcess} {k k' k₁ : Kernel} {P : VirtAddr → Prop}

/-- The program reads or writes memory, handling faults or not. -/
inductive Uses (p : UserProcess) (k k' : Kernel) : Prop where
  | load {va : Word} {len : Nat} {r : Except Trap Bytes} (h : k.load p.env va len = (r, k'))
  | store {va : Word} {data : Bytes} {r : Except Trap Unit} (h : k.store p.env va data = (r, k'))
  | access {n : Nat} {a : Access} {r : Except UserPanic Bytes} (h : p.access n k a = some (r, k'))

/-- Two programs use their memories, in any order and as often as they like. -/
inductive Turns (p q : UserProcess) (k : Kernel) : Kernel → Prop where
  | start : Turns p q k k
  | left {k₁ k₂ : Kernel} (h : Turns p q k k₁) (hu : p.Uses k₁ k₂) : Turns p q k k₂
  | right {k₁ k₂ : Kernel} (h : Turns p q k k₁) (hu : q.Uses k₁ k₂) : Turns p q k k₂

theorem Uses.respects {j : EnvId} (hu : p.Uses k k') (h : k.Parted p.env j P) (hp : p.CopiesOnWrite) :
    k.Respects k' p.env j P := by
  cases hu with
  | load hl => exact h.load hl
  | store hs => exact h.store hs
  | access ha => exact h.accessFrom hp ha

/-- **The fences stand as long as the programs take turns.** -/
theorem Turns.parted (ht : Turns p q k k') (h : k.Parted p.env q.env P) (hp : p.CopiesOnWrite)
    (hq : q.CopiesOnWrite) : k'.Parted p.env q.env P := by
  induction ht with
  | start => exact h
  | left _ hu ih => exact (hu.respects ih hp).parted
  | right _ hu ih => exact (hu.respects ih.symm hq).parted.symm

end UserProcess
end Exokernel
