import Exokernel.Proofs.Kernel.Sound
/-!
# Starting programs

The steps of starting a program, one of which fails or all of which succeed, and that they keep a kernel sound: an image
that is loaded half way gives back what it took.
-/
namespace Exokernel.Kernel

variable {k k' : Kernel} {i : EnvId} {img : Image} {brk : Nat} {H : List Frame}

/-! ## Steps -/

-- To compare a call with its unfolded body, the checker would run it on the landmarks of the layout.  So these proofs
-- unfold the function before it is applied, and `spawn` with what it calls made variables.

theorem loadImage_ok (h : k.loadImage i img brk = (.ok (), k')) : ∃ k₁ k₂ k₃,
    k.loadSegment i textBase img.text.size img.text .userPresent = (.ok (), k₁) ∧
    k₁.loadSegment i img.dataStart (brk - img.dataStart) img.data .userWritable = (.ok (), k₂) ∧
    k₂.loadSegment i stackPage pageSize #[] .userWritable = (.ok (), k₃) ∧
    k' = k₃.modifyEnv i fun e =>
      { e with regs := { e.regs.setSp stackTop.toUInt64 with sepc := textBase.toUInt64 }, status := .runnable } := by
  have hF : @loadImage = loadImage := rfl
  conv at hF => rhs; delta loadImage
  have hF := congrFun (congrFun (congrFun (congrFun hF k) i) img) brk
  rw [hF] at h
  clear hF
  split at h
  · cases h
  next k₁ h₁ =>
    split at h
    · cases h
    next k₂ h₂ =>
      split at h
      · cases h
      next k₃ h₃ =>
        cases h
        exact ⟨k₁, k₂, k₃, h₁, h₂, h₃, rfl⟩

theorem loadImage_error {err : SpawnError} (h : k.loadImage i img brk = (.error err, k')) :
    k.loadSegment i textBase img.text.size img.text .userPresent = (.error err, k') ∨
    ∃ k₁, k.loadSegment i textBase img.text.size img.text .userPresent = (.ok (), k₁) ∧
    (k₁.loadSegment i img.dataStart (brk - img.dataStart) img.data .userWritable = (.error err, k') ∨
    ∃ k₂, k₁.loadSegment i img.dataStart (brk - img.dataStart) img.data .userWritable = (.ok (), k₂) ∧
    k₂.loadSegment i stackPage pageSize #[] .userWritable = (.error err, k')) := by
  have hF : @loadImage = loadImage := rfl
  conv at hF => rhs; delta loadImage
  have hF := congrFun (congrFun (congrFun (congrFun hF k) i) img) brk
  rw [hF] at h
  clear hF
  split at h
  next h₁ => cases h; exact Or.inl h₁
  next k₁ h₁ =>
    refine Or.inr ⟨k₁, h₁, ?_⟩
    split at h
    next h₂ => cases h; exact Or.inl h₂
    next k₂ h₂ =>
      refine Or.inr ⟨k₂, h₂, ?_⟩
      split at h
      next h₃ => cases h; exact h₃
      · cases h

/-- **What loading an image keeps**: all that loading a segment keeps, however far it comes.  If it comes to the end, the
program is made ready. -/
theorem loadImage_induction {Q : Kernel → Prop} {r : Except SpawnError Unit} (h : k.loadImage i img brk = (r, k'))
    (start : Q k)
    (segment : ∀ {k k' : Kernel} {base len : Nat} {data : Bytes} {p : Perm} {r : Except SpawnError Unit}, Q k →
      p = .userPresent ∨ p = .userWritable → k.loadSegment i base len data p = (r, k') → Q k') :
    (∃ err, r = .error err) ∧ Q k' ∨ r = .ok () ∧ ∃ k₁, Q k₁ ∧ k' = k₁.modifyEnv i fun e =>
      { e with regs := { e.regs.setSp stackTop.toUInt64 with sepc := textBase.toUInt64 }, status := .runnable } := by
  cases r with
  | error err =>
    refine Or.inl ⟨⟨err, rfl⟩, ?_⟩
    rcases loadImage_error h with h₁ | ⟨k₁, h₁, h₂ | ⟨k₂, h₂, h₃⟩⟩
    · exact segment start (Or.inl rfl) h₁
    · exact segment (segment start (Or.inl rfl) h₁) (Or.inr rfl) h₂
    · exact segment (segment (segment start (Or.inl rfl) h₁) (Or.inr rfl) h₂) (Or.inr rfl) h₃
  | ok u =>
    obtain ⟨k₁, k₂, k₃, h₁, h₂, h₃, hk'⟩ := loadImage_ok h
    exact Or.inr ⟨rfl, k₃, segment (segment (segment start (Or.inl rfl) h₁) (Or.inr rfl) h₂) (Or.inr rfl) h₃, hk'⟩

theorem spawn_ok {s : Spawned} (h : k.spawn img = (.ok s, k')) : ∃ k₁ k₂,
    img.brk? = some s.brk ∧ k.createEnv none = (.ok s.id, k₁) ∧ k₁.loadImage s.id img s.brk = (.ok (), k₂) ∧
    k' = Kernel.log { k₂ with scheduler := k₂.scheduler.enqueue s.id } (.spawned s.id img s.brk) := by
  have hF : @spawn = spawn := rfl
  conv at hF => rhs; delta spawn
  have hF := congrFun (congrFun hF k) img
  rw [hF] at h
  clear hF
  obtain ⟨L, hL⟩ : ∃ L, L = loadImage := ⟨_, rfl⟩
  obtain ⟨B, hB⟩ : ∃ B, B = Image.brk? := ⟨_, rfl⟩
  rw [← hL, ← hB] at h ⊢
  clear hL hB
  split at h
  · cases h
  next hb =>
    split at h
    · cases h
    next k₁ hc =>
      split at h
      · cases h
      next k₂ hl =>
        cases h
        exact ⟨k₁, k₂, hb, hc, hl, rfl⟩

theorem spawn_error {err : SpawnError} (h : k.spawn img = (.error err, k')) :
    k' = k ∨ (∃ e, k.createEnv none = (.error e, k')) ∨
    ∃ i brk k₁ k₂, img.brk? = some brk ∧ k.createEnv none = (.ok i, k₁) ∧
      k₁.loadImage i img brk = (.error err, k₂) ∧ k' = ((k₂.log (.spawnFailed i err)).destroyEnv i).2 := by
  have hF : @spawn = spawn := rfl
  conv at hF => rhs; delta spawn
  have hF := congrFun (congrFun hF k) img
  rw [hF] at h
  clear hF
  obtain ⟨L, hL⟩ : ∃ L, L = loadImage := ⟨_, rfl⟩
  obtain ⟨B, hB⟩ : ∃ B, B = Image.brk? := ⟨_, rfl⟩
  rw [← hL, ← hB] at h ⊢
  clear hL hB
  split at h
  · cases h; exact Or.inl rfl
  next brk hb =>
    split at h
    next hc => cases h; exact Or.inr (Or.inl ⟨_, hc⟩)
    next i k₁ hc =>
      split at h
      next k₂ hl => cases h; exact Or.inr (Or.inr ⟨i, brk, k₁, k₂, hb, hc, hl, rfl⟩)
      · cases h

/-! ## What else changes -/

/-- Only the address space of one environment may differ. -/
structure Remapped (k k' : Kernel) (i : EnvId) : Prop where
  scheduler : k'.scheduler = k.scheduler
  other (j : EnvId) (h : j ≠ i) : k'.env? j = k.env? j
  self (e : Env) (h : k.env? i = some e) : ∃ s, k'.env? i = some { e with space := s }

namespace Remapped

theorem refl (k : Kernel) (i : EnvId) : k.Remapped k i := ⟨rfl, fun _ _ => rfl, fun e h => ⟨e.space, h⟩⟩

theorem trans {k₁ k₂ : Kernel} (h₁ : k.Remapped k₁ i) (h₂ : k₁.Remapped k₂ i) : k.Remapped k₂ i := by
  refine ⟨h₂.scheduler.trans h₁.scheduler, fun j hj => (h₂.other j hj).trans (h₁.other j hj), fun e he => ?_⟩
  obtain ⟨s₁, he₁⟩ := h₁.self e he
  obtain ⟨s₂, he₂⟩ := h₂.self _ he₁
  exact ⟨s₂, he₂⟩

theorem of_machine (k : Kernel) (m : Machine) (i : EnvId) : k.Remapped { k with machine := m } i :=
  ⟨rfl, fun j _ => env?_congr rfl j, fun e h => ⟨e.space, (env?_congr rfl i).trans h⟩⟩

theorem allocFrame {f : Option Frame} (h : k.allocFrame = (f, k')) : k.Remapped k' i := by
  unfold Kernel.allocFrame at h
  cases ha : k.machine.alloc pool with
  | mk o m => rw [ha] at h; cases h; exact of_machine k m i

theorem releaseFrame (k : Kernel) (f : Frame) : k.Remapped (k.releaseFrame f) i := of_machine k _ i

theorem mapInto {e : Env} {f : Frame} {v : VirtAddr} {p : Perm} {r : Except MapError Unit}
    (h : k.mapInto e f v p = (r, k')) : k.Remapped k' e.id := by
  cases r with
  | error err =>
    unfold Kernel.mapInto at h
    split at h
    · cases h; exact of_machine k _ _
    · cases h
  | ok u =>
    obtain ⟨hs, s, -, he⟩ := env?_mapInto h
    refine ⟨hs, fun j hj => ?_, fun e' he' => ⟨s, ?_⟩⟩
    · rw [he]
      cases k.env? j with
      | none => rfl
      | some e' => rw [Option.map_some, if_neg hj.symm]
    · rw [he, he', Option.map_some, if_pos rfl]

theorem loadPages {base : Nat} {data : Bytes} {p : Perm} (as : List Nat) {r : Except SpawnError Unit}
    (h : k.loadPages i base data p as = (r, k')) : k.Remapped k' i := by
  induction as generalizing k with
  | nil => cases h; exact refl _ i
  | cons a rest ih =>
    unfold Kernel.loadPages at h
    split at h
    · cases h; exact refl _ i
    · cases h; exact refl _ i
    next v e _ he =>
      obtain rfl := EnvTable.id_of_get? he
      split at h
      next ha => cases h; exact allocFrame ha
      next f k₁ ha =>
        have h₁ := (allocFrame (i := e.id) ha).trans
          (of_machine k₁ (k₁.machine.write f 0 (data.extract (a - base) (a - base + pageSize))) e.id)
        dsimp only at h
        split at h
        next hm => cases h; exact (h₁.trans (mapInto hm)).trans (releaseFrame _ f)
        next hm => exact ((h₁.trans (mapInto hm)).trans (releaseFrame _ f)).trans (ih h)

theorem loadSegment {base len : Nat} {data : Bytes} {p : Perm} {r : Except SpawnError Unit}
    (h : k.loadSegment i base len data p = (r, k')) : k.Remapped k' i := loadPages _ h

theorem loadImage_error {err : SpawnError} (h : k.loadImage i img brk = (.error err, k')) : k.Remapped k' i := by
  rcases loadImage_induction (Q := fun k₁ => k.Remapped k₁ i) h (refl k i) fun hr _ hs => hr.trans (loadSegment hs) with
    ⟨-, hr⟩ | ⟨hr, -⟩
  · exact hr
  · cases hr

/-- A program that has been loaded has pages, and is ready. -/
theorem loadImage_ok (h : k.loadImage i img brk = (.ok (), k')) : ∃ k₁, k.Remapped k₁ i ∧ k' = k₁.modifyEnv i fun e =>
    { e with regs := { e.regs.setSp stackTop.toUInt64 with sepc := textBase.toUInt64 }, status := .runnable } := by
  rcases loadImage_induction (Q := fun k₁ => k.Remapped k₁ i) h (refl k i) fun hr _ hs => hr.trans (loadSegment hs) with
    ⟨⟨_, hr⟩, -⟩ | ⟨-, hr⟩
  · cases hr
  · exact hr

end Remapped

/-! ## Books -/

namespace Sound

theorem loadPages (hk : k.Sound []) (i : EnvId) (base : Nat) (data : Bytes) (p : Perm) (as : List Nat) :
    (k.loadPages i base data p as).2.Sound [] := by
  induction as generalizing k with
  | nil => exact hk
  | cons a rest ih =>
    unfold Kernel.loadPages
    split
    · exact hk
    · exact hk
    next v e _ he =>
      split
      next h => exact hk.of_bare (bare_allocFrame_none h)
      next f k₁ hf =>
        have h₁ := (hk.allocFrame hf).writeFrame 0 (data.extract (a - base) (a - base + pageSize))
        have he₁ := (env?_congr rfl e.id).trans
          ((env?_allocFrame hf e.id).trans ((congrArg _ (EnvTable.id_of_get? he)).trans he))
        dsimp only
        split
        next err k₂ hm =>
          have hr := h₁.refs_pos (List.mem_append_right _ List.mem_cons_self)
          exact releaseFrame (h₁.of_bare (bare_mapInto_error hr hm))
        next k₂ hm => exact ih (releaseFrame (h₁.mapInto he₁ (List.mem_append_right _ List.mem_cons_self) hm))

theorem loadSegment (hk : k.Sound []) {base len : Nat} {data : Bytes} {p : Perm} {r : Except SpawnError Unit}
    (h : k.loadSegment i base len data p = (r, k')) : k'.Sound [] := by
  have hp := hk.loadPages i base data p (pageSteps base (base + len))
  rw [Kernel.loadSegment] at h
  rwa [h] at hp

theorem loadImage (hk : k.Sound []) {r : Except SpawnError Unit} (h : k.loadImage i img brk = (r, k')) :
    k'.Sound [] := by
  rcases loadImage_induction (Q := fun k => k.Sound []) h hk fun hk _ hs => hk.loadSegment hs with
    ⟨-, hk'⟩ | ⟨-, k₁, hk₁, rfl⟩
  · exact hk'
  · exact hk₁.modifyEnv (f := fun e => { e with
      regs := { e.regs.setSp stackTop.toUInt64 with sepc := textBase.toUInt64 }, status := .runnable }) (fun _ => rfl) i

/-- **Starting a program keeps a kernel sound**, also if it fails half way. -/
theorem spawn (hk : k.Sound []) {r : Except SpawnError Spawned} (h : k.spawn img = (r, k')) : k'.Sound [] := by
  cases r with
  | error err =>
    rcases spawn_error h with rfl | ⟨e, hc⟩ | ⟨i, brk, k₁, k₂, -, hc, hl, rfl⟩
    · exact hk
    · exact hk.of_bare (bare_createEnv_error hc)
    · exact (((hk.createEnv hc).loadImage hl).log _).destroyEnv i
  | ok s =>
    obtain ⟨k₁, k₂, -, hc, hl, rfl⟩ := spawn_ok h
    exact (((hk.createEnv hc).loadImage hl).withScheduler _).log _

end Sound
end Exokernel.Kernel
