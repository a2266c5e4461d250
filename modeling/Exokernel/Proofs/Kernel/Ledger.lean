import Exokernel.Proofs.Kernel.Sharing
import Exokernel.Proofs.Syscall.Checks
/-!
# The holds of a frame

An entry of a page table has one hold of the frame that it maps.  So mapping a page otherwise takes a hold from the frame
that was there and gives one to the frame that comes in its place, and no other frame of a page gains or loses any.
-/
namespace Exokernel

/-- The number of holds that an entry has of a frame: one, of the frame that it maps. -/
def holdsOf (o : Option Pte) (g : Frame) : Nat := if o.map Pte.frame = some g then 1 else 0

@[simp] theorem holdsOf_none (g : Frame) : holdsOf none g = 0 := rfl

theorem holdsOf_some (p : Pte) (g : Frame) : holdsOf (some p) g = if p.frame = g then 1 else 0 := by
  simp [holdsOf]

theorem holdsOf_self (p : Pte) : holdsOf (some p) p.frame = 1 := by rw [holdsOf_some, if_pos rfl]

theorem holdsOf_of_ne {o : Option Pte} {g : Frame} (h : ∀ p, o = some p → p.frame ≠ g) : holdsOf o g = 0 := by
  cases o with
  | none => rfl
  | some p => rw [holdsOf_some, if_neg (h p rfl)]

theorem count_frames (o : Option Pte) (g : Frame) : (o.toList.map Pte.frame).count g = holdsOf o g := by
  cases o with
  | none => rfl
  | some p => simp [holdsOf, List.count_singleton, beq_iff_eq]

namespace AddressSpace

variable {s s' : AddressSpace} {m m' : Machine} {pool : Nat} {f g : Frame} {v : VirtAddr} {p : Perm}

/-- **A frame in use gains a hold when it is mapped and loses one when it gives way.** -/
theorem refs_map (hm : m.Tidy) (hf : 0 < m.refs f) (h : s.map m pool f v p = (.ok s', m')) (hg : 0 < m.refs g) :
    m'.refs g + holdsOf (s.lookup v) g = m.refs g + holdsOf (some ⟨f, p⟩) g ∧
      (g ∉ s.table.pagingFrames → g ∉ s'.table.pagingFrames) := by
  obtain ⟨d, t, m₁, hi, rfl, rfl⟩ := map_ok h
  have hd : d = s.lookup v := by
    rw [PageTable.eq_lookup_of_insert hi]
    exact PageTable.lookup_congr (by rw [VirtAddr.pageDown_pageDown])
  have hle : holdsOf d g ≤ 1 := by
    unfold holdsOf
    split <;> decide
  have hretain := Machine.refs_retain hf g
  have hnew : holdsOf (some ⟨f, p⟩) g = if f = g then 1 else 0 := holdsOf_some _ _
  rw [← hd, Machine.refs_releaseAll, count_frames]
  rcases (PageTable.frames_insert hi).1 with ⟨rfl, hp⟩ | ⟨b, ha, hp⟩
  · refine ⟨by omega, fun hn => (hp.mem_iff.not).2 hn⟩
  · -- the frame of a new page-table page was in nobody's use
    have hfree := Machine.refs_of_alloc (hm.retain hf) ha
    have hbg : b ≠ g := by
      rintro rfl
      omega
    have halloc := Machine.refs_alloc (hm.retain hf) ha g
    rw [if_neg hbg] at halloc
    refine ⟨by omega, fun hn => (hp.mem_iff.not).2 fun hmem => ?_⟩
    rcases List.mem_cons.1 hmem with rfl | hmem
    · exact hbg rfl
    · exact hn hmem

/-- **A frame of a page loses a hold when it is unmapped**, and no other frame of a page loses any. -/
theorem refs_unmap (h : s.unmap m v = (s', m')) (hg : g ∉ s.table.pagingFrames)
    (hpos : ∀ q, s.lookup v = some q → 0 < m.refs q.frame) :
    m'.refs g + holdsOf (s.lookup v) g = m.refs g ∧ g ∉ s'.table.pagingFrames := by
  obtain ⟨d, t, m₁, hr, rfl, rfl⟩ := unmap_eq h
  have hd : d = s.lookup v := by
    have hfst := PageTable.fst_remove s.table m v.pageDown
    rw [hr] at hfst
    exact hfst.trans (PageTable.lookup_congr (by rw [VirtAddr.pageDown_pageDown]))
  have hle : holdsOf d g ≤ m.refs g := by
    cases hc : d with
    | none => exact Nat.zero_le _
    | some q =>
      rw [holdsOf_some]
      split
      next hq =>
        have := hpos q (hd.symm.trans hc)
        rw [hq] at this
        exact this
      next => exact Nat.zero_le _
  rw [← hd, Machine.refs_releaseAll, count_frames]
  rcases (PageTable.frames_remove hr).1 with ⟨rfl, hp⟩ | ⟨b, rfl, hp⟩
  · exact ⟨by omega, (hp.mem_iff.not).2 hg⟩
  · have hbg : b ≠ g := by
      rintro rfl
      exact hg (hp.mem_iff.1 List.mem_cons_self)
    have hrel := Machine.refs_release m b g
    rw [if_neg hbg] at hrel
    exact ⟨by omega, fun hn => hg (hp.mem_iff.1 (List.mem_cons_of_mem _ hn))⟩

end AddressSpace

/-! ## The number of frames -/

namespace Machine

theorem capacity_modifyPool (m : Machine) (i j : Nat) {f : Pool → Pool} (hf : ∀ p, (f p).capacity = p.capacity) :
    (m.modifyPool i f).capacity j = m.capacity j := by
  simp only [capacity, pool_modifyPool, Option.map_map]
  congr 2
  funext p
  by_cases hp : i = j <;> simp [hp, hf]

theorem capacity_alloc (m : Machine) (i j : Nat) : (m.alloc i).2.capacity j = m.capacity j := by
  unfold alloc
  cases hp : m.pools[i]? with
  | none => rfl
  | some p =>
    have hcap := p.capacity_alloc
    have hset (q : Pool) (hq : q.capacity = p.capacity) :
        capacity { m with pools := m.pools.setIfInBounds i q } j = m.capacity j := by
      simp only [capacity, Array.getElem?_setIfInBounds]
      split
      next hij =>
        subst hij
        rw [hp]
        split <;> simp [hq, (Array.getElem?_eq_some_iff.1 hp).1] at *
      next => rfl
    dsimp only
    split <;> exact hset _ hcap

theorem capacity_retain (m : Machine) (f : Frame) (j : Nat) : (m.retain f).capacity j = m.capacity j :=
  m.capacity_modifyPool _ _ fun p => p.capacity_retain _

theorem capacity_release (m : Machine) (f : Frame) (j : Nat) : (m.release f).capacity j = m.capacity j :=
  m.capacity_modifyPool _ _ fun p => p.capacity_release _

theorem capacity_write (m : Machine) (f : Frame) (o : Nat) (d : Bytes) (j : Nat) :
    (m.write f o d).capacity j = m.capacity j :=
  m.capacity_modifyPool _ _ fun p => p.capacity_write _ _ _

theorem capacity_releaseAll (fs : List Frame) (m : Machine) (j : Nat) : (m.releaseAll fs).capacity j = m.capacity j := by
  induction fs generalizing m with
  | nil => rfl
  | cons f fs ih => exact (ih (m.release f)).trans (m.capacity_release f j)

end Machine

namespace AddressSpace

variable {s s' : AddressSpace} {m m' : Machine} {pool : Nat} {f : Frame} {v : VirtAddr} {p : Perm}

theorem capacity_map (h : s.map m pool f v p = (.ok s', m')) (j : Nat) : m'.capacity j = m.capacity j := by
  obtain ⟨d, t, m₁, hi, -, rfl⟩ := map_ok h
  rw [Machine.capacity_releaseAll]
  rcases (PageTable.frames_insert hi).1 with ⟨rfl, -⟩ | ⟨b, ha, -⟩
  · exact m.capacity_retain f j
  · have halloc := (m.retain f).capacity_alloc pool j
    rw [ha, m.capacity_retain] at halloc
    exact halloc

theorem capacity_unmap (h : s.unmap m v = (s', m')) (j : Nat) : m'.capacity j = m.capacity j := by
  obtain ⟨d, t, m₁, hr, -, rfl⟩ := unmap_eq h
  rw [Machine.capacity_releaseAll]
  rcases (PageTable.frames_remove hr).1 with ⟨rfl, -⟩ | ⟨b, rfl, -⟩
  · rfl
  · exact m.capacity_release b j

end AddressSpace

theorem Machine.supply_write (m : Machine) (f : Frame) (o : Nat) (d : Bytes) (i : Nat) :
    (m.write f o d).supply i = m.supply i := by
  simp only [supply, write, pool_modifyPool, Option.map_map]
  congr 2
  funext p
  by_cases hp : f.pool = i <;> simp [hp, Pool.write, Pool.supply]

namespace Kernel

variable {k k' k₁ : Kernel} {i j t : EnvId} {e : Env} {f g : Frame} {v : VirtAddr} {p : Perm} {q : Pte} {o : Option Pte}
  {H : List Frame}

/-! ## Frames of pages -/

/-- No page table consists of the frame: it is free or the frame of a page. -/
def Loose (k : Kernel) (g : Frame) : Prop := g ∉ k.envs.pagingFrames

theorem Sound.loose_of_mappings (hk : k.Sound H) (h : k.mappings j v = some q) : k.Loose q.frame := by
  obtain ⟨e, he, hl⟩ := Option.bind_eq_some_iff.1 h
  exact fun hp => hk.balanced.apart _ hp (List.mem_append_left _ (EnvTable.mem_leafFrames he hl))

theorem Sound.loose_of_refs (hk : k.Sound H) (h : k.machine.refs g = 0) : k.Loose g :=
  (hk.balanced.not_mem_of_refs h).1

theorem loose_congr (h : k'.envs.pagingFrames = k.envs.pagingFrames) : k'.Loose g ↔ k.Loose g := by
  rw [Loose, h, Loose]

theorem loose_modifyEnv {f : Env → Env} (hf : ∀ e, (f e).space = e.space) : (k.modifyEnv i f).Loose g ↔ k.Loose g :=
  loose_congr (EnvTable.pagingFrames_modify hf)

/-- **What the frames of pages gain and lose when a page is mapped.** -/
theorem Sound.refs_mapInto (hk : k.Sound H) (he : k.env? e.id = some e) (hf : 0 < k.machine.refs f)
    (h : k.mapInto e f v p = (.ok (), k')) (hg : 0 < k.machine.refs g) :
    k'.machine.refs g + holdsOf (e.space.lookup v) g = k.machine.refs g + holdsOf (some ⟨f, p⟩) g ∧
      (k.Loose g → k'.Loose g) := by
  obtain ⟨s, m, hm, rfl⟩ := mapInto_ok h
  obtain ⟨hrefs, hpaging⟩ := AddressSpace.refs_map hk.balanced.tidy hf hm hg
  obtain ⟨P, L, hP, -, hmod, -, -⟩ := EnvTable.frames_of_get? he
  obtain ⟨hP', -⟩ := hmod fun e => { e with space := s }
  refine ⟨hrefs, fun hl hmem => ?_⟩
  rcases List.mem_append.1 (hP'.mem_iff.1 hmem) with hs | hrest
  · exact hpaging (fun hin => hl (hP.mem_iff.2 (List.mem_append_left _ hin))) hs
  · exact hl (hP.mem_iff.2 (List.mem_append_right _ hrest))

/-- **What the frames of pages lose when a page is unmapped.** -/
theorem Sound.refs_unmapFrom (hk : k.Sound H) (he : k.env? e.id = some e) (v : VirtAddr) (hl : k.Loose g) :
    (k.unmapFrom e v).machine.refs g + holdsOf (e.space.lookup v) g = k.machine.refs g ∧ (k.unmapFrom e v).Loose g := by
  obtain ⟨P, L, hP, -, hmod, -, -⟩ := EnvTable.frames_of_get? he
  unfold Kernel.unmapFrom
  cases hu : e.space.unmap k.machine v with
  | mk s m =>
    obtain ⟨hP', -⟩ := hmod fun e => { e with space := s }
    obtain ⟨hrefs, hpaging⟩ := AddressSpace.refs_unmap hu (g := g)
      (fun hin => hl (hP.mem_iff.2 (List.mem_append_left _ hin))) fun q hq => hk.refs_pos_of_lookup he hq
    refine ⟨hrefs, fun hmem => ?_⟩
    rcases List.mem_append.1 (hP'.mem_iff.1 hmem) with hs | hrest
    · exact hpaging hs
    · exact hl (hP.mem_iff.2 (List.mem_append_right _ hrest))

/-! ## What stays -/

/-- **Only statuses and the scheduler change when the processor is given to somebody.** -/
theorem dispatch_induction {Q : Kernel → Prop} (h : k.dispatch i = .ok k') (hk : Q k)
    (status : ∀ k j (f : EnvStatus → EnvStatus), Q k → Q (k.modifyEnv j fun e => { e with status := f e.status }))
    (scheduler : ∀ k s, Q k → Q { k with scheduler := s }) : Q k' := by
  obtain ⟨-, -, -, ⟨-, rfl⟩ | ⟨-, rfl⟩⟩ := dispatch_ok h
  · exact status k i (fun _ => .running) hk
  refine status _ i (fun _ => .running) (scheduler _ _ ?_)
  unfold Kernel.preempt
  split
  · exact hk
  next j _ =>
    refine scheduler _ _ ?_
    have hf : (fun e : Env => if e.status = .running then { e with status := .runnable } else e) =
        fun e : Env => { e with status := if e.status = .running then .runnable else e.status } := by
      funext e
      split <;> rfl
    rw [hf]
    exact status k j (fun s => if s = .running then .runnable else s) hk

/-- **Whoever is there stays who it is**: it keeps its parent, its upcall and, unless it is the program itself, its
registers. -/
def SelfSame (k k' : Kernel) (i : EnvId) : Prop :=
  ∀ j e, k.env? j = some e → ∃ e', k'.env? j = some e' ∧ e'.parent = e.parent ∧ e'.upcall = e.upcall ∧
    (j ≠ i → e'.regs = e.regs)

namespace SelfSame

theorem refl (k : Kernel) (i : EnvId) : k.SelfSame k i := fun _ e h => ⟨e, h, rfl, rfl, fun _ => rfl⟩

theorem trans (h : k.SelfSame k₁ i) (h' : k₁.SelfSame k' i) : k.SelfSame k' i := by
  intro j e he
  obtain ⟨e₁, he₁, hp₁, hu₁, hr₁⟩ := h j e he
  obtain ⟨e₂, he₂, hp₂, hu₂, hr₂⟩ := h' j e₁ he₁
  exact ⟨e₂, he₂, hp₂.trans hp₁, hu₂.trans hu₁, fun hj => (hr₂ hj).trans (hr₁ hj)⟩

theorem of_envs (g : EnvId → Env → Env) (he : ∀ j, k'.env? j = (k.env? j).map (g j))
    (hp : ∀ j e, (g j e).parent = e.parent) (hu : ∀ j e, (g j e).upcall = e.upcall)
    (hr : ∀ j e, j ≠ i → (g j e).regs = e.regs) : k.SelfSame k' i :=
  fun j e h => ⟨g j e, by rw [he, h, Option.map_some], hp j e, hu j e, hr j e⟩

theorem of_eq (he : k'.envs = k.envs) (i : EnvId) : k.SelfSame k' i :=
  .of_envs (fun _ e => e) (fun j => by rw [env?_congr he, Option.map_id']) (fun _ _ => rfl) (fun _ _ => rfl)
    fun _ _ _ => rfl

theorem modifyEnv {g : Env → Env} (hid : ∀ e, (g e).id = e.id) (hp : ∀ e, (g e).parent = e.parent)
    (hu : ∀ e, (g e).upcall = e.upcall) (hr : t ≠ i → ∀ e, (g e).regs = e.regs) : k.SelfSame (k.modifyEnv t g) i := by
  refine .of_envs (fun j e => if t = j then g e else e) (fun j => env?_modifyEnv hid j) (fun j e => ?_) (fun j e => ?_)
    fun j e hj => ?_
  · split
    · exact hp e
    · rfl
  · split
    · exact hu e
    · rfl
  · split
    next htj => exact hr (by rwa [htj]) e
    next => rfl

theorem setRegisters (k : Kernel) (i : EnvId) (r : Registers) : k.SelfSame (k.setRegisters i r) i :=
  .modifyEnv (g := fun e => { e with regs := r }) (fun _ => rfl) (fun _ => rfl) (fun _ => rfl) fun h => absurd rfl h

theorem answered (k : Kernel) (i : EnvId) (ret : Word) :
    k.SelfSame (k.modifyEnv i fun e => { e with regs := e.regs.setA0 ret }) i :=
  .modifyEnv (g := fun e => { e with regs := e.regs.setA0 ret }) (fun _ => rfl) (fun _ => rfl) (fun _ => rfl)
    fun h => absurd rfl h

theorem setStatus (k : Kernel) (t : EnvId) (s : EnvStatus) (i : EnvId) : k.SelfSame (k.setStatus t s) i :=
  .modifyEnv (g := fun e => { e with status := s }) (fun _ => rfl) (fun _ => rfl) (fun _ => rfl) fun _ _ => rfl

theorem dispatch (h : k.dispatch j = .ok k') (i : EnvId) : k.SelfSame k' i :=
  dispatch_induction (Q := fun k' => k.SelfSame k' i) h (.refl k i)
    (fun _ _ f hs => hs.trans (.modifyEnv (g := fun e => { e with status := f e.status }) (fun _ => rfl) (fun _ => rfl)
      (fun _ => rfl) fun _ _ => rfl)) fun _ _ hs => hs.trans (.of_eq rfl i)

theorem mapInto (h : k.mapInto e f v p = (.ok (), k')) (i : EnvId) : k.SelfSame k' i := by
  obtain ⟨-, s, -, henv⟩ := env?_mapInto h
  refine .of_envs (fun j e' => if e.id = j then { e' with space := s } else e') henv (fun j e' => ?_) (fun j e' => ?_)
    fun j e' _ => ?_
  all_goals split <;> rfl

theorem unmapFrom (k : Kernel) (e : Env) (v : VirtAddr) (i : EnvId) : k.SelfSame (k.unmapFrom e v) i := by
  obtain ⟨-, s, -, henv⟩ := env?_unmapFrom k e v
  refine .of_envs (fun j e' => if e.id = j then { e' with space := s } else e') henv (fun j e' => ?_) (fun j e' => ?_)
    fun j e' _ => ?_
  all_goals split <;> rfl

end SelfSame

/-! ## What is left -/

/-- **No page is mapped otherwise and no frame is taken or given back**: there is as much left to take as before. -/
structure Inert (k k' : Kernel) : Prop where
  spaces (j : EnvId) : (k'.env? j).map Env.space = (k.env? j).map Env.space
  supply : k'.supply = k.supply

namespace Inert

theorem refl (k : Kernel) : k.Inert k := ⟨fun _ => rfl, rfl⟩

theorem trans (h : k.Inert k₁) (h' : k₁.Inert k') : k.Inert k' :=
  ⟨fun j => (h'.spaces j).trans (h.spaces j), h'.supply.trans h.supply⟩

theorem mappings (h : k.Inert k') : k'.mappings = k.mappings := by
  funext j v
  exact mappings_congr (h.spaces j) v

theorem room (h : k.Inert k') (t : EnvId) (a : Nat) : k'.room t a = k.room t a := by
  have hr (k : Kernel) : k.room t a = if ((k.env? t).map Env.space).any fun s =>
      (VirtAddr.ofNat? a).any fun v => (s.table.dir.get v.dirIndex).isSome then 0 else 1 := by
    rw [Kernel.room, Option.any_map]
  rw [hr, hr, h.spaces]

theorem of_modifyEnv {g : Env → Env} (hid : ∀ e, (g e).id = e.id) (hs : ∀ e, (g e).space = e.space) :
    k.Inert (k.modifyEnv i g) := by
  refine ⟨fun j => ?_, rfl⟩
  rw [env?_modifyEnv hid]
  cases k.env? j with
  | none => rfl
  | some e => by_cases hj : i = j <;> simp [hj, hs]

theorem log (k : Kernel) (l : Line) : k.Inert (k.log l) := ⟨fun _ => rfl, rfl⟩

theorem withScheduler (k : Kernel) (s : Scheduler) : k.Inert { k with scheduler := s } := ⟨fun _ => rfl, rfl⟩

theorem setRegisters (k : Kernel) (i : EnvId) (r : Registers) : k.Inert (k.setRegisters i r) :=
  .of_modifyEnv (g := fun e => { e with regs := r }) (fun _ => rfl) fun _ => rfl

theorem dispatch (h : k.dispatch i = .ok k') : k.Inert k' :=
  dispatch_induction (Q := fun k' => k.Inert k') h (.refl k)
    (fun _ _ f hs => hs.trans (.of_modifyEnv (g := fun e => { e with status := f e.status }) (fun _ => rfl) fun _ => rfl))
    fun _ s hs => hs.trans (.withScheduler _ s)

/-- Writing to memory takes no frame. -/
theorem write {s : AddressSpace} {m : Machine} {a : Nat} {data : Bytes} (h : s.write k.machine a data = .ok m) :
    k.Inert { k with machine := m } := by
  obtain ⟨-, rfl⟩ := AddressSpace.write_ok h
  refine ⟨fun _ => rfl, ?_⟩
  exact AddressSpace.writeParts_induction (Q := fun m => m.supply pool = k.machine.supply pool)
    (fun m e o d hm _ => (Machine.supply_write m e.frame o d pool).trans hm) _ _ _ rfl

end Inert

end Kernel
end Exokernel
