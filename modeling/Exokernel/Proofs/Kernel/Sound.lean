import Exokernel.Proofs.Env.Table
import Exokernel.Proofs.Kernel.Run
import Exokernel.Proofs.Paging.Access
/-!
# Sound kernels

A kernel is sound if its machine is balanced against the page tables of the live environments and the frames that the
kernel itself has in hand.  Every building block of the kernel keeps that: it takes a frame in hand, maps one, gives one
back, or makes or ends an environment.  A building block that fails leaves no trace but in the budget and the console.
-/
namespace Exokernel

/-! ## The frames of the live environments -/

namespace EnvTable

/-- The frames that the page tables of the live environments consist of. -/
def pagingFrames (t : EnvTable) : List Frame := t.toList.flatMap fun e => e.space.table.pagingFrames

/-- The frames of the pages of the live environments, once for each entry. -/
def leafFrames (t : EnvTable) : List Frame := t.toList.flatMap fun e => e.space.table.leafFrames

variable {t : EnvTable} {i : EnvId} {e : Env}

/-- The part of one environment in the frames of all. -/
theorem frames_of_get? (h : t.get? i = some e) : ∃ P L,
    t.pagingFrames.Perm (e.space.table.pagingFrames ++ P) ∧ t.leafFrames.Perm (e.space.table.leafFrames ++ L) ∧
    (∀ f, (t.modify i f).pagingFrames.Perm ((f e).space.table.pagingFrames ++ P) ∧
      (t.modify i f).leafFrames.Perm ((f e).space.table.leafFrames ++ L)) ∧
    (t.remove i).pagingFrames = P ∧ (t.remove i).leafFrames = L := by
  obtain ⟨A, B, hl, hm, hr⟩ := toList_of_get? h
  have mid (g : Env → List Frame) (e : Env) : ((A ++ e :: B).flatMap g).Perm (g e ++ (A ++ B).flatMap g) := by
    simp only [List.flatMap_append, List.flatMap_cons]
    exact List.perm_append_comm_assoc _ _ _
  refine ⟨(A ++ B).flatMap fun e => e.space.table.pagingFrames, (A ++ B).flatMap fun e => e.space.table.leafFrames,
    ?_, ?_, fun f => ⟨?_, ?_⟩, ?_, ?_⟩
  · rw [pagingFrames, hl]; exact mid _ e
  · rw [leafFrames, hl]; exact mid _ e
  · rw [pagingFrames, hm]; exact mid _ (f e)
  · rw [leafFrames, hm]; exact mid _ (f e)
  · rw [pagingFrames, hr]
  · rw [leafFrames, hr]

theorem leafFrames_subset (h : t.get? i = some e) {f : Frame} (hf : f ∈ e.space.table.leafFrames) : f ∈ t.leafFrames :=
  List.mem_flatMap.2 ⟨e, mem_toList h, hf⟩

theorem mem_leafFrames (h : t.get? i = some e) {v : VirtAddr} {pte : Pte} (hl : e.space.lookup v = some pte) :
    pte.frame ∈ t.leafFrames :=
  leafFrames_subset h (PageTable.mem_leafFrames hl)

theorem flatMap_modify {α : Type} (g : AddressSpace → List α) {f : Env → Env} (hf : ∀ e, (f e).space = e.space) :
    ((t.modify i f).toList.flatMap fun e => g e.space) = t.toList.flatMap fun e => g e.space := by
  cases h : t.get? i with
  | none => rw [modify_of_get?_none h]
  | some e =>
    obtain ⟨A, B, hl, hm, -⟩ := toList_of_get? h
    rw [hl, hm]
    simp [hf]

theorem pagingFrames_modify {f : Env → Env} (hf : ∀ e, (f e).space = e.space) :
    (t.modify i f).pagingFrames = t.pagingFrames := flatMap_modify (fun s => s.table.pagingFrames) hf

theorem leafFrames_modify {f : Env → Env} (hf : ∀ e, (f e).space = e.space) :
    (t.modify i f).leafFrames = t.leafFrames := flatMap_modify (fun s => s.table.leafFrames) hf

end EnvTable

namespace Kernel

/-- A kernel but for the budget and the console. -/
def bare (k : Kernel) : Kernel := { k with machine := k.machine.bare }

/-- **The books are right.**  `held` lists the frames that the kernel has in hand, which no environment holds yet. -/
structure Sound (k : Kernel) (held : List Frame) : Prop where
  balanced : k.machine.Balanced k.envs.pagingFrames (k.envs.leafFrames ++ held)
  capacity : k.envs.capacity ≤ maxEnvSlots

variable {k k' : Kernel} {H : List Frame} {i : EnvId} {e : Env} {f : Frame} {v : VirtAddr} {p : Perm}

theorem bare_eq (hm : k'.machine.bare = k.machine.bare) (hc : k'.config = k.config) (he : k'.envs = k.envs)
    (hs : k'.scheduler = k.scheduler) : k'.bare = k.bare := by
  simp only [bare, hm, hc, he, hs]

theorem machine_of_bare (h : k'.bare = k.bare) : k'.machine.bare = k.machine.bare := congrArg Kernel.machine h

theorem envs_of_bare (h : k'.bare = k.bare) : k'.envs = k.envs :=
  show k'.bare.envs = k.bare.envs by rw [h]

theorem env?_congr (h : k'.envs = k.envs) (j : EnvId) : k'.env? j = k.env? j := by rw [env?, h, env?]

theorem env?_modifyEnv {f : Env → Env} (hf : ∀ e, (f e).id = e.id) (j : EnvId) :
    (k.modifyEnv i f).env? j = (k.env? j).map fun e => if i = j then f e else e :=
  EnvTable.get?_modify _ _ _ _ hf

theorem env?_modifyEnv_of_ne {f : Env → Env} (hf : ∀ e, (f e).id = e.id) {j : EnvId} (h : i ≠ j) :
    (k.modifyEnv i f).env? j = k.env? j := by
  rw [env?_modifyEnv hf]
  cases k.env? j with
  | none => rfl
  | some e => rw [Option.map_some, if_neg h]

@[simp] theorem env?_log (k : Kernel) (l : Line) (j : EnvId) : (k.log l).env? j = k.env? j := rfl

@[simp] theorem env?_withMachine (k : Kernel) (m : Machine) (j : EnvId) : env? { k with machine := m } j = k.env? j :=
  rfl

theorem bare_modifyEnv (k : Kernel) (i : EnvId) (f : Env → Env) : (k.modifyEnv i f).bare = k.bare.modifyEnv i f := rfl

@[simp] theorem bare_log (k : Kernel) (l : Line) : (k.log l).bare = k.bare := rfl

@[simp] theorem bare_failAfter (k : Kernel) (n : Nat) : (k.failAfter n).bare = k.bare :=
  bare_eq (Machine.bare_modifyPool _ _ _ fun _ => rfl) rfl rfl rfl

@[simp] theorem bare_clearFailure (k : Kernel) : k.clearFailure.bare = k.bare :=
  bare_eq (Machine.bare_modifyPool _ _ _ fun _ => rfl) rfl rfl rfl

/-! ## What leaves the books alone -/

namespace Sound

theorem of_frames (hk : k.Sound H) (hm : k'.machine.bare = k.machine.bare)
    (hp : k'.envs.pagingFrames = k.envs.pagingFrames) (hl : k'.envs.leafFrames = k.envs.leafFrames)
    (hc : k'.envs.capacity = k.envs.capacity) : k'.Sound H :=
  ⟨by rw [hp, hl]; exact hk.balanced.of_bare hm, by rw [hc]; exact hk.capacity⟩

theorem of_bare (hk : k.Sound H) (h : k'.bare = k.bare) : k'.Sound H := by
  have he := envs_of_bare h
  exact hk.of_frames (machine_of_bare h) (by rw [he]) (by rw [he]) (by rw [he])

theorem log (hk : k.Sound H) (l : Line) : (k.log l).Sound H := hk.of_bare (bare_log k l)

theorem modifyEnv (hk : k.Sound H) {f : Env → Env} (hf : ∀ e, (f e).space = e.space) (i : EnvId) :
    (k.modifyEnv i f).Sound H :=
  hk.of_frames rfl (EnvTable.pagingFrames_modify hf) (EnvTable.leafFrames_modify hf) (EnvTable.capacity_modify _ _ _)

theorem setStatus (hk : k.Sound H) (i : EnvId) (s : EnvStatus) : (k.setStatus i s).Sound H :=
  hk.modifyEnv (f := fun e => { e with status := s }) (fun _ => rfl) i

theorem setRegisters (hk : k.Sound H) (i : EnvId) (r : Registers) : (k.setRegisters i r).Sound H :=
  hk.modifyEnv (f := fun e => { e with regs := r }) (fun _ => rfl) i

theorem withScheduler (hk : k.Sound H) (s : Scheduler) : Kernel.Sound { k with scheduler := s } H := ⟨hk.balanced, hk.capacity⟩

theorem refs_pos (hk : k.Sound H) (hf : f ∈ k.envs.leafFrames ++ H) : 0 < k.machine.refs f := hk.balanced.refs_pos hf

theorem refs_pos_of_lookup (hk : k.Sound H) (he : k.env? i = some e) {pte : Pte} (hl : e.space.lookup v = some pte) :
    0 < k.machine.refs pte.frame :=
  hk.refs_pos (List.mem_append_left _ (EnvTable.mem_leafFrames he hl))

theorem refs_pos_of_mem (hk : k.Sound H) (he : k.env? i = some e) (hf : f ∈ e.space.table.leafFrames) :
    0 < k.machine.refs f :=
  hk.refs_pos (List.mem_append_left _ (EnvTable.leafFrames_subset he hf))

end Sound

/-! ## Frames in hand -/

theorem allocFrame_some (h : k.allocFrame = (some f, k')) :
    ∃ m, k.machine.alloc pool = (some f, m) ∧ k' = { k with machine := m } := by
  unfold allocFrame at h
  cases ha : k.machine.alloc pool with
  | mk o m => rw [ha] at h; cases h; exact ⟨m, rfl, rfl⟩

theorem env?_allocFrame {f : Frame} (h : k.allocFrame = (some f, k')) (j : EnvId) : k'.env? j = k.env? j := by
  obtain ⟨m, -, rfl⟩ := allocFrame_some h
  rfl

theorem bare_allocFrame_none (h : k.allocFrame = (none, k')) : k'.bare = k.bare := by
  unfold allocFrame at h
  cases ha : k.machine.alloc pool with
  | mk o m => rw [ha] at h; cases h; exact bare_eq (Machine.bare_alloc_none ha) rfl rfl rfl

/-- A frame that is handed out was blank. -/
theorem page_of_allocFrame (hk : k.Sound H) (h : k.allocFrame = (some f, k')) : k.machine.page f = Page.zero := by
  obtain ⟨m, ha, rfl⟩ := allocFrame_some h
  rw [← Machine.page_alloc hk.balanced.tidy ha f, Machine.page_of_alloc hk.balanced.tidy ha]

/-- **A frame that is given back at once leaves no trace.** -/
theorem bare_releaseFrame_allocFrame (hk : k.Sound H) {k₁ : Kernel} (h : k.allocFrame = (some f, k₁))
    (hb : k'.bare = k₁.bare) : (k'.releaseFrame f).bare = k.bare := by
  obtain ⟨m, ha, rfl⟩ := allocFrame_some h
  have hm : (k'.machine.release f).bare = k.machine.bare := by
    rw [Machine.bare_release, machine_of_bare hb, ← Machine.bare_release]
    exact Machine.bare_release_alloc hk.balanced.tidy ha
  have hc : k'.config = k.config := show k'.bare.config = k.config by rw [hb]; rfl
  have he := envs_of_bare hb
  have hs : k'.scheduler = k.scheduler := show k'.bare.scheduler = k.scheduler by rw [hb]; rfl
  exact bare_eq hm hc he hs

namespace Sound

theorem allocFrame (hk : k.Sound H) (h : k.allocFrame = (some f, k')) : k'.Sound (f :: H) := by
  obtain ⟨m, ha, rfl⟩ := allocFrame_some h
  exact ⟨(hk.balanced.alloc_leaf ha).perm (List.Perm.refl _) List.perm_middle.symm, hk.capacity⟩

theorem releaseFrame (hk : k.Sound (f :: H)) : (k.releaseFrame f).Sound H :=
  ⟨(hk.balanced.perm (List.Perm.refl _) List.perm_middle).release, hk.capacity⟩

theorem writeFrame (hk : k.Sound (f :: H)) (o : Nat) (d : Bytes) :
    Kernel.Sound { k with machine := k.machine.write f o d } (f :: H) :=
  ⟨hk.balanced.write (List.mem_append_right _ List.mem_cons_self) o d, hk.capacity⟩

end Sound

/-! ## Mapping and unmapping -/

theorem mapInto_ok (h : k.mapInto e f v p = (.ok (), k')) : ∃ s m, e.space.map k.machine pool f v p = (.ok s, m) ∧
    k' = { k with machine := m }.modifyEnv e.id fun e => { e with space := s } := by
  unfold mapInto at h
  split at h
  · cases h
  next s m hm =>
    cases h
    exact ⟨s, m, hm, rfl⟩

theorem envs_mapInto_error {err : MapError} (h : k.mapInto e f v p = (.error err, k')) : k'.envs = k.envs := by
  unfold mapInto at h
  split at h
  · cases h
    rfl
  · cases h

theorem env?_mapInto (h : k.mapInto e f v p = (.ok (), k')) : k'.scheduler = k.scheduler ∧
    ∃ s : AddressSpace, (∀ w, s.lookup w = if v.pageDown = w.pageDown then some ⟨f, p⟩ else e.space.lookup w) ∧
    ∀ j, k'.env? j = (k.env? j).map fun e' => if e.id = j then { e' with space := s } else e' := by
  obtain ⟨s, m, hm, rfl⟩ := mapInto_ok h
  refine ⟨rfl, s, AddressSpace.lookup_map hm, fun j => ?_⟩
  rw [env?_modifyEnv (f := fun e => { e with space := s }) fun _ => rfl]
  rfl

theorem bare_mapInto_error {err : MapError} (hf : 0 < k.machine.refs f) (h : k.mapInto e f v p = (.error err, k')) :
    k'.bare = k.bare := by
  unfold mapInto at h
  split at h
  next m hm =>
    cases h
    exact bare_eq (AddressSpace.bare_map_error hf hm) rfl rfl rfl
  next => cases h

/-! ## Bytes -/

theorem page_releaseFrame {g : Frame} (hg : 0 < (k.releaseFrame f).machine.refs g) :
    0 < k.machine.refs g ∧ (k.releaseFrame f).machine.page g = k.machine.page g := by
  refine ⟨?_, Machine.page_releaseAll [f] hg⟩
  have hr : (k.releaseFrame f).machine.refs g = _ := Machine.refs_release k.machine f g
  omega

theorem Sound.page_mapInto (hk : k.Sound H) {g : Frame} (hf : 0 < k.machine.refs f)
    (h : k.mapInto e f v p = (.ok (), k')) (hg : 0 < k'.machine.refs g) : k'.machine.page g = k.machine.page g := by
  obtain ⟨s, m, hm, rfl⟩ := mapInto_ok h
  exact AddressSpace.page_map hk.balanced.tidy hf hm hg

theorem Sound.refs_le_mapInto (hk : k.Sound H) {g : Frame} (hf : 0 < k.machine.refs f)
    (h : k.mapInto e f v p = (.ok (), k')) (hg : ∀ q, e.space.lookup v = some q → q.frame ≠ g) :
    k.machine.refs g ≤ k'.machine.refs g := by
  obtain ⟨s, m, hm, rfl⟩ := mapInto_ok h
  exact AddressSpace.refs_le_map hk.balanced.tidy hf hm hg

theorem env?_unmapFrom (k : Kernel) (e : Env) (v : VirtAddr) : (k.unmapFrom e v).scheduler = k.scheduler ∧
    ∃ s : AddressSpace, (∀ w, s.lookup w = if v.pageDown = w.pageDown then none else e.space.lookup w) ∧
    ∀ j, (k.unmapFrom e v).env? j = (k.env? j).map fun e' => if e.id = j then { e' with space := s } else e' := by
  unfold unmapFrom
  cases hu : e.space.unmap k.machine v with
  | mk s m =>
    refine ⟨rfl, s, AddressSpace.lookup_unmap hu, fun j => ?_⟩
    dsimp only
    rw [env?_modifyEnv (f := fun e => { e with space := s }) fun _ => rfl]
    rfl

namespace Sound

theorem mapInto (hk : k.Sound H) (he : k.env? e.id = some e) (hf : f ∈ k.envs.leafFrames ++ H)
    (h : k.mapInto e f v p = (.ok (), k')) : k'.Sound H := by
  obtain ⟨s, m, hm, rfl⟩ := mapInto_ok h
  obtain ⟨P, L, hP, hL, hmod, -, -⟩ := EnvTable.frames_of_get? he
  obtain ⟨hP', hL'⟩ := hmod fun e => { e with space := s }
  have hLH : (k.envs.leafFrames ++ H).Perm (e.space.table.leafFrames ++ (L ++ H)) := by
    rw [← List.append_assoc]
    exact hL.append_right H
  refine ⟨?_, Nat.le_trans (Nat.le_of_eq (EnvTable.capacity_modify _ _ _)) hk.capacity⟩
  refine (AddressSpace.balanced_map (hk.balanced.perm hP hLH) (hLH.mem_iff.1 hf) hm).perm hP'.symm ?_
  rw [← List.append_assoc]
  exact hL'.symm.append_right H

theorem unmapFrom (hk : k.Sound H) (he : k.env? e.id = some e) (v : VirtAddr) : (k.unmapFrom e v).Sound H := by
  obtain ⟨P, L, hP, hL, hmod, -, -⟩ := EnvTable.frames_of_get? he
  unfold Kernel.unmapFrom
  cases hu : e.space.unmap k.machine v with
  | mk s m =>
    obtain ⟨hP', hL'⟩ := hmod fun e => { e with space := s }
    have hLH : (k.envs.leafFrames ++ H).Perm (e.space.table.leafFrames ++ (L ++ H)) := by
      rw [← List.append_assoc]
      exact hL.append_right H
    refine ⟨?_, Nat.le_trans (Nat.le_of_eq (EnvTable.capacity_modify _ _ _)) hk.capacity⟩
    refine (AddressSpace.balanced_unmap (hk.balanced.perm hP hLH) hu).perm hP'.symm ?_
    rw [← List.append_assoc]
    exact hL'.symm.append_right H

theorem write (hk : k.Sound H) (he : k.env? i = some e) {a : Nat} {d : Bytes} {m : Machine}
    (h : e.space.write k.machine a d = .ok m) : Kernel.Sound { k with machine := m } H :=
  ⟨AddressSpace.balanced_write hk.balanced
    (fun _ hf => List.mem_append_left _ (EnvTable.leafFrames_subset he hf)) h, hk.capacity⟩

end Sound

/-! ## Making and ending environments -/

theorem createEnv_ok {parent : Option EnvId} (h : k.createEnv parent = (.ok i, k')) : ∃ n f m,
    k.envs.firstFree? = some n ∧ k.machine.alloc pool = (some f, m) ∧ i = EnvId.ofParts (k.envs.nextGeneration n) n ∧
    k' = Kernel.log { k with machine := m, envs := k.envs.fill n (k.envs.nextGeneration n) (.fresh i parent ⟨.empty f⟩) }
      (.envMade i parent) := by
  unfold createEnv AddressSpace.alloc PageTable.alloc at h
  split at h
  · cases h
  next n hn =>
    cases ha : k.machine.alloc pool with
    | mk o m =>
      rw [ha] at h
      cases o with
      | none => cases h
      | some f =>
        cases h
        exact ⟨n, f, m, hn, rfl, rfl, rfl⟩

theorem bare_createEnv_error {parent : Option EnvId} {err : EnvError} (h : k.createEnv parent = (.error err, k')) :
    k'.bare = k.bare := by
  unfold createEnv AddressSpace.alloc PageTable.alloc at h
  split at h
  · cases h; rfl
  next n hn =>
    cases ha : k.machine.alloc pool with
    | mk o m =>
      rw [ha] at h
      cases o with
      | none => cases h; exact bare_eq (Machine.bare_alloc_none ha) rfl rfl rfl
      | some f => cases h

/-- **What is found after an environment was made**: the new one, and every other as before. -/
theorem env?_createEnv (hk : k.Sound H) {parent : Option EnvId} (h : k.createEnv parent = (.ok i, k')) :
    k.env? i = none ∧ ∃ f, ∀ j, k'.env? j = if i = j then some (.fresh i parent ⟨.empty f⟩) else k.env? j := by
  obtain ⟨n, f, m, hn, -, rfl, rfl⟩ := createEnv_ok h
  refine ⟨EnvTable.get?_ofParts_of_firstFree? hn hk.capacity _, f, fun j => ?_⟩
  exact EnvTable.get?_fill_ofParts hn hk.capacity _ rfl j

/-- **Whoever is given the processor is live and may run**, and has it already or takes it from its holder. -/
theorem dispatch_ok (h : k.dispatch i = .ok k') : ∃ e, k.env? i = some e ∧ e.status.isRunnable ∧
    (k.current = some i ∧ k' = k.setStatus i .running ∨ k.current ≠ some i ∧
      k' = Kernel.setStatus { k.preempt with scheduler := k.preempt.scheduler.setCurrent (some i) } i .running) := by
  unfold dispatch at h
  split at h
  · cases h
  next e he =>
    split at h
    · cases h
    next hr =>
      cases h
      refine ⟨e, he, by simpa using hr, ?_⟩
      split
      next hc => exact Or.inl ⟨hc, rfl⟩
      next hc => exact Or.inr ⟨hc, rfl⟩

theorem page_createEnv (hk : k.Sound H) {parent : Option EnvId} (h : k.createEnv parent = (.ok i, k')) (f : Frame) :
    k'.machine.page f = k.machine.page f := by
  obtain ⟨n, g, m, -, hal, -, rfl⟩ := createEnv_ok h
  exact Machine.page_alloc hk.balanced.tidy hal f

theorem destroyEnv_of_env? (h : k.env? i = some e) : k.destroyEnv i =
    (.ok (), { k with
      envs := k.envs.remove i, scheduler := k.scheduler.remove i,
      machine := e.space.drop (k.machine.log (.envFreed i e.space.mappedPages)) }) := by
  rw [destroyEnv, h]
  rfl

theorem destroyEnv_ok (h : k.destroyEnv i = (.ok (), k')) : ∃ e, k.env? i = some e ∧ k' = { k with
    envs := k.envs.remove i, scheduler := k.scheduler.remove i,
    machine := e.space.drop (k.machine.log (.envFreed i e.space.mappedPages)) } := by
  cases he : k.env? i with
  | none => rw [destroyEnv, he] at h; cases h
  | some e =>
    rw [destroyEnv_of_env? he] at h
    cases h
    exact ⟨e, rfl, rfl⟩

theorem env?_destroyEnv (h : k.destroyEnv i = (.ok (), k')) (j : EnvId) :
    k'.env? j = if i = j then none else k.env? j := by
  obtain ⟨e, he, rfl⟩ := destroyEnv_ok h
  exact EnvTable.get?_remove _ _ _

theorem destroyEnv_of_env?_none (h : k.env? i = none) : k.destroyEnv i = (.error .badEnv, k) := by
  rw [destroyEnv, h]

theorem page_destroyEnv {i : EnvId} {f : Frame} (hf : 0 < (k.destroyEnv i).2.machine.refs f) :
    (k.destroyEnv i).2.machine.page f = k.machine.page f := by
  cases he : k.env? i with
  | none => rw [destroyEnv_of_env?_none he]
  | some e =>
    rw [destroyEnv_of_env? he] at hf ⊢
    exact Machine.page_releaseAll _ hf

namespace Sound

theorem createEnv (hk : k.Sound H) {parent : Option EnvId} (h : k.createEnv parent = (.ok i, k')) : k'.Sound H := by
  obtain ⟨n, f, m, hn, ha, rfl, rfl⟩ := createEnv_ok h
  refine log ?_ _
  obtain ⟨A, B, hl, hf⟩ := EnvTable.toList_fill hn (k.envs.nextGeneration n)
    (.fresh (.ofParts (k.envs.nextGeneration n) n) parent ⟨.empty f⟩)
  have hp : (PageTable.empty f).pagingFrames = [f] := by
    rw [PageTable.pagingFrames, PageTable.tables_empty]; rfl
  have hq : (PageTable.empty f).leafFrames = [] := by rw [PageTable.leafFrames, PageTable.tables_empty]; rfl
  refine ⟨(hk.balanced.alloc_paging ha).perm ?_ ?_, by rw [EnvTable.capacity_fill]; exact hk.capacity⟩
  · rw [EnvTable.pagingFrames, EnvTable.pagingFrames, hl, hf, List.flatMap_append, List.flatMap_append,
      List.flatMap_cons]
    show (f :: _).Perm (_ ++ ((PageTable.empty f).pagingFrames ++ _))
    rw [hp]
    exact List.perm_middle.symm
  · rw [EnvTable.leafFrames, EnvTable.leafFrames, hl, hf, List.flatMap_append, List.flatMap_append, List.flatMap_cons]
    show List.Perm _ (_ ++ ((PageTable.empty f).leafFrames ++ _) ++ _)
    rw [hq]
    exact List.Perm.refl _

/-- **An environment that ends gives back its frames.** -/
theorem destroyEnv (hk : k.Sound H) (i : EnvId) : (k.destroyEnv i).2.Sound H := by
  cases he : k.env? i with
  | none => rw [destroyEnv_of_env?_none he]; exact hk
  | some e =>
    rw [destroyEnv_of_env? he]
    obtain ⟨P, L, hP, hL, -, hrP, hrL⟩ := EnvTable.frames_of_get? he
    refine ⟨?_, by rw [EnvTable.capacity_remove]; exact hk.capacity⟩
    show Machine.Balanced _ (k.envs.remove i).pagingFrames ((k.envs.remove i).leafFrames ++ H)
    rw [hrP, hrL]
    have hb := (hk.balanced.perm hP (hL.append_right H)).of_bare
      (Machine.bare_log k.machine (.envFreed i e.space.mappedPages))
    rw [List.append_assoc] at hb
    exact AddressSpace.balanced_drop hb

end Sound
end Kernel
end Exokernel
