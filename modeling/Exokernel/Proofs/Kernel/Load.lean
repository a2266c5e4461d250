import Mathlib.Data.Finset.Card
import Exokernel.Proofs.Kernel.Ledger
import Exokernel.Proofs.Paging.Map
import Exokernel.Proofs.User.Spawn
/-!
# What it takes to load pages

A page that is loaded takes a frame for itself, and one more if it is the first of its region.  So it can be told before
the first page whether there is room for all of them (`loadPages_outcome`): if there is, each comes into a frame of its own
with the bytes that it is to show, and if not, nobody else notices the attempt.
-/
namespace Exokernel

/-- The region that an address lies in: what one page-table page maps. -/
def regionAt (a : Nat) : Nat := a / tableSpan

theorem VirtAddr.eq_of_raw {v w : VirtAddr} (h : v.raw = w.raw) : v = w := by
  cases v
  cases w
  cases h
  rfl

theorem VirtAddr.dirIndex_eq_iff {v w : VirtAddr} : v.dirIndex = w.dirIndex ↔ regionAt v.raw = regionAt w.raw := Fin.ext_iff

/-- The regions that some pages lie in. -/
def regionsOf (pages : List Nat) : Finset Nat := (pages.map regionAt).toFinset

/-- Only one environment has been changed in a table, and it has kept its id. -/
def EnvTable.Edited (t t' : EnvTable) (i : EnvId) : Prop := ∃ g : Env → Env, (∀ e, (g e).id = e.id) ∧ t' = t.modify i g

theorem EnvTable.Edited.refl (t : EnvTable) (i : EnvId) : t.Edited t i := by
  refine ⟨id, fun _ => rfl, ?_⟩
  have h : t.slots.modify i.index (fun s => { s with env := s.env.map fun e => if e.id = i then id e else e }) = t.slots :=
    modify_eq_self fun s _ => by cases s with | mk gen o => cases o <;> simp
  rw [modify, h]

theorem EnvTable.Edited.trans {t t₁ t' : EnvTable} {i : EnvId} (h : t.Edited t₁ i) (h' : t₁.Edited t' i) :
    t.Edited t' i := by
  obtain ⟨g, hg, rfl⟩ := h
  obtain ⟨g', hg', rfl⟩ := h'
  exact ⟨g' ∘ g, fun e => (hg' _).trans (hg e), t.modify_modify i hg⟩

/-! ## What an entry costs -/

theorem Machine.capacity_bare (m : Machine) (i : Nat) : m.bare.capacity i = m.capacity i := by
  simp only [capacity, pool_bare, Option.map_map]
  rfl

theorem Machine.free_bare (m : Machine) (i : Nat) : m.bare.free i = m.free i := by
  simp only [free, pool_bare, Option.map_map]
  rfl

/-- **A measure of what is left in the pool**: a frame that is handed out takes one, and what is done with frames in use
takes nothing. -/
structure Machine.Stock (σ : Machine → Nat) : Prop where
  alloc {m m' : Machine} {f : Frame} (h : m.alloc Kernel.pool = (some f, m')) : σ m = 1 + σ m'
  retain (m : Machine) (f : Frame) : σ (m.retain f) = σ m
  release {m : Machine} {f : Frame} (h : m.refs f ≠ 1) : σ (m.release f) = σ m

namespace Machine.Stock

/-- It is enough to measure the free frames of a pool, or as many of them as the budget allows. -/
theorem of_pool {s : Pool → Nat} (ha : ∀ {p p' : Pool} {n : Nat}, p.alloc = (.granted n, p') → s p = 1 + s p')
    (hs : ∀ p q : Pool, q.free = p.free → q.budget = p.budget → s q = s p) :
    Stock fun m => (m.pools[Kernel.pool]?.map s).getD 0 := by
  have modify (m : Machine) (i : Nat) (f : Pool → Pool)
      (hf : ∀ p, m.pools[i]? = some p → (f p).free = p.free ∧ (f p).budget = p.budget) :
      ((m.modifyPool i f).pools[Kernel.pool]?.map s).getD 0 = (m.pools[Kernel.pool]?.map s).getD 0 := by
    rw [pool_modifyPool]
    cases hp : m.pools[Kernel.pool]? with
    | none => rfl
    | some p =>
      simp only [Option.map_some, Option.getD_some]
      split
      next hi =>
        obtain ⟨hfree, hbudget⟩ := hf p (by rw [hi, hp])
        exact hs p _ hfree hbudget
      next => rfl
  refine ⟨fun {m m' f} h => ?_, fun m f => modify m _ _ fun p _ => ⟨rfl, rfl⟩, fun {m f} h => modify m _ _ fun p hp => ?_⟩
  · obtain ⟨-, p, p', hp, hg, rfl⟩ := alloc_some h
    simp only [Array.getElem?_setIfInBounds, if_true, if_pos (Array.getElem?_eq_some_iff.1 hp).1, hp, Option.map_some,
      Option.getD_some]
    exact ha hg
  · rw [refs, hp, Option.map_some, Option.getD_some] at h
    rw [Pool.free_release, if_neg h]
    refine ⟨rfl, ?_⟩
    unfold Pool.release
    split <;> rfl

/-- What the kernel will still hand out. -/
theorem supply : Stock fun m => m.supply Kernel.pool := by
  refine of_pool (fun {p p' n} h => ?_) fun p q hf hb => by rw [Pool.supply, Pool.supply, hf, hb]
  rcases p.supply_alloc with ⟨hd | hx, -⟩ | ⟨-, hs⟩
  · rw [h] at hd
    cases hd
  · rw [h] at hx
    cases hx
  · rwa [h] at hs

/-- The number of free frames. -/
theorem freeCount : Stock fun m => m.freeCount Kernel.pool := by
  refine of_pool (fun {p p' n} h => ?_) fun p q hf _ => by rw [Pool.freeCount, Pool.freeCount, hf]
  obtain ⟨rest, budget, hf, rfl⟩ := Pool.alloc_granted h
  rw [Pool.freeCount, hf, List.length_cons, Nat.add_comm]
  rfl

end Machine.Stock

namespace PageTable

variable {t t' : PageTable} {m m' : Machine} {v : VirtAddr} {e : Pte} {d : Option Pte} {σ : Machine → Nat}

/-- **The first entry of a region takes a frame**, for the page-table page. -/
theorem stock_insert (hσ : Machine.Stock σ) (h : t.insert m Kernel.pool v e = (.ok (d, t'), m')) :
    σ m = (if (t.dir.get v.dirIndex).isSome then 0 else 1) + σ m' := by
  rcases insert_cases t m Kernel.pool v e with ⟨page, hp, hi⟩ | ⟨b, m₁, hp, ha, hi⟩ | ⟨m₁, -, -, hi⟩ <;> rw [h] at hi <;>
    cases hi
  · rw [hp, Option.isSome_some, if_pos rfl, Nat.zero_add]
  · rw [hp, Option.isSome_none, if_neg (by decide), hσ.alloc ha]

theorem isSome_dir_insert {pool : Nat} (h : t.insert m pool v e = (.ok (d, t'), m')) (w : VirtAddr) :
    (t'.dir.get w.dirIndex).isSome = if v.dirIndex = w.dirIndex then true else (t.dir.get w.dirIndex).isSome := by
  rcases insert_cases t m pool v e with ⟨page, -, hi⟩ | ⟨b, m₁, -, -, hi⟩ | ⟨m₁, -, -, hi⟩ <;> rw [h] at hi <;> cases hi
  all_goals
    rw [get_setDir]
    split <;> rfl

end PageTable

namespace Kernel

variable {k k' k₁ : Kernel} {i j : EnvId} {e : Env} {v w : VirtAddr} {f g : Frame} {p : Perm} {a base : Nat} {data : Bytes}
  {H : List Frame} {R : Finset Nat} {r : Except SpawnError Unit} {σ : Machine → Nat}

theorem room_of_env? (he : k.env? i = some e) (v : VirtAddr) :
    k.room i v.raw = if (e.space.table.dir.get v.dirIndex).isSome then 0 else 1 := by
  rw [room, he, Option.any_some, VirtAddr.ofNat?_eq_some_iff.2 rfl, Option.any_some]

/-- **The regions of an environment that have a page-table page**, so that there is room for a page in them. -/
def regions (k : Kernel) (i : EnvId) : Finset Nat :=
  {r ∈ Finset.range (userTop / tableSpan) | k.room i (r * tableSpan) = 0}

theorem room_le_one (k : Kernel) (i : EnvId) (a : Nat) : k.room i a ≤ 1 := by
  unfold room
  split <;> decide

theorem regionAt_lt (v : VirtAddr) : regionAt v.raw < userTop / tableSpan := by
  have := v.raw_lt
  simp only [regionAt, userTop, tableSpan] at *
  omega

/-- There is room for a page just when its region has a page-table page. -/
theorem room_eq (k : Kernel) (i : EnvId) (v : VirtAddr) :
    k.room i v.raw = if regionAt v.raw ∈ k.regions i then 0 else 1 := by
  have hlt := regionAt_lt v
  have hstart : k.room i (regionAt v.raw * tableSpan) = k.room i v.raw := by
    have hle : regionAt v.raw * tableSpan ≤ v.raw := Nat.div_mul_le_self _ _
    let w : VirtAddr := ⟨regionAt v.raw * tableSpan, Nat.lt_of_le_of_lt hle v.raw_lt⟩
    have hdir : w.dirIndex = v.dirIndex := VirtAddr.dirIndex_eq_iff.2 (Nat.mul_div_cancel _ (by decide))
    show k.room i w.raw = _
    unfold room
    rw [VirtAddr.ofNat?_eq_some_iff.2 (rfl : w.raw = w.raw), VirtAddr.ofNat?_eq_some_iff.2 (rfl : v.raw = v.raw)]
    simp only [Option.any_some, hdir]
  have hle := k.room_le_one i v.raw
  simp only [regions, Finset.mem_filter, Finset.mem_range, hlt, true_and, hstart]
  split <;> omega

theorem regions_congr (h : ∀ a, k'.room i a = k.room i a) : k'.regions i = k.regions i := by simp only [regions, h]

/-- Regions are told by where there is room. -/
theorem regions_eq_of_room (h : ∀ v : VirtAddr, k.room i v.raw = if regionAt v.raw ∈ R then 0 else 1)
    (hR : ∀ r ∈ R, r < userTop / tableSpan) : k.regions i = R := by
  ext r
  by_cases hr : r < userTop / tableSpan
  · have hraw : r * tableSpan < userTop := by
      simp only [tableSpan, userTop] at *
      omega
    have hroom := h ⟨r * tableSpan, hraw⟩
    have hregion : regionAt (r * tableSpan) = r := Nat.mul_div_cancel _ (by decide)
    simp only [hregion] at hroom
    simp only [regions, Finset.mem_filter, Finset.mem_range, hr, true_and, hroom]
    split <;> simp [*]
  · exact iff_of_false (fun hmem => hr (Finset.mem_range.1 (Finset.mem_filter.1 hmem).1)) fun hmem => hr (hR r hmem)

theorem regions_subset (k : Kernel) (i : EnvId) : ∀ r ∈ k.regions i, r < userTop / tableSpan := fun _ hr =>
  Finset.mem_range.1 (Finset.mem_filter.1 hr).1

/-- **There is room in the region of a page that has been mapped**, and elsewhere as before. -/
theorem regions_mapInto (he : k.env? e.id = some e) (h : k.mapInto e f v p = (.ok (), k')) :
    k'.regions e.id = insert (regionAt v.raw) (k.regions e.id) := by
  obtain ⟨s, m, hm, rfl⟩ := mapInto_ok h
  obtain ⟨d, t, m₁, hi, rfl, rfl⟩ := AddressSpace.map_ok hm
  have hdir : v.pageDown.dirIndex = v.dirIndex := (VirtAddr.index_eq_iff.2 v.pageDown_pageDown).1
  refine regions_eq_of_room (fun w => ?_) fun r hr => ?_
  · have hsome := PageTable.isSome_dir_insert hi w
    have hold := (room_of_env? he w).symm.trans (k.room_eq e.id w)
    rw [room_of_env? (e := { e with space := ⟨t⟩ }), hsome]
    · simp only [hdir, VirtAddr.dirIndex_eq_iff, Finset.mem_insert, eq_comm (a := regionAt w.raw)]
      by_cases hr : regionAt v.raw = regionAt w.raw
      · simp [hr]
      · rw [if_neg hr, hold]
        simp only [hr, false_or]
    · rw [env?_modifyEnv (f := fun e => { e with space := ⟨t⟩ }) (fun _ => rfl), env?_withMachine, he, Option.map_some,
        if_pos rfl]
  · rcases Finset.mem_insert.1 hr with rfl | hr
    · exact regionAt_lt v
    · exact k.regions_subset e.id r hr

/-- **What it costs to map a page where none was mapped**: nothing, or a frame for the page-table page. -/
theorem stock_mapInto (hσ : Machine.Stock σ) (he : k.env? e.id = some e) (hl : k.mappings e.id v = none)
    (h : k.mapInto e f v p = (.ok (), k')) :
    σ k.machine = (if regionAt v.raw ∈ k.regions e.id then 0 else 1) + σ k'.machine := by
  have hroom := k.room_eq e.id v
  rw [room_of_env? he] at hroom
  obtain ⟨s, m, hm, rfl⟩ := mapInto_ok h
  obtain ⟨d, t, m₁, hi, rfl, rfl⟩ := AddressSpace.map_ok hm
  have hdir : v.pageDown.dirIndex = v.dirIndex := (VirtAddr.index_eq_iff.2 v.pageDown_pageDown).1
  obtain rfl : d = none := by
    rw [PageTable.eq_lookup_of_insert hi, PageTable.lookup_congr v.pageDown_pageDown]
    exact (mappings_of_env? he v).symm.trans hl
  have hs := PageTable.stock_insert hσ hi
  rw [hσ.retain, hdir, hroom] at hs
  exact hs

/-- **A page that is mapped where none was** has its frame held once more, and takes no hold from any other. -/
theorem Sound.refs_mapInto_unmapped (hk : k.Sound H) (he : k.env? e.id = some e) (hl : k.mappings e.id v = none)
    (hf : 0 < k.machine.refs f) (h : k.mapInto e f v p = (.ok (), k')) (hg : 0 < k.machine.refs g) :
    k'.machine.refs g = k.machine.refs g + holdsOf (some ⟨f, p⟩) g := by
  have hrefs := (hk.refs_mapInto he hf h hg).1
  rwa [← mappings_of_env? he v, hl, holdsOf_none, Nat.add_zero] at hrefs

/-- **The number of frames that pages take**: one each, and one for each region that has no room yet. -/
def need (R : Finset Nat) (pages : List Nat) : Nat := pages.length + (regionsOf pages \ R).card

@[simp] theorem regionsOf_nil : regionsOf [] = ∅ := rfl

@[simp] theorem need_nil (R : Finset Nat) : need R [] = 0 := by
  rw [need, regionsOf_nil, Finset.empty_sdiff, Finset.card_empty, List.length_nil]

theorem regionsOf_cons (a : Nat) (pages : List Nat) : regionsOf (a :: pages) = insert (regionAt a) (regionsOf pages) := by
  rw [regionsOf, List.map_cons, List.toFinset_cons, regionsOf]

theorem need_cons (R : Finset Nat) (a : Nat) (pages : List Nat) :
    need R (a :: pages) = 1 + (if regionAt a ∈ R then 0 else 1) + need (insert (regionAt a) R) pages := by
  have hcard : (insert (regionAt a) (regionsOf pages) \ R).card =
      (if regionAt a ∈ R then 0 else 1) + (regionsOf pages \ insert (regionAt a) R).card := by
    split
    next hr => rw [Finset.insert_sdiff_of_mem _ hr, Finset.insert_eq_of_mem hr, Nat.zero_add]
    next hr =>
      rw [Finset.insert_sdiff_of_notMem _ hr, ← Finset.card_erase_add_one (Finset.mem_insert_self _ _),
        Finset.erase_insert_eq_erase, Finset.sdiff_insert, Nat.add_comm]
  rw [need, need, regionsOf_cons, hcard, List.length_cons]
  omega

theorem regionsOf_append (A B : List Nat) : regionsOf (A ++ B) = regionsOf A ∪ regionsOf B := by
  rw [regionsOf, List.map_append, List.toFinset_append, regionsOf, regionsOf]

theorem need_append (R : Finset Nat) (A B : List Nat) : need R (A ++ B) = need R A + need (R ∪ regionsOf A) B := by
  induction A generalizing R with
  | nil =>
    rw [regionsOf_nil, Finset.union_empty, need_nil, List.nil_append, Nat.zero_add]
  | cons a A ih =>
    rw [List.cons_append, need_cons, need_cons, ih, regionsOf_cons, Finset.union_insert, Finset.insert_union]
    simp only [Nat.add_assoc]

/-! ## Loading a page -/

/-- **The frames in use are left alone**: each is counted as it was, and has the bytes that it had. -/
structure FramesKept (k k' : Kernel) : Prop where
  refs (g : Frame) (h : 0 < k.machine.refs g) : k'.machine.refs g = k.machine.refs g
  page (g : Frame) (h : 0 < k.machine.refs g) : k'.machine.page g = k.machine.page g
  capacity : k'.machine.capacity pool = k.machine.capacity pool

namespace FramesKept

theorem refl (k : Kernel) : k.FramesKept k := ⟨fun _ _ => rfl, fun _ _ => rfl, rfl⟩

theorem trans (h : k.FramesKept k₁) (h' : k₁.FramesKept k') : k.FramesKept k' where
  refs g hg := by
    have hr := h.refs g hg
    exact (h'.refs g (by omega)).trans hr
  page g hg := by
    have hr := h.refs g hg
    exact (h'.page g (by omega)).trans (h.page g hg)
  capacity := h'.capacity.trans h.capacity

theorem of_bare (h : k'.bare = k.bare) : k.FramesKept k' where
  refs g _ := Machine.refs_congr (machine_of_bare h) g
  page g _ := Machine.page_congr (machine_of_bare h) g
  capacity := by rw [← Machine.capacity_bare, machine_of_bare h, Machine.capacity_bare]

end FramesKept

/-- **A page has a frame to itself** that was free: it is counted once, mapped nowhere else, and shows the bytes that it is
to show. -/
structure OwnPage (k k' : Kernel) (i : EnvId) (v : VirtAddr) (p : Perm) (b : Nat → UInt8) (f : Frame) : Prop where
  mapped : k'.mappings i v = some ⟨f, p⟩
  free : k.machine.refs f = 0
  refs : k'.machine.refs f = 1
  sole (j : EnvId) (w : VirtAddr) (q : Pte) (h : k'.mappings j w = some q) (hf : q.frame = f) :
    j = i ∧ w.pageDown = v.pageDown
  bytes (o : Nat) (h : o < pageSize) : k'.machine.byte (f, o) = some (b (v.pageDown.raw + o))

/-- **Some pages of one environment have been loaded**; what else was in use is as it was. -/
structure Loaded (k k' : Kernel) (i : EnvId) (pages : List Nat) (p : Nat → Perm) (b : Nat → UInt8) : Prop where
  sound : k'.Sound []
  remapped : k.Remapped k' i
  edited : k.envs.Edited k'.envs i
  kept : k.FramesKept k'
  unmapped (v : VirtAddr) (h : v.pageDown.raw ∉ pages) : k'.mappings i v = k.mappings i v
  mapped (v : VirtAddr) (h : v.pageDown.raw ∈ pages) : ∃ f, k.OwnPage k' i v (p v.pageDown.raw) b f

namespace Loaded

variable {p : Nat → Perm} {b : Nat → UInt8} {A B : List Nat}

theorem refl (hk : k.Sound []) (i : EnvId) (p : Nat → Perm) (b : Nat → UInt8) : k.Loaded k i [] p b where
  sound := hk
  remapped := .refl k i
  edited := .refl _ i
  kept := .refl k
  unmapped _ _ := rfl
  mapped _ h := nomatch h

/-- Every entry that is there afterwards was there before, or is that of a page that has been loaded. -/
theorem mappings_cases (h : k.Loaded k' i A p b) {q : Pte} (hq : k'.mappings j v = some q) :
    k.mappings j v = some q ∨ j = i ∧ v.pageDown.raw ∈ A ∧ k.machine.refs q.frame = 0 := by
  by_cases hj : j = i
  · subst hj
    by_cases hv : v.pageDown.raw ∈ A
    · obtain ⟨f, hf⟩ := h.mapped v hv
      rw [hf.mapped] at hq
      cases hq
      exact Or.inr ⟨rfl, hv, hf.free⟩
    · exact Or.inl ((h.unmapped v hv).symm.trans hq)
  · exact Or.inl ((mappings_congr (by rw [h.remapped.other j hj]) v).symm.trans hq)

/-- A page that was loaded before has a frame that the later ones do not take. -/
theorem ownPage_of_earlier (h : k₁.Loaded k' i B p b) {p₀ : Perm} (hf : k.OwnPage k₁ i v p₀ b f)
    (hv : v.pageDown.raw ∉ B) : k.OwnPage k' i v p₀ b f := by
  have hone := hf.refs
  have hpos : 0 < k₁.machine.refs f := by omega
  refine ⟨(h.unmapped v hv).trans hf.mapped, hf.free, (h.kept.refs f hpos).trans hone, fun j w q hq hqf => ?_,
    fun o ho => (Machine.byte_congr (h.kept.page f hpos)).trans (hf.bytes o ho)⟩
  rcases h.mappings_cases hq with hq | ⟨-, -, hfree⟩
  · exact hf.sole j w q hq hqf
  · rw [hqf] at hfree
    omega

/-- What comes later is loaded into other frames. -/
theorem trans (h : k.Loaded k₁ i A p b) (h' : k₁.Loaded k' i B p b) : k.Loaded k' i (A ++ B) p b where
  sound := h'.sound
  remapped := h.remapped.trans h'.remapped
  edited := h.edited.trans h'.edited
  kept := h.kept.trans h'.kept
  unmapped v hv := by
    rw [List.mem_append, not_or] at hv
    rw [h'.unmapped v hv.2, h.unmapped v hv.1]
  mapped v hv := by
    by_cases hB : v.pageDown.raw ∈ B
    · obtain ⟨f, hf⟩ := h'.mapped v hB
      have hfree : k.machine.refs f = 0 := by
        by_contra hpos
        have := h.kept.refs f (Nat.pos_of_ne_zero hpos)
        have := hf.free
        omega
      exact ⟨f, hf.mapped, hfree, hf.refs, hf.sole, hf.bytes⟩
    · obtain ⟨f, hf⟩ := h.mapped v ((List.mem_append.1 hv).resolve_right hB)
      exact ⟨f, h'.ownPage_of_earlier hf hB⟩

theorem congr {p' : Nat → Perm} {b' : Nat → UInt8} (h : k.Loaded k' i A p b) (hp : ∀ a ∈ A, p a = p' a)
    (hb : ∀ a ∈ A, ∀ o, o < pageSize → b (a + o) = b' (a + o)) : k.Loaded k' i A p' b' where
  sound := h.sound
  remapped := h.remapped
  edited := h.edited
  kept := h.kept
  unmapped := h.unmapped
  mapped v hv := by
    obtain ⟨f, hf⟩ := h.mapped v hv
    rw [hp _ hv] at hf
    exact ⟨f, hf.mapped, hf.free, hf.refs, hf.sole, fun o ho => by rw [hf.bytes o ho, hb _ hv o ho]⟩

theorem live (h : k.Loaded k' i A p b) (he : ∃ e, k.env? i = some e) : ∃ e, k'.env? i = some e := by
  obtain ⟨e, he⟩ := he
  obtain ⟨s, hs⟩ := h.remapped.self e he
  exact ⟨_, hs⟩

end Loaded

/-- **A frame that is filled in hand, mapped and let go is the page's own.** -/
theorem InHand.loaded {k₂ : Kernel} (h : k.InHand k₁ f (data.extract (a - base) (a - base + pageSize)))
    (hone : k₁.machine.refs f = 1) (hr : k.Remapped k₁ i) (hen : k₁.envs = k.envs)
    (hcap : k₁.machine.capacity pool = k.machine.capacity pool) (he : k.env? i = some e)
    (ha : VirtAddr.pageOfNat? a = some v) (hl : k.mappings i v = none) (hb : base ≤ a)
    (hm : k₁.mapInto e f v p = (.ok (), k₂)) :
    k₂.machine.refs f = 2 ∧ k.Loaded (k₂.releaseFrame f) i [a] (fun _ => p) fun x => data.getD (x - base) 0 := by
  obtain rfl := EnvTable.id_of_get? he
  have hraw := VirtAddr.raw_pageDown ha
  have hl₁ : k₁.mappings e.id v = none := (congrFun (congrFun h.mappings e.id) v).trans hl
  have hrefs {g : Frame} (hg : 0 < k₁.machine.refs g) :=
    h.sound.refs_mapInto_unmapped ((h.envs e.id).trans he) hl₁ (by omega) hm hg
  have htwo : k₂.machine.refs f = 2 := by rw [hrefs (by omega), hone, holdsOf_some, if_pos rfl]
  have hrel : (k₂.releaseFrame f).machine.refs f = 1 := by
    show (k₂.machine.release f).refs f = 1
    rw [Machine.refs_release, if_pos rfl, htwo]
  obtain ⟨hs, hrem⟩ := h.mapped he hm
  have hput : (k₂.releaseFrame f).mappings = k.mappings.put e.id v (some ⟨f, p⟩) := by rw [hrem.mappings, h.mappings]
  refine ⟨htwo, hs, ?_, ?_, ?_, fun w hw => ?_,
    fun w hw => ⟨f, ?_, h.unused, hrel, fun j u q hq hqf => ?_, fun o ho => ?_⟩⟩
  · exact (hr.trans (.mapInto hm)).trans (.releaseFrame k₂ f)
  · obtain ⟨s, m', -, rfl⟩ := mapInto_ok hm
    exact ⟨fun e => { e with space := s }, fun _ => rfl, by rw [← hen]; rfl⟩
  · have hold (g : Frame) (hg : 0 < k.machine.refs g) :
        g ≠ f ∧ (k₂.releaseFrame f).machine.refs g = k.machine.refs g := by
      have hgf : g ≠ f := by
        rintro rfl
        have := h.unused
        omega
      have hgrefs := h.refs g hgf
      refine ⟨hgf, ?_⟩
      rw [refs_releaseFrame_of_ne k₂ hgf, hrefs (by omega), holdsOf_some, if_neg (Ne.symm hgf), Nat.add_zero, hgrefs]
    refine ⟨fun g hg => (hold g hg).2, fun g hg => ?_, ?_⟩
    · obtain ⟨hgf, hgrefs⟩ := hold g hg
      exact (hrem.page g (by omega)).trans (h.other g hgf)
    · obtain ⟨s, m, hmap, rfl⟩ := mapInto_ok hm
      exact (m.capacity_release f pool).trans ((AddressSpace.capacity_map hmap pool).trans hcap)
  · rw [hput, Mappings.put, if_neg]
    rintro ⟨-, hvw⟩
    rw [← hvw, hraw] at hw
    exact hw List.mem_cons_self
  · have hvw : v.pageDown = w.pageDown := VirtAddr.eq_of_raw (hraw.trans (List.mem_singleton.1 hw).symm)
    rw [hput, Mappings.put, if_pos ⟨rfl, hvw⟩]
  · have hvw : v.pageDown = w.pageDown := VirtAddr.eq_of_raw (hraw.trans (List.mem_singleton.1 hw).symm)
    rw [hput, Mappings.put] at hq
    split at hq
    next hn => exact ⟨hn.1.symm, hn.2.symm.trans hvw⟩
    next => exact absurd hqf (h.fresh j u q hq)
  · obtain hwa := List.mem_singleton.1 hw
    rw [Machine.byte, hrem.page f (by omega), h.filled, getElem?_write_extract data _ _ ho, hwa, Nat.sub_add_comm hb]

/-- A frame that has been handed out and filled. -/
theorem filled_of_allocFrame (hk : k.Sound []) (hf : k.allocFrame = (some f, k₁)) (d : Bytes) (i : EnvId) :
    ∃ k₂, { k₁ with machine := k₁.machine.write f 0 d } = k₂ ∧ k.InHand k₂ f d ∧ k₂.machine.refs f = 1 ∧
      k.Remapped k₂ i ∧ k₂.envs = k.envs ∧ k₂.machine.capacity pool = k.machine.capacity pool ∧
      k₂.supply = k₁.supply := by
  have hin := inHand_of_allocFrame hk hf d
  refine ⟨_, rfl, hin, ?_, (Remapped.allocFrame hf).trans (.of_machine k₁ _ i), ?_, ?_, Machine.supply_write _ _ _ _ _⟩
  · obtain ⟨m, hal, rfl⟩ := allocFrame_some hf
    show (m.write f 0 d).refs f = 1
    rw [Machine.refs_write, Machine.refs_alloc hk.balanced.tidy hal, hin.unused, if_pos rfl]
  · obtain ⟨m, -, rfl⟩ := allocFrame_some hf
    rfl
  · obtain ⟨m, hal, rfl⟩ := allocFrame_some hf
    have hm := k.machine.capacity_alloc pool pool
    rw [hal] at hm
    exact (m.capacity_write f 0 d pool).trans hm

/-- **A frame that is filled in hand and let go unmapped leaves nothing behind.** -/
theorem InHand.framesKept_giveUp {k₂ : Kernel} (h : k.InHand k₁ f data)
    (hcap : k₁.machine.capacity pool = k.machine.capacity pool) (hb : k₂.bare = k₁.bare) :
    k.FramesKept (k₂.releaseFrame f) := by
  have hne {g : Frame} (hg : 0 < k.machine.refs g) : g ≠ f := by
    rintro rfl
    have := h.unused
    omega
  have hm := machine_of_bare hb
  refine ⟨fun g hg => h.refs_giveUp hb (hne hg), fun g hg => ?_, ?_⟩
  · have hpos : 0 < (k₂.releaseFrame f).machine.refs g := by
      rw [h.refs_giveUp hb (hne hg)]
      exact hg
    exact (page_releaseFrame hpos).2.trans ((Machine.page_congr hm g).trans (h.other g (hne hg)))
  · refine (k₂.machine.capacity_release f pool).trans (Eq.trans ?_ hcap)
    rw [← Machine.capacity_bare, hm, Machine.capacity_bare]

/-- The first page: it is loaded, or there is no room for it. -/
theorem loadPages_cons {rest : List Nat} (hk : k.Sound []) (he : ∃ e, k.env? i = some e)
    (ha : VirtAddr.pageOfNat? a = some v) (hl : k.mappings i v = none) (hb : base ≤ a)
    (h : k.loadPages i base data p (a :: rest) = (r, k')) :
    (∃ k₁, k.supply = 1 + (if regionAt a ∈ k.regions i then 0 else 1) + k₁.supply ∧
      k₁.regions i = insert (regionAt a) (k.regions i) ∧ k.Loaded k₁ i [a] (fun _ => p) (fun x => data.getD (x - base) 0) ∧
      k₁.loadPages i base data p rest = (r, k')) ∨
    r = .error .noMemory ∧ k.supply < 1 + (if regionAt a ∈ k.regions i then 0 else 1) ∧ k'.Sound [] ∧
      k.envs.Edited k'.envs i ∧ k.FramesKept k' := by
  obtain ⟨e, he⟩ := he
  have hid := EnvTable.id_of_get? he
  have hraw : v.raw = a := (VirtAddr.pageOfNat?_eq_some_iff.1 ha).1
  have hroom : k.room i v.raw = if regionAt a ∈ k.regions i then 0 else 1 := by rw [room_eq, hraw]
  unfold loadPages at h
  rw [ha, he] at h
  dsimp only at h
  rcases allocFrame_cases k with ⟨f, k₁, hf, hen₁, hs₁⟩ | ⟨k₁, hf, hs₁⟩ <;> rw [hf] at h <;> dsimp only at h
  · obtain ⟨k₂, hfill, hin, hone, hrem, hen, hcap, hsup⟩ :=
      filled_of_allocFrame hk hf (data.extract (a - base) (a - base + pageSize)) i
    rw [hfill] at h
    subst hid
    have he₂ := (hin.envs e.id).trans he
    have hregions : k₂.regions e.id = k.regions e.id := regions_congr (room_congr hen e.id)
    have hroom₂ : k₂.room e.id v.raw = k.room e.id v.raw := room_congr hen e.id v.raw
    rcases mapInto_cases he₂ f v p with ⟨k₃, hm, -⟩ | ⟨k₃, hm, hlt⟩ <;> rw [hm] at h <;> dsimp only at h
    · obtain ⟨htwo, hload⟩ := hin.loaded hone hrem hen hcap he ha hl hb hm
      have hcost : k₂.supply = _ + k₃.supply :=
        stock_mapInto .supply he₂ ((congrFun (congrFun hin.mappings e.id) v).trans hl) hm
      have hrel : (k₃.releaseFrame f).supply = k₃.supply := Machine.Stock.supply.release (by omega)
      have hins := regions_mapInto he₂ hm
      rw [hregions, hraw] at hcost hins
      exact Or.inl ⟨k₃.releaseFrame f, by omega, hins, hload, h⟩
    · cases h
      have hb := bare_mapInto_error (hin.sound.refs_pos (List.mem_append_right _ List.mem_cons_self)) hm
      rw [hroom₂] at hlt
      refine Or.inr ⟨rfl, by omega, (hin.giveUp hb).1, ?_, hin.framesKept_giveUp hcap hb⟩
      show k.envs.Edited k₃.envs e.id
      rw [envs_of_bare hb, hen]
      exact .refl _ _
  · cases h
    refine Or.inr ⟨rfl, by omega, hk.of_bare (bare_allocFrame_none hf), ?_, .of_bare (bare_allocFrame_none hf)⟩
    rw [envs_of_bare (bare_allocFrame_none hf)]
    exact .refl _ i

/-! ## Loading all of them -/

/-- **How the loading of pages ends**: they are all there, and have taken the frames that they need, or there were fewer. -/
inductive LoadOutcome (k : Kernel) (i : EnvId) (pages : List Nat) (p : Nat → Perm) (b : Nat → UInt8) :
    Except SpawnError Unit → Kernel → Prop
  | loaded {k' : Kernel} (supply : k.supply = need (k.regions i) pages + k'.supply)
      (regions : k'.regions i = k.regions i ∪ regionsOf pages)  (loaded : k.Loaded k' i pages p b) :
      LoadOutcome k i pages p b (.ok ()) k'
  | short {k' : Kernel} (supply : k.supply < need (k.regions i) pages) (sound : k'.Sound [])
      (edited : k.envs.Edited k'.envs i) (kept : k.FramesKept k') : LoadOutcome k i pages p b (.error .noMemory) k'

namespace LoadOutcome

variable {p : Nat → Perm} {b : Nat → UInt8} {A B : List Nat}

theorem of_loaded (hs : k.supply = need (k.regions i) A + k₁.supply) (hR : k₁.regions i = k.regions i ∪ regionsOf A)
    (hl : k.Loaded k₁ i A p b) (h : k₁.LoadOutcome i B p b r k') : k.LoadOutcome i (A ++ B) p b r k' := by
  have hn := need_append (k.regions i) A B
  rw [← hR] at hn
  cases h with
  | loaded hs' hR' hl' =>
    refine .loaded (by omega) ?_ (hl.trans hl')
    rw [hR', hR, Finset.union_assoc, regionsOf_append]
  | short hs' hk he hf => exact .short (by omega) hk (hl.edited.trans he) (hl.kept.trans hf)

theorem append_short {err : SpawnError} (h : k.LoadOutcome i A p b (.error err) k') (B : List Nat) :
    k.LoadOutcome i (A ++ B) p b (.error err) k' := by
  have hn := need_append (k.regions i) A B
  cases h with
  | short hs hk he hf => exact .short (by omega) hk he hf

theorem congr {p' : Nat → Perm} {b' : Nat → UInt8} (h : k.LoadOutcome i A p b r k') (hp : ∀ a ∈ A, p a = p' a)
    (hb : ∀ a ∈ A, ∀ o, o < pageSize → b (a + o) = b' (a + o)) : k.LoadOutcome i A p' b' r k' := by
  cases h with
  | loaded hs hR hl => exact .loaded hs hR (hl.congr hp hb)
  | short hs hk he hf => exact .short hs hk he hf

end LoadOutcome

/-- Pages that can be loaded: user pages from a base on, each once, with nothing mapped there. -/
structure Loadable (k : Kernel) (i : EnvId) (base : Nat) (pages : List Nat) : Prop where
  nodup : pages.Nodup
  base_le (a : Nat) (h : a ∈ pages) : base ≤ a
  page (a : Nat) (h : a ∈ pages) : ∃ v, VirtAddr.pageOfNat? a = some v
  unmapped (v : VirtAddr) (h : v.pageDown.raw ∈ pages) : k.mappings i v = none

/-- What has been loaded elsewhere does not matter. -/
theorem Loadable.of_loaded {p : Nat → Perm} {b : Nat → UInt8} {A B : List Nat} (h : k.Loadable i base B)
    (hl : k.Loaded k₁ i A p b) (hd : ∀ a ∈ B, a ∉ A) : k₁.Loadable i base B :=
  ⟨h.nodup, h.base_le, h.page, fun v hv => (hl.unmapped v (hd _ hv)).trans (h.unmapped v hv)⟩

theorem Loadable.tail {pages : List Nat} (h : k.Loadable i base (a :: pages)) : k.Loadable i base pages :=
  ⟨(List.nodup_cons.1 h.nodup).2, fun x hx => h.base_le x (List.mem_cons_of_mem _ hx),
    fun x hx => h.page x (List.mem_cons_of_mem _ hx), fun v hv => h.unmapped v (List.mem_cons_of_mem _ hv)⟩

/-- **The pages of a segment are all loaded just when there are frames enough.** -/
theorem loadPages_outcome {pages : List Nat} (hk : k.Sound []) (he : ∃ e, k.env? i = some e)
    (hp : k.Loadable i base pages) (h : k.loadPages i base data p pages = (r, k')) :
    k.LoadOutcome i pages (fun _ => p) (fun x => data.getD (x - base) 0) r k' := by
  induction pages generalizing k with
  | nil =>
    cases h
    refine .loaded ?_ ?_ (.refl hk i _ _)
    · rw [need_nil, Nat.zero_add]
    · rw [regionsOf_nil, Finset.union_empty]
  | cons a rest ih =>
    obtain ⟨v, hv⟩ := hp.page a List.mem_cons_self
    have hl := hp.unmapped v (by rw [VirtAddr.raw_pageDown hv]; exact List.mem_cons_self)
    have hone : need (k.regions i) [a] = 1 + if regionAt a ∈ k.regions i then 0 else 1 := by
      rw [need_cons, need_nil, Nat.add_zero]
    rcases loadPages_cons hk he hv hl (hp.base_le a List.mem_cons_self) h with
      ⟨k₁, hs, hins, hload, hrest⟩ | ⟨rfl, hs, hk', hed, hkept⟩
    · have hd (x : Nat) (hx : x ∈ rest) : x ∉ [a] := fun hxa =>
        (List.nodup_cons.1 hp.nodup).1 (List.mem_singleton.1 hxa ▸ hx)
      rw [Finset.insert_eq, Finset.union_comm] at hins
      exact .of_loaded (A := [a]) (by omega) hins hload
        (ih hload.sound (hload.live he) (hp.tail.of_loaded hload hd) hrest)
    · exact .append_short (A := [a]) (.short (by omega) hk' hed hkept) rest

end Kernel
end Exokernel
