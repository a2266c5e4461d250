import Mathlib.Data.Finmap
import Exokernel.Proofs.Paging.Counters
import Exokernel.Proofs.Syscall.Checks
/-!
# Page tables as finite maps

A page table is a finite map from page numbers to entries, cut into regions of one page-table page each.  Main statement
(`refines_pageMap`): whatever is entered and taken out, in whatever machine, the table answers as the map does and shows
its entries; it takes a frame just when an entry comes into an empty region, and gives it back when the last one goes.
-/
namespace Exokernel

/-! ## The map -/

/-- **A finite map from page numbers to entries.** -/
abbrev PageMap := Finmap fun _ : Nat => Pte

/-- The part of the address space that a page lies in: the pages of one page-table page. -/
def regionOf (n : Nat) : Nat := n / tableEntries

/-- The regions that hold an entry. -/
def PageMap.regions (M : PageMap) : Finset Nat := M.keys.image regionOf

theorem PageMap.mem_regions {M : PageMap} {r : Nat} : r ∈ M.regions ↔ ∃ n, n ∈ M ∧ regionOf n = r := by
  simp only [regions, Finset.mem_image, Finmap.mem_keys]

namespace VirtAddr

/-- The number of the page that an address lies in. -/
def page (v : VirtAddr) : Nat := v.raw / pageSize

theorem page_lt (v : VirtAddr) : v.page < userTop / pageSize := by
  have := v.raw_lt
  simp only [page, userTop, pageSize] at *
  omega

theorem exists_page {n : Nat} (h : n < userTop / pageSize) : ∃ v : VirtAddr, v.page = n :=
  ⟨⟨n * pageSize, by simp only [userTop, pageSize] at *; omega⟩, Nat.mul_div_cancel n (by decide)⟩

theorem page_eq_iff {v w : VirtAddr} : v.page = w.page ↔ v.pageDown = w.pageDown := by
  simp only [page, pageDown, Exokernel.pageDown, pageSize, mk.injEq]
  omega

theorem regionOf_page (v : VirtAddr) : regionOf v.page = v.dirIndex := by
  simp only [regionOf, page, dirIndex, pageSize, tableEntries, tableSpan]
  omega

/-- The two indices of an address in a region that ends below `userTop`. -/
theorem exists_index {v : VirtAddr} (i : Fin tableEntries) : ∃ w : VirtAddr, w.dirIndex = v.dirIndex ∧ w.tableIndex = i := by
  have hv := v.raw_lt
  have hi := i.isLt
  refine ⟨⟨startOf v.dirIndex i, ?_⟩, Fin.ext ?_, Fin.ext ?_⟩ <;>
    simp only [startOf, dirIndex, tableIndex, userTop, tableSpan, pageSize, tableEntries] at * <;> omega

end VirtAddr

/-! ## Operations -/

/-- An operation on a page table, and the machine at the time. -/
inductive TableOp where
  | insert (m : Machine) (pool : Nat) (v : VirtAddr) (e : Pte)
  | remove (m : Machine) (v : VirtAddr)

/-- What an operation answers: the entry that was at the page. -/
abbrev TableOp.Answer := Except MapError (Option Pte)

namespace TableOp

/-- **An operation on a table**, which an insertion that fails leaves as it is. -/
def onTable : TableOp → PageTable → Answer × PageTable
  | insert m pool v e, t =>
    match (t.insert m pool v e).1 with
    | .error err => (.error err, t)
    | .ok (old, t') => (.ok old, t')
  | remove m v, t => (.ok (t.remove m v).1, (t.remove m v).2.1)

/-- The same on a table with counters: no result if one had to be lowered below zero. -/
def onCounted : TableOp → CountedTable → Option (Answer × CountedTable)
  | insert m pool v e, t => some <|
    match (t.insert m pool v e).1 with
    | .error err => (.error err, t)
    | .ok (old, t') => (.ok old, t')
  | remove m v, t => (t.remove m v).map fun r => (.ok r.1, r.2.1)

/-- **What it does to the map**: an insertion fails if there is nothing in the region and no frame to be had. -/
def onMap : TableOp → PageMap → Answer × PageMap
  | insert m pool v e, M =>
    if regionOf v.page ∉ M.regions ∧ m.supply pool = 0 then (.error .outOfMemory, M)
    else (.ok (M.lookup v.page), M.insert v.page e)
  | remove _ v, M => (.ok (M.lookup v.page), M.erase v.page)

/-- One operation after the other, with the answers. -/
def run {σ : Type} (step : TableOp → σ → Answer × σ) : List TableOp → σ → List Answer × σ
  | [], s => ([], s)
  | op :: ops, s => ((step op s).1 :: (run step ops (step op s).2).1, (run step ops (step op s).2).2)

def runCounted : List TableOp → CountedTable → Option (List Answer × CountedTable)
  | [], t => some ([], t)
  | op :: ops, t => do
    let (a, t) ← op.onCounted t
    let (as, t) ← runCounted ops t
    return (a :: as, t)

/-- **The counters come along.** -/
theorem onCounted_counted (op : TableOp) (t : PageTable) :
    op.onCounted t.counted = some ((op.onTable t).1, (op.onTable t).2.counted) := by
  cases op with
  | insert m pool v e =>
    rw [onCounted, onTable, PageTable.insert_counted]
    cases (t.insert m pool v e).1 <;> rfl
  | remove m v =>
    rw [onCounted, onTable, PageTable.remove_counted]
    rfl

theorem runCounted_counted (ops : List TableOp) (t : PageTable) :
    runCounted ops t.counted = some ((run onTable ops t).1, (run onTable ops t).2.counted) := by
  induction ops generalizing t with
  | nil => rfl
  | cons op ops ih => simp only [runCounted, run, onCounted_counted, ih, Option.bind_eq_bind, Option.bind_some, Option.pure_def]

end TableOp

/-- **The last holder's frame is the next one to hand out.** -/
theorem Machine.free_release {m : Machine} {f : Frame} (h : m.refs f = 1) :
    (m.release f).free f.pool = f :: m.free f.pool := by
  obtain ⟨p, hp, -⟩ := exists_of_refs_pos (m := m) (f := f) (by omega)
  have hr : p.refs f.number = 1 := by simpa only [refs, hp, Option.map_some, Option.getD_some] using h
  simp only [free, release, pool_modifyPool, hp, Option.map_some, if_true, Option.getD_some, Pool.free_release, hr,
    List.map_cons]

namespace PageTable

variable {t t' : PageTable} {M : PageMap} {m m' : Machine} {pool : Nat} {v : VirtAddr} {e : Pte}

/-! ## Tables without idle parts -/

theorem get_setDir (t : PageTable) (v : VirtAddr) (page : Option TablePage) (d : Fin tableEntries) :
    (t.setDir v page).dir.get d = if v.dirIndex = d then page else t.dir.get d := by
  show (t.dir.set v.dirIndex page v.dirIndex.isLt)[d.val] = if v.dirIndex = d then page else t.dir[d.val]
  simp only [Vector.getElem_set, Fin.val_inj]

/-- Every page-table page has an entry. -/
def Trim (t : PageTable) : Prop := ∀ d : Fin tableEntries, t.dir.get d ≠ none → ∃ v : VirtAddr, v.dirIndex = d ∧ t.lookup v ≠ none

theorem trim_empty (root : Frame) : (empty root).Trim := fun d h => absurd (by simp [empty, Vector.get]) h

theorem exists_entry_of_live {page : TablePage} (h : page.live ≠ 0) : ∃ i : Fin tableEntries, page.entries.get i ≠ none := by
  by_contra hnone
  push Not at hnone
  refine h (List.length_eq_zero_iff.2 (List.filterMap_eq_nil_iff.2 fun x hx => ?_))
  obtain ⟨i, hi, rfl⟩ := List.getElem_of_mem hx
  exact hnone ⟨i, by simpa using hi⟩

/-- A table stays trim if an exchanged page-table page has an entry, or is taken out, and no other entry changes. -/
theorem Trim.setDir (ht : t.Trim) {page : Option TablePage}
    (hp : page ≠ none → ∃ w : VirtAddr, w.dirIndex = v.dirIndex ∧ (t.setDir v page).lookup w ≠ none) : (t.setDir v page).Trim := by
  intro d hd
  rw [get_setDir] at hd
  by_cases hv : v.dirIndex = d
  · rw [if_pos hv] at hd
    obtain ⟨w, hw, hl⟩ := hp hd
    exact ⟨w, hw.trans hv, hl⟩
  · rw [if_neg hv] at hd
    obtain ⟨w, rfl, hl⟩ := ht d hd
    exact ⟨w, rfl, by rwa [lookup_setDir, if_neg hv]⟩

theorem Trim.insert {old : Option Pte} (ht : t.Trim) (h : t.insert m pool v e = (.ok (old, t'), m')) : t'.Trim := by
  have hl : t'.lookup v ≠ none := by
    rw [lookup_insert h, if_pos rfl]
    exact Option.some_ne_none e
  rcases insert_cases t m pool v e with ⟨page, -, hi⟩ | ⟨b, m₁, -, -, hi⟩ | ⟨m₁, -, -, hi⟩ <;> rw [h] at hi <;> cases hi
  · exact ht.setDir fun _ => ⟨v, rfl, hl⟩
  · exact ht.setDir fun _ => ⟨v, rfl, hl⟩

theorem Trim.remove (ht : t.Trim) (m : Machine) (v : VirtAddr) : (t.remove m v).2.1.Trim := by
  rcases remove_cases t m v with ⟨-, hr⟩ | ⟨page, e, -, -, -, hr⟩ | ⟨page, e, -, -, hlive, hr⟩ <;> rw [hr]
  · exact ht
  · exact ht.setDir fun h => absurd rfl h
  · -- one of the entries that remain, at an address of the same region
    refine ht.setDir fun _ => ?_
    obtain ⟨i, hi⟩ := exists_entry_of_live hlive
    obtain ⟨w, hd, rfl⟩ := VirtAddr.exists_index (v := v) i
    exact ⟨w, hd, by rwa [lookup_setDir, if_pos hd.symm]⟩

/-! ## A table and its map -/

/-- **A table holds the entries of a map**, and no idle page-table page. -/
structure Refines (t : PageTable) (M : PageMap) : Prop where
  lookup_eq (v : VirtAddr) : t.lookup v = M.lookup v.page
  user (n : Nat) (h : n ∈ M) : n < userTop / pageSize
  trim : t.Trim

theorem refines_empty (root : Frame) : (empty root).Refines ∅ :=
  ⟨fun v => by rw [lookup_empty, Finmap.lookup_empty], fun n h => absurd h Finmap.notMem_empty, trim_empty root⟩

namespace Refines

/-- There is a page-table page for a region just when it holds an entry. -/
theorem dir_ne_none_iff (h : t.Refines M) (d : Fin tableEntries) : t.dir.get d ≠ none ↔ d.val ∈ M.regions := by
  rw [PageMap.mem_regions]
  constructor
  · intro hd
    obtain ⟨v, rfl, hl⟩ := h.trim d hd
    rw [h.lookup_eq, Option.ne_none_iff_isSome, Finmap.lookup_isSome] at hl
    exact ⟨v.page, hl, v.regionOf_page⟩
  · rintro ⟨n, hn, hd⟩ hnone
    obtain ⟨v, rfl⟩ := VirtAddr.exists_page (h.user n hn)
    obtain rfl : v.dirIndex = d := Fin.ext (v.regionOf_page.symm.trans hd)
    have hl := lookup_of_dir_none hnone
    rw [h.lookup_eq, Finmap.lookup_eq_none] at hl
    exact hl hn

theorem dir_eq_none_iff (h : t.Refines M) (v : VirtAddr) : t.dir.get v.dirIndex = none ↔ regionOf v.page ∉ M.regions := by
  rw [v.regionOf_page, ← h.dir_ne_none_iff, not_not]

theorem insert {old : Option Pte} (h : t.Refines M) (hi : t.insert m pool v e = (.ok (old, t'), m')) :
    t'.Refines (M.insert v.page e) := by
  refine ⟨fun w => ?_, fun n hn => ?_, h.trim.insert hi⟩
  · rw [lookup_insert hi]
    by_cases hw : w.page = v.page
    · rw [if_pos (VirtAddr.page_eq_iff.1 hw.symm), hw, Finmap.lookup_insert]
    · rw [if_neg fun hp => hw (VirtAddr.page_eq_iff.2 hp).symm, Finmap.lookup_insert_of_ne _ hw, h.lookup_eq]
  · rcases Finmap.mem_insert.1 hn with rfl | hn
    · exact v.page_lt
    · exact h.user n hn

theorem remove (h : t.Refines M) (m : Machine) (v : VirtAddr) : (t.remove m v).2.1.Refines (M.erase v.page) := by
  refine ⟨fun w => ?_, fun n hn => h.user n (Finmap.mem_erase.1 hn).2, h.trim.remove m v⟩
  rw [lookup_remove]
  by_cases hw : w.page = v.page
  · rw [if_pos (VirtAddr.page_eq_iff.1 hw.symm), hw, Finmap.lookup_erase]
  · rw [if_neg fun hp => hw (VirtAddr.page_eq_iff.2 hp).symm, Finmap.lookup_erase_ne hw, h.lookup_eq]

/-- **One operation**: the table answers as the map does, and still holds its entries. -/
theorem step (h : t.Refines M) (op : TableOp) :
    (op.onTable t).1 = (op.onMap M).1 ∧ (op.onTable t).2.Refines (op.onMap M).2 := by
  cases op with
  | remove m v => exact ⟨congrArg Except.ok ((fst_remove t m v).trans (h.lookup_eq v)), h.remove m v⟩
  | insert m pool v e =>
    simp only [TableOp.onTable, TableOp.onMap]
    -- there is a page-table page just when the region holds an entry, and a frame just when the pool supplies one
    rcases insert_cases t m pool v e with ⟨page, hd, hi⟩ | ⟨b, m₁, -, ha, hi⟩ | ⟨m₁, hd, ha, hi⟩
    · have hr : ¬ (regionOf v.page ∉ M.regions ∧ m.supply pool = 0) := by
        rw [← h.dir_eq_none_iff, hd]
        exact fun hn => Option.some_ne_none _ hn.1
      rw [if_neg hr, hi]
      exact ⟨congrArg Except.ok (h.lookup_eq v), h.insert hi⟩
    · have hs := Machine.supply_of_alloc_some ha
      rw [if_neg fun hn => by omega, hi]
      exact ⟨congrArg Except.ok (h.lookup_eq v), h.insert hi⟩
    · rw [if_pos ⟨(h.dir_eq_none_iff v).1 hd, Machine.supply_of_alloc_none ha⟩, hi]
      exact ⟨rfl, h⟩

/-- Any number of operations. -/
theorem run (ops : List TableOp) (h : t.Refines M) :
    (TableOp.run TableOp.onTable ops t).1 = (TableOp.run TableOp.onMap ops M).1 ∧
      (TableOp.run TableOp.onTable ops t).2.Refines (TableOp.run TableOp.onMap ops M).2 := by
  induction ops generalizing t M with
  | nil => exact ⟨rfl, h⟩
  | cons op ops ih =>
    obtain ⟨ha, hs⟩ := h.step op
    obtain ⟨has, hr⟩ := ih hs
    exact ⟨congrArg₂ List.cons ha has, hr⟩

end Refines

/-! ## The entries in their order -/

/-- The entries of a page-table page with the addresses of their pages, by its number in the directory. -/
def partOf (x : Option TablePage × Nat) : List (Nat × Pte) :=
  match x.1 with
  | none => []
  | some page => page.entries.toList.zipIdx.filterMap fun (e, i) => e.map (VirtAddr.startOf x.2 i, ·)

theorem toList_eq (t : PageTable) : t.toList = t.dir.toList.zipIdx.flatMap partOf := rfl

theorem mem_zipIdx_toList {α : Type} {n : Nat} {xs : Vector α n} {x : α} {i : Nat} :
    (x, i) ∈ xs.toList.zipIdx ↔ ∃ j : Fin n, j.val = i ∧ xs.get j = x := by
  rw [List.mem_zipIdx_iff_getElem?, List.getElem?_eq_some_iff]
  constructor
  · rintro ⟨h, hx⟩
    exact ⟨⟨i, by simpa using h⟩, rfl, by simpa [Vector.get] using hx⟩
  · rintro ⟨j, rfl, hx⟩
    exact ⟨by simp, by simpa [Vector.get] using hx⟩

theorem pairwise_zipIdx {α : Type} (l : List α) : l.zipIdx.Pairwise fun x y => x.2 < y.2 := by
  rw [← List.pairwise_map (R := (· < ·)), List.zipIdx_map_snd]
  exact List.pairwise_lt_range' 1

theorem mem_partOf {page : Option TablePage} {d a : Nat} :
    (a, e) ∈ partOf (page, d) ↔
      ∃ p, page = some p ∧ ∃ i : Fin tableEntries, p.entries.get i = some e ∧ a = VirtAddr.startOf d i := by
  cases page with
  | none => simp [partOf]
  | some p =>
    simp only [partOf, List.mem_filterMap, Prod.exists, mem_zipIdx_toList, Option.map_eq_some_iff, Prod.mk.injEq,
      Option.some.injEq, exists_eq_left']
    constructor
    · rintro ⟨_, _, ⟨i, rfl, hi⟩, _, rfl, rfl, rfl⟩
      exact ⟨i, hi, rfl⟩
    · rintro ⟨i, hi, rfl⟩
      exact ⟨_, _, ⟨i, rfl, hi⟩, e, rfl, rfl, rfl⟩

/-- **The entries come in ascending order**, no page twice. -/
theorem pairwise_toList (t : PageTable) : t.toList.Pairwise fun x y => x.1 < y.1 := by
  rw [toList_eq, List.pairwise_flatMap]
  -- the pages of one region ascend with the second index, the regions with the first
  constructor
  · rintro ⟨_ | page, d⟩ -
    · exact List.Pairwise.nil
    · refine List.pairwise_filterMap.2 ((pairwise_zipIdx _).imp fun {x y} hxy a ha b hb => ?_)
      obtain ⟨_, -, rfl⟩ := Option.map_eq_some_iff.1 ha
      obtain ⟨_, -, rfl⟩ := Option.map_eq_some_iff.1 hb
      simp only [VirtAddr.startOf, pageSize]
      omega
  · refine (pairwise_zipIdx _).imp fun {x y} hxy a ha b hb => ?_
    obtain ⟨-, -, i, -, hi⟩ := mem_partOf.1 ha
    obtain ⟨-, -, j, -, hj⟩ := mem_partOf.1 hb
    have hlt := i.isLt
    simp only [VirtAddr.startOf, tableSpan, pageSize, tableEntries] at hi hj hlt
    omega

theorem mapped_eq_length (t : PageTable) : t.mapped = t.toList.length := by
  have part (x : Option TablePage × Nat) : (partOf x).map Prod.snd = x.1.toList.flatMap TablePage.leaves := by
    obtain ⟨_ | page, d⟩ := x
    · rfl
    · have hsnd (x : Option Pte × Nat) : (x.1.map (VirtAddr.startOf d x.2, ·)).map Prod.snd = (id ∘ Prod.fst) x := by
        rcases x with ⟨_ | e, i⟩ <;> rfl
      simp only [partOf, List.map_filterMap, hsnd]
      rw [← List.filterMap_map, List.zipIdx_map_fst]
      simp [TablePage.leaves]
  have h : t.toList.map Prod.snd = t.tables.flatMap TablePage.leaves := by
    rw [toList_eq, List.map_flatMap, tables, filterMap_id_eq_flatMap, List.flatMap_assoc]
    simp only [part]
    rw [← List.flatMap_map Prod.fst (fun page : Option TablePage => page.toList.flatMap TablePage.leaves), List.zipIdx_map_fst]
  rw [mapped, ← h, List.length_map]

/-- The page-table pages with their numbers in the directory. -/
def numbered (t : PageTable) : List (TablePage × Nat) := t.dir.toList.zipIdx.filterMap fun x => x.1.map (·, x.2)

theorem tablePages_eq_length (t : PageTable) : t.tablePages = (t.numbered.map Prod.snd).length := by
  have hfst (x : Option TablePage × Nat) : (x.1.map (·, x.2)).map Prod.fst = (id ∘ Prod.fst) x := by
    rcases x with ⟨_ | p, i⟩ <;> rfl
  have h : t.numbered.map Prod.fst = t.tables := by
    simp only [numbered, List.map_filterMap, hfst]
    rw [← List.filterMap_map, List.zipIdx_map_fst, tables]
  rw [tablePages, ← h, List.length_map, List.length_map]

theorem nodup_numbered (t : PageTable) : (t.numbered.map Prod.snd).Nodup := by
  refine List.Pairwise.imp Nat.ne_of_lt (List.pairwise_map.2 ?_)
  refine List.pairwise_filterMap.2 ((pairwise_zipIdx _).imp fun {x y} hxy a ha b hb => ?_)
  obtain ⟨_, -, rfl⟩ := Option.map_eq_some_iff.1 ha
  obtain ⟨_, -, rfl⟩ := Option.map_eq_some_iff.1 hb
  exact hxy

theorem mem_numbered {d : Nat} : d ∈ t.numbered.map Prod.snd ↔ ∃ i : Fin tableEntries, i.val = d ∧ t.dir.get i ≠ none := by
  simp only [numbered, List.mem_map, List.mem_filterMap, Prod.exists, mem_zipIdx_toList, Option.map_eq_some_iff]
  constructor
  · rintro ⟨p, _, ⟨_, _, ⟨i, rfl, hi⟩, q, rfl, hq⟩, rfl⟩
    cases hq
    exact ⟨i, rfl, by rw [hi]; exact Option.some_ne_none _⟩
  · rintro ⟨i, rfl, hi⟩
    obtain ⟨p, hp⟩ := Option.ne_none_iff_exists'.1 hi
    exact ⟨p, i, ⟨_, _, ⟨i, rfl, hp⟩, p, rfl, rfl⟩, rfl⟩

namespace Refines

theorem mem_toList_iff (h : t.Refines M) (a : Nat) (e : Pte) :
    (a, e) ∈ t.toList ↔ ∃ n, M.lookup n = some e ∧ a = n * pageSize := by
  constructor
  · intro ha
    rw [toList_eq] at ha
    obtain ⟨⟨page, _⟩, hmem, ha⟩ := List.mem_flatMap.1 ha
    obtain ⟨p, rfl, i, hi, rfl⟩ := mem_partOf.1 ha
    obtain ⟨d, rfl, hd⟩ := mem_zipIdx_toList.1 hmem
    obtain ⟨v, rfl, -⟩ := h.trim d (by rw [hd]; exact Option.some_ne_none p)
    obtain ⟨w, hw, rfl⟩ := VirtAddr.exists_index (v := v) i
    rw [← hw] at hd ⊢
    refine ⟨w.page, ?_, w.startOf_dirIndex_tableIndex⟩
    rw [← h.lookup_eq, lookup_of_dir hd, hi]
  · rintro ⟨n, hn, rfl⟩
    obtain ⟨v, rfl⟩ := VirtAddr.exists_page (h.user n (Finmap.mem_of_lookup_eq_some hn))
    rw [← h.lookup_eq] at hn
    exact mem_toList hn

theorem mapped_eq (h : t.Refines M) : t.mapped = M.keys.card := by
  have hnodup : (t.toList.map Prod.fst).Nodup := List.Pairwise.imp Nat.ne_of_lt (List.pairwise_map.2 t.pairwise_toList)
  have hkeys : M.keys.image (· * pageSize) = (t.toList.map Prod.fst).toFinset := by
    ext a
    simp only [Finset.mem_image, Finmap.mem_keys, List.mem_toFinset, List.mem_map, Prod.exists, h.mem_toList_iff, Finmap.mem_iff]
    constructor
    · rintro ⟨n, ⟨e, he⟩, rfl⟩
      exact ⟨_, e, ⟨n, he, rfl⟩, rfl⟩
    · rintro ⟨_, e, ⟨n, he, rfl⟩, rfl⟩
      exact ⟨n, ⟨e, he⟩, rfl⟩
  have hinj : Function.Injective (· * pageSize) := fun a b hab => Nat.eq_of_mul_eq_mul_right (by decide : 0 < pageSize) hab
  rw [mapped_eq_length, ← Finset.card_image_of_injective M.keys hinj, hkeys, List.toFinset_card_of_nodup hnodup,
    List.length_map]

theorem tablePages_eq (h : t.Refines M) : t.tablePages = M.regions.card := by
  have hregions : M.regions = (t.numbered.map Prod.snd).toFinset := by
    ext d
    rw [List.mem_toFinset, mem_numbered]
    constructor
    · intro hd
      obtain ⟨n, hn, rfl⟩ := PageMap.mem_regions.1 hd
      obtain ⟨v, rfl⟩ := VirtAddr.exists_page (h.user n hn)
      rw [v.regionOf_page] at hd ⊢
      exact ⟨v.dirIndex, rfl, (h.dir_ne_none_iff _).2 hd⟩
    · rintro ⟨i, rfl, hi⟩
      exact (h.dir_ne_none_iff i).1 hi
  rw [tablePages_eq_length, hregions, List.toFinset_card_of_nodup t.nodup_numbered]

end Refines

/-! ## What a table shows and what it costs -/

/-- **What a table shows of its entries is the map.** -/
structure Shows (t : PageTable) (M : PageMap) : Prop where
  lookup (v : VirtAddr) : t.lookup v = M.lookup v.page
  mapped : t.mapped = M.keys.card
  tablePages : t.tablePages = M.regions.card
  ascending : t.toList.Pairwise fun x y => x.1 < y.1
  entries (a : Nat) (e : Pte) : (a, e) ∈ t.toList ↔ ∃ n, M.lookup n = some e ∧ a = n * pageSize

/-- **A table takes a frame for the first entry of a region, and gives it back with the last.** -/
structure Charges (t : PageTable) (M : PageMap) : Prop where
  /-- In a region that holds an entry there is room. -/
  occupied (m : Machine) (pool : Nat) (v : VirtAddr) (e : Pte) (h : regionOf v.page ∈ M.regions) : (t.insert m pool v e).2 = m
  /-- An insertion that fails costs the budget only. -/
  denied (m : Machine) (pool : Nat) (v : VirtAddr) (e : Pte) (h : regionOf v.page ∉ M.regions) (h0 : m.supply pool = 0) :
    (t.insert m pool v e).2.bare = m.bare
  /-- The first entry of a region takes one frame, and the page-table page is in it. -/
  taken (m : Machine) (pool : Nat) (v : VirtAddr) (e : Pte) (h : regionOf v.page ∉ M.regions) (hs : m.supply pool ≠ 0) :
    ∃ b t' m', m.alloc pool = (some b, m') ∧ t.insert m pool v e = (.ok (none, t'), m') ∧
      (t'.dir.get v.dirIndex).map TablePage.backing = some b
  /-- The last entry of a region gives its page-table page back. -/
  returned (m : Machine) (v : VirtAddr) (h : v.page ∈ M) (hlast : regionOf v.page ∉ PageMap.regions (M.erase v.page)) :
    ∃ b, (t.dir.get v.dirIndex).map TablePage.backing = some b ∧ (t.remove m v).2.2 = m.release b ∧
      (m.refs b = 1 → (t.remove m v).2.2.free b.pool = b :: m.free b.pool)
  /-- No other removal gives anything back. -/
  kept (m : Machine) (v : VirtAddr) (h : v.page ∈ M → regionOf v.page ∈ PageMap.regions (M.erase v.page)) :
    (t.remove m v).2.2 = m
  /-- Nobody else holds the frame of a page-table page where every hold is accounted for. -/
  owned (m : Machine) (P L : List Frame) (hb : m.Balanced (t.pagingFrames ++ P) (t.leafFrames ++ L)) (page : TablePage)
    (h : page ∈ t.tables) : m.refs page.backing = 1

theorem Refines.shows (h : t.Refines M) : t.Shows M :=
  ⟨h.lookup_eq, h.mapped_eq, h.tablePages_eq, t.pairwise_toList, h.mem_toList_iff⟩

theorem Refines.charges (h : t.Refines M) : t.Charges M where
  occupied m pool v e hr := by
    rcases insert_cases t m pool v e with ⟨page, -, hi⟩ | ⟨b, m₁, hd, -, -⟩ | ⟨m₁, hd, -, -⟩
    · rw [hi]
    · exact absurd hr ((h.dir_eq_none_iff v).1 hd)
    · exact absurd hr ((h.dir_eq_none_iff v).1 hd)
  denied m pool v e hr h0 := by
    rcases insert_cases t m pool v e with ⟨page, hd, -⟩ | ⟨b, m₁, -, ha, -⟩ | ⟨m₁, -, ha, hi⟩
    · rw [(h.dir_eq_none_iff v).2 hr] at hd
      cases hd
    · have := Machine.supply_of_alloc_some ha
      omega
    · rw [hi]
      exact Machine.bare_alloc_none ha
  taken m pool v e hr hs := by
    rcases insert_cases t m pool v e with ⟨page, hd, -⟩ | ⟨b, m₁, hd, ha, hi⟩ | ⟨m₁, -, ha, -⟩
    · rw [(h.dir_eq_none_iff v).2 hr] at hd
      cases hd
    · rw [lookup_of_dir_none hd] at hi
      exact ⟨b, _, m₁, ha, hi, by rw [get_setDir, if_pos rfl]; rfl⟩
    · exact absurd (Machine.supply_of_alloc_none ha) hs
  returned m v hv hlast := by
    have hd' := ((h.remove m v).dir_eq_none_iff v).2 hlast
    rcases remove_cases t m v with ⟨hl, -⟩ | ⟨page, e, hd, -, -, hr⟩ | ⟨page, e, hd, -, -, hr⟩
    · rw [h.lookup_eq, Finmap.lookup_eq_none] at hl
      exact absurd hv hl
    · exact ⟨page.backing, by rw [hd]; rfl, by rw [hr], fun h1 => by rw [hr]; exact Machine.free_release h1⟩
    · rw [hr, get_setDir, if_pos rfl] at hd'
      cases hd'
  kept m v hv := by
    rcases remove_cases t m v with ⟨-, hr⟩ | ⟨page, e, -, hl, -, hr⟩ | ⟨page, e, -, -, -, hr⟩
    · rw [hr]
    · rw [h.lookup_eq] at hl
      have hd' := hv (Finmap.mem_of_lookup_eq_some hl)
      rw [v.regionOf_page, ← (h.remove m v).dir_ne_none_iff, hr, get_setDir, if_pos rfl] at hd'
      exact absurd rfl hd'
    · rw [hr]
  owned m P L hb page hp :=
    hb.refs_of_paging (List.mem_append_left P (List.mem_cons_of_mem t.root (List.mem_map_of_mem hp)))

/-- **A page table is a finite map**: after any operations, in any machines, it has given the map's answers and shows the
map's entries, it takes and gives back frames as the regions fill and empty, and a table with counters has come the same
way without lowering one below zero. -/
theorem refines_pageMap (root : Frame) (ops : List TableOp) :
    ∃ answers t M, TableOp.run TableOp.onTable ops (empty root) = (answers, t) ∧ TableOp.run TableOp.onMap ops ∅ = (answers, M) ∧
      t.Shows M ∧ t.Charges M ∧ TableOp.runCounted ops (.empty root) = some (answers, t.counted) ∧
      ∀ m v, t.counted.remove m v = some ((t.remove m v).1, (t.remove m v).2.1.counted, (t.remove m v).2.2) := by
  obtain ⟨ha, h⟩ := (refines_empty root).run ops
  refine ⟨_, _, _, rfl, Prod.ext ha.symm rfl, h.shows, h.charges, ?_, fun m v => remove_counted _ m v⟩
  rw [← counted_empty, TableOp.runCounted_counted]

/-- One page entered twice, at two of its addresses, a second region without a frame, and the page taken out again. -/
theorem refines_pageMap_emptied : ∃ (m : Machine) (v w far : VirtAddr) (x y : Pte) (t : PageTable), v.page = w.page ∧ v ≠ w ∧ x ≠ y ∧
    TableOp.run TableOp.onTable [.insert (.ofSizes [1]) 0 v x, .insert (.ofSizes [0]) 0 w y, .insert (.ofSizes [0]) 0 far x]
      (empty default) = ([.ok none, .ok (some x), .error .outOfMemory], t) ∧
    t.lookup v = some y ∧ t.mapped = 1 ∧ t.tablePages = 1 ∧ (t.remove m v).1 = some y ∧
    m.free 0 = [] ∧ (t.remove m v).2.2.free 0 = [⟨0, 0⟩] := by
  let v : VirtAddr := ⟨0x800000, by decide⟩
  let w : VirtAddr := ⟨0x800004, by decide⟩
  let far : VirtAddr := ⟨0x10000000, by decide⟩
  let x : Pte := ⟨⟨0, 7⟩, .userWritable⟩
  let y : Pte := ⟨⟨0, 8⟩, .userWritable⟩
  obtain ⟨answers, t, M, ht, hM, hshows, hcharges, -, -⟩ := refines_pageMap default
    [.insert (.ofSizes [1]) 0 v x, .insert (.ofSizes [0]) 0 w y, .insert (.ofSizes [0]) 0 far x]
  obtain ⟨hanswers, rfl⟩ := Prod.mk.inj hM
  obtain rfl : [.ok none, .ok (some x), .error .outOfMemory] = answers := Eq.trans (by decide +kernel) hanswers
  have hlookup : t.lookup v = some y := (hshows.lookup v).trans (by decide +kernel)
  obtain ⟨b, hb, -, hfree⟩ := hcharges.returned ((Machine.ofSizes [1]).alloc 0).2 v (by decide +kernel) (by decide +kernel)
  rw [← (Prod.mk.inj ht).2] at hb
  obtain rfl : (⟨0, 0⟩ : Frame) = b := Option.some.inj (Eq.trans (by decide +kernel) hb)
  exact ⟨((Machine.ofSizes [1]).alloc 0).2, v, w, far, x, y, t, by decide, by decide, by decide, ht, hlookup,
    hshows.mapped.trans (by decide +kernel), hshows.tablePages.trans (by decide +kernel), (fst_remove _ _ v).trans hlookup,
    by decide +kernel, hfree (by decide +kernel)⟩

end PageTable
end Exokernel
