import Exokernel.Paging.Space
import Exokernel.Proofs.Memory.Balance
/-!
# The frames of a page table

A page table holds frames of two kinds: those it consists of, and those of the pages that are entered.  Main
statements: what an insertion and a removal do to both, and that a balanced machine stays so under `map` and `unmap`.
-/
namespace Exokernel

theorem perm_flatMap_set {α β : Type} (g : α → List β) {y : α} (x : α) :
    ∀ (l : List α) (i : Nat), l[i]? = some y → (g y ++ (l.set i x).flatMap g).Perm (g x ++ l.flatMap g)
  | [], i, h => by simp at h
  | z :: l, 0, h => by
    obtain rfl : z = y := by simpa using h
    simp only [List.set_cons_zero, List.flatMap_cons]
    exact List.perm_append_comm_assoc _ _ _
  | z :: l, i + 1, h => by
    have ih := perm_flatMap_set g x l i (by simpa using h)
    simp only [List.set_cons_succ, List.flatMap_cons]
    exact (List.perm_append_comm_assoc _ _ _).trans
      ((List.Perm.append_left _ ih).trans (List.perm_append_comm_assoc _ _ _))

theorem filterMap_id_eq_flatMap {α : Type} : ∀ l : List (Option α), l.filterMap id = l.flatMap Option.toList
  | [] => rfl
  | none :: l => by rw [List.filterMap_cons_none rfl, filterMap_id_eq_flatMap l]; rfl
  | some a :: l => by rw [List.filterMap_cons_some (f := id) (b := a) rfl, filterMap_id_eq_flatMap l]; rfl

theorem perm_exchange {α : Type} [BEq α] [LawfulBEq α] {a b t t' o x : List α} (h : (a ++ t').Perm (b ++ t))
    (g : (o ++ b).Perm (x ++ a)) : (o ++ t').Perm (x ++ t) := by
  rw [List.perm_iff_count] at *
  intro y
  have h := h y
  have g := g y
  simp only [List.count_append] at *
  omega

namespace TablePage

/-- The frames of the pages that are entered, once for each entry. -/
def leafFrames (t : TablePage) : List Frame := t.leaves.map Pte.frame

theorem get_empty (f : Frame) (i : Fin tableEntries) : (empty f).entries.get i = none := by simp [empty, Vector.get]

theorem leafFrames_empty (f : Frame) : (empty f).leafFrames = [] := by
  simp [leafFrames, leaves, empty]

theorem leafFrames_of_live_eq_zero {t : TablePage} (h : t.live = 0) : t.leafFrames = [] := by
  rw [leafFrames, List.eq_nil_of_length_eq_zero h, List.map_nil]

theorem mem_leaves {t : TablePage} {i : Fin tableEntries} {e : Pte} (h : t.entries[i] = some e) : e ∈ t.leaves := by
  refine List.mem_filterMap.2 ⟨some e, ?_, rfl⟩
  rw [← h]
  simp

theorem leaves_setEntry (t : TablePage) (v : VirtAddr) (e : Option Pte) {old : Option Pte}
    (ho : t.entries.get v.tableIndex = old) :
    (old.toList ++ (PageTable.setEntry t v e).leaves).Perm (e.toList ++ t.leaves) := by
  have hy : t.entries.toList[v.tableIndex.val]? = some old := by
    subst ho
    simp [Vector.get]
  have h := perm_flatMap_set Option.toList e t.entries.toList v.tableIndex hy
  rw [← filterMap_id_eq_flatMap, ← filterMap_id_eq_flatMap] at h
  simpa only [leaves, PageTable.setEntry, Vector.toList_set] using h

theorem leafFrames_setEntry (t : TablePage) (v : VirtAddr) (e : Option Pte) {old : Option Pte}
    (ho : t.entries.get v.tableIndex = old) :
    (old.toList.map Pte.frame ++ (PageTable.setEntry t v e).leafFrames).Perm
      (e.toList.map Pte.frame ++ t.leafFrames) := by
  have h := (leaves_setEntry t v e ho).map Pte.frame
  rwa [List.map_append, List.map_append] at h

end TablePage

namespace PageTable

/-- The frames that a page table consists of: the directory's and those of its page-table pages. -/
def pagingFrames (t : PageTable) : List Frame := t.root :: t.tables.map TablePage.backing

/-- The frames of the pages that are entered, once for each entry. -/
def leafFrames (t : PageTable) : List Frame := t.tables.flatMap TablePage.leafFrames

theorem tables_empty (root : Frame) : (empty root).tables = [] := by simp [tables, empty]

/-- **A page table holds nothing else.** -/
theorem frames_perm (t : PageTable) : t.frames.Perm (t.pagingFrames ++ t.leafFrames) := by
  rw [frames, pagingFrames, List.cons_append]
  refine List.Perm.cons _ ?_
  rw [leafFrames]
  generalize t.tables = l
  induction l with
  | nil => exact List.Perm.refl _
  | cons page l ih =>
    simp only [List.flatMap_cons, List.map_cons, List.cons_append]
    refine List.Perm.cons _ ?_
    exact (List.Perm.append_left _ ih).trans (List.perm_append_comm_assoc _ _ _)

theorem mem_leaves {t : PageTable} {v : VirtAddr} {e : Pte} (h : t.lookup v = some e) : ∃ page ∈ t.tables, e ∈ page.leaves := by
  unfold lookup at h
  split at h
  · cases h
  next page hp =>
    refine ⟨page, List.mem_filterMap.2 ⟨some page, ?_, rfl⟩, TablePage.mem_leaves h⟩
    rw [← hp]
    simp

theorem mem_leafFrames {t : PageTable} {v : VirtAddr} {e : Pte} (h : t.lookup v = some e) : e.frame ∈ t.leafFrames := by
  obtain ⟨page, hp, he⟩ := mem_leaves h
  exact List.mem_flatMap.2 ⟨page, hp, List.mem_map_of_mem he⟩

/-- **What is looked up is listed**, with the address that its page starts at. -/
theorem mem_toList {t : PageTable} {v : VirtAddr} {e : Pte} (h : t.lookup v = some e) :
    (v.pageDown.raw, e) ∈ t.toList := by
  unfold lookup at h
  split at h
  · cases h
  next page hp =>
    refine List.mem_flatMap.2 ⟨(some page, v.dirIndex.val), ?_, List.mem_filterMap.2
      ⟨(some e, v.tableIndex.val), ?_, by rw [← VirtAddr.startOf_dirIndex_tableIndex]; rfl⟩⟩
    · rw [List.mem_zipIdx_iff_getElem?, ← hp]
      simp
    · rw [List.mem_zipIdx_iff_getElem?, ← h]
      simp

theorem tables_setDir {α : Type} (g : TablePage → List α) (t : PageTable) (v : VirtAddr) (page : Option TablePage)
    {old : Option TablePage} (ho : t.dir.get v.dirIndex = old) :
    (old.toList.flatMap g ++ (t.setDir v page).tables.flatMap g).Perm
      (page.toList.flatMap g ++ t.tables.flatMap g) := by
  have hy : t.dir.toList[v.dirIndex.val]? = some old := by
    subst ho
    simp [Vector.get]
  have h := perm_flatMap_set Option.toList page t.dir.toList v.dirIndex hy
  rw [← filterMap_id_eq_flatMap, ← filterMap_id_eq_flatMap] at h
  have := h.flatMap_right g
  rw [List.flatMap_append, List.flatMap_append] at this
  simpa only [tables, setDir, Vector.toList_set] using this

theorem pagingFrames_eq (t : PageTable) : t.pagingFrames = t.root :: t.tables.flatMap fun p => [p.backing] := by
  rw [pagingFrames, List.map_eq_flatMap]

/-! ## What an operation can do -/

theorem lookup_eq_get (t : PageTable) (v : VirtAddr) :
    t.lookup v = (t.dir.get v.dirIndex).bind (·.entries.get v.tableIndex) := by
  unfold lookup
  split
  next hd => rw [show t.dir.get v.dirIndex = none from hd, Option.bind_none]
  next page hd => rw [show t.dir.get v.dirIndex = some page from hd, Option.bind_some]; rfl

theorem lookup_of_dir {t : PageTable} {v : VirtAddr} {page : TablePage} (h : t.dir.get v.dirIndex = some page) :
    t.lookup v = page.entries.get v.tableIndex := by
  rw [lookup_eq_get, h, Option.bind_some]

theorem lookup_of_dir_none {t : PageTable} {v : VirtAddr} (h : t.dir.get v.dirIndex = none) : t.lookup v = none := by
  rw [lookup_eq_get, h, Option.bind_none]

/-- An entry comes into a page-table page that is there, or into a new one, or there is no frame for one. -/
theorem insert_cases (t : PageTable) (m : Machine) (pool : Nat) (v : VirtAddr) (e : Pte) :
    (∃ page, t.dir.get v.dirIndex = some page ∧
      t.insert m pool v e = (.ok (t.lookup v, t.setDir v (some (setEntry page v (some e)))), m)) ∨
    (∃ b m', t.dir.get v.dirIndex = none ∧ m.alloc pool = (some b, m') ∧
      t.insert m pool v e = (.ok (t.lookup v, t.setDir v (some (setEntry (.empty b) v (some e)))), m')) ∨
    ∃ m', t.dir.get v.dirIndex = none ∧ m.alloc pool = (none, m') ∧ t.insert m pool v e = (.error .outOfMemory, m') := by
  unfold insert
  split
  next page hd => exact .inl ⟨page, hd, by rw [lookup_of_dir hd]; rfl⟩
  next hd =>
    rcases ha : m.alloc pool with ⟨_ | b, m'⟩
    · exact .inr (.inr ⟨m', hd, rfl, rfl⟩)
    · exact .inr (.inl ⟨b, m', hd, rfl, by rw [lookup_of_dir_none hd]⟩)

/-- There is no entry to take out, or it is the last one of its page-table page, or others remain. -/
theorem remove_cases (t : PageTable) (m : Machine) (v : VirtAddr) :
    (t.lookup v = none ∧ t.remove m v = (none, t, m)) ∨
    (∃ page e, t.dir.get v.dirIndex = some page ∧ t.lookup v = some e ∧ (setEntry page v none).live = 0 ∧
      t.remove m v = (some e, t.setDir v none, m.release page.backing)) ∨
    ∃ page e, t.dir.get v.dirIndex = some page ∧ t.lookup v = some e ∧ (setEntry page v none).live ≠ 0 ∧
      t.remove m v = (some e, t.setDir v (some (setEntry page v none)), m) := by
  unfold remove
  split
  next hd => exact .inl ⟨lookup_of_dir_none hd, rfl⟩
  next page hd =>
    have hl := lookup_of_dir hd
    split
    next he => exact .inl ⟨hl.trans he, rfl⟩
    next e he =>
      by_cases h0 : (setEntry page v none).live = 0
      · exact .inr (.inl ⟨page, e, hd, hl.trans he, h0, if_pos h0⟩)
      · exact .inr (.inr ⟨page, e, hd, hl.trans he, h0, if_neg h0⟩)

/-! ## The frames after an operation -/

/-- **What an insertion does to the frames of a table**: one part more if a page-table page was missing, and among the
pages the new one in the place of the displaced one. -/
theorem frames_insert {t t' : PageTable} {m m' : Machine} {pool : Nat} {v : VirtAddr} {e : Pte} {d : Option Pte}
    (h : t.insert m pool v e = (.ok (d, t'), m')) :
    ((m' = m ∧ t'.pagingFrames.Perm t.pagingFrames) ∨
      ∃ b, m.alloc pool = (some b, m') ∧ t'.pagingFrames.Perm (b :: t.pagingFrames)) ∧
    (d.toList.map Pte.frame ++ t'.leafFrames).Perm (e.frame :: t.leafFrames) := by
  simp only [pagingFrames_eq]
  rcases insert_cases t m pool v e with ⟨page, hp, hi⟩ | ⟨b, m₁, hp, ha, hi⟩ | ⟨m₁, -, -, hi⟩ <;> rw [h] at hi <;> cases hi
  · have h₁ := tables_setDir (fun p => [p.backing]) t v (some (setEntry page v (some e))) hp
    have h₂ := tables_setDir TablePage.leafFrames t v (some (setEntry page v (some e))) hp
    simp only [Option.toList_some, List.flatMap_cons, List.flatMap_nil, List.append_nil] at h₁ h₂
    exact ⟨Or.inl ⟨rfl, List.Perm.cons _ ((List.perm_append_left_iff _).1 h₁)⟩,
      perm_exchange h₂ (TablePage.leafFrames_setEntry page v (some e) (lookup_of_dir hp).symm)⟩
  · have h₁ := tables_setDir (fun p => [p.backing]) t v (some (setEntry (.empty b) v (some e))) hp
    have h₂ := tables_setDir TablePage.leafFrames t v (some (setEntry (.empty b) v (some e))) hp
    have h₃ := TablePage.leafFrames_setEntry (.empty b) v (some e) (TablePage.get_empty b v.tableIndex)
    rw [TablePage.leafFrames_empty] at h₃
    simp only [Option.toList_some, Option.toList_none, List.flatMap_cons, List.flatMap_nil, List.append_nil] at h₁ h₂
    rw [lookup_of_dir_none hp]
    exact ⟨Or.inr ⟨b, ha, (List.Perm.cons _ h₁).trans (List.Perm.swap _ _ _)⟩, perm_exchange h₂ h₃⟩

/-- **What a removal does to the frames of a table**: the page is gone, and with the last page of a page-table page
that page goes too. -/
theorem frames_remove {t t' : PageTable} {m m' : Machine} {v : VirtAddr} {d : Option Pte}
    (h : t.remove m v = (d, t', m')) :
    ((m' = m ∧ t'.pagingFrames.Perm t.pagingFrames) ∨
      ∃ b, m' = m.release b ∧ (b :: t'.pagingFrames).Perm t.pagingFrames) ∧
    (d.toList.map Pte.frame ++ t'.leafFrames).Perm t.leafFrames := by
  simp only [pagingFrames_eq]
  rcases remove_cases t m v with ⟨-, hr⟩ | ⟨page, e, hp, he, hl, hr⟩ | ⟨page, e, hp, he, -, hr⟩ <;> rw [h] at hr <;> cases hr
  · exact ⟨Or.inl ⟨rfl, List.Perm.refl _⟩, List.Perm.refl _⟩
  · have h₁ := tables_setDir (fun p => [p.backing]) t v none hp
    have h₂ := tables_setDir TablePage.leafFrames t v none hp
    have h₃ := TablePage.leafFrames_setEntry page v none ((lookup_of_dir hp).symm.trans he)
    rw [TablePage.leafFrames_of_live_eq_zero hl] at h₃
    simp only [Option.toList_some, Option.toList_none, List.flatMap_cons, List.flatMap_nil, List.append_nil] at h₁ h₂
    exact ⟨Or.inr ⟨page.backing, rfl, (List.Perm.swap _ _ _).trans (List.Perm.cons _ h₁)⟩, perm_exchange h₂ h₃⟩
  · have h₁ := tables_setDir (fun p => [p.backing]) t v (some (setEntry page v none)) hp
    have h₂ := tables_setDir TablePage.leafFrames t v (some (setEntry page v none)) hp
    have h₃ := TablePage.leafFrames_setEntry page v none ((lookup_of_dir hp).symm.trans he)
    simp only [Option.toList_some, List.flatMap_cons, List.flatMap_nil, List.append_nil] at h₁ h₂
    exact ⟨Or.inl ⟨rfl, List.Perm.cons _ ((List.perm_append_left_iff _).1 h₁)⟩, perm_exchange h₂ h₃⟩

/-! ## The entries themselves -/

/-- The entries of a table. -/
def leaves (t : PageTable) : List Pte := t.tables.flatMap TablePage.leaves

theorem leaves_empty (root : Frame) : (empty root).leaves = [] := by rw [leaves, tables_empty, List.flatMap_nil]

/-- **A page-table page that is exchanged brings in its own entries and no others.** -/
theorem mem_leaves_setDir {t : PageTable} {v : VirtAddr} {page : Option TablePage} {q : Pte}
    (hq : q ∈ (t.setDir v page).leaves) : (∃ p, page = some p ∧ q ∈ p.leaves) ∨ q ∈ t.leaves := by
  have hp := (tables_setDir TablePage.leaves t v page rfl).mem_iff (a := q)
  rcases List.mem_append.1 (hp.1 (List.mem_append_right _ hq)) with h | h
  · obtain ⟨p, hp, hq⟩ := List.mem_flatMap.1 h
    exact Or.inl ⟨p, Option.mem_toList.1 hp, hq⟩
  · exact Or.inr h

theorem mem_leaves_of_dir {t : PageTable} {v : VirtAddr} {page : TablePage} (h : t.dir.get v.dirIndex = some page)
    {q : Pte} (hq : q ∈ page.leaves) : q ∈ t.leaves :=
  List.mem_flatMap.2 ⟨page, List.mem_filterMap.2 ⟨some page, by rw [← h]; simp [Vector.get], rfl⟩, hq⟩

theorem mem_leaves_setEntry {page : TablePage} {v : VirtAddr} {e : Option Pte} {q : Pte}
    (hq : q ∈ (setEntry page v e).leaves) : e = some q ∨ q ∈ page.leaves := by
  have hp := (TablePage.leaves_setEntry page v e rfl).mem_iff (a := q)
  rcases List.mem_append.1 (hp.1 (List.mem_append_right _ hq)) with h | h
  · exact Or.inl (Option.mem_toList.1 h)
  · exact Or.inr h

/-- **An insertion brings in the entry itself and no other.** -/
theorem mem_leaves_insert {t t' : PageTable} {m m' : Machine} {pool : Nat} {v : VirtAddr} {e : Pte} {d : Option Pte}
    (h : t.insert m pool v e = (.ok (d, t'), m')) {q : Pte} (hq : q ∈ t'.leaves) : q = e ∨ q ∈ t.leaves := by
  rcases insert_cases t m pool v e with ⟨page, hp, hi⟩ | ⟨b, m₁, -, -, hi⟩ | ⟨m₁, -, -, hi⟩ <;> rw [h] at hi <;> cases hi
  · rcases mem_leaves_setDir hq with ⟨_, hx, hq⟩ | hq
    · cases hx
      rcases mem_leaves_setEntry hq with he | hq
      · exact Or.inl (Option.some.inj he).symm
      · exact Or.inr (mem_leaves_of_dir hp hq)
    · exact Or.inr hq
  · rcases mem_leaves_setDir hq with ⟨_, hx, hq⟩ | hq
    · cases hx
      rcases mem_leaves_setEntry hq with he | hq
      · exact Or.inl (Option.some.inj he).symm
      · simp [TablePage.leaves, TablePage.empty] at hq
    · exact Or.inr hq

theorem mem_leaves_remove {t t' : PageTable} {m m' : Machine} {v : VirtAddr} {d : Option Pte}
    (h : t.remove m v = (d, t', m')) {q : Pte} (hq : q ∈ t'.leaves) : q ∈ t.leaves := by
  rcases remove_cases t m v with ⟨-, hr⟩ | ⟨page, e, -, -, -, hr⟩ | ⟨page, e, hp, -, -, hr⟩ <;> rw [h] at hr <;> cases hr
  · exact hq
  · rcases mem_leaves_setDir hq with ⟨_, hx, -⟩ | hq
    · cases hx
    · exact hq
  · rcases mem_leaves_setDir hq with ⟨_, hx, hq⟩ | hq
    · cases hx
      rcases mem_leaves_setEntry hq with he | hq
      · cases he
      · exact mem_leaves_of_dir hp hq
    · exact hq

end PageTable
end Exokernel
