import Mathlib.Data.Nat.PSub
import Exokernel.Proofs.Paging.Frames
/-!
# The counters of a page table

A page table need not count its entries: it can keep a counter in each page-table page and one for all of them.  An entry
that comes in adds one to both, an entry that goes takes one from both, and a page-table page whose counter comes to zero
is given back.  Main statements: the table with counters does what the table does (`insert_counted`, `remove_counted`), its
counters stay right, and none of them is ever lowered below zero.
-/
namespace Exokernel

/-- A page-table page with a counter of its entries. -/
structure CountedPage where
  page : TablePage
  live : Nat

/-- A page table with a counter of its entries. -/
structure CountedTable where
  root : Frame
  dir : Vector (Option CountedPage) tableEntries
  mapped : Nat

namespace CountedTable

def empty (root : Frame) : CountedTable := ⟨root, Vector.replicate tableEntries none, 0⟩

def setDir (t : CountedTable) (v : VirtAddr) (p : Option CountedPage) (mapped : Nat) : CountedTable :=
  { t with dir := t.dir.setIfInBounds v.dirIndex p, mapped }

/-- Put an entry into a page-table page, and count it if it displaces none. -/
def enter (t : CountedTable) (p : CountedPage) (v : VirtAddr) (e : Pte) : Option Pte × CountedTable :=
  let old := p.page.entries.get v.tableIndex
  let added := if old.isNone then 1 else 0
  (old, t.setDir v (some ⟨PageTable.setEntry p.page v (some e), p.live + added⟩) (t.mapped + added))

def insert (t : CountedTable) (m : Machine) (pool : Nat) (v : VirtAddr) (e : Pte) :
    Except MapError (Option Pte × CountedTable) × Machine :=
  match t.dir.get v.dirIndex with
  | some p => (.ok (t.enter p v e), m)
  | none =>
    match m.alloc pool with
    | (none, m) => (.error .outOfMemory, m)
    | (some f, m) => (.ok (t.enter ⟨.empty f, 0⟩ v e), m)

/-- **Take out a page's entry**: no result if a counter had to be lowered below zero. -/
def remove (t : CountedTable) (m : Machine) (v : VirtAddr) : Option (Option Pte × CountedTable × Machine) :=
  match t.dir.get v.dirIndex with
  | none => some (none, t, m)
  | some p =>
    match p.page.entries.get v.tableIndex with
    | none => some (none, t, m)
    | some e =>
      match p.live.ppred, t.mapped.ppred with
      | some live, some mapped =>
        if live = 0 then some (some e, t.setDir v none mapped, m.release p.page.backing)
        else some (some e, t.setDir v (some ⟨PageTable.setEntry p.page v none, live⟩) mapped, m)
      | _, _ => none

end CountedTable

/-! ## What an operation does to the counts -/

theorem TablePage.live_setEntry (page : TablePage) (v : VirtAddr) (e : Option Pte) :
    (page.entries.get v.tableIndex).toList.length + (PageTable.setEntry page v e).live = e.toList.length + page.live := by
  have h := (leaves_setEntry page v e rfl).length_eq
  rwa [List.length_append, List.length_append] at h

theorem TablePage.live_empty (f : Frame) : (empty f).live = 0 := by simp [live, leaves, empty]

namespace PageTable

variable {t : PageTable} {v : VirtAddr}

theorem mapped_setDir (t : PageTable) (v : VirtAddr) (page : Option TablePage) {old : Option TablePage}
    (ho : t.dir.get v.dirIndex = old) :
    old.elim 0 TablePage.live + (t.setDir v page).mapped = page.elim 0 TablePage.live + t.mapped := by
  have h := (tables_setDir TablePage.leaves t v page ho).length_eq
  rw [List.length_append, List.length_append] at h
  cases old <;> cases page <;> simpa [TablePage.live, mapped] using h

/-! ## The counters are right -/

/-- **A table with its counters.** -/
def counted (t : PageTable) : CountedTable := ⟨t.root, t.dir.map (Option.map fun p => ⟨p, p.live⟩), t.mapped⟩

theorem counted_empty (root : Frame) : (empty root).counted = .empty root := by
  simp [counted, empty, CountedTable.empty, mapped, tables]

theorem mapped_counted (t : PageTable) : t.counted.mapped = t.mapped := rfl

theorem counted_dir (t : PageTable) (v : VirtAddr) :
    t.counted.dir.get v.dirIndex = (t.dir.get v.dirIndex).map fun p => ⟨p, p.live⟩ :=
  Vector.getElem_map _ v.dirIndex.isLt

theorem set_eq_setIfInBounds {α : Type} {n : Nat} (xs : Vector α n) (i : Fin n) (x : α) :
    xs.set i x i.isLt = xs.setIfInBounds i x := by
  ext j hj
  rw [Vector.getElem_set, Vector.getElem_setIfInBounds]

theorem counted_setDir (t : PageTable) (v : VirtAddr) (page : Option TablePage) :
    (t.setDir v page).counted = t.counted.setDir v (page.map fun p => ⟨p, p.live⟩) (t.setDir v page).mapped := by
  simp only [counted, setDir, CountedTable.setDir, Vector.map_set, ← set_eq_setIfInBounds]

/-- Entering a page keeps the counters right, in a page-table page that is there or in a new one. -/
theorem enter_counted {t : PageTable} {v : VirtAddr} {old : Option TablePage} (ho : t.dir.get v.dirIndex = old)
    {page : TablePage} (hlive : page.live = old.elim 0 TablePage.live) (e : Pte) :
    t.counted.enter ⟨page, page.live⟩ v e =
      (page.entries.get v.tableIndex, (t.setDir v (some (setEntry page v (some e)))).counted) := by
  have hl := TablePage.live_setEntry page v (some e)
  have hm := mapped_setDir t v (some (setEntry page v (some e))) ho
  rw [← hlive, Option.elim_some] at hm
  rw [counted_setDir, CountedTable.enter, Option.map_some]
  cases hx : page.entries.get v.tableIndex with
  | none =>
    rw [hx] at hl
    simp only [Option.toList_none, Option.toList_some, List.length_nil, List.length_singleton] at hl
    simp only [Option.isNone_none, if_true]
    rw [mapped_counted, show page.live + 1 = (setEntry page v (some e)).live by omega,
      show t.mapped + 1 = (t.setDir v (some (setEntry page v (some e)))).mapped by omega]
  | some x =>
    rw [hx] at hl
    simp only [Option.toList_some, List.length_singleton] at hl
    simp only [Option.isNone_some, Bool.false_eq_true, if_false, Nat.add_zero]
    rw [mapped_counted, show page.live = (setEntry page v (some e)).live by omega,
      show t.mapped = (t.setDir v (some (setEntry page v (some e)))).mapped by omega]

/-- **An insertion counts what it enters.** -/
theorem insert_counted (t : PageTable) (m : Machine) (pool : Nat) (v : VirtAddr) (e : Pte) :
    t.counted.insert m pool v e =
      ((t.insert m pool v e).1.map fun r => (r.1, r.2.counted), (t.insert m pool v e).2) := by
  unfold CountedTable.insert
  rw [counted_dir]
  rcases insert_cases t m pool v e with ⟨page, hd, hi⟩ | ⟨b, m', hd, ha, hi⟩ | ⟨m', hd, ha, hi⟩ <;> rw [hi, hd]
  · simp only [Option.map_some, enter_counted hd rfl, lookup_of_dir hd]
    rfl
  · have h := enter_counted hd (TablePage.live_empty b) e
    rw [TablePage.live_empty, TablePage.get_empty] at h
    simp only [Option.map_none, ha, h, lookup_of_dir_none hd]
    rfl
  · simp only [Option.map_none, ha]
    rfl

/-- Where an entry goes, both counters are one more than what is left. -/
theorem ppred_counters {page : TablePage} {e : Pte} (hd : t.dir.get v.dirIndex = some page) (hl : t.lookup v = some e)
    (rest : Option TablePage) (hrest : rest.elim 0 TablePage.live = (setEntry page v none).live) :
    page.live.ppred = some (setEntry page v none).live ∧ t.mapped.ppred = some (t.setDir v rest).mapped := by
  have hlive := TablePage.live_setEntry page v none
  have hmapped := mapped_setDir t v rest hd
  rw [← lookup_of_dir hd, hl] at hlive
  simp only [Option.toList_some, Option.toList_none, List.length_singleton, List.length_nil, Option.elim_some,
    Nat.zero_add] at hlive hmapped
  exact ⟨Nat.ppred_eq_some.2 (by omega), Nat.ppred_eq_some.2 (by omega)⟩

/-- **A removal lowers no counter below zero**, and gives back a page-table page just when its counter comes to zero. -/
theorem remove_counted (t : PageTable) (m : Machine) (v : VirtAddr) :
    t.counted.remove m v = some ((t.remove m v).1, (t.remove m v).2.1.counted, (t.remove m v).2.2) := by
  unfold CountedTable.remove
  rw [counted_dir]
  rcases remove_cases t m v with ⟨hl, hr⟩ | ⟨page, e, hd, hl, h0, hr⟩ | ⟨page, e, hd, hl, h0, hr⟩ <;> rw [hr]
  · cases hd : t.dir.get v.dirIndex with
    | none => rfl
    | some page => simp only [Option.map_some, (lookup_of_dir hd).symm.trans hl]
  · obtain ⟨hlive, hmapped⟩ := ppred_counters hd hl none h0.symm
    simp only [hd, Option.map_some, (lookup_of_dir hd).symm.trans hl, hlive, mapped_counted, hmapped, if_pos h0,
      counted_setDir, Option.map_none]
  · obtain ⟨hlive, hmapped⟩ := ppred_counters hd hl (some (setEntry page v none)) rfl
    simp only [hd, Option.map_some, (lookup_of_dir hd).symm.trans hl, hlive, mapped_counted, hmapped, if_neg h0,
      counted_setDir]

end PageTable
end Exokernel
