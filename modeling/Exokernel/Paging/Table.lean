import Exokernel.Memory.Machine
import Exokernel.Perm
import Exokernel.VirtAddr
/-!
# Page tables

A page table has two levels: a directory, and under it page-table pages that map `tableSpan` bytes each.  The directory
and every page-table page take a frame of their own.  A page-table page is made when the first entry needs it and
given back with the last.
-/
namespace Exokernel

/-- Why a page could not be mapped: no frame for a page-table page. -/
inductive MapError where
  | outOfMemory
deriving DecidableEq

def MapError.name : MapError → String
  | .outOfMemory => "OutOfMemory"

structure Pte where
  frame : Frame
  perm : Perm
deriving DecidableEq, Inhabited

/-- A page-table page. -/
structure TablePage where
  /-- The frame the page takes. -/
  backing : Frame
  entries : Vector (Option Pte) tableEntries

namespace TablePage

def empty (backing : Frame) : TablePage := ⟨backing, Vector.replicate tableEntries none⟩

def leaves (t : TablePage) : List Pte := t.entries.toList.filterMap id

def live (t : TablePage) : Nat := t.leaves.length

theorem getElem_of_live_eq_zero {t : TablePage} (h : t.live = 0) (i : Fin tableEntries) : t.entries[i] = none := by
  have hl : t.entries.toList.filterMap id = [] := List.eq_nil_of_length_eq_zero h
  exact List.filterMap_eq_nil_iff.1 hl _ (by simp)

end TablePage

structure PageTable where
  /-- The frame the directory takes. -/
  root : Frame
  dir : Vector (Option TablePage) tableEntries

namespace PageTable

def empty (root : Frame) : PageTable := ⟨root, Vector.replicate tableEntries none⟩

def alloc (m : Machine) (pool : Nat) : Except MapError PageTable × Machine :=
  match m.alloc pool with
  | (none, m) => (.error .outOfMemory, m)
  | (some f, m) => (.ok (empty f), m)

def lookup (t : PageTable) (v : VirtAddr) : Option Pte :=
  match t.dir[v.dirIndex] with
  | none => none
  | some page => page.entries[v.tableIndex]

/-- Put a page-table page into the directory, or take one out. -/
def setDir (t : PageTable) (v : VirtAddr) (page : Option TablePage) : PageTable :=
  { t with dir := t.dir.set v.dirIndex page }

def setEntry (page : TablePage) (v : VirtAddr) (e : Option Pte) : TablePage :=
  { page with entries := page.entries.set v.tableIndex e }

/-- **Enter a page**, with the entry that it displaces; a missing page-table page is made first, in a frame from
`pool`, and nothing is entered if there is none. -/
def insert (t : PageTable) (m : Machine) (pool : Nat) (v : VirtAddr) (e : Pte) :
    Except MapError (Option Pte × PageTable) × Machine :=
  match t.dir[v.dirIndex] with
  | some page => (.ok (page.entries[v.tableIndex], t.setDir v (some (setEntry page v (some e)))), m)
  | none =>
    match m.alloc pool with
    | (none, m) => (.error .outOfMemory, m)
    | (some f, m) => (.ok (none, t.setDir v (some (setEntry (.empty f) v (some e)))), m)

/-- **Take out a page's entry**; a page-table page left without entries goes back to its pool. -/
def remove (t : PageTable) (m : Machine) (v : VirtAddr) : Option Pte × PageTable × Machine :=
  match t.dir[v.dirIndex] with
  | none => (none, t, m)
  | some page =>
    match page.entries[v.tableIndex] with
    | none => (none, t, m)
    | some e =>
      let page := setEntry page v none
      if page.live = 0 then (some e, t.setDir v none, m.release page.backing)
      else (some e, t.setDir v (some page), m)

def tables (t : PageTable) : List TablePage := t.dir.toList.filterMap id

def mapped (t : PageTable) : Nat := (t.tables.flatMap TablePage.leaves).length

def tablePages (t : PageTable) : Nat := t.tables.length

/-- **The entries with the addresses that their pages start at**, in ascending order. -/
def toList (t : PageTable) : List (Nat × Pte) :=
  t.dir.toList.zipIdx.flatMap fun (page, d) =>
    match page with
    | none => []
    | some page => page.entries.toList.zipIdx.filterMap fun (e, i) => e.map (VirtAddr.startOf d i, ·)

/-- **Every frame that the table holds, in the order in which it gives them up**: the directory's, then for each
page-table page its own and those of its entries. -/
def frames (t : PageTable) : List Frame :=
  t.root :: t.tables.flatMap fun page => page.backing :: page.leaves.map Pte.frame

def drop (t : PageTable) (m : Machine) : Machine := m.releaseAll t.frames

/-! ## What each operation does to the entries -/

theorem lookup_empty (root : Frame) (v : VirtAddr) : (empty root).lookup v = none := by simp [lookup, empty]

/-- Addresses of one page have one entry. -/
theorem lookup_congr {t : PageTable} {v w : VirtAddr} (h : v.pageDown = w.pageDown) : t.lookup v = t.lookup w := by
  obtain ⟨hd, ht⟩ := VirtAddr.index_eq_iff.2 h
  simp only [lookup, hd, ht]

theorem lookup_setDir (t : PageTable) (v w : VirtAddr) (page : Option TablePage) :
    (t.setDir v page).lookup w =
      if v.dirIndex = w.dirIndex then page.bind (·.entries[w.tableIndex]) else t.lookup w := by
  simp only [lookup, setDir, Fin.getElem_fin, Vector.getElem_set, Fin.val_inj]
  by_cases hd : v.dirIndex = w.dirIndex
  · cases page <;> simp [hd]
  · simp [hd]

theorem getElem_setEntry (page : TablePage) (v w : VirtAddr) (e : Option Pte) :
    (setEntry page v e).entries[w.tableIndex] =
      if v.tableIndex = w.tableIndex then e else page.entries[w.tableIndex] := by
  simp only [setEntry, Fin.getElem_fin, Vector.getElem_set, Fin.val_inj]

/-- Changing an entry of the page-table page of an address changes the entry of its page alone. -/
theorem lookup_setDir_setEntry (t : PageTable) (page : TablePage) (v w : VirtAddr) (e : Option Pte)
    (h : v.dirIndex = w.dirIndex → page.entries[w.tableIndex] = t.lookup w) :
    (t.setDir v (some (setEntry page v e))).lookup w = if v.pageDown = w.pageDown then e else t.lookup w := by
  rw [lookup_setDir, Option.bind_some, getElem_setEntry]
  simp only [← VirtAddr.index_eq_iff]
  by_cases hd : v.dirIndex = w.dirIndex
  · simp [hd, h hd]
  · simp [hd]

/-- **What an entered table holds**: the new entry at its page, and at every other page what was there. -/
theorem lookup_insert {t t' : PageTable} {m m' : Machine} {pool : Nat} {v : VirtAddr} {e : Pte} {d : Option Pte}
    (h : t.insert m pool v e = (.ok (d, t'), m')) (w : VirtAddr) :
    t'.lookup w = if v.pageDown = w.pageDown then some e else t.lookup w := by
  unfold insert at h
  split at h
  next page hp =>
    obtain ⟨⟨rfl, rfl⟩, -⟩ : (_ ∧ _) ∧ _ := by simpa using h
    exact lookup_setDir_setEntry t page v w _ fun hd => by simp [lookup, ← hd, hp]
  next hp =>
    split at h
    · simp at h
    · obtain ⟨⟨rfl, rfl⟩, -⟩ : (_ ∧ _) ∧ _ := by simpa using h
      exact lookup_setDir_setEntry t _ v w _ fun hd => by simp [lookup, ← hd, hp, TablePage.empty]

/-- What was at the page comes back from an insertion. -/
theorem eq_lookup_of_insert {t t' : PageTable} {m m' : Machine} {pool : Nat} {v : VirtAddr} {e : Pte} {d : Option Pte}
    (h : t.insert m pool v e = (.ok (d, t'), m')) : d = t.lookup v := by
  unfold insert at h
  split at h
  next page hp =>
    obtain ⟨⟨rfl, rfl⟩, -⟩ : (_ ∧ _) ∧ _ := by simpa using h
    simp [lookup, hp]
  next hp =>
    split at h
    · simp at h
    · obtain ⟨⟨rfl, rfl⟩, -⟩ : (_ ∧ _) ∧ _ := by simpa using h
      simp [lookup, hp]

/-- What was at the page comes back from a removal. -/
theorem fst_remove (t : PageTable) (m : Machine) (v : VirtAddr) : (t.remove m v).1 = t.lookup v := by
  unfold remove lookup
  cases t.dir[v.dirIndex] with
  | none => rfl
  | some page => cases he : page.entries[v.tableIndex] with
    | none => simp [he]
    | some e => simp only [he]; split <;> rfl

/-- **What a table holds after a removal**: nothing at the page, and at every other page what was there. -/
theorem lookup_remove (t : PageTable) (m : Machine) (v w : VirtAddr) :
    (t.remove m v).2.1.lookup w = if v.pageDown = w.pageDown then none else t.lookup w := by
  have absent (h : t.lookup v = none) : t.lookup w = if v.pageDown = w.pageDown then none else t.lookup w := by
    by_cases e : v.pageDown = w.pageDown
    · rw [if_pos e, ← lookup_congr e, h]
    · rw [if_neg e]
  unfold remove
  split
  next hp => exact absent (by simp only [lookup, hp])
  next page hp =>
    have hw (hd : v.dirIndex = w.dirIndex) : page.entries[w.tableIndex] = t.lookup w := by simp only [lookup, ← hd, hp]
    split
    next he => exact absent (by simp only [lookup, hp, he])
    next e he =>
      dsimp only
      split
      next hl =>
        simp only [lookup_setDir, Option.bind_none, ← VirtAddr.index_eq_iff]
        by_cases hd : v.dirIndex = w.dirIndex
        · have h := TablePage.getElem_of_live_eq_zero hl w.tableIndex
          rw [getElem_setEntry] at h
          by_cases ht : v.tableIndex = w.tableIndex
          · simp [hd, ht]
          · rw [if_neg ht] at h
            simp [hd, ht, ← hw hd, h]
        · simp [hd]
      next => exact lookup_setDir_setEntry t page v w _ hw

end PageTable
end Exokernel
