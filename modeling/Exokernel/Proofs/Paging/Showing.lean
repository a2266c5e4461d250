import Exokernel.Paging.Space
import Exokernel.Proofs.Memory.Showing
/-!
# Address spaces on what is shown of a memory

A page table is made, changed and given up alike whatever is shown.  User memory is read and written alike as long as
every frame that the space maps is shown.
-/
namespace Exokernel

namespace AddressSpace

/-- Every frame that the space maps is shown. -/
def ShownBy (s : AddressSpace) (S : Frame → Prop) : Prop := ∀ v e, s.lookup v = some e → S e.frame

theorem ShownBy.entry {s : AddressSpace} {S : Frame → Prop} (h : s.ShownBy S) {a : Nat} {e : Pte}
    (he : s.entryAt a = some e) : S e.frame := by
  obtain ⟨v, -, hl⟩ := Option.bind_eq_some_iff.1 he
  exact h v e hl

end AddressSpace

variable (m : Machine) (S : Frame → Prop) [DecidablePred S]

namespace PageTable

theorem alloc_showing (pool : Nat) : alloc (m.showing S) pool = Prod.map id (·.showing S) (alloc m pool) := by
  unfold alloc
  rw [Machine.alloc_showing]
  rcases m.alloc pool with ⟨_ | f, m₁⟩ <;> rfl

theorem insert_showing (t : PageTable) (pool : Nat) (v : VirtAddr) (e : Pte) :
    t.insert (m.showing S) pool v e = Prod.map id (·.showing S) (t.insert m pool v e) := by
  unfold insert
  rw [Machine.alloc_showing]
  cases t.dir[v.dirIndex] with
  | some page => rfl
  | none => rcases m.alloc pool with ⟨_ | f, m₁⟩ <;> rfl

theorem remove_showing (t : PageTable) (v : VirtAddr) :
    t.remove (m.showing S) v = Prod.map id (Prod.map id (·.showing S)) (t.remove m v) := by
  unfold remove
  cases t.dir[v.dirIndex] with
  | none => rfl
  | some page =>
    dsimp only
    cases page.entries[v.tableIndex] with
    | none => rfl
    | some e =>
      dsimp only
      rw [Machine.release_showing]
      split <;> rfl

end PageTable

namespace AddressSpace

theorem alloc_showing (pool : Nat) : alloc (m.showing S) pool = Prod.map id (·.showing S) (alloc m pool) := by
  unfold alloc
  rw [PageTable.alloc_showing]
  rcases PageTable.alloc m pool with ⟨_ | t, m₁⟩ <;> rfl

variable (s : AddressSpace)

theorem map_showing (pool : Nat) (f : Frame) (v : VirtAddr) (p : Perm) :
    s.map (m.showing S) pool f v p = Prod.map id (·.showing S) (s.map m pool f v p) := by
  unfold map
  rw [Machine.retain_showing, PageTable.insert_showing]
  rcases s.table.insert (m.retain f) pool v.pageDown ⟨f, p⟩ with ⟨_ | ⟨displaced, t⟩, m₁⟩
  · simp only [Prod.map, id, Machine.release_showing]
  · simp only [Prod.map, id, Machine.releaseAll_showing]

theorem unmap_showing (v : VirtAddr) : s.unmap (m.showing S) v = Prod.map id (·.showing S) (s.unmap m v) := by
  simp only [unmap, PageTable.remove_showing, Prod.map, id, Machine.releaseAll_showing]

theorem drop_showing : s.drop (m.showing S) = (s.drop m).showing S := Machine.releaseAll_showing m S s.table.frames

/-! ## Access by user code -/

variable {s S}

/-- **A space whose frames are all shown is read alike.** -/
theorem read_showing (h : s.ShownBy S) (a len : Nat) : s.read (m.showing S) a len = s.read m a len := by
  have part (b n : Nat) : s.readPart (m.showing S) b n = s.readPart m b n := by
    unfold readPart
    cases he : s.entryAt b with
    | none => rfl
    | some e => simp only [Machine.read, Machine.page_showing, if_pos (h.entry he)]
  simp only [read, part]

/-- **A space whose frames are all shown is written alike.** -/
theorem write_showing (h : s.ShownBy S) (a : Nat) (data : Bytes) :
    s.write (m.showing S) a data = (s.write m a data).map (·.showing S) := by
  have part (m : Machine) (b : Nat) (d : Bytes) : s.writePart (m.showing S) b d = (s.writePart m b d).showing S := by
    unfold writePart
    cases he : s.entryAt b with
    | none => rfl
    | some e => exact Machine.write_showing m S (h.entry he) _ _
  unfold write
  cases s.check a data.size .write with
  | error f => rfl
  | ok u =>
    dsimp only [Except.map]
    exact congrArg Except.ok (List.foldl_hom (·.showing S) fun m x => part m x.1 _)

/-- **What is written through a space whose frames are all blanked is not seen.** -/
theorem showing_write {m' : Machine} (h : s.ShownBy fun f => ¬ S f) {a : Nat} {data : Bytes}
    (hw : s.write m a data = .ok m') : m'.showing S = m.showing S := by
  have part (m : Machine) (b : Nat) (d : Bytes) : (s.writePart m b d).showing S = m.showing S := by
    unfold writePart
    cases he : s.entryAt b with
    | none => rfl
    | some e => exact Machine.showing_write m S (h.entry he) _ _
  unfold write at hw
  split at hw
  · cases hw
  · cases hw
    generalize rangeParts a data.size = parts
    induction parts generalizing m with
    | nil => rfl
    | cons x rest ih =>
      rw [List.foldl_cons, ih]
      exact part m x.1 _

end AddressSpace
end Exokernel
