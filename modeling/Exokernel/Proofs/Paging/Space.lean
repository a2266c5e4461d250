import Exokernel.Proofs.Paging.Frames
/-!
# Mapping and unmapping

What `map` and `unmap` do to the entries of an address space, to the balance of the machine and to the bytes of its
frames.  A mapping that fails leaves no trace.
-/
namespace Exokernel

theorem VirtAddr.pageDown_pageDown (v : VirtAddr) : v.pageDown.pageDown = v.pageDown := by
  simp only [pageDown, Exokernel.pageDown, pageSize, mk.injEq]
  omega

theorem VirtAddr.raw_pageDown {v : VirtAddr} {n : Nat} (h : pageOfNat? n = some v) : v.pageDown.raw = n := by
  obtain ⟨rfl, ha⟩ := pageOfNat?_eq_some_iff.1 h
  simp only [pageDown, Exokernel.pageDown, pageSize] at *
  omega

namespace AddressSpace

variable {s s' : AddressSpace} {m m' : Machine} {pool : Nat} {f : Frame} {v : VirtAddr} {p : Perm} {P L : List Frame}

/-! ## Mapping -/

theorem map_ok (h : s.map m pool f v p = (.ok s', m')) :
    ∃ d t m₁, s.table.insert (m.retain f) pool v.pageDown ⟨f, p⟩ = (.ok (d, t), m₁) ∧ s' = ⟨t⟩ ∧
      m' = m₁.releaseAll (d.toList.map Pte.frame) := by
  unfold map at h
  split at h
  · cases h
  next d t m₁ hi =>
    cases h
    exact ⟨d, t, m₁, hi, rfl, by rw [Option.toList_map]⟩

theorem lookup_map (h : s.map m pool f v p = (.ok s', m')) (w : VirtAddr) :
    s'.lookup w = if v.pageDown = w.pageDown then some ⟨f, p⟩ else s.lookup w := by
  obtain ⟨d, t, m₁, hi, rfl, -⟩ := map_ok h
  rw [lookup, PageTable.lookup_insert hi, VirtAddr.pageDown_pageDown]
  rfl

/-- **A mapping keeps the books**: the frame is held by one page more, what was mapped there by one less. -/
theorem balanced_map (hb : m.Balanced (s.table.pagingFrames ++ P) (s.table.leafFrames ++ L))
    (hf : f ∈ s.table.leafFrames ++ L) (h : s.map m pool f v p = (.ok s', m')) :
    m'.Balanced (s'.table.pagingFrames ++ P) (s'.table.leafFrames ++ L) := by
  obtain ⟨d, t, m₁, hi, rfl, rfl⟩ := map_ok h
  obtain ⟨hp, hl⟩ := PageTable.frames_insert hi
  have hb := hb.retain hf
  have hl : (f :: (s.table.leafFrames ++ L)).Perm (d.toList.map Pte.frame ++ (t.leafFrames ++ L)) := by
    rw [← List.cons_append, ← List.append_assoc]
    exact (hl.append_right L).symm
  refine Machine.Balanced.releaseAll [] (d.toList.map Pte.frame) ?_ (List.Perm.refl _)
  rcases hp with ⟨rfl, hp⟩ | ⟨b, ha, hp⟩
  · exact hb.perm (hp.append_right P).symm hl
  · exact (hb.alloc_paging ha).perm (hp.append_right P).symm hl

/-- **A mapping that fails costs the budget only.** -/
theorem bare_map_error {e : MapError} (hf : 0 < m.refs f) (h : s.map m pool f v p = (.error e, m')) :
    m'.bare = m.bare := by
  unfold map at h
  rcases s.table.insert_cases (m.retain f) pool v.pageDown ⟨f, p⟩ with ⟨_, -, hi⟩ | ⟨_, _, -, -, hi⟩ | ⟨m₁, -, ha, hi⟩ <;>
    rw [hi] at h <;> cases h
  rw [Machine.bare_release, Machine.bare_alloc_none ha, ← Machine.bare_release, Machine.release_retain hf]

theorem page_map (hm : m.Tidy) (hf : 0 < m.refs f) (h : s.map m pool f v p = (.ok s', m')) {g : Frame}
    (hg : 0 < m'.refs g) : m'.page g = m.page g := by
  obtain ⟨d, t, m₁, hi, rfl, rfl⟩ := map_ok h
  rw [Machine.page_releaseAll _ hg]
  rcases (PageTable.frames_insert hi).1 with ⟨rfl, -⟩ | ⟨b, ha, -⟩
  · exact Machine.page_retain _ _ _
  · rw [Machine.page_alloc (hm.retain hf) ha, Machine.page_retain]

/-- **A mapping takes a hold from what was mapped there**, and from no other frame. -/
theorem refs_le_map (hm : m.Tidy) (hf : 0 < m.refs f) (h : s.map m pool f v p = (.ok s', m')) {g : Frame}
    (hg : ∀ q, s.lookup v = some q → q.frame ≠ g) : m.refs g ≤ m'.refs g := by
  obtain ⟨d, t, m₁, hi, rfl, rfl⟩ := map_ok h
  have hd : d = s.lookup v := by
    rw [PageTable.eq_lookup_of_insert hi]
    exact PageTable.lookup_congr (by rw [VirtAddr.pageDown_pageDown])
  have hcount : (d.toList.map Pte.frame).count g = 0 := by
    refine List.count_eq_zero.2 fun hmem => ?_
    obtain ⟨q, hq, hfr⟩ := List.mem_map.1 hmem
    rw [Option.mem_toList, hd] at hq
    exact hg q hq hfr
  have hretain : m.refs g ≤ (m.retain f).refs g := by
    rw [Machine.refs_retain hf]
    omega
  rw [Machine.refs_releaseAll, hcount]
  rcases (PageTable.frames_insert hi).1 with ⟨rfl, -⟩ | ⟨b, ha, -⟩
  · exact hretain
  · rw [Machine.refs_alloc (hm.retain hf) ha]
    omega

/-! ## Unmapping -/

theorem unmap_eq (h : s.unmap m v = (s', m')) :
    ∃ d t m₁, s.table.remove m v.pageDown = (d, t, m₁) ∧ s' = ⟨t⟩ ∧ m' = m₁.releaseAll (d.toList.map Pte.frame) := by
  unfold unmap at h
  cases hr : s.table.remove m v.pageDown with
  | mk d r =>
    obtain ⟨t, m₁⟩ := r
    rw [hr] at h
    cases h
    exact ⟨d, t, m₁, rfl, rfl, by rw [Option.toList_map]⟩

theorem lookup_unmap (h : s.unmap m v = (s', m')) (w : VirtAddr) :
    s'.lookup w = if v.pageDown = w.pageDown then none else s.lookup w := by
  obtain ⟨d, t, m₁, hr, rfl, -⟩ := unmap_eq h
  have := PageTable.lookup_remove s.table m v.pageDown w
  rw [hr, VirtAddr.pageDown_pageDown] at this
  exact this

/-- **Unmapping keeps the books.** -/
theorem balanced_unmap (hb : m.Balanced (s.table.pagingFrames ++ P) (s.table.leafFrames ++ L))
    (h : s.unmap m v = (s', m')) : m'.Balanced (s'.table.pagingFrames ++ P) (s'.table.leafFrames ++ L) := by
  obtain ⟨d, t, m₁, hr, rfl, rfl⟩ := unmap_eq h
  obtain ⟨hp, hl⟩ := PageTable.frames_remove hr
  have hl : (s.table.leafFrames ++ L).Perm (d.toList.map Pte.frame ++ (t.leafFrames ++ L)) := by
    rw [← List.append_assoc]
    exact (hl.append_right L).symm
  refine Machine.Balanced.releaseAll [] (d.toList.map Pte.frame) ?_ (List.Perm.refl _)
  rcases hp with ⟨rfl, hp⟩ | ⟨b, rfl, hp⟩
  · exact hb.perm (hp.append_right P).symm hl
  · exact (hb.perm (hp.append_right P).symm hl).release_paging

theorem page_unmap (h : s.unmap m v = (s', m')) {g : Frame} (hg : 0 < m'.refs g) : m'.page g = m.page g := by
  obtain ⟨d, t, m₁, hr, rfl, rfl⟩ := unmap_eq h
  rw [Machine.page_releaseAll _ hg]
  rcases (PageTable.frames_remove hr).1 with ⟨rfl, -⟩ | ⟨b, rfl, -⟩
  · rfl
  · rw [Machine.page_release, if_neg]
    rintro ⟨rfl, h1⟩
    rw [Machine.refs_releaseAll, Machine.refs_release] at hg
    simp [h1] at hg

/-- **An address space that is dropped gives back its frames.** -/
theorem balanced_drop (hb : m.Balanced (s.table.pagingFrames ++ P) (s.table.leafFrames ++ L)) :
    (s.drop m).Balanced P L := hb.releaseAll _ _ s.table.frames_perm

end AddressSpace
end Exokernel
