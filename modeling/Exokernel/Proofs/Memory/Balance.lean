import Mathlib.Data.List.Dedup
import Exokernel.Proofs.Memory.Tidy
/-!
# Balanced machines

A machine is balanced against two lists of holders if every count is the number of times that a frame is held: once at
most by a page table for itself, or any number of times as a page, never both.
-/
namespace Exokernel.Machine

/-- **Every count is the number of holders.**  `paging` lists the frames that page tables consist of, `leaves` the
frames that are pages, once for each holder. -/
structure Balanced (m : Machine) (paging leaves : List Frame) : Prop where
  tidy : m.Tidy
  refs_eq (f : Frame) : m.refs f = paging.count f + leaves.count f
  nodup : paging.Nodup
  apart (f : Frame) (h : f ∈ paging) : f ∉ leaves

variable {m m' : Machine} {P L : List Frame} {f : Frame}

namespace Balanced

theorem of_bare (h : m.Balanced P L) (e : m'.bare = m.bare) : m'.Balanced P L :=
  ⟨h.tidy.of_bare e, fun f => by rw [refs_congr e, h.refs_eq], h.nodup, h.apart⟩

theorem perm {P' L' : List Frame} (h : m.Balanced P L) (hP : P.Perm P') (hL : L.Perm L') : m.Balanced P' L' :=
  ⟨h.tidy, fun f => by rw [h.refs_eq, hP.count_eq, hL.count_eq], hP.nodup_iff.1 h.nodup,
    fun f hf hl => h.apart f (hP.mem_iff.2 hf) (hL.mem_iff.2 hl)⟩

theorem refs_pos (h : m.Balanced P L) (hf : f ∈ L) : 0 < m.refs f := by
  have := List.count_pos_iff.2 hf
  rw [h.refs_eq]
  omega

theorem refs_pos_of_paging (h : m.Balanced P L) (hf : f ∈ P) : 0 < m.refs f := by
  have := List.count_pos_iff.2 hf
  rw [h.refs_eq]
  omega

theorem not_mem_of_refs (h : m.Balanced P L) (hf : m.refs f = 0) : f ∉ P ∧ f ∉ L :=
  ⟨fun hm => by have := h.refs_pos_of_paging hm; omega, fun hm => by have := h.refs_pos hm; omega⟩

theorem alloc_leaf {i : Nat} (h : m.Balanced P L) (ha : m.alloc i = (some f, m')) : m'.Balanced P (f :: L) := by
  obtain ⟨hP, hL⟩ := h.not_mem_of_refs (refs_of_alloc h.tidy ha)
  refine ⟨h.tidy.alloc ha, fun g => ?_, h.nodup, fun g hg hl => ?_⟩
  · rw [refs_alloc h.tidy ha, h.refs_eq, List.count_cons]
    by_cases e : f = g <;> simp [e, Nat.add_assoc]
  · rcases List.mem_cons.1 hl with rfl | hl
    · exact hP hg
    · exact h.apart g hg hl

theorem alloc_paging {i : Nat} (h : m.Balanced P L) (ha : m.alloc i = (some f, m')) : m'.Balanced (f :: P) L := by
  obtain ⟨hP, hL⟩ := h.not_mem_of_refs (refs_of_alloc h.tidy ha)
  refine ⟨h.tidy.alloc ha, fun g => ?_, List.nodup_cons.2 ⟨hP, h.nodup⟩, fun g hg hl => ?_⟩
  · rw [refs_alloc h.tidy ha, h.refs_eq, List.count_cons]
    by_cases e : f = g <;> simp [e]; omega
  · rcases List.mem_cons.1 hg with rfl | hg
    · exact hL hl
    · exact h.apart g hg hl

theorem retain (h : m.Balanced P L) (hf : f ∈ L) : (m.retain f).Balanced P (f :: L) := by
  have hr := h.refs_pos hf
  refine ⟨h.tidy.retain hr, fun g => ?_, h.nodup, fun g hg hl => ?_⟩
  · rw [refs_retain hr, h.refs_eq, List.count_cons]
    by_cases e : f = g <;> simp [e, Nat.add_assoc]
  · rcases List.mem_cons.1 hl with rfl | hl
    · exact h.apart g hg hf
    · exact h.apart g hg hl

/-- **Holders that go give up their holds.** -/
theorem releaseAll {fs : List Frame} (ps ls : List Frame) (h : m.Balanced (ps ++ P) (ls ++ L)) (hp : fs.Perm (ps ++ ls)) :
    (m.releaseAll fs).Balanced P L := by
  refine ⟨h.tidy.releaseAll fs, fun g => ?_, (List.nodup_append.1 h.nodup).2.1, fun g hg hl => ?_⟩
  · rw [refs_releaseAll, h.refs_eq, hp.count_eq, List.count_append, List.count_append, List.count_append]
    omega
  · exact h.apart g (List.mem_append_right _ hg) (List.mem_append_right _ hl)

theorem release (h : m.Balanced P (f :: L)) : (m.release f).Balanced P L :=
  releaseAll [] [f] h (List.Perm.refl [f])

theorem release_paging (h : m.Balanced (f :: P) L) : (m.release f).Balanced P L :=
  releaseAll [f] [] h (List.Perm.refl [f])

theorem write (h : m.Balanced P L) (hf : f ∈ L) (o : Nat) (d : Bytes) : (m.write f o d).Balanced P L :=
  ⟨h.tidy.write (h.refs_pos hf) o d, fun g => by rw [refs_write, h.refs_eq], h.nodup, h.apart⟩

/-- **A part of a page table is held once**, and no page is one. -/
theorem refs_of_paging (h : m.Balanced P L) (hf : f ∈ P) : m.refs f = 1 := by
  rw [h.refs_eq, List.count_eq_zero.2 (h.apart f hf), h.nodup.count, if_pos hf]

theorem pool_eq_zero (h : m.Balanced P L) (hf : 0 < m.refs f) : f.pool = 0 := by
  obtain ⟨p, hp, -⟩ := exists_of_refs_pos hf
  have := (Array.getElem?_eq_some_iff.1 hp).1
  have := h.tidy.size
  omega

/-- **What is in use**: the parts of the page tables, and each page once. -/
theorem used (h : m.Balanced P L) : (m.free 0).Nodup ∧
    (∀ n, ⟨0, n⟩ ∈ m.free 0 ↔ n < m.capacity 0 ∧ m.refs ⟨0, n⟩ = 0) ∧
    (m.pools[0]?.map Pool.usedCount).getD 0 = P.length + L.dedup.length := by
  obtain ⟨p, hp⟩ : ∃ p, m.pools[0]? = some p := ⟨_, Array.getElem?_eq_getElem (by rw [h.tidy.size]; decide)⟩
  have ht := h.tidy.pool 0 p hp
  have hfree : m.free 0 = p.free.map (Frame.mk 0) := by rw [free, hp]; rfl
  have hcap : m.capacity 0 = p.capacity := by rw [capacity, hp]; rfl
  have hrefs (n : Nat) : m.refs ⟨0, n⟩ = p.refs n := by simp only [refs, hp, Option.map_some, Option.getD_some]
  have hmem (n : Nat) : ⟨0, n⟩ ∈ m.free 0 ↔ n < m.capacity 0 ∧ m.refs ⟨0, n⟩ = 0 := by
    rw [hfree, hcap, hrefs, ← ht.mem_free]
    simp
  -- Free numbers, then used ones, are all numbers of the pool, each once.
  have hnum (f : Frame) (hf : f ∈ P ++ L.dedup) : f = ⟨0, f.number⟩ ∧ 0 < p.refs f.number := by
    have hr : 0 < m.refs f := by
      rcases List.mem_append.1 hf with hf | hf
      · exact h.refs_pos_of_paging hf
      · exact h.refs_pos (List.mem_dedup.1 hf)
    have e : f = ⟨0, f.number⟩ := by rw [← h.pool_eq_zero hr]
    exact ⟨e, by rw [← hrefs, ← e]; exact hr⟩
  have hnodup : ((P ++ L.dedup).map Frame.number).Nodup := by
    refine List.Nodup.map_on (fun f hf g hg e => ?_) ?_
    · rw [(hnum f hf).1, (hnum g hg).1, e]
    · exact List.nodup_append.2 ⟨h.nodup, List.nodup_dedup L,
        fun f hf g hg e => h.apart f hf (List.mem_dedup.1 (e ▸ hg))⟩
  have hperm : (p.free ++ (P ++ L.dedup).map Frame.number).Perm (List.range p.capacity) := by
    refine (List.perm_ext_iff_of_nodup (List.nodup_append.2 ⟨ht.nodup, hnodup, fun n hn n' hn' e => ?_⟩)
      List.nodup_range).2 fun n => ?_
    · obtain ⟨f, hf, rfl⟩ := List.mem_map.1 hn'
      have := ((ht.mem_free n).1 hn).2
      have := (hnum f hf).2
      rw [e] at *
      omega
    · rw [List.mem_append, List.mem_range, ht.mem_free]
      constructor
      · rintro (⟨hn, -⟩ | hn)
        · exact hn
        · obtain ⟨f, hf, rfl⟩ := List.mem_map.1 hn
          exact Pool.lt_capacity_of_refs_pos (hnum f hf).2
      · intro hn
        by_cases h0 : p.refs n = 0
        · exact Or.inl ⟨hn, h0⟩
        · right
          rw [← hrefs, h.refs_eq] at h0
          refine List.mem_map.2 ⟨⟨0, n⟩, ?_, rfl⟩
          rw [List.mem_append, List.mem_dedup, ← List.count_pos_iff, ← List.count_pos_iff (l := L)]
          omega
  refine ⟨by rw [hfree]; exact ht.nodup.map fun _ _ e => (Frame.mk.inj e).2, hmem, ?_⟩
  have hlen := hperm.length_eq
  simp only [List.length_append, List.length_map, List.length_range] at hlen
  rw [hp, Option.map_some, Option.getD_some, Pool.usedCount, Pool.freeCount]
  omega

end Balanced

theorem balanced_ofSizes (n : Nat) : (ofSizes [n]).Balanced [] [] := by
  have ht : (ofSizes [n]).Tidy := by
    refine ⟨rfl, fun i p hp => ?_⟩
    obtain rfl : Pool.ofSize n = p := by
      cases i with
      | zero => simpa [ofSizes] using hp
      | succ i => simp [ofSizes] at hp
    exact Pool.tidy_ofSize n
  refine ⟨ht, fun f => ?_, List.nodup_nil, fun f hf => absurd hf List.not_mem_nil⟩
  show (ofSizes [n]).refs f = 0
  obtain ⟨i, j⟩ := f
  cases i with
  | zero => simp [ofSizes, refs, Pool.refs_ofSize]
  | succ i => simp [ofSizes, refs]

end Exokernel.Machine
