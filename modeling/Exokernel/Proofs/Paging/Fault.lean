import Exokernel.Proofs.Paging.Access
/-!
# The first fault of a range

A check looks at one address of each page, the first one that lies in the range.  What it reports is the first of these at
which the access is not allowed.
-/
namespace Exokernel

/-- The first address in each of `n` pages, from `a` on. -/
def pageStarts : Nat → Nat → List Nat
  | 0, _ => []
  | n + 1, a => a :: pageStarts n (pageDown a + pageSize)

/-- **The first address of a range in each page that it touches.** -/
def rangeStarts (a len : Nat) : List Nat := if len = 0 then [] else pageStarts (pagesTouched a len) a

theorem div_pageDown_add (a : Nat) : (pageDown a + pageSize) / pageSize = a / pageSize + 1 := by
  simp only [pageDown, pageSize]
  omega

theorem bounds_of_mem_pageStarts {n a x : Nat} (h : x ∈ pageStarts n a) :
    (x = a ∨ a < x ∧ pageOffset x = 0) ∧ x / pageSize < a / pageSize + n := by
  induction n generalizing a with
  | zero => cases h
  | succ n ih =>
    rcases List.mem_cons.1 h with rfl | h
    · exact ⟨.inl rfl, by omega⟩
    · obtain ⟨hx, hlt⟩ := ih h
      rw [div_pageDown_add] at hlt
      refine ⟨.inr ?_, by omega⟩
      have ho : pageOffset (pageDown a + pageSize) = 0 := by simp only [pageOffset, pageDown, pageSize]; omega
      have ha : a < pageDown a + pageSize := by simp only [pageDown, pageSize]; omega
      rcases hx with rfl | ⟨hx, ho'⟩
      · exact ⟨ha, ho⟩
      · exact ⟨Nat.lt_trans ha hx, ho'⟩

/-- **One address for each page**, in ascending order. -/
theorem pairwise_pageStarts (n a : Nat) : (pageStarts n a).Pairwise fun x y => x / pageSize < y / pageSize := by
  induction n generalizing a with
  | zero => exact .nil
  | succ n ih =>
    refine .cons (fun y hy => ?_) (ih _)
    have hle : pageDown a + pageSize ≤ y := by
      rcases (bounds_of_mem_pageStarts hy).1 with rfl | ⟨hy, -⟩
      · exact Nat.le_refl _
      · exact Nat.le_of_lt hy
    have := Nat.div_le_div_right (c := pageSize) hle
    rw [div_pageDown_add] at this
    omega

/-- No page is left out. -/
theorem exists_mem_pageStarts {n a x : Nat} (hx : a ≤ x) (hn : x / pageSize < a / pageSize + n) :
    ∃ y ∈ pageStarts n a, y / pageSize = x / pageSize := by
  induction n generalizing a with
  | zero =>
    have := Nat.div_le_div_right (c := pageSize) hx
    omega
  | succ n ih =>
    by_cases hp : a / pageSize = x / pageSize
    · exact ⟨a, List.mem_cons_self, hp⟩
    · have hnext : pageDown a + pageSize ≤ x := by
        simp only [pageDown, pageSize] at *
        omega
      obtain ⟨y, hy, hyx⟩ := ih hnext (by rw [div_pageDown_add]; omega)
      exact ⟨y, List.mem_cons_of_mem _ hy, hyx⟩

theorem bounds_of_mem_rangeStarts {a len x : Nat} (h : x ∈ rangeStarts a len) : a ≤ x ∧ x < a + len := by
  unfold rangeStarts at h
  split at h
  · cases h
  · obtain ⟨hx, hlt⟩ := bounds_of_mem_pageStarts h
    simp only [pagesTouched, pageOffset, pageSize] at *
    omega

theorem pairwise_rangeStarts (a len : Nat) : (rangeStarts a len).Pairwise fun x y => x / pageSize < y / pageSize := by
  unfold rangeStarts
  split
  · exact .nil
  · exact pairwise_pageStarts _ _

theorem exists_mem_rangeStarts {a len x : Nat} (hx : a ≤ x) (hl : x < a + len) :
    ∃ y ∈ rangeStarts a len, y / pageSize = x / pageSize := by
  rw [rangeStarts, if_neg (by omega)]
  refine exists_mem_pageStarts hx ?_
  have := Nat.div_le_div_right (c := pageSize) (show x ≤ a + (len - 1) by omega)
  have := Nat.div_le_div_right (c := pageSize) (show a ≤ a + (len - 1) by omega)
  simp only [pagesTouched]
  omega

/-- What holds of whole pages holds of a range as of the first addresses in its pages. -/
theorem forall_mem_rangeStarts {P : Nat → Prop} (hP : ∀ x y, x / pageSize = y / pageSize → P x → P y) {a len : Nat} :
    (∀ x ∈ rangeStarts a len, P x) ↔ ∀ x < len, P (a + x) := by
  constructor
  · intro h x hx
    obtain ⟨y, hy, hyx⟩ := exists_mem_rangeStarts (Nat.le_add_right a x) (Nat.add_lt_add_left hx a)
    exact hP y _ hyx (h y hy)
  · intro h x hx
    obtain ⟨hle, hlt⟩ := bounds_of_mem_rangeStarts hx
    rw [← Nat.add_sub_cancel' hle]
    exact h _ (by omega)

namespace AddressSpace

variable {s : AddressSpace} {k : AccessKind} {a len n : Nat} {f : PageFault}

/-- What a fault says: the address, what was tried, and whether there was a page. -/
theorem faultAt_eq_some (h : s.faultAt k a = some f) :
    f.address = a ∧ (f.code = faultCode k ∨ f.code = (faultCode k ||| .present)) := by
  unfold faultAt at h
  split at h
  · cases h
    exact ⟨rfl, .inl rfl⟩
  · split at h
    · cases h
    · cases h
      exact ⟨rfl, .inr rfl⟩

theorem checkPages_error (h : s.checkPages k n a = .error f) : ∃ pre post, pageStarts n a = pre ++ f.address :: post ∧
    (∀ x ∈ pre, ∃ e, s.entryAt x = some e ∧ e.allows k) ∧ s.faultAt k f.address = some f := by
  induction n generalizing a with
  | zero => cases h
  | succ n ih =>
    unfold checkPages at h
    split at h
    next g hg =>
      cases h
      obtain ⟨rfl, -⟩ := faultAt_eq_some hg
      exact ⟨[], _, rfl, fun x hx => (by cases hx), hg⟩
    next hnone =>
      obtain ⟨pre, post, hl, hpre, hf⟩ := ih h
      refine ⟨a :: pre, post, by rw [pageStarts, hl, List.cons_append], fun x hx => ?_, hf⟩
      rcases List.mem_cons.1 hx with rfl | hx
      · exact faultAt_eq_none_iff.1 hnone
      · exact hpre x hx

theorem lt_of_entryAt {e : Pte} (h : s.entryAt a = some e) : a < userTop := by
  obtain ⟨v, hv, -⟩ := Option.bind_eq_some_iff.1 h
  rw [← VirtAddr.ofNat?_eq_some_iff.1 hv]
  exact v.raw_lt

/-- **How a check fails**: the range runs past the last address, or the access is not allowed in one of its pages. -/
theorem check_error_cases (h : s.check a len k = .error f) :
    (len ≠ 0 ∧ addressLimit ≤ a + (len - 1) ∧ f = ⟨a, faultCode k⟩) ∨
    (a + (len - 1) < addressLimit ∧ s.checkPages k (pagesTouched a len) a = .error f ∧ s.faultAt k f.address = some f ∧
      a ≤ f.address ∧ f.address < a + len ∧
      ∃ pre post, rangeStarts a len = pre ++ f.address :: post ∧ ∀ x ∈ pre, ∃ e, s.entryAt x = some e ∧ e.allows k) := by
  unfold check at h
  split at h
  · cases h
  next h0 =>
    split at h
    next hover =>
      cases h
      exact .inl ⟨h0, hover, rfl⟩
    next hlt =>
      obtain ⟨pre, post, hl, hpre, hf⟩ := checkPages_error h
      have hstarts : rangeStarts a len = pre ++ f.address :: post := by rw [rangeStarts, if_neg h0, hl]
      have hmem : f.address ∈ rangeStarts a len := by
        rw [hstarts]
        exact List.mem_append_right _ List.mem_cons_self
      obtain ⟨hle, hend⟩ := bounds_of_mem_rangeStarts hmem
      exact .inr ⟨Nat.lt_of_not_le hlt, h, hf, hle, hend, pre, post, hstarts, hpre⟩

/-- **A check reports the first page of its range at which the access is not allowed**, if the range does not run past the
last address or starts where nothing is mapped. -/
theorem check_error (ha : a < addressLimit) (hlen : a + (len - 1) < addressLimit ∨ userTop ≤ a)
    (h : s.check a len k = .error f) :
    ∃ pre post, rangeStarts a len = pre ++ f.address :: post ∧ (∀ x ∈ pre, ∃ e, s.entryAt x = some e ∧ e.allows k) ∧
      (¬ ∃ e, s.entryAt f.address = some e ∧ e.allows k) ∧ f.address < addressLimit ∧
      (f.code = faultCode k ∨ f.code = (faultCode k ||| .present)) := by
  rcases check_error_cases h with ⟨h0, hover, rfl⟩ | ⟨hlt, -, hf, -, hend, pre, post, hl, hpre⟩
  · obtain hlt | htop := hlen
    · omega
    · rw [rangeStarts, if_neg h0]
      refine ⟨[], pageStarts ((a + (len - 1)) / pageSize - a / pageSize) (pageDown a + pageSize), rfl,
        fun x hx => (by cases hx), ?_, ha, .inl rfl⟩
      rintro ⟨e, he, -⟩
      exact absurd (lt_of_entryAt he) (Nat.not_lt_of_le htop)
  · refine ⟨pre, post, hl, hpre, fun hn => ?_, by omega, (faultAt_eq_some hf).2⟩
    rw [faultAt_eq_none_iff.2 hn] at hf
    cases hf

end AddressSpace
end Exokernel
