import Exokernel.Env.Table
/-!
# The list of live environments

What changing, removing and adding an environment does to the list of the live ones: one place of the list is changed,
taken out or put in, and the rest stays.
-/
namespace Exokernel

theorem toList_eq_of_getElem? {α : Type} {a : Array α} {i : Nat} {x : α} (h : a[i]? = some x) :
    a.toList = a.toList.take i ++ x :: a.toList.drop (i + 1) := by
  obtain ⟨hi, rfl⟩ := Array.getElem?_eq_some_iff.1 h
  rw [← Array.getElem_toList, ← List.drop_eq_getElem_cons, List.take_append_drop]

theorem toList_setIfInBounds {α : Type} {a : Array α} {i : Nat} (h : i < a.size) (x : α) :
    (a.setIfInBounds i x).toList = a.toList.take i ++ x :: a.toList.drop (i + 1) := by
  rw [Array.toList_setIfInBounds, List.set_eq_take_append_cons_drop, if_pos (by simpa using h)]

theorem toList_modify {α : Type} {a : Array α} {i : Nat} {x : α} (h : a[i]? = some x) (f : α → α) :
    (a.modify i f).toList = a.toList.take i ++ f x :: a.toList.drop (i + 1) := by
  obtain ⟨hi, rfl⟩ := Array.getElem?_eq_some_iff.1 h
  rw [← toList_setIfInBounds hi]
  congr 1

theorem modify_eq_self {α : Type} {a : Array α} {i : Nat} {f : α → α} (h : ∀ x, a[i]? = some x → f x = x) :
    a.modify i f = a := by
  apply Array.ext_getElem?
  intro j
  rw [Array.getElem?_modify]
  split
  next e =>
    subst e
    cases hx : a[i]? with
    | none => rfl
    | some x => rw [Option.map_some, h x hx]
  next => rfl

/-! ## Ids -/

namespace EnvId

theorem toNat_ofParts (g : UInt32) (n : Nat) :
    (ofParts g n).raw.toNat = g.toNat * 4096 % 0x100000000 ||| n % 4096 := by
  simp only [ofParts, UInt32.toNat_or, UInt32.toNat_shiftLeft, UInt32.toNat_and, UInt32.reduceToNat,
    Nat.toUInt32_eq, UInt32.toNat_ofNat']
  rw [show (4095 : Nat) = 2 ^ 12 - 1 from rfl, Nat.and_two_pow_sub_one_eq_mod, Nat.shiftLeft_eq]
  congr 1
  omega

/-- **The slot of an id is the one that it was made for.** -/
theorem index_ofParts (g : UInt32) {n : Nat} (h : n < maxEnvSlots) : (ofParts g n).index = n := by
  simp only [maxEnvSlots] at h
  rw [index, UInt32.toNat_and, toNat_ofParts]
  rw [show (0xFFF : UInt32).toNat = 2 ^ 12 - 1 from rfl, Nat.and_two_pow_sub_one_eq_mod, Nat.or_mod_two_pow]
  have : g.toNat * 4096 % 0x100000000 % 2 ^ 12 = 0 := by omega
  rw [this, Nat.zero_or]
  omega

theorem isSelf_ofParts (g : UInt32) (n : Nat) : (ofParts (nextGeneration g) n).isSelf = false := by
  rw [isSelf, beq_eq_false_iff_ne]
  intro h
  have h0 := congrArg UInt32.toNat h
  rw [toNat_ofParts, show (0 : UInt32).toNat = 0 from rfl, Nat.or_eq_zero_iff] at h0
  have hg : 0 < (nextGeneration g).toNat ∧ (nextGeneration g).toNat ≤ 0xFFFFF := by
    unfold nextGeneration
    split
    · decide
    next hlt =>
      have hlt : g.toNat < 0xFFFFF := by simpa [UInt32.le_iff_toNat_le] using hlt
      rw [UInt32.toNat_add, show (1 : UInt32).toNat = 1 from rfl]
      omega
  omega

end EnvId

/-! ## Environments -/

namespace EnvTable

variable {t : EnvTable} {i : EnvId} {e : Env}

theorem slot_of_get? (h : t.get? i = some e) : ∃ g, t.slots[i.index]? = some ⟨g, some e⟩ := by
  obtain ⟨h, -⟩ := Option.filter_eq_some_iff.1 h
  obtain ⟨⟨g, o⟩, hs, rfl⟩ := Option.bind_eq_some_iff.1 h
  exact ⟨g, hs⟩

/-- **One place of the list is that of the environment**: it is changed or taken out there. -/
theorem toList_of_get? (h : t.get? i = some e) : ∃ A B, t.toList = A ++ e :: B ∧
    (∀ f, (t.modify i f).toList = A ++ f e :: B) ∧ (t.remove i).toList = A ++ B := by
  obtain ⟨g, hs⟩ := slot_of_get? h
  have hi := id_of_get? h
  refine ⟨(t.slots.toList.take i.index).filterMap EnvSlot.env, (t.slots.toList.drop (i.index + 1)).filterMap EnvSlot.env,
    ?_, fun f => ?_, ?_⟩
  · conv => lhs; rw [toList, toList_eq_of_getElem? hs]
    simp
  · rw [toList, modify, toList_modify hs]
    simp [hi]
  · rw [toList, remove, toList_modify hs]
    simp [hi]

theorem mem_toList (h : t.get? i = some e) : e ∈ t.toList := by
  obtain ⟨A, B, hl, -⟩ := toList_of_get? h
  rw [hl]
  simp

theorem modify_of_get?_none (h : t.get? i = none) (f : Env → Env) : t.modify i f = t := by
  unfold modify
  congr 1
  refine modify_eq_self fun s hs => ?_
  obtain ⟨g, o⟩ := s
  cases o with
  | none => rfl
  | some e =>
    rw [get?, hs] at h
    have : e.id ≠ i := by simpa [Option.filter] using h
    simp [this]

@[simp] theorem capacity_modify (t : EnvTable) (i : EnvId) (f : Env → Env) : (t.modify i f).capacity = t.capacity := by
  simp [modify, capacity]

@[simp] theorem capacity_remove (t : EnvTable) (i : EnvId) : (t.remove i).capacity = t.capacity := by
  simp [remove, capacity]

@[simp] theorem capacity_fill (t : EnvTable) (n : Nat) (g : UInt32) (e : Env) :
    (t.fill n g e).capacity = t.capacity := by
  simp [fill, capacity]

theorem slot_of_firstFree? {n : Nat} (h : t.firstFree? = some n) : ∃ g, t.slots[n]? = some ⟨g, none⟩ := by
  rw [firstFree?, Array.findIdx?_eq_some_iff_getElem] at h
  obtain ⟨hn, he, -⟩ := h
  refine ⟨t.slots[n].generation, ?_⟩
  rw [Array.getElem?_eq_getElem hn]
  cases hs : t.slots[n] with
  | mk g o => rw [hs] at he; simpa using he

theorem lt_capacity_of_firstFree? {n : Nat} (h : t.firstFree? = some n) : n < t.capacity := by
  obtain ⟨g, hs⟩ := slot_of_firstFree? h
  exact (Array.getElem?_eq_some_iff.1 hs).1

/-- **A new environment has a place of its own in the list.** -/
theorem toList_fill {n : Nat} (h : t.firstFree? = some n) (g : UInt32) (e : Env) :
    ∃ A B, t.toList = A ++ B ∧ (t.fill n g e).toList = A ++ e :: B := by
  obtain ⟨g', hs⟩ := slot_of_firstFree? h
  refine ⟨(t.slots.toList.take n).filterMap EnvSlot.env, (t.slots.toList.drop (n + 1)).filterMap EnvSlot.env, ?_, ?_⟩
  · conv => lhs; rw [toList, toList_eq_of_getElem? hs]
    simp
  · rw [toList, fill, toList_setIfInBounds (lt_capacity_of_firstFree? h)]
    simp

theorem get?_of_firstFree? {n : Nat} (h : t.firstFree? = some n) (hi : i.index = n) : t.get? i = none := by
  obtain ⟨g, hs⟩ := slot_of_firstFree? h
  rw [get?, hi, hs]
  rfl

/-- **A new environment is found by its id, and every other is found as before.** -/
theorem get?_fill_ofParts {n : Nat} (hf : t.firstFree? = some n) (hc : t.capacity ≤ maxEnvSlots) (g : UInt32)
    (he : e.id = EnvId.ofParts g n) (j : EnvId) :
    (t.fill n g e).get? j = if EnvId.ofParts g n = j then some e else t.get? j := by
  have hn := lt_capacity_of_firstFree? hf
  have hx := EnvId.index_ofParts g (Nat.lt_of_lt_of_le hn hc)
  rw [get?_fill _ _ _ _ _ hn, he]
  by_cases hj : n = j.index
  · rw [if_pos hj]
    by_cases h : EnvId.ofParts g n = j
    · rw [if_pos h, if_pos h]
    · rw [if_neg h, if_neg h, get?_of_firstFree? hf hj.symm]
  · rw [if_neg hj, if_neg]
    rintro rfl
    exact hj hx.symm

theorem get?_ofParts_of_firstFree? {n : Nat} (hf : t.firstFree? = some n) (hc : t.capacity ≤ maxEnvSlots) (g : UInt32) :
    t.get? (EnvId.ofParts g n) = none :=
  get?_of_firstFree? hf (EnvId.index_ofParts g (Nat.lt_of_lt_of_le (lt_capacity_of_firstFree? hf) hc))

end EnvTable
end Exokernel
