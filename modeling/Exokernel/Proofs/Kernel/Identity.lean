import Exokernel.Proofs.Kernel.Chronicle
import Exokernel.Proofs.Kernel.Confinement
/-!
# Who an id stands for

An id is used again when its slot has been used `generationPeriod` times.  Until then it stands for one environment, and
for nobody once that has ended; and who is let through as a parent is the parent itself and not somebody who came into
its slot later (`ids_identify`).
-/
namespace Exokernel.Kernel

variable {k k' : Kernel} {ds later past : List Deed} {i c d : EnvId} {p : Option EnvId} {e : Env}

/-! ## Lookups -/

/-- Whatever is asked for by this id, there is no such environment. -/
structure Unknown (k : Kernel) (i : EnvId) : Prop where
  get : k.envs.get i = .error .badEnv
  modify (f : Env → Env) : k.envs.modify i f = k.envs
  resolve (r : Requester) (permission : Bool) : k.envs.resolve i r permission = .error .badEnv
  destroy : k.destroyEnv i = (.error .badEnv, k)

theorem unknown_of_env?_none (hi : i.isSelf = false) (h : k.env? i = none) : k.Unknown i := by
  have hget : k.envs.get i = .error .badEnv := by
    have h : k.envs.get? i = none := h
    rw [EnvTable.get, h]
  refine ⟨hget, EnvTable.modify_of_get?_none h, fun r permission => ?_, destroyEnv_of_env?_none h⟩
  unfold EnvTable.resolve
  cases r <;> simp only [hi, hget]

theorem isSelf_of_env? (hk : k.Chronicled) (he : k.env? i = some e) : i.isSelf = false := by
  obtain ⟨ds, hds⟩ := hk
  obtain ⟨-, later, past, rfl, -⟩ := born_of_occupant (hds.records.occupant_of_get? he)
  rw [hds.records.genuine.of_append.id_eq]
  exact EnvId.isSelf_ofParts _ _

/-- Permission is with the environment itself and with its parent. -/
theorem resolve_ok_iff : k.envs.resolve i (.env c) true = .ok e ↔
    k.env? (i.meant c) = some e ∧ (i.isSelf ∨ i = c ∨ e.parent = some c) := by
  constructor
  · intro h
    have hid := Syscall.id_of_resolve h
    have he := Syscall.env?_of_resolve h
    have ha : Syscall.authorize k c i = .ok e := by
      rw [Syscall.authorize, h]
      rfl
    refine ⟨by rw [← hid]; exact he, ?_⟩
    cases hs : i.isSelf with
    | true => exact Or.inl rfl
    | false =>
      rw [EnvId.meant, hs, if_neg (by decide)] at hid
      rw [← hid]
      exact Or.inr (Syscall.authorize_ok ha).2
  · rintro ⟨he, ha⟩
    have hget : k.envs.get (i.meant c) = .ok e := by
      have he : k.envs.get? (i.meant c) = some e := he
      rw [EnvTable.get, he]
    unfold EnvTable.resolve
    cases hs : i.isSelf with
    | true =>
      rw [EnvId.meant, if_pos hs] at hget
      exact hget
    | false =>
      have hid := EnvTable.id_of_get? he
      rw [EnvId.meant, hs, if_neg (by decide)] at hget hid
      rw [hs] at ha
      simp only [hget]
      rw [if_neg]
      rcases ha with ha | rfl | ha
      · cases ha
      · simp [hid]
      · simp [Env.isChildOf, ha]

theorem badEnv_of_resolve {permission : Bool} {err : EnvError}
    (h : k.envs.resolve i (.env c) permission = .error err) : err = .badEnv := by
  have get {j : EnvId} (h : k.envs.get j = .error err) : err = .badEnv := by
    unfold EnvTable.get at h
    split at h
    · cases h
      rfl
    · cases h
  unfold EnvTable.resolve at h
  split at h
  next hq => cases hq
  next hq => cases hq; exact get h
  next hq => cases hq
  next hq =>
    cases hq
    split at h
    next hg => cases h; exact get hg
    next =>
      split at h
      · cases h
        rfl
      · cases h

/-! ## Identity -/

/-- **Ids identify the environments of the chronicle**, in the last state of it. -/
structure Identified (k : Kernel) (ds : List Deed) : Prop where
  /-- A new environment is put into the lowest free slot, under an id that is not zero. -/
  created {parent : Option EnvId} {i : EnvId} {k' : Kernel} (h : k.createEnv parent = (.ok i, k')) :
    i.isSelf = false ∧ k.envs.IsFree i.index ∧ ∀ n < i.index, ¬ k.envs.IsFree n
  distinct : (k.envs.toList.map Env.id).Nodup
  /-- A use of a slot and another one give the same id just when they are a number of periods apart. -/
  period {i j : EnvId} {p q : Option EnvId} {later past later' past' : List Deed} (h : ds = later ++ .born i p :: past)
    (h' : ds = later' ++ .born j q :: past') (hs : i.index = j.index) :
    i = j ↔ births i.index past ≡ births i.index past' [MOD 2 ^ 20 - 1]
  /-- The id of an environment that has ended stands for nobody, if its slot was used less than a period since. -/
  stale {i : EnvId} {p : Option EnvId} {later past : List Deed} (h : ds = later ++ .born i p :: past)
    (he : .ended i ∈ later) (hb : births i.index later < 2 ^ 20 - 1) : k.Unknown i
  /-- A live environment is let through to itself and to its own children, if its slot was used less than a period since
  they were made: to those that were made for it and not for somebody who had its id before. -/
  reach {c i : EnvId} {e : Env} (hc : k.env? c ≠ none)
    (hb : ∀ later past, ds = later ++ .born i (some c) :: past → .ended i ∉ later → births c.index later < 2 ^ 20 - 1) :
    k.envs.resolve i (.env c) true = .ok e ↔ k.env? (i.meant c) = some e ∧ (i.isSelf ∨ i = c ∨
      ∃ later past, ds = later ++ .born i (some c) :: past ∧ .ended i ∉ later ∧ .ended c ∉ later)
  refused {c i : EnvId} {err : EnvError} (h : k.envs.resolve i (.env c) true = .error err) : err = .badEnv
  /-- Whoever came into the slot of the parent after the child was made is not let through to the child. -/
  successor {c d i : EnvId} {p : Option EnvId} {later past : List Deed} (h : ds = later ++ .born i (some c) :: past)
    (he : .ended i ∉ later) (hd : .born d p ∈ later) (hs : d.index = c.index) (hn : d ≠ i) (hl : k.env? d ≠ none)
    (hb : births c.index later < 2 ^ 20 - 1) : k.envs.resolve i (.env d) true = .error .badEnv

namespace Chronicle

theorem env?_of_occupant (h : k.Chronicle ds) (ho : occupant i.index ds = some (i, p)) :
    ∃ e, k.env? i = some e ∧ e.parent = p := h.records.get?_of_occupant ho

theorem created (h : k.Chronicle ds) (hc : k.createEnv p = (.ok i, k')) :
    i.isSelf = false ∧ k.envs.IsFree i.index ∧ ∀ n < i.index, ¬ k.envs.IsFree n := by
  obtain ⟨n, f, m, hn, -, rfl, -⟩ := createEnv_ok hc
  have hlt := EnvTable.lt_capacity_of_firstFree? hn
  rw [EnvId.index_ofParts _ (Nat.lt_of_lt_of_le hlt h.records.capacity)]
  refine ⟨EnvId.isSelf_ofParts _ _, EnvTable.slot_of_firstFree? hn, ?_⟩
  rintro m hm ⟨g, hg⟩
  rw [EnvTable.firstFree?, Array.findIdx?_eq_some_iff_getElem] at hn
  obtain ⟨_, _, hlow⟩ := hn
  obtain ⟨hsize, hslot⟩ := Array.getElem?_eq_some_iff.1 hg
  have := hlow m hm
  rw [hslot] at this
  exact this rfl

/-- An environment that is not in its slot has an id that nobody has. -/
theorem unknown (h : k.Chronicle (later ++ .born i p :: past)) (he : .ended i ∈ later)
    (hb : births i.index later < generationPeriod) : k.Unknown i := by
  have hg := h.records.genuine
  refine unknown_of_env?_none ?_ (h.records.get?_eq_none (hg.stale he hb))
  rw [hg.of_append.id_eq]
  exact EnvId.isSelf_ofParts _ _

/-- **Who is the parent of a live environment** is told by the chronicle. -/
theorem parent_iff (h : k.Chronicle ds) (he : k.env? i = some e) (hc : k.env? c ≠ none)
    (hb : ∀ later past, ds = later ++ .born i (some c) :: past → .ended i ∉ later →
      births c.index later < generationPeriod) :
    e.parent = some c ↔ ∃ later past, ds = later ++ .born i (some c) :: past ∧ .ended i ∉ later ∧ .ended c ∉ later := by
  have hi := h.records.occupant_of_get? he
  constructor
  · intro hp
    rw [hp] at hi
    obtain ⟨-, later, past, rfl, hlater⟩ := born_of_occupant hi
    have hi : .ended i ∉ later := fun hm => hlater _ hm rfl
    refine ⟨later, past, rfl, hi, fun hm => ?_⟩
    obtain ⟨e', he'⟩ := Option.ne_none_iff_exists'.1 hc
    exact h.records.genuine.parent_stale hm (hb later past rfl hi) _ (h.records.occupant_of_get? he')
  · rintro ⟨later, past, rfl, hi', -⟩
    rw [h.records.genuine.occupant_of_not_ended hi'] at hi
    exact (congrArg Prod.snd (Option.some.inj hi)).symm

theorem reach (h : k.Chronicle ds) (hc : k.env? c ≠ none) (hb : ∀ later past, ds = later ++ .born i (some c) :: past →
      .ended i ∉ later → births c.index later < generationPeriod) :
    k.envs.resolve i (.env c) true = .ok e ↔ k.env? (i.meant c) = some e ∧ (i.isSelf ∨ i = c ∨
      ∃ later past, ds = later ++ .born i (some c) :: past ∧ .ended i ∉ later ∧ .ended c ∉ later) := by
  rw [resolve_ok_iff]
  refine and_congr_right fun he => ?_
  cases hs : i.isSelf with
  | true => exact ⟨fun _ => Or.inl rfl, fun _ => Or.inl rfl⟩
  | false =>
    rw [EnvId.meant, hs, if_neg (by decide)] at he
    rw [h.parent_iff he hc hb]

theorem successor {later past : List Deed} (h : k.Chronicle (later ++ .born i (some c) :: past)) (he : .ended i ∉ later)
    (hd : .born d p ∈ later) (hs : d.index = c.index) (hn : d ≠ i) (hl : k.env? d ≠ none)
    (hb : births c.index later < generationPeriod) : k.envs.resolve i (.env d) true = .error .badEnv := by
  have hg := h.records.genuine
  obtain ⟨e, hi, hp⟩ := h.env?_of_occupant (hg.occupant_of_not_ended he)
  have hself : i.isSelf = false := by
    rw [hg.of_append.id_eq]
    exact EnvId.isSelf_ofParts _ _
  cases hr : k.envs.resolve i (.env d) true with
  | error err => rw [badEnv_of_resolve hr]
  | ok e' =>
    obtain ⟨he', hself' | hid | hp'⟩ := resolve_ok_iff.1 hr
    · rw [hself] at hself'
      cases hself'
    · exact absurd hid.symm hn
    · -- the parent would be back under its old id before its slot has been used often enough
      rw [EnvId.meant, hself, if_neg (by decide), hi] at he'
      cases he'
      rw [hp] at hp'
      cases hp'
      obtain ⟨e', hc⟩ := Option.ne_none_iff_exists'.1 hl
      exact absurd (h.records.occupant_of_get? hc) (hg.parent_stale (hg.parent_ended hd hs) hb _)

end Chronicle

/-- **Environment ids identify environments across slot reuse.** -/
theorem ids_identify (h : k.Chronicle ds) : k.Identified ds where
  created hc := h.created hc
  distinct := h.records.nodup_ids
  period heq heq' hs := by
    have hg := h.records.genuine
    rw [heq] at hg
    have hg' := h.records.genuine
    rw [heq'] at hg'
    have hid := hg.of_append.id_eq_iff hg'.of_append hs
    rwa [← hs] at hid
  stale heq he hb := by
    rw [heq] at h
    exact h.unknown he hb
  reach hc hb := h.reach hc hb
  refused hr := badEnv_of_resolve hr
  successor heq he hd hs hn hl hb := by
    rw [heq] at h
    exact h.successor he hd hs hn hl hb

/-- A program has a child and ends; the next program comes into its slot and is not let through to the child. -/
theorem ids_identify_orphan : ∃ (k : Kernel) (ds : List Deed), k.Chronicle ds ∧ k.Identified ds ∧
    ds = [.born ⟨0x2000⟩ none, .ended ⟨0x1000⟩, .born ⟨0x1001⟩ (some ⟨0x1000⟩), .born ⟨0x1000⟩ none] ∧
    k.Unknown ⟨0x1000⟩ ∧ k.envs.resolve ⟨0x1001⟩ (.env ⟨0x2000⟩) true = .error .badEnv := by
  let k₁ := ((ofConfig ⟨8, 2⟩).createEnv none).2
  let k₂ := (k₁.createEnv (some ⟨0x1000⟩)).2
  let k₃ := (k₂.destroyEnv ⟨0x1000⟩).2
  let k₄ := (k₃.createEnv none).2
  have h₀ : (ofConfig ⟨8, 2⟩).Chronicle [] := .start (n := 2) rfl (by decide)
  have h₁ : k₁.Chronicle [.born ⟨0x1000⟩ none] := h₀.born (fun _ h => by cases h) (Prod.ext (by decide +kernel) rfl)
  have h₂ : k₂.Chronicle [.born ⟨0x1001⟩ (some ⟨0x1000⟩), .born ⟨0x1000⟩ none] :=
    h₁.born (fun p hp => by cases hp; decide +kernel) (Prod.ext (by decide +kernel) rfl)
  have h₃ : k₃.Chronicle [.ended ⟨0x1000⟩, .born ⟨0x1001⟩ (some ⟨0x1000⟩), .born ⟨0x1000⟩ none] :=
    h₂.ended (Prod.ext (by decide +kernel) rfl)
  have h₄ : k₄.Chronicle
      [.born ⟨0x2000⟩ none, .ended ⟨0x1000⟩, .born ⟨0x1001⟩ (some ⟨0x1000⟩), .born ⟨0x1000⟩ none] :=
    h₃.born (fun _ h => by cases h) (Prod.ext (by decide +kernel) rfl)
  have hi := ids_identify h₄
  have parent : [.born ⟨0x2000⟩ none, .ended ⟨0x1000⟩, .born ⟨0x1001⟩ (some ⟨0x1000⟩), .born ⟨0x1000⟩ none] =
      [.born ⟨0x2000⟩ none, .ended ⟨0x1000⟩, .born ⟨0x1001⟩ (some ⟨0x1000⟩)] ++ Deed.born ⟨0x1000⟩ none :: [] := rfl
  have child : [.born ⟨0x2000⟩ none, .ended ⟨0x1000⟩, .born ⟨0x1001⟩ (some ⟨0x1000⟩), .born ⟨0x1000⟩ none] =
      [.born ⟨0x2000⟩ none, .ended ⟨0x1000⟩] ++ Deed.born ⟨0x1001⟩ (some ⟨0x1000⟩) :: [.born ⟨0x1000⟩ none] := rfl
  exact ⟨k₄, _, h₄, hi, rfl, hi.stale parent (by decide) (by decide),
    hi.successor child (by decide) List.mem_cons_self (by decide) (by decide) (by decide +kernel) (by decide)⟩

end Exokernel.Kernel
