import Mathlib.Data.Nat.ModEq
import Exokernel.Proofs.Env.Table
/-!
# The chronicle of an environment table

A chronicle is the list of the environments that were made and ended, the last deed first.  It says who is in a slot and
how often a slot was used, so an environment is known by its place in the chronicle, also where its id is used again.
Main statements: `Genuine.id_eq_iff`, by which the ids of a slot come again after `generationPeriod` uses and not before,
and `Genuine.stale`, by which until then the id of an environment that has ended is nobody's.
-/
namespace Exokernel

/-! ## Generations -/

/-- The number of uses of a slot after which its ids come again. -/
def generationPeriod : Nat := 2 ^ 20 - 1

namespace EnvId

/-- The generation of a slot that has been used a number of times. -/
def generationAfter : Nat → UInt32
  | 0 => 0
  | uses + 1 => nextGeneration (generationAfter uses)

/-- **Generations count from one on, and from the last one on to one.** -/
theorem toNat_generationAfter (uses : Nat) :
    (generationAfter (uses + 1)).toNat = uses % generationPeriod + 1 := by
  induction uses with
  | zero => rfl
  | succ n ih =>
    have hr : n % generationPeriod < generationPeriod := Nat.mod_lt _ (by decide)
    rw [generationAfter, nextGeneration]
    simp only [generationPeriod] at *
    split
    next hle =>
      have hle : 0xFFFFF ≤ (generationAfter (n + 1)).toNat := UInt32.le_iff_toNat_le.1 hle
      rw [show (1 : UInt32).toNat = 1 from rfl]
      omega
    next hlt =>
      have hlt : ¬ 0xFFFFF ≤ (generationAfter (n + 1)).toNat := fun h => hlt (UInt32.le_iff_toNat_le.2 h)
      rw [UInt32.toNat_add, show (1 : UInt32).toNat = 1 from rfl]
      omega

/-- Each use has another generation than the one before. -/
theorem generationAfter_succ_ne (uses : Nat) : generationAfter (uses + 1) ≠ generationAfter uses := by
  intro h
  have h := congrArg UInt32.toNat h
  rw [toNat_generationAfter] at h
  cases uses with
  | zero => cases h
  | succ n =>
    rw [toNat_generationAfter] at h
    simp only [generationPeriod] at h
    omega

theorem toNat_ofParts_of_le {g : UInt32} (hg : g.toNat ≤ generationPeriod) (n : Nat) :
    (ofParts g n).raw.toNat = g.toNat * 4096 + n % 4096 := by
  simp only [generationPeriod] at hg
  rw [toNat_ofParts, Nat.mod_eq_of_lt (by omega), Nat.mul_comm]
  exact (Nat.two_pow_add_eq_or_of_lt (i := 12) (by omega) g.toNat).symm

/-- **The ids of one slot are as different as the numbers of its uses**, until the generations come again. -/
theorem ofParts_generationAfter_inj (slot m n : Nat) :
    ofParts (generationAfter (m + 1)) slot = ofParts (generationAfter (n + 1)) slot ↔ m ≡ n [MOD generationPeriod] := by
  have bound (uses : Nat) : (generationAfter (uses + 1)).toNat ≤ generationPeriod := by
    rw [toNat_generationAfter]
    exact Nat.mod_lt _ (by decide)
  have hm := toNat_ofParts_of_le (bound m) slot
  have hn := toNat_ofParts_of_le (bound n) slot
  rw [toNat_generationAfter] at hm hn
  constructor
  · intro h
    rw [h, hn] at hm
    show m % generationPeriod = n % generationPeriod
    omega
  · intro h
    have h : m % generationPeriod = n % generationPeriod := h
    have hraw : (ofParts (generationAfter (m + 1)) slot).raw = (ofParts (generationAfter (n + 1)) slot).raw :=
      UInt32.toNat_inj.1 (by rw [hm, hn, h])
    exact congrArg EnvId.mk hraw

end EnvId

/-! ## Deeds -/

/-- Something that happens to a slot. -/
inductive Deed where
  | born (i : EnvId) (parent : Option EnvId)
  | ended (i : EnvId)
deriving DecidableEq

namespace Deed

def slot : Deed → Nat
  | born i _ => i.index
  | ended i => i.index

/-- An environment was made in this slot. -/
def fills (n : Nat) : Deed → Bool
  | born i _ => i.index == n
  | ended _ => false

theorem slot_of_fills {n : Nat} {d : Deed} (h : d.fills n) : d.slot = n := by
  cases d with
  | born i p => simpa [fills, slot] using h
  | ended i => cases h

end Deed

/-- How often a slot was used. -/
def births (n : Nat) (ds : List Deed) : Nat := ds.countP (Deed.fills n)

/-- **Who is in a slot**, and with which parent. -/
def occupant (n : Nat) : List Deed → Option (EnvId × Option EnvId)
  | [] => none
  | .born i parent :: past => if i.index = n then some (i, parent) else occupant n past
  | .ended i :: past => if i.index = n then none else occupant n past

section laws

variable {n : Nat} {i : EnvId} {parent : Option EnvId} {ds later past : List Deed}

theorem births_append (n : Nat) (later past : List Deed) : births n (later ++ past) = births n later + births n past :=
  List.countP_append

theorem births_born (i : EnvId) (parent : Option EnvId) (past : List Deed) :
    births i.index (.born i parent :: past) = births i.index past + 1 := by
  rw [births, List.countP_cons_of_pos (by simp [Deed.fills]), births]

theorem births_cons_of_ne {d : Deed} (h : d.slot ≠ n) (past : List Deed) : births n (d :: past) = births n past := by
  rw [births, List.countP_cons_of_neg (fun hf => h (Deed.slot_of_fills hf)), births]

theorem births_ended (n : Nat) (i : EnvId) (past : List Deed) : births n (.ended i :: past) = births n past :=
  List.countP_cons_of_neg (by simp [Deed.fills])

theorem births_of_untouched (h : ∀ d ∈ later, d.slot ≠ n) : births n later = 0 :=
  List.countP_eq_zero.2 fun d hd hf => h d hd (Deed.slot_of_fills hf)

theorem occupant_cons_of_ne {d : Deed} (h : d.slot ≠ n) (past : List Deed) :
    occupant n (d :: past) = occupant n past := by
  cases d with
  | born i p => exact if_neg h
  | ended i => exact if_neg h

theorem occupant_born (i : EnvId) (parent : Option EnvId) (past : List Deed) :
    occupant i.index (.born i parent :: past) = some (i, parent) := if_pos rfl

theorem occupant_ended (i : EnvId) (past : List Deed) : occupant i.index (.ended i :: past) = none := if_pos rfl

theorem occupant_of_untouched (h : ∀ d ∈ later, d.slot ≠ n) (past : List Deed) :
    occupant n (later ++ past) = occupant n past := by
  induction later with
  | nil => rfl
  | cons d later ih =>
    rw [List.cons_append, occupant_cons_of_ne (h d List.mem_cons_self)]
    exact ih fun d hd => h d (List.mem_cons_of_mem _ hd)

/-- **Whoever is in a slot was made there**, and since then nothing has happened to the slot. -/
theorem born_of_occupant (h : occupant n ds = some (i, parent)) :
    i.index = n ∧ ∃ later past, ds = later ++ .born i parent :: past ∧ ∀ d ∈ later, d.slot ≠ n := by
  induction ds with
  | nil => cases h
  | cons d ds ih =>
    by_cases hd : d.slot = n
    · cases d with
      | born j q =>
        subst hd
        rw [Deed.slot, occupant_born] at h
        cases h
        exact ⟨rfl, [], ds, rfl, fun _ h => by cases h⟩
      | ended j =>
        subst hd
        rw [Deed.slot, occupant_ended] at h
        cases h
    · rw [occupant_cons_of_ne hd] at h
      obtain ⟨hi, later, past, rfl, hlater⟩ := ih h
      refine ⟨hi, d :: later, past, rfl, fun d' hd' => ?_⟩
      rcases List.mem_cons.1 hd' with rfl | hd'
      · exact hd
      · exact hlater d' hd'

end laws

/-! ## Chronicles of tables -/

/-- **What a table does**: it makes an environment in a free slot, with the id of the slot and its next generation and
for a parent that is there, and it ends one that is there. -/
inductive Genuine : List Deed → Prop where
  | nil : Genuine []
  | born {i : EnvId} {parent : Option EnvId} {past : List Deed} (h : Genuine past)
      (hid : i = .ofParts (EnvId.generationAfter (births i.index past + 1)) i.index) (hfree : occupant i.index past = none)
      (hparent : ∀ p, parent = some p → ∃ q, occupant p.index past = some (p, q)) : Genuine (.born i parent :: past)
  | ended {i : EnvId} {parent : Option EnvId} {past : List Deed} (h : Genuine past)
      (hin : occupant i.index past = some (i, parent)) : Genuine (.ended i :: past)

namespace Genuine

variable {i j c : EnvId} {p q : Option EnvId} {ds later past past' : List Deed}

theorem tail {d : Deed} (h : Genuine (d :: past)) : Genuine past := by
  cases h with
  | born h => exact h
  | ended h => exact h

theorem of_append (h : Genuine (later ++ past)) : Genuine past := by
  induction later with
  | nil => exact h
  | cons d later ih => exact ih (tail h)

/-- **Until an environment has ended nothing happens to its slot.** -/
theorem untouched (h : Genuine (later ++ .born i p :: past)) (hl : .ended i ∉ later) :
    ∀ d ∈ later, d.slot ≠ i.index := by
  induction later with
  | nil => exact fun _ h => by cases h
  | cons d later ih =>
    rw [List.cons_append] at h
    have hrest : Genuine (later ++ .born i p :: past) := tail h
    have hlater := ih hrest fun he => hl (List.mem_cons_of_mem _ he)
    have hin : occupant i.index (later ++ .born i p :: past) = some (i, p) := by
      rw [occupant_of_untouched hlater, occupant_born]
    refine List.forall_mem_cons.2 ⟨fun hd => ?_, hlater⟩
    cases h with
    | @born j q _ _ _ hfree =>
      have hj : j.index = i.index := hd
      rw [hj, hin] at hfree
      cases hfree
    | @ended j q _ _ hj =>
      have hi : j.index = i.index := hd
      rw [hi, hin] at hj
      cases hj
      exact hl List.mem_cons_self

/-- Until it has ended an environment is in its slot. -/
theorem occupant_of_not_ended (h : Genuine (later ++ .born i p :: past)) (hl : .ended i ∉ later) :
    occupant i.index (later ++ .born i p :: past) = some (i, p) := by
  rw [occupant_of_untouched (h.untouched hl), occupant_born]

theorem id_eq (h : Genuine (.born i p :: past)) :
    i = .ofParts (EnvId.generationAfter (births i.index past + 1)) i.index := by
  cases h with
  | born _ hid => exact hid

/-- **The ids of a slot come again after `generationPeriod` uses, and not before.** -/
theorem id_eq_iff (h : Genuine (.born i p :: past)) (h' : Genuine (.born j q :: past')) (hs : i.index = j.index) :
    i = j ↔ births i.index past ≡ births j.index past' [MOD generationPeriod] := by
  have hi := h.id_eq
  have hj := h'.id_eq
  rw [← hs] at hj
  rw [← hs, ← EnvId.ofParts_generationAfter_inj i.index, ← hi, ← hj]

/-- **The id of an environment that has ended is nobody's**, until its slot has been used `generationPeriod` times since
the environment was made. -/
theorem stale (h : Genuine (later ++ .born i p :: past)) (he : .ended i ∈ later)
    (hb : births i.index later < generationPeriod) (q : Option EnvId) :
    occupant i.index (later ++ .born i p :: past) ≠ some (i, q) := by
  intro hin
  obtain ⟨-, later', past', heq, hl'⟩ := born_of_occupant hin
  have hg' : Genuine (.born i q :: past') := by
    rw [heq] at h
    exact h.of_append
  have hmod := hg'.id_eq_iff h.of_append rfl
  rcases List.append_eq_append_iff.1 heq with ⟨mid, rfl, -⟩ | ⟨mid, rfl, hmid⟩
  · exact hl' _ (List.mem_append_left _ he) rfl
  · cases mid with
    | nil =>
      rw [List.append_nil] at he
      exact hl' _ he rfl
    | cons d mid =>
      rw [List.cons_append, List.cons.injEq] at hmid
      obtain ⟨rfl, rfl⟩ := hmid
      -- one use more than none and less than a period lies between the two that have the id
      have hmod : births i.index (mid ++ .born i p :: past) % generationPeriod = births i.index past % generationPeriod :=
        hmod.1 rfl
      rw [births_append, births_born] at hmod
      rw [births_append, births_of_untouched hl', births_born] at hb
      simp only [generationPeriod] at hmod hb
      omega

/-- Whoever is the parent of a new environment is in a slot, which is another one. -/
theorem parent_of_born (h : Genuine (.born i (some c) :: past)) :
    i.index ≠ c.index ∧ ∃ q, occupant c.index past = some (c, q) := by
  cases h with
  | born h hid hfree hparent =>
    obtain ⟨q, hq⟩ := hparent c rfl
    refine ⟨fun hs => ?_, q, hq⟩
    rw [hs, hq] at hfree
    cases hfree

/-- **The id of a parent that has ended is nobody's**, until its slot has been used `generationPeriod` times since the
child was made. -/
theorem parent_stale (h : Genuine (later ++ .born i (some c) :: past)) (he : .ended c ∈ later)
    (hb : births c.index later < generationPeriod) (q : Option EnvId) :
    occupant c.index (later ++ .born i (some c) :: past) ≠ some (c, q) := by
  obtain ⟨hne, q', hq'⟩ := h.of_append.parent_of_born
  obtain ⟨-, mid, older, rfl, hmid⟩ := born_of_occupant hq'
  have hassoc : later ++ .born i (some c) :: (mid ++ .born c q' :: older) =
      (later ++ .born i (some c) :: mid) ++ .born c q' :: older := by simp
  rw [hassoc] at h ⊢
  refine h.stale (List.mem_append_left _ he) ?_ q
  have hd : (Deed.born i (some c)).slot ≠ c.index := hne
  rw [births_append, births_cons_of_ne hd, births_of_untouched hmid]
  exact hb

/-- If the slot of the parent was used since its child was made, the parent has ended since. -/
theorem parent_ended (h : Genuine (later ++ .born i (some c) :: past)) (hd : .born j p ∈ later)
    (hs : j.index = c.index) : .ended c ∈ later := by
  obtain ⟨hne, q, hq⟩ := h.of_append.parent_of_born
  obtain ⟨-, mid, older, rfl, hmid⟩ := born_of_occupant hq
  have hassoc : later ++ .born i (some c) :: (mid ++ .born c q :: older) =
      (later ++ .born i (some c) :: mid) ++ .born c q :: older := by simp
  rw [hassoc] at h
  by_contra hc
  refine h.untouched (fun he => ?_) _ (List.mem_append_left _ hd) hs
  rcases List.mem_append.1 he with he | he
  · exact hc he
  · rcases List.mem_cons.1 he with he | he
    · cases he
    · exact hmid _ he rfl

end Genuine
end Exokernel
