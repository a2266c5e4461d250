import Exokernel.Proofs.Paging.Check
import Exokernel.Proofs.User.Rounds
/-!
# How long an access is tried

An access that faults is tried again as long as no fault is served too often in a row.  The bound is looked at after a fault
has been served and before the access is tried again: a handler that has made the range accessible in time is followed by a
try that goes through, and a fault is given up only after it has come back three times from a handler that returned
(`access_retried`).  What the handler has done about the last of the faults is not seen (`repaired_access_given_up`).
-/
namespace Exokernel.UserProcess

open Kernel

variable {p : UserProcess} {k k' k₁ : Kernel} {a : Access} {va : Word} {m n c repeats : Nat} {last : Option Word}
  {vas pre : List Word}

/-! ## Counting -/

/-- A fault at an address has been served as often in a row as it may be. -/
def Exhausted (va : Word) (vas : List Word) : Prop := List.replicate maxFaultRetries va <:+ vas

/-- No fault has been served so often. -/
def WithinBound (vas : List Word) : Prop := ∀ pre, pre <+: vas → ∀ va, ¬ Exhausted va pre

theorem withinBound_of_length (h : vas.length < maxFaultRetries) : WithinBound vas := by
  intro pre hp va hx
  have := hx.length_le.trans hp.length_le
  rw [List.length_replicate] at this
  omega

theorem WithinBound.concat (h : WithinBound vas) (hn : ∀ w, ¬ Exhausted w (vas ++ [va])) : WithinBound (vas ++ [va]) := by
  intro pre hp
  rcases List.prefix_concat_iff.1 hp with rfl | hp
  · exact hn
  · exact h pre hp

/-- `last` and `repeats` say how a list of addresses ends. -/
def Tallied (vas : List Word) (last : Option Word) (repeats : Nat) : Prop :=
  ∀ va m, List.replicate (m + 1) va <:+ vas ↔ last = some va ∧ m + 1 ≤ repeats

theorem tallied_nil : Tallied [] none 0 := by
  intro va m
  simp [List.replicate_succ]

/-- **The count is kept** from one fault to the next. -/
theorem Tallied.concat (h : Tallied vas last repeats) (va : Word) :
    Tallied (vas ++ [va]) (some va) (streak last repeats va) := by
  intro w m
  rw [List.replicate_succ', List.suffix_concat_iff]
  simp only [List.append_eq_nil_iff, List.cons_ne_nil, and_false, false_or, streak]
  constructor
  · rintro ⟨rest, he, hs⟩
    obtain ⟨rfl, hw⟩ := List.append_inj' he rfl
    obtain rfl := (List.cons.inj hw).1
    refine ⟨rfl, ?_⟩
    cases m with
    | zero => split <;> omega
    | succ m =>
      obtain ⟨hl, hle⟩ := (h w m).1 hs
      rw [if_pos hl]
      omega
  · rintro ⟨hw, hle⟩
    obtain rfl := Option.some.inj hw
    refine ⟨List.replicate m va, rfl, ?_⟩
    cases m with
    | zero => exact List.nil_suffix
    | succ m =>
      split at hle
      next hl => exact (h va m).2 ⟨hl, by omega⟩
      · omega

theorem Tallied.exhausted_iff (h : Tallied vas last repeats) :
    Exhausted va vas ↔ last = some va ∧ maxFaultRetries ≤ repeats := h va 3

theorem Tallied.withinBound_concat (h : Tallied vas last repeats) (hw : WithinBound vas)
    (hlt : ¬ maxFaultRetries ≤ streak last repeats va) : WithinBound (vas ++ [va]) :=
  hw.concat fun _ hx => hlt ((h.concat va).exhausted_iff.1 hx).2

/-! ## Rounds and the last try -/

theorem rounds_succ_eq_some : p.rounds a m (c + 1) k = some (vas, k') ↔ ∃ va k₁ rest,
    p.round? (m + c) k a = some (va, k₁) ∧ p.rounds a m c k₁ = some (rest, k') ∧ vas = va :: rest :=
  inTurn_succ_eq_some

theorem length_of_rounds (h : p.rounds a m c k = some (vas, k')) : vas.length = c := by
  induction c generalizing k vas with
  | zero =>
    cases h
    rfl
  | succ c ih =>
    obtain ⟨va, k₁, rest, -, hrest, rfl⟩ := rounds_succ_eq_some.1 h
    rw [List.length_cons, ih hrest]

/-- **Rounds in two stretches.** -/
theorem rounds_split {post : List Word} (h : p.rounds a m (pre ++ post).length k = some (pre ++ post, k')) :
    ∃ k₁, p.rounds a (m + post.length) pre.length k = some (pre, k₁) ∧
      p.rounds a m post.length k₁ = some (post, k') := by
  induction pre generalizing k with
  | nil => exact ⟨k, rfl, h⟩
  | cons va pre ih =>
    obtain ⟨va', k₁, rest, hr, hrest, he⟩ := rounds_succ_eq_some.1 h
    obtain ⟨rfl, rfl⟩ := List.cons.inj he
    obtain ⟨k₂, hpre, hpost⟩ := ih hrest
    refine ⟨k₂, rounds_succ_eq_some.2 ⟨va, k₁, pre, ?_, hpre, rfl⟩, hpost⟩
    rw [show m + post.length + pre.length = m + (pre ++ post).length by rw [List.length_append]; omega]
    exact hr

/-- **After some rounds the program can run on.** -/
theorem rounds_ok (hk : k.Sound []) (h : p.rounds a m c k = some (vas, k')) :
    k'.Sound [] ∧ (vas ≠ [] → ∃ sp, k'.Runs p.env sp) := by
  induction c generalizing k vas with
  | zero =>
    cases h
    exact ⟨hk, fun hn => absurd rfl hn⟩
  | succ c ih =>
    obtain ⟨va, k₁, rest, hr, hrest, rfl⟩ := rounds_succ_eq_some.1 h
    obtain ⟨-, -, e₁, -, -, -, hk₁, he₁, -, hst⟩ := round?_ok hk hr
    obtain ⟨hk', hruns⟩ := ih hk₁ hrest
    refine ⟨hk', fun _ => ?_⟩
    rcases rest with _ | ⟨w, rest⟩
    · have hc := length_of_rounds hrest
      subst hc
      cases hrest
      exact ⟨_, e₁, he₁, hst, rfl⟩
    · exact hruns (List.cons_ne_nil _ _)

/-- The last try of an access, with `m` tries left: it is not followed by another. -/
inductive LastTry (p : UserProcess) (a : Access) (m : Nat) (k : Kernel) : Except UserPanic Bytes → Kernel → Prop
  | refused {err : Errno} {k' : Kernel} (h : p.enter k = (.error err, k')) : LastTry p a m k (.error .killed) k'
  | through {k₁ k' : Kernel} {bytes : Bytes} (h : p.enter k = (.ok (), k₁)) (hat : p.attempt k₁ a = (.ok bytes, k')) :
    LastTry p a m k (.ok bytes) k'
  | unserved {k₁ k₂ k' : Kernel} {t : Trap} {n : Nat} {cause : UserPanic} (hm : m = n + 1) (h : p.enter k = (.ok (), k₁))
    (hat : p.attempt k₁ a = (.error t, k₂)) (hs : p.serve (p.access n) k₂ t = some (.error cause, k')) :
    LastTry p a m k (.error cause) k'

/-- How an access ends after the faults `vas`, with `m` tries left: by its last try, or because the last of the faults has
been served as often in a row as it may be. -/
def Concludes (p : UserProcess) (a : Access) (m : Nat) (vas : List Word) (k : Kernel) (r : Except UserPanic Bytes)
    (k' : Kernel) : Prop :=
  WithinBound vas ∧ p.LastTry a m k r k' ∨
    ∃ va, WithinBound vas.dropLast ∧ Exhausted va vas ∧ r = .error (.unresolved va) ∧ k' = p.fatal k (.unresolved va)

/-- **Every access goes through its rounds**, and then it is concluded. -/
theorem rounds_of_accessFrom (ht : Tallied pre last repeats) (hw : WithinBound pre) {r : Except UserPanic Bytes}
    (h : p.accessFrom n last repeats k a = some (r, k')) : ∃ m vas k₁, n = m + vas.length ∧
      p.rounds a m vas.length k = some (vas, k₁) ∧ p.Concludes a m (pre ++ vas) k₁ r k' := by
  -- by the tries that are left; `pre` lists the faults served so far, as far as `last` and `repeats` tell
  induction n generalizing k pre last repeats with
  | zero => cases h
  | succ n ih =>
    have last_try (hl : p.LastTry a (n + 1) k r k') : ∃ m vas k₁, n + 1 = m + vas.length ∧
        p.rounds a m vas.length k = some (vas, k₁) ∧ p.Concludes a m (pre ++ vas) k₁ r k' :=
      ⟨n + 1, [], k, rfl, rfl, .inl ⟨by rwa [List.append_nil], hl⟩⟩
    rcases accessFrom_succ_cases h with ⟨err, he, rfl⟩ | ⟨k₁, bytes, he, hat, rfl⟩ | ⟨k₁, t, k₂, cause, he, hat, hs, rfl⟩ |
      ⟨va, k₁, hr, h⟩
    · exact last_try (.refused he)
    · exact last_try (.through he hat)
    · exact last_try (.unserved rfl he hat hs)
    · have ht' := ht.concat va
      split at h
      next hle =>
        obtain ⟨rfl, rfl⟩ := h
        exact ⟨n, [va], k₁, rfl, rounds_succ_eq_some.2 ⟨va, k₁, [], hr, rfl, rfl⟩, .inr ⟨va,
          by rwa [List.dropLast_concat], ht'.exhausted_iff.2 ⟨rfl, hle⟩, rfl, rfl⟩⟩
      next hlt =>
        obtain ⟨m, vas, k₂, rfl, hrest, hend⟩ := ih ht' (ht.withinBound_concat hw hlt) h
        rw [List.append_assoc, List.singleton_append] at hend
        exact ⟨m, va :: vas, k₂, rfl, rounds_succ_eq_some.2 ⟨va, k₁, vas, hr, hrest, rfl⟩, hend⟩

/-- **As long as no fault is served too often in a row, the access is tried again.** -/
theorem accessFrom_of_rounds (ht : Tallied pre last repeats) (hw : WithinBound (pre ++ vas))
    (h : p.rounds a m vas.length k = some (vas, k₁)) : ∃ last' repeats', Tallied (pre ++ vas) last' repeats' ∧
      p.accessFrom (m + vas.length) last repeats k a = p.accessFrom m last' repeats' k₁ a := by
  induction vas generalizing k pre last repeats with
  | nil =>
    cases h
    exact ⟨last, repeats, by rwa [List.append_nil], rfl⟩
  | cons va vas ih =>
    obtain ⟨va', k₂, rest, hr, hrest, he⟩ := rounds_succ_eq_some.1 h
    obtain ⟨rfl, rfl⟩ := List.cons.inj he
    have hassoc : pre ++ va :: vas = pre ++ [va] ++ vas := by rw [List.append_assoc, List.singleton_append]
    have hlt : ¬ maxFaultRetries ≤ streak last repeats va := fun hle =>
      hw (pre ++ [va]) (hassoc ▸ List.prefix_append _ _) va ((ht.concat va).exhausted_iff.2 ⟨rfl, hle⟩)
    rw [hassoc] at hw ⊢
    obtain ⟨last', repeats', ht', he'⟩ := ih (ht.concat va) hw hrest
    exact ⟨last', repeats', ht', ((accessFrom_of_round? hr).trans (if_neg hlt)).trans he'⟩

/-- **A fault that has been served too often in a row is given up.** -/
theorem access_of_exhausted (hw : WithinBound vas) (hx : Exhausted va (vas ++ [va]))
    (h : p.rounds a m (vas ++ [va]).length k = some (vas ++ [va], k₁)) :
    p.access (m + (vas ++ [va]).length) k a = some (.error (.unresolved va), p.fatal k₁ (.unresolved va)) := by
  obtain ⟨k₂, hpre, hpost⟩ := rounds_split h
  obtain ⟨va', k₃, rest, hr, hrest, he⟩ := rounds_succ_eq_some.1 hpost
  obtain ⟨rfl, rfl⟩ := List.cons.inj he
  cases hrest
  obtain ⟨last, repeats, ht, hacc⟩ := accessFrom_of_rounds tallied_nil hw hpre
  have hle := ((ht.concat va).exhausted_iff.1 hx).2
  rw [show m + (vas ++ [va]).length = m + [va].length + vas.length by rw [List.length_append]; omega]
  exact (hacc.trans (accessFrom_of_round? hr)).trans (if_pos hle)

theorem access_of_replicate (h : p.rounds a m maxFaultRetries k = some (List.replicate maxFaultRetries va, k₁)) :
    p.access (m + maxFaultRetries) k a = some (.error (.unresolved va), p.fatal k₁ (.unresolved va)) := by
  have hw : WithinBound (List.replicate 3 va) := withinBound_of_length (by rw [List.length_replicate]; decide)
  exact access_of_exhausted hw (List.suffix_refl _) h

/-! ## What an access faults at -/

/-- Every byte of the range of an access is open to it. -/
def Accessible (p : UserProcess) (k : Kernel) (a : Access) : Prop := ∃ e, k.env? p.env = some e ∧
  ∀ x, a.start.toNat ≤ x → x < a.start.toNat + a.size → e.space.Open a.kind x

/-- An access faults at an address. -/
def FaultsAt (p : UserProcess) (k : Kernel) (a : Access) (va : Word) : Prop := ∃ e f, k.env? p.env = some e ∧
  e.space.check a.start.toNat a.size a.kind = .error f ∧ f.address = va.toNat

/-- **Each round starts with a fault at the address that it gives.** -/
theorem faultsAt_of_rounds {post : List Word} (hk : k.Sound [])
    (h : p.rounds a m (pre ++ va :: post).length k = some (pre ++ va :: post, k')) :
    ∃ k₁, p.rounds a (m + (post.length + 1)) pre.length k = some (pre, k₁) ∧ p.FaultsAt k₁ a va := by
  obtain ⟨k₁, hpre, hpost⟩ := rounds_split h
  obtain ⟨va', k₂, rest, hr, -, he⟩ := rounds_succ_eq_some.1 hpost
  obtain ⟨rfl, rfl⟩ := List.cons.inj he
  obtain ⟨e, f, -, he, hc, hf, -⟩ := round?_ok (rounds_ok hk hpre).1 hr
  exact ⟨k₁, hpre, e, f, he, hc, hf⟩

/-- **A program that can run on makes an access that is open to it.** -/
theorem accessFrom_of_accessible {sp : Word} (hk : k.Sound []) (hr : k.Runs p.env sp) (h : p.Accessible k a) :
    ∃ bytes k', p.accessFrom (m + 1) last repeats k a = some (.ok bytes, k') := by
  obtain ⟨e, he, hopen⟩ := h
  obtain ⟨k₁, hent, -, -⟩ := enter_ok (p := p) hk hr
  obtain ⟨s, he₁⟩ := env?_of_enter he hent
  obtain ⟨bytes, k', hat, -⟩ := attempt_of_check_ok (a := a) he₁ (AddressSpace.check_eq_ok_iff.2 hopen)
  exact ⟨bytes, k', accessFrom_of_attempt hent hat⟩

/-- Only a handler gives up a fault while it is served. -/
theorem run_of_serve_unresolved {access : Kernel → Access → Served Bytes} {t : Trap}
    (h : p.serve access k t = some (.error (.unresolved va), k')) : ∃ handler r k₁, p.runtime.handler = some handler ∧
      p.run access (handler r) k₁ = some (.error (.unresolved va), k') := by
  have returned {k : Kernel} {r : FaultRecord} : p.returnFrom k r ≠ (.error (.unresolved va), k') := by
    unfold returnFrom
    split
    · rintro ⟨⟩
    · split <;> rintro ⟨⟩
  have read {k : Kernel} {w : Word} : p.readRecord k w ≠ (.error (.unresolved va), k') := by
    unfold readRecord
    split
    · rintro ⟨⟩
    · split <;> rintro ⟨⟩
  unfold serve at h
  split at h
  · cases h
  split at h
  · cases h
  split at h
  next hread =>
    cases h
    exact absurd hread read
  next r k₁ hread =>
    split at h
    · cases h
    next handler hh =>
      split at h
      · cases h
      next hrun =>
        cases h
        exact ⟨handler, r, k₁, hh, hrun⟩
      · exact absurd (Option.some.inj h) returned

/-! ## Handlers that take their time -/

/-- **Maps one page of a list after the other**, and at last the page of the fault. -/
def fillingFirst : List Word → FaultHandler
  | [], r => Routine.demandZero r
  | va :: rest, r => .query va fun
    | none => Routine.lastCall (.pageAlloc .self va .userWritable) "page_alloc"
    | some _ => fillingFirst rest r

/-- What comes of some rounds: whether the access is open to the program then. -/
theorem rounds_handledBy (h : FaultHandler) (a : Access) (m c : Nat) (vas : List Word) (x : Except PageFault Unit) (hrun :
    (inTurn (fun n k => (handledBy h).directRound? h n k a) m c upcallProgram).map
      (fun x => (x.1, (x.2.env? ⟨4096⟩).map fun e => e.space.check a.start.toNat a.size a.kind)) = some (vas, some x)) :
    ∃ k₁ e, (handledBy h).rounds a m c upcallProgram = some (vas, k₁) ∧ k₁.env? ⟨4096⟩ = some e ∧
      e.space.check a.start.toNat a.size a.kind = x := by
  obtain ⟨⟨ws, k₁⟩, hr, hx⟩ := Option.map_eq_some_iff.1 hrun
  obtain ⟨hws, he⟩ := Prod.mk.inj hx
  obtain ⟨e, he, hc⟩ := Option.map_eq_some_iff.1 he
  obtain rfl : ws = vas := hws
  exact ⟨k₁, e, (rounds_eq_direct rfl reachable_upcallProgram.sound).trans hr, he, hc⟩

/-! ## When an access is given up -/

/-- **An access is tried again, and given up only when it has come back**: after handlers that returned and have made its range
accessible, it goes through, if no fault has been served too often in a row; and it is given up with `unresolved` only
at a fault that has been served that often, which it faulted at anew each time, or if the handler itself gives it up. -/
theorem access_retried (hk : k.Reachable) (a : Access) :
    (∀ m vas k₁, vas ≠ [] → p.rounds a (m + 1) vas.length k = some (vas, k₁) → WithinBound vas → p.Accessible k₁ a →
      ∃ bytes k', p.access (m + 1 + vas.length) k a = some (.ok bytes, k')) ∧
    ∀ n va k', p.access n k a = some (.error (.unresolved va), k') → ∃ m vas k₁, n = m + vas.length ∧
      p.rounds a m vas.length k = some (vas, k₁) ∧
      (∀ pre w post, vas = pre ++ w :: post → ∃ k₂,
        p.rounds a (m + (post.length + 1)) pre.length k = some (pre, k₂) ∧ p.FaultsAt k₂ a w) ∧
      (WithinBound vas.dropLast ∧ Exhausted va vas ∧ k' = p.fatal k₁ (.unresolved va) ∧ k'.env? p.env = none ∨
        WithinBound vas ∧ ∃ handler r k₂ m', m = m' + 1 ∧ p.runtime.handler = some handler ∧
          p.run (p.access m') (handler r) k₂ = some (.error (.unresolved va), k')) := by
  refine ⟨fun m vas k₁ hne h hw hopen => ?_, fun n va k' h => ?_⟩
  · obtain ⟨hk₁, hruns⟩ := rounds_ok hk.sound h
    obtain ⟨sp, hr⟩ := hruns hne
    obtain ⟨last, repeats, -, hacc⟩ := accessFrom_of_rounds tallied_nil hw h
    rw [access, hacc]
    exact accessFrom_of_accessible hk₁ hr hopen
  · obtain ⟨m, vas, k₁, hn, hrounds, hend⟩ := rounds_of_accessFrom tallied_nil (withinBound_of_length (by decide)) h
    refine ⟨m, vas, k₁, hn, hrounds, ?_, ?_⟩
    · rintro pre w post rfl
      exact faultsAt_of_rounds hk.sound hrounds
    · rw [List.nil_append] at hend
      rcases hend with ⟨hw, hlast⟩ | ⟨w, hw, hx, hr, rfl⟩
      · rcases hlast with _ | _ | ⟨hm, -, -, hs⟩
        obtain ⟨handler, r, k₂, hh, hrun⟩ := run_of_serve_unresolved hs
        exact .inr ⟨hw, handler, r, k₂, _, hm, hh, hrun⟩
      · cases hr
        have hne : vas ≠ [] := by
          rintro rfl
          cases List.suffix_nil.1 hx
        obtain ⟨hk₁, hruns⟩ := rounds_ok hk.sound hrounds
        exact .inl ⟨hw, hx, rfl, (fatal_ends hk₁ (.inr (hruns hne)) _).1.gone⟩

/-- A handler that repairs the fault in its third run, and one that never does. -/
theorem access_retried_thrice : ∃ (p q : UserProcess) (k k' : Kernel) (a : Access) (va : Word), k.Reachable ∧
    p.rounds a 1 3 k ≠ none ∧ (∃ bytes k'', p.access 4 k a = some (.ok bytes, k'')) ∧
    q.access 4 k a = some (.error (.unresolved va), k') ∧ k'.env? q.env = none := by
  let a : Access := .write 0x10000000 #[1]
  have hk := reachable_upcallProgram
  obtain ⟨k₁, e, hrounds, he, hc⟩ := rounds_handledBy (fillingFirst [0x20000000, 0x20001000]) a 1 3
    [0x10000000, 0x10000000, 0x10000000] (.ok ()) (by decide +kernel)
  obtain ⟨k₂, -, hrounds', -, -⟩ := rounds_handledBy Routine.ignore a 0 4
    [0x10000000, 0x10000000, 0x10000000, 0x10000000] (.error ⟨0x10000000, ⟨6⟩⟩) (by decide +kernel)
  have hignore : (handledBy Routine.ignore).runtime.handler = some Routine.ignore := rfl
  have henv : (handledBy (fillingFirst [0x20000000, 0x20001000])).env = ⟨4096⟩ := rfl
  generalize upcallProgram = k at *
  generalize handledBy (fillingFirst [0x20000000, 0x20001000]) = p at *
  generalize handledBy Routine.ignore = q at *
  generalize a = a at *
  have hthrough := (access_retried hk a).1 0 [0x10000000, 0x10000000, 0x10000000] k₁ (List.cons_ne_nil _ _) hrounds
    (withinBound_of_length (by decide)) ⟨e, henv ▸ he, AddressSpace.check_eq_ok_iff.1 hc⟩
  have hgiven := access_of_replicate hrounds'
  refine ⟨p, q, k, _, a, 0x10000000, hk, by rw [hrounds]; exact Option.some_ne_none _, hthrough, hgiven, ?_⟩
  obtain ⟨m, vas, k₃, -, -, -, ⟨-, -, -, hgone⟩ | ⟨-, handler, r, k₄, m', -, hh, hrun⟩⟩ := (access_retried hk a).2 _ _ _ hgiven
  · exact hgone
  · rw [hignore] at hh
    cases hh
    cases hrun

/-- **A handler that repairs the fault at the last moment is not noticed**: its fourth run makes the range accessible, the next
try would go through, and the program is ended all the same. -/
theorem repaired_access_given_up : ∃ (p : UserProcess) (k k₁ k' : Kernel) (a : Access) (va : Word), k.Reachable ∧
    p.rounds a 1 4 k = some ([va, va, va, va], k₁) ∧ p.Accessible k₁ a ∧
    (∃ bytes k₂, p.access 1 k₁ a = some (.ok bytes, k₂)) ∧
    p.access 5 k a = some (.error (.unresolved va), k') ∧ k'.env? p.env = none := by
  let a : Access := .write 0x10000000 #[1]
  let p := handledBy (fillingFirst [0x20000000, 0x20001000, 0x20002000])
  obtain ⟨k₁, e, hrounds, he, hc⟩ := rounds_handledBy (fillingFirst [0x20000000, 0x20001000, 0x20002000])
    a 1 4 [0x10000000, 0x10000000, 0x10000000, 0x10000000] (.ok ()) (by decide +kernel)
  have hk := reachable_upcallProgram
  have hopen : p.Accessible k₁ a := ⟨e, he, AddressSpace.check_eq_ok_iff.1 hc⟩
  obtain ⟨hk₁, hruns⟩ := rounds_ok hk.sound hrounds
  obtain ⟨sp, hr⟩ := hruns (List.cons_ne_nil _ _)
  have hgone := (fatal_ends hk₁ (.inr ⟨sp, hr⟩) (.unresolved 0x10000000)).1.gone
  exact ⟨p, upcallProgram, k₁, _, a, 0x10000000, hk, hrounds, hopen, accessFrom_of_accessible hk₁ hr hopen,
    access_of_replicate hrounds, hgone⟩

end Exokernel.UserProcess
