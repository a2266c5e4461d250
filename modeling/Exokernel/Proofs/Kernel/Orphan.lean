import Exokernel.Proofs.Kernel.Bystander
import Exokernel.Proofs.Kernel.Identity
/-!
# Orphans

A child that does not run and waits for no message can be let run by its parent alone.  When the parent has ended nobody
can: the id of the parent is nobody's until its slot has been used `generationPeriod` times (`Stale.env?_eq_none`), and as
long as nobody has it no step changes the child (`Orphan.run`).
-/
namespace Exokernel

/-- Who acts, if it is a program. -/
def Event.actor : Event → Option EnvId
  | .perform i _ => some i
  | _ => none

theorem Event.perform_of_actor {event : Event} {c : EnvId} (h : event.actor = some c) : ∃ op, event = .perform c op := by
  cases event with
  | perform i op =>
    cases h
    exact ⟨op, rfl⟩
  | _ => cases h

namespace EnvTable

/-- The generation that a slot is in. -/
def generation (t : EnvTable) (n : Nat) : Option UInt32 := t.slots[n]?.map EnvSlot.generation

theorem Records.generation_eq {t : EnvTable} {ds : List Deed} {n : Nat} (h : t.Records ds) (hn : n < t.capacity) :
    t.generation n = some (EnvId.generationAfter (births n ds)) := by
  have hs : t.slots[n]? = some ⟨t.slots[n].generation, t.slots[n].env⟩ := Array.getElem?_eq_getElem hn
  rw [EnvTable.generation, hs, Option.map_some, h.generation hs]

end EnvTable

namespace Kernel

variable {k k' : Kernel} {event : Event} {events : List Event} {ds : List Deed} {i c p : EnvId} {e : Env} {m n : Nat}

/-! ## Uses of a slot -/

/-- **How often a slot is used in a run**: each use puts it in another generation. -/
def uses (n : Nat) (k : Kernel) : List Event → Nat
  | [] => 0
  | event :: rest =>
    (if (k.step event).envs.generation n = k.envs.generation n then 0 else 1) + uses n (k.step event) rest

theorem uses_append (n : Nat) (k : Kernel) (before after : List Event) :
    uses n k (before ++ after) = uses n k before + uses n (k.run before) after := by
  induction before generalizing k with
  | nil => exact (Nat.zero_add _).symm
  | cons event rest ih =>
    rw [List.cons_append, uses, ih, uses, Nat.add_assoc]
    rfl

/-- **A step makes an environment in a slot just when it puts the slot in another generation.** -/
theorem births_step (hk : k.Sound []) (hds : k.Chronicle ds) (hn : n < k.envs.capacity) (event : Event) :
    ∃ new, (k.step event).Chronicle (new ++ ds) ∧ births n new = uses n k [event] := by
  have ht := Tells.step hk event
  obtain ⟨new, hnew, hle⟩ := ht.told
  have hle := hle n
  have hds' := hnew ds hds
  have hg := hds.records.generation_eq hn
  have hg' := hds'.records.generation_eq (by rwa [ht.capacity])
  rw [births_append] at hg'
  refine ⟨new, hds', ?_⟩
  rw [uses, uses, hg, hg', Nat.add_zero]
  obtain hb | hb : births n new = 0 ∨ births n new = 1 := by omega
  · rw [hb, Nat.zero_add, if_pos rfl]
  · rw [hb, Nat.add_comm, if_neg fun h => EnvId.generationAfter_succ_ne _ (Option.some.inj h)]

/-- **An environment has ended**, and since it was made its slot was used so often. -/
structure Stale (k : Kernel) (i : EnvId) (m : Nat) : Prop where
  slot : i.index < k.envs.capacity
  told : ∃ later q past, k.Chronicle (later ++ .born i q :: past) ∧ .ended i ∈ later ∧ births i.index later = m

namespace Stale

/-- Whoever was there and has ended while nobody was made. -/
theorem of_gone (hk : k.Chronicled) (he : k.env? i = some e) (ht : k.Tells k' 0) (hg : k'.env? i = none) :
    k'.Stale i 0 := by
  obtain ⟨ds, hds⟩ := hk
  obtain ⟨new, hnew, hle⟩ := ht.told
  obtain ⟨-, later, past, rfl, hlater⟩ := born_of_occupant (hds.records.occupant_of_get? he)
  have hds' := hnew _ hds
  rw [← List.append_assoc] at hds'
  refine ⟨?_, new ++ later, _, past, hds', ?_, ?_⟩
  · obtain ⟨g, hs⟩ := EnvTable.slot_of_get? he
    rw [ht.capacity]
    exact (Array.getElem?_eq_some_iff.1 hs).1
  · by_contra hended
    obtain ⟨e', he', -⟩ := hds'.env?_of_occupant (hds'.records.genuine.occupant_of_not_ended hended)
    rw [hg] at he'
    cases he'
  · rw [births_append, births_of_untouched hlater]
    exact Nat.le_zero.1 (hle i.index)

theorem chronicled (h : k.Stale i m) : k.Chronicled := by
  obtain ⟨-, later, q, past, hds, -⟩ := h
  exact ⟨_, hds⟩

theorem env?_eq_none (h : k.Stale i m) (hm : m < generationPeriod) : k.env? i = none := by
  obtain ⟨-, later, q, past, hds, he, rfl⟩ := h
  exact hds.records.get?_eq_none (hds.records.genuine.stale he hm)

theorem step (h : k.Stale i m) (hk : k.Sound []) (event : Event) :
    (k.step event).Stale i (m + k.uses i.index [event]) := by
  obtain ⟨hslot, later, q, past, hds, he, hb⟩ := h
  obtain ⟨new, hds', hnew⟩ := births_step hk hds hslot event
  rw [← List.append_assoc] at hds'
  refine ⟨?_, new ++ later, q, past, hds', List.mem_append_right _ he, ?_⟩
  · rw [(Tells.step hk event).capacity]
    exact hslot
  · rw [births_append, hnew, hb, Nat.add_comm]

end Stale

/-! ## Orphans -/

/-- **A child that was never started, whose parent has ended**, and so often the slot of the parent was used since the
parent was made. -/
structure Orphan (k : Kernel) (c p : EnvId) (e : Env) (m : Nat) : Prop where
  sound : k.Sound []
  scheduled : k.Scheduled
  there : k.env? c = some e
  status : e.status = .notRunnable
  idle : ¬ e.mailbox.receiving
  parent : e.parent = some p
  stale : k.Stale p m

namespace Orphan

/-- **Nobody gets at it.** -/
theorem env?_step (h : k.Orphan c p e m) (hm : m < generationPeriod) (hp : event.actor ≠ some c)
    (hd : event ≠ .destroyEnv c) : (k.step event).env? c = some e := by
  have hrun : ¬ e.status.isRunnable := by
    rw [h.status]
    decide
  by_cases hop : ∃ d op, event = .perform d op
  · obtain ⟨d, op, rfl⟩ := hop
    have hne : c ≠ d := by
      rintro rfl
      exact hp rfl
    by_cases hcall : ∃ number args, op = .ecall number args
    · obtain ⟨number, args, rfl⟩ := hcall
      cases hme : k.env? d with
      | none =>
        have hnobody : k.ecall d number args = (.exited, k) := by rw [ecall, hme]
        rw [step, perform, hnobody]
        exact h.there
      | some me =>
        have hpar : e.parent ≠ some d := by
          rw [h.parent]
          rintro ⟨rfl⟩
          cases (h.stale.env?_eq_none hm).symm.trans hme
        have ht := outside_ecall h.sound h.scheduled hme h.there hne hpar number args
        rw [step, perform]
        generalize (k.ecall d number args).2.env? c = o at ht ⊢
        cases ht with
        | unchanged => rfl
        | scheduled _ hs =>
          rw [h.status] at hs
          cases hs
        | delivered _ _ _ _ hdel => exact absurd hdel.1 h.idle
    · exact (env?_perform_of_ne hne fun number args hx => hcall ⟨number, args, hx⟩).trans h.there
  · obtain ⟨e', he', hres⟩ := reschedules_step h.sound h.scheduled (fun d op hx => hop ⟨d, op, hx⟩) hd e h.there
    rw [he', hres.eq_of_not_runnable hrun]

theorem step (h : k.Orphan c p e m) (hm : m < generationPeriod) (hp : event.actor ≠ some c)
    (hd : event ≠ .destroyEnv c) : (k.step event).Orphan c p e (m + k.uses p.index [event]) where
  sound := h.sound.step event
  scheduled := h.scheduled.step h.sound event
  there := h.env?_step hm hp hd
  status := h.status
  idle := h.idle
  parent := h.parent
  stale := h.stale.step h.sound event

/-- **It stays an orphan as long as the id of its parent is nobody's.** -/
theorem run (h : k.Orphan c p e m) (hm : m + k.uses p.index events < generationPeriod)
    (hp : ∀ event ∈ events, event.actor ≠ some c) (hd : .destroyEnv c ∉ events) :
    (k.run events).Orphan c p e (m + k.uses p.index events) := by
  induction events generalizing k m with
  | nil => exact h
  | cons event rest ih =>
    have huses := uses_append p.index k [event] rest
    rw [List.singleton_append] at huses
    rw [huses, ← Nat.add_assoc] at hm ⊢
    have hs := h.step (by omega) (hp event List.mem_cons_self) fun hx => hd (by rw [hx]; exact List.mem_cons_self)
    exact ih hs hm (fun event' he => hp event' (List.mem_cons_of_mem _ he)) fun hx => hd (List.mem_cons_of_mem _ hx)

theorem refused (h : k.Orphan c p e m) : k.dispatch c = .error .notRunnable := by
  rw [dispatch, h.there]
  dsimp only
  rw [if_pos (by rw [h.status]; decide)]

end Orphan

/-! ## Turns -/

/-- **A program acts only after it was given the processor**: whoever is refused has nothing to act with. -/
def ActsInTurn (k : Kernel) (events : List Event) (c : EnvId) : Prop :=
  ∀ before op after, events = before ++ .perform c op :: after →
    ∃ earlier later k₁, before = earlier ++ .dispatch c :: later ∧ (k.run earlier).dispatch c = .ok k₁

/-- **Who is never given the processor does not act.** -/
theorem Orphan.actor_ne (h : k.Orphan c p e m) (hm : m + k.uses p.index events < generationPeriod)
    (ht : k.ActsInTurn events c) (hd : .destroyEnv c ∉ events) : ∀ event ∈ events, event.actor ≠ some c := by
  intro event hmem hevent
  -- the first event at which it acts comes after one at which it was given the processor
  have hacts : (events.find? fun event => decide (event.actor = some c)).isSome :=
    List.find?_isSome.2 ⟨event, hmem, decide_eq_true hevent⟩
  obtain ⟨first, hfirst⟩ := Option.isSome_iff_exists.1 hacts
  obtain ⟨hactor, before, after, rfl, hbefore⟩ := List.find?_eq_some_iff_append.1 hfirst
  obtain ⟨op, rfl⟩ := Event.perform_of_actor (of_decide_eq_true hactor)
  obtain ⟨earlier, later, k₁, rfl, hturn⟩ := ht before op after rfl
  rw [List.append_assoc, uses_append] at hm
  have hrun : (k.run earlier).Orphan c p e (m + k.uses p.index earlier) := h.run (by omega)
    (fun event' he => by simpa using hbefore event' (List.mem_append_left _ he))
    fun hx => hd (by simp [hx])
  rw [hrun.refused] at hturn
  cases hturn

/-- **An environment that does not run and that nobody can get at**, with its registers and its mappings as they were. -/
structure Abandoned (k : Kernel) (c : EnvId) (e : Env) : Prop where
  there : k.env? c = some e
  status : e.status = .notRunnable
  unqueued : c ∉ k.scheduler.queue
  uncurrent : k.current ≠ some c
  /-- It is not given the processor. -/
  refused : k.dispatch c = .error .notRunnable
  /-- No other is let through to it. -/
  unreachable (d : EnvId) (hd : k.env? d ≠ none) (hne : d ≠ c) : k.envs.resolve c (.env d) true = .error .badEnv
  /-- Nobody can send it a message. -/
  unsent (event : Event) (d : EnvId) (req : SendRequest) : ¬ k.Sends event d c req

theorem Orphan.abandoned (h : k.Orphan c p e m) (hm : m < generationPeriod) : k.Abandoned c e := by
  have hheld : ¬ k.scheduler.Holds c := by
    intro hc
    obtain ⟨e', he', hr⟩ := h.scheduled c hc
    cases h.there.symm.trans he'
    rw [h.status] at hr
    cases hr
  refine ⟨h.there, h.status, fun hq => hheld (Or.inl hq), fun hq => hheld (Or.inr hq), h.refused, fun d hd hne => ?_,
    fun event d req hs => ?_⟩
  · cases hr : k.envs.resolve c (.env d) true with
    | error err => rw [badEnv_of_resolve hr]
    | ok e' =>
      have hself := isSelf_of_env? h.stale.chronicled h.there
      obtain ⟨he', hs | rfl | hp⟩ := resolve_ok_iff.1 hr
      · cases hself.symm.trans hs
      · exact absurd rfl hne
      · rw [EnvId.meant, hself, if_neg (by decide), h.there] at he'
        cases he'
        rw [h.parent] at hp
        cases hp
        exact absurd (h.stale.env?_eq_none hm) hd
  · obtain ⟨e₁, e₂, hdel⟩ := hs.delivery h.sound
    cases h.there.symm.trans hdel.found
    exact h.idle hdel.receiving

end Kernel
end Exokernel
