import Exokernel.Proofs.Kernel.Roster
/-!
# Statuses and the scheduler

As long as every program waits for its turn, the scheduler knows of exactly those that may run, and of each of them once;
whoever runs holds the processor (`statuses_coherent`).  Who waits for a message does not run, unless it is told to
(`receivers_blocked`).
-/
namespace Exokernel

namespace Roster

/-- **The scheduler knows of exactly those that may run**, and who runs holds the processor. -/
structure Coherent (r : Roster) : Prop where
  proper : r.scheduler.Proper
  holds_iff (i : EnvId) : r.scheduler.Holds i ↔ ∃ s, r.stances i = some s ∧ s.status.isRunnable
  current_of_running (i : EnvId) (s : Stance) (h : r.stances i = some s) (hr : s.status = .running) :
    r.scheduler.current = some i

variable {r : Roster} {i j c : EnvId} {s : Stance} {o : Option Stance}

theorem holds_preempt : r.preempt.scheduler.Holds i ↔ r.scheduler.Holds i := by
  unfold preempt
  split
  · exact Iff.rfl
  · exact Scheduler.holds_yieldCurrent

namespace Coherent

theorem set (h : r.Coherent) (hn : r.stances i = none) (hs : s.status = .notRunnable) : (r.set i (some s)).Coherent := by
  constructor
  · exact h.proper
  · intro j
    refine (h.holds_iff j).trans ?_
    by_cases hj : i = j
    · subst hj
      simp [Roster.set, hn, hs, EnvStatus.isRunnable]
    · simp only [Roster.set, EnvMap.set_of_ne hj]
  · intro j s' hs' hr
    by_cases hj : i = j
    · subst hj
      cases EnvMap.set_self.symm.trans hs'
      rw [hs] at hr
      cases hr
    · exact h.current_of_running j s' ((EnvMap.set_of_ne hj).symm.trans hs') hr

theorem enlist (h : r.Coherent) (i : EnvId) (hs : s.status = .runnable) : (r.enlist i s).Coherent := by
  constructor
  · exact h.proper.enqueue i
  · intro j
    refine Scheduler.holds_enqueue.trans ?_
    rw [h.holds_iff]
    by_cases hj : i = j
    · subst hj
      simp [Roster.enlist, hs, EnvStatus.isRunnable]
    · simp only [Roster.enlist, EnvMap.set_of_ne hj]
      exact or_iff_left (Ne.symm hj)
  · intro j s' hs' hr
    refine Scheduler.current_enqueue.trans ?_
    by_cases hj : i = j
    · subst hj
      cases EnvMap.set_self.symm.trans hs'
      rw [hs] at hr
      cases hr
    · exact h.current_of_running j s' ((EnvMap.set_of_ne hj).symm.trans hs') hr

theorem dismiss (h : r.Coherent) (i : EnvId) (ho : ∀ s, o = some s → s.status = .notRunnable) :
    (r.dismiss i o).Coherent := by
  constructor
  · exact h.proper.remove i
  · intro j
    refine Scheduler.holds_remove.trans ?_
    rw [h.holds_iff]
    by_cases hj : i = j
    · subst hj
      constructor
      · rintro ⟨-, hne⟩
        exact absurd rfl hne
      · rintro ⟨s, hs, hr⟩
        rw [ho s (EnvMap.set_self.symm.trans hs)] at hr
        cases hr
    · simp only [Roster.dismiss, EnvMap.set_of_ne hj]
      exact and_iff_left (Ne.symm hj)
  · intro j s' hs' hr
    by_cases hj : i = j
    · subst hj
      rw [ho s' (EnvMap.set_self.symm.trans hs')] at hr
      cases hr
    · have hc := h.current_of_running j s' ((EnvMap.set_of_ne hj).symm.trans hs') hr
      exact Option.filter_eq_some_iff.2 ⟨hc, by simpa using Ne.symm hj⟩

/-- The holder of the processor is live and may run. -/
theorem current (h : r.Coherent) (hc : r.scheduler.current = some i) :
    ∃ s, r.stances i = some s ∧ s.status.isRunnable := (h.holds_iff i).1 (Or.inr hc)

/-- **The holder of the processor can go back to the queue.** -/
theorem release (h : r.Coherent) (hc : r.scheduler.current = some i) (hs : s.status = .runnable) :
    Coherent ⟨r.scheduler.yieldCurrent, r.stances.set i (some s)⟩ := by
  constructor
  · exact h.proper.yieldCurrent
  · intro j
    refine Scheduler.holds_yieldCurrent.trans ((h.holds_iff j).trans ?_)
    by_cases hj : i = j
    · subst hj
      constructor
      · intro _
        refine ⟨s, EnvMap.set_self, ?_⟩
        rw [hs]
        rfl
      · intro _
        exact h.current hc
    · simp only [EnvMap.set_of_ne hj]
  · intro j s' hs' hr
    by_cases hj : i = j
    · subst hj
      cases EnvMap.set_self.symm.trans hs'
      rw [hs] at hr
      cases hr
    · have hcj := h.current_of_running j s' ((EnvMap.set_of_ne hj).symm.trans hs') hr
      rw [hc] at hcj
      exact absurd (Option.some.inj hcj) hj

theorem preempt (h : r.Coherent) : r.preempt.Coherent ∧ r.preempt.scheduler.current = none := by
  unfold Roster.preempt
  split
  next hc => exact ⟨h, hc⟩
  next i hc =>
    obtain ⟨s, hs, hr⟩ := h.current hc
    rw [EnvMap.modify_of_eq_some hs]
    refine ⟨h.release hc ?_, rfl⟩
    split
    · rfl
    next hn => exact (EnvStatus.isRunnable_iff.1 hr).resolve_right hn

/-- **Anyone in the queue can take the processor when it is free.** -/
theorem take (h : r.Coherent) (hc : r.scheduler.current = none) (hi : i ∈ r.scheduler.queue) :
    (Roster.setStatus { r with scheduler := r.scheduler.setCurrent (some i) } i .running).Coherent := by
  obtain ⟨s, hs, hr⟩ := (h.holds_iff i).1 (Or.inl hi)
  have hs' : (Roster.mk (r.scheduler.setCurrent (some i)) r.stances).stances i = some s := hs
  rw [Roster.setStatus_eq hs']
  constructor
  · exact h.proper.setCurrent i
  · intro j
    refine Scheduler.holds_setCurrent.trans ?_
    by_cases hj : i = j
    · subst hj
      simp [Roster.set, EnvStatus.isRunnable]
    · simp only [Roster.set, EnvMap.set_of_ne hj]
      rw [← h.holds_iff, Scheduler.Holds, hc]
      simp [Ne.symm hj]
  · intro j s' hj hr'
    by_cases hij : i = j
    · rw [hij]
      rfl
    · have hcj := h.current_of_running j s' ((EnvMap.set_of_ne hij).symm.trans hj) hr'
      rw [hc] at hcj
      cases hcj

theorem advance (h : r.Coherent) (hc : r.scheduler.current = none) : r.advance.Coherent := by
  unfold Roster.advance
  split
  · exact h
  next i rest hq =>
    rw [← h.proper.setCurrent_head hq]
    exact h.take hc (by rw [hq]; exact List.mem_cons_self)

theorem yield (h : r.Coherent) (hc : r.scheduler.current = some c) : (r.yield c).Coherent := by
  obtain ⟨s, hs, -⟩ := h.current hc
  unfold Roster.yield
  rw [Roster.setStatus_eq hs]
  have hr := h.release (s := { s with status := .runnable }) hc rfl
  exact hr.advance rfl

theorem run (h : r.Coherent) (hc : r.scheduler.current = some i) : (r.setStatus i .running).Coherent := by
  obtain ⟨s, hs, hr⟩ := h.current hc
  rw [Roster.setStatus_eq hs]
  constructor
  · exact h.proper
  · intro j
    refine (h.holds_iff j).trans ?_
    by_cases hj : i = j
    · subst hj
      constructor
      · intro _
        exact ⟨{ s with status := .running }, EnvMap.set_self, rfl⟩
      · intro _
        exact ⟨s, hs, hr⟩
    · simp only [Roster.set, EnvMap.set_of_ne hj]
  · intro j s' hj hr'
    by_cases hij : i = j
    · rw [← hij]
      exact hc
    · exact h.current_of_running j s' ((EnvMap.set_of_ne hij).symm.trans hj) hr'

theorem dispatch (h : r.Coherent) (hi : r.stances i = some s) (hs : s.status.isRunnable) : (r.dispatch i).Coherent := by
  unfold Roster.dispatch
  split
  next hc => exact h.run hc
  next hc =>
    obtain ⟨hp, hcp⟩ := h.preempt
    have hheld : r.preempt.scheduler.Holds i := by
      refine holds_preempt.2 ?_
      exact (h.holds_iff i).2 ⟨s, hi, hs⟩
    rcases hheld with hq | hn
    · exact hp.take hcp hq
    · rw [hcp] at hn
      cases hn

end Coherent
end Roster

namespace Kernel

variable {k : Kernel} {event : Event} {r : Roster} {i j : EnvId} {e : Env}

/-- **Every move keeps the scheduler and the statuses in step**, if the program that makes it holds the processor. -/
theorem Moves.coherent (hm : k.Moves event r) (h : k.roster.Coherent) (ha : k.Admits event) : r.Coherent := by
  cases hm with
  | rested => exact h
  | made hn => exact h.set hn rfl
  | started => exact h.enlist _ rfl
  | ended =>
    apply h.dismiss
    intro s hs
    cases hs
  | allowed => exact h.enlist _ rfl
  | stopped =>
    apply h.dismiss
    intro s hs
    cases hs
    rfl
  | yielded he =>
    subst he
    exact h.yield ha
  | sent => exact h.enlist _ rfl
  | awaited =>
    apply h.dismiss
    intro s hs
    cases hs
    rfl
  | scheduled =>
    obtain ⟨hp, hc⟩ := h.preempt
    exact hp.advance hc
  | dispatched hi hs => exact h.dispatch hi hs

theorem coherent_of_boot {c : Config} (h : boot c = .ok k) : k.roster.Coherent := by
  obtain ⟨hsch, hnone⟩ := boot_empty h
  have hr : k.roster = ⟨{}, fun _ => none⟩ := by
    unfold roster
    simp only [hsch, hnone, Option.map_none]
  rw [hr]
  constructor
  · constructor
    · exact List.nodup_nil
    · intro i hi
      cases hi
  · intro i
    constructor
    · rintro (hi | hi) <;> cases hi
    · rintro ⟨s, hs, -⟩
      cases hs
  · intro i s hs
    cases hs

theorem Orderly.coherent_roster (h : k.Orderly) : k.roster.Coherent := by
  induction h with
  | boot h => exact coherent_of_boot h
  | step hk event ha ih => exact (hk.reachable.moves event).coherent ih ha

theorem holds_of_scheduleNext (h : k.scheduleNext.1 = some i) : k.scheduler.Holds i := by
  have hp : k.preempt.scheduler = k.roster.preempt.scheduler := congrArg Roster.scheduler (roster_preempt k)
  refine Roster.holds_preempt (r := k.roster).1 ?_
  rw [← hp]
  unfold scheduleNext Scheduler.scheduleNext at h
  dsimp only at h
  cases hq : k.preempt.scheduler.queue with
  | nil =>
    rw [hq] at h
    cases h
  | cons j rest =>
    rw [hq] at h
    cases h
    exact Or.inl (by rw [hq]; exact List.mem_cons_self)

/-- **The run queue, the holder of the processor and the statuses agree.** -/
structure Coherent (k : Kernel) : Prop where
  queue_nodup : k.scheduler.queue.Nodup
  current_not_queued (i : EnvId) (h : k.current = some i) : i ∉ k.scheduler.queue
  live (i : EnvId) (h : i ∈ k.scheduler.queue ∨ k.current = some i) : ∃ e, k.env? i = some e
  scheduled_iff (i : EnvId) (e : Env) (h : k.env? i = some e) :
    (i ∈ k.scheduler.queue ∨ k.current = some i) ↔ (e.status = .runnable ∨ e.status = .running)
  current_of_running (i : EnvId) (e : Env) (h : k.env? i = some e) (hr : e.status = .running) : k.current = some i
  running_unique (i j : EnvId) (e e' : Env) (hi : k.env? i = some e) (hj : k.env? j = some e') (he : e.status = .running)
    (he' : e'.status = .running) : i = j
  /-- Who is given the processor next may run. -/
  next_runnable (i : EnvId) (h : k.scheduleNext.1 = some i) :
    ∃ e, k.env? i = some e ∧ (e.status = .runnable ∨ e.status = .running)

theorem coherent_of_roster (h : k.roster.Coherent) : k.Coherent := by
  have hcurrent (i : EnvId) (e : Env) (he : k.env? i = some e) (hr : e.status = .running) : k.current = some i :=
    h.current_of_running i e.stance (stances_of_env? he) hr
  constructor
  · exact h.proper.nodup
  · exact h.proper.not_queued
  · intro i hi
    obtain ⟨s, hs, -⟩ := (h.holds_iff i).1 hi
    obtain ⟨e, he, -⟩ := env?_of_stances hs
    exact ⟨e, he⟩
  · intro i e he
    rw [← EnvStatus.isRunnable_iff]
    refine (h.holds_iff i).trans ?_
    rw [stances_of_env? he]
    constructor
    · rintro ⟨s, hs, hr⟩
      cases hs
      exact hr
    · intro hr
      exact ⟨e.stance, rfl, hr⟩
  · exact hcurrent
  · intro i j e e' hi hj he he'
    have hc := hcurrent i e hi he
    rw [hcurrent j e' hj he'] at hc
    exact (Option.some.inj hc).symm
  · intro i hi
    obtain ⟨s, hs, hr⟩ := (h.holds_iff i).1 (holds_of_scheduleNext hi)
    obtain ⟨e, he, rfl⟩ := env?_of_stances hs
    exact ⟨e, he, EnvStatus.isRunnable_iff.1 hr⟩

/-- **The scheduler and the statuses stay coherent**, as long as every program waits for its turn. -/
theorem statuses_coherent (h : k.Orderly) : k.Coherent := coherent_of_roster h.coherent_roster

/-- One program has given the processor to another. -/
theorem statuses_coherent_yielded : ∃ k : Kernel, k.Orderly ∧ k.current = some ⟨4097⟩ ∧ k.scheduler.queue = [⟨4096⟩] ∧
    k.Coherent := by
  let k := ((((ofConfig ⟨8, 2⟩).log (.booted ⟨8, 2⟩)).step (.spawn {})).step (.spawn {})).step .scheduleNext
  let yield : Event := .perform ⟨4096⟩ (.ecall 10 (Vector.replicate 5 0))
  have hk : k.Orderly :=
    .step (.step (.step (.boot (c := ⟨8, 2⟩) rfl) (.spawn {}) trivial) (.spawn {}) trivial) .scheduleNext trivial
  have hy : (k.step yield).Orderly := .step hk yield (show k.current = some ⟨4096⟩ by decide +kernel)
  exact ⟨k.step yield, hy, by decide +kernel, by decide +kernel, statuses_coherent hy⟩

end Kernel

/-! ## Who waits for a message -/

namespace Roster

/-- **An environment is stopped if it waits for a message.** -/
def Blocked (r : Roster) (i : EnvId) : Prop := ∀ s, r.stances i = some s → s.mailbox.receiving → s.status = .notRunnable

namespace Blocked

variable {r : Roster} {i j c : EnvId} {s : Stance} {o : Option Stance} {sch : Scheduler}

theorem set (h : r.Blocked i) (j : EnvId)
    (ho : j = i → ∀ s, o = some s → s.mailbox.receiving → s.status = .notRunnable) :
    Blocked ⟨sch, r.stances.set j o⟩ i := by
  intro s hs hr
  by_cases hj : j = i
  · subst hj
    exact ho rfl s (EnvMap.set_self.symm.trans hs) hr
  · exact h s ((EnvMap.set_of_ne hj).symm.trans hs) hr

/-- Whom the scheduler knows of does not wait for a message. -/
theorem not_receiving (h : r.Blocked i) (hi : r.stances i = some s) (hs : s.status.isRunnable) :
    ¬ s.mailbox.receiving := by
  intro hr
  rw [h s hi hr] at hs
  cases hs

theorem setStatus (h : r.Blocked i) (hc : r.Coherent) (hj : r.scheduler.Holds j) (status : EnvStatus) :
    Blocked ⟨sch, (r.setStatus j status).stances⟩ i := by
  obtain ⟨s, hs, hr⟩ := (hc.holds_iff j).1 hj
  rw [Roster.setStatus_eq hs]
  apply h.set
  rintro rfl s' hs' hr'
  cases hs'
  exact (h.not_receiving hs hr hr').elim

theorem preempt (h : r.Blocked i) (hc : r.Coherent) : r.preempt.Blocked i := by
  unfold Roster.preempt
  split
  · exact h
  next j hj =>
    obtain ⟨s, hs, hr⟩ := hc.current hj
    rw [EnvMap.modify_of_eq_some hs]
    apply h.set
    rintro rfl s' hs' hr'
    cases hs'
    split at hr' <;> exact (h.not_receiving hs hr hr').elim

theorem advance (h : r.Blocked i) (hc : r.Coherent) : r.advance.Blocked i := by
  unfold Roster.advance
  split
  · exact h
  next j rest hq => exact h.setStatus hc (Or.inl (by rw [hq]; exact List.mem_cons_self)) .running

theorem yield (h : r.Blocked i) (hc : r.Coherent) (hcur : r.scheduler.current = some c) : (r.yield c).Blocked i := by
  have hb : Blocked ⟨r.scheduler.yieldCurrent, (r.setStatus c .runnable).stances⟩ i :=
    h.setStatus hc (Or.inr hcur) .runnable
  obtain ⟨s, hs, -⟩ := hc.current hcur
  refine hb.advance ?_
  rw [Roster.setStatus_eq hs]
  exact hc.release hcur rfl

theorem dispatch (h : r.Blocked i) (hc : r.Coherent) (hj : r.stances j = some s) (hs : s.status.isRunnable) :
    (r.dispatch j).Blocked i := by
  have hheld : r.scheduler.Holds j := (hc.holds_iff j).2 ⟨s, hj, hs⟩
  unfold Roster.dispatch
  split
  · exact h.setStatus hc hheld .running
  · exact (h.preempt hc).setStatus hc.preempt.1 (Roster.holds_preempt.2 hheld) .running

end Blocked
end Roster

namespace Kernel

variable {k : Kernel} {event : Event} {r : Roster} {i : EnvId} {e : Env}

/-- **The states in which nobody has let an environment run since it began to wait for a message**, if it waits for one,
and every program has waited for its turn. -/
inductive Patient (i : EnvId) : Kernel → Prop where
  | idle {k : Kernel} (h : k.Orderly) (hn : ∀ e, k.env? i = some e → ¬ e.mailbox.receiving) : Patient i k
  | step {k : Kernel} (h : Patient i k) (event : Event) (ha : k.Admits event) (hl : ¬ k.Lets event i) :
      Patient i (k.step event)

theorem Patient.orderly (h : Patient i k) : k.Orderly := by
  induction h with
  | idle h => exact h
  | step _ event ha _ ih => exact .step ih event ha

theorem Moves.blocked (hm : k.Moves event r) (hc : k.roster.Coherent) (h : k.roster.Blocked i) (ha : k.Admits event)
    (hl : ¬ k.Lets event i) : r.Blocked i := by
  cases hm with
  | rested => exact h
  | made =>
    apply h.set
    intro _ s hs _
    cases hs
    rfl
  | started =>
    apply h.set
    intro _ s hs hr
    cases hs
    cases hr
  | ended =>
    apply h.set
    intro _ s hs
    cases hs
  | allowed he =>
    apply h.set
    rintro rfl
    exact absurd he hl
  | stopped =>
    apply h.set
    intro _ s hs _
    cases hs
    rfl
  | yielded he =>
    subst he
    exact h.yield hc ha
  | sent =>
    apply h.set
    intro _ s hs hr
    cases hs
    cases hr
  | awaited =>
    apply h.set
    intro _ s hs _
    cases hs
    rfl
  | scheduled => exact (h.preempt hc).advance hc.preempt.1
  | dispatched hs hr => exact h.dispatch hc hs hr

theorem Patient.blocked_roster (h : Patient i k) : k.roster.Blocked i := by
  induction h with
  | idle _ hn =>
    intro s hs hr
    obtain ⟨e, he, rfl⟩ := env?_of_stances hs
    exact absurd hr (hn e he)
  | step hk event ha hl ih =>
    exact (hk.orderly.reachable.moves event).blocked hk.orderly.coherent_roster ih ha hl

/-- **Who waits for a message does not run**, as long as nobody who may has it run. -/
theorem receivers_blocked (h : Patient i k) (he : k.env? i = some e) (hr : e.mailbox.receiving) :
    e.status = .notRunnable ∧ i ∉ k.scheduler.queue ∧ k.current ≠ some i := by
  have hs : e.status = .notRunnable := h.blocked_roster e.stance (stances_of_env? he) hr
  have hn : ¬ k.scheduler.Holds i := by
    intro hi
    have hc := coherent_of_roster h.orderly.coherent_roster
    rcases (hc.scheduled_iff i e he).1 hi with hs' | hs' <;> rw [hs] at hs' <;> cases hs'
  exact ⟨hs, fun hq => hn (Or.inl hq), fun hc => hn (Or.inr hc)⟩

/-- A program waits for a message, and another that may not have it run asks for that. -/
theorem receivers_blocked_waiting : ∃ (k : Kernel) (event : Event) (e : Env), event.Allows ⟨4096⟩ ∧
    Patient ⟨4096⟩ (k.step event) ∧ (k.step event).env? ⟨4096⟩ = some e ∧ e.mailbox.receiving ∧
    e.status = .notRunnable ∧ ⟨4096⟩ ∉ (k.step event).scheduler.queue ∧ (k.step event).current ≠ some ⟨4096⟩ := by
  let k₁ := ((((ofConfig ⟨8, 2⟩).log (.booted ⟨8, 2⟩)).step (.spawn {})).step (.spawn {})).step .scheduleNext
  let k₂ := k₁.step (.perform ⟨4096⟩ (.ecall 12 (Vector.replicate 5 0)))
  let k := k₂.step .scheduleNext
  let event : Event := .perform ⟨4097⟩ (.ecall 7 #v[4096, 2, 0, 0, 0])
  have h₁ : k₁.Orderly :=
    .step (.step (.step (.boot (c := ⟨8, 2⟩) rfl) (.spawn {}) trivial) (.spawn {}) trivial) .scheduleNext trivial
  have hidle : ∀ e, k₁.env? ⟨4096⟩ = some e → ¬ e.mailbox.receiving := by
    have hw : (k₁.env? ⟨4096⟩).map (fun e => e.mailbox.receiving) = some false := by decide +kernel
    intro e he
    rw [he] at hw
    rw [show e.mailbox.receiving = false from Option.some.inj hw]
    exact Bool.false_ne_true
  have h₂ : Patient ⟨4096⟩ k₂ :=
    .step (.idle h₁ hidle) _ (show k₁.current = some ⟨4096⟩ by decide +kernel) fun hl =>
      absurd hl.2 (by decide +kernel)
  have h : Patient ⟨4096⟩ k := .step h₂ .scheduleNext trivial fun hl => absurd hl.2 (by decide +kernel)
  have hasked : Patient ⟨4096⟩ (k.step event) :=
    .step h event (show k.current = some ⟨4097⟩ by decide +kernel) fun hl => absurd hl.2 (by decide +kernel)
  have hw : ((k.step event).env? ⟨4096⟩).map (fun e => e.mailbox.receiving) = some true := by decide +kernel
  obtain ⟨e, he, hrec⟩ := Option.map_eq_some_iff.1 hw
  exact ⟨k, event, e, ⟨_, _, _, ⟨_, rfl, rfl⟩, rfl, rfl, rfl⟩, hasked, he, hrec, receivers_blocked hasked he hrec⟩

/-- **A program can tell a child to run that waits for a message**: the child is in the queue, and still waits. -/
theorem receiver_told_to_run : ∃ (k : Kernel) (e : Env), k.Orderly ∧ k.env? ⟨4097⟩ = some e ∧ e.mailbox.receiving ∧
    e.status = .runnable ∧ ⟨4097⟩ ∈ k.scheduler.queue := by
  let setRunnable : CpuOp := .ecall 7 #v[4097, 2, 0, 0, 0]
  -- the parent makes a child and lets it run; the child waits; the parent lets it run once more
  let k₁ := (((ofConfig ⟨8, 2⟩).log (.booted ⟨8, 2⟩)).step (.spawn {})).step .scheduleNext
  let k₂ := k₁.step (.perform ⟨4096⟩ (.ecall 6 (Vector.replicate 5 0)))
  let k₃ := k₂.step (.perform ⟨4096⟩ setRunnable)
  let k₄ := k₃.step (.perform ⟨4096⟩ (.ecall 10 (Vector.replicate 5 0)))
  let recv : Event := .perform ⟨4097⟩ (.ecall 12 (Vector.replicate 5 0))
  let k₅ := (k₄.step recv).step .scheduleNext
  let k := k₅.step (.perform ⟨4096⟩ setRunnable)
  have h₁ : k₁.Orderly := .step (.step (.boot (c := ⟨8, 2⟩) rfl) (.spawn {}) trivial) .scheduleNext trivial
  have h₂ : k₂.Orderly := .step h₁ _ (show k₁.current = some ⟨4096⟩ by decide +kernel)
  have h₃ : k₃.Orderly := .step h₂ _ (show k₂.current = some ⟨4096⟩ by decide +kernel)
  have h₄ : k₄.Orderly := .step h₃ _ (show k₃.current = some ⟨4096⟩ by decide +kernel)
  have h₅ : k₅.Orderly :=
    .step (.step h₄ recv (show k₄.current = some ⟨4097⟩ by decide +kernel)) .scheduleNext trivial
  have h : k.Orderly := .step h₅ _ (show k₅.current = some ⟨4096⟩ by decide +kernel)
  obtain ⟨e, he⟩ : ∃ e, k.env? ⟨4097⟩ = some e := Option.isSome_iff_exists.1 (by decide +kernel)
  have hw : (k.env? ⟨4097⟩).map (fun e => (e.mailbox.receiving, e.status)) = some (true, .runnable) := by
    decide +kernel
  rw [he, Option.map_some] at hw
  obtain ⟨hrec, hst⟩ := Prod.mk.inj (Option.some.inj hw)
  exact ⟨k, e, h, he, hrec, hst, by decide +kernel⟩

end Kernel
end Exokernel
