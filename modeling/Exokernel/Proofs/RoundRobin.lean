import Mathlib.Data.List.Basic
import Exokernel.Proofs.Scheduler
/-!
# Round robin

Operations on the run queue delete anywhere, append at the end and take from the front, in any order.  None of them lets
an environment that waits be overtaken: its position never grows, every round takes one from it, and so whoever waits at
position `k` gets the processor within `k + 1` rounds, in exactly that many when nobody is taken out of the queue
(`Scheduler.round_robin`).
-/
namespace Exokernel
namespace Scheduler

/-- What a scheduler can be asked to do. -/
inductive Op where
  | enqueue (i : EnvId)
  | remove (i : EnvId)
  | setCurrent (c : Option EnvId)
  | yieldCurrent
  | scheduleNext
deriving DecidableEq

/-- Whom an operation takes out of the queue by name. -/
def Op.taken : Op → Option EnvId
  | .remove i => some i
  | .setCurrent c => c
  | _ => none

def apply (s : Scheduler) : Op → Scheduler
  | .enqueue i => s.enqueue i
  | .remove i => s.remove i
  | .setCurrent c => s.setCurrent c
  | .yieldCurrent => s.yieldCurrent
  | .scheduleNext => s.scheduleNext.2

/-- What a sequence of operations leaves. -/
def run (s : Scheduler) : List Op → Scheduler
  | [] => s
  | o :: ops => (s.apply o).run ops

/-- How often the next environment is picked. -/
def rounds (ops : List Op) : Nat := ops.count .scheduleNext

/-- How many wait before the environment. -/
def position (s : Scheduler) (i : EnvId) : Nat := s.queue.idxOf i

/-- A state that some sequence of operations on a new scheduler comes to. -/
def Reachable (s : Scheduler) : Prop := ∃ ops, run {} ops = s

variable {s : Scheduler} {i : EnvId} {o : Op} {ops : List Op}

theorem rounds_cons (o : Op) (ops : List Op) : rounds (o :: ops) = rounds [o] + rounds ops := by
  rw [rounds, rounds, rounds, Nat.add_comm, List.count_singleton, List.count_cons]

/-! ## Nobody twice -/

namespace Proper

theorem empty : Proper {} := ⟨List.nodup_nil, fun _ h => nomatch h⟩

theorem setNone (h : s.Proper) : (s.setCurrent none).Proper := ⟨h.nodup, fun _ hc => nomatch hc⟩

/-- Whoever gets the processor in a round was in the queue once, and is not there any more. -/
theorem scheduleNext (h : s.Proper) : s.scheduleNext.2.Proper := by
  unfold Scheduler.scheduleNext
  split
  · exact h
  next j rest hq =>
    have hnd := h.nodup
    rw [hq, List.nodup_cons] at hnd
    refine ⟨hnd.2, fun i hi => ?_⟩
    cases hi
    exact hnd.1

/-- **No operation puts anybody into the queue twice, or the holder of the processor into it.** -/
theorem apply (h : s.Proper) (o : Op) : (s.apply o).Proper := by
  cases o with
  | enqueue i => exact h.enqueue i
  | remove i => exact h.remove i
  | setCurrent c =>
    cases c with
    | none => exact h.setNone
    | some i => exact h.setCurrent i
  | yieldCurrent => exact h.yieldCurrent
  | scheduleNext => exact h.scheduleNext

theorem run (h : s.Proper) (ops : List Op) : (s.run ops).Proper := by
  induction ops generalizing s with
  | nil => exact h
  | cons o ops ih => exact ih (h.apply o)

end Proper

theorem Reachable.proper (h : s.Reachable) : s.Proper := by
  obtain ⟨ops, rfl⟩ := h
  exact Proper.empty.run ops

/-! ## One operation -/

theorem idxOf_filter_le {l : List EnvId} {p : EnvId → Bool} (hp : p i) (hi : i ∈ l) :
    (l.filter p).idxOf i ≤ l.idxOf i := by
  induction l with
  | nil => cases hi
  | cons j l ih =>
    by_cases hj : j = i
    · subst hj
      rw [List.filter_cons_of_pos hp, List.idxOf_cons_self]
      exact Nat.zero_le _
    · have hl := ih ((List.mem_cons.1 hi).resolve_left (Ne.symm hj))
      rw [List.idxOf_cons_ne _ hj]
      cases hpj : p j with
      | true =>
        rw [List.filter_cons_of_pos hpj, List.idxOf_cons_ne _ hj]
        omega
      | false =>
        rw [List.filter_cons_of_neg (by rw [hpj]; decide)]
        omega

/-- **What an operation does to one who waits**: the waiting goes on, and a round, if it is one, comes off the position;
an operation that takes somebody out by name can only shorten the way. -/
structure Nearer (s : Scheduler) (o : Op) (i : EnvId) : Prop where
  queued : i ∈ (s.apply o).queue
  nearer : (s.apply o).position i + rounds [o] ≤ s.position i
  exact (h : o.taken = none) : (s.apply o).position i + rounds [o] = s.position i

/-- Who joins the end of the queue passes nobody. -/
theorem nearer_of_append {b : List EnvId} (hi : i ∈ s.queue) (ho : rounds [o] = 0)
    (hq : (s.apply o).queue = s.queue ++ b) : s.Nearer o i := by
  have hp : (s.apply o).position i = s.position i := by
    rw [position, hq, List.idxOf_append_of_mem hi, position]
  refine ⟨?_, ?_, fun _ => ?_⟩
  · rw [hq]
    exact List.mem_append_left _ hi
  · rw [hp, ho]
    exact Nat.le_refl _
  · rw [hp, ho, Nat.add_zero]

/-- Who is taken out by name was before the environment or behind it. -/
theorem nearer_of_filter {j : EnvId} (hi : i ∈ s.queue) (ho : rounds [o] = 0) (hj : o.taken = some j) (hne : j ≠ i)
    (hq : (s.apply o).queue = s.queue.filter (· != j)) : s.Nearer o i := by
  have hp : (i != j) = true := bne_iff_ne.2 (Ne.symm hne)
  refine ⟨?_, ?_, fun h => ?_⟩
  · rw [hq]
    exact List.mem_filter.2 ⟨hi, hp⟩
  · rw [position, hq, ho, Nat.add_zero, position]
    exact idxOf_filter_le hp hi
  · rw [hj] at h
    cases h

/-- **A round gives the processor to the environment or brings it one place closer.** -/
theorem nearer_scheduleNext (hi : i ∈ s.queue) : s.scheduleNext.1 = some i ∨ s.Nearer .scheduleNext i := by
  obtain ⟨queue, current⟩ := s
  cases queue with
  | nil => cases hi
  | cons j rest =>
    by_cases hj : j = i
    · subst hj
      exact Or.inl rfl
    · right
      have hr : i ∈ rest := (List.mem_cons.1 hi).resolve_left (Ne.symm hj)
      have hp : rest.idxOf i + 1 = (j :: rest).idxOf i := by rw [List.idxOf_cons_ne _ hj]
      exact ⟨hr, Nat.le_of_eq hp, fun _ => hp⟩

theorem nearer_of_apply (hi : i ∈ s.queue) (ho : o.taken ≠ some i) :
    (o = .scheduleNext ∧ s.scheduleNext.1 = some i) ∨ s.Nearer o i := by
  cases o with
  | enqueue j =>
    right
    by_cases h : s.current = some j ∨ j ∈ s.queue
    · exact nearer_of_append (b := []) hi rfl (by rw [apply, enqueue, if_pos h, List.append_nil])
    · exact nearer_of_append hi rfl (by rw [apply, enqueue, if_neg h])
  | remove j =>
    right
    exact nearer_of_filter hi rfl rfl (fun h => ho (congrArg some h)) rfl
  | setCurrent c =>
    right
    cases c with
    | none => exact nearer_of_append (b := []) hi rfl (by rw [apply, setCurrent, List.append_nil])
    | some j => exact nearer_of_filter hi rfl rfl (fun h => ho (congrArg some h)) rfl
  | yieldCurrent =>
    right
    exact nearer_of_append hi rfl rfl
  | scheduleNext =>
    rcases nearer_scheduleNext hi with h | h
    · exact Or.inl ⟨rfl, h⟩
    · exact Or.inr h

/-- Whoever gets the processor in a round does not wait any more. -/
theorem scheduleNext_ne_some (hs : s.Proper) (hq : i ∈ s.scheduleNext.2.queue) : s.scheduleNext.1 ≠ some i := by
  obtain ⟨queue, current⟩ := s
  cases queue with
  | nil => cases hq
  | cons j rest =>
    intro h
    cases h
    exact (List.nodup_cons.1 hs.nodup).1 hq

/-- Whom an operation takes out of the queue by name does not wait any more. -/
theorem taken_ne_some (hq : i ∈ (s.apply o).queue) : o.taken ≠ some i := by
  intro ho
  cases o with
  | remove j =>
    cases ho
    simpa using (List.mem_filter.1 hq).2
  | setCurrent c =>
    cases ho
    simpa using (List.mem_filter.1 hq).2
  | enqueue j => cases ho
  | yieldCurrent => cases ho
  | scheduleNext => cases ho

/-- **Nobody who goes on waiting is overtaken.** -/
theorem position_apply_le (hs : s.Proper) (hi : i ∈ s.queue) (hq : i ∈ (s.apply o).queue) :
    (s.apply o).position i ≤ s.position i := by
  rcases nearer_of_apply hi (taken_ne_some hq) with ⟨rfl, hd⟩ | h
  · exact absurd hd (scheduleNext_ne_some hs hq)
  · have := h.nearer
    omega

/-! ## A run of operations -/

theorem run_append (ops later : List Op) : s.run (ops ++ later) = (s.run ops).run later := by
  induction ops generalizing s with
  | nil => rfl
  | cons o ops ih => exact ih

/-- **The round after these operations is the environment's**, who waits until then: at most as many rounds come before
as there were others in front of it, and just as many if nobody is taken out of the queue by name. -/
structure Served (s : Scheduler) (i : EnvId) (before : List Op) : Prop where
  dispatched : (s.run before).scheduleNext.1 = some i
  waits (done later : List Op) (h : before = done ++ later) : i ∈ (s.run done).queue
  bound : rounds before ≤ s.position i
  exact (h : ∀ o ∈ before, o.taken = none) : rounds before = s.position i

/-- No round before has been the environment's. -/
theorem Served.first {before done later : List Op} (h : s.Served i before) (hs : s.Proper)
    (hb : before = done ++ .scheduleNext :: later) : (s.run done).scheduleNext.1 ≠ some i := by
  apply scheduleNext_ne_some (hs.run done)
  have hw := h.waits (done ++ [.scheduleNext]) later (by rw [hb, List.append_assoc, List.singleton_append])
  rwa [run_append] at hw

/-- One more operation in front, which brings the environment nearer. -/
theorem Served.cons {before : List Op} (h : (s.apply o).Served i before) (hi : i ∈ s.queue) (hn : s.Nearer o i) :
    s.Served i (o :: before) where
  dispatched := h.dispatched
  waits done later hb := by
    cases done with
    | nil => exact hi
    | cons d done =>
      rw [List.cons_append, List.cons.injEq] at hb
      obtain ⟨rfl, hb⟩ := hb
      exact h.waits done later hb
  bound := by
    have hr := rounds_cons o before
    have hb := h.bound
    have hp := hn.nearer
    omega
  exact ho := by
    have hr := rounds_cons o before
    have hb := h.exact fun o' ho' => ho o' (List.mem_cons_of_mem _ ho')
    have hp := hn.exact (ho o List.mem_cons_self)
    omega

/-- **A run with more rounds than there are others in front serves the environment.**  By induction on the run: an
operation is the round that serves, or leaves it nearer by as many places as it counts rounds. -/
theorem served_of_rounds (hi : i ∈ s.queue) (hops : ∀ o ∈ ops, o.taken ≠ some i) (hk : s.position i < rounds ops) :
    ∃ before after, ops = before ++ .scheduleNext :: after ∧ s.Served i before := by
  induction ops generalizing s with
  | nil => exact absurd hk (Nat.not_lt_zero _)
  | cons o ops ih =>
    rcases nearer_of_apply hi (hops o List.mem_cons_self) with ⟨rfl, hd⟩ | hn
    · have hp : s.position i = 0 := by
        obtain ⟨queue, current⟩ := s
        cases queue with
        | nil => cases hi
        | cons j rest =>
          cases hd
          exact List.idxOf_cons_self
      refine ⟨[], ops, rfl, hd, fun done later hb => ?_, Nat.zero_le _, fun _ => hp.symm⟩
      obtain ⟨rfl, -⟩ := List.append_eq_nil_iff.1 hb.symm
      exact hi
    · have hr := rounds_cons o ops
      have hn' := hn.nearer
      obtain ⟨before, after, rfl, h⟩ :=
        ih hn.queued (fun o' ho' => hops o' (List.mem_cons_of_mem _ ho')) (by omega)
      exact ⟨o :: before, after, rfl, h.cons hi hn⟩

/-! ## Nobody starves -/

/-- **Round robin.**  However the operations have been mixed: the queue has no duplicates and does not hold the current
environment; the position of one who goes on waiting does not grow under any operation, and a round serves it or takes
exactly one from its position.  So in a run that does not take it out of the queue by name, whoever waits at position
`k` is served by the first `k + 1` rounds, and by none but the last of them if nobody else is taken out either. -/
theorem round_robin (s : Scheduler) (hs : s.Reachable) :
    s.queue.Nodup ∧ (∀ i, s.current = some i → i ∉ s.queue) ∧
    ∀ i ∈ s.queue,
      (∀ o, i ∈ (s.apply o).queue → (s.apply o).position i ≤ s.position i) ∧
      (s.scheduleNext.1 = some i ∨
        (i ∈ s.scheduleNext.2.queue ∧ s.scheduleNext.2.position i + 1 = s.position i)) ∧
      ∀ ops : List Op, (∀ o ∈ ops, o.taken ≠ some i) → s.position i < rounds ops →
        ∃ before after, ops = before ++ .scheduleNext :: after ∧
          (s.run before).scheduleNext.1 = some i ∧
          (∀ done later, before = done ++ later → i ∈ (s.run done).queue) ∧
          (∀ done later, before = done ++ .scheduleNext :: later → (s.run done).scheduleNext.1 ≠ some i) ∧
          rounds before ≤ s.position i ∧
          ((∀ o ∈ before, o.taken = none) → rounds before = s.position i) := by
  refine ⟨hs.proper.nodup, hs.proper.not_queued, fun i hi => ⟨?_, ?_, ?_⟩⟩
  · intro o hq
    exact position_apply_le hs.proper hi hq
  · rcases nearer_scheduleNext hi with h | h
    · exact Or.inl h
    · exact Or.inr ⟨h.queued, h.exact rfl⟩
  · intro ops hops hk
    obtain ⟨before, after, hb, h⟩ := served_of_rounds hi hops hk
    exact ⟨before, after, hb, h.dispatched, h.waits, fun _ _ => h.first hs.proper, h.bound, h.exact⟩

/-- Three wait, the second is removed and a fourth joins: the third, at position two, is served by the second round. -/
theorem round_robin_of_three :
    let s := run {} [.enqueue ⟨1⟩, .enqueue ⟨2⟩, .enqueue ⟨3⟩]
    let ops : List Op := [.scheduleNext, .yieldCurrent, .remove ⟨2⟩, .enqueue ⟨4⟩, .scheduleNext, .scheduleNext]
    s.queue.Nodup ∧ s.position ⟨3⟩ = 2 ∧
      ∃ before after, ops = before ++ .scheduleNext :: after ∧ (s.run before).scheduleNext.1 = some ⟨3⟩ ∧
        rounds before ≤ 2 := by
  intro s ops
  obtain ⟨hnd, -, h⟩ := round_robin s ⟨_, rfl⟩
  have hp : s.position ⟨3⟩ = 2 := by decide
  obtain ⟨-, -, hr⟩ := h ⟨3⟩ (by decide)
  obtain ⟨before, after, hb, hd, -, -, hn, -⟩ := hr ops (by decide) (by decide)
  exact ⟨hnd, hp, before, after, hb, hd, hp ▸ hn⟩

end Scheduler
end Exokernel
