import Mathlib.Data.List.Nodup
import Mathlib.Tactic.Tauto
import Exokernel.Scheduler
/-!
# The run queue

Whom the scheduler knows of after each of its operations, and that it knows of nobody twice: no environment waits in the
queue at two places, or while it holds the processor.
-/
namespace Exokernel

/-- The scheduler knows of the environment. -/
def Scheduler.Holds (s : Scheduler) (i : EnvId) : Prop := i ∈ s.queue ∨ s.current = some i

namespace Scheduler

variable {s : Scheduler} {i j : EnvId} {rest : List EnvId}

/-! ## Whom it knows of -/

theorem current_enqueue : (s.enqueue i).current = s.current := by
  unfold enqueue
  split <;> rfl

theorem holds_enqueue : (s.enqueue i).Holds j ↔ s.Holds j ∨ j = i := by
  unfold enqueue
  split
  next h =>
    refine ⟨Or.inl, fun hj => ?_⟩
    rcases hj with hj | rfl
    · exact hj
    · exact h.symm
  next h =>
    simp only [Holds, List.mem_append, List.mem_singleton]
    tauto

theorem holds_remove : (s.remove i).Holds j ↔ s.Holds j ∧ j ≠ i := by
  simp only [Holds, remove, List.mem_filter, bne_iff_ne, Option.filter_eq_some_iff]
  tauto

theorem holds_yieldCurrent : s.yieldCurrent.Holds j ↔ s.Holds j := by
  simp [Holds, yieldCurrent, Option.mem_toList]

theorem holds_setCurrent : (s.setCurrent (some i)).Holds j ↔ j ∈ s.queue ∨ j = i := by
  simp only [Holds, setCurrent, List.mem_filter, bne_iff_ne, Option.some.injEq]
  constructor
  · rintro (⟨h, -⟩ | rfl)
    · exact Or.inl h
    · exact Or.inr rfl
  · rintro (h | rfl)
    · by_cases hj : j = i
      · exact Or.inr hj.symm
      · exact Or.inl ⟨h, hj⟩
    · exact Or.inr rfl

theorem holds_of_queue_eq (hq : s.queue = i :: rest) (h : Holds { queue := rest, current := some i } j) :
    s.Holds j := by
  rcases h with h | h
  · exact Or.inl (by rw [hq]; exact List.mem_cons_of_mem _ h)
  · cases h; exact Or.inl (by rw [hq]; exact List.mem_cons_self)

/-- **Who is not there need not be removed.** -/
theorem remove_eq_self (h : ¬ s.Holds i) : s.remove i = s := by
  obtain ⟨queue, current⟩ := s
  simp only [Holds, not_or] at h
  obtain ⟨hq, hc⟩ := h
  have hqueue : queue.filter (· != i) = queue := by
    apply List.filter_eq_self.2
    intro j hj
    rw [bne_iff_ne]
    rintro rfl
    exact hq hj
  have hcurrent : current.filter (· != i) = current := by
    cases current with
    | none => rfl
    | some j => rw [Option.filter_some, if_pos (by simpa using hc)]
  rw [remove, hqueue, hcurrent]

/-! ## Nobody twice -/

/-- **The queue has no duplicates and does not contain the holder of the processor.** -/
structure Proper (s : Scheduler) : Prop where
  nodup : s.queue.Nodup
  not_queued (i : EnvId) (h : s.current = some i) : i ∉ s.queue

namespace Proper

theorem enqueue (h : s.Proper) (i : EnvId) : (s.enqueue i).Proper := by
  unfold Scheduler.enqueue
  split
  · exact h
  next hi =>
    rw [not_or] at hi
    obtain ⟨hc, hq⟩ := hi
    constructor
    · apply List.nodup_append.2
      refine ⟨h.nodup, List.nodup_singleton i, ?_⟩
      rintro j hj k hk rfl
      rw [List.mem_singleton] at hk
      subst hk
      exact hq hj
    · intro j hj hm
      rcases List.mem_append.1 hm with hm | hm
      · exact h.not_queued j hj hm
      · rw [List.mem_singleton] at hm
        subst hm
        exact hc hj

theorem remove (h : s.Proper) (i : EnvId) : (s.remove i).Proper := by
  constructor
  · exact h.nodup.filter _
  · intro j hj hm
    exact h.not_queued j (Option.filter_eq_some_iff.1 hj).1 (List.mem_filter.1 hm).1

theorem setCurrent (h : s.Proper) (i : EnvId) : (s.setCurrent (some i)).Proper := by
  constructor
  · exact h.nodup.filter _
  · rintro j hj hm
    cases hj
    simpa using (List.mem_filter.1 hm).2

theorem yieldCurrent (h : s.Proper) : s.yieldCurrent.Proper := by
  constructor
  · apply List.nodup_append.2
    refine ⟨h.nodup, ?_, ?_⟩
    · cases s.current <;> simp
    · rintro i hi j hj rfl
      exact h.not_queued i (by simpa using hj) hi
  · intro i hi
    cases hi

/-- The first in the queue is taken out of it by being given the processor. -/
theorem setCurrent_head (h : s.Proper) (hq : s.queue = i :: rest) :
    s.setCurrent (some i) = { queue := rest, current := some i } := by
  have hn : i ∉ rest := by
    have := h.nodup
    rw [hq, List.nodup_cons] at this
    exact this.1
  have hf : rest.filter (· != i) = rest := by
    apply List.filter_eq_self.2
    intro j hj
    rw [bne_iff_ne]
    rintro rfl
    exact hn hj
  rw [Scheduler.setCurrent, hq, List.filter_cons_of_neg (by simp), hf]

end Proper
end Scheduler
end Exokernel
