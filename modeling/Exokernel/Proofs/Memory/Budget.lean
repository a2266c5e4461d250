import Exokernel.Memory.Pool
/-!
# The budget of a pool

A budget is there to make memory run out at a chosen allocation.  It is charged for every request that is not denied, so
it counts the frames that are handed out only as long as there are any: a request that finds none free takes the place of
one that would have been granted later (`budget_counts_requests`, `exhausted_request_costs`).
-/
namespace Exokernel
namespace Pool

/-- What is done with a pool and the frames that it has handed out. -/
inductive Op where
  | alloc
  | retain (n : Nat)
  | release (n : Nat)
  | write (n offset : Nat) (data : Bytes)

def apply (p : Pool) : Op → Pool
  | .alloc => p.alloc.2
  | .retain n => p.retain n
  | .release n => p.release n
  | .write n offset data => p.write n offset data

def run (p : Pool) (ops : List Op) : Pool := ops.foldl apply p

/-- The answer to an operation, if it is a request for a frame. -/
def answer (p : Pool) : Op → Option Grant
  | .alloc => some p.alloc.1
  | _ => none

/-- The answers to the requests of a run. -/
def answers : Pool → List Op → List Grant
  | _, [] => []
  | p, o :: ops => (p.answer o).toList ++ answers (p.apply o) ops

def Grant.isGranted : Grant → Bool
  | granted _ => true
  | _ => false

/-- How many requests of a run were granted. -/
def successes (p : Pool) (ops : List Op) : Nat := (p.answers ops).countP Grant.isGranted

/-- How many requests of a run found no frame free. -/
def exhaustions (p : Pool) (ops : List Op) : Nat := (p.answers ops).count .exhausted

/-- How many requests of a run were charged: those that were not denied. -/
def charged (p : Pool) (ops : List Op) : Nat := (p.answers ops).countP (· ≠ .denied)

variable {p : Pool} {b : Nat}

theorem charged_cons (p : Pool) (o : Op) (ops : List Op) :
    p.charged (o :: ops) = p.charged [o] + (p.apply o).charged ops := by
  simp only [charged, answers, List.append_nil, List.countP_append]

theorem charged_eq (p : Pool) (ops : List Op) : p.charged ops = p.successes ops + p.exhaustions ops := by
  unfold charged successes exhaustions
  induction p.answers ops with
  | nil => rfl
  | cons g gs ih =>
    rw [List.countP_cons, List.countP_cons, List.count_cons, ih]
    cases g with
    | granted n =>
      show _ + 1 = _ + 1 + (_ + 0)
      omega
    | denied => rfl
    | exhausted => rfl

/-- **A request under a budget**: it is denied, or charged, and then it depends on the free list. -/
theorem alloc_cases (h : p.budget = some b) :
    (b = 0 ∧ p.alloc = (.denied, p)) ∨
    (0 < b ∧ p.free = [] ∧ p.alloc = (.exhausted, { p with budget := some (b - 1) })) ∨
    ∃ n rest, 0 < b ∧ p.free = n :: rest ∧
      p.alloc = (.granted n, ⟨p.slots.setIfInBounds n { refs := 1 }, rest, some (b - 1)⟩) := by
  obtain ⟨slots, free, budget⟩ := p
  obtain rfl : budget = some b := h
  cases b with
  | zero => exact Or.inl ⟨rfl, rfl⟩
  | succ b =>
    right
    cases free with
    | nil => exact Or.inl ⟨b.succ_pos, rfl, rfl⟩
    | cons n rest => exact Or.inr ⟨n, rest, b.succ_pos, rfl, rfl⟩

/-- **What an operation is charged comes off the budget.** -/
theorem budget_apply (h : p.budget = some b) (o : Op) :
    p.charged [o] ≤ b ∧ (p.apply o).budget = some (b - p.charged [o]) := by
  have free (ho : p.answer o = none) (hb : (p.apply o).budget = p.budget) :
      p.charged [o] ≤ b ∧ (p.apply o).budget = some (b - p.charged [o]) := by
    have hc : p.charged [o] = 0 := by
      rw [charged, answers, ho]
      rfl
    rw [hc, hb, h]
    exact ⟨b.zero_le, rfl⟩
  cases o with
  | alloc =>
    rcases alloc_cases h with ⟨rfl, ha⟩ | ⟨hb, -, ha⟩ | ⟨n, rest, hb, -, ha⟩
    all_goals
      simp only [charged, answers, answer, apply, ha]
    · exact ⟨Nat.le_refl 0, h⟩
    · exact ⟨hb, rfl⟩
    · exact ⟨hb, rfl⟩
  | retain n => exact free rfl rfl
  | release n =>
    refine free rfl ?_
    show (p.release n).budget = p.budget
    unfold release
    split <;> rfl
  | write n offset data => exact free rfl rfl

/-- **What a run is charged comes off the budget**, and is never more than that. -/
theorem budget_run (h : p.budget = some b) (ops : List Op) :
    p.charged ops ≤ b ∧ (p.run ops).budget = some (b - p.charged ops) := by
  induction ops generalizing p b with
  | nil => exact ⟨b.zero_le, h⟩
  | cons o ops ih =>
    obtain ⟨ho, hb⟩ := budget_apply h o
    obtain ⟨hops, hrun⟩ := ih hb
    rw [charged_cons, ← Nat.sub_sub]
    exact ⟨by omega, hrun⟩

/-- **A budget counts requests.**  Whatever is done with a pool after it was given a budget, the next request is granted
just when a frame is free and the requests that were granted, together with those that found no frame free, are fewer than
the budget; it is denied just when they have used it up. -/
theorem budget_counts_requests (p : Pool) (n : Nat) (ops : List Op) :
    let p₀ := p.failAfter n
    let q := p₀.run ops
    ((∃ m, q.alloc.1 = .granted m) ↔
      q.free ≠ [] ∧ p₀.successes ops + p₀.exhaustions ops < min n budgetLimit) ∧
    (q.alloc.1 = .exhausted ↔ q.free = [] ∧ p₀.successes ops + p₀.exhaustions ops < min n budgetLimit) ∧
    (q.alloc.1 = .denied ↔ p₀.successes ops + p₀.exhaustions ops = min n budgetLimit) := by
  intro p₀ q
  obtain ⟨hle, hq⟩ := budget_run (p := p₀) rfl ops
  rw [← charged_eq]
  rcases alloc_cases hq with ⟨hb, ha⟩ | ⟨hb, hf, ha⟩ | ⟨m, rest, hb, hf, ha⟩
  · have hused : p₀.charged ops = min n budgetLimit := by omega
    have hlt : ¬ p₀.charged ops < min n budgetLimit := by omega
    simp [q, ha, hused]
  · have hlt : p₀.charged ops < min n budgetLimit := by omega
    have hused : p₀.charged ops ≠ min n budgetLimit := by omega
    simp [q, ha, hf, hlt, hused]
  · have hlt : p₀.charged ops < min n budgetLimit := by omega
    have hused : p₀.charged ops ≠ min n budgetLimit := by omega
    simp [q, ha, hf, hlt, hused]

/-- **A request that finds no frame free costs**: of a budget for two, one is granted and one finds none free, and the next
is denied although a frame is free. -/
theorem exhausted_request_costs : ∃ (p : Pool) (n : Nat) (ops : List Op),
    ((p.failAfter n).run ops).free ≠ [] ∧ (p.failAfter n).successes ops < n ∧
      ((p.failAfter n).run ops).alloc.1 = .denied :=
  ⟨ofSize 1, 2, [.alloc, .alloc, .release 0], by decide, by decide, by decide⟩

end Pool
end Exokernel
