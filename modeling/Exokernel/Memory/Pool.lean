import Exokernel.Memory.Page
/-!
# Pools of frames

A pool holds a fixed number of frames.  Each has a reference count and a page; the frames with count zero are on the
free list, and the one freed last is handed out first.  A pool may have a budget, after which it denies every further
allocation: it serves to make memory run out at a chosen point.
-/
namespace Exokernel

structure Slot where
  /-- The number of holders. -/
  refs : Nat := 0
  page : Page := Page.zero
deriving Inhabited

/-- A fixed set of frames. -/
structure Pool where
  slots : Array Slot
  /-- The frames that nobody holds, the next one to hand out first. -/
  free : List Nat
  /-- The number of requests that are not denied yet; without a budget there is no limit. -/
  budget : Option Nat := none
deriving Inhabited

namespace Pool

/-- A pool whose frames are all free, to be handed out from zero on. -/
def ofSize (frames : Nat) : Pool := { slots := Array.replicate frames {}, free := List.range frames }

def capacity (p : Pool) : Nat := p.slots.size

def freeCount (p : Pool) : Nat := p.free.length

def usedCount (p : Pool) : Nat := p.capacity - p.freeCount

inductive Grant where
  | granted (number : Nat)
  /-- The budget is used up. -/
  | denied
  /-- No frame is free. -/
  | exhausted
deriving DecidableEq

/-- **A request for a frame**: the budget is charged first, then the free list is asked, so a request that finds no
free frame still costs. -/
def alloc (p : Pool) : Grant × Pool :=
  match p.budget with
  | some 0 => (.denied, p)
  | budget =>
    match p.free with
    | [] => (.exhausted, { p with budget := budget.map (· - 1) })
    | n :: rest =>
      (.granted n, ⟨p.slots.setIfInBounds n { refs := 1 }, rest, budget.map (· - 1)⟩)

def retain (p : Pool) (n : Nat) : Pool :=
  { p with slots := p.slots.modify n fun s => { s with refs := s.refs + 1 } }

/-- **One holder less**: the last one leaves the frame empty and on top of the free list. -/
def release (p : Pool) (n : Nat) : Pool :=
  if (p.slots[n]?.map Slot.refs) = some 1 then
    { p with slots := p.slots.setIfInBounds n {}, free := n :: p.free }
  else { p with slots := p.slots.modify n fun s => { s with refs := s.refs - 1 } }

def refs (p : Pool) (n : Nat) : Nat := (p.slots[n]?.map Slot.refs).getD 0

/-- The content of a frame; there is nothing in a frame that does not exist. -/
def page (p : Pool) (n : Nat) : Page := (p.slots[n]?.map Slot.page).getD Page.zero

def write (p : Pool) (n offset : Nat) (data : Bytes) : Pool :=
  { p with slots := p.slots.modify n fun s => { s with page := s.page.write offset data } }

/-- The largest budget that is counted. -/
def budgetLimit : Nat := 0x7FFFFFFFFFFFFFFF

/-- From now on, charge for `n` requests and deny the rest. -/
def failAfter (p : Pool) (n : Nat) : Pool := { p with budget := some (min n budgetLimit) }

/-- Grant every allocation again, as long as there are frames. -/
def clearFailure (p : Pool) : Pool := { p with budget := none }

def describe (p : Pool) : String :=
  "FramePool \x7b capacity: " ++ toString p.capacity ++ ", free: " ++ toString p.freeCount ++ " \x7d"

/-! ## What each operation does to the counts and the pages -/

theorem slot_retain (p : Pool) (n i : Nat) :
    (p.retain n).slots[i]? = p.slots[i]?.map fun s => if n = i then { s with refs := s.refs + 1 } else s := by
  simp only [retain, Array.getElem?_modify]
  split <;> simp

theorem slot_release (p : Pool) (n i : Nat) :
    (p.release n).slots[i]? = p.slots[i]?.map fun s =>
      if n = i then (if s.refs = 1 then {} else { s with refs := s.refs - 1 }) else s := by
  unfold release
  split
  next h =>
    obtain ⟨s, hs, hr⟩ := Option.map_eq_some_iff.1 h
    simp only [Array.getElem?_setIfInBounds]
    split
    next e => subst e; rw [hs, if_pos (Array.getElem?_eq_some_iff.1 hs).1]; simp [hr]
    next => simp
  next h =>
    simp only [Array.getElem?_modify]
    split
    next e =>
      subst e
      cases hs : p.slots[n]? with
      | none => rfl
      | some s => simp_all
    next => simp

theorem slot_write (p : Pool) (n offset : Nat) (data : Bytes) (i : Nat) :
    (p.write n offset data).slots[i]? = p.slots[i]?.map fun s =>
      if n = i then { s with page := s.page.write offset data } else s := by
  simp only [write, Array.getElem?_modify]
  split <;> simp

theorem refs_retain (p : Pool) (n i : Nat) (h : i < p.capacity) :
    (p.retain n).refs i = p.refs i + if n = i then 1 else 0 := by
  have hi : i < p.slots.size := h
  by_cases e : n = i <;> simp [refs, slot_retain, hi, e]

theorem page_retain (p : Pool) (n i : Nat) : (p.retain n).page i = p.page i := by
  simp only [page, slot_retain, Option.map_map]
  congr 2
  funext s
  by_cases e : n = i <;> simp [e]

/-- A release takes one holder from the frame and from no other. -/
theorem refs_release (p : Pool) (n i : Nat) :
    (p.release n).refs i = p.refs i - if n = i then 1 else 0 := by
  simp only [refs, slot_release]
  cases p.slots[i]? with
  | none => simp
  | some s =>
    by_cases e : n = i
    · by_cases hr : s.refs = 1 <;> simp [e, hr]
    · simp [e]

/-- The last release empties the frame; no other changes a page. -/
theorem page_release (p : Pool) (n i : Nat) :
    (p.release n).page i = if n = i ∧ p.refs i = 1 then Page.zero else p.page i := by
  by_cases hi : i < p.slots.size
  · by_cases e : n = i
    · by_cases hr : p.slots[i].refs = 1 <;> simp [page, refs, slot_release, hi, e, hr]
    · simp [page, slot_release, hi, e]
  · simp [page, slot_release, hi]

/-- The last release puts the frame on top of the free list; no other changes the list. -/
theorem free_release (p : Pool) (n : Nat) :
    (p.release n).free = if p.refs n = 1 then n :: p.free else p.free := by
  unfold release refs
  cases p.slots[n]? with
  | none => simp
  | some s => by_cases hr : s.refs = 1 <;> simp [hr]

theorem refs_write (p : Pool) (n offset : Nat) (data : Bytes) (i : Nat) :
    (p.write n offset data).refs i = p.refs i := by
  simp only [refs, slot_write, Option.map_map]
  congr 2
  funext s
  by_cases e : n = i <;> simp [e]

theorem page_write (p : Pool) (n offset : Nat) (data : Bytes) (i : Nat) (h : i < p.capacity) :
    (p.write n offset data).page i = if n = i then (p.page i).write offset data else p.page i := by
  have hi : i < p.slots.size := h
  by_cases e : n = i <;> simp [page, slot_write, hi, e]

end Pool
end Exokernel
