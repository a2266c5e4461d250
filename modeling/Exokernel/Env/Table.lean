import Exokernel.Env.Basic
/-!
# The environment table

The table is a fixed number of slots.  A slot counts how often it has been used, and the id of an environment carries
that count, so an id whose environment is gone finds nothing, also after its slot is used again.
-/
namespace Exokernel

/-- What can be wrong with an environment. -/
inductive EnvError where
  /-- There is no such environment, or it is out of reach. -/
  | badEnv
  | noFreeEnv
  | noMemory
  | notRunnable
deriving DecidableEq

namespace EnvError

def all : List EnvError := [badEnv, noFreeEnv, noMemory, notRunnable]

def name : EnvError → String
  | badEnv => "BadEnv"
  | noFreeEnv => "NoFreeEnv"
  | noMemory => "NoMemory"
  | notRunnable => "NotRunnable"

def ofName? (s : String) : Option EnvError := all.find? fun e => e.name == s

end EnvError

/-- Who asks for an environment. -/
inductive Requester where
  | kernel
  | env (id : EnvId)
deriving DecidableEq

/-- A place for an environment. -/
structure EnvSlot where
  /-- How often the slot has been used. -/
  generation : UInt32 := 0
  env : Option Env := none

instance : Inhabited EnvSlot := ⟨{}⟩

structure EnvTable where
  slots : Array EnvSlot

namespace EnvTable

def ofCapacity (capacity : Nat) : EnvTable := ⟨Array.replicate capacity {}⟩

def capacity (t : EnvTable) : Nat := t.slots.size

/-- The live environments in the order of their slots. -/
def toList (t : EnvTable) : List Env := t.slots.toList.filterMap EnvSlot.env

def size (t : EnvTable) : Nat := t.toList.length

/-- **The live environment with exactly this id.** -/
def get? (t : EnvTable) (i : EnvId) : Option Env :=
  (t.slots[i.index]?.bind EnvSlot.env).filter (·.id == i)

/-- The live environment with this id, or the reason why not. -/
def get (t : EnvTable) (i : EnvId) : Except EnvError Env :=
  match t.get? i with
  | none => .error .badEnv
  | some e => .ok e

/-- Change the environment with this id, if it is live. -/
def modify (t : EnvTable) (i : EnvId) (f : Env → Env) : EnvTable :=
  ⟨t.slots.modify i.index fun s => { s with env := s.env.map fun e => if e.id = i then f e else e }⟩

/-- Take the environment with this id out of its slot, if it is live. -/
def remove (t : EnvTable) (i : EnvId) : EnvTable :=
  ⟨t.slots.modify i.index fun s => { s with env := s.env.filter (·.id != i) }⟩

theorem id_of_get? {t : EnvTable} {i : EnvId} {e : Env} (h : t.get? i = some e) : e.id = i := by
  simpa using (Option.filter_eq_some_iff.1 h).2

/-- **A change that keeps ids is seen at its environment and at no other.** -/
theorem get?_modify (t : EnvTable) (i j : EnvId) (f : Env → Env) (hf : ∀ e, (f e).id = e.id) :
    (t.modify i f).get? j = (t.get? j).map fun e => if i = j then f e else e := by
  simp only [get?, modify, Array.getElem?_modify]
  by_cases hx : i.index = j.index
  · rw [if_pos hx]
    cases t.slots[j.index]? with
    | none => rfl
    | some s =>
      cases s with | mk g o => cases o with
      | none => rfl
      | some e =>
        by_cases hi : e.id = i <;> by_cases hj : i = j <;> simp_all [Option.filter]
  · have hij : i ≠ j := fun h => hx (congrArg _ h)
    rw [if_neg hx]
    simp [hij]

/-- A removed environment is gone, and no other is. -/
theorem get?_remove (t : EnvTable) (i j : EnvId) : (t.remove i).get? j = if i = j then none else t.get? j := by
  simp only [get?, remove, Array.getElem?_modify]
  by_cases hx : i.index = j.index
  · rw [if_pos hx]
    cases t.slots[j.index]? with
    | none => simp
    | some s =>
      cases s with | mk g o => cases o with
      | none => simp
      | some e =>
        by_cases hi : e.id = i <;> by_cases hj : i = j <;> simp_all [Option.filter]
  · have hij : i ≠ j := fun h => hx (congrArg _ h)
    rw [if_neg hx, if_neg hij]

/-- The lowest free slot. -/
def firstFree? (t : EnvTable) : Option Nat := t.slots.findIdx? (·.env.isNone)

/-- How often a slot will have been used after the next use. -/
def nextGeneration (t : EnvTable) (index : Nat) : UInt32 :=
  EnvId.nextGeneration ((t.slots[index]?.map EnvSlot.generation).getD 0)

def fill (t : EnvTable) (index : Nat) (generation : UInt32) (e : Env) : EnvTable :=
  ⟨t.slots.setIfInBounds index ⟨generation, some e⟩⟩

/-- A filled slot holds the new environment in the place of the one before; the other slots are as they were. -/
theorem get?_fill (t : EnvTable) (index : Nat) (g : UInt32) (e : Env) (j : EnvId) (h : index < t.capacity) :
    (t.fill index g e).get? j = if index = j.index then (if e.id = j then some e else none) else t.get? j := by
  have hi : index < t.slots.size := h
  simp only [get?, fill, Array.getElem?_setIfInBounds]
  by_cases hx : index = j.index
  · by_cases he : e.id = j <;> simp_all [Option.filter]
  · simp [hx]

/-- **The live environment that an id stands for.**  Zero stands for the requester, whom the kernel is not.  Where
permission is required, an environment reaches itself and its children only. -/
def resolve (t : EnvTable) (i : EnvId) (requester : Requester) (permission : Bool) : Except EnvError Env :=
  match i.isSelf, requester with
  | true, .kernel => .error .badEnv
  | true, .env caller => t.get caller
  | false, .kernel => t.get i
  | false, .env caller =>
    match t.get i with
    | .error e => .error e
    | .ok e => if permission && e.id != caller && !e.isChildOf caller then .error .badEnv else .ok e

end EnvTable
end Exokernel
