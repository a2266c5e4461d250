import Exokernel.Console
import Exokernel.Memory.Pool
import Exokernel.Text.Hex
/-!
# The machine

The machine is the frame pools and the console.  A frame is named by its pool and its number there; a frame always goes
back to the pool it came from, whoever held it.  A kernel runs on the first pool.
-/
namespace Exokernel

/-- The name of a frame. -/
structure Frame where
  pool : Nat
  number : Nat
deriving DecidableEq, Inhabited

def Frame.address (f : Frame) : Nat := f.number * pageSize

structure Machine where
  pools : Array Pool
  console : Console := {}
deriving Inhabited

/-- An allocation was denied because the budget is used up. -/
def Line.allocDenied : Line := ⟨.debug, "mm", "frame alloc denied by failpoint"⟩

namespace Machine

def ofSizes (sizes : List Nat) : Machine := { pools := (sizes.map Pool.ofSize).toArray }

def log (m : Machine) (l : Line) : Machine := { m with console := m.console.push l }

def modifyPool (m : Machine) (i : Nat) (f : Pool → Pool) : Machine := { m with pools := m.pools.modify i f }

/-- **A fresh frame from a pool**, zeroed and held once. -/
def alloc (m : Machine) (pool : Nat) : Option Frame × Machine :=
  match m.pools[pool]? with
  | none => (none, m)
  | some p =>
    let (grant, p) := p.alloc
    let m := { m with pools := m.pools.setIfInBounds pool p }
    match grant with
    | .granted n => (some ⟨pool, n⟩, m)
    | .denied => (none, m.log .allocDenied)
    | .exhausted => (none, m)

def retain (m : Machine) (f : Frame) : Machine := m.modifyPool f.pool (·.retain f.number)

def release (m : Machine) (f : Frame) : Machine := m.modifyPool f.pool (·.release f.number)

def releaseAll (m : Machine) (fs : List Frame) : Machine := fs.foldl release m

def refs (m : Machine) (f : Frame) : Nat := (m.pools[f.pool]?.map (·.refs f.number)).getD 0

def page (m : Machine) (f : Frame) : Page := (m.pools[f.pool]?.map (·.page f.number)).getD Page.zero

def read (m : Machine) (f : Frame) (offset len : Nat) : Bytes := (m.page f).read offset len

def write (m : Machine) (f : Frame) (offset : Nat) (data : Bytes) : Machine :=
  m.modifyPool f.pool (·.write f.number offset data)

def freeCount (m : Machine) (pool : Nat) : Nat := (m.pools[pool]?.map Pool.freeCount).getD 0

def describeFrame (m : Machine) (f : Frame) : String :=
  "FrameRef(pfn:" ++ toString f.number ++ ", refs=" ++ toString (m.refs f) ++ ")"

/-! ## What each operation does to the counts and the pages -/

theorem pool_modifyPool (m : Machine) (i j : Nat) (f : Pool → Pool) :
    (m.modifyPool i f).pools[j]? = m.pools[j]?.map fun p => if i = j then f p else p := by
  simp only [modifyPool, Array.getElem?_modify]
  split <;> simp

/-- A release takes one holder from the frame and from no other. -/
theorem refs_release (m : Machine) (f g : Frame) : (m.release f).refs g = m.refs g - if f = g then 1 else 0 := by
  obtain ⟨i, n⟩ := f
  obtain ⟨j, k⟩ := g
  simp only [refs, release, pool_modifyPool, Frame.mk.injEq]
  cases m.pools[j]? with
  | none => simp
  | some p => by_cases h : i = j <;> simp [h, Pool.refs_release]

theorem page_retain (m : Machine) (f g : Frame) : (m.retain f).page g = m.page g := by
  simp only [page, retain, pool_modifyPool]
  cases m.pools[g.pool]? with
  | none => rfl
  | some p => by_cases h : f.pool = g.pool <;> simp [h, Pool.page_retain]

theorem refs_write (m : Machine) (f g : Frame) (offset : Nat) (data : Bytes) :
    (m.write f offset data).refs g = m.refs g := by
  simp only [refs, write, pool_modifyPool]
  cases m.pools[g.pool]? with
  | none => rfl
  | some p => by_cases h : f.pool = g.pool <;> simp [h, Pool.refs_write]

end Machine
end Exokernel
