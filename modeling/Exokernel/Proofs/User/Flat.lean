import Exokernel.Proofs.Env.Map
import Exokernel.Proofs.User.Spawn
/-!
# Programs with memories of their own

The picture that programs have of memory: every program has a flat memory of its own, from the start of its text to the
end of its heap and on its stack.  A new program finds its image there, the heap grows by zeros, a fork copies the whole
memory, and a write changes the memory of the writer.  There are no frames here and no page tables, and nothing is shared.
-/
namespace Exokernel

/-! ## One program -/

/-- A program and its memory. -/
structure FlatProgram where
  /-- The end of the heap. -/
  brk : Nat
  bytes : Nat → UInt8

namespace FlatProgram

def ofImage (img : Image) (brk : Nat) : FlatProgram := ⟨brk, img.byteAt⟩

def read (m : FlatProgram) (a len : Nat) : Bytes := Array.ofFn fun x : Fin len => m.bytes (a + x)

def write (m : FlatProgram) (a : Nat) (data : Bytes) : FlatProgram :=
  { m with bytes := fun x => if a ≤ x then data.getD (x - a) (m.bytes x) else m.bytes x }

/-- More heap, up to a page boundary. -/
def grow (m : FlatProgram) (increment : Nat) : FlatProgram :=
  let brk := pageUp (m.brk + increment)
  { brk, bytes := fun x => if m.brk ≤ x ∧ x < brk then 0 else m.bytes x }

theorem eq_read {m : FlatProgram} {a len : Nat} {bytes : Bytes} (hs : bytes.size = len)
    (h : ∀ x, x < len → bytes[x]? = some (m.bytes (a + x))) : bytes = m.read a len := by
  subst hs
  apply Array.ext
  · rw [read, Array.size_ofFn]
  · intro x hx _
    have := h x hx
    rw [Array.getElem?_eq_getElem hx] at this
    rw [Option.some.inj this]
    simp [read]

end FlatProgram

/-! ## All programs -/

/-- The programs that there are. -/
abbrev FlatWorld := EnvMap FlatProgram

/-- How an operation went, as the program or whoever ran it sees it. -/
inductive Outcome where
  | spawned (i : EnvId) (img : Image)
  | read (i : EnvId) (a len : Nat) (bytes : Bytes)
  | wrote (i : EnvId) (a : Nat) (data : Bytes)
  | grew (i : EnvId) (increment old : Nat)
  | forked (parent child : EnvId)
  /-- There is no such program any more. -/
  | ended (i : EnvId)
  /-- Nothing that concerns any memory. -/
  | nothing

namespace FlatWorld

/-- **What an operation does to the memories**, and when it may go as it went. -/
inductive Step : FlatWorld → Outcome → FlatWorld → Prop where
  | spawned {w : FlatWorld} {i : EnvId} {img : Image} {brk : Nat} (hn : w i = none) (hb : img.brk? = some brk) :
    Step w (.spawned i img) (w.set i (some (.ofImage img brk)))
  | read {w : FlatWorld} {i : EnvId} {m : FlatProgram} {a len : Nat} {bytes : Bytes} (h : w i = some m)
    (hb : bytes = m.read a len) : Step w (.read i a len bytes) w
  | wrote {w : FlatWorld} {i : EnvId} {m : FlatProgram} (a : Nat) (data : Bytes) (h : w i = some m) :
    Step w (.wrote i a data) (w.set i (some (m.write a data)))
  | grew {w : FlatWorld} {i : EnvId} {m : FlatProgram} {old : Nat} (increment : Nat) (h : w i = some m)
    (ho : old = m.brk) : Step w (.grew i increment old) (w.set i (some (m.grow increment)))
  | forked {w : FlatWorld} {parent child : EnvId} {m : FlatProgram} (h : w parent = some m) (hn : w child = none) :
    Step w (.forked parent child) (w.set child (some m))
  | ended (w : FlatWorld) (i : EnvId) : Step w (.ended i) (w.set i none)
  | nothing (w : FlatWorld) : Step w .nothing w

/-- What can have happened until the memories are as they are. -/
inductive History : List Outcome → FlatWorld → Prop where
  | start : History [] fun _ => none
  | step {os : List Outcome} {o : Outcome} {w w' : FlatWorld} (h : History os w) (hs : w.Step o w') :
    History (os ++ [o]) w'

theorem Step.unique {w w₁ w₂ : FlatWorld} {o : Outcome} (h₁ : w.Step o w₁) (h₂ : w.Step o w₂) : w₁ = w₂ := by
  cases h₁ with
  | spawned _ hb =>
    cases h₂ with
    | spawned _ hb' => rw [Option.some.inj (hb.symm.trans hb')]
  | read => cases h₂; rfl
  | wrote _ _ h =>
    cases h₂ with
    | wrote _ _ h' => rw [Option.some.inj (h.symm.trans h')]
  | grew _ h =>
    cases h₂ with
    | grew _ h' => rw [Option.some.inj (h.symm.trans h')]
  | forked h =>
    cases h₂ with
    | forked h' => rw [Option.some.inj (h.symm.trans h')]
  | ended => cases h₂; rfl
  | nothing => cases h₂; rfl

/-- **What has happened determines the memories.** -/
theorem History.unique {os : List Outcome} {w₁ w₂ : FlatWorld} (h₁ : History os w₁) (h₂ : History os w₂) : w₁ = w₂ := by
  induction h₁ generalizing w₂ with
  | start =>
    generalize hos : ([] : List Outcome) = os at h₂
    cases h₂ with
    | start => rfl
    | step => simp at hos
  | @step os o w w₁ _ hs ih =>
    generalize hos : os ++ [o] = os' at h₂
    cases h₂ with
    | start => simp at hos
    | step h₂ hs₂ =>
      obtain ⟨rfl, rfl⟩ := List.append_singleton_inj.1 hos
      obtain rfl := ih h₂
      exact hs.unique hs₂

end FlatWorld
end Exokernel
