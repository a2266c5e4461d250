import Exokernel.Kernel.Cpu
import Exokernel.Kernel.Program
/-!
# Runs of a kernel

A kernel is driven from outside, which starts and ends programs, gives the processor away and makes memory run out, and
by the programs, which do with the processor what they can.  A program is not held to any order: the reachable states are
reached also by programs that act while another one holds the processor, the orderly ones only by programs that hold it.
-/
namespace Exokernel

/-- What a program can do that may change anything. -/
inductive CpuOp where
  | load (a : Word) (len : Nat)
  | store (a : Word) (data : Bytes)
  | resumeWith (regs : Registers)
  | ecall (number : Word) (args : Vector Word 5)

/-- What can happen to a kernel. -/
inductive Event where
  | spawn (img : Image)
  | destroyEnv (i : EnvId)
  | scheduleNext
  | dispatch (i : EnvId)
  | perform (i : EnvId) (op : CpuOp)
  | failAfter (n : Nat)
  | clearFailure

namespace Kernel

/-- The state after an operation of a program. -/
def perform (k : Kernel) (i : EnvId) : CpuOp → Kernel
  | .load a len => (k.load i a len).2
  | .store a data => (k.store i a data).2
  | .resumeWith regs => (k.resumeWith i regs).2
  | .ecall number args => (k.ecall i number args).2

/-- The state after an event; what is refused changes nothing. -/
def step (k : Kernel) : Event → Kernel
  | .spawn img => (k.spawn img).2
  | .destroyEnv i => (k.destroyEnv i).2
  | .scheduleNext => k.scheduleNext.2
  | .dispatch i =>
    match k.dispatch i with
    | .error _ => k
    | .ok k => k
  | .perform i op => k.perform i op
  | .failAfter n => k.failAfter n
  | .clearFailure => k.clearFailure

/-- The state after some events, one after the other. -/
def run (k : Kernel) (events : List Event) : Kernel := events.foldl step k

/-- **The states that a kernel can come to.** -/
inductive Reachable : Kernel → Prop where
  | boot {c : Config} {k : Kernel} (h : boot c = .ok k) : Reachable k
  | step {k : Kernel} (h : Reachable k) (event : Event) : Reachable (k.step event)

/-- What can happen when every program waits for its turn: it acts only while it holds the processor. -/
def Admits (k : Kernel) : Event → Prop
  | .perform i _ => k.current = some i
  | _ => True

/-- **The states that a kernel can come to when every program waits for its turn.** -/
inductive Orderly : Kernel → Prop where
  | boot {c : Config} {k : Kernel} (h : boot c = .ok k) : Orderly k
  | step {k : Kernel} (h : Orderly k) (event : Event) (ha : k.Admits event) : Orderly (k.step event)

/-- **What an operation of a program comes down to**: nothing, a fault, a write to its memory, other registers in user
mode, or a call. -/
theorem perform_induction {Q : Kernel → Prop} (k : Kernel) (i : EnvId) (op : CpuOp) (nothing : Q k)
    (fault : ∀ e f, k.env? i = some e → Q (k.raise i f).2)
    (write : ∀ e a data m, k.env? i = some e → e.space.write k.machine a data = .ok m → Q { k with machine := m })
    (resume : ∀ r, op = .resumeWith r → Q (k.setRegisters i r.forUser))
    (call : ∀ number args, op = .ecall number args → Q (k.ecall i number args).2) : Q (k.perform i op) := by
  cases op with
  | load a len =>
    unfold perform load
    dsimp only
    split
    · exact nothing
    next e he =>
      split
      · exact nothing
      next f _ => exact fault e f he
  | store a data =>
    unfold perform store
    dsimp only
    split
    · exact nothing
    next e he =>
      split
      next m hw => exact write e _ data m he hw
      next f _ => exact fault e f he
  | resumeWith regs =>
    unfold perform resumeWith
    dsimp only
    split
    · exact nothing
    · exact resume regs rfl
  | ecall number args => exact call number args rfl

variable {k : Kernel}

theorem Orderly.reachable (h : k.Orderly) : k.Reachable := by
  induction h with
  | boot h => exact .boot h
  | step _ event _ ih => exact .step ih event

theorem Reachable.run (h : k.Reachable) (events : List Event) : (k.run events).Reachable := by
  induction events generalizing k with
  | nil => exact h
  | cons event rest ih => exact ih (.step h event)

end Kernel
end Exokernel
