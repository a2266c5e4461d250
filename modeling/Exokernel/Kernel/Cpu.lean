import Exokernel.Kernel.Trap
/-!
# What a running program can do

A program that holds the processor reads and writes its memory, looks at its registers and its mailbox, and calls the
kernel.  Each of these is an operation of the kernel for a given environment.  A memory access that faults gives the
trap that the fault led to.
-/
namespace Exokernel

def Line.faulted (i : EnvId) (f : PageFault) : Line :=
  ⟨.trace, "trap", "[" ++ i.text ++ "] fault va " ++ Hex.short f.address ++ " " ++ f.code.describe⟩

/-- The registers with the number and the arguments of a call in place. -/
def Registers.withCall (r : Registers) (number : Word) (args : Vector Word 5) : Registers :=
  { r with x := Vector.ofFn fun i =>
      if i.val = 17 then number
      else if h : 10 ≤ i.val ∧ i.val - 10 < 5 then args.get ⟨i.val - 10, h.2⟩
      else r.x[i] }

namespace Kernel

/-- The trap that a fault of the environment leads to. -/
def raise (k : Kernel) (i : EnvId) (f : PageFault) : Trap × Kernel := (k.log (.faulted i f)).deliverFault i f

/-- **Read memory.** -/
def load (k : Kernel) (i : EnvId) (a : Word) (len : Nat) : Except Trap Bytes × Kernel :=
  match k.env? i with
  | none => (.error .killed, k)
  | some e =>
    match e.space.read k.machine a.toNat len with
    | .ok bytes => (.ok bytes, k)
    | .error f =>
      let (trap, k) := k.raise i f
      (.error trap, k)

/-- **Write memory.** -/
def store (k : Kernel) (i : EnvId) (a : Word) (data : Bytes) : Except Trap Unit × Kernel :=
  match k.env? i with
  | none => (.error .killed, k)
  | some e =>
    match e.space.write k.machine a.toNat data with
    | .ok m => (.ok (), { k with machine := m })
    | .error f =>
      let (trap, k) := k.raise i f
      (.error trap, k)

def registers (k : Kernel) (i : EnvId) : Except Trap Registers :=
  match k.env? i with
  | none => .error .killed
  | some e => .ok e.regs

/-- **Go on with other registers**, in user mode. -/
def resumeWith (k : Kernel) (i : EnvId) (r : Registers) : Except Trap Unit × Kernel :=
  match k.env? i with
  | none => (.error .killed, k)
  | some _ => (.ok (), k.setRegisters i r.forUser)

def mailbox (k : Kernel) (i : EnvId) : Except Trap Mailbox :=
  match k.env? i with
  | none => .error .killed
  | some e => .ok e.mailbox

/-- The permission of the page of an address, if it is mapped. -/
def query (k : Kernel) (i : EnvId) (a : Word) : Option Perm :=
  match k.env? i with
  | none => none
  | some e => (e.space.entryAt a.toNat).map Pte.perm

/-- **Call the kernel.** -/
def ecall (k : Kernel) (i : EnvId) (number : Word) (args : Vector Word 5) : Ecall × Kernel :=
  match k.env? i with
  | none => (.exited, k)
  | some e => (k.setRegisters i (e.regs.withCall number args)).handleEcall .standard i

end Kernel
end Exokernel
