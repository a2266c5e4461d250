import Exokernel.Kernel.Basic
/-!
# Starting programs

A program image is loaded into a new environment: its text read-only from `textBase` on, its data and zeros after it on
a page of their own, and one page of stack.  An image that cannot be loaded completely leaves nothing behind.
-/
namespace Exokernel

/-- A program on its way into memory. -/
structure Image where
  text : Bytes := #[]
  data : Bytes := #[]
  /-- The number of zero bytes after the data. -/
  bss : Nat := 0

structure Spawned where
  id : EnvId
  /-- The end of its heap. -/
  brk : Nat

/-- Why a program could not be started. -/
inductive SpawnError where
  | env (e : EnvError)
  | noMemory
  /-- The image would reach the stack. -/
  | tooLarge
deriving DecidableEq

def SpawnError.message : SpawnError → String
  | .env e => "environment: " ++ e.name
  | .noMemory => "out of memory"
  | .tooLarge => "image overlaps the user stack"

namespace Line

def spawnFailed (i : EnvId) (e : SpawnError) : Line :=
  ⟨.warn, "loader", "spawn " ++ i.text ++ " failed: " ++ e.message⟩

def spawned (i : EnvId) (img : Image) (brk : Nat) : Line :=
  ⟨.info, "loader", "spawn " ++ i.text ++ " text=" ++ toString img.text.size ++ "B data=" ++ toString img.data.size ++
    "B bss=" ++ toString img.bss ++ "B brk=" ++ Hex.short brk⟩

end Line

namespace Image

def dataStart (img : Image) : Nat := pageUp (textBase + img.text.size)

/-- **The end of the heap of an image**: none if it would reach the stack page. -/
def brk? (img : Image) : Option Nat :=
  let sum := img.dataStart + img.data.size + img.bss
  if sum < addressLimit ∧ pageUp sum ≤ stackPage then some (pageUp sum) else none

end Image

namespace Kernel

/-- Load pages of a segment, one by one: page `a` gets the data from `offset` on, as far as it goes. -/
def loadPages (k : Kernel) (i : EnvId) (base : Nat) (data : Bytes) (p : Perm) :
    List Nat → Except SpawnError Unit × Kernel
  | [] => (.ok (), k)
  | a :: rest =>
    match VirtAddr.pageOfNat? a, k.env? i with
    | none, _ => (.error .tooLarge, k)
    | _, none => (.error (.env .badEnv), k)
    | some v, some e =>
      match k.allocFrame with
      | (none, k) => (.error .noMemory, k)
      | (some f, k) =>
        let offset := a - base
        let k := { k with machine := k.machine.write f 0 (data.extract offset (offset + pageSize)) }
        match k.mapInto e f v p with
        | (.error _, k) => (.error .noMemory, k.releaseFrame f)
        | (.ok (), k) => loadPages (k.releaseFrame f) i base data p rest

/-- Load a segment of `len` bytes at `base`: the data, and zeros after it. -/
def loadSegment (k : Kernel) (i : EnvId) (base len : Nat) (data : Bytes) (p : Perm) :
    Except SpawnError Unit × Kernel :=
  k.loadPages i base data p (pageSteps base (base + len))

/-- Load an image whose heap ends at `brk`, and make it ready to run. -/
def loadImage (k : Kernel) (i : EnvId) (img : Image) (brk : Nat) : Except SpawnError Unit × Kernel :=
  match k.loadSegment i textBase img.text.size img.text .userPresent with
  | (.error e, k) => (.error e, k)
  | (.ok (), k) =>
    match k.loadSegment i img.dataStart (brk - img.dataStart) img.data .userWritable with
    | (.error e, k) => (.error e, k)
    | (.ok (), k) =>
      match k.loadSegment i stackPage pageSize #[] .userWritable with
      | (.error e, k) => (.error e, k)
      | (.ok (), k) =>
        (.ok (), k.modifyEnv i fun e =>
          { e with regs := { e.regs.setSp stackTop.toUInt64 with sepc := textBase.toUInt64 }, status := .runnable })

/-- **Start a program.** -/
def spawn (k : Kernel) (img : Image) : Except SpawnError Spawned × Kernel :=
  match img.brk? with
  | none => (.error .tooLarge, k)
  | some brk =>
    match k.createEnv none with
    | (.error e, k) => (.error (.env e), k)
    | (.ok i, k) =>
      match k.loadImage i img brk with
      | (.error e, k) => (.error e, ((k.log (.spawnFailed i e)).destroyEnv i).2)
      | (.ok (), k) =>
        let k := { k with scheduler := k.scheduler.enqueue i }
        (.ok ⟨i, brk⟩, k.log (.spawned i img brk))

end Kernel
end Exokernel
