import Exokernel.User.CopyOnWrite
/-!
# Fork

A fork makes a child with a copy of the parent's address space.  Text, data and heap are shared, and what was writable
becomes copy-on-write in both; the stack is copied at once; the child gets an exception stack of its own and starts to
run last.  A step that fails after the child was made ends the parent and leaves the child where it is, never started.
-/
namespace Exokernel

/-- A child that a fork has made, before it is taken up. -/
structure ForkedChild where
  id : EnvId
  runtime : Runtime

def ForkedChild.describe (c : ForkedChild) : String :=
  "ForkedChild \x7b id: " ++ c.id.describe ++ ", runtime: " ++ c.runtime.describe ++ " \x7d"

def Line.forked (parent child : EnvId) : Line := ⟨.debug, "user", "[" ++ parent.text ++ "] fork -> " ++ child.text⟩

namespace Kernel

/-- Make calls one after another, up to the first that fails. -/
def callAll (k : Kernel) (i : EnvId) : List Call → Except Errno Unit × Kernel
  | [] => (.ok (), k)
  | c :: rest =>
    match k.call i c with
    | (.error e, k) => (.error e, k)
    | (.ok _, k) => callAll k i rest

/-- **The calls that share a page with a child**: a writable page is marked in the child and then in the parent as well,
so that neither sees what the other writes. -/
def sharePageCalls (child : EnvId) (va : Word) (perm : Perm) : List Call :=
  if perm.intersects (.writable ||| .cow) then
    [.pageMap .self va child va .userCow, .pageMap .self va .self va .userCow]
  else [.pageMap .self va child va (perm &&& .syscall)]

/-- Share the mapped ones of some pages with a child. -/
def sharePages (k : Kernel) (i child : EnvId) : List Nat → Except (ForkStep × Errno) Unit × Kernel
  | [] => (.ok (), k)
  | a :: rest =>
    let va := a.toUInt64
    match k.query i va with
    | none => sharePages k i child rest
    | some perm =>
      match k.callAll i (sharePageCalls child va perm) with
      | (.error e, k) => (.error (.duplicate va, e), k)
      | (.ok (), k) => sharePages k i child rest

/-- Copy a page into a child, by way of the scratch window. -/
def copyToChild (k : Kernel) (i child : EnvId) (va : Word) : Except Errno Unit × Kernel :=
  let scratch := scratchBase.toUInt64
  match k.call i (.pageAlloc .self scratch .userWritable) with
  | (.error e, k) => (.error e, k)
  | (.ok _, k) =>
    match k.load i va pageSize with
    | (.error _, k) => (.error .fault, k)
    | (.ok bytes, k) =>
      match k.store i scratch bytes with
      | (.error _, k) => (.error .fault, k)
      | (.ok (), k) => k.callAll i [.pageMap .self scratch child va .userWritable, .pageUnmap .self scratch]

/-- Copy the mapped ones of some stack pages into a child. -/
def copyStack (k : Kernel) (i child : EnvId) : List Nat → Except (ForkStep × Errno) Unit × Kernel
  | [] => (.ok (), k)
  | a :: rest =>
    let va := a.toUInt64
    match k.query i va with
    | none => copyStack k i child rest
    | some _ =>
      match k.copyToChild i child va with
      | (.error e, k) => (.error (.stack va, e), k)
      | (.ok (), k) => copyStack k i child rest

/-- Give a child its exception stack and its upcall, and let it run. -/
def startChild (k : Kernel) (i child : EnvId) : Except (ForkStep × Errno) Unit × Kernel :=
  match k.call i (.pageAlloc child exceptionStackBase.toUInt64 .userWritable) with
  | (.error e, k) => (.error (.exceptionStack, e), k)
  | (.ok _, k) =>
    match k.call i (.setUpcall child upcallEntry.toUInt64) with
    | (.error e, k) => (.error (.upcall, e), k)
    | (.ok _, k) =>
      match k.call i (.setStatus child .runnable) with
      | (.error e, k) => (.error (.start, e), k)
      | (.ok _, k) => (.ok (), k)

/-- The pages that hold the stack: from the one below the stack pointer on, but none of the heap. -/
def stackPages (sp : Word) (brk : Word) : List Nat :=
  pageSteps (max (pageDown (sp.toNat - 1)) brk.toNat) stackTop

/-- **Fill a child's address space and start it.** -/
def populate (k : Kernel) (i child : EnvId) (brk : Word) : Except (ForkStep × Errno) Unit × Kernel :=
  match k.sharePages i child (pageSteps textBase brk.toNat) with
  | (.error e, k) => (.error e, k)
  | (.ok (), k) =>
    match k.registers i with
    | .error _ => (.error (.start, .badEnv), k)
    | .ok regs =>
      match k.copyStack i child (stackPages regs.sp brk) with
      | (.error e, k) => (.error e, k)
      | (.ok (), k) => k.startChild i child

end Kernel

namespace UserProcess

/-- A fork that cannot be completed ends the parent. -/
def abortFork (p : UserProcess) (k : Kernel) (step : ForkStep) (err : Errno) :
    Except ForkError ForkedChild × UserProcess × Kernel :=
  (.error (.panicked (.fork step err)), p, p.fatal k (.fork step err))

def exofork (p : UserProcess) (k : Kernel) : Except Errno EnvId × Kernel :=
  match p.enter k with
  | (.error e, k) => (.error e, k)
  | (.ok (), k) => k.callForId p.env .exofork

def populate (p : UserProcess) (k : Kernel) (child : EnvId) : Except (ForkStep × Errno) Unit × Kernel :=
  match p.enter k with
  | (.error e, k) => (.error (.start, e), k)
  | (.ok (), k) => k.populate p.env child p.runtime.brk

/-- **Fork.** -/
def fork (p : UserProcess) (k : Kernel) : Except ForkError ForkedChild × UserProcess × Kernel :=
  match p.setHandler k Routine.copyOnWrite with
  | (.error e, p, k) => p.abortFork k .handler e
  | (.ok (), p, k) =>
    match p.exofork k with
    | (.error e, k) => (.error (.exofork e), p, k)
    | (.ok child, k) =>
      match p.populate k child with
      | (.error (step, e), k) => p.abortFork k step e
      | (.ok (), k) => (.ok ⟨child, p.runtime⟩, p, k.log (.forked p.env child))

end UserProcess

/-- **Take up a child**: it must not have run yet, so that it sees zero as the result of its fork. -/
def ForkedChild.resume (c : ForkedChild) (k : Kernel) : Except Errno UserProcess × Kernel :=
  match k.dispatch c.id with
  | .error _ => (.error .badEnv, k)
  | .ok k =>
    match k.registers c.id with
    | .error _ => (.error .badEnv, k)
    | .ok regs =>
      if regs.a0 ≠ 0 then (.error .inval, k)
      else
        match k.callForId c.id .getEnvId with
        | (.error e, k) => (.error e, k)
        | (.ok thisEnv, k) => (.ok ⟨c.id, { c.runtime with thisEnv }⟩, k)

end Exokernel
