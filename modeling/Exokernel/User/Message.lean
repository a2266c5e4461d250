import Exokernel.User.Process
/-!
# Sending and receiving

A sender tries again, letting others run in between, until the receiver waits or it has tried often enough.  A receiver
begins to wait and looks later whether a message has come.
-/
namespace Exokernel

/-- How often a message is tried. -/
def sendRetries : Nat := 64

def Line.gaveUp (i receiver : EnvId) : Line :=
  ⟨.warn, "user", "[" ++ i.text ++ "] send to " ++ receiver.text ++ " gave up"⟩

structure Message where
  sender : EnvId
  value : UInt32
  perm : Perm
deriving DecidableEq

/-- A receive that has begun. -/
structure PendingRecv where
  env : EnvId
deriving DecidableEq

def PendingRecv.describe (r : PendingRecv) : String := "PendingRecv \x7b env: " ++ r.env.describe ++ " \x7d"

namespace UserProcess

/-- Take the processor and make a call. -/
def call (p : UserProcess) (k : Kernel) (c : Call) : Except Errno Unit × Kernel :=
  match p.enter k with
  | (.error e, k) => (.error e, k)
  | (.ok (), k) =>
    match k.call p.env c with
    | (.error e, k) => (.error e, k)
    | (.ok _, k) => (.ok (), k)

def trySend (p : UserProcess) (k : Kernel) (receiver : EnvId) (value : UInt32) (page : Option (Word × Perm)) :
    Except Errno Unit × Kernel :=
  p.call k (.trySend receiver value page)

def sendWithin (p : UserProcess) (receiver : EnvId) (value : UInt32) (page : Option (Word × Perm)) :
    Nat → Kernel → Except Errno Unit × Kernel
  | 0, k => (.error .ipcNotRecv, k.log (.gaveUp p.env receiver))
  | n + 1, k =>
    match p.trySend k receiver value page with
    | (.error .ipcNotRecv, k) =>
      match p.call k .yield with
      | (.error e, k) => (.error e, k)
      | (.ok (), k) => sendWithin p receiver value page n k
    | other => other

/-- **Send a message**, giving the receiver time to wait for it. -/
def send (p : UserProcess) (k : Kernel) (receiver : EnvId) (value : UInt32) (page : Option (Word × Perm)) :
    Except Errno Unit × Kernel :=
  p.sendWithin receiver value page sendRetries k

/-- **Begin to wait for a message.** -/
def recv (p : UserProcess) (k : Kernel) (target : Option Word) : Except Errno PendingRecv × Kernel :=
  match p.call k (.recv target) with
  | (.error e, k) => (.error e, k)
  | (.ok (), k) => (.ok ⟨p.env⟩, k)

end UserProcess

/-- **Look for the message**: none as long as the environment still waits. -/
def PendingRecv.poll (r : PendingRecv) (k : Kernel) : Option (Except Errno Message) :=
  match k.env? r.env with
  | none => some (.error .badEnv)
  | some e =>
    if e.mailbox.receiving then none
    else some ((Errno.decode e.regs.a0).map fun _ => ⟨e.mailbox.sender, e.mailbox.value, e.mailbox.perm⟩)

end Exokernel
