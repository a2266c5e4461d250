import Exokernel.Kernel.Basic
/-!
# Messages

A message is a 32-bit value and, if the sender offers a page and the receiver has asked for one, a mapping of the
offered frame.  Sending never waits: it succeeds exactly when the receiver is waiting.
-/
namespace Exokernel

/-- Why a message is not sent or a wait not begun. -/
inductive IpcError where
  /-- The receiver is not waiting. -/
  | notReceiving
  /-- The offered page is not mapped, or not as permissively as offered. -/
  | invalidSource
  | env (e : EnvError)
  | map (e : MapError)
deriving DecidableEq

namespace IpcError

def all : List IpcError := [notReceiving, invalidSource] ++ EnvError.all.map env ++ [map .outOfMemory]

def name : IpcError → String
  | notReceiving => "NotReceiving"
  | invalidSource => "InvalidSource"
  | env e => "Env(" ++ e.name ++ ")"
  | map e => "Map(" ++ e.name ++ ")"

end IpcError

def Line.delivered (sender receiver : EnvId) (value : UInt32) (perm : Perm) : Line :=
  ⟨.trace, "ipc", sender.text ++ " -> " ++ receiver.text ++ " value=" ++ toString value.toNat ++ " perm=" ++
    perm.describe⟩

/-- What is to be sent to whom. -/
structure SendRequest where
  receiver : EnvId
  value : UInt32
  /-- The offered page and the permission it is offered with. -/
  page : Option (VirtAddr × Perm) := none

namespace Kernel

/-- The frame that an environment offers: it must be mapped, and writable if it is offered so. -/
def offer (k : Kernel) (sender : EnvId) : Option (VirtAddr × Perm) → Except IpcError (Option (Frame × Perm))
  | none => .ok none
  | some (v, p) =>
    match k.env? sender with
    | none => .error (.env .badEnv)
    | some e =>
      match e.space.lookup v with
      | none => .error .invalidSource
      | some pte =>
        if p.contains .writable && !pte.perm.contains .writable then .error .invalidSource
        else .ok (some (pte.frame, p))

/-- The receiver of a request, waiting, and what it is offered. -/
def checkSend (k : Kernel) (sender : EnvId) (req : SendRequest) : Except IpcError (Env × Option (Frame × Perm)) :=
  match k.envs.resolve req.receiver (.env sender) false with
  | .error e => .error (.env e)
  | .ok receiver =>
    match k.offer sender req.page with
    | .error e => .error e
    | .ok offered => if receiver.mailbox.receiving then .ok (receiver, offered) else .error .notReceiving

/-- Map the offered page where the receiver wants one, and give the permission that it has there. -/
def transfer (k : Kernel) (receiver : Env) (offered : Option (Frame × Perm)) : Except MapError Perm × Kernel :=
  match offered, receiver.mailbox.target with
  | some (f, p), some v =>
    match k.mapInto receiver f v p with
    | (.error e, k) => (.error e, k)
    | (.ok (), k) => (.ok p, k)
  | _, _ => (.ok .empty, k)

/-- End the wait of the receiver: the message is in its mailbox, its call returns zero, and it may run. -/
def wake (k : Kernel) (receiver sender : EnvId) (value : UInt32) (perm : Perm) : Kernel :=
  let k := k.modifyEnv receiver fun e =>
    { e with mailbox := e.mailbox.deliver sender value perm, regs := e.regs.setA0 0, status := .runnable }
  { k with scheduler := k.scheduler.enqueue receiver }

/-- **Send a message to a waiting environment.** -/
def send (k : Kernel) (sender : EnvId) (req : SendRequest) : Except IpcError Unit × Kernel :=
  match k.checkSend sender req with
  | .error e => (.error e, k)
  | .ok (receiver, offered) =>
    match k.transfer receiver offered with
    | (.error e, k) => (.error (.map e), k)
    | (.ok perm, k) =>
      (.ok (), (k.wake receiver.id sender req.value perm).log (.delivered sender receiver.id req.value perm))

/-- **Wait for a message**: the environment is blocked until one is sent. -/
def receive (k : Kernel) (caller : EnvId) (target : Option VirtAddr) : Except IpcError Unit × Kernel :=
  match k.env? caller with
  | none => (.error (.env .badEnv), k)
  | some _ =>
    let k := k.modifyEnv caller fun e => { e with mailbox := e.mailbox.await target, status := .notRunnable }
    (.ok (), { k with scheduler := k.scheduler.remove caller })

end Kernel
end Exokernel
