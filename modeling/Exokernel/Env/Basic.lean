import Exokernel.Env.Mailbox
import Exokernel.Paging.Space
import Exokernel.Registers
/-!
# Environments

An environment is an address space with the registers of the program in it, its place in the family tree, its status,
and its mailbox.
-/
namespace Exokernel

/-- A user program as the kernel sees it. -/
structure Env where
  id : EnvId
  parent : Option EnvId
  status : EnvStatus
  space : AddressSpace
  regs : Registers
  /-- Where to continue after a page fault. -/
  upcall : Option Word
  mailbox : Mailbox

namespace Env

/-- A new environment, which does not run before it is told to. -/
def fresh (id : EnvId) (parent : Option EnvId) (space : AddressSpace) : Env :=
  { id, parent, status := .notRunnable, space, regs := .fresh, upcall := none, mailbox := {} }

def isChildOf (e : Env) (other : EnvId) : Bool := e.parent == some other

def describe (e : Env) : String :=
  let upcall := match e.upcall with
    | none => "None"
    | some w => "Some(" ++ toString w.toNat ++ ")"
  "Env \x7b id: " ++ e.id.describe ++ ", parent: " ++ EnvId.describeOption e.parent ++ ", status: " ++ e.status.name ++
    ", pages: " ++ toString e.space.mappedPages ++ ", upcall: " ++ upcall ++ " \x7d"

end Env
end Exokernel
