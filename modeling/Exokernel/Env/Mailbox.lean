import Exokernel.Env.Id
import Exokernel.Perm
import Exokernel.VirtAddr
/-!
# Mailboxes

An environment that waits for a message says so in its mailbox, with the page where it wants a sent page mapped, if it
wants one.  The message that ends the wait stays there until the next one.
-/
namespace Exokernel

/-- The receiving side of an environment. -/
structure Mailbox where
  receiving : Bool := false
  /-- Where a sent page goes. -/
  target : Option VirtAddr := none
  sender : EnvId := .self
  value : UInt32 := 0
  /-- The permission of the page that came with the message, empty if none did. -/
  perm : Perm := .empty
deriving DecidableEq

namespace Mailbox

instance : Inhabited Mailbox := ⟨{}⟩

def await (b : Mailbox) (target : Option VirtAddr) : Mailbox := { b with receiving := true, target }

/-- **A message ends the wait.** -/
def deliver (b : Mailbox) (sender : EnvId) (value : UInt32) (perm : Perm) : Mailbox :=
  { b with receiving := false, sender, value, perm }

end Mailbox
end Exokernel
