import Exokernel.User.Process
/-!
# Copy on write

A page that is marked copy-on-write is shared and read-only.  A write to it faults, and the handler gives the program a
copy of its own: a fresh page is mapped at the scratch page, filled, and moved to where the fault was.
-/
namespace Exokernel.Routine

/-- Replace the page at `va` by a writable copy. -/
def copyPage (va : Word) : Routine :=
  let scratch := copyScratch.toUInt64
  let orFatal {α : Type} (op : String) (next : α → Routine) : Except Errno α → Routine
    | .error e => .fatal (.syscall op e)
    | .ok a => next a
  .call (.pageAlloc .self scratch .userWritable) <| orFatal "page_alloc" fun _ =>
    .load va pageSize fun
      | .error _ => .fatal (.syscall "copy" .fault)
      | .ok bytes => .store scratch bytes fun
        | .error _ => .fatal (.syscall "copy" .fault)
        | .ok () =>
          .call (.pageMap .self scratch .self va .userWritable) <| orFatal "page_map" fun _ =>
            .call (.pageUnmap .self scratch) <| orFatal "page_unmap" fun _ => .done

/-- Copy the page at `va` if the fault was a write and the page is marked; panic otherwise. -/
def copyIfMarked (r : FaultRecord) (va : Word) (perm : Option Perm) : Routine :=
  if r.code.contains .write && perm.any (·.contains .cow) then
    .enter fun
      | .error e => .fatal (.syscall "cpu" e)
      | .ok () => copyPage va
  else .fatal (.fault r.address r.code r.regs.sepc)

/-- **The copy-on-write handler.** -/
def copyOnWrite : FaultHandler := fun r =>
  let va := (pageDown r.address.toNat).toUInt64
  .enter fun
    | .error _ => copyIfMarked r va none
    | .ok () => .query va (copyIfMarked r va)

end Exokernel.Routine
