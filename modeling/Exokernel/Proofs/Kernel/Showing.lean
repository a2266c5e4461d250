import Exokernel.Proofs.Kernel.Sharing
import Exokernel.Proofs.Paging.Showing
import Exokernel.Proofs.Syscall.Ecall
/-!
# A kernel on what is shown of its memory

Nothing that a program can do tells the kernel from what is shown of it, as long as every frame that the program has
mapped is shown: a call, an access to memory and a fault give the same on both, and lead to states of which the same is
shown.
-/
namespace Exokernel

/-- The kernel with the pages of all frames blanked but those that are shown. -/
def Kernel.showing (k : Kernel) (S : Frame → Prop) [DecidablePred S] : Kernel :=
  { k with machine := k.machine.showing S }

namespace Kernel

variable (k : Kernel) (S : Frame → Prop) [DecidablePred S]

theorem env?_showing (i : EnvId) : (k.showing S).env? i = k.env? i := rfl

theorem machine_showing : (k.showing S).machine = k.machine.showing S := rfl

theorem log_showing (l : Line) : (k.showing S).log l = (k.log l).showing S := rfl

theorem setStatus_showing (i : EnvId) (s : EnvStatus) : (k.showing S).setStatus i s = (k.setStatus i s).showing S := rfl

theorem setRegisters_showing (i : EnvId) (r : Registers) :
    (k.showing S).setRegisters i r = (k.setRegisters i r).showing S := rfl

theorem allocFrame_showing : (k.showing S).allocFrame = Prod.map id (·.showing S) k.allocFrame := by
  unfold allocFrame
  rw [showing, Machine.alloc_showing]
  rfl

theorem releaseFrame_showing (f : Frame) : (k.showing S).releaseFrame f = (k.releaseFrame f).showing S := by
  rw [releaseFrame, showing, Machine.release_showing]
  rfl

theorem createEnv_showing (parent : Option EnvId) :
    (k.showing S).createEnv parent = Prod.map id (·.showing S) (k.createEnv parent) := by
  unfold createEnv
  dsimp only [showing]
  cases k.envs.firstFree? with
  | none => rfl
  | some index =>
    dsimp only
    rw [AddressSpace.alloc_showing]
    rcases AddressSpace.alloc k.machine pool with ⟨_ | space, m⟩ <;> rfl

theorem destroyEnv_showing (i : EnvId) :
    (k.showing S).destroyEnv i = Prod.map id (·.showing S) (k.destroyEnv i) := by
  cases he : k.env? i with
  | none =>
    rw [destroyEnv_of_env?_none he, destroyEnv_of_env?_none (k := k.showing S) he]
    rfl
  | some e =>
    rw [destroyEnv_of_env? he, destroyEnv_of_env? (k := k.showing S) he]
    simp only [showing, Machine.log_showing, AddressSpace.drop_showing, Prod.map, id]

theorem mapInto_showing (e : Env) (f : Frame) (v : VirtAddr) (p : Perm) :
    (k.showing S).mapInto e f v p = Prod.map id (·.showing S) (k.mapInto e f v p) := by
  unfold mapInto
  dsimp only [showing]
  rw [AddressSpace.map_showing]
  rcases e.space.map k.machine pool f v p with ⟨_ | space, m⟩ <;> rfl

theorem unmapFrom_showing (e : Env) (v : VirtAddr) : (k.showing S).unmapFrom e v = (k.unmapFrom e v).showing S := by
  unfold unmapFrom
  dsimp only [showing]
  rw [AddressSpace.unmap_showing]
  rfl

/-! ## Messages -/

theorem transfer_showing (t : Env) (offered : Option (Frame × Perm)) :
    (k.showing S).transfer t offered = Prod.map id (·.showing S) (k.transfer t offered) := by
  unfold transfer
  split
  next f p v _ =>
    rw [mapInto_showing]
    rcases k.mapInto t f v p with ⟨_ | _, k₁⟩ <;> rfl
  · rfl

theorem send_showing (c : EnvId) (req : SendRequest) :
    (k.showing S).send c req = Prod.map id (·.showing S) (k.send c req) := by
  unfold send
  rw [show (k.showing S).checkSend c req = k.checkSend c req from rfl]
  rcases k.checkSend c req with err | ⟨t, offered⟩
  · rfl
  · dsimp only
    rw [transfer_showing]
    rcases k.transfer t offered with ⟨_ | _, k₁⟩ <;> rfl

theorem receive_showing (c : EnvId) (target : Option VirtAddr) :
    (k.showing S).receive c target = Prod.map id (·.showing S) (k.receive c target) := by
  unfold receive
  rw [env?_showing]
  cases k.env? c <;> rfl

end Kernel

/-! ## Services -/

namespace Syscall

variable (k : Kernel) (S : Frame → Prop) [DecidablePred S] (c : EnvId) (a : CallArgs)

theorem authorizeWord_showing (w : Word) : authorizeWord (k.showing S) c w = authorizeWord k c w := rfl

theorem callerEnv_showing : callerEnv (k.showing S) c = callerEnv k c := rfl

theorem envDestroy_showing : envDestroy (k.showing S) c a = Prod.map id (·.showing S) (envDestroy k c a) := by
  unfold envDestroy
  rw [authorizeWord_showing]
  cases authorizeWord k c (a.word 0) with
  | error e => rfl
  | ok t =>
    dsimp only
    rw [Kernel.destroyEnv_showing]
    rcases k.destroyEnv t.id with ⟨_ | _, k₁⟩
    · rfl
    · dsimp only [Prod.map, id]
      split <;> rfl

theorem pageAlloc_showing : pageAlloc (k.showing S) c a = Prod.map id (·.showing S) (pageAlloc k c a) := by
  unfold pageAlloc
  rw [show pageAllocArgs (k.showing S) c a = pageAllocArgs k c a from rfl]
  rcases pageAllocArgs k c a with err | ⟨t, v, p⟩
  · rfl
  · dsimp only
    rw [Kernel.allocFrame_showing]
    rcases k.allocFrame with ⟨_ | f, k₁⟩
    · rfl
    · dsimp only [Prod.map, id]
      rw [Kernel.mapInto_showing]
      rcases k₁.mapInto t f v p with ⟨_ | _, k₂⟩ <;> exact congrArg _ (Kernel.releaseFrame_showing k₂ S f)

theorem pageMap_showing : pageMap (k.showing S) c a = Prod.map id (·.showing S) (pageMap k c a) := by
  unfold pageMap
  rw [show pageMapArgs (k.showing S) c a = pageMapArgs k c a from rfl]
  rcases pageMapArgs k c a with err | ⟨pte, t, v, p⟩
  · rfl
  · dsimp only
    rw [Kernel.mapInto_showing]
    rcases k.mapInto t pte.frame v p with ⟨_ | _, k₁⟩ <;> rfl

theorem pageUnmap_showing : pageUnmap (k.showing S) c a = Prod.map id (·.showing S) (pageUnmap k c a) := by
  unfold pageUnmap
  rw [show pageUnmapArgs (k.showing S) c a = pageUnmapArgs k c a from rfl]
  rcases pageUnmapArgs k c a with err | ⟨t, v⟩
  · rfl
  · exact congrArg _ (Kernel.unmapFrom_showing k S t v)

theorem exofork_showing : exofork (k.showing S) c a = Prod.map id (·.showing S) (exofork k c a) := by
  unfold exofork
  rw [callerEnv_showing]
  cases callerEnv k c with
  | error e => rfl
  | ok parent =>
    dsimp only
    rw [Kernel.createEnv_showing]
    rcases k.createEnv (some c) with ⟨_ | child, k₁⟩
    · rfl
    · dsimp only [Prod.map, id]
      rw [Kernel.env?_showing]
      cases k₁.env? child <;> rfl

theorem envSetStatus_showing : envSetStatus (k.showing S) c a = Prod.map id (·.showing S) (envSetStatus k c a) := by
  unfold envSetStatus
  rw [show envSetStatusArgs (k.showing S) c a = envSetStatusArgs k c a from rfl]
  rcases envSetStatusArgs k c a with err | ⟨t, s⟩ <;> rfl

/-- The one service that reads memory reads that of its caller. -/
theorem envSetTrapframe_showing (h : ∀ e, k.env? c = some e → e.space.ShownBy S) :
    envSetTrapframe (k.showing S) c a = Prod.map id (·.showing S) (envSetTrapframe k c a) := by
  have hargs : envSetTrapframeArgs (k.showing S) c a = envSetTrapframeArgs k c a := by
    unfold envSetTrapframeArgs
    rw [authorizeWord_showing, callerEnv_showing]
    dsimp only [bind, Except.bind]
    cases authorizeWord k c (a.word 0) with
    | error e => rfl
    | ok t =>
      cases hme : callerEnv k c with
      | error e => rfl
      | ok me =>
        dsimp only
        rw [Kernel.machine_showing, AddressSpace.read_showing _ (h me (callerEnv_ok hme))]
  unfold envSetTrapframe
  rw [hargs]
  rcases envSetTrapframeArgs k c a with err | ⟨t, bytes⟩ <;> rfl

theorem envSetPgfaultUpcall_showing :
    envSetPgfaultUpcall (k.showing S) c a = Prod.map id (·.showing S) (envSetPgfaultUpcall k c a) := by
  unfold envSetPgfaultUpcall
  rw [authorizeWord_showing]
  cases authorizeWord k c (a.word 0) <;> rfl

theorem yield_showing : yield (k.showing S) c a = Prod.map id (·.showing S) (yield k c a) := by
  unfold yield
  rw [callerEnv_showing, Kernel.setStatus_showing]
  cases callerEnv k c with
  | error e => rfl
  | ok e =>
    dsimp only
    rw [show ((k.setStatus c .runnable).showing S).scheduler = (k.setStatus c .runnable).scheduler from rfl]
    rcases (k.setStatus c .runnable).scheduler.yieldCurrent.scheduleNext with ⟨_ | next, s⟩ <;> rfl

theorem ipcTrySend_showing : ipcTrySend (k.showing S) c a = Prod.map id (·.showing S) (ipcTrySend k c a) := by
  unfold ipcTrySend
  cases ipcTrySendArgs a with
  | error e => rfl
  | ok req =>
    dsimp only
    rw [Kernel.send_showing]
    rcases k.send c req with ⟨_ | _, k₁⟩ <;> rfl

theorem ipcRecv_showing : ipcRecv (k.showing S) c a = Prod.map id (·.showing S) (ipcRecv k c a) := by
  unfold ipcRecv
  cases decodeOptionalPage (a.word 0) with
  | error e => rfl
  | ok target =>
    dsimp only
    rw [Kernel.receive_showing]
    rcases k.receive c target with ⟨_ | _, k₁⟩ <;> rfl

/-- **No service tells the kernel from what is shown of it.** -/
theorem handler_showing (h : ∀ e, k.env? c = some e → e.space.ShownBy S) (s : Service) :
    s.handler (k.showing S) c a = Prod.map id (·.showing S) (s.handler k c a) := by
  cases s with
  | getEnvId => rfl
  | envDestroy => exact envDestroy_showing k S c a
  | pageAlloc => exact pageAlloc_showing k S c a
  | pageMap => exact pageMap_showing k S c a
  | pageUnmap => exact pageUnmap_showing k S c a
  | exofork => exact exofork_showing k S c a
  | envSetStatus => exact envSetStatus_showing k S c a
  | envSetTrapframe => exact envSetTrapframe_showing k S c a h
  | envSetPgfaultUpcall => exact envSetPgfaultUpcall_showing k S c a
  | yield => exact yield_showing k S c a
  | ipcTrySend => exact ipcTrySend_showing k S c a
  | ipcRecv => exact ipcRecv_showing k S c a

end Syscall

theorem SyscallTable.dispatch_showing (k : Kernel) (S : Frame → Prop) [DecidablePred S] (c : EnvId) (a : CallArgs)
    (h : ∀ e, k.env? c = some e → e.space.ShownBy S) (n : Nat) :
    standard.dispatch n (k.showing S) c a = Prod.map id (·.showing S) (standard.dispatch n k c a) := by
  unfold dispatch
  rw [standard_handler]
  cases Service.all.find? fun s => s.number == n with
  | none => rfl
  | some s => exact Syscall.handler_showing k S c a h s

/-! ## Programs -/

namespace Kernel

variable (k : Kernel) (S : Frame → Prop) [DecidablePred S] {c : EnvId}

theorem answer_showing (ret : Word) : (k.showing S).answer c ret = Prod.map id (·.showing S) (k.answer c ret) := by
  unfold answer
  rw [env?_showing]
  cases k.env? c <;> rfl

theorem conclude_showing (number : Word) (r : Except SysError Word × Kernel) :
    conclude c number (Prod.map id (·.showing S) r) = Prod.map id (·.showing S) (conclude c number r) := by
  obtain ⟨err | ret, k⟩ := r
  · dsimp only [Prod.map, id, conclude]
    split
    · rfl
    · split
      · rfl
      · exact answer_showing (k.log (.callFailed c number err)) S err.errno.toWord
  · exact answer_showing k S ret

variable {k S} (h : ∀ e, k.env? c = some e → e.space.ShownBy S)
include h

theorem ecall_showing (number : Word) (args : Vector Word 5) :
    (k.showing S).ecall c number args = Prod.map id (·.showing S) (k.ecall c number args) := by
  cases he : k.env? c with
  | none =>
    rw [ecall, ecall, env?_showing, he]
    rfl
  | some e =>
    rw [ecall_eq he, ecall_eq (k := k.showing S) he, setRegisters_showing, SyscallTable.dispatch_showing, conclude_showing]
    intro e' he'
    rw [env?_setRegisters, he, Option.map_some, if_pos rfl] at he'
    cases he'
    exact h e he

omit h in
theorem kill_showing : (k.showing S).kill c = (k.kill c).showing S := by
  unfold kill
  rw [destroyEnv_showing]
  rcases k.destroyEnv c with ⟨_ | _, k₁⟩ <;> rfl

theorem deliverFault_showing (f : PageFault) :
    (k.showing S).deliverFault c f = Prod.map id (·.showing S) (k.deliverFault c f) := by
  unfold deliverFault
  rw [env?_showing]
  cases he : k.env? c with
  | none => rfl
  | some e =>
    simp only [log_showing, kill_showing, machine_showing, AddressSpace.write_showing _ (h e he)]
    cases e.upcall with
    | none => rfl
    | some entry =>
      dsimp only
      cases recordAddress? e.regs.sp with
      | none => rfl
      | some record =>
        dsimp only
        cases e.space.write k.machine record (FaultRecord.encode ⟨f.address.toUInt64, f.code, e.regs⟩).toArray with
        | error _ => rfl
        | ok m => rfl

theorem raise_showing (f : PageFault) : (k.showing S).raise c f = Prod.map id (·.showing S) (k.raise c f) := by
  have h' : ∀ e, (k.log (.faulted c f)).env? c = some e → e.space.ShownBy S := h
  rw [raise, log_showing, deliverFault_showing h', raise]

theorem load_showing (a : Word) (len : Nat) :
    (k.showing S).load c a len = Prod.map id (·.showing S) (k.load c a len) := by
  unfold load
  rw [env?_showing]
  cases he : k.env? c with
  | none => rfl
  | some e =>
    dsimp only
    rw [machine_showing, AddressSpace.read_showing _ (h e he)]
    cases e.space.read k.machine a.toNat len with
    | ok bytes => rfl
    | error f =>
      dsimp only
      rw [raise_showing h]
      rfl

theorem store_showing (a : Word) (data : Bytes) :
    (k.showing S).store c a data = Prod.map id (·.showing S) (k.store c a data) := by
  unfold store
  rw [env?_showing]
  cases he : k.env? c with
  | none => rfl
  | some e =>
    dsimp only
    rw [machine_showing, AddressSpace.write_showing _ (h e he)]
    cases e.space.write k.machine a.toNat data with
    | ok m => rfl
    | error f =>
      dsimp only [Except.map]
      rw [raise_showing h]
      rfl

omit h in
theorem resumeWith_showing (r : Registers) :
    (k.showing S).resumeWith c r = Prod.map id (·.showing S) (k.resumeWith c r) := by
  unfold resumeWith
  rw [env?_showing]
  cases k.env? c <;> rfl

end Kernel
end Exokernel
