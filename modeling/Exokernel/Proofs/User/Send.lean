import Exokernel.Proofs.Kernel.Turns
import Exokernel.Proofs.Syscall.Verdict
import Exokernel.Proofs.User.Call
/-!
# Sending

A send tries again as long as nobody waits for its message, and gives the processor away between two tries.  Nobody else
runs in the meantime, so all tries end alike: a send is its first try, and some turns (`UserProcess.send_is_one_try`).
-/
namespace Exokernel

namespace Syscall

variable {k : Kernel} {c : EnvId} {a : CallArgs} {err : SysError}

/-- **It is a check that fails for want of a waiting receiver**, before the send moves anything. -/
theorem ipcTrySend_error_iff (he : err.errno = .ipcNotRecv) :
    (ipcTrySend k c a).1 = .error err ↔ sendArgs k c a = .error err := by
  constructor
  · intro h
    cases hs : sendArgs k c a with
    | error err' =>
      rw [ipcTrySend_of_sendArgs hs] at h
      exact congrArg _ (Except.error.inj h)
    | ok r =>
      obtain ⟨req, t, offered⟩ := r
      obtain ⟨hreq, hcheck⟩ := sendArgs_ok hs
      unfold ipcTrySend Kernel.send at h
      rw [hreq] at h
      dsimp only at h
      rw [hcheck] at h
      dsimp only at h
      -- what is left to fail is the mapping of the page, for want of memory
      rcases ht : k.transfer t offered with ⟨err' | p, k'⟩
      all_goals
        rw [ht] at h
        cases h
      cases he
  · intro hs
    rw [ipcTrySend_of_sendArgs hs]

/-! ## The request of a send

The words of a send name its receiver, its message and what it offers (`ipcTrySendArgs_trySend`).
-/

/-- **A permission is read as it was named**, or refused if no call may install it. -/
theorem bind_decodePerm {α : Type} (p : Perm) (f : Perm → Except SysError α) :
    (decodePerm p.toWord >>= fun q => checkPerm q >>= fun _ => f q) =
      if p.settable then f p else .error .invalidArgument := by
  by_cases hp : p.settable
  · have hbits : Perm.syscall.bits &&& p.bits = p.bits := eq_of_beq (Bool.and_eq_true_iff.1 hp).2
    -- the bits that a call may install all have names
    have hnamed : p.toWord &&& Perm.all.bits.toUInt64 = p.toWord := by
      rw [Perm.toWord, ← UInt32.toUInt64_and, ← hbits, UInt32.and_assoc, UInt32.and_comm p.bits, ← UInt32.and_assoc]
      rfl
    have hread : decodePerm p.toWord = .ok p := by
      rw [decodePerm, Perm.ofWord?, hnamed, if_pos BEq.rfl, Perm.toWord, UInt32.toUInt32_toUInt64]
    have hcheck : checkPerm p = .ok () := if_pos hp
    rw [hread, if_pos hp]
    change (checkPerm p >>= fun _ => f p) = f p
    rw [hcheck]
    rfl
  · rw [if_neg hp]
    cases hq : decodePerm p.toWord with
    | error err =>
      unfold decodePerm at hq
      split at hq
      · cases hq
        rfl
      · cases hq
    | ok q =>
      obtain rfl := perm_of_decodePerm hq
      have hcheck : checkPerm q = .error .invalidArgument := if_neg hp
      change (checkPerm q >>= fun _ => f q) = _
      rw [hcheck]
      rfl

/-- What a send offers: a page, with a permission that a call may install.  An address that is no user address stands
for no page, and its permission for nothing. -/
def offered : Option (Word × Perm) → Except SysError (Option (VirtAddr × Perm))
  | none => .ok none
  | some (w, p) =>
    if userTop ≤ w.toNat then .ok none
    else
      match VirtAddr.pageOfNat? w.toNat with
      | none => .error .invalidArgument
      | some v => if p.settable then .ok (some (v, p)) else .error .invalidArgument

/-- **The kernel reads the request that the program meant**, with its receiver, its message and what it offers, and
refuses it just when what it offers will not do. -/
theorem ipcTrySendArgs_trySend (receiver : EnvId) (value : UInt32) (page : Option (Word × Perm)) :
    ipcTrySendArgs ((Call.trySend receiver value page).args.push 0) =
      (offered page).map fun o => ⟨receiver, value, o⟩ := by
  have hmeant (o : Option (VirtAddr × Perm)) :
      (decodeEnv receiver.toWord >>= fun r => pure (⟨r, value.toUInt64.toUInt32, o⟩ : SendRequest)) =
        .ok ⟨receiver, value, o⟩ := by
    rw [decodeEnv_toWord, UInt32.toUInt32_toUInt64]
    rfl
  cases page with
  | none => exact hmeant none
  | some wp =>
    obtain ⟨w, p⟩ := wp
    unfold ipcTrySendArgs
    change (decodeOptionalPage w >>= _) = _
    rw [decodeOptionalPage, offered]
    by_cases hw : userTop ≤ w.toNat
    · rw [if_pos hw, if_pos hw]
      exact hmeant none
    · rw [if_neg hw, if_neg hw, decodePage]
      cases VirtAddr.pageOfNat? w.toNat with
      | none => rfl
      | some v =>
        refine (bind_decodePerm p _).trans ?_
        by_cases hp : p.settable
        · rw [if_pos hp]
          dsimp only
          rw [if_pos hp]
          exact hmeant (some (v, p))
        · rw [if_neg hp]
          dsimp only
          rw [if_neg hp]
          rfl

theorem offered_of_ipcTrySendArgs {receiver : EnvId} {value : UInt32} {page : Option (Word × Perm)} {req : SendRequest}
    (h : ipcTrySendArgs ((Call.trySend receiver value page).args.push 0) = .ok req) : ∃ o, offered page = .ok o := by
  rw [ipcTrySendArgs_trySend] at h
  cases ho : offered page with
  | error err =>
    rw [ho] at h
    cases h
  | ok o => exact ⟨o, rfl⟩

end Syscall

namespace Kernel

variable {k k' : Kernel} {c s : EnvId} {req : SendRequest} {err : IpcError} {args : Vector Word 5}

/-! ## Messages that nobody waits for -/

/-- A program asks to send a message for which its receiver does not wait. -/
def Unawaited (k : Kernel) (c : EnvId) (args : Vector Word 5) : Prop :=
  ∃ err, Syscall.sendArgs k c (args.push 0) = .error err ∧ err.errno = .ipcNotRecv

theorem Turned.offer (h : k.Turned k' c) (s : EnvId) (page : Option (VirtAddr × Perm)) :
    k'.offer s page = k.offer s page := by
  unfold Kernel.offer
  cases page with
  | none => rfl
  | some vp =>
    cases he : k.env? s with
    | none => rw [h.env?_none he]
    | some e =>
      obtain ⟨e', he', ht⟩ := h.env s e he
      rw [he']
      dsimp only
      rw [ht.space]

/-- **Turns make no message welcome.** -/
theorem Turned.checkSend_error (h : k.Turned k' c) (hs : k.checkSend s req = .error err) :
    k'.checkSend s req = .error err := by
  unfold checkSend at hs ⊢
  rw [Syscall.resolve_eq_get, EnvTable.get] at hs ⊢
  cases he : k.envs.get? (req.receiver.meant s) with
  | none =>
    have he' : k'.envs.get? (req.receiver.meant s) = none := h.env?_none he
    rw [he] at hs
    rw [he']
    exact hs
  | some e =>
    obtain ⟨e', he', ht⟩ := h.env _ e he
    have he' : k'.envs.get? (req.receiver.meant s) = some e' := he'
    rw [he] at hs
    rw [he', h.offer]
    dsimp only at hs ⊢
    cases ho : k.offer s req.page with
    | error err' =>
      rw [ho] at hs
      exact hs
    | ok offered =>
      rw [ho] at hs
      dsimp only at hs ⊢
      rw [ht.mailbox]
      split at hs
      · cases hs
      next hr =>
        rw [if_neg hr]
        exact hs

theorem Turned.unawaited (h : k.Turned k' c) (hu : k.Unawaited s args) : k'.Unawaited s args := by
  obtain ⟨err, hs, he⟩ := hu
  refine ⟨err, ?_, he⟩
  unfold Syscall.sendArgs at hs ⊢
  cases hreq : Syscall.ipcTrySendArgs (args.push 0) with
  | error err' =>
    rw [hreq] at hs
    exact hs
  | ok req =>
    rw [hreq] at hs
    have hs : ((k.checkSend s req).mapError SysError.ipc >>= fun r => pure (req, r)) = .error err := hs
    show ((k'.checkSend s req).mapError SysError.ipc >>= fun r => pure (req, r)) = .error err
    cases hc : k.checkSend s req with
    | error err' =>
      rw [h.checkSend_error hc]
      rw [hc] at hs
      exact hs
    | ok r =>
      rw [hc] at hs
      cases hs

/-! ## How the calls of a sender end -/

/-- The word that a call answers with which has no result but success. -/
def reply : Except Errno Unit → Word
  | .ok () => 0
  | .error e => e.toWord

theorem decode_reply (r : Except Errno Unit) : Errno.decode (reply r) = r.map fun _ => 0 := by
  cases r with
  | ok u => rfl
  | error e => exact e.decode_toWord

theorem reply_eq_zero_iff {r : Except Errno Unit} : reply r = 0 ↔ r = .ok () := by
  constructor
  · intro h
    have hr := decode_reply r
    rw [h] at hr
    cases r with
    | ok u => rfl
    | error e => cases hr
  · rintro rfl
    rfl

theorem call_of_reply {x : Call} {r : Except Errno Unit}
    (h : k.ecall c x.service.number.toUInt64 x.args = (.returned (reply r), k')) :
    k.call c x = (r.map fun _ => 0, k') := by
  rw [call_eq, h, ← decode_reply]
  rfl

theorem conclude_ok (hc : k.env? c ≠ none) (number ret : Word) :
    ∃ k', conclude c number (.ok ret, k) = (.returned ret, k') ∧ k.Turned k' c :=
  ⟨_, answer_of_env? hc ret, .modifyRegs k c (·.setA0 ret)⟩

theorem conclude_error {err : SysError} (hc : k.env? c ≠ none) (number : Word) (hp : Syscall.Plain err) :
    ∃ k', conclude c number (.error err, k) = (.returned err.errno.toWord, k') ∧ k.Turned k' c := by
  refine ⟨_, ?_, (Turned.log k c (.callFailed c number err)).trans (.modifyRegs _ c (·.setA0 err.errno.toWord))⟩
  have hc : (k.log (.callFailed c number err)).env? c ≠ none := hc
  rw [conclude, if_neg hp.1, if_neg hp.2]
  exact answer_of_env? hc _

/-- **A call is left to its handler**, which runs where only the registers of the caller are others than before, and finds
the words of the call. -/
theorem ecall_entered (hc : k.env? c ≠ none) (x : Service) (args : Vector Word 5) : ∃ k₀ a,
    k.ecall c x.number.toUInt64 args = conclude c x.number.toUInt64 (x.handler k₀ c a) ∧
      k.Turned k₀ c ∧ (k.Sound [] → k₀.Sound []) ∧ (k.Scheduled → k₀.Scheduled) ∧
      ∀ n (hn : n < 5), a.word n = args[n] := by
  obtain ⟨e, he⟩ := Option.ne_none_iff_exists'.1 hc
  have hn : x.number.toUInt64.toNat = x.number := by cases x <;> rfl
  refine ⟨k.setRegisters c (e.regs.called x.number.toUInt64 args), argsOf (e.regs.called x.number.toUInt64 args), ?_,
    .modifyRegs k c fun _ => _, fun hk => hk.setRegisters c _, fun hs => hs.setRegisters c _,
    fun _ hn => word_argsOf_called e.regs _ args hn⟩
  rw [ecall_eq he, hn, SyscallTable.dispatch_number]

/-- **How a try to send ends**: it is refused for want of a receiver just when its message is unawaited, and then nothing
but turns has changed. -/
theorem ecall_trySend (hk : k.Sound []) (hc : k.env? c ≠ none) (receiver : EnvId) (value : UInt32)
    (page : Option (Word × Perm)) : ∃ r k',
      k.ecall c Service.ipcTrySend.number.toUInt64 (Call.trySend receiver value page).args = (.returned (reply r), k') ∧
      (r = .error .ipcNotRecv ↔ k.Unawaited c (Call.trySend receiver value page).args) ∧
      (r = .error .ipcNotRecv → k.Turned k' c) ∧
      (r = .ok () → ∃ req, Syscall.ipcTrySendArgs ((Call.trySend receiver value page).args.push 0) = .ok req) := by
  generalize (Call.trySend receiver value page).args = args
  obtain ⟨k₀, a, hecall, hent, hsound, -, hwords⟩ := ecall_entered hc .ipcTrySend args
  have hk₀ := hsound hk
  have hc₀ := env?_of_sameTags hent.sameTags hc
  have hargs := ipcTrySendArgs_eq hwords
  have hsend : Syscall.sendArgs k₀ c a = Syscall.sendArgs k₀ c (args.push 0) := by
    rw [Syscall.sendArgs, Syscall.sendArgs, hargs]
  rcases hh : Syscall.ipcTrySend k₀ c a with ⟨out, k₁⟩
  -- the message is as unawaited for the handler as it was before the call
  have hun : k.Unawaited c args ↔ ∃ err, out = .error err ∧ err.errno = .ipcNotRecv := by
    refine Iff.trans ⟨hent.unawaited, hent.symm.unawaited⟩ (exists_congr fun err => and_congr_left fun he => ?_)
    rw [← hsend, ← Syscall.ipcTrySend_error_iff he, hh]
  have heff := Syscall.effect_of_handler hk₀ (s := .ipcTrySend) hh
  have hc₁ (hx : out ≠ .error .envExit) : k₁.env? c ≠ none := env?_of_effect heff hk₀ hc₀ hx
  have hh' : Service.ipcTrySend.handler k₀ c a = (out, k₁) := hh
  rw [hecall, hh']
  cases heff with
  | @refused _ err _ hb hp =>
    obtain ⟨k', hconc, ht⟩ := conclude_error (hc₁ fun h => hp.2 (Except.error.inj h)) Service.ipcTrySend.number.toUInt64 hp
    refine ⟨.error err.errno, k', hconc, ?_, fun hr => ?_, fun hr => by cases hr⟩
    · rw [hun, Except.error.injEq]
      constructor
      · intro he
        exact ⟨err, rfl, he⟩
      · rintro ⟨_, herr, he⟩
        cases herr
        exact he
    · have hs := (Syscall.ipcTrySend_error_iff (Except.error.inj hr)).1 (congrArg Prod.fst hh)
      rw [Syscall.ipcTrySend_of_sendArgs hs] at hh
      cases hh
      exact hent.trans ht
  | @sent req t offered q k₂ hreq hs ht =>
    obtain ⟨k', hconc, -⟩ := conclude_ok (hc₁ fun h => by cases h) Service.ipcTrySend.number.toUInt64 0
    refine ⟨.ok (), k', hconc, ?_, (by intro hr; cases hr), fun _ => ⟨req, hargs.symm.trans hreq⟩⟩
    rw [hun]
    constructor
    · intro hr
      cases hr
    · rintro ⟨_, herr, -⟩
      cases herr

/-- **Giving the processor away succeeds**, and changes nothing but turns. -/
theorem ecall_yield (hk : k.Sound []) (hs : k.Scheduled) (hr : k.Ready c) : ∃ k',
    k.ecall c Service.yield.number.toUInt64 Call.yield.args = (.returned (reply (.ok ())), k') ∧ k.Turned k' c := by
  obtain ⟨e, he, -⟩ := id hr
  have hc : k.env? c ≠ none := by rw [he]; simp
  obtain ⟨k₀, a, hecall, hent, hsound, hsched, -⟩ := ecall_entered hc .yield Call.yield.args
  have hk₀ := hsound hk
  have hc₀ := env?_of_sameTags hent.sameTags hc
  have hok := Syscall.yield_ok (a := a) hc₀
  rcases hh : Syscall.yield k₀ c a with ⟨out, k₁⟩
  rw [hh] at hok
  obtain rfl : out = .ok 0 := hok
  have heff := Syscall.effect_of_handler (a := a) hk₀ (s := .yield) hh
  have hh' : Service.yield.handler k₀ c a = (.ok 0, k₁) := hh
  rw [hecall, hh']
  obtain ⟨k', hconc, ht⟩ := conclude_ok (env?_of_effect heff hk₀ hc₀ nofun) Service.yield.number.toUInt64 0
  exact ⟨k', hconc, (hent.trans (.yield (hsched hs) (hent.ready hr) heff rfl)).trans ht⟩

/-! ## Programs at their turn -/

/-- Whoever is ready can be given the processor. -/
theorem Ready.dispatch (hr : k.Ready c) : ∃ k', k.dispatch c = .ok k' ∧ k'.Ready c ∧ k'.scheduler.Holds c := by
  obtain ⟨e, he, hst⟩ := hr
  obtain ⟨k', hk'⟩ : ∃ k', k.dispatch c = .ok k' := by
    unfold Kernel.dispatch
    rw [he]
    dsimp only
    rw [hst]
    exact ⟨_, rfl⟩
  obtain ⟨e', he', hres⟩ := Reschedules.dispatch hk' c e he
  refine ⟨k', hk', ⟨e', he', (hres.turned True).isRunnable.trans hst⟩, Or.inr ?_⟩
  obtain ⟨-, -, -, hroster⟩ := roster_dispatch hk'
  have hsch : k'.scheduler = (k.roster.dispatch c).scheduler := congrArg Roster.scheduler hroster
  rw [hsch]
  unfold Roster.dispatch
  split
  next hc => exact hc
  · rfl

theorem Reachable.dispatch (hk : k.Reachable) (h : k.dispatch c = .ok k') : k'.Reachable := by
  have hstep := Reachable.step hk (.dispatch c)
  rwa [Kernel.step, h] at hstep

/-- **A sender in vain**: it goes on getting the processor, and its message goes on being unawaited. -/
structure InVain (k : Kernel) (c : EnvId) (args : Vector Word 5) : Prop where
  reachable : k.Reachable
  ready : k.Ready c
  held : k.scheduler.Holds c
  unawaited : k.Unawaited c args

theorem InVain.turned (h : k.InVain c args) (ht : k.Turned k' c) (hk' : k'.Reachable) : k'.InVain c args :=
  ⟨hk', ht.ready h.ready, ht.holds_iff.2 h.held, ht.unawaited h.unawaited⟩

theorem sentTo_append (j : EnvId) (k : Kernel) (events later : List Event) :
    sentTo j k (events ++ later) = sentTo j k events ++ sentTo j (k.run events) later := by
  induction events generalizing k with
  | nil => rfl
  | cons event rest ih =>
    rw [List.cons_append, sentTo, sentTo, ih, List.append_assoc]
    rfl

theorem run_append (k : Kernel) (events later : List Event) : k.run (events ++ later) = (k.run events).run later :=
  List.foldl_append

end Kernel

namespace UserProcess

open Kernel

variable {p : UserProcess} {k k₁ k' : Kernel} {receiver : EnvId} {value : UInt32} {page : Option (Word × Perm)}

/-- What happens when a program takes the processor and makes a call. -/
def callEvents (p : UserProcess) (x : Call) : List Event :=
  [.dispatch p.env, .perform p.env (.ecall x.service.number.toUInt64 x.args)]

/-- **A program at its turn makes a call** that returns. -/
theorem call_of_ecall {x : Call} {r : Except Errno Unit} (hd : k.dispatch p.env = .ok k₁)
    (h : k₁.ecall p.env x.service.number.toUInt64 x.args = (.returned (reply r), k')) :
    p.call k x = (r, k') ∧ k.run (p.callEvents x) = k' := by
  constructor
  · rw [call, enter, hd]
    dsimp only
    rw [call_of_reply h]
    cases r <;> rfl
  · have hstep : k.step (.dispatch p.env) = k₁ := by rw [Kernel.step, hd]
    rw [callEvents, Kernel.run, List.foldl_cons, List.foldl_cons, hstep]
    exact congrArg Prod.snd h

/-- What a call hands over it hands over at its turn. -/
theorem sentTo_callEvents (hd : k.dispatch p.env = .ok k₁) (x : Call) (j : EnvId) : sentTo j k (p.callEvents x) =
    (k₁.sentTo? j (.perform p.env (.ecall x.service.number.toUInt64 x.args))).toList := by
  have hk₁ : k.step (.dispatch p.env) = k₁ := by rw [Kernel.step, hd]
  have hnone : k.sentTo? j (.dispatch p.env) = none := rfl
  rw [callEvents, sentTo, sentTo, sentTo, hk₁, hnone, List.append_nil]
  rfl

/-! ## One try -/

/-- **What a try to send comes to**: its result `r` and the state `k'` after it.  `k₁` is the state at the turn of its
program. -/
structure Tries (p : UserProcess) (k k₁ k' : Kernel) (receiver : EnvId) (value : UInt32) (page : Option (Word × Perm))
    (r : Except Errno Unit) : Prop where
  dispatch : k.dispatch p.env = .ok k₁
  reachable : k₁.Reachable
  ready : k₁.Ready p.env
  held : k₁.scheduler.Holds p.env
  outcome : k₁.outcome (.perform p.env (.ecall Service.ipcTrySend.number.toUInt64
    (Call.trySend receiver value page).args)) = some (.returned (reply r))
  trySend : p.trySend k receiver value page = (r, k')
  run : k.run (p.callEvents (.trySend receiver value page)) = k'
  unawaited_iff : r = .error .ipcNotRecv ↔ k₁.Unawaited p.env (Call.trySend receiver value page).args
  turned (h : r = .error .ipcNotRecv) : k₁.Turned k' p.env
  offered (h : r = .ok ()) : ∃ o, Syscall.offered page = .ok o

theorem tries (hk : k.Reachable) (hr : k.Ready p.env) (receiver : EnvId) (value : UInt32) (page : Option (Word × Perm)) :
    ∃ k₁ k' r, p.Tries k k₁ k' receiver value page r := by
  obtain ⟨k₁, hd, hready, hheld⟩ := hr.dispatch
  have hk₁ := hk.dispatch hd
  obtain ⟨e, he, -⟩ := id hready
  obtain ⟨r, k', hecall, hun, ht, hreq⟩ := ecall_trySend hk₁.sound (c := p.env) (by rw [he]; simp) receiver value page
  obtain ⟨hcall, hrun⟩ := call_of_ecall (x := .trySend receiver value page) hd hecall
  exact ⟨k₁, k', r, hd, hk₁, hready, hheld, congrArg (fun out : Ecall × Kernel => some out.1) hecall, hcall, hrun, hun, ht,
    fun h => (hreq h).elim fun _ => Syscall.offered_of_ipcTrySendArgs⟩

theorem run_trySend (hk : k.Reachable) (hr : k.Ready p.env) (receiver : EnvId) (value : UInt32)
    (page : Option (Word × Perm)) :
    k.run (p.callEvents (.trySend receiver value page)) = (p.trySend k receiver value page).2 := by
  obtain ⟨k₁, k', r, h⟩ := tries hk hr receiver value page
  rw [h.trySend, h.run]

/-- **Whoever has tried in vain does so for good.** -/
theorem inVain_of_trySend (hk : k.Reachable) (hr : k.Ready p.env)
    (hv : (p.trySend k receiver value page).1 = .error .ipcNotRecv) :
    (p.trySend k receiver value page).2.InVain p.env (Call.trySend receiver value page).args := by
  obtain ⟨k₁, k', r, h⟩ := tries hk hr receiver value page
  rw [h.trySend] at hv ⊢
  have hvain : k₁.InVain p.env (Call.trySend receiver value page).args :=
    ⟨h.reachable, h.ready, h.held, h.unawaited_iff.1 hv⟩
  refine hvain.turned (h.turned hv) ?_
  rw [← h.run]
  exact hk.run _

/-- **A message that nobody waits for is refused**, and nothing but turns has changed. -/
theorem trySend_of_inVain (hv : k.InVain p.env (Call.trySend receiver value page).args) :
    (p.trySend k receiver value page).1 = .error .ipcNotRecv ∧ k.Turned (p.trySend k receiver value page).2 p.env := by
  obtain ⟨k₁, k', r, h⟩ := tries hv.reachable hv.ready receiver value page
  have ht := Turned.dispatch hv.reachable.proper hv.held hv.ready h.dispatch p.env
  have hr := h.unawaited_iff.2 (ht.unawaited hv.unawaited)
  rw [h.trySend]
  exact ⟨hr, ht.trans (h.turned hr)⟩

/-- **A try delivers its message once if it succeeds**, and nothing if it does not. -/
theorem sentTo_trySend (hk : k.Reachable) (hr : k.Ready p.env) :
    ((p.trySend k receiver value page).1 = .ok () → ∃ perm, ∀ j, sentTo j k (p.callEvents (.trySend receiver value page)) =
      if j = receiver.meant p.env then [⟨p.env, value, perm⟩] else []) ∧
    ((p.trySend k receiver value page).1 ≠ .ok () →
      ∀ j, sentTo j k (p.callEvents (.trySend receiver value page)) = []) := by
  obtain ⟨k₁, k', r, h⟩ := tries hk hr receiver value page
  rw [h.trySend]
  constructor
  · intro hok
    obtain ⟨o, ho⟩ := h.offered hok
    have hrequest : Event.request? (.perform p.env (.ecall Service.ipcTrySend.number.toUInt64
        (Call.trySend receiver value page).args)) = some (p.env, ⟨receiver, value, o⟩) := by
      have hn : Service.ipcTrySend.number.toUInt64.toNat = Service.ipcTrySend.number := rfl
      rw [Event.request?, if_pos hn, Syscall.ipcTrySendArgs_trySend, ho]
      rfl
    refine ⟨k₁.granted (receiver.meant p.env) o, fun j => ?_⟩
    have hsent : k₁.sentTo? j (.perform p.env (.ecall Service.ipcTrySend.number.toUInt64
        (Call.trySend receiver value page).args)) =
        if j = receiver.meant p.env then some ⟨p.env, value, k₁.granted (receiver.meant p.env) o⟩ else none := by
      rw [sentTo?, hrequest, Option.bind_some, h.outcome, reply_eq_zero_iff.2 hok]
      dsimp only
      by_cases hj : j = receiver.meant p.env
      · rw [if_pos ⟨hj.symm, rfl⟩, if_pos hj, hj]
      · rw [if_neg fun h => hj h.1.symm, if_neg hj]
    rw [sentTo_callEvents h.dispatch]
    refine (congrArg Option.toList hsent).trans ?_
    split <;> rfl
  · intro hne j
    have hnone : k₁.sentTo? j (.perform p.env (.ecall Service.ipcTrySend.number.toUInt64
        (Call.trySend receiver value page).args)) = none := by
      refine Option.eq_none_iff_forall_ne_some.2 fun m hm => ?_
      obtain ⟨c, req, hs, -⟩ := sentTo?_eq_some_iff.1 hm
      have hzero := h.outcome.symm.trans hs.succeeds
      exact hne (reply_eq_zero_iff.1 (Ecall.returned.inj (Option.some.inj hzero)))
    rw [sentTo_callEvents h.dispatch]
    exact congrArg Option.toList hnone

/-! ## Tries and turns -/

/-- **A sender in vain lets others run**, and gets the processor again. -/
theorem yield_of_inVain {args : Vector Word 5} (h : k.InVain p.env args) :
    (p.call k .yield).1 = .ok () ∧ k.run (p.callEvents .yield) = (p.call k .yield).2 ∧
      k.Turned (p.call k .yield).2 p.env ∧ ∀ j, sentTo j k (p.callEvents .yield) = [] := by
  obtain ⟨kd, hd, hready, -⟩ := h.ready.dispatch
  have hkd := h.reachable.dispatch hd
  have hturn := Turned.dispatch h.reachable.proper h.held h.ready hd p.env
  obtain ⟨k', hecall, ht⟩ := ecall_yield hkd.sound hkd.scheduled hready
  obtain ⟨hcall, hrun⟩ := call_of_ecall (x := .yield) hd hecall
  rw [hcall]
  exact ⟨rfl, hrun, hturn.trans ht, sentTo_callEvents hd .yield⟩

/-- What happens in a round of a send: a try, and then the turn of others. -/
def sendRound (p : UserProcess) (receiver : EnvId) (value : UInt32) (page : Option (Word × Perm)) : List Event :=
  p.callEvents (.trySend receiver value page) ++ p.callEvents .yield

/-- What happens in some rounds of a send. -/
def sendRounds (p : UserProcess) (receiver : EnvId) (value : UInt32) (page : Option (Word × Perm)) (n : Nat) : List Event :=
  (List.replicate n (p.sendRound receiver value page)).flatten

theorem sendRounds_succ (n : Nat) :
    p.sendRounds receiver value page (n + 1) = p.sendRound receiver value page ++ p.sendRounds receiver value page n := by
  rw [sendRounds, List.replicate_succ, List.flatten_cons, sendRounds]

theorem sendWithin_succ_of_ne (h : (p.trySend k receiver value page).1 ≠ .error .ipcNotRecv) (n : Nat) :
    p.sendWithin receiver value page (n + 1) k = p.trySend k receiver value page := by
  rw [sendWithin]
  split
  next k₁ htry =>
    rw [htry] at h
    exact absurd rfl h
  · rfl

/-- **After a try that was refused comes the turn of others**, and then the rest of the tries, all in vain. -/
theorem round_of_refused (hk : k.Reachable) (hr : k.Ready p.env)
    (h : (p.trySend k receiver value page).1 = .error .ipcNotRecv) :
    ∃ k', (∀ n, p.sendWithin receiver value page (n + 1) k = p.sendWithin receiver value page n k') ∧
      k.run (p.sendRound receiver value page) = k' ∧ k'.InVain p.env (Call.trySend receiver value page).args ∧
      (p.trySend k receiver value page).2.Turned k' p.env ∧ ∀ j, sentTo j k (p.sendRound receiver value page) = [] := by
  have hvain := inVain_of_trySend hk hr h
  have hruntry := run_trySend hk hr receiver value page
  have hnone := (sentTo_trySend hk hr).2 (by rw [h]; nofun)
  obtain ⟨hyield, hrun, ht, hyieldnone⟩ := yield_of_inVain hvain
  rw [← hruntry] at hyieldnone
  refine ⟨_, fun n => ?_, ?_, hvain.turned ht ?_, ht, fun j => ?_⟩
  · rw [sendWithin]
    rcases htry : p.trySend k receiver value page with ⟨r, k₁⟩
    rw [htry] at h hyield
    obtain rfl : r = .error .ipcNotRecv := h
    dsimp only at hyield ⊢
    rcases hcall : p.call k₁ .yield with ⟨r, k₂⟩
    rw [hcall] at hyield
    obtain rfl : r = .ok () := hyield
    rfl
  · rw [sendRound, Kernel.run_append, hruntry, hrun]
  · rw [← hrun]
    exact hvain.reachable.run _
  · rw [sendRound, sentTo_append, hnone, hyieldnone]
    rfl

/-- **All tries of a sender in vain are in vain**, and after all of them nothing but turns has changed. -/
theorem sendWithin_of_inVain (h : k.InVain p.env (Call.trySend receiver value page).args) (n : Nat) :
    ∃ k', p.sendWithin receiver value page n k = (.error .ipcNotRecv, k'.log (.gaveUp p.env receiver)) ∧
      k.run (p.sendRounds receiver value page n) = k' ∧ k.Turned k' p.env ∧
      ∀ j, sentTo j k (p.sendRounds receiver value page n) = [] := by
  -- a round leaves the sender in vain, so the tries that remain are again all in vain
  induction n generalizing k with
  | zero => exact ⟨k, rfl, rfl, .refl k p.env, fun _ => rfl⟩
  | succ n ih =>
    obtain ⟨hrefused, ht₁⟩ := trySend_of_inVain h
    obtain ⟨k₂, hsend₂, hrun₂, hvain₂, ht₂, hnone₂⟩ := round_of_refused h.reachable h.ready hrefused
    obtain ⟨k', hsend, hrun, ht, hnone⟩ := ih hvain₂
    refine ⟨k', ?_, ?_, (ht₁.trans ht₂).trans ht, fun j => ?_⟩
    · rw [hsend₂, hsend]
    · rw [sendRounds_succ, Kernel.run_append, hrun₂, hrun]
    · rw [sendRounds_succ, sentTo_append, hnone₂, hrun₂, hnone]
      rfl

/-- What happens in a send: one try, or all the rounds if that one is in vain. -/
def sendEvents (p : UserProcess) (k : Kernel) (receiver : EnvId) (value : UInt32) (page : Option (Word × Perm)) :
    List Event :=
  if (p.trySend k receiver value page).1 = .error .ipcNotRecv then p.sendRounds receiver value page sendRetries
  else p.callEvents (.trySend receiver value page)

/-- **A send is one try, and turns.**  A program that may run gets the same result from a send as from a single try, and
between what a single try leaves and what a send leaves nothing but turns has changed.  In all the events of a send the
message is handed over once if the send succeeds, and not at all if it does not. -/
theorem send_is_one_try (hk : k.Reachable) (p : UserProcess) (hr : k.Ready p.env) (receiver : EnvId) (value : UInt32)
    (page : Option (Word × Perm)) :
    (p.send k receiver value page).1 = (p.trySend k receiver value page).1 ∧
    (p.trySend k receiver value page).2.Turned (p.send k receiver value page).2 p.env ∧
    ((p.send k receiver value page).2 = k.run (p.sendEvents k receiver value page) ∨
      (p.send k receiver value page).2 = (k.run (p.sendEvents k receiver value page)).log (.gaveUp p.env receiver)) ∧
    ((p.send k receiver value page).1 = .ok () → ∃ perm, ∀ j, sentTo j k (p.sendEvents k receiver value page) =
      if j = receiver.meant p.env then [⟨p.env, value, perm⟩] else []) ∧
    ((p.send k receiver value page).1 ≠ .ok () → ∀ j, sentTo j k (p.sendEvents k receiver value page) = []) := by
  -- the first of the tries is set apart: how it ends decides how the others do
  have hsend : p.send k receiver value page = p.sendWithin receiver value page (63 + 1) k := rfl
  by_cases h : (p.trySend k receiver value page).1 = .error .ipcNotRecv
  · have hevents : p.sendEvents k receiver value page = p.sendRounds receiver value page (63 + 1) := if_pos h
    obtain ⟨k₂, hsend₂, hrun₂, hvain₂, ht₂, hnone₂⟩ := round_of_refused hk hr h
    obtain ⟨k', hsend', hrun, ht, hnone⟩ := sendWithin_of_inVain hvain₂ 63
    rw [hsend, hsend₂, hsend', h, hevents, sendRounds_succ, Kernel.run_append, hrun₂, hrun]
    refine ⟨rfl, (ht₂.trans ht).trans (.log k' p.env _), Or.inr rfl, nofun, fun _ j => ?_⟩
    rw [sentTo_append, hnone₂, hrun₂, hnone]
    rfl
  · have hevents : p.sendEvents k receiver value page = p.callEvents (.trySend receiver value page) := if_neg h
    rw [hsend, sendWithin_succ_of_ne h, hevents]
    exact ⟨rfl, .refl _ p.env, Or.inl (run_trySend hk hr receiver value page).symm, sentTo_trySend hk hr⟩

/-- As long as nobody waits for the message, all tries are in vain.  Once its receiver waits, it is handed over. -/
theorem send_is_one_try_in_vain_or_heard : ∃ (k k' : Kernel) (p : UserProcess),
    k.Reachable ∧ k.Ready p.env ∧
    (p.trySend k ⟨4097⟩ 7 none).1 = .error .ipcNotRecv ∧ (p.send k ⟨4097⟩ 7 none).1 = .error .ipcNotRecv ∧
    (p.trySend k ⟨4097⟩ 7 none).2.Turned (p.send k ⟨4097⟩ 7 none).2 p.env ∧
    sentTo ⟨4097⟩ k (p.sendEvents k ⟨4097⟩ 7 none) = [] ∧
    k' = k.step (.perform ⟨4097⟩ (.ecall 12 (Call.recv none).args)) ∧ k'.Reachable ∧ k'.Ready p.env ∧
    (p.send k' ⟨4097⟩ 7 none).1 = .ok () ∧
    ∃ perm, sentTo ⟨4097⟩ k' (p.sendEvents k' ⟨4097⟩ 7 none) = [⟨p.env, 7, perm⟩] := by
  let k := (((ofConfig ⟨8, 2⟩).log (.booted ⟨8, 2⟩)).step (.spawn {})).step (.spawn {})
  let k' := k.step (.perform ⟨4097⟩ (.ecall 12 (Call.recv none).args))
  let p : UserProcess := .ofEnv ⟨4096⟩ textBase.toUInt64
  have hk : k.Reachable := .step (.step (.boot (c := ⟨8, 2⟩) rfl) _) _
  have hk' : k'.Reachable := hk.step _
  have hrun : ((k.env? p.env).any fun e => e.status.isRunnable) = true := by decide +kernel
  have hrun' : ((k'.env? p.env).any fun e => e.status.isRunnable) = true := by decide +kernel
  have hr : k.Ready p.env := (Option.any_eq_true _ _).1 hrun
  have hr' : k'.Ready p.env := (Option.any_eq_true _ _).1 hrun'
  have hvain : (p.trySend k ⟨4097⟩ 7 none).1 = .error .ipcNotRecv := by decide +kernel
  have hheard : (p.trySend k' ⟨4097⟩ 7 none).1 = .ok () := by decide +kernel
  obtain ⟨hresult, hturned, -, -, hnone⟩ := send_is_one_try hk p hr ⟨4097⟩ 7 none
  obtain ⟨hresult', -, -, hone, -⟩ := send_is_one_try hk' p hr' ⟨4097⟩ 7 none
  obtain ⟨perm, hsent⟩ := hone (hresult'.trans hheard)
  refine ⟨k, k', p, hk, hr, hvain, hresult.trans hvain, hturned, ?_, rfl, hk', hr', hresult'.trans hheard, perm, ?_⟩
  · exact hnone (by rw [hresult, hvain]; nofun) ⟨4097⟩
  · exact hsent ⟨4097⟩

end UserProcess
end Exokernel
