import Exokernel.Proofs.Kernel.Privilege
import Exokernel.Proofs.User.Store
/-!
# An access in rounds

An access that faults is served in rounds: it faults, the handler runs on the record, the registers go back to where they
were, and the access is tried again.  Whatever the handler does in between, the record that it is given is the one that the
kernel has written, so that a round ends with the registers that it began with.  Main statement: an access that goes
through has changed no register (`access_keeps_registers`).
-/
namespace Exokernel

namespace Kernel

variable {k k' : Kernel} {i : EnvId} {e : Env} {f : PageFault} {entry record : Word}

/-- What a program keeps by taking the processor and by all that it can do with it. -/
structure Kept (i : EnvId) (Q : Kernel → Prop) : Prop where
  dispatch {k k' : Kernel} (hk : Q k) (h : k.dispatch i = .ok k') : Q k'
  perform {k : Kernel} (hk : Q k) (op : CpuOp) : Q (k.perform i op)
  log {k : Kernel} (hk : Q k) (l : Line) : Q (k.log l)

theorem kept_sound (i : EnvId) : Kept i fun k => k.Sound [] :=
  ⟨fun hk h => hk.dispatch h, fun hk op => hk.perform i op, fun hk l => hk.log l⟩

/-! ## The record of a fault -/

/-- **The faults of an access are in good order.** -/
theorem declared_of_check_error {s : AddressSpace} {a len : Nat} {kind : AccessKind} (ha : a < addressLimit)
    (h : s.check a len kind = .error f) : f.Declared := by
  have hcode (hc : f.code = AddressSpace.faultCode kind ∨ f.code = (AddressSpace.faultCode kind ||| .present)) :
      FaultCode.truncate f.code.bits = f.code := by
    rcases hc with hc | hc <;> rw [hc] <;> cases kind <;> decide
  rcases AddressSpace.check_error_cases h with ⟨-, -, rfl⟩ | ⟨hlt, -, hf, -, hend, -⟩
  · exact ⟨ha, hcode (.inl rfl)⟩
  · exact ⟨by omega, hcode (AddressSpace.faultAt_eq_some hf).2⟩

/-- **A fault that is handed over leaves its record**, with the registers as they were. -/
theorem delivered_of_raise (hk : k.Sound []) (he : k.env? i = some e) (hf : f.Declared)
    (h : k.raise i f = (.upcall entry record, k')) :
    k'.Sound [] ∧ k'.recordAt? i record.toNat = some (f.record e.regs) ∧
      ∃ q, k.Delivered k' i e q entry record.toNat (f.record e.regs) := by
  have hu : e.upcall = some entry := by
    rcases raise_cases he h with ⟨ht, -⟩ | ⟨entry', a, k₁, m, hu, -, -, -, ht, -⟩
    · cases ht
    · cases ht
      exact hu
  by_cases hd : k.Deliverable i e.regs.sp
  · obtain ⟨hpage, q, hq, hal⟩ := hd
    obtain ⟨k₁, hr, hk₁, -, hdel⟩ := raise_delivered hk he hu hf hpage hq hal
    rw [h] at hr
    cases hr
    rw [toNat_record ((recordAddress?_eq e.regs.sp).trans (if_pos (pageDown_recordStart.1 hpage)))]
    exact ⟨hk₁, hdel.found, q, hdel⟩
  · obtain ⟨k₁, hr, -⟩ := raise_killed (f := f) hk he hd
    rw [h] at hr
    cases hr

/-- **Hand a fault over**, if that is not the end: where the program goes on, and the state. -/
def handOver? (k : Kernel) (i : EnvId) (e : Env) (f : PageFault) : Option (Word × Kernel) :=
  match e.upcall, recordAddress? e.regs.sp with
  | some entry, some a =>
    match e.space.check a FaultRecord.size .write with
    | .error _ => none
    | .ok () =>
      let k := k.log (.faulted i f)
      let m := e.space.writeParts a (f.record e.regs).encode.toArray (pagesTouched a FaultRecord.size) a FaultRecord.size
        k.machine
      some (entry, (setRegisters { k with machine := m } i { e.regs.setSp a.toUInt64 with sepc := entry }).log
        (.upcalled i entry a))
  | _, _ => none

theorem handOver?_eq (he : k.env? i = some e) : k.handOver? i e f =
    match k.raise i f with
    | (.upcall entry _, k') => some (entry, k')
    | (.killed, _) => none := by
  have hsize : (f.record e.regs).encode.toArray.size = FaultRecord.size := Vector.size_toArray _
  have hrecord : FaultRecord.encode ⟨f.address.toUInt64, f.code, e.regs⟩ = (f.record e.regs).encode := rfl
  have he' : (k.log (.faulted i f)).env? i = some e := he
  unfold raise deliverFault handOver?
  rw [he']
  dsimp only
  cases e.upcall with
  | none => rfl
  | some entry =>
    cases recordAddress? e.regs.sp with
    | none => rfl
    | some a =>
      dsimp only
      rw [hrecord, AddressSpace.write, hsize]
      cases e.space.check a FaultRecord.size .write with
      | error => rfl
      | ok => rfl

end Kernel

namespace Access

/-- The first address of an access. -/
def start : Access → Word
  | read va _ | write va _ => va

/-- The number of bytes of an access. -/
def size : Access → Nat
  | read _ len => len
  | write _ data => data.size

def kind : Access → AccessKind
  | read .. => .read
  | write .. => .write

end Access

namespace UserProcess

open Kernel

variable {p : UserProcess} {k k' k₁ k₂ : Kernel} {a : Access} {access : Kernel → Access → Served Bytes} {t : Trap}
  {va record : Word} {n : Nat}

/-! ## Rounds -/

/-- **One round of an access**: it faults, the fault is served, and the registers are put back.  The address of the fault
and the state after it; none if the access goes through, or if that is not how the round ends. -/
def round? (p : UserProcess) (n : Nat) (k : Kernel) (a : Access) : Option (Word × Kernel) :=
  match p.enter k with
  | (.error _, _) => none
  | (.ok (), k) =>
    match p.attempt k a with
    | (.ok _, _) => none
    | (.error t, k) =>
      match p.serve (p.access n) k t with
      | some (.ok va, k) => some (va, k)
      | _ => none

theorem round?_eq_some : p.round? n k a = some (va, k') ↔ ∃ k₁ t k₂, p.enter k = (.ok (), k₁) ∧
    p.attempt k₁ a = (.error t, k₂) ∧ p.serve (p.access n) k₂ t = some (.ok va, k') := by
  constructor
  · intro h
    unfold round? at h
    split at h
    · cases h
    next k₁ he =>
      split at h
      · cases h
      next t k₂ hat =>
        split at h
        next hs =>
          cases h
          exact ⟨k₁, t, k₂, he, hat, hs⟩
        · cases h
  · rintro ⟨k₁, t, k₂, he, hat, hs⟩
    unfold round?
    rw [he]
    dsimp only
    rw [hat]
    dsimp only
    rw [hs]

/-- How often in a row a fault at an address has been served, with the latest time. -/
def streak (last : Option Word) (repeats : Nat) (va : Word) : Nat := if last = some va then repeats + 1 else 1

/-- **How an access goes on**: it ends, or it goes through another round. -/
theorem accessFrom_succ_cases {repeats : Nat} {last : Option Word} {r : Except UserPanic Bytes}
    (h : p.accessFrom (n + 1) last repeats k a = some (r, k')) :
    (∃ err, p.enter k = (.error err, k') ∧ r = .error .killed) ∨
    (∃ k₁ bytes, p.enter k = (.ok (), k₁) ∧ p.attempt k₁ a = (.ok bytes, k') ∧ r = .ok bytes) ∨
    (∃ k₁ t k₂ cause, p.enter k = (.ok (), k₁) ∧ p.attempt k₁ a = (.error t, k₂) ∧
      p.serve (p.access n) k₂ t = some (.error cause, k') ∧ r = .error cause) ∨
    ∃ va k₁, p.round? n k a = some (va, k₁) ∧
      if maxFaultRetries ≤ streak last repeats va then r = .error (.unresolved va) ∧ k' = p.fatal k₁ (.unresolved va)
      else p.accessFrom n (some va) (streak last repeats va) k₁ a = some (r, k') := by
  unfold accessFrom at h
  split at h
  next err k₁ he =>
    cases h
    exact .inl ⟨err, he, rfl⟩
  next k₁ he =>
    split at h
    next bytes k₂ hat =>
      cases h
      exact .inr (.inl ⟨k₁, bytes, he, hat, rfl⟩)
    next t k₂ hat =>
      split at h
      · cases h
      next cause k₃ hs =>
        cases h
        exact .inr (.inr (.inl ⟨k₁, t, k₂, cause, he, hat, hs, rfl⟩))
      next va k₃ hs =>
        refine .inr (.inr (.inr ⟨va, k₃, round?_eq_some.2 ⟨k₁, t, k₂, he, hat, hs⟩, ?_⟩))
        dsimp only at h
        rw [← streak] at h
        split at h
        next hle =>
          rw [if_pos hle]
          cases h
          exact ⟨rfl, rfl⟩
        next hlt =>
          rw [if_neg hlt]
          exact h

theorem accessFrom_of_attempt {repeats : Nat} {last : Option Word} {bytes : Bytes} (he : p.enter k = (.ok (), k₁))
    (hat : p.attempt k₁ a = (.ok bytes, k')) : p.accessFrom (n + 1) last repeats k a = some (.ok bytes, k') := by
  unfold accessFrom
  rw [he]
  dsimp only
  rw [hat]

theorem accessFrom_of_round? {repeats : Nat} {last : Option Word} (h : p.round? n k a = some (va, k₁)) :
    p.accessFrom (n + 1) last repeats k a =
      if maxFaultRetries ≤ streak last repeats va then some (.error (.unresolved va), p.fatal k₁ (.unresolved va))
      else p.accessFrom n (some va) (streak last repeats va) k₁ a := by
  obtain ⟨k₂, t, k₃, he, hat, hs⟩ := round?_eq_some.1 h
  conv => lhs; unfold accessFrom
  rw [he]
  dsimp only
  rw [hat]
  dsimp only
  rw [show p.accessFrom n none 0 = p.access n from rfl, hs]
  rfl

/-- Some rounds one after the other, with `m` tries left behind them: the addresses of the faults, and the state. -/
def inTurn (round : Nat → Kernel → Option (Word × Kernel)) (m : Nat) : Nat → Kernel → Option (List Word × Kernel)
  | 0, k => some ([], k)
  | c + 1, k => (round (m + c) k).bind fun (va, k) => (inTurn round m c k).map fun (vas, k) => (va :: vas, k)

theorem inTurn_succ_eq_some {round : Nat → Kernel → Option (Word × Kernel)} {m c : Nat} {vas : List Word} :
    inTurn round m (c + 1) k = some (vas, k') ↔
      ∃ va k₁ rest, round (m + c) k = some (va, k₁) ∧ inTurn round m c k₁ = some (rest, k') ∧ vas = va :: rest := by
  simp only [inTurn, Option.bind_eq_some_iff, Option.map_eq_some_iff, Prod.exists, Prod.mk.injEq]
  constructor
  · rintro ⟨va, k₁, hr, rest, k₂, hrs, rfl, rfl⟩
    exact ⟨va, k₁, rest, hr, hrs, rfl⟩
  · rintro ⟨va, k₁, rest, hr, hrs, rfl⟩
    exact ⟨va, k₁, hr, rest, k', hrs, rfl, rfl⟩

/-- **Some rounds of an access.** -/
def rounds (p : UserProcess) (a : Access) (m : Nat) : Nat → Kernel → Option (List Word × Kernel) :=
  inTurn (fun n k => p.round? n k a) m

/-! ## What a whole access keeps -/

section kept
variable {Q : Kernel → Prop} (hQ : Kept p.env Q)
include hQ

theorem enter_kept (hk : Q k) {r : Except Errno Unit} (h : p.enter k = (r, k')) : Q k' := by
  unfold enter at h
  split at h
  · cases h
    exact hk
  next hd =>
    cases h
    exact hQ.dispatch hk hd

theorem load_kept (hk : Q k) {len : Nat} {r : Except Trap Bytes} (h : k.load p.env va len = (r, k')) : Q k' := by
  have hp := hQ.perform hk (.load va len)
  rwa [perform, h] at hp

theorem store_kept (hk : Q k) {data : Bytes} {r : Except Trap Unit} (h : k.store p.env va data = (r, k')) : Q k' := by
  have hp := hQ.perform hk (.store va data)
  rwa [perform, h] at hp

theorem resumeWith_kept (hk : Q k) {regs : Registers} {r : Except Trap Unit} (h : k.resumeWith p.env regs = (r, k')) :
    Q k' := by
  have hp := hQ.perform hk (.resumeWith regs)
  rwa [perform, h] at hp

theorem ecall_kept (hk : Q k) {number : Word} {args : Vector Word 5} {r : Ecall}
    (h : k.ecall p.env number args = (r, k')) : Q k' := by
  have hp := hQ.perform hk (.ecall number args)
  rwa [perform, h] at hp

theorem call_kept (hk : Q k) {c : Call} {r : Except Errno Word} (h : k.call p.env c = (r, k')) : Q k' := by
  have hp := ecall_kept hQ hk (Prod.eta (k.ecall p.env c.service.number.toUInt64 c.args)).symm
  have hc : (k.call p.env c).2 = k' := congrArg Prod.snd h
  rw [← hc, call_eq]
  rcases settle_cases p.env c (k.ecall p.env c.service.number.toUInt64 c.args) with hs | hs
  · rwa [hs]
  · rw [hs]
    exact hQ.log hp _

theorem fatal_kept (hk : Q k) (cause : UserPanic) : Q (p.fatal k cause) := by
  have hl := hQ.log hk (.userPanic p.env cause)
  unfold fatal
  rcases he : p.enter (k.log (.userPanic p.env cause)) with ⟨_ | _, k₁⟩
  all_goals have h₁ := enter_kept hQ hl he
  · exact h₁
  · dsimp only
    rcases hc : k₁.call p.env (.envDestroy .self) with ⟨_ | _, k₂⟩
    all_goals have h₂ := call_kept hQ h₁ hc
    · exact hQ.log h₂ _
    · exact h₂

/-- **What accesses keep, a routine keeps.** -/
theorem run_kept (haccess : ∀ {k a r k'}, Q k → access k a = some (r, k') → Q k') (routine : Routine) (hk : Q k)
    {r : Except UserPanic Unit} (h : p.run access routine k = some (r, k')) : Q k' := by
  induction routine generalizing k with
  | done | fail =>
    cases h
    exact hk
  | fatal cause =>
    cases h
    exact fatal_kept hQ hk cause
  | enter next ih => exact ih _ (enter_kept hQ hk (Prod.eta _).symm) h
  | call c next ih => exact ih _ (call_kept hQ hk (Prod.eta _).symm) h
  | ecall number args next ih => exact ih _ (ecall_kept hQ hk (Prod.eta _).symm) h
  | load va len next ih => exact ih _ (load_kept hQ hk (Prod.eta _).symm) h
  | store va data next ih => exact ih _ (store_kept hQ hk (Prod.eta _).symm) h
  | query va next ih => exact ih _ hk h
  | registers next ih => exact ih _ hk h
  | resumeWith regs next ih => exact ih _ (resumeWith_kept hQ hk (Prod.eta _).symm) h
  | access a next ih =>
    unfold run at h
    split at h
    · cases h
    next ha => exact ih _ (haccess hk ha) h

theorem attempt_kept (hk : Q k) {r : Except Trap Bytes} (h : p.attempt k a = (r, k')) : Q k' := by
  cases a with
  | read va len => exact load_kept hQ hk h
  | write va data =>
    unfold attempt at h
    dsimp only at h
    rcases hs : k.store p.env va data with ⟨_ | _, k₁⟩
    all_goals
      rw [hs] at h
      cases h
      exact store_kept hQ hk hs

theorem readRecord_kept (hk : Q k) {r : Except UserPanic FaultRecord} (h : p.readRecord k record = (r, k')) : Q k' := by
  unfold readRecord at h
  rcases he : p.enter k with ⟨_ | _, k₁⟩
  all_goals
    have h₁ := enter_kept hQ hk he
    rw [he] at h
  · cases h
    exact h₁
  · dsimp only at h
    rcases hl : k₁.load p.env record FaultRecord.size with ⟨_ | _, k₂⟩
    all_goals
      rw [hl] at h
      cases h
      exact load_kept hQ h₁ hl

theorem returnFrom_kept (hk : Q k) {fr : FaultRecord} {r : Except UserPanic Word} (h : p.returnFrom k fr = (r, k')) :
    Q k' := by
  unfold returnFrom at h
  rcases he : p.enter k with ⟨_ | _, k₁⟩
  all_goals
    have h₁ := enter_kept hQ hk he
    rw [he] at h
  · cases h
    exact h₁
  · dsimp only at h
    rcases hl : k₁.resumeWith p.env fr.regs with ⟨_ | _, k₂⟩
    all_goals
      rw [hl] at h
      cases h
      exact resumeWith_kept hQ h₁ hl

theorem serve_kept (haccess : ∀ {k a r k'}, Q k → access k a = some (r, k') → Q k') (hk : Q k)
    {r : Except UserPanic Word} (h : p.serve access k t = some (r, k')) : Q k' := by
  unfold serve at h
  split at h
  · cases h
    exact hk
  split at h
  · cases h
    exact fatal_kept hQ hk _
  split at h
  next hr =>
    cases h
    exact readRecord_kept hQ hk hr
  next hr =>
    have h₁ := readRecord_kept hQ hk hr
    split at h
    · cases h
      exact fatal_kept hQ h₁ _
    split at h
    · cases h
    next hrun =>
      cases h
      exact run_kept hQ haccess _ h₁ hrun
    next hrun => exact returnFrom_kept hQ (run_kept hQ haccess _ h₁ hrun) (Option.some.inj h)

theorem round?_kept (haccess : ∀ {k a r k'}, Q k → p.access n k a = some (r, k') → Q k') (hk : Q k)
    (h : p.round? n k a = some (va, k')) : Q k' := by
  obtain ⟨k₁, t, k₂, he, hat, hs⟩ := round?_eq_some.1 h
  exact serve_kept hQ haccess (attempt_kept hQ (enter_kept hQ hk he) hat) hs

theorem accessFrom_kept {repeats : Nat} {last : Option Word} (hk : Q k) {r : Except UserPanic Bytes}
    (h : p.accessFrom n last repeats k a = some (r, k')) : Q k' := by
  -- by the tries that are left, of which the accesses of the handler have fewer
  induction n generalizing k k' a last repeats r with
  | zero => cases h
  | succ n ih =>
    have haccess {k a r k'} (hk : Q k) (h : p.access n k a = some (r, k')) : Q k' := ih hk h
    rcases accessFrom_succ_cases h with ⟨err, he, -⟩ | ⟨k₁, bytes, he, hat, -⟩ | ⟨k₁, t, k₂, cause, he, hat, hs, -⟩ |
      ⟨va, k₁, hr, h⟩
    · exact enter_kept hQ hk he
    · exact attempt_kept hQ (enter_kept hQ hk he) hat
    · exact serve_kept hQ haccess (attempt_kept hQ (enter_kept hQ hk he) hat) hs
    · have h₁ := round?_kept hQ haccess hk hr
      split at h
      · obtain ⟨-, rfl⟩ := h
        exact fatal_kept hQ h₁ _
      · exact ih h₁ h

end kept

/-! ## The registers -/

theorem env?_of_enter {e : Env} (he : k.env? p.env = some e) (h : p.enter k = (.ok (), k')) :
    ∃ s, k'.env? p.env = some { e with status := s } := env?_of_dispatch (dispatch_of_enter h) he

/-- **An access that goes through changes nothing but memory.** -/
theorem attempt_of_check_ok {e : Env} (he : k.env? p.env = some e)
    (hc : e.space.check a.start.toNat a.size a.kind = .ok ()) :
    ∃ bytes k', p.attempt k a = (.ok bytes, k') ∧ k'.env? p.env = some e := by
  cases a with
  | read va len =>
    have hr : ∃ bytes, e.space.read k.machine va.toNat len = .ok bytes := by
      rw [AddressSpace.read, show e.space.check va.toNat len .read = .ok () from hc]
      exact ⟨_, rfl⟩
    obtain ⟨bytes, hr⟩ := hr
    refine ⟨bytes, k, ?_, he⟩
    rw [attempt, load, he]
    dsimp only
    rw [hr]
  | write va data =>
    obtain ⟨m, hw⟩ : ∃ m, e.space.write k.machine va.toNat data = .ok m := AddressSpace.write_of_check hc
    refine ⟨#[], { k with machine := m }, ?_, he⟩
    rw [attempt, store, he]
    dsimp only
    rw [hw]

/-- **An access that fails its check raises the fault.** -/
theorem attempt_of_check_error {e : Env} {f : PageFault} (he : k.env? p.env = some e)
    (hc : e.space.check a.start.toNat a.size a.kind = .error f) :
    p.attempt k a = (.error (k.raise p.env f).1, (k.raise p.env f).2) := by
  cases a with
  | read va len =>
    rw [attempt, load, he]
    dsimp only
    rw [AddressSpace.read, show e.space.check va.toNat len .read = .error f from hc]
  | write va data => exact attempt_of_check he hc

theorem env?_of_attempt_ok {e : Env} {bytes : Bytes} (he : k.env? p.env = some e) (h : p.attempt k a = (.ok bytes, k')) :
    k'.env? p.env = some e := by
  rcases hc : e.space.check a.start.toNat a.size a.kind with f | _
  · rw [attempt_of_check_error he hc] at h
    cases h
  · obtain ⟨bytes', k₁, hat, he'⟩ := attempt_of_check_ok he hc
    rw [h] at hat
    cases hat
    exact he'

/-- **The handler is given the record that lies there.** -/
theorem readRecord_of_enter {fr : FaultRecord} (hrec : k.recordAt? p.env record.toNat = some fr)
    (h : p.enter k = (.ok (), k₁)) : p.readRecord k record = (.ok fr, k₁) := by
  have hd := dispatch_of_enter h
  obtain ⟨bytes, hload, hdec⟩ := load_of_recordAt?
    ((recordAt?_congr ((Inert.dispatch hd).spaces p.env) (SamePages.dispatch hd).machine).trans hrec)
  rw [readRecord, h]
  dsimp only
  rw [hload, ← hdec]

/-- **The registers of the record are put back.** -/
theorem regs_of_returnFrom_ok {fr : FaultRecord} (h : p.returnFrom k fr = (.ok va, k')) :
    va = fr.address ∧ ∃ e', k'.env? p.env = some e' ∧ e'.regs = fr.regs.forUser ∧ e'.status.isRunnable := by
  unfold returnFrom at h
  split at h
  · cases h
  next k₁ hent =>
    obtain ⟨sp, e₁, he, hst, -⟩ := runs_of_dispatch (dispatch_of_enter hent)
    unfold resumeWith at h
    rw [he] at h
    cases h
    exact ⟨rfl, { e₁ with regs := fr.regs.forUser }, by rw [env?_setRegisters, he]; simp, rfl, hst⟩

/-- **However the handler serves a fault**, the program is back at its record. -/
theorem regs_of_serve_ok {entry : Word} {fr : FaultRecord} (hrec : k.recordAt? p.env record.toNat = some fr)
    (h : p.serve access k (.upcall entry record) = some (.ok va, k')) :
    va = fr.address ∧ ∃ e', k'.env? p.env = some e' ∧ e'.regs = fr.regs.forUser ∧ e'.status.isRunnable := by
  unfold serve at h
  dsimp only at h
  split at h
  · cases h
  rcases hent : p.enter k with ⟨_ | _, k₁⟩
  · rw [readRecord, hent] at h
    cases h
  rw [readRecord_of_enter hrec hent] at h
  dsimp only at h
  split at h
  · cases h
  split at h
  · cases h
  · cases h
  · exact regs_of_returnFrom_ok (Option.some.inj h)

/-- **A round without the detour over memory**: the handler is given the fault itself, with the registers. -/
def directRound? (p : UserProcess) (handler : FaultHandler) (n : Nat) (k : Kernel) (a : Access) : Option (Word × Kernel) :=
  match p.enter k with
  | (.error _, _) => none
  | (.ok (), k) =>
    match k.env? p.env with
    | none => none
    | some e =>
      match e.space.check a.start.toNat a.size a.kind with
      | .ok () => none
      | .error f =>
        match k.handOver? p.env e f with
        | none => none
        | some (entry, k) =>
          if entry ≠ upcallEntry.toUInt64 then none
          else
            match p.enter k with
            | (.error _, _) => none
            | (.ok (), k) =>
              match p.run (p.access n) (handler (f.record e.regs)) k with
              | some (.ok (), k) =>
                match p.returnFrom k (f.record e.regs) with
                | (.ok va, k) => some (va, k)
                | (.error _, _) => none
              | _ => none

/-- **The way of the record over memory changes nothing.** -/
theorem round?_eq_directRound? (hk : k.Sound []) {handler : FaultHandler} (hh : p.runtime.handler = some handler) :
    p.round? n k a = p.directRound? handler n k a := by
  unfold round? directRound?
  rcases hent : p.enter k with ⟨_ | _, k₁⟩
  · rfl
  have hk₁ := enter_kept (kept_sound p.env) hk hent
  dsimp only
  rcases he : k.env? p.env with _ | e₀
  · rw [enter_of_env?_none he] at hent
    cases hent
  obtain ⟨s, he₁⟩ := env?_of_enter he hent
  rw [he₁]
  dsimp only
  rcases hc : e₀.space.check a.start.toNat a.size a.kind with f | _
  swap
  · obtain ⟨bytes, k₂, hat, -⟩ := attempt_of_check_ok he₁ hc
    rw [hat]
  rw [attempt_of_check_error he₁ hc]
  dsimp only
  rw [handOver?_eq he₁]
  rcases hr : k₁.raise p.env f with ⟨⟨entry, record⟩ | _, k₂⟩
  swap
  · rfl
  -- what is read back is the record as the kernel wrote it
  obtain ⟨-, hrec, -⟩ := delivered_of_raise hk₁ he₁ (declared_of_check_error a.start.toNat_lt hc) hr
  unfold serve
  dsimp only
  by_cases hentry : entry ≠ upcallEntry.toUInt64
  · rw [if_pos hentry, if_pos hentry]
  rw [if_neg hentry, if_neg hentry]
  rcases hent₂ : p.enter k₂ with ⟨_ | _, k₃⟩
  · rw [readRecord, hent₂]
  rw [readRecord_of_enter hrec hent₂]
  dsimp only
  rw [hh]
  dsimp only
  rcases p.run (p.access n) (handler (f.record e₀.regs)) k₃ with _ | ⟨_ | _, k₄⟩
  · rfl
  · rfl
  · dsimp only
    rcases p.returnFrom k₄ (f.record e₀.regs) with ⟨_ | _, k₅⟩ <;> rfl

/-- **A round of an access**: it faulted where the round says, and the registers are as they were. -/
theorem round?_ok (hk : k.Sound []) (h : p.round? n k a = some (va, k')) : ∃ e f e', k.env? p.env = some e ∧
    e.space.check a.start.toNat a.size a.kind = .error f ∧ f.address = va.toNat ∧
    k'.Sound [] ∧ k'.env? p.env = some e' ∧ e'.regs = e.regs.forUser ∧ e'.status.isRunnable := by
  have hk' := round?_kept (kept_sound p.env) (fun hk h => accessFrom_kept (kept_sound p.env) hk h) hk h
  obtain ⟨k₁, t, k₂, hent, hat, hs⟩ := round?_eq_some.1 h
  have hk₁ := enter_kept (kept_sound p.env) hk hent
  rcases he : k.env? p.env with _ | e
  · rw [enter_of_env?_none he] at hent
    cases hent
  obtain ⟨s, he₁⟩ := env?_of_enter he hent
  rcases hc : e.space.check a.start.toNat a.size a.kind with f | _
  swap
  · obtain ⟨bytes, k₃, hok, -⟩ := attempt_of_check_ok he₁ hc
    rw [hok] at hat
    cases hat
  have hf := declared_of_check_error a.start.toNat_lt hc
  have hr := Prod.mk.inj ((attempt_of_check_error he₁ hc).symm.trans hat)
  rcases t with ⟨entry, record⟩ | _
  · obtain ⟨-, hrec, -⟩ := delivered_of_raise hk₁ he₁ hf (Prod.ext (Except.error.inj hr.1) hr.2)
    obtain ⟨rfl, e', he', hregs⟩ := regs_of_serve_ok hrec hs
    exact ⟨e, f, e', rfl, hc, (hf.toNat_address e.regs).symm, hk', he', hregs⟩
  · cases hs

theorem rounds_eq_direct {handler : FaultHandler} (hh : p.runtime.handler = some handler) {m c : Nat} (hk : k.Sound []) :
    p.rounds a m c k = inTurn (fun n k => p.directRound? handler n k a) m c k := by
  induction c generalizing k with
  | zero => rfl
  | succ c ih =>
    simp only [rounds, inTurn] at ih ⊢
    rw [← round?_eq_directRound? hk hh]
    rcases hr : p.round? (m + c) k a with _ | ⟨va, k₁⟩
    · rfl
    · obtain ⟨-, -, -, -, -, -, hk₁, -⟩ := round?_ok hk hr
      simp only [Option.bind_some]
      rw [ih hk₁]

/-- **An access that goes through leaves the registers as they were**, over all its rounds. -/
theorem regs_of_accessFrom_ok {repeats : Nat} {last : Option Word} {bytes : Bytes} {e : Env} (hk : k.Sound [])
    (he : k.env? p.env = some e) (hm : e.regs.UserMode) (h : p.accessFrom n last repeats k a = some (.ok bytes, k')) :
    ∃ e', k'.env? p.env = some e' ∧ e'.regs = e.regs := by
  induction n generalizing k last repeats e with
  | zero => cases h
  | succ n ih =>
    rcases accessFrom_succ_cases h with ⟨_, _, hr⟩ | ⟨k₁, bytes', hent, hat, -⟩ | ⟨_, _, _, _, _, _, _, hr⟩ | ⟨va, k₁, hr, h⟩
    · cases hr
    · obtain ⟨s, he₁⟩ := env?_of_enter he hent
      exact ⟨{ e with status := s }, env?_of_attempt_ok he₁ hat, rfl⟩
    · cases hr
    · obtain ⟨e₀, f, e₁, he₀, -, -, hk₁, he₁, hregs, -⟩ := round?_ok hk hr
      obtain rfl := Option.some.inj (he₀.symm.trans he)
      rw [hm.forUser_eq] at hregs
      split at h
      · cases h.1
      · obtain ⟨e', he', hregs'⟩ := ih hk₁ he₁ (by rw [hregs]; exact hm) h
        exact ⟨e', he', hregs'.trans hregs⟩

/-- A program with an exception stack and an upcall. -/
def upcallProgram : Kernel := ((ofConfig ⟨24, 1⟩).log (.booted ⟨24, 1⟩)).run [.spawn {},
  .perform ⟨4096⟩ (.ecall 3 #v[0, exceptionStackBase.toUInt64, Perm.userWritable.toWord, 0, 0]),
  .perform ⟨4096⟩ (.ecall 9 #v[0, upcallEntry.toUInt64, 0, 0, 0])]

theorem reachable_upcallProgram : upcallProgram.Reachable := .run (.boot (c := ⟨24, 1⟩) rfl) _

/-- Its process with a handler. -/
def handledBy (h : FaultHandler) : UserProcess :=
  ⟨⟨4096⟩, { thisEnv := ⟨4096⟩, handler := some h, brk := textBase.toUInt64 }⟩

/-- **Faults are served behind the back of a program**: an access that goes through has changed no register, whatever the
handler has done on the way and however often it ran. -/
theorem access_keeps_registers {bytes : Bytes} (hk : k.Reachable) (h : p.access n k a = some (.ok bytes, k')) :
    ∃ r, k.registers p.env = .ok r ∧ k'.registers p.env = .ok r := by
  rcases he : k.env? p.env with _ | e
  · cases (access_of_env?_none he h).1
  · obtain ⟨e', he', hregs⟩ := regs_of_accessFrom_ok hk.sound he (hk.unprivileged.of_get? he).userMode h
    exact ⟨e.regs, by rw [registers, he], by rw [registers, he', ← hregs]⟩

/-- A store to a page that is not there, which the handler maps. -/
theorem access_keeps_registers_demandZero : ∃ (p : UserProcess) (k k' : Kernel) (r : Registers), k.Reachable ∧
    k.query p.env 0x10000000 = none ∧ p.access 2 k (.write 0x10000000 #[1, 2]) = some (.ok #[], k') ∧
    k'.query p.env 0x10000000 = some .userWritable ∧ k.registers p.env = .ok r ∧ k'.registers p.env = .ok r := by
  let k := upcallProgram
  let p := handledBy Routine.demandZero
  let a : Access := .write 0x10000000 #[1, 2]
  have hk : k.Reachable := reachable_upcallProgram
  have hrun : (p.directRound? Routine.demandZero 1 k a).map (fun x => (x.1, (p.enter x.2).1,
      (p.attempt (p.enter x.2).2 a).1, (p.attempt (p.enter x.2).2 a).2.query p.env 0x10000000)) =
      some (0x10000000, .ok (), .ok #[], some .userWritable) := by decide +kernel
  obtain ⟨⟨va, k₁⟩, hround, hx⟩ := Option.map_eq_some_iff.1 hrun
  simp only [Prod.mk.injEq] at hx
  obtain ⟨rfl, hent, hat, hmapped⟩ := hx
  rw [← round?_eq_directRound? hk.sound rfl] at hround
  have h : p.access 2 k a = some (.ok #[], (p.attempt (p.enter k₁).2 a).2) :=
    (accessFrom_of_round? hround).trans (accessFrom_of_attempt (Prod.ext hent rfl) (Prod.ext hat rfl))
  obtain ⟨r, hr, hr'⟩ := access_keeps_registers hk h
  exact ⟨p, k, _, r, hk, by decide +kernel, h, hmapped, hr, hr'⟩

end UserProcess
end Exokernel
