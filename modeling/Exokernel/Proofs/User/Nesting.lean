import Exokernel.Proofs.Kernel.Ledger
import Exokernel.Proofs.Kernel.Privilege
import Exokernel.Proofs.User.Fault
/-!
# Faults within faults

A handler that faults in its turn gets a record of its own, below the record of the fault that it handles.  The records
pile up downwards, a word apart, until the page of the exception stack is full; going back through them gives each register
file as it was.
-/
namespace Exokernel

/-- Whoever is in user mode stays as it is. -/
theorem Registers.UserMode.forUser_eq {r : Registers} (h : r.UserMode) : r.forUser = r := by
  have hs : (r.sstatus ||| spie) &&& ~~~spp = r.sstatus := by
    have hi := congrArg UInt64.toBitVec h.interruptible
    have hu := congrArg UInt64.toBitVec h.unprivileged
    rw [UInt64.toBitVec_and] at hi hu
    apply UInt64.toBitVec_inj.1
    rw [UInt64.toBitVec_and, UInt64.toBitVec_or, UInt64.toBitVec_not]
    ext n hn
    have hin := congrArg (·[n]) hi
    have hun := congrArg (·[n]) hu
    simp only [BitVec.getElem_and, BitVec.getElem_or, BitVec.getElem_not] at hin hun ⊢
    have hbit : ∀ s b c : Bool, (s && b) = b → (s && c) = false → ((s || b) && !c) = s := by decide
    exact hbit _ _ _ hin (hun.trans (by simp))
  rw [forUser, hs]

/-- A fault as an access leads to: at an address, with a code made of named bits. -/
structure PageFault.Declared (f : PageFault) : Prop where
  address : f.address < addressLimit
  code : FaultCode.truncate f.code.bits = f.code

/-- The record of a fault. -/
def PageFault.record (f : PageFault) (r : Registers) : FaultRecord := ⟨f.address.toUInt64, f.code, r⟩

theorem PageFault.Declared.toNat_address {f : PageFault} (h : f.Declared) (r : Registers) :
    (f.record r).address.toNat = f.address :=
  UInt64.toNat_ofNat_of_lt h.address

/-- Where the record of a fault belongs: below the stack pointer and one more word if the program runs on its exception
stack, and at the end of that stack otherwise. -/
def recordStart (sp : Word) : Nat :=
  if exceptionStackBase ≤ sp.toNat ∧ sp.toNat < exceptionStackTop then sp.toNat - 8 - FaultRecord.size
  else exceptionStackTop - FaultRecord.size

/-- The place of a record that has `n` records above it. -/
def recordPlace (n : Nat) : Nat := exceptionStackTop - FaultRecord.size - (FaultRecord.size + 8) * n

/-- The registers of a program after `n` faults within each other, the first with the registers `r`. -/
def Registers.nested (r : Registers) (entry : Word) : Nat → Registers
  | 0 => r
  | n + 1 => { r.setSp (recordPlace n).toUInt64 with sepc := entry }

namespace Kernel

variable {k k' k₁ : Kernel} {i j : EnvId} {e : Env} {f : PageFault} {sp entry : Word} {q : Pte} {r : FaultRecord} {a n : Nat}
  {regs : Registers} {rs : List FaultRecord}

/-! ## Where a record goes -/

theorem recordAddress?_eq (sp : Word) :
    recordAddress? sp = if exceptionStackBase ≤ recordStart sp then some (recordStart sp) else none := by
  have h : FaultRecord.size = 288 := rfl
  have hb : exceptionStackBase = 4005556224 := rfl
  have ht : exceptionStackTop = 4005560320 := rfl
  unfold recordAddress? recordStart
  rw [h, hb, ht]
  dsimp only
  split
  · by_cases hr : 4005556224 ≤ sp.toNat - 8 - 288
    · rw [if_pos hr, if_pos (by omega)]
    · rw [if_neg hr, if_neg (by omega)]
  · rfl

theorem recordStart_le (sp : Word) : recordStart sp + FaultRecord.size ≤ exceptionStackTop := by
  have h : FaultRecord.size = 288 := rfl
  have ht : exceptionStackTop = 4005560320 := rfl
  unfold recordStart
  split <;> omega

theorem pageDown_recordStart {sp : Word} :
    pageDown (recordStart sp) = exceptionStackBase ↔ exceptionStackBase ≤ recordStart sp := by
  have h : FaultRecord.size = 288 := rfl
  have hb : exceptionStackBase = 4005556224 := rfl
  have ht : exceptionStackTop = 4005560320 := rfl
  have hle := recordStart_le sp
  rw [hb]
  simp only [pageDown, pageSize]
  omega

/-- The exception stack has room for a record and may be written. -/
def Deliverable (k : Kernel) (i : EnvId) (sp : Word) : Prop :=
  pageDown (recordStart sp) = exceptionStackBase ∧
    ∃ q, k.mappings.entryAt i exceptionStackBase = some q ∧ q.allows .write

/-- All of the exception stack is mapped by one entry. -/
theorem entryAt_exceptionStack (he : k.env? i = some e) (hlow : exceptionStackBase ≤ a) (hhigh : a < exceptionStackTop) :
    e.space.entryAt a = k.mappings.entryAt i exceptionStackBase := by
  rw [entryAt_of_env? he]
  refine AddressSpace.entryAt_congr ?_
  simp only [exceptionStackBase, exceptionStackTop, userTop, pageSize] at *
  omega

theorem pageOffset_exceptionStack {x : Nat} (hlow : exceptionStackBase ≤ a) (hhigh : a + x < exceptionStackTop) :
    pageOffset (a + x) = pageOffset a + x := by
  simp only [pageOffset, exceptionStackBase, exceptionStackTop, userTop, pageSize] at *
  omega

/-- The record of a fault as it lies in memory. -/
def HasRecord (k : Kernel) (q : Pte) (a : Nat) (r : FaultRecord) : Prop :=
  ∀ x (hx : x < FaultRecord.size), k.machine.byte (q.frame, pageOffset a + x) = some r.encode[x]

/-- The record that a program finds at an address. -/
def recordAt? (k : Kernel) (i : EnvId) (a : Nat) : Option FaultRecord :=
  (k.env? i).bind fun e => (e.space.read k.machine a FaultRecord.size).toOption.map fun bytes =>
    .decode (Vector.ofFn fun x => bytes.getD x.val 0)

/-- **A record that lies on the exception stack is found there.** -/
theorem HasRecord.recordAt? (h : k.HasRecord q a r) (he : k.env? i = some e)
    (hq : k.mappings.entryAt i exceptionStackBase = some q) (hal : q.allows .read) (hlow : exceptionStackBase ≤ a)
    (hhigh : a + FaultRecord.size ≤ exceptionStackTop) (hc : FaultCode.truncate r.code.bits = r.code) :
    k.recordAt? i a = some r := by
  have hshows (x : Nat) (hx : x < FaultRecord.size) :
      k.Shows i (a + x) (if hx : x < FaultRecord.size then r.encode[x] else 0) := by
    refine ⟨q, ?_, hal, ?_⟩
    · rw [entryAt_of_env? he, entryAt_exceptionStack he (by omega) (by omega), hq]
    · rw [dif_pos hx, ← h x hx, pageOffset_exceptionStack hlow (by omega)]
  obtain ⟨bytes, hb, -, hget⟩ := read_of_shows he hshows
  have hrec : (Vector.ofFn fun x : Fin 288 => bytes.getD x.val 0) = r.encode := by
    apply Vector.ext
    intro x hx
    have hx' := hget x hx
    rw [dif_pos (show x < FaultRecord.size from hx)] at hx'
    rw [Vector.getElem_ofFn, Array.getD_eq_getD_getElem?, hx']
    rfl
  rw [Kernel.recordAt?, he, Option.bind_some, hb]
  exact congrArg some ((congrArg FaultRecord.decode hrec).trans (r.decode_encode hc))

/-- **A fault has been handed over**: its record `r` lies at `a`, the program goes on at its upcall with the stack pointer
there, and nothing else has changed. -/
structure Delivered (k k' : Kernel) (i : EnvId) (e : Env) (q : Pte) (entry : Word) (a : Nat) (r : FaultRecord) : Prop where
  env : k'.env? i = some { e with regs := { e.regs.setSp a.toUInt64 with sepc := entry } }
  others (j : EnvId) (hj : j ≠ i) : k'.env? j = k.env? j
  scheduler : k'.scheduler = k.scheduler
  refs (g : Frame) : k'.machine.refs g = k.machine.refs g
  byte (g : Frame) (o : Nat) (h : ¬ (g = q.frame ∧ pageOffset a ≤ o ∧ o < pageOffset a + FaultRecord.size)) :
    k'.machine.byte (g, o) = k.machine.byte (g, o)
  record : k'.HasRecord q a r
  found : k'.recordAt? i a = some r

/-- What the kernel logs is no matter. -/
theorem Delivered.log {l l' : Line} (h : (k.log l).Delivered k' i e q entry a r) : k.Delivered (k'.log l') i e q entry a r :=
  ⟨h.env, h.others, h.scheduler, h.refs, h.byte, h.record, h.found⟩

theorem Delivered.mappings (h : k.Delivered k' i e q entry a r) (he : k.env? i = some e) : k'.mappings = k.mappings := by
  funext j v
  refine mappings_congr ?_ v
  by_cases hj : j = i
  · rw [hj, h.env, he]
    rfl
  · rw [h.others j hj]

section raise
variable (hk : k.Sound []) (he : k.env? i = some e)
include hk he

omit hk in
/-- A fault whose record can be written is handed over. -/
theorem raise_of_write {m : Machine} (hu : e.upcall = some entry) (ha : recordAddress? e.regs.sp = some a)
    (hw : e.space.write (k.log (.faulted i f)).machine a (f.record e.regs).encode.toArray = .ok m) :
    k.raise i f = (.upcall entry a.toUInt64, (setRegisters { k.log (.faulted i f) with machine := m } i
      { e.regs.setSp a.toUInt64 with sepc := entry }).log (.upcalled i entry a)) := by
  have he' : (k.log (.faulted i f)).env? i = some e := (env?_log k _ i).trans he
  rw [PageFault.record] at hw
  rw [raise, deliverFault, he']
  dsimp only
  rw [hu]
  dsimp only
  rw [ha]
  dsimp only
  rw [hw]

/-- **What a record on the exception stack changes.** -/
theorem delivered_of_write (entry : Word) {m : Machine} (hf : f.Declared) (hlow : exceptionStackBase ≤ a)
    (hhigh : a + FaultRecord.size ≤ exceptionStackTop) (hq : k.mappings.entryAt i exceptionStackBase = some q)
    (hal : q.allows .write) (hw : e.space.write k.machine a (f.record e.regs).encode.toArray = .ok m) :
    k.Delivered (setRegisters { k with machine := m } i { e.regs.setSp a.toUInt64 with sepc := entry }) i e q entry a
      (f.record e.regs) := by
  have hsize : (f.record e.regs).encode.toArray.size = FaultRecord.size := Vector.size_toArray _
  have hpos : ∀ g ∈ e.space.table.leafFrames, 0 < k.machine.refs g := fun g hg => hk.refs_pos_of_mem he hg
  have hlocate (x : Nat) (hx : a ≤ x) (hxl : x < a + FaultRecord.size) :
      e.space.locate x = some (q.frame, pageOffset a + (x - a)) := by
    rw [AddressSpace.locate_eq_some ((entryAt_exceptionStack he (by omega) (by omega)).trans hq),
      ← pageOffset_exceptionStack hlow (by omega), Nat.add_sub_cancel' hx]
  have hrecord : HasRecord (setRegisters { k with machine := m } i { e.regs.setSp a.toUInt64 with sepc := entry }) q a
      (f.record e.regs) := by
    intro x hx
    have hb := AddressSpace.byte_write_of_locate hpos hw (x := a + x) (Nat.le_add_right _ _) (by omega)
      (hlocate (a + x) (by omega) (by omega)) fun y hy hyl hloc => by
        rw [hlocate y hy (by omega)] at hloc
        simp only [Option.some.injEq, Prod.mk.injEq, true_and] at hloc
        omega
    rw [Nat.add_sub_cancel_left, Array.getElem?_eq_getElem (by omega), Vector.getElem_toArray] at hb
    exact hb
  have henv : env? (setRegisters { k with machine := m } i { e.regs.setSp a.toUInt64 with sepc := entry }) i =
      some { e with regs := { e.regs.setSp a.toUInt64 with sepc := entry } } := by
    rw [env?_setRegisters, show env? { k with machine := m } i = some e from he]
    simp
  refine ⟨henv, fun j hj => env?_setRegisters_of_ne _ _ hj.symm, rfl, fun g => AddressSpace.refs_write hw g,
    fun g o hn => ?_, hrecord, hrecord.recordAt? henv ?_ (Pte.allows_read hal) hlow hhigh hf.code⟩
  · refine AddressSpace.byte_write_of_ne hpos hw fun x hx hxl hloc => ?_
    rw [hlocate x hx (by omega)] at hloc
    cases hloc
    exact hn ⟨rfl, by omega, by omega⟩
  · rw [mappings_setRegisters]
    exact hq

/-- **A fault that can be handed over is handed over.** -/
theorem raise_delivered (hu : e.upcall = some entry) (hf : f.Declared)
    (hpage : pageDown (recordStart e.regs.sp) = exceptionStackBase)
    (hq : k.mappings.entryAt i exceptionStackBase = some q) (hal : q.allows .write) : ∃ k',
      k.raise i f = (.upcall entry (recordStart e.regs.sp).toUInt64, k') ∧ k'.Sound [] ∧ k.Inert k' ∧
      k.Delivered k' i e q entry (recordStart e.regs.sp) (f.record e.regs) := by
  have hlow := pageDown_recordStart.1 hpage
  have hhigh := recordStart_le e.regs.sp
  have hsize : (f.record e.regs).encode.toArray.size = FaultRecord.size := Vector.size_toArray _
  have hcheck : e.space.check (recordStart e.regs.sp) (f.record e.regs).encode.toArray.size .write = .ok () :=
    AddressSpace.check_of_allows fun x hx hxl => ⟨q, (entryAt_exceptionStack he (by omega) (by omega)).trans hq, hal⟩
  obtain ⟨m, hw⟩ : ∃ m, e.space.write (k.log (.faulted i f)).machine (recordStart e.regs.sp)
      (f.record e.regs).encode.toArray = .ok m := AddressSpace.write_of_check hcheck
  have he' : (k.log (.faulted i f)).env? i = some e := (env?_log k _ i).trans he
  have hd := delivered_of_write (hk.log (.faulted i f)) he' entry hf hlow hhigh hq hal hw
  have hraise := raise_of_write he hu (by rw [recordAddress?_eq, if_pos hlow]) hw
  have hk' := hk.raise i f
  rw [hraise] at hk'
  exact ⟨_, hraise, hk', (((Inert.log k _).trans (.write hw)).trans (.setRegisters _ _ _)).trans (.log _ _), hd.log⟩

/-- **Any other fault is the end.** -/
theorem raise_killed (hn : ¬ k.Deliverable i e.regs.sp) : ∃ k', k.raise i f = (.killed, k') ∧ k.Ends k' i := by
  rcases hr : k.raise i f with ⟨t, k'⟩
  rcases raise_cases he hr with ⟨rfl, k₁, hb, rfl⟩ | ⟨entry', record, k₁, m, -, hrec, hb, hw, -, -⟩
  · have he₁ := (env?_congr (envs_of_bare hb) i).trans he
    refine ⟨_, rfl, (Quiet.of_bare hb).ends (ends_of_destroyEnv (hk.of_bare hb) ?_)⟩
    rw [destroyEnv_of_env? he₁]
  · exfalso
    rw [recordAddress?_eq, Option.ite_none_right_eq_some] at hrec
    obtain ⟨hlow, hstart⟩ := hrec
    obtain rfl := Option.some.inj hstart
    refine hn ⟨pageDown_recordStart.2 hlow, ?_⟩
    have hsize : FaultRecord.size = 288 := rfl
    obtain ⟨q, hq, hal⟩ := AddressSpace.allows_of_check (AddressSpace.write_ok hw).1 (Nat.le_refl _)
      (by rw [Vector.size_toArray]; omega)
    have hhigh := recordStart_le e.regs.sp
    exact ⟨q, (entryAt_exceptionStack he hlow (by omega)).symm.trans hq, hal⟩

end raise

/-! ## Faults within faults -/

/-- The program does not run on its exception stack. -/
def OffExceptionStack (sp : Word) : Prop := ¬ (exceptionStackBase ≤ sp.toNat ∧ sp.toNat < exceptionStackTop)

theorem recordPlace_bounds (hn : n < 13) :
    exceptionStackBase ≤ recordPlace n ∧ recordPlace n + FaultRecord.size ≤ exceptionStackTop := by
  simp only [recordPlace, FaultRecord.size, exceptionStackBase, exceptionStackTop, userTop, pageSize]
  omega

/-- **There is room for thirteen records.** -/
theorem pageDown_recordPlace (hn : n ≤ 13) : pageDown (recordPlace n) = exceptionStackBase ↔ n < 13 := by
  simp only [recordPlace, FaultRecord.size, exceptionStackBase, exceptionStackTop, userTop, pageSize, pageDown]
  omega

/-- **Records do not overlap.** -/
theorem recordPlace_apart {m : Nat} (h : m < n) (hn : n < 13) : recordPlace n + FaultRecord.size ≤ recordPlace m := by
  simp only [recordPlace, FaultRecord.size, exceptionStackTop, userTop]
  omega

/-- The record of the next fault goes below the others. -/
theorem recordStart_nested (entry : Word) (hout : OffExceptionStack regs.sp) (hn : n ≤ 13) :
    recordStart (regs.nested entry n).sp = recordPlace n := by
  cases n with
  | zero => exact if_neg hout
  | succ n =>
    have hsp : (regs.nested entry (n + 1)).sp = (recordPlace n).toUInt64 := Vector.getElem_set_self _
    obtain ⟨hlow, hhigh⟩ := recordPlace_bounds hn
    have hsize : FaultRecord.size = 288 := rfl
    have hnat : (recordPlace n).toUInt64.toNat = recordPlace n :=
      UInt64.toNat_ofNat_of_lt (Nat.lt_of_le_of_lt (Nat.le_of_add_right_le hhigh) (by decide))
    rw [recordStart, hsp, hnat, if_pos ⟨hlow, by omega⟩]
    simp only [recordPlace, FaultRecord.size, exceptionStackTop, userTop]
    omega

theorem nested_succ (regs : Registers) (entry : Word) (n : Nat) :
    { (regs.nested entry n).setSp (recordPlace n).toUInt64 with sepc := entry } = regs.nested entry (n + 1) := by
  cases n with
  | zero => rfl
  | succ n =>
    show Registers.mk ((regs.x.set 2 _).set 2 _) _ _ = Registers.mk (regs.x.set 2 _) _ _
    rw [Vector.set_set]
    rfl

theorem userMode_nested (h : regs.UserMode) (entry : Word) (n : Nat) : (regs.nested entry n).UserMode := by
  cases n with
  | zero => exact h
  | succ n => exact h.congr rfl

/-- Nothing has happened that changes the registers of the program, its upcall or its exception stack. -/
structure Undisturbed (k k' : Kernel) (i : EnvId) : Prop where
  sound : k'.Sound []
  env (e : Env) (h : k.env? i = some e) : ∃ e', k'.env? i = some e' ∧ e'.regs = e.regs ∧ e'.upcall = e.upcall
  stack : k'.mappings.entryAt i exceptionStackBase = k.mappings.entryAt i exceptionStackBase
  page (q : Pte) (h : k.mappings.entryAt i exceptionStackBase = some q) : k'.machine.page q.frame = k.machine.page q.frame

/-- **Faults within faults and the ways back from them**, with nothing in between that concerns them: the records of the
faults that are being handled, the innermost first.  The way back takes the registers from the record at the stack
pointer. -/
inductive Nests (i : EnvId) (k : Kernel) : List FaultRecord → Kernel → Prop
  | start : Nests i k [] k
  | rest {rs : List FaultRecord} {k₁ k₂ : Kernel} (h : Nests i k rs k₁) (hs : k₁.Undisturbed k₂ i) : Nests i k rs k₂
  | fault {rs : List FaultRecord} {k₁ k₂ : Kernel} {e : Env} {f : PageFault} {entry record : Word} (h : Nests i k rs k₁)
      (he : k₁.env? i = some e) (hf : f.Declared) (hr : k₁.raise i f = (.upcall entry record, k₂)) :
      Nests i k (f.record e.regs :: rs) k₂
  | back {r r' : FaultRecord} {rs : List FaultRecord} {k₁ k₂ : Kernel} {e : Env} (h : Nests i k (r :: rs) k₁)
      (he : k₁.env? i = some e) (hrec : k₁.recordAt? i e.regs.sp.toNat = some r')
      (hr : k₁.resumeWith i r'.regs = (.ok (), k₂)) : Nests i k rs k₂

/-- Each record is at its place below those that came before, with the registers of its fault. -/
def Piled (k : Kernel) (q : Pte) (regs : Registers) (entry : Word) : List FaultRecord → Prop
  | [] => True
  | r :: rs => k.HasRecord q (recordPlace rs.length) r ∧ r.regs = regs.nested entry rs.length ∧
      FaultCode.truncate r.code.bits = r.code ∧ k.Piled q regs entry rs

theorem Piled.congr (h : k.Piled q regs entry rs) (hb : ∀ m x, m < rs.length → x < FaultRecord.size →
    k'.machine.byte (q.frame, pageOffset (recordPlace m) + x) = k.machine.byte (q.frame, pageOffset (recordPlace m) + x)) :
    k'.Piled q regs entry rs := by
  induction rs with
  | nil => trivial
  | cons r rs ih =>
    obtain ⟨hr, hregs, hc, hrs⟩ := h
    exact ⟨fun x hx => (hb _ x (Nat.lt_succ_self _) hx).trans (hr x hx), hregs, hc,
      ih hrs fun m x hm => hb m x (Nat.lt_succ_of_lt hm)⟩

/-- A record in the pile has those below it that came before. -/
theorem Piled.mem {pre post : List FaultRecord} (h : k.Piled q regs entry (pre ++ r :: post)) :
    k.HasRecord q (recordPlace post.length) r ∧ r.regs = regs.nested entry post.length ∧
      FaultCode.truncate r.code.bits = r.code := by
  induction pre with
  | nil => exact ⟨h.1, h.2.1, h.2.2.1⟩
  | cons s pre ih => exact ih h.2.2.2

/-- **A program that handles faults within faults**, with the exception stack mapped by `q`. -/
structure Handling (k : Kernel) (i : EnvId) (q : Pte) (regs : Registers) (entry : Word) (rs : List FaultRecord) : Prop where
  sound : k.Sound []
  env : ∃ e, k.env? i = some e ∧ e.regs = regs.nested entry rs.length ∧ e.upcall = some entry
  stack : k.mappings.entryAt i exceptionStackBase = some q
  length : rs.length ≤ 13
  piled : k.Piled q regs entry rs

namespace Handling

theorem undisturbed (h : k.Handling i q regs entry rs) (hs : k.Undisturbed k' i) : k'.Handling i q regs entry rs := by
  obtain ⟨e, he, hregs, hu⟩ := h.env
  obtain ⟨e', he', hregs', hu'⟩ := hs.env e he
  refine ⟨hs.sound, ⟨e', he', hregs'.trans hregs, hu'.trans hu⟩, hs.stack.trans h.stack, h.length, h.piled.congr ?_⟩
  exact fun m x _ _ => Machine.byte_congr (hs.page q h.stack)

/-- **The next fault is handed over if there are less than thirteen records**, and is the end otherwise. -/
theorem raise (h : k.Handling i q regs entry rs) (hal : q.allows .write) (hout : OffExceptionStack regs.sp)
    (he : k.env? i = some e) (hf : f.Declared) :
    (rs.length < 13 → ∃ k', k.raise i f = (.upcall entry (recordPlace rs.length).toUInt64, k') ∧
      k'.Handling i q regs entry (f.record e.regs :: rs)) ∧
    (rs.length = 13 → ∃ k', k.raise i f = (.killed, k') ∧ k.Ends k' i) := by
  obtain ⟨e', he', hregs, hu⟩ := h.env
  obtain rfl := Option.some.inj (he.symm.trans he')
  have hplace : recordStart e.regs.sp = recordPlace rs.length := by rw [hregs, recordStart_nested entry hout h.length]
  refine ⟨fun hn => ?_, fun hn => ?_⟩
  · obtain ⟨k', hr, hk', -, hd⟩ := raise_delivered h.sound he hu hf
      (by rw [hplace]; exact (pageDown_recordPlace h.length).2 hn) h.stack hal
    rw [hplace] at hr hd
    refine ⟨k', hr, hk', ⟨_, hd.env, ?_, hu⟩, ?_, hn, hd.record, hregs, hf.code, h.piled.congr fun m x hm hx => ?_⟩
    · rw [hregs]
      exact nested_succ regs entry rs.length
    · rw [hd.mappings he, h.stack]
    · -- the records above lie beyond the word that is left free
      refine hd.byte _ _ ?_
      have hapart := recordPlace_apart hm hn
      obtain ⟨hlow, -⟩ := recordPlace_bounds hn
      obtain ⟨-, hhigh⟩ := recordPlace_bounds (Nat.lt_trans hm hn)
      simp only [pageOffset, pageSize, FaultRecord.size, exceptionStackBase, exceptionStackTop, userTop] at *
      omega
  · refine raise_killed h.sound he fun hd => ?_
    have := (pageDown_recordPlace h.length).1 (by rw [← hplace]; exact hd.1)
    omega

/-- **The way back from the innermost fault gives the registers of that fault.** -/
theorem back (h : k.Handling i q regs entry (r :: rs)) (hal : q.allows .write) (hm : regs.UserMode)
    (he : k.env? i = some e) : k.recordAt? i e.regs.sp.toNat = some r ∧
      ∃ k', k.resumeWith i r.regs = (.ok (), k') ∧ k'.env? i = some { e with regs := r.regs } ∧
        k'.Handling i q regs entry rs := by
  obtain ⟨e', he', hregs, hu⟩ := h.env
  obtain rfl := Option.some.inj (he.symm.trans he')
  obtain ⟨hrec, hr, hc, hpiled⟩ := h.piled
  have hlen : rs.length < 13 := h.length
  obtain ⟨hlow, hhigh⟩ := recordPlace_bounds hlen
  have hsp : e.regs.sp.toNat = recordPlace rs.length := by
    have hset : e.regs.sp = (recordPlace rs.length).toUInt64 := by
      rw [hregs]
      exact Vector.getElem_set_self _
    rw [hset]
    exact UInt64.toNat_ofNat_of_lt (Nat.lt_of_le_of_lt (Nat.le_of_add_right_le hhigh) (by decide))
  have huser : r.regs.forUser = r.regs := by
    rw [hr]
    exact (userMode_nested hm entry rs.length).forUser_eq
  have henv : (k.setRegisters i r.regs).env? i = some { e with regs := r.regs } := by
    rw [env?_setRegisters, he]
    simp
  refine ⟨hsp ▸ hrec.recordAt? he h.stack (Pte.allows_read hal) hlow hhigh hc, k.setRegisters i r.regs, ?_, henv,
    h.sound.setRegisters i _, ⟨_, henv, hr, hu⟩, ?_, Nat.le_of_lt hlen, hpiled.congr fun _ _ _ _ => rfl⟩
  · rw [resumeWith, he]
    dsimp only
    rw [huser]
  · rw [mappings_setRegisters, h.stack]

/-- **However a program gets there**, by faults and ways back, it handles the faults that it has not come back from. -/
theorem of_nests (h₀ : k.Handling i q regs entry []) (hal : q.allows .write) (hout : OffExceptionStack regs.sp)
    (hm : regs.UserMode) (h : Nests i k rs k') : k'.Handling i q regs entry rs := by
  induction h with
  | start => exact h₀
  | rest _ hs ih => exact ih.undisturbed hs
  | @fault rs k₁ k₂ e f entry' record _ he hf hr ih =>
    obtain ⟨hroom, hfull⟩ := ih.raise hal hout he hf
    rcases Nat.lt_or_ge rs.length 13 with hlt | hge
    · obtain ⟨k₃, hr₃, hh⟩ := hroom hlt
      rw [hr] at hr₃
      obtain rfl := (Prod.mk.inj hr₃).2
      exact hh
    · obtain ⟨k₃, hr₃, -⟩ := hfull (Nat.le_antisymm ih.length hge)
      rw [hr] at hr₃
      cases hr₃
  | @back r r' rs k₁ k₂ e _ he hrec hr ih =>
    obtain ⟨hrec₁, k₃, hr₃, -, hh⟩ := ih.back hal hm he
    obtain rfl := Option.some.inj (hrec.symm.trans hrec₁)
    rw [hr] at hr₃
    obtain rfl := (Prod.mk.inj hr₃).2
    exact hh

end Handling

/-- **The state of a program within faults**, from the innermost fault `rs` begins with to the outermost, which found the
registers `regs`: at most thirteen records lie on the exception stack, apart and as they were written, each with the
registers of its fault, and the way back from the innermost gives them to the program. -/
structure Nested (k : Kernel) (i : EnvId) (regs : Registers) (entry : Word) (rs : List FaultRecord) : Prop where
  registers : (k.env? i).map Env.regs = some (regs.nested entry rs.length)
  length : rs.length ≤ 13
  apart (m n : Nat) (h : m < n) (hn : n < rs.length) : recordPlace n + FaultRecord.size ≤ recordPlace m
  intact (pre post : List FaultRecord) (r : FaultRecord) (h : rs = pre ++ r :: post) :
    k.recordAt? i (recordPlace post.length) = some r ∧ r.regs = regs.nested entry post.length
  back (r : FaultRecord) (rest : List FaultRecord) (h : rs = r :: rest) :
    ∃ k', k.resumeWith i r.regs = (.ok (), k') ∧ (k'.env? i).map Env.regs = some r.regs

theorem Handling.nested (h : k.Handling i q regs entry rs) (hal : q.allows .write) (hm : regs.UserMode) :
    k.Nested i regs entry rs := by
  obtain ⟨e, he, hregs, -⟩ := h.env
  refine ⟨by rw [he, Option.map_some, hregs], h.length, fun m n hmn hn => recordPlace_apart hmn (Nat.lt_of_lt_of_le hn h.length),
    fun pre post r hrs => ?_, fun r rest hrs => ?_⟩
  · have hlen := h.length
    have hpiled := h.piled
    rw [hrs] at hlen hpiled
    rw [List.length_append, List.length_cons] at hlen
    obtain ⟨hlow, hhigh⟩ := recordPlace_bounds (n := post.length) (by omega)
    obtain ⟨hrec, hr, hc⟩ := hpiled.mem
    exact ⟨hrec.recordAt? he h.stack (Pte.allows_read hal) hlow hhigh hc, hr⟩
  · subst hrs
    obtain ⟨-, k', hres, henv, -⟩ := h.back hal hm he
    exact ⟨k', hres, by rw [henv, Option.map_some]⟩

/-- **Records of faults nest**, for a live program with an upcall in any state that a kernel can come to.  A fault is handed
over exactly when its record lies in the page of the exception stack and the page may be written; the record is all that
changes but for the stack pointer and where the program goes on, and it is read back as it was written.  Any other fault is
the end.  Faults within faults, from a program that was not on its exception stack, find room for thirteen records, which
stay as they are; each way back gives the registers as they were at the fault. -/
theorem fault_records_nest (hk : k.Reachable) (he : k.env? i = some e) (hu : e.upcall = some entry) :
    (∀ f : PageFault, f.Declared → (f.record e.regs).address.toNat = f.address ∧
      (∀ q, pageDown (recordStart e.regs.sp) = exceptionStackBase → k.mappings.entryAt i exceptionStackBase = some q →
        q.allows .write → ∃ k', k.raise i f = (.upcall entry (recordStart e.regs.sp).toUInt64, k') ∧
          k.Delivered k' i e q entry (recordStart e.regs.sp) (f.record e.regs)) ∧
      (¬ k.Deliverable i e.regs.sp → ∃ k', k.raise i f = (.killed, k') ∧ k.Ends k' i)) ∧
    (OffExceptionStack e.regs.sp → ∀ q, k.mappings.entryAt i exceptionStackBase = some q → q.allows .write →
      ∀ rs k', Nests i k rs k' → k'.Nested i e.regs entry rs ∧ ∀ f : PageFault, f.Declared →
        (rs.length < 13 → ∃ k'', k'.raise i f = (.upcall entry (recordPlace rs.length).toUInt64, k'')) ∧
        (rs.length = 13 → ∃ k'', k'.raise i f = (.killed, k'') ∧ k'.Ends k'' i)) := by
  refine ⟨fun f hf => ⟨hf.toNat_address _, fun q hpage hq hal => ?_, raise_killed hk.sound he⟩,
    fun hout q hq hal rs k' h => ?_⟩
  · obtain ⟨k', hr, -, -, hd⟩ := raise_delivered hk.sound he hu hf hpage hq hal
    exact ⟨k', hr, hd⟩
  · have hm : e.regs.UserMode := (hk.unprivileged.of_get? he).userMode
    have h₀ : k.Handling i q e.regs entry [] := ⟨hk.sound, ⟨e, he, rfl, hu⟩, hq, Nat.zero_le _, trivial⟩
    have hh := Handling.of_nests h₀ hal hout hm h
    obtain ⟨e', he', -, -⟩ := hh.env
    refine ⟨hh.nested hal hm, fun f hf => ?_⟩
    obtain ⟨hroom, hfull⟩ := hh.raise hal hout he' hf
    refine ⟨fun hlt => ?_, hfull⟩
    obtain ⟨k'', hr, -⟩ := hroom hlt
    exact ⟨k'', hr⟩

/-- A program with an exception stack faults, and its handler faults. -/
theorem fault_records_nest_twice : ∃ (k k₁ k₂ : Kernel) (i : EnvId) (e : Env) (entry : Word) (q : Pte) (f : PageFault),
    k.Reachable ∧ k.env? i = some e ∧ e.upcall = some entry ∧
    k.raise i f = (.upcall entry (recordPlace 0).toUInt64, k₁) ∧ k.Delivered k₁ i e q entry (recordPlace 0) (f.record e.regs) ∧
    k₁.raise i f = (.upcall entry (recordPlace 1).toUInt64, k₂) ∧
    k₂.Nested i e.regs entry [f.record (e.regs.nested entry 1), f.record e.regs] := by
  let k := ((ofConfig ⟨24, 2⟩).log (.booted ⟨24, 2⟩)).run [.spawn { data := #[5] },
    .perform ⟨4096⟩ (.ecall 3 #v[0, exceptionStackBase.toUInt64, Perm.userWritable.toWord, 0, 0]),
    .perform ⟨4096⟩ (.ecall 9 #v[0, upcallEntry.toUInt64, 0, 0, 0])]
  let f : PageFault := ⟨0x1234, .write ||| .user⟩
  have hk : k.Reachable := Reachable.run (.boot (c := ⟨24, 2⟩) rfl) _
  have hlive : (k.env? ⟨4096⟩).map (fun e => (e.upcall, e.regs.sp)) = some (some upcallEntry.toUInt64, stackTop.toUInt64) := by
    decide +kernel
  obtain ⟨e, he, hst⟩ := Option.map_eq_some_iff.1 hlive
  have hu : e.upcall = some upcallEntry.toUInt64 := (Prod.mk.inj hst).1
  have hsp : e.regs.sp = stackTop.toUInt64 := (Prod.mk.inj hst).2
  have hstack : (k.mappings.entryAt ⟨4096⟩ exceptionStackBase).map (·.allows .write) = some true := by decide +kernel
  obtain ⟨q, hq, hal⟩ := Option.map_eq_some_iff.1 hstack
  have hf : f.Declared := ⟨by decide, by decide⟩
  have hstart : recordStart e.regs.sp = recordPlace 0 := by rw [hsp]; decide
  have hout : OffExceptionStack e.regs.sp := by rw [hsp, OffExceptionStack]; decide
  have h := fault_records_nest hk he hu
  obtain ⟨-, hdel, -⟩ := h.1 f hf
  obtain ⟨k₁, hr₁, hd₁⟩ := hdel q (by rw [hstart]; decide) hq hal
  rw [hstart] at hr₁ hd₁
  obtain ⟨-, hnext⟩ := h.2 hout q hq hal _ k₁ (.fault .start he hf hr₁)
  obtain ⟨k₂, hr₂⟩ := (hnext f hf).1 (Nat.lt_of_sub_eq_succ rfl)
  obtain ⟨hnested, -⟩ := h.2 hout q hq hal _ k₂ (.fault (.fault .start he hf hr₁) hd₁.env hf hr₂)
  exact ⟨k, k₁, k₂, _, e, _, q, f, hk, he, hu, hr₁, hd₁, hr₂, hnested⟩

end Kernel
end Exokernel
