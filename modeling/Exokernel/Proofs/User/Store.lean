import Exokernel.Proofs.Paging.Fault
import Exokernel.Proofs.User.Nesting
import Exokernel.Proofs.User.PrivateCopy
import Mathlib.Data.List.Perm.Subperm
/-!
# Storing over marked pages

A store over pages that are marked copy-on-write faults at the first of them, gets a copy of it, and is tried again, so that
it comes to the next.  Each upcall leaves one marked page less, and a page that cannot be repaired is the end: the store
takes as many upcalls as there are marked pages at most, and until the last of them is repaired it writes nothing.
-/
namespace Exokernel

namespace Kernel

variable {k k' k₁ : Kernel} {i j : EnvId} {e : Env} {stack old : Pte} {regs : Registers} {v : VirtAddr} {g : Frame}
  {f : PageFault} {a : Nat}

/-- The page of an address is marked copy-on-write and may not be written. -/
def marks (k : Kernel) (i : EnvId) (a : Nat) : Bool :=
  (k.mappings.entryAt i a).any fun q => q.perm.contains .cow && !q.perm.contains .writable

/-- The page of an address may be written. -/
def writes (k : Kernel) (i : EnvId) (a : Nat) : Prop :=
  ∃ q, k.mappings.entryAt i a = some q ∧ q.perm.contains .writable

theorem marks_iff : k.marks i a ↔
    ∃ q, k.mappings.entryAt i a = some q ∧ q.perm.contains .cow ∧ ¬ q.perm.contains .writable := by
  simp [marks, Option.any_eq_true]

/-- The page of an address may be written, or is marked for a copy. -/
def attains (k : Kernel) (i : EnvId) (a : Nat) : Prop :=
  ∃ q, k.mappings.entryAt i a = some q ∧ (q.perm.contains .writable ∨ q.perm.contains .cow)

theorem attains_iff : k.attains i a ↔ k.writes i a ∨ k.marks i a := by
  rw [marks_iff]
  constructor
  · rintro ⟨q, hq, hw⟩
    by_cases hwr : q.perm.contains .writable
    · exact .inl ⟨q, hq, hwr⟩
    · exact .inr ⟨q, hq, hw.resolve_left hwr, hwr⟩
  · rintro (⟨q, hq, hw⟩ | ⟨q, hq, hc, -⟩)
    · exact ⟨q, hq, .inl hw⟩
    · exact ⟨q, hq, .inr hc⟩

theorem not_marks_of_writes (h : k.writes i a) : ¬ k.marks i a := by
  obtain ⟨q, hq, hw⟩ := h
  intro hm
  obtain ⟨q', hq', -, hn⟩ := marks_iff.1 hm
  rw [hq] at hq'
  cases hq'
  exact hn hw

theorem lt_userTop_of_marks (h : k.marks i a) : a < userTop := by
  obtain ⟨q, hq, -⟩ := marks_iff.1 h
  obtain ⟨v, hv, -⟩ := Option.bind_eq_some_iff.1 hq
  rw [← VirtAddr.ofNat?_eq_some_iff.1 hv]
  exact v.raw_lt

/-- An entry is that of a whole page. -/
theorem mappings_entryAt_congr {b : Nat} (h : a / pageSize = b / pageSize) :
    k.mappings.entryAt i a = k.mappings.entryAt i b := by
  rw [← entryAt_pageDown, pageDown, h, ← entryAt_pageDown k i b, pageDown]

/-- Where the byte at an address of a program is, if its page is mapped. -/
def place (k : Kernel) (i : EnvId) (a : Nat) : Option Place :=
  (k.mappings.entryAt i a).map fun q => (q.frame, pageOffset a)

/-- **A program that is ready for faults**: its registers are `regs`, its exception stack is mapped by `stack`, and what it
has mapped it may read. -/
structure Armed (k : Kernel) (i : EnvId) (stack : Pte) (regs : Registers) : Prop where
  sound : k.Sound []
  env : ∃ e, k.env? i = some e ∧ e.status.isRunnable ∧ e.regs = regs ∧ e.upcall = some upcallEntry.toUInt64
  stack : k.mappings.entryAt i exceptionStackBase = some stack
  readable (v : VirtAddr) (q : Pte) (h : k.mappings i v = some q) : q.allows .read

/-- **Nobody else has noticed**, but for the record of a fault in a frame of the exception stack. -/
structure Discreet (k k' : Kernel) (i : EnvId) (s : Frame) : Prop where
  mappings (j : EnvId) (hj : j ≠ i) (v : VirtAddr) : k'.mappings j v = k.mappings j v
  byte (j : EnvId) (hj : j ≠ i) (v : VirtAddr) (q : Pte) (h : k.mappings j v = some q) (o : Nat)
    (ho : ¬ (q.frame = s ∧ pageOffset (recordPlace 0) ≤ o)) : k'.machine.byte (q.frame, o) = k.machine.byte (q.frame, o)

namespace Discreet

variable {s : Frame}

theorem trans (h : k.Discreet k₁ i s) (h' : k₁.Discreet k' i s) : k.Discreet k' i s :=
  ⟨fun j hj v => (h'.mappings j hj v).trans (h.mappings j hj v), fun j hj v q hq o ho =>
    (h'.byte j hj v q ((h.mappings j hj v).trans hq) o ho).trans (h.byte j hj v q hq o ho)⟩

theorem of_samePages (h : k.SamePages k') : k.Discreet k' i s :=
  ⟨fun j _ v => congrFun (congrFun h.mappings j) v, fun _ _ _ _ _ _ _ => by rw [h.machine]⟩

theorem of_ends (h : k.Ends k' i) : k.Discreet k' i s := by
  refine ⟨fun j hj v => ?_, fun j hj v q hq o _ => ?_⟩
  · rw [h.mappings, Mappings.without, if_neg hj.symm]
  · obtain ⟨e, he, hl⟩ := Option.bind_eq_some_iff.1 hq
    obtain ⟨-, -, -, -, -, hpage⟩ := h.spares j hj e he
    exact Machine.byte_congr (hpage v q hl)

theorem of_copied (h : k.Copied k' i i .scratch v old g) : k.Discreet k' i s := by
  have hmap (j : EnvId) (hj : j ≠ i) (w : VirtAddr) : k'.mappings j w = k.mappings j w := by
    rw [h.mappings, Mappings.put_of_ne fun hn => hj hn.1.symm, Mappings.put_of_ne fun hn => hj hn.1.symm]
  refine ⟨hmap, fun j hj w q hq o _ => Machine.byte_congr (h.kept j w q ((hmap j hj w).trans hq) ?_)⟩
  exact h.fresh j w q hq

end Discreet

/-! ## What a program goes through -/

/-- **Whoever gets the processor**, nobody is any different but for its status. -/
theorem env?_of_dispatch (h : k.dispatch j = .ok k') (he : k.env? i = some e) :
    ∃ s, k'.env? i = some { e with status := s } := by
  refine dispatch_induction (Q := fun k' => ∃ s, k'.env? i = some { e with status := s }) h ⟨e.status, he⟩ ?_ ?_
  · rintro k l f ⟨s, hs⟩
    rw [env?_modifyEnv (f := fun e => { e with status := f e.status }) (fun _ => rfl), hs, Option.map_some]
    split
    · exact ⟨f s, rfl⟩
    · exact ⟨s, rfl⟩
  · rintro k s ⟨t, ht⟩
    exact ⟨t, ht⟩

theorem Armed.runs (h : k.Armed i stack regs) : k.Runs i regs.sp := by
  obtain ⟨e, he, hs, hr, -⟩ := h.env
  exact ⟨e, he, hs, by rw [hr]⟩

/-- **A program that is ready gets the processor.** -/
theorem Armed.dispatch (h : k.Armed i stack regs) :
    ∃ k', k.dispatch i = .ok k' ∧ k'.Armed i stack regs ∧ k.SamePages k' ∧ k.Inert k' := by
  obtain ⟨k', hd, hq⟩ := h.runs.dispatch
  obtain ⟨e, he, -, hregs, hu⟩ := h.env
  obtain ⟨s, he'⟩ := env?_of_dispatch hd he
  obtain ⟨e₁, he₁, hs, -⟩ := hq.runs h.runs
  rw [he'] at he₁
  cases he₁
  have hsame := SamePages.dispatch hd
  refine ⟨k', hd, ⟨h.sound.dispatch hd, ⟨_, he', hs, hregs, hu⟩, ?_, fun v q => ?_⟩, hsame, .dispatch hd⟩
  · rw [hsame.mappings, h.stack]
  · rw [hsame.mappings]
    exact h.readable v q

/-- **A program that is ready gets its upcall when it faults.** -/
theorem Armed.raise (h : k.Armed i stack regs) (hal : stack.allows .write) (hout : OffExceptionStack regs.sp)
    (hf : f.Declared) : ∃ k', k.raise i f = (.upcall upcallEntry.toUInt64 (recordPlace 0).toUInt64, k') ∧
      k'.Armed i stack (regs.nested upcallEntry.toUInt64 1) ∧ k'.recordAt? i (recordPlace 0) = some (f.record regs) ∧
      k'.mappings = k.mappings ∧ k.Inert k' ∧ k.Discreet k' i stack.frame := by
  obtain ⟨e, he, hs, rfl, hu⟩ := h.env
  have hplace : recordStart e.regs.sp = recordPlace 0 := recordStart_nested (n := 0) 0 hout (by decide)
  obtain ⟨k', hr, hk', hinert, hd⟩ := raise_delivered h.sound he hu hf
    (by rw [hplace]; exact (pageDown_recordPlace (by decide)).2 (by decide)) h.stack hal
  rw [hplace] at hr hd
  have hmap := hd.mappings he
  refine ⟨k', hr, ⟨hk', ⟨_, hd.env, hs, rfl, hu⟩, by rw [hmap, h.stack], fun v q => ?_⟩, hd.found, hmap, hinert, ?_⟩
  · rw [hmap]
    exact h.readable v q
  · refine ⟨fun j _ v => by rw [hmap], fun j _ v q _ o ho => hd.byte _ _ fun hin => ho ⟨hin.1, hin.2.1⟩⟩

/-- **What a store needs**: each page of its range can be written, or it faults at the first that cannot. -/
theorem Armed.check_cases {len : Nat} (h : k.Armed i stack regs) (ha : a < addressLimit)
    (hlen : a + (len - 1) < addressLimit ∨ userTop ≤ a) :
    ((∀ e, k.env? i = some e → e.space.check a len .write = .ok ()) ∧ ∀ x ∈ rangeStarts a len, k.writes i x) ∨
    ∃ f pre post, (∀ e, k.env? i = some e → e.space.check a len .write = .error f) ∧ f.Declared ∧ f.code.contains .write ∧
      rangeStarts a len = pre ++ f.address :: post ∧ (∀ x ∈ pre, k.writes i x) ∧ ¬ k.writes i f.address := by
  obtain ⟨e, he, -⟩ := h.env
  have hwrites (x : Nat) : k.writes i x ↔ ∃ q, e.space.entryAt x = some q ∧ q.allows .write := by
    rw [← entryAt_of_env? he]
    refine ⟨fun ⟨q, hq, hw⟩ => ⟨q, hq, ?_⟩, fun ⟨q, hq, hw⟩ => ⟨q, hq, Pte.writable_of_allows hw⟩⟩
    obtain ⟨v, -, hv⟩ := Option.bind_eq_some_iff.1 hq
    obtain ⟨hp, hu⟩ := Pte.contains_of_allows (h.readable v q hv)
    rw [Pte.allows, hp, hu, hw]
    rfl
  have hself (e' : Env) (he' : k.env? i = some e') : e' = e := Option.some.inj (he'.symm.trans he)
  rcases hc : e.space.check a len .write with f | _
  · obtain ⟨pre, post, hl, hpre, hnot, hf, hcode⟩ := AddressSpace.check_error ha hlen hc
    refine .inr ⟨f, pre, post, fun e' he' => by rw [hself e' he', hc], ⟨hf, ?_⟩, ?_, hl,
      fun x hx => (hwrites x).2 (hpre x hx), fun hn => hnot ((hwrites _).1 hn)⟩
    · rcases hcode with hcode | hcode <;> rw [hcode] <;> decide
    · rcases hcode with hcode | hcode <;> rw [hcode] <;> decide
  · refine .inl ⟨fun e' he' => by rw [hself e' he', hc], fun x hx => (hwrites x).2 ?_⟩
    obtain ⟨hx, hl⟩ := bounds_of_mem_rangeStarts hx
    exact AddressSpace.allows_of_check hc hx hl

/-- **A copy leaves the program ready**, with whatever registers. -/
theorem Armed.copied (h : k.Armed i stack regs) (hc : k.Copied k' i i .scratch v old g)
    (hv : v.pageDown.raw ≠ exceptionStackBase) : ∃ regs', k'.Armed i stack regs' := by
  obtain ⟨e, he, -, -, hu⟩ := h.env
  obtain ⟨e', he', -, hu', -⟩ := hc.selfSame i e he
  obtain ⟨e₁, he₁, hs, -⟩ := hc.runs regs.sp h.runs
  obtain rfl := Option.some.inj (he'.symm.trans he₁)
  refine ⟨e'.regs, hc.sound, ⟨e', he', hs, rfl, hu'.trans hu⟩, ?_, fun w q hq => ?_⟩
  · have hbase : pageDown exceptionStackBase = exceptionStackBase := by decide
    have hscratch : VirtAddr.scratch.pageDown.raw ≠ exceptionStackBase := by decide
    rw [hc.mappings, Mappings.entryAt_put, if_neg (by rw [hbase]; exact fun hn => hv hn.2), Mappings.entryAt_put,
      if_neg (by rw [hbase]; exact fun hn => hscratch hn.2), h.stack]
  · rw [hc.mappings, Mappings.put] at hq
    split at hq
    · cases hq
      exact Pte.allows_userWritable g .read
    · rw [Mappings.put] at hq
      split at hq
      · cases hq
      · exact h.readable w q hq

/-- **A record is read from memory as it is found there.** -/
theorem load_of_recordAt? {r : FaultRecord} {w : Word} (h : k.recordAt? i w.toNat = some r) :
    ∃ bytes, k.load i w FaultRecord.size = (.ok bytes, k) ∧ .decode (Vector.ofFn fun x => bytes.getD x.val 0) = r := by
  obtain ⟨e, he, hrest⟩ := Option.bind_eq_some_iff.1 h
  obtain ⟨bytes, hb, hr⟩ := Option.map_eq_some_iff.1 hrest
  refine ⟨bytes, ?_, hr⟩
  unfold Kernel.load
  rw [he]
  dsimp only
  rw [eq_ok_of_toOption hb]

theorem recordAt?_congr (hs : (k'.env? i).map Env.space = (k.env? i).map Env.space) (hm : k'.machine = k.machine) :
    k'.recordAt? i a = k.recordAt? i a := by
  have hr (k : Kernel) : k.recordAt? i a = ((k.env? i).map Env.space).bind fun s =>
      (s.read k.machine a FaultRecord.size).toOption.map fun bytes => .decode (Vector.ofFn fun x => bytes.getD x.val 0) := by
    rw [Kernel.recordAt?, Option.bind_map]
    rfl
  rw [hr, hr, hs, hm]

end Kernel

namespace UserProcess

open Kernel

variable {p : UserProcess} {k k' k₁ : Kernel} {stack : Pte} {regs : Registers} {f : PageFault} {va record : Word}
  {data : Bytes} {r : FaultRecord} {access : Kernel → Access → Served Bytes}

/-! ## One upcall -/

theorem enter_of_dispatch (h : k.dispatch p.env = .ok k') : p.enter k = (.ok (), k') := by rw [enter, h]

/-- The copy-on-write handler makes no access that may fault. -/
theorem run_copyOnWrite_access (access access' : Kernel → Access → Served Bytes) (r : FaultRecord) (k : Kernel) :
    p.run access (Routine.copyOnWrite r) k = p.run access' (Routine.copyOnWrite r) k := by
  have hpage (va : Word) (k : Kernel) : p.run access (Routine.copyPage va) k = p.run access' (Routine.copyPage va) k := by
    unfold Routine.copyPage
    simp only [run]
    rcases k.call p.env (.pageAlloc .self copyScratch.toUInt64 .userWritable) with ⟨err | w, k₁⟩
    · rfl
    simp only [run]
    rcases k₁.load p.env va pageSize with ⟨t | bytes, k₂⟩
    · rfl
    simp only [run]
    rcases k₂.store p.env copyScratch.toUInt64 bytes with ⟨t | _, k₃⟩
    · rfl
    simp only [run]
    rcases k₃.call p.env (.pageMap .self copyScratch.toUInt64 .self va .userWritable) with ⟨err | w, k₄⟩
    · rfl
    simp only [run]
    rcases k₄.call p.env (.pageUnmap .self copyScratch.toUInt64) with ⟨err | w, k₅⟩ <;> rfl
  have hmarked (va : Word) (q : Option Perm) (k : Kernel) :
      p.run access (Routine.copyIfMarked r va q) k = p.run access' (Routine.copyIfMarked r va q) k := by
    unfold Routine.copyIfMarked
    split
    · simp only [run]
      rcases p.enter k with ⟨err | _, k₁⟩
      · rfl
      · exact hpage va k₁
    · rfl
  unfold Routine.copyOnWrite
  simp only [run]
  rcases p.enter k with ⟨err | _, k₁⟩
  · exact hmarked _ _ _
  · simp only [run]
    exact hmarked _ _ _

/-- **An access leads to an upcall** for a fault at the address `y`, and the upcall ends with `r`. -/
def Upcall (p : UserProcess) (a : Access) (k : Kernel) (y : Nat) (r : Except UserPanic Word) (k' : Kernel) : Prop :=
  ∃ k₁ record k₂ fr, p.enter k = (.ok (), k₁) ∧ p.attempt k₁ a = (.error (.upcall upcallEntry.toUInt64 record), k₂) ∧
    k₂.recordAt? p.env record.toNat = some fr ∧ fr.address.toNat = y ∧
    ∀ access, p.serve access k₂ (.upcall upcallEntry.toUInt64 record) = some (r, k')

theorem readRecord_of_recordAt? (h : k.Armed p.env stack regs) (hrec : k.recordAt? p.env record.toNat = some r) :
    ∃ k', p.readRecord k record = (.ok r, k') ∧ k'.Armed p.env stack regs ∧ k.SamePages k' ∧ k.Inert k' := by
  obtain ⟨k', hd, h', hsame, hinert⟩ := h.dispatch
  obtain ⟨bytes, hload, hr⟩ := load_of_recordAt? ((recordAt?_congr (hinert.spaces p.env) hsame.machine).trans hrec)
  refine ⟨k', ?_, h', hsame, hinert⟩
  rw [readRecord, enter_of_dispatch hd]
  dsimp only
  rw [hload, ← hr]

theorem returnFrom_armed (h : k.Armed p.env stack regs) (r : FaultRecord) :
    ∃ k', p.returnFrom k r = (.ok r.address, k') ∧ k'.Armed p.env stack r.regs.forUser ∧ k.SamePages k' := by
  obtain ⟨k₁, hd, h₁, hsame, -⟩ := h.dispatch
  obtain ⟨e, he, hs, -, hu⟩ := h₁.env
  have hset : k₁.SamePages (k₁.setRegisters p.env r.regs.forUser) :=
    .modifyEnv (f := fun e => { e with regs := r.regs.forUser }) (fun _ => rfl) fun _ => rfl
  refine ⟨k₁.setRegisters p.env r.regs.forUser, ?_, ⟨h₁.sound.setRegisters _ _, ⟨{ e with regs := r.regs.forUser }, ?_, hs,
    rfl, hu⟩, ?_, fun v q => ?_⟩, hsame.trans hset⟩
  · rw [returnFrom, enter_of_dispatch hd]
    dsimp only
    rw [resumeWith, he]
  · rw [env?_setRegisters, he]
    simp
  · rw [hset.mappings, h₁.stack]
  · rw [hset.mappings]
    exact h₁.readable v q

/-- A store that fails its check raises the fault. -/
theorem attempt_of_check {e : Env} (he : k.env? p.env = some e)
    (hc : e.space.check va.toNat data.size .write = .error f) :
    p.attempt k (.write va data) = (.error (k.raise p.env f).1, (k.raise p.env f).2) := by
  have hw : e.space.write k.machine va.toNat data = .error f := by
    unfold AddressSpace.write
    rw [hc]
  unfold attempt Kernel.store
  rw [he]
  dsimp only
  rw [hw]

/-- The upcall has been answered: the page is the program's own now. -/
structure Answered (p : UserProcess) (k k' : Kernel) (stack : Pte) (regs : Registers) (y : Nat) : Prop where
  armed : k'.Armed p.env stack regs
  discreet : k.Discreet k' p.env stack.frame
  mappings : ∃ v g, VirtAddr.ofNat? y = some v ∧
    k'.mappings = (k.mappings.put p.env .scratch none).put p.env v.pageDown (some ⟨g, .userWritable⟩)
  marked : ∃ e, k.mappings.entryAt p.env y = some e ∧ e.perm.contains .cow
  afforded : 1 + k.room p.env copyScratch ≤ k.supply

/-- The upcall was the end: the page is not marked, or there are no frames for a copy. -/
structure Failed (p : UserProcess) (k k' : Kernel) (stack : Pte) (cause : UserPanic) (f : PageFault) (ip : Word) : Prop where
  gone : k'.env? p.env = none
  mappings : k'.mappings = k.mappings.without p.env
  discreet : k.Discreet k' p.env stack.frame
  cause : (cause = .fault f.address.toUInt64 f.code ip ∧
      ¬ ∃ e, k.mappings.entryAt p.env f.address = some e ∧ e.perm.contains .cow) ∨
    cause = .syscall "page_alloc" .noMem ∧
      (∃ e, k.mappings.entryAt p.env f.address = some e ∧ e.perm.contains .cow) ∧ k.supply < 1 + k.room p.env copyScratch

section upcall
variable (h : k.Armed p.env stack regs) (hal : stack.allows .write) (hout : OffExceptionStack regs.sp)
  (hm : regs.UserMode) (hh : p.runtime.handler = some Routine.copyOnWrite) (hf : f.Declared)
include h hal hout hm hh hf

omit hm in
/-- **A store that faults leads to the handler**, with the record of the fault, and its upcall ends as the handler does. -/
theorem upcall_of_run (hcheck : ∀ e, k.env? p.env = some e → e.space.check va.toNat data.size .write = .error f) :
    ∃ k₁ regs₁, k₁.Armed p.env stack regs₁ ∧ k₁.mappings = k.mappings ∧ k.Inert k₁ ∧ k.Discreet k₁ p.env stack.frame ∧
      (∀ cause k₂, p.run (fun _ _ => none) (Routine.copyOnWrite (f.record regs)) k₁ = some (.error cause, k₂) →
        p.Upcall (.write va data) k f.address (.error cause) k₂) ∧
      ∀ w k₂ k₃, p.run (fun _ _ => none) (Routine.copyOnWrite (f.record regs)) k₁ = some (.ok (), k₂) →
        p.returnFrom k₂ (f.record regs) = (.ok w, k₃) → p.Upcall (.write va data) k f.address (.ok w) k₃ := by
  obtain ⟨k₁, hd₁, h₁, hsame₁, hinert₁⟩ := h.dispatch
  obtain ⟨e₁, he₁, -⟩ := h₁.env
  have hspace := hinert₁.spaces p.env
  rw [he₁] at hspace
  obtain ⟨e, he, hes⟩ := Option.map_eq_some_iff.1 hspace.symm
  have hattempt : p.attempt k₁ (.write va data) = (.error (k₁.raise p.env f).1, (k₁.raise p.env f).2) :=
    attempt_of_check he₁ (by rw [← hes]; exact hcheck e he)
  obtain ⟨k₂, hr₂, h₂, hrec, hmap₂, hinert₂, hdis₂⟩ := h₁.raise hal hout hf
  rw [hr₂] at hattempt
  have hplace : (recordPlace 0).toUInt64.toNat = recordPlace 0 := by decide
  rw [← hplace] at hrec
  obtain ⟨k₃, hread, h₃, hsame₃, hinert₃⟩ := readRecord_of_recordAt? h₂ hrec
  have hserve (access : Kernel → Access → Served Bytes) {res : Except UserPanic Unit} {k₄ : Kernel}
      (hrun : p.run (fun _ _ => none) (Routine.copyOnWrite (f.record regs)) k₃ = some (res, k₄)) :
      p.serve access k₂ (.upcall upcallEntry.toUInt64 (recordPlace 0).toUInt64) = match res with
        | .error cause => some (.error cause, k₄)
        | .ok () => some (p.returnFrom k₄ (f.record regs)) := by
    rw [run_copyOnWrite_access _ access] at hrun
    unfold serve
    dsimp only
    rw [if_neg (not_not_intro rfl), hread]
    dsimp only
    rw [hh]
    dsimp only
    rw [hrun]
    cases res <;> rfl
  have hupcall {res : Except UserPanic Word} {k' : Kernel} (hend : ∀ access,
      p.serve access k₂ (.upcall upcallEntry.toUInt64 (recordPlace 0).toUInt64) = some (res, k')) :
      p.Upcall (.write va data) k f.address res k' :=
    ⟨k₁, _, k₂, _, enter_of_dispatch hd₁, hattempt, hrec, hf.toNat_address regs, hend⟩
  refine ⟨k₃, _, h₃, by rw [hsame₃.mappings, hmap₂, hsame₁.mappings], (hinert₁.trans hinert₂).trans hinert₃,
    ((Discreet.of_samePages hsame₁).trans hdis₂).trans (.of_samePages hsame₃), fun cause k₄ hrun => ?_,
    fun w k₄ k₅ hrun hret => ?_⟩
  · exact hupcall fun access => hserve access hrun
  · exact hupcall fun access => (hserve access hrun).trans (congrArg some hret)

/-- **A store that faults gets its page copied or is the end.** -/
theorem upcall_cases (hw : f.code.contains .write)
    (hcheck : ∀ e, k.env? p.env = some e → e.space.check va.toNat data.size .write = .error f)
    (hnot : ¬ ∃ e, k.mappings.entryAt p.env f.address = some e ∧ e.allows .write)
    (hs : pageDown f.address ≠ copyScratch) :
    (∃ k', p.Upcall (.write va data) k f.address (.ok f.address.toUInt64) k' ∧ p.Answered k k' stack regs f.address) ∨
    ∃ cause k', p.Upcall (.write va data) k f.address (.error cause) k' ∧ p.Failed k k' stack cause f regs.sepc := by
  obtain ⟨k₁, regs₁, h₁, hmap, hinert, hdis, hfail, hdone⟩ := upcall_of_run h hal hout hh hf hcheck
  have haddr : (f.record regs).address.toNat = f.address := hf.toNat_address regs
  by_cases hcow : ∃ e, k.mappings.entryAt p.env f.address = some e ∧ e.perm.contains .cow
  · obtain ⟨old, hold, hc⟩ := id hcow
    obtain ⟨v, hv, hq⟩ := Option.bind_eq_some_iff.1 hold
    have hraw := VirtAddr.ofNat?_eq_some_iff.1 hv
    have hne : v.pageDown ≠ .scratch := by
      intro hp
      exact hs (by rw [← hraw]; exact congrArg VirtAddr.raw hp)
    have hbase : v.pageDown.raw ≠ exceptionStackBase := by
      intro hp
      refine hnot ⟨stack, ?_, hal⟩
      rw [← entryAt_pageDown, ← hraw, show pageDown v.raw = exceptionStackBase from hp, h.stack]
    rw [← hmap] at hq
    have hva : VirtAddr.ofNat? (f.record regs).address.toNat = some v := by rw [haddr, hv]
    rcases run_copyOnWrite_marked (fun _ _ => none) h₁.sound h₁.runs hva hq (h₁.readable v old hq) hw hc hne with
      ⟨hroom, k₂, g, hrun, hcopied⟩ | ⟨hroom, k₂, hrun, hends, -⟩
    all_goals rw [hinert.room, hinert.supply] at hroom
    · obtain ⟨regs₂, h₂⟩ := h₁.copied hcopied (by rwa [VirtAddr.pageDown_pageDown])
      obtain ⟨k₃, hret, h₃, hsame⟩ := returnFrom_armed h₂ (f.record regs)
      rw [show (f.record regs).regs.forUser = regs from hm.forUser_eq] at h₃
      refine Or.inl ⟨k₃, hdone _ _ _ hrun hret, h₃, (hdis.trans (.of_copied hcopied)).trans (.of_samePages hsame),
        ⟨v, g, hv, ?_⟩, ⟨old, hold, hc⟩, hroom⟩
      rw [hsame.mappings, hcopied.mappings, hmap]
    · exact Or.inr ⟨_, k₂, hfail _ _ hrun, hends.gone, by rw [hends.mappings, hmap], hdis.trans (.of_ends hends),
        .inr ⟨rfl, hcow, hroom⟩⟩
  · have hunmarked : ¬ ((f.record regs).code.contains .write ∧
        ∃ e, k₁.mappings.entryAt p.env (f.record regs).address.toNat = some e ∧ e.perm.contains .cow) := by
      rw [haddr, hmap]
      exact fun hn => hcow hn.2
    obtain ⟨k₂, hrun, hends, -⟩ := run_copyOnWrite_unmarked (fun _ _ => none) h₁.sound h₁.runs hunmarked
    exact Or.inr ⟨_, k₂, hfail _ _ hrun, hends.gone, by rw [hends.mappings, hmap], hdis.trans (.of_ends hends),
      .inl ⟨rfl, hcow⟩⟩

end upcall

/-! ## The way of an access -/

/-- **The upcalls of an access that were answered**, with the addresses of the faults. -/
inductive Upcalls (p : UserProcess) (a : Access) : Kernel → List Nat → Kernel → Prop
  | none (k : Kernel) : Upcalls p a k [] k
  | next {k k₁ k' : Kernel} {y : Nat} {ys : List Nat} (h : p.Upcall a k y (.ok y.toUInt64) k₁)
      (hs : Upcalls p a k₁ ys k') : Upcalls p a k (y :: ys) k'

/-- An access can lead to one upcall only. -/
theorem Upcall.unique {a : Access} {y y' : Nat} {r r' : Except UserPanic Word} {k'' : Kernel} (h : p.Upcall a k y r k')
    (h' : p.Upcall a k y' r' k'') : y' = y ∧ r' = r ∧ k'' = k' := by
  obtain ⟨k₁, record, k₂, fr, he, ha, hr, hy, hs⟩ := h
  obtain ⟨k₁', record', k₂', fr', he', ha', hr', hy', hs'⟩ := h'
  rw [he] at he'
  cases he'
  rw [ha] at ha'
  cases ha'
  rw [hr] at hr'
  cases hr'
  have hend := (hs fun _ _ => none).symm.trans (hs' fun _ _ => none)
  cases hend
  exact ⟨hy'.symm.trans hy, rfl, rfl⟩

/-- **An upcall that is the end is the end of the access.** -/
theorem accessFrom_of_upcall_error {a : Access} {y : Nat} {cause : UserPanic} (h : p.Upcall a k y (.error cause) k')
    (n : Nat) (last : Option Word) (repeats : Nat) :
    p.accessFrom (n + 1) last repeats k a = some (.error cause, k') := by
  obtain ⟨k₁, record, k₂, fr, he, ha, -, -, hs⟩ := h
  rw [accessFrom, he]
  dsimp only
  rw [ha]
  dsimp only
  rw [hs]

/-- **An access is tried again after an upcall that is answered**, and nothing counts but the address of that fault. -/
theorem accessFrom_of_upcall_ok {a : Access} {y : Nat} {w : Word} (h : p.Upcall a k y (.ok w) k') (n : Nat)
    {last : Option Word} (hlast : last ≠ some w) (repeats : Nat) :
    p.accessFrom (n + 1) last repeats k a = p.accessFrom n (some w) 1 k' a := by
  obtain ⟨k₁, record, k₂, fr, he, ha, -, -, hs⟩ := h
  rw [accessFrom, he]
  dsimp only
  rw [ha]
  dsimp only
  rw [hs]
  dsimp only
  rw [if_neg hlast, if_neg (by decide)]

/-- An access that goes through leads to no upcall. -/
theorem Upcall.elim {a : Access} {y : Nat} {r : Except UserPanic Word} {bytes : Bytes} {k₂ : Kernel}
    (h : p.Upcall a k y r k') (he : p.enter k = (.ok (), k₁)) (ha : p.attempt k₁ a = (.ok bytes, k₂)) : False := by
  obtain ⟨_, _, _, _, he', ha', -⟩ := h
  rw [he] at he'
  cases he'
  rw [ha] at ha'
  cases ha'

/-- **Faults at ever new addresses are never given up**: the access goes on as after the last upcall that was answered. -/
theorem accessFrom_of_upcalls {a : Access} {ys : List Nat} (h : p.Upcalls a k ys k') (hn : ys.Pairwise (· < ·))
    (hlt : ∀ y ∈ ys, y < addressLimit) {last : Option Word} (hlast : ∀ y ∈ ys, last ≠ some y.toUInt64) (repeats : Nat) :
    ∃ last' repeats', ∀ n, p.accessFrom (ys.length + n) last repeats k a = p.accessFrom n last' repeats' k' a := by
  induction h generalizing last repeats with
  | none k => exact ⟨last, repeats, fun n => by rw [List.length_nil, Nat.zero_add]⟩
  | @next k k₁ k' y ys h _ ih =>
    rw [List.pairwise_cons] at hn
    have hother : ∀ x ∈ ys, some y.toUInt64 ≠ some x.toUInt64 := by
      intro x hx he
      have hy : y.toUInt64.toNat = y := UInt64.toNat_ofNat_of_lt (hlt y List.mem_cons_self)
      have hx' : x.toUInt64.toNat = x := UInt64.toNat_ofNat_of_lt (hlt x (List.mem_cons_of_mem _ hx))
      have hxy := hn.1 x hx
      rw [← hy, ← hx', Option.some.inj he] at hxy
      exact Nat.lt_irrefl _ hxy
    obtain ⟨last', repeats', hrest⟩ := ih hn.2 (fun x hx => hlt x (List.mem_cons_of_mem _ hx)) hother 1
    refine ⟨last', repeats', fun n => ?_⟩
    rw [List.length_cons, Nat.add_right_comm, accessFrom_of_upcall_ok h _ (hlast y List.mem_cons_self), hrest]

/-- **There is memory enough for each copy**: whenever a page of the range is still marked, there is a frame for its copy,
and what the scratch page needs to be mapped. -/
def Affords (p : UserProcess) (k : Kernel) (a : Access) (R : List Nat) : Prop :=
  ∀ ys k₁, p.Upcalls a k ys k₁ → (∃ x ∈ R, k₁.marks p.env x) → 1 + k₁.room p.env copyScratch ≤ k₁.supply

theorem affords_iff_of_upcall {a : Access} {R : List Nat} {y : Nat} (h : p.Upcall a k y (.ok y.toUInt64) k')
    (hk : 1 + k.room p.env copyScratch ≤ k.supply) : p.Affords k a R ↔ p.Affords k' a R := by
  constructor
  · intro hall ys k₁ hs
    exact hall _ _ (.next h hs)
  · intro hall ys k₁ hs hx
    cases hs with
    | none => exact hk
    | next h' hs =>
      obtain ⟨-, -, rfl⟩ := h.unique h'
      exact hall _ _ hs hx

/-- **What the answered upcalls of a store have come to**: each took the first page of the range that could not be written,
and that page was marked. -/
structure Cleared (p : UserProcess) (k k' : Kernel) (stack : Pte) (regs : Registers) (R ys : List Nat) : Prop where
  armed : k'.Armed p.env stack regs
  discreet : k.Discreet k' p.env stack.frame
  marked : R.filter (k.marks p.env) = ys ++ R.filter (k'.marks p.env)
  writes (y : Nat) (hy : y ∈ ys) (x : Nat) (hx : x ∈ R) (hle : x ≤ y) : k'.writes p.env x
  kept (x : Nat) (hx : x ∈ R) (hy : x ∉ ys) : k'.mappings.entryAt p.env x = k.mappings.entryAt p.env x

namespace Answered

variable {y x : Nat} {R pre post : List Nat}

theorem entryAt (h : p.Answered k k' stack regs y) : ∃ g, ∀ x, pageDown x ≠ copyScratch →
    k'.mappings.entryAt p.env x =
      if pageDown x = pageDown y then some ⟨g, .userWritable⟩ else k.mappings.entryAt p.env x := by
  obtain ⟨v, g, hv, hm⟩ := h.mappings
  obtain rfl := VirtAddr.ofNat?_eq_some_iff.1 hv
  refine ⟨g, fun x hx => ?_⟩
  rw [hm, Mappings.entryAt_put, Mappings.entryAt_put, VirtAddr.pageDown_pageDown]
  have hscratch : ¬ (p.env = p.env ∧ VirtAddr.scratch.pageDown.raw = pageDown x) := fun hn => hx hn.2.symm
  rw [if_neg hscratch]
  by_cases hp : pageDown x = pageDown v.raw
  · rw [if_pos ⟨rfl, hp.symm⟩, if_pos hp]
  · rw [if_neg fun hn => hp hn.2.symm, if_neg hp]

/-- Of the pages of a range the page of the fault is the program's own now, and the others are as they were. -/
theorem entries (h : p.Answered k k' stack regs y)
    (hR : (pre ++ y :: post).Pairwise fun x z => x / pageSize < z / pageSize)
    (hs : ∀ x ∈ pre ++ y :: post, pageDown x ≠ copyScratch) :
    (∃ g, k'.mappings.entryAt p.env y = some ⟨g, .userWritable⟩) ∧
      ∀ x, x ∈ pre ∨ x ∈ post → k'.mappings.entryAt p.env x = k.mappings.entryAt p.env x := by
  obtain ⟨g, hentry⟩ := h.entryAt
  rw [List.pairwise_append, List.pairwise_cons] at hR
  refine ⟨⟨g, by rw [hentry y (hs y (List.mem_append_right _ List.mem_cons_self)), if_pos rfl]⟩, fun x hx => ?_⟩
  have hmem : x ∈ pre ++ y :: post := by
    rw [List.mem_append, List.mem_cons]
    exact hx.imp_right .inr
  rw [hentry x (hs x hmem), if_neg]
  intro hp
  have hdiv : x / pageSize = y / pageSize := by
    simp only [pageDown, pageSize] at hp ⊢
    omega
  rcases hx with hx | hx
  · exact Nat.ne_of_lt (hR.2.2 x hx y List.mem_cons_self) hdiv
  · exact Nat.ne_of_gt (hR.2.1.1 x hx) hdiv

/-- **One marked page less.** -/
theorem cleared (h : p.Answered k k' stack regs y)
    (hR : (pre ++ y :: post).Pairwise fun x z => x / pageSize < z / pageSize)
    (hs : ∀ x ∈ pre ++ y :: post, pageDown x ≠ copyScratch) (hpre : ∀ x ∈ pre, k.writes p.env x)
    (hy : ¬ k.writes p.env y) : p.Cleared k k' stack regs (pre ++ y :: post) [y] := by
  obtain ⟨⟨g, hself⟩, hother⟩ := h.entries hR hs
  have hmarks (x : Nat) (hx : x ∈ pre ∨ x ∈ post) : k'.marks p.env x = k.marks p.env x := by rw [marks, hother x hx, marks]
  have hclean : ∀ x ∈ pre, ¬ k.marks p.env x := fun x hx => not_marks_of_writes (hpre x hx)
  have hyk : k.marks p.env y := by
    obtain ⟨q, hq, hc⟩ := h.marked
    exact marks_iff.2 ⟨q, hq, hc, fun hw => hy ⟨q, hq, hw⟩⟩
  have hyk' : ¬ k'.marks p.env y := by
    rw [marks, hself, Option.any_some]
    change ¬ (Perm.userWritable.contains .cow && !Perm.userWritable.contains .writable)
    decide
  have hpre₁ : pre.filter (k.marks p.env) = [] := List.filter_eq_nil_iff.2 hclean
  have hpre₂ : pre.filter (k'.marks p.env) = [] := (List.filter_congr fun x hx => hmarks x (.inl hx)).trans hpre₁
  have hpost : post.filter (k'.marks p.env) = post.filter (k.marks p.env) := List.filter_congr fun x hx => hmarks x (.inr hx)
  refine ⟨h.armed, h.discreet, ?_, fun y' hy' x hx hle => ?_, fun x hx hn => hother x ?_⟩
  · rw [List.filter_append, List.filter_append, List.filter_cons_of_pos hyk, List.filter_cons_of_neg hyk',
      hpre₁, hpre₂, hpost]
    rfl
  · obtain rfl := List.mem_singleton.1 hy'
    rw [List.mem_append, List.mem_cons] at hx
    rcases hx with hx | rfl | hx
    · obtain ⟨q, hq, hw⟩ := hpre x hx
      exact ⟨q, (hother x (.inl hx)).trans hq, hw⟩
    · exact ⟨_, hself, show Perm.userWritable.contains .writable by decide⟩
    · have := (List.pairwise_cons.1 (List.pairwise_append.1 hR).2.1).1 x hx
      have := Nat.div_le_div_right (c := pageSize) hle
      omega
  · rw [List.mem_append, List.mem_cons] at hx
    rcases hx with hx | rfl | hx
    · exact .inl hx
    · exact absurd (List.mem_singleton_self x) hn
    · exact .inr hx

end Answered

namespace Cleared

variable {R ys zs : List Nat}

theorem refl (h : k.Armed p.env stack regs) : p.Cleared k k stack regs R [] :=
  ⟨h, ⟨fun _ _ _ => rfl, fun _ _ _ _ _ _ _ => rfl⟩, rfl, fun _ hy _ _ _ => (by cases hy), fun _ _ _ => rfl⟩

theorem trans (h : p.Cleared k k₁ stack regs R ys) (h' : p.Cleared k₁ k' stack regs R zs) :
    p.Cleared k k' stack regs R (ys ++ zs) := by
  refine ⟨h'.armed, h.discreet.trans h'.discreet, by rw [h.marked, h'.marked, List.append_assoc], ?_, fun x hx hn => ?_⟩
  · intro y hy x hx hle
    rcases List.mem_append.1 hy with hy | hy
    · -- a page that is cleared stays so
      by_cases hz : x ∈ zs
      · exact h'.writes x hz x hx (Nat.le_refl x)
      · obtain ⟨q, hq, hw⟩ := h.writes y hy x hx hle
        exact ⟨q, (h'.kept x hx hz).trans hq, hw⟩
    · exact h'.writes y hy x hx hle
  · rw [List.mem_append, not_or] at hn
    rw [h'.kept x hx hn.2, h.kept x hx hn.1]

theorem sublist (h : p.Cleared k k' stack regs R ys) : ys.Sublist R := by
  have hys : ys.Sublist (R.filter (k.marks p.env)) := by
    rw [h.marked]
    exact List.sublist_append_left ys _
  exact hys.trans List.filter_sublist

theorem marks (h : p.Cleared k k' stack regs R ys) {y : Nat} (hy : y ∈ ys) : y ∈ R ∧ k.marks p.env y := by
  rw [← List.mem_filter, h.marked]
  exact List.mem_append_left _ hy

/-- **The pages that can be had stay the same.** -/
theorem attains_iff (h : p.Cleared k k' stack regs R ys) {x : Nat} (hx : x ∈ R) :
    k'.attains p.env x ↔ k.attains p.env x := by
  by_cases hy : x ∈ ys
  · exact iff_of_true (Kernel.attains_iff.2 (.inl (h.writes x hy x hx (Nat.le_refl x))))
      (Kernel.attains_iff.2 (.inr (h.marks hy).2))
  · rw [attains, h.kept x hx hy, attains]

end Cleared

/-- **A store has come to its end at a page that it cannot get**: all before it may be written. -/
structure Stopped (p : UserProcess) (k k' : Kernel) (stack : Pte) (regs : Registers) (va : Word) (data : Bytes)
    (cause : UserPanic) (f : PageFault) : Prop where
  upcall : p.Upcall (.write va data) k f.address (.error cause) k'
  failed : p.Failed k k' stack cause f regs.sepc
  mem : f.address ∈ rangeStarts va.toNat data.size
  writes (x : Nat) (hx : x ∈ rangeStarts va.toNat data.size) (hlt : x < f.address) : k.writes p.env x
  not_writes : ¬ k.writes p.env f.address

section clear
variable (h : k.Armed p.env stack regs) (hal : stack.allows .write) (hout : OffExceptionStack regs.sp)
  (hm : regs.UserMode) (hh : p.runtime.handler = some Routine.copyOnWrite)
  (hlen : va.toNat + (data.size - 1) < addressLimit ∨ userTop ≤ va.toNat)
  (hs : ∀ x ∈ rangeStarts va.toNat data.size, pageDown x ≠ copyScratch)
include h hal hout hm hh hlen hs

/-- **What a store does next**: it goes through, takes an upcall that clears a page, or has come to its end. -/
theorem store_cases :
    ((∀ e, k.env? p.env = some e → e.space.check va.toNat data.size .write = .ok ()) ∧
      ∀ x ∈ rangeStarts va.toNat data.size, k.writes p.env x) ∨
    (∃ y k', p.Upcall (.write va data) k y (.ok y.toUInt64) k' ∧ 1 + k.room p.env copyScratch ≤ k.supply ∧
      p.Cleared k k' stack regs (rangeStarts va.toNat data.size) [y]) ∨
    ∃ cause f k', p.Stopped k k' stack regs va data cause f := by
  rcases h.check_cases va.toNat_lt hlen with hok | ⟨f, pre, post, hcheck, hf, hw, hl, hpre, hnot⟩
  · exact .inl hok
  have hR := pairwise_rangeStarts va.toNat data.size
  have hmem : f.address ∈ rangeStarts va.toNat data.size := by
    rw [hl]
    exact List.mem_append_right _ List.mem_cons_self
  rcases upcall_cases h hal hout hm hh hf hw hcheck
    (fun ⟨q, hq, hq'⟩ => hnot ⟨q, hq, Pte.writable_of_allows hq'⟩) (hs _ hmem) with ⟨k', hup, ha⟩ | ⟨cause, k', hup, hfail⟩
  · refine .inr (.inl ⟨f.address, k', hup, ha.afforded, ?_⟩)
    rw [hl] at hR hs ⊢
    exact ha.cleared hR hs hpre hnot
  · refine .inr (.inr ⟨cause, f, k', hup, hfail, hmem, fun x hx hlt => ?_, hnot⟩)
    rw [hl] at hx hR
    rcases List.mem_append.1 hx with hx | hx
    · exact hpre x hx
    · have hle := Nat.div_le_div_right (c := pageSize) (Nat.le_of_lt hlt)
      rcases List.mem_cons.1 hx with rfl | hx
      · exact absurd hlt (Nat.lt_irrefl _)
      · have := (List.pairwise_cons.1 (List.pairwise_append.1 hR).2.1).1 x hx
        omega

/-- **A store takes an upcall for each marked page**, until all of its range can be written or an upcall is the end. -/
theorem cleared_of_armed :
    ∃ ys k₁, p.Upcalls (.write va data) k ys k₁ ∧ p.Cleared k k₁ stack regs (rangeStarts va.toNat data.size) ys ∧
      (p.Affords k (.write va data) (rangeStarts va.toNat data.size) ↔
        p.Affords k₁ (.write va data) (rangeStarts va.toNat data.size)) ∧
      (((∀ e, k₁.env? p.env = some e → e.space.check va.toNat data.size .write = .ok ()) ∧
          ∀ x ∈ rangeStarts va.toNat data.size, k₁.writes p.env x) ∨
        ∃ cause f k', p.Stopped k₁ k' stack regs va data cause f) := by
  induction hn : ((rangeStarts va.toNat data.size).filter (k.marks p.env)).length using Nat.strongRecOn generalizing k with
  | _ n ih =>
  rcases store_cases h hal hout hm hh hlen hs with hok | ⟨y, k₁, hup, hroom, hc⟩ | hstop
  · exact ⟨[], k, .none k, .refl h, Iff.rfl, .inl hok⟩
  · have hless : ((rangeStarts va.toNat data.size).filter (k₁.marks p.env)).length < n := by
      rw [← hn, hc.marked, List.length_append, List.length_singleton]
      omega
    obtain ⟨ys, k', hs', hc', hiff, hend⟩ := ih _ hless hc.armed rfl
    exact ⟨y :: ys, k', .next hup hs', hc.trans hc', (affords_iff_of_upcall hup hroom).trans hiff, hend⟩
  · exact ⟨[], k, .none k, .refl h, Iff.rfl, .inr hstop⟩

end clear

/-- **What is stored is found there**, but where a later address of the range is the same byte. -/
theorem stored_of_check (h : k.Armed p.env stack regs)
    (hc : ∀ e, k.env? p.env = some e → e.space.check va.toNat data.size .write = .ok ()) :
    ∃ k₁ k', p.enter k = (.ok (), k₁) ∧ p.attempt k₁ (.write va data) = (.ok #[], k') ∧ k'.mappings = k.mappings ∧
      ∀ x b, data[x]? = some b → (∀ y, x < y → y < data.size →
        k'.place p.env (va.toNat + y) ≠ k'.place p.env (va.toNat + x)) → k'.Shows p.env (va.toNat + x) b := by
  obtain ⟨k₁, hd, h₁, hsame, hinert⟩ := h.dispatch
  obtain ⟨e, he, -⟩ := h₁.env
  have hspace := hinert.spaces p.env
  rw [he] at hspace
  obtain ⟨e₀, he₀, hes⟩ := Option.map_eq_some_iff.1 hspace.symm
  have hcheck : e.space.check va.toNat data.size .write = .ok () := by
    rw [← hes]
    exact hc e₀ he₀
  obtain ⟨m, hw⟩ := AddressSpace.write_of_check (m := k₁.machine) hcheck
  have hplace (a : Nat) : Kernel.place { k₁ with machine := m } p.env a = e.space.locate a := by
    rw [place, show Kernel.mappings { k₁ with machine := m } = k₁.mappings from rfl, entryAt_of_env? he]
    rfl
  refine ⟨k₁, { k₁ with machine := m }, enter_of_dispatch hd, ?_, hsame.mappings, fun x b hb hlater => ?_⟩
  · unfold attempt Kernel.store
    rw [he]
    dsimp only
    rw [hw]
  · have hx : x < data.size := (Array.getElem?_eq_some_iff.1 hb).1
    obtain ⟨q, hq, hal⟩ := AddressSpace.allows_of_check hcheck (Nat.le_add_right va.toNat x) (by omega)
    have hbyte := AddressSpace.byte_write_of_last (fun f hf => h₁.sound.refs_pos_of_mem he hf) hw
      (Nat.le_add_right va.toNat x) (by omega) (AddressSpace.locate_eq_some hq) fun y hy hyl hloc => by
        refine Nat.le_of_not_lt fun hlt => hlater (y - va.toNat) (by omega) (by omega) ?_
        rw [hplace, hplace, Nat.add_sub_cancel' hy, hloc, AddressSpace.locate_eq_some hq]
    rw [Nat.add_sub_cancel_left, hb] at hbyte
    refine ⟨q, ?_, Pte.allows_read hal, hbyte⟩
    rw [show Kernel.mappings { k₁ with machine := m } = k₁.mappings from rfl, entryAt_of_env? he]
    exact hq

/-- **A store to one marked page goes through** after one upcall, if there are frames for the copy. -/
theorem access_of_marks (va : Word) (data : Bytes) (h : k.Armed p.env stack regs) (hal : stack.allows .write)
    (hout : OffExceptionStack regs.sp) (hm : regs.UserMode) (hh : p.runtime.handler = some Routine.copyOnWrite)
    (hlen : va.toNat + (data.size - 1) < addressLimit ∨ userTop ≤ va.toNat) {x : Nat}
    (hrange : rangeStarts va.toNat data.size = [x]) (hs : pageDown x ≠ copyScratch) (hmark : k.marks p.env x)
    (hroom : 1 + k.room p.env copyScratch ≤ k.supply) (n : Nat) :
    ∃ k', p.access (n + 2) k (.write va data) = some (.ok #[], k') := by
  have honly : ∀ y ∈ rangeStarts va.toNat data.size, y = x := fun y hy => by
    rw [hrange] at hy
    exact List.mem_singleton.1 hy
  have hmem : x ∈ rangeStarts va.toNat data.size := by
    rw [hrange]
    exact List.mem_singleton_self x
  have hs' : ∀ y ∈ rangeStarts va.toNat data.size, pageDown y ≠ copyScratch := fun y hy => honly y hy ▸ hs
  rcases store_cases h hal hout hm hh hlen hs' with ⟨-, hw⟩ | ⟨y, k₁, hup, -, hc⟩ | ⟨cause, f, k', hstop⟩
  · exact absurd hmark (not_marks_of_writes (hw x hmem))
  · -- the page may be written now, so that the store goes through when it is tried again
    obtain rfl := honly y (hc.marks (List.mem_singleton_self y)).1
    have hwrites := hc.writes y (List.mem_singleton_self y) y hmem (Nat.le_refl y)
    have hcheck : ∀ e, k₁.env? p.env = some e → e.space.check va.toNat data.size .write = .ok () := by
      rcases store_cases hc.armed hal hout hm hh hlen hs' with ⟨hok, -⟩ | ⟨z, k₂, -, -, hc₂⟩ | ⟨_, f, _, hstop⟩
      · exact hok
      · obtain ⟨hz, hmz⟩ := hc₂.marks (List.mem_singleton_self z)
        exact absurd (honly z hz ▸ hmz) (not_marks_of_writes hwrites)
      · exact absurd (honly f.address hstop.mem ▸ hwrites) hstop.not_writes
    obtain ⟨k₂, k', henter, hattempt, -⟩ := stored_of_check hc.armed hcheck
    refine ⟨k', ?_⟩
    rw [access, accessFrom_of_upcall_ok hup _ (Option.some_ne_none _).symm, accessFrom, henter]
    dsimp only
    rw [hattempt]
  · obtain rfl := honly f.address hstop.mem
    obtain ⟨q, hq, hcow, -⟩ := marks_iff.1 hmark
    rcases hstop.failed.cause with ⟨-, hn⟩ | ⟨-, -, hlt⟩
    · exact absurd ⟨q, hq, hcow⟩ hn
    · exact absurd hroom (Nat.not_le_of_lt hlt)

/-- An access is tried less often than it may be: there are not that many pages. -/
theorem length_lt_serviceLimit {ys : List Nat} (hp : ys.Pairwise fun x y => x / pageSize < y / pageSize)
    (hlt : ∀ y ∈ ys, y < userTop) : ys.length < serviceLimit := by
  have hnodup : (ys.map (· / pageSize)).Nodup := List.pairwise_map.2 (hp.imp Nat.ne_of_lt)
  have hsub : ys.map (· / pageSize) ⊆ List.range (userTop / pageSize) := by
    intro n hn
    obtain ⟨y, hy, rfl⟩ := List.mem_map.1 hn
    have := hlt y hy
    simp only [List.mem_range, userTop, pageSize] at *
    omega
  have hle := (hnodup.subperm hsub).length_le
  rw [List.length_map, List.length_range] at hle
  exact Nat.lt_of_le_of_lt hle (by decide)

/-- **What it is to be broken off**: a store that has had the pages `ys` repaired takes one more upcall, for the first page
that it cannot have, and the program ends there.  Nobody else finds any of its data. -/
structure BrokenOff (p : UserProcess) (k k₁ k' : Kernel) (stack : Pte) (va : Word) (data : Bytes) (ys : List Nat)
    (cause : UserPanic) (y : Nat) : Prop where
  mem : y ∈ rangeStarts va.toNat data.size
  repaired : ys = ((rangeStarts va.toNat data.size).filter (k.marks p.env)).filter (· < y)
  upcall : p.Upcall (.write va data) k₁ y (.error cause) k'
  cause : ¬ k.attains p.env y ∧ (∃ code ip, cause = .fault y.toUInt64 code ip) ∨
    k.marks p.env y ∧ k₁.supply < 1 + k₁.room p.env copyScratch ∧ cause = .syscall "page_alloc" .noMem
  gone : k'.env? p.env = none
  mappings : k'.mappings = k.mappings.without p.env
  discreet : k.Discreet k' p.env stack.frame

theorem Cleared.brokenOff {ys : List Nat} {cause : UserPanic}
    (h : p.Cleared k k₁ stack regs (rangeStarts va.toNat data.size) ys) (hs : p.Stopped k₁ k' stack regs va data cause f) :
    p.BrokenOff k k₁ k' stack va data ys cause f.address := by
  have hbefore : ∀ y ∈ ys, y < f.address := fun y hy =>
    Nat.lt_of_not_le fun hle => hs.not_writes (h.writes y hy _ hs.mem hle)
  have hafter : ∀ y ∈ (rangeStarts va.toNat data.size).filter (k₁.marks p.env), ¬ y < f.address := by
    intro y hy hlt
    rw [List.mem_filter] at hy
    exact not_marks_of_writes (hs.writes y hy.1 hlt) hy.2
  have hcow : (∃ q, k₁.mappings.entryAt p.env f.address = some q ∧ q.perm.contains .cow) ↔ k.attains p.env f.address := by
    rw [← h.attains_iff hs.mem]
    refine ⟨fun ⟨q, hq, hc⟩ => ⟨q, hq, .inr hc⟩, fun ⟨q, hq, hc⟩ => ⟨q, hq, hc.resolve_left fun hw => ?_⟩⟩
    exact hs.not_writes ⟨q, hq, hw⟩
  have hnotin : f.address ∉ ys := fun hy => Nat.lt_irrefl _ (hbefore _ hy)
  refine ⟨hs.mem, ?_, hs.upcall, ?_, hs.failed.gone, ?_, h.discreet.trans hs.failed.discreet⟩
  · rw [h.marked, List.filter_append, List.filter_eq_self.2 fun y hy => decide_eq_true (hbefore y hy),
      List.filter_eq_nil_iff.2 fun y hy hlt => hafter y hy (of_decide_eq_true hlt), List.append_nil]
  · rcases hs.failed.cause with ⟨hc, hn⟩ | ⟨hc, hm, hlt⟩
    · exact .inl ⟨fun ha => hn (hcow.2 ha), _, _, hc⟩
    · refine .inr ⟨((Kernel.attains_iff.1 (hcow.1 hm)).resolve_left fun hw => hs.not_writes ?_), hlt, hc⟩
      obtain ⟨q, hq, hwr⟩ := hw
      exact ⟨q, (h.kept _ hs.mem hnotin).trans hq, hwr⟩
  · rw [hs.failed.mappings]
    funext j v
    unfold Mappings.without
    split
    · rfl
    next hj => exact h.discreet.mappings j (fun hn => hj hn.symm) v

/-- **A store over marked pages takes one upcall for each, and ends**, in any state that a kernel can come to, if the program
copies on write, has its exception stack and runs outside of it, and the scratch page is not in the range.  (No buffer is as
long as half of the addresses.)  The upcalls come in the order of the pages.  Either all of them are repaired and then all of
the data is stored, each byte but for those that have a later one in the same place, or the first page that cannot be had is
the end of the program.  The store goes through exactly when each page may be written or is marked and there is memory for
each copy, and it is never given up. -/
theorem store_repairs_marked {e : Env} (hk : k.Reachable) (he : k.env? p.env = some e) (hr : e.status.isRunnable)
    (hu : e.upcall = some upcallEntry.toUInt64) (hh : p.runtime.handler = some Routine.copyOnWrite)
    (hstack : k.mappings.entryAt p.env exceptionStackBase = some stack) (hal : stack.allows .write)
    (hout : OffExceptionStack e.regs.sp) (hsize : data.size < 2 ^ 63)
    (hscratch : ∀ x < data.size, pageDown (va.toNat + x) ≠ copyScratch) :
    ∃ ys k₁ r k', p.Upcalls (.write va data) k ys k₁ ∧ ys.Pairwise (fun x y => x / pageSize < y / pageSize) ∧
      ys.length < serviceLimit ∧ (∀ n, ys.length < n → p.access n k (.write va data) = some (r, k')) ∧
      (∀ a, r ≠ .error (.unresolved a)) ∧
      (r = .ok #[] ↔ (∀ x < data.size, k.attains p.env (va.toNat + x)) ∧
        p.Affords k (.write va data) (rangeStarts va.toNat data.size)) ∧
      (r = .ok #[] ∧ ys = (rangeStarts va.toNat data.size).filter (k.marks p.env) ∧
          (∀ x < data.size, k'.writes p.env (va.toNat + x)) ∧
          (∀ x b, data[x]? = some b → (∀ y, x < y → y < data.size →
            k'.place p.env (va.toNat + y) ≠ k'.place p.env (va.toNat + x)) → k'.Shows p.env (va.toNat + x) b) ∨
        ∃ cause y, r = .error cause ∧ p.BrokenOff k k₁ k' stack va data ys cause y) := by
  have harmed : k.Armed p.env stack e.regs :=
    ⟨hk.sound, ⟨e, he, hr, rfl, hu⟩, hstack, fun v q hq => hk.unprivileged.allows_read hq⟩
  have hmode : e.regs.UserMode := (hk.unprivileged.of_get? he).userMode
  have hlen : va.toNat + (data.size - 1) < addressLimit ∨ userTop ≤ va.toNat := by
    simp only [addressLimit, userTop]
    omega
  have hs : ∀ x ∈ rangeStarts va.toNat data.size, pageDown x ≠ copyScratch :=
    (forall_mem_rangeStarts fun x y hxy hx => by rwa [pageDown, ← hxy]).2 hscratch
  have hattains : (∀ x < data.size, k.attains p.env (va.toNat + x)) ↔
      ∀ x ∈ rangeStarts va.toNat data.size, k.attains p.env x :=
    (forall_mem_rangeStarts fun x y hxy hx => by rwa [attains, ← mappings_entryAt_congr hxy]).symm
  obtain ⟨ys, k₁, hups, hc, hiff, hend⟩ := cleared_of_armed harmed hal hout hmode hh hlen hs
  have hpair := (pairwise_rangeStarts va.toNat data.size).sublist hc.sublist
  have hlow : ∀ y ∈ ys, y < userTop := fun y hy => lt_userTop_of_marks (hc.marks hy).2
  obtain ⟨last, repeats, hrun⟩ := accessFrom_of_upcalls hups
    (hpair.imp fun hlt => Nat.lt_of_not_le fun hle => absurd (Nat.div_le_div_right hle) (Nat.not_le_of_lt hlt))
    (fun y hy => Nat.lt_trans (hlow y hy) (by decide)) (fun _ _ => (Option.some_ne_none _).symm) 0
  have hgoes {r : Except UserPanic Bytes} {k' : Kernel}
      (hone : ∀ n, p.accessFrom (n + 1) last repeats k₁ (.write va data) = some (r, k')) (n : Nat) (hn : ys.length < n) :
      p.access n k (.write va data) = some (r, k') := by
    obtain ⟨m, rfl⟩ : ∃ m, n = ys.length + (m + 1) := ⟨n - ys.length - 1, by omega⟩
    rw [access, hrun, hone]
  refine ⟨ys, k₁, ?_⟩
  rcases hend with ⟨hcheck, hwrites⟩ | ⟨cause, f, k', hstop⟩
  · obtain ⟨k₂, k', henter, hattempt, hmap, hstored⟩ := stored_of_check hc.armed hcheck
    have hnone : (rangeStarts va.toNat data.size).filter (k₁.marks p.env) = [] :=
      List.filter_eq_nil_iff.2 fun x hx => not_marks_of_writes (hwrites x hx)
    refine ⟨.ok #[], k', hups, hpair, length_lt_serviceLimit hpair hlow, hgoes fun n => ?_, fun a hn => (by cases hn), ?_,
      .inl ⟨rfl, by rw [hc.marked, hnone, List.append_nil], ?_, hstored⟩⟩
    · rw [accessFrom, henter]
      dsimp only
      rw [hattempt]
    · refine iff_of_true rfl ⟨hattains.2 fun x hx => (hc.attains_iff hx).1 (Kernel.attains_iff.2 (.inl (hwrites x hx))), ?_⟩
      refine hiff.2 fun zs k₂ hzs hex => ?_
      obtain ⟨x, hx, hm⟩ := hex
      cases hzs with
      | none => exact absurd hm (not_marks_of_writes (hwrites x hx))
      | next hup _ => exact (hup.elim henter hattempt).elim
    · refine (forall_mem_rangeStarts fun x y hxy hx => ?_).1 fun x hx => ?_
      · rwa [Kernel.writes, ← mappings_entryAt_congr hxy]
      · rw [Kernel.writes, hmap]
        exact hwrites x hx
  · have hbroken := hc.brokenOff hstop
    refine ⟨.error cause, k', hups, hpair, length_lt_serviceLimit hpair hlow,
      hgoes fun n => accessFrom_of_upcall_error hstop.upcall n _ _, fun a hn => ?_, iff_of_false (fun hn => (by cases hn)) ?_,
      .inr ⟨cause, _, rfl, hbroken⟩⟩
    · cases hn
      rcases hbroken.cause with ⟨-, _, _, hcause⟩ | ⟨-, -, hcause⟩ <;> cases hcause
    · rintro ⟨hall, hafford⟩
      rcases hbroken.cause with ⟨hnot, -⟩ | ⟨-, hlt, -⟩
      · exact hnot (hattains.1 hall _ hstop.mem)
      · have hm : k₁.marks p.env f.address :=
          (Kernel.attains_iff.1 ((hc.attains_iff hstop.mem).2 (hattains.1 hall _ hstop.mem))).resolve_left hstop.not_writes
        exact absurd (hiff.1 hafford _ _ (.none k₁) ⟨_, hstop.mem, hm⟩) (Nat.not_le_of_lt hlt)

/-- A program with a marked page stores two bytes at the end of it, after an upcall.  A store that runs on into the next page,
which is not there, has the page repaired first and is broken off then. -/
theorem store_repairs_marked_page : ∃ (k k' k'' : Kernel) (p : UserProcess) (va : Word) (cause : UserPanic),
    k.Reachable ∧ (rangeStarts va.toNat 3).filter (k.marks p.env) = [0x10000ffe] ∧
    p.access 2 k (.write va #[1, 2]) = some (.ok #[], k') ∧ k'.Shows p.env 0x10000fff 2 ∧
    p.access 2 k (.write va #[1, 2, 3]) = some (.error cause, k'') ∧
    (∃ code ip, cause = .fault 0x10001000 code ip) ∧ k''.env? p.env = none := by
  let k : Kernel := markedProgram.run [
    .perform ⟨4096⟩ (.ecall 3 #v[0, exceptionStackBase.toUInt64, Perm.userWritable.toWord, 0, 0]),
    .perform ⟨4096⟩ (.ecall 9 #v[0, upcallEntry.toUInt64, 0, 0, 0])]
  let p : UserProcess := ⟨⟨4096⟩, { thisEnv := ⟨4096⟩, handler := some Routine.copyOnWrite, brk := textBase.toUInt64 }⟩
  have hk : k.Reachable := .run reachable_markedProgram _
  have hlive : (k.env? p.env).map (fun e => (e.status.isRunnable, e.upcall, e.regs.sp)) =
      some (true, some upcallEntry.toUInt64, userTop.toUInt64) := by decide +kernel
  obtain ⟨e, he, hst⟩ := Option.map_eq_some_iff.1 hlive
  simp only [Prod.mk.injEq] at hst
  obtain ⟨hr, hu, hsp⟩ := hst
  have hstack : (k.mappings.entryAt p.env exceptionStackBase).map (·.allows .write) = some true := by decide +kernel
  obtain ⟨stack, hq, hal⟩ := Option.map_eq_some_iff.1 hstack
  have hout : OffExceptionStack e.regs.sp := by rw [hsp, OffExceptionStack]; decide
  have hmarked : k.marks p.env 0x10000ffe := by decide +kernel
  have hroom : 1 + k.room p.env copyScratch ≤ k.supply := by decide +kernel
  have hrange₂ : (rangeStarts (0x10000ffe : Word).toNat 2).filter (k.marks p.env) = [0x10000ffe] := by decide +kernel
  have hrange₃ : (rangeStarts (0x10000ffe : Word).toNat 3).filter (k.marks p.env) = [0x10000ffe] := by decide +kernel
  -- the marked page is repaired: there is a frame for the copy
  have hfirst {data : Bytes} {ys : List Nat} {k₁ k' : Kernel} {cause : UserPanic} {y : Nat}
      (hups : p.Upcalls (.write 0x10000ffe data) k ys k₁) (hb : p.BrokenOff k k₁ k' stack 0x10000ffe data ys cause y) :
      y ≠ 0x10000ffe := by
    rintro rfl
    have hnil : ys = [] := hb.repaired.trans (List.filter_eq_nil_iff.2 fun x hx hlt => by
      have hle := (bounds_of_mem_rangeStarts (List.mem_filter.1 hx).1).1
      exact absurd (of_decide_eq_true hlt) (Nat.not_lt_of_le hle))
    subst hnil
    cases hups
    rcases hb.cause with ⟨hn, -⟩ | ⟨-, hlt, -⟩
    · exact hn (attains_iff.2 (.inr hmarked))
    · omega
  obtain ⟨ys, k₁, r, k', hups, -, -, hrun, -, -, ⟨rfl, rfl, -, hshows⟩ | ⟨cause, y, -, hb⟩⟩ :=
    @store_repairs_marked p k stack 0x10000ffe #[1, 2] e hk he hr hu rfl hq hal hout (by decide) (by decide)
  · obtain ⟨ys, k₂, r, k'', hups₂, -, -, hrun₂, -, hiff, hend⟩ :=
      @store_repairs_marked p k stack 0x10000ffe #[1, 2, 3] e hk he hr hu rfl hq hal hout (by decide) (by decide)
    have hmissing : ¬ k.attains p.env 0x10001000 := by
      rintro ⟨q, hq, -⟩
      rw [show k.mappings.entryAt p.env 0x10001000 = none by decide +kernel] at hq
      cases hq
    rcases hend with ⟨rfl, -⟩ | ⟨cause, y, rfl, hb⟩
    · exact absurd ((hiff.1 rfl).1 2 (by decide)) hmissing
    have hy : y = 0x10001000 := by
      have hmem : y ∈ [0x10000ffe, 0x10001000] := hb.mem
      rw [List.mem_cons, List.mem_singleton] at hmem
      exact hmem.resolve_left (hfirst hups₂ hb)
    subst hy
    have hys := hb.repaired
    rw [show (#[1, 2, 3] : Bytes).size = 3 from rfl, hrange₃] at hys
    refine ⟨k, k', k'', p, 0x10000ffe, cause, hk, hrange₃, hrun 2 ?_, ?_, hrun₂ 2 ?_, ?_, hb.gone⟩
    · rw [show (#[1, 2] : Bytes).size = 2 from rfl, hrange₂]
      decide
    · exact hshows 1 2 rfl fun y hy hlt => absurd hlt (Nat.not_lt_of_le hy)
    · rw [hys]
      decide
    · rcases hb.cause with ⟨-, hcause⟩ | ⟨hm, -⟩
      · exact hcause
      · exact absurd (attains_iff.2 (.inr hm)) hmissing
  · have hy : y = 0x10000ffe := List.mem_singleton.1 (show y ∈ [0x10000ffe] from hb.mem)
    exact absurd hy (hfirst hups hb)

end UserProcess
end Exokernel
