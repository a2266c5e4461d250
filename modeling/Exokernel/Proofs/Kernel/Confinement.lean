import Exokernel.Proofs.Kernel.Schedule
import Exokernel.Proofs.Kernel.Trap
import Exokernel.Proofs.Paging.Access
/-!
# Confinement

What a program can do to the environments that are neither it nor its children: give the processor to one that waits for
it, and hand a message to one that asks for one.  Calls change no byte of a frame in use, and faults none but on the
exception stack of the program itself.
-/
namespace Exokernel

/-- **What a message makes of its receiver**: it was waiting; it has the message, a result, and may run; and a page that
was offered and asked for is mapped where it was asked for. -/
def Env.Delivered (sender : EnvId) (space : AddressSpace) (req : SendRequest) (e e' : Env) : Prop :=
  e.mailbox.receiving ∧ ∃ (p : Perm) (s : AddressSpace),
    e' = { e with
      mailbox := e.mailbox.deliver sender req.value p, regs := e.regs.setA0 0, status := .runnable, space := s } ∧
    ((p = .empty ∧ s = e.space ∧ (req.page = none ∨ e.mailbox.target = none)) ∨
      ∃ sv v pte, req.page = some (sv, p) ∧ e.mailbox.target = some v ∧ space.lookup sv = some pte ∧
        ∀ w, s.lookup w = if v.pageDown = w.pageDown then some ⟨pte.frame, p⟩ else e.space.lookup w)

/-- The environment that an id stands for in a call. -/
def EnvId.meant (i caller : EnvId) : EnvId := if i.isSelf then caller else i

theorem EnvId.meant_of_not_isSelf {i caller : EnvId} (h : i.isSelf = false) : i.meant caller = i := by
  rw [meant, if_neg (by simp [h])]

namespace Syscall

variable {k k' : Kernel} {c j : EnvId} {a : CallArgs} {me e t : Env} {s : Service} {r : Except SysError Word}

theorem id_of_resolve {T : EnvTable} {i c : EnvId} {perm : Bool} (h : T.resolve i (.env c) perm = .ok e) :
    e.id = i.meant c := by
  have get {j : EnvId} (h : T.get j = .ok e) : e.id = j := by
    unfold EnvTable.get at h
    split at h
    · cases h
    · rename_i he
      cases h
      exact EnvTable.id_of_get? he
  unfold EnvTable.resolve at h
  unfold EnvId.meant
  split at h
  · cases h
  · rename_i hs hq
    cases hq
    rw [hs, if_pos rfl]
    exact get h
  · rename_i hq
    cases hq
  · rename_i hs hq
    cases hq
    rw [hs, if_neg (by decide)]
    split at h
    · cases h
    · rename_i hg
      split at h
      · cases h
      · cases h
        exact get hg

theorem meant_of_checkSend {req : SendRequest} {offered : Option (Frame × Perm)}
    (h : k.checkSend c req = .ok (t, offered)) : req.receiver.meant c = t.id := by
  unfold Kernel.checkSend at h
  split at h
  · cases h
  · rename_i hr
    split at h
    · cases h
    · split at h
      · cases h
        exact (id_of_resolve hr).symm
      · cases h

theorem receiver_of_checkSend {req : SendRequest} {offered : Option (Frame × Perm)}
    (h : k.checkSend c req = .ok (t, offered)) (hne : t.id ≠ c) : req.receiver = t.id := by
  have hid := meant_of_checkSend h
  unfold EnvId.meant at hid
  split at hid
  · exact absurd hid.symm hne
  · exact hid

theorem ne_of_authorized (h : k.Authorized c t) (he : k.env? j = some e) (hj : j ≠ c) (hp : e.parent ≠ some c) :
    t.id ≠ j := by
  rintro rfl
  obtain ⟨ht, hid | hpar⟩ := h
  · exact hj hid
  · rw [ht] at he
    cases he
    exact hp hpar

/-- What a call may make of a stranger. -/
def Outside (c : EnvId) (me : Env) (a : CallArgs) (j : EnvId) (e : Env) (s : Service) (r : Except SysError Word)
    (k' : Kernel) : Prop :=
  k'.env? j = some e ∨
  (s = .yield ∧ e.status = .runnable ∧ k'.env? j = some { e with status := .running }) ∨
  (s = .ipcTrySend ∧ r = .ok 0 ∧ k'.env? c ≠ none ∧ ∃ req e', ipcTrySendArgs a = .ok req ∧ req.receiver = j ∧
    Env.Delivered c me.space req e e' ∧ k'.env? j = some e')

/-- **A message changes its receiver as it should, and nobody else.** -/
theorem outside_sent (hc : k.env? c = some me) (he : k.env? j = some e) (hj : j ≠ c) {req : SendRequest}
    {offered : Option (Frame × Perm)} {p : Perm} {k₁ : Kernel} (ha : ipcTrySendArgs a = .ok req) (hsend : k.checkSend c req = .ok (t, offered))
    (ht : k.transfer t offered = (.ok p, k₁)) :
    Outside c me a j e .ipcTrySend (.ok 0) ((k₁.wake t.id c req.value p).log (.delivered c t.id req.value p)) := by
  obtain ⟨htid, hrec, hoff⟩ := checkSend_ok hsend
  obtain ⟨s, hs₁, hspace⟩ : ∃ s : AddressSpace,
      (∀ i, k₁.env? i = (k.env? i).map fun x => if t.id = i then { x with space := s } else x) ∧
      ((p = .empty ∧ s = t.space ∧ (req.page = none ∨ t.mailbox.target = none)) ∨
        ∃ sv v pte, req.page = some (sv, p) ∧ t.mailbox.target = some v ∧ me.space.lookup sv = some pte ∧
          ∀ w, s.lookup w = if v.pageDown = w.pageDown then some ⟨pte.frame, p⟩ else t.space.lookup w) := by
    rcases transfer_ok ht with ⟨rfl, rfl, hno⟩ | ⟨f, v, rfl, htv, hm⟩
    · refine ⟨t.space, fun i => ?_, Or.inl ⟨rfl, rfl, ?_⟩⟩
      · by_cases hi : t.id = i
        · rw [← hi, htid, Option.map_some, if_pos rfl]
        · simp only [if_neg hi, Option.map_id']
      · rcases hno with rfl | hno
        · exact Or.inl (offer_none hoff)
        · exact Or.inr hno
    · obtain ⟨me', sv, pte, hme', hpage, hl, -, rfl⟩ := offer_some hoff
      rw [hc] at hme'
      cases hme'
      obtain ⟨-, s, hlook, henv⟩ := Kernel.env?_mapInto hm
      exact ⟨s, henv, Or.inr ⟨sv, v, pte, hpage, htv, hl, hlook⟩⟩
  have henv (i : EnvId) : ((k₁.wake t.id c req.value p).log (.delivered c t.id req.value p)).env? i =
      (k₁.env? i).map fun x => if t.id = i then
        { x with mailbox := x.mailbox.deliver c req.value p, regs := x.regs.setA0 0, status := .runnable } else x :=
    Kernel.env?_modifyEnv (f := fun x =>
      { x with mailbox := x.mailbox.deliver c req.value p, regs := x.regs.setA0 0, status := .runnable })
      (fun _ => rfl) i
  by_cases htj : t.id = j
  · subst htj
    rw [htid] at he
    cases he
    refine Or.inr (Or.inr ⟨rfl, rfl, ?_, req, _, ha, receiver_of_checkSend hsend hj, ⟨hrec, p, s, rfl, hspace⟩, ?_⟩)
    · rw [henv, hs₁, hc]
      simp
    · rw [henv, hs₁, htid]
      simp
  · left
    rw [henv, hs₁, he]
    simp [htj]

/-- **Who passes the processor on starts the next environment, and changes nobody else.** -/
theorem outside_yielded (hs : k.Scheduled) (he : k.env? j = some e) (hj : j ≠ c) {next : EnvId} {rest : List EnvId}
    (hq : k.scheduler.yieldCurrent.queue = next :: rest) :
    Outside c me a j e .yield r
      (Kernel.setStatus { k.setStatus c .runnable with scheduler := { queue := rest, current := some next } } next
        .running) := by
  have hset : (k.setStatus c .runnable).env? j = some e := (Kernel.env?_setStatus_of_ne _ hj.symm).trans he
  by_cases hn : next = j
  · subst hn
    have henv : (Kernel.setStatus { k.setStatus c .runnable with scheduler := { queue := rest, current := some next } }
        next .running).env? next = ((k.setStatus c .runnable).env? next).map _ :=
      Kernel.env?_modifyEnv (f := fun x => { x with status := .running }) (fun _ => rfl) next
    rw [hset, Option.map_some, if_pos rfl] at henv
    -- whoever is given the processor was waiting for it, or held it
    have hheld : k.scheduler.Holds next :=
      Scheduler.holds_yieldCurrent.1 (Or.inl (by rw [hq]; exact List.mem_cons_self))
    obtain ⟨e', he', hr⟩ := hs next hheld
    rw [he] at he'
    cases he'
    rcases EnvStatus.isRunnable_iff.1 hr with hst | hst
    · exact Or.inr (Or.inl ⟨rfl, hst, henv⟩)
    · exact Or.inl (by rw [henv, ← hst])
  · exact Or.inl ((Kernel.env?_setStatus_of_ne _ hn).trans hset)

/-- **What a call of a service may make of a stranger.** -/
theorem Effect.outside (h : Effect k c a s r k') (hk : k.Sound []) (hs : k.Scheduled) (hc : k.env? c = some me)
    (he : k.env? j = some e) (hj : j ≠ c) (hp : e.parent ≠ some c) : Outside c me a j e s r k' := by
  cases h with
  | refused hb => exact Or.inl ((Kernel.env?_congr (Kernel.envs_of_bare hb) j).trans he)
  | named => exact Or.inl he
  | destroyed ht hd =>
    left
    have := Kernel.env?_destroyEnv hd j
    rw [if_neg (ne_of_authorized (authorizeWord_ok ht) he hj hp)] at this
    exact this.trans he
  | @allocated t v p f k₁ k₂ ha hf hm =>
    left
    obtain ⟨-, s, -, henv⟩ := Kernel.env?_mapInto hm
    have hne := ne_of_authorized (authorizeWord_ok (pageAllocArgs_ok ha).2.2) he hj hp
    show k₂.env? j = some e
    rw [henv, Kernel.env?_allocFrame hf, he, Option.map_some, if_neg hne]
  | mapped ha hm =>
    left
    obtain ⟨-, s, -, henv⟩ := Kernel.env?_mapInto hm
    obtain ⟨sv, src, si, di, -, -, -, -, -, -, ht, -, -⟩ := pageMapArgs_ok ha
    rw [henv, he, Option.map_some, if_neg (ne_of_authorized (authorize_ok ht) he hj hp)]
  | @unmapped t v ha =>
    left
    obtain ⟨-, s, -, henv⟩ := Kernel.env?_unmapFrom k t v
    rw [henv, he, Option.map_some, if_neg (ne_of_authorized (authorizeWord_ok (pageUnmapArgs_ok ha).2) he hj hp)]
  | @forked parent child k₁ _ hcr =>
    left
    obtain ⟨hnone, f, henv⟩ := Kernel.env?_forked hk hcr (parent.regs.setA0 0)
    have hne : child ≠ j := by
      rintro rfl
      rw [hnone] at he
      cases he
    exact ((henv j).trans (if_neg hne)).trans he
  | @statusSet t s ha =>
    left
    have hne := ne_of_authorized (authorizeWord_ok (envSetStatusArgs_ok ha).2.1) he hj hp
    exact (Kernel.env?_setStatus_of_ne s hne).trans he
  | registersSet ha =>
    left
    rw [Kernel.env?_setRegisters, he, Option.map_some, if_neg (ne_of_authorized (envSetTrapframeArgs_ok ha) he hj hp)]
  | upcallSet ha =>
    left
    rw [Kernel.env?_modifyEnv_of_ne (f := fun x => { x with upcall := some (a.word 1) }) (fun _ => rfl)
      (ne_of_authorized (authorizeWord_ok ha) he hj hp), he]
  | passed _ hq => exact Or.inl ((Kernel.env?_setStatus_of_ne _ hj.symm).trans he)
  | yielded _ hq => exact outside_yielded hs he hj hq
  | sent ha hsend ht => exact outside_sent hc he hj ha hsend ht
  | @waiting _ target ha _ =>
    left
    have henv : (k.modifyEnv c fun x => { x with mailbox := x.mailbox.await target, status := .notRunnable }).env? j =
        k.env? j :=
      Kernel.env?_modifyEnv_of_ne (f := fun x => { x with mailbox := x.mailbox.await target, status := .notRunnable })
        (fun _ => rfl) hj.symm
    exact henv.trans he

/-! ## Pages -/

/-- **A call of a service changes no byte of a frame in use.** -/
theorem Effect.page (h : Effect k c a s r k') (hk : k.Sound []) {f : Frame} (hf : 0 < k'.machine.refs f) :
    k'.machine.page f = k.machine.page f := by
  cases h with
  | refused hb => exact Machine.page_congr (Kernel.machine_of_bare hb) f
  | destroyed ht hd =>
    obtain ⟨e, he, rfl⟩ := Kernel.destroyEnv_ok hd
    exact Machine.page_releaseAll _ hf
  | @allocated t v p g k₁ k₂ ha hg hm =>
    obtain ⟨hf₂, hp⟩ := Kernel.page_releaseFrame hf
    have hk₁ := hk.allocFrame hg
    obtain ⟨m, hal, rfl⟩ := Kernel.allocFrame_some hg
    obtain ⟨s, m', hmap, rfl⟩ := Kernel.mapInto_ok hm
    have hgpos : 0 < m.refs g := hk₁.refs_pos (List.mem_append_right _ List.mem_cons_self)
    rw [hp]
    exact (AddressSpace.page_map hk₁.balanced.tidy hgpos hmap hf₂).trans (Machine.page_alloc hk.balanced.tidy hal f)
  | mapped ha hm =>
    obtain ⟨sv, src, si, di, -, -, -, -, -, hsrc, -, hl, -⟩ := pageMapArgs_ok ha
    exact hk.page_mapInto (hk.refs_pos_of_lookup (authorize_ok hsrc).1 hl) hm hf
  | @unmapped t v ha =>
    cases hu : t.space.unmap k.machine v with
    | mk s m =>
      have hku : (k.unmapFrom t v).machine = m := by rw [Kernel.unmapFrom, hu]; rfl
      rw [hku] at hf ⊢
      exact AddressSpace.page_unmap hu hf
  | forked _ hcr => exact Kernel.page_createEnv hk hcr f
  | @sent req t offered p k₁ ha hsend ht =>
    have hf₁ : 0 < k₁.machine.refs f := hf
    show k₁.machine.page f = _
    rcases transfer_ok ht with ⟨rfl, -, -⟩ | ⟨g, v, rfl, -, hm⟩
    · rfl
    · obtain ⟨e, sv, pte, he, -, hl, -, rfl⟩ := offer_some (checkSend_ok hsend).2.2
      exact hk.page_mapInto (hk.refs_pos_of_lookup he hl) hm hf₁
  | named => rfl
  | statusSet => rfl
  | registersSet => rfl
  | upcallSet => rfl
  | passed => rfl
  | yielded => rfl
  | waiting => rfl

end Syscall

namespace Kernel

variable {k k' : Kernel} {c j : EnvId} {me e : Env} {f : PageFault} {t : Trap}

theorem id_of_authorize {i c : EnvId} {te : Env} (h : Syscall.authorize k c i = .ok te) : te.id = i.meant c := by
  unfold Syscall.authorize at h
  cases hr : k.envs.resolve i (.env c) true with
  | error e => rw [hr] at h; cases h
  | ok e =>
    rw [hr] at h
    cases h
    exact Syscall.id_of_resolve hr

/-! ## Calls -/

theorem env?_conclude {r : Except SysError Word × Kernel} {number : Word} (hj : j ≠ c) :
    (conclude c number r).2.env? j = r.2.env? j :=
  conclude_induction (Q := fun k => k.env? j = r.2.env? j) c number rfl (fun _ _ h => h) fun _ ret h =>
    (env?_modifyEnv_of_ne (f := fun e => { e with regs := e.regs.setA0 ret }) (fun _ => rfl) hj.symm).trans h

theorem machine_conclude (c : EnvId) (number : Word) (r : Except SysError Word × Kernel) :
    (conclude c number r).2.machine.bare = r.2.machine.bare :=
  conclude_induction (Q := fun k => k.machine.bare = r.2.machine.bare) c number rfl (fun _ _ h => h) fun _ _ h => h

/-- **A call changes no byte of a frame that stays in use.** -/
theorem page_ecall (hk : k.Sound []) (hc : k.env? c = some me) (number : Word) (args : Vector Word 5) {f : Frame}
    (hf : 0 < (k.ecall c number args).2.machine.refs f) :
    (k.ecall c number args).2.machine.page f = k.machine.page f := by
  have hk' := hk.setRegisters c (me.regs.called number args)
  rw [ecall_eq hc] at hf ⊢
  rw [Machine.page_congr (machine_conclude c number _) f]
  rw [Machine.refs_congr (machine_conclude c number _) f] at hf
  rcases SyscallTable.dispatch_standard number.toNat (k.setRegisters c (me.regs.called number args)) c
    (argsOf (me.regs.called number args)) with hd | ⟨s, -, hd⟩
  · rw [hd]
    rfl
  · have heff := Syscall.effect _ c (argsOf (me.regs.called number args)) hk' s
    rw [← hd] at heff
    exact heff.page hk' hf

/-! ## Faults -/

theorem env?_raise (he : k.env? c = some me) (h : k.raise c f = (t, k')) (hj : j ≠ c) : k'.env? j = k.env? j := by
  rcases raise_cases he h with ⟨-, k₁, hb, rfl⟩ | ⟨entry, record, k₁, m, -, -, hb, -, -, rfl⟩
  · have hc : k₁.env? c = some me := (env?_congr (envs_of_bare hb) c).trans he
    rw [destroyEnv_of_env? hc]
    refine (EnvTable.get?_remove _ _ _).trans ?_
    rw [if_neg hj.symm]
    exact env?_congr (envs_of_bare hb) j
  · rw [env?_log, env?_setRegisters_of_ne _ _ hj.symm, env?_withMachine]
    exact env?_congr (envs_of_bare hb) j

/-- **A fault changes bytes in use only where the record of it goes.** -/
theorem byte_raise (hk : k.Sound []) (he : k.env? c = some me) (h : k.raise c f = (t, k')) {l : Place}
    (hl : 0 < k'.machine.refs l.1) (hne : k'.machine.byte l ≠ k.machine.byte l) :
    ∃ (entry record : Word) (x : Nat) (pte : Pte), t = .upcall entry record ∧
      record.toNat ≤ x ∧ x < record.toNat + FaultRecord.size ∧ exceptionStackBase ≤ x ∧ x < exceptionStackTop ∧
      me.space.entryAt x = some pte ∧ pte.perm.contains .writable ∧ l = (pte.frame, pageOffset x) := by
  rcases raise_cases he h with ⟨-, k₁, hb, rfl⟩ | ⟨entry, record, k₁, m, -, hr, hb, hw, rfl, rfl⟩
  · refine absurd (Machine.byte_congr ?_) hne
    exact (page_destroyEnv hl).trans (Machine.page_congr (machine_of_bare hb) l.1)
  · have hk₁ := hk.of_bare hb
    have hc : k₁.env? c = some me := (env?_congr (envs_of_bare hb) c).trans he
    have hbyte : k₁.machine.byte l = k.machine.byte l :=
      Machine.byte_congr (Machine.page_congr (machine_of_bare hb) l.1)
    obtain ⟨hlow, hhigh⟩ := recordAddress?_bounds hr
    have hsize : (FaultRecord.encode ⟨f.address.toUInt64, f.code, me.regs⟩).toArray.size = FaultRecord.size :=
      Vector.size_toArray _
    obtain ⟨x, pte, hx, hxl, hent, hwr, hplace⟩ := AddressSpace.writable_of_byte_ne
      (fun g hg => hk₁.refs_pos_of_mem hc hg) hw (l := l) (by rw [hbyte]; exact hne)
    rw [hsize] at hxl
    refine ⟨entry, record.toUInt64, x, pte, rfl, ?_, ?_, ?_, ?_, hent, hwr, hplace⟩
    · rwa [toNat_record hr]
    · rwa [toNat_record hr]
    · omega
    · omega

/-! ## Operations -/

/-- **What an operation may make of a stranger.** -/
inductive Touched (k : Kernel) (c : EnvId) (me : Env) (j : EnvId) (e : Env) : CpuOp → Option Env → Prop where
  | unchanged {op : CpuOp} : Touched k c me j e op (some e)
  /-- The processor was given to it. -/
  | scheduled {number : Word} {args : Vector Word 5} (hn : number.toNat = Service.yield.number)
      (hs : e.status = .runnable) : Touched k c me j e (.ecall number args) (some { e with status := .running })
  /-- It was waiting for a message, and there is one. -/
  | delivered {number : Word} {args : Vector Word 5} {req : SendRequest} {e' : Env}
      (hn : number.toNat = Service.ipcTrySend.number) (hr : (k.ecall c number args).1 = .returned 0)
      (ha : Syscall.ipcTrySendArgs (argsOf (me.regs.called number args)) = .ok req) (hj : req.receiver = j)
      (h : Env.Delivered c me.space req e e') : Touched k c me j e (.ecall number args) (some e')

/-- **The reach of a program**: which environments and which bytes its operations can change. -/
structure Confined (k : Kernel) (c : EnvId) (me : Env) : Prop where
  /-- Who is neither the program nor its child. -/
  strangers (op : CpuOp) (j : EnvId) (e : Env) (he : k.env? j = some e) (hj : j ≠ c) (hp : e.parent ≠ some c) :
    Touched k c me j e op ((k.perform c op).env? j)
  /-- A call changes no byte of a frame that stays in use. -/
  ecall (number : Word) (args : Vector Word 5) (f : Frame) (hf : 0 < (k.ecall c number args).2.machine.refs f) :
    (k.ecall c number args).2.machine.page f = k.machine.page f
  /-- A load changes only what the record of its fault is written to, on the exception stack of the program. -/
  load (a : Word) (len : Nat) (l : Place) (hl : 0 < (k.load c a len).2.machine.refs l.1)
    (hne : (k.load c a len).2.machine.byte l ≠ k.machine.byte l) :
    ∃ entry record x, (k.load c a len).1 = .error (.upcall entry record) ∧ record.toNat ≤ x ∧
      x < record.toNat + FaultRecord.size ∧ exceptionStackBase ≤ x ∧ x < exceptionStackTop ∧
      me.space.locate x = some l
  /-- A store changes only frames that the program has mapped writable. -/
  store (a : Word) (data : Bytes) (l : Place) (hl : 0 < (k.store c a data).2.machine.refs l.1)
    (hne : (k.store c a data).2.machine.byte l ≠ k.machine.byte l) :
    ∃ v pte, me.space.lookup v = some pte ∧ pte.frame = l.1 ∧ pte.perm.contains .writable
  resumeWith (r : Registers) : (k.resumeWith c r).2.machine = k.machine

theorem outside_ecall (hk : k.Sound []) (hs : k.Scheduled) (hc : k.env? c = some me) (he : k.env? j = some e)
    (hj : j ≠ c) (hp : e.parent ≠ some c) (number : Word) (args : Vector Word 5) :
    Touched k c me j e (.ecall number args) ((k.ecall c number args).2.env? j) := by
  have hc' : (k.setRegisters c (me.regs.called number args)).env? c =
      some { me with regs := me.regs.called number args } := by
    rw [env?_setRegisters, hc, Option.map_some, if_pos rfl]
  have he' : (k.setRegisters c (me.regs.called number args)).env? j = some e := by
    rw [env?_setRegisters_of_ne _ _ hj.symm, he]
  have hk' := hk.setRegisters c (me.regs.called number args)
  have hs' := hs.setRegisters c (me.regs.called number args)
  rcases SyscallTable.dispatch_standard number.toNat (k.setRegisters c (me.regs.called number args)) c
    (argsOf (me.regs.called number args)) with hd | ⟨s, hn, hd⟩
  · rw [ecall_eq hc, hd, env?_conclude hj, he']
    exact .unchanged
  · have heff := Syscall.effect _ c (argsOf (me.regs.called number args)) hk' s
    rw [← hd] at heff
    rcases heff.outside hk' hs' hc' he' hj hp with h | ⟨rfl, hst, h⟩ | ⟨rfl, hr, hlive, req, e', ha, hreq, hdel, h⟩
    · rw [ecall_eq hc, env?_conclude hj, h]
      exact .unchanged
    · rw [ecall_eq hc, env?_conclude hj, h]
      exact .scheduled hn.symm hst
    · have hret : (k.ecall c number args).1 = .returned 0 := by
        rw [ecall_eq hc]
        rcases hx : SyscallTable.standard.dispatch number.toNat (k.setRegisters c (me.regs.called number args)) c
          (argsOf (me.regs.called number args)) with ⟨r, k₁⟩
        rw [hx] at hr hlive
        dsimp only at hr hlive
        subst hr
        rw [conclude, answer_of_env? hlive]
      rw [ecall_eq hc, env?_conclude hj, h]
      exact .delivered hn.symm hret ha hreq hdel

/-- **Authority is confined.** -/
theorem confinement (hk : k.Reachable) (hc : k.env? c = some me) : k.Confined c me where
  strangers op j e he hj hp := by
    cases op with
    | load a len =>
      have h : (k.load c a len).2.env? j = k.env? j := by
        rw [Kernel.load, hc]
        dsimp only
        split
        · rfl
        · exact env?_raise hc rfl hj
      rw [perform, h, he]
      exact .unchanged
    | store a data =>
      have h : (k.store c a data).2.env? j = k.env? j := by
        rw [Kernel.store, hc]
        dsimp only
        split
        · rfl
        · exact env?_raise hc rfl hj
      rw [perform, h, he]
      exact .unchanged
    | resumeWith r =>
      have h : (k.resumeWith c r).2.env? j = k.env? j := by
        rw [Kernel.resumeWith, hc]
        exact env?_setRegisters_of_ne _ _ hj.symm
      rw [perform, h, he]
      exact .unchanged
    | ecall number args => exact outside_ecall hk.sound hk.scheduled hc he hj hp number args
  ecall number args _ hf := page_ecall hk.sound hc number args hf
  load a len l hl hne := by
    unfold Kernel.load at hl hne ⊢
    rw [hc] at hl hne ⊢
    dsimp only at hl hne ⊢
    split at hne
    · exact absurd rfl hne
    · rename_i f hf
      rw [hf] at hl
      obtain ⟨entry, record, x, pte, ht, hx, hxl, hlow, hhigh, hent, -, rfl⟩ :=
        byte_raise hk.sound hc rfl hl hne
      exact ⟨entry, record, x, congrArg _ ht, hx, hxl, hlow, hhigh, AddressSpace.locate_eq_some hent⟩
  store a data l hl hne := by
    unfold Kernel.store at hl hne
    rw [hc] at hl hne
    dsimp only at hl hne
    split at hne
    · rename_i m hw
      obtain ⟨x, pte, -, -, hent, hwr, rfl⟩ :=
        AddressSpace.writable_of_byte_ne (fun g hg => hk.sound.refs_pos_of_mem hc hg) hw hne
      obtain ⟨v, -, hv⟩ := Option.bind_eq_some_iff.1 hent
      exact ⟨v, pte, hv, rfl, hwr⟩
    · rename_i f hf
      rw [hf] at hl
      obtain ⟨entry, record, x, pte, -, -, -, -, -, hent, hwr, rfl⟩ :=
        byte_raise hk.sound hc rfl hl hne
      obtain ⟨v, -, hv⟩ := Option.bind_eq_some_iff.1 hent
      exact ⟨v, pte, hv, rfl, hwr⟩
  resumeWith r := by
    rw [Kernel.resumeWith, hc]
    rfl

/-- Two programs that know nothing of each other. -/
theorem confinement_strangers : ∃ (k : Kernel) (c : EnvId) (me : Env) (j : EnvId) (e : Env), k.Reachable ∧
    k.env? c = some me ∧ k.env? j = some e ∧ j ≠ c ∧ e.parent ≠ some c ∧ k.Confined c me := by
  let k := (((ofConfig ⟨8, 2⟩).log (.booted ⟨8, 2⟩)).step (.spawn {})).step (.spawn {})
  have hk : k.Reachable := .step (.step (.boot (c := ⟨8, 2⟩) rfl) _) _
  obtain ⟨me, hme⟩ : ∃ me, k.env? ⟨4096⟩ = some me := Option.isSome_iff_exists.1 (by decide +kernel)
  obtain ⟨e, he⟩ : ∃ e, k.env? ⟨4097⟩ = some e := Option.isSome_iff_exists.1 (by decide +kernel)
  have hp : (k.env? ⟨4097⟩).map Env.parent = some none := by decide +kernel
  rw [he, Option.map_some] at hp
  have hparent : e.parent = none := Option.some.inj hp
  refine ⟨k, ⟨4096⟩, me, ⟨4097⟩, e, hk, hme, he, by decide, ?_, confinement hk hme⟩
  rw [hparent]
  decide

end Kernel
end Exokernel
