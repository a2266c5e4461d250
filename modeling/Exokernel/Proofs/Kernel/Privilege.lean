import Exokernel.Proofs.Kernel.Accounting
import Exokernel.Proofs.Kernel.Trap
/-!
# No more than user mode

Registers and permissions enter a kernel in many ways: with a program that is started, from a parent, from bytes in user
memory, from a program that goes on after a fault, in the arguments of a call.  Whichever way they came, every live
environment goes on in user mode with interrupts on, and every page that it has mapped is one that a call may map
(`programs_unprivileged`).
-/
namespace Exokernel

/-! ## Registers -/

namespace Registers

/-- Whoever goes on with these registers is in user mode, with interrupts on. -/
structure UserMode (r : Registers) : Prop where
  interruptible : r.sstatus &&& spie = spie
  unprivileged : r.sstatus &&& spp = 0

variable {r r' : Registers}

theorem userMode_fresh : fresh.UserMode := ⟨by decide, by decide⟩

theorem UserMode.congr (h : r.UserMode) (hs : r'.sstatus = r.sstatus) : r'.UserMode :=
  ⟨by rw [hs]; exact h.interruptible, by rw [hs]; exact h.unprivileged⟩

theorem sstatus_called (r : Registers) (number : Word) (args : Vector Word 5) :
    (r.called number args).sstatus = r.sstatus := by
  simp only [called, withCall]

theorem or_and_self (s b : Word) : (s ||| b) &&& b = b := by
  apply UInt64.toBitVec_inj.1
  rw [UInt64.toBitVec_and, UInt64.toBitVec_or]
  ext i
  simp +contextual

/-- **Whatever the registers were**, who goes on with them in user mode is in user mode. -/
theorem userMode_forUser (r : Registers) : r.forUser.UserMode where
  interruptible := by
    show ((r.sstatus ||| spie) &&& ~~~spp) &&& spie = spie
    rw [UInt64.and_assoc, show ~~~spp &&& spie = spie by decide, or_and_self]
  unprivileged := by
    show ((r.sstatus ||| spie) &&& ~~~spp) &&& spp = 0
    rw [UInt64.and_assoc, UInt64.and_comm (~~~spp), UInt64.and_not_self, UInt64.and_zero]

end Registers

/-! ## Environments -/

namespace Perm

/-- Fit for a page of a program: present, for the user, and with no bit that a program may not set. -/
structure Unprivileged (p : Perm) : Prop where
  present : p.contains .present
  user : p.contains .user
  within : syscall.contains p

theorem unprivileged_of_settable {p : Perm} (h : p.settable) : p.Unprivileged := by
  obtain ⟨hup, hs⟩ := Bool.and_eq_true_iff.1 h
  have part {q : Perm} (hq : userPresent.bits &&& q.bits = q.bits) : p.contains q := by
    have hup : p.bits &&& userPresent.bits = userPresent.bits := by simpa [contains] using hup
    simp only [contains, beq_iff_eq]
    rw [← hq, ← UInt32.and_assoc, hup]
  exact ⟨part (by decide), part (by decide), hs⟩

end Perm

/-- An environment has no more rights than user code. -/
structure Env.Unprivileged (e : Env) : Prop where
  userMode : e.regs.UserMode
  mapped (p : Pte) (h : p ∈ e.space.table.leaves) : p.perm.Unprivileged

namespace EnvTable

/-- Every live environment is so. -/
def All (P : Env → Prop) (t : EnvTable) : Prop := ∀ e ∈ t.toList, P e

namespace All

variable {P : Env → Prop} {t : EnvTable} {i : EnvId} {e : Env}

theorem of_get? (h : t.All P) (hg : t.get? i = some e) : P e := h e (mem_toList hg)

theorem modify (h : t.All P) {f : Env → Env} (hf : ∀ e, P e → P (f e)) (i : EnvId) : (t.modify i f).All P := by
  cases hg : t.get? i with
  | none => rwa [modify_of_get?_none hg]
  | some e =>
    obtain ⟨A, B, hl, hm, -⟩ := toList_of_get? hg
    simp only [All, hl, hm, List.forall_mem_append, List.forall_mem_cons] at h ⊢
    exact ⟨h.1, hf e h.2.1, h.2.2⟩

theorem remove (h : t.All P) (hg : t.get? i = some e) : (t.remove i).All P := by
  obtain ⟨A, B, hl, -, hr⟩ := toList_of_get? hg
  simp only [All, hl, hr, List.forall_mem_append, List.forall_mem_cons] at h ⊢
  exact ⟨h.1, h.2.2⟩

theorem fill (h : t.All P) {n : Nat} (hn : t.firstFree? = some n) (he : P e) (g : UInt32) : (t.fill n g e).All P := by
  obtain ⟨A, B, hl, hf⟩ := toList_fill hn g e
  simp only [All, hl, hf, List.forall_mem_append, List.forall_mem_cons] at h ⊢
  exact ⟨h.1, he, h.2⟩

end All
end EnvTable

/-! ## Building blocks -/

namespace AddressSpace

variable {s s' : AddressSpace} {m m' : Machine} {pool : Nat} {f : Frame} {v : VirtAddr} {p : Perm} {q : Pte}

theorem mem_leaves_map (h : s.map m pool f v p = (.ok s', m')) (hq : q ∈ s'.table.leaves) :
    q = ⟨f, p⟩ ∨ q ∈ s.table.leaves := by
  obtain ⟨d, t, m₁, hi, rfl, -⟩ := map_ok h
  exact PageTable.mem_leaves_insert hi hq

theorem mem_leaves_unmap (h : s.unmap m v = (s', m')) (hq : q ∈ s'.table.leaves) : q ∈ s.table.leaves := by
  obtain ⟨d, t, m₁, hr, rfl, -⟩ := unmap_eq h
  exact PageTable.mem_leaves_remove hr hq

end AddressSpace

namespace Kernel

variable {k k' : Kernel} {i c : EnvId} {e : Env} {f : Frame} {v : VirtAddr} {p : Perm}

/-- **No live environment has more rights than user code.** -/
def Unprivileged (k : Kernel) : Prop := k.envs.All Env.Unprivileged

namespace Unprivileged

theorem of_envs (hk : k.Unprivileged) (h : k'.envs = k.envs) : k'.Unprivileged := by
  rw [Unprivileged, h]
  exact hk

theorem of_bare (hk : k.Unprivileged) (h : k'.bare = k.bare) : k'.Unprivileged := hk.of_envs (envs_of_bare h)

/-- What changes neither the status word nor the pages changes no rights. -/
theorem modifyEnv (hk : k.Unprivileged) {f : Env → Env} (hs : ∀ e, (f e).space = e.space)
    (hr : ∀ e, (f e).regs.sstatus = e.regs.sstatus) (i : EnvId) : (k.modifyEnv i f).Unprivileged :=
  hk.modify (fun e he => ⟨he.userMode.congr (hr e), by rw [hs]; exact he.mapped⟩) i

theorem setStatus (hk : k.Unprivileged) (i : EnvId) (s : EnvStatus) : (k.setStatus i s).Unprivileged :=
  hk.modifyEnv (f := fun e => { e with status := s }) (fun _ => rfl) (fun _ => rfl) i

theorem setRegisters (hk : k.Unprivileged) (i : EnvId) {r : Registers} (hr : r.UserMode) :
    (k.setRegisters i r).Unprivileged :=
  EnvTable.All.modify hk (f := fun e => { e with regs := r }) (fun _ he => ⟨hr, he.mapped⟩) i

theorem mapInto (hk : k.Unprivileged) (he : e.Unprivileged) (hp : p.Unprivileged)
    (h : k.mapInto e f v p = (.ok (), k')) : k'.Unprivileged := by
  obtain ⟨s, m, hm, rfl⟩ := mapInto_ok h
  refine EnvTable.All.modify hk (f := fun e => { e with space := s }) (fun _ he' => ⟨he'.userMode, fun q hq => ?_⟩) e.id
  rcases AddressSpace.mem_leaves_map hm hq with rfl | hq
  · exact hp
  · exact he.mapped q hq

theorem unmapFrom (hk : k.Unprivileged) (he : e.Unprivileged) (v : VirtAddr) : (k.unmapFrom e v).Unprivileged := by
  unfold Kernel.unmapFrom
  cases hu : e.space.unmap k.machine v with
  | mk s m =>
    exact EnvTable.All.modify hk (f := fun e => { e with space := s })
      (fun _ he' => ⟨he'.userMode, fun q hq => he.mapped q (AddressSpace.mem_leaves_unmap hu hq)⟩) e.id

theorem createEnv (hk : k.Unprivileged) {parent : Option EnvId} (h : k.createEnv parent = (.ok i, k')) :
    k'.Unprivileged := by
  obtain ⟨n, g, m, hn, -, -, rfl⟩ := createEnv_ok h
  refine hk.fill hn ⟨Registers.userMode_fresh, fun q hq => ?_⟩ _
  have hq : q ∈ (PageTable.empty g).leaves := hq
  rw [PageTable.leaves_empty] at hq
  cases hq

theorem destroyEnv (hk : k.Unprivileged) (i : EnvId) : (k.destroyEnv i).2.Unprivileged := by
  cases he : k.env? i with
  | none =>
    rw [destroyEnv_of_env?_none he]
    exact hk
  | some e =>
    rw [destroyEnv_of_env? he]
    exact hk.remove he

/-! ## Calls -/

/-- **No call of a service gives more rights than user code has.** -/
theorem effect (hk : k.Unprivileged) {a : CallArgs} {s : Service} {r : Except SysError Word}
    (h : Syscall.Effect k c a s r k') : k'.Unprivileged := by
  cases h with
  | refused hb => exact hk.of_bare hb
  | named => exact hk
  | @destroyed t k₁ ht hd =>
    have h := hk.destroyEnv t.id
    rw [hd] at h
    exact h.of_envs rfl
  | @allocated t v p f k₁ k₂ ha hf hm =>
    obtain ⟨m, -, rfl⟩ := allocFrame_some hf
    have ht := hk.of_get? (Syscall.authorizeWord_ok (Syscall.pageAllocArgs_ok ha).2.2).1
    have hp := Perm.unprivileged_of_settable (Syscall.settable_of_pageAllocArgs ha)
    have h : k₂.Unprivileged := mapInto (k := { k with machine := m }) hk ht hp hm
    exact h.of_envs rfl
  | mapped ha hm =>
    obtain ⟨sv, src, si, di, -, -, -, -, -, -, hdst, -, -⟩ := Syscall.pageMapArgs_ok ha
    exact hk.mapInto (hk.of_get? (Syscall.authorize_ok hdst).1)
      (Perm.unprivileged_of_settable (Syscall.settable_of_pageMapArgs ha)) hm
  | unmapped ha => exact hk.unmapFrom (hk.of_get? (Syscall.authorizeWord_ok (Syscall.pageUnmapArgs_ok ha).2).1) _
  | @forked parent child k₁ hp hc =>
    have hr : (parent.regs.setA0 0).UserMode := (hk.of_get? hp).userMode.congr rfl
    exact ((hk.createEnv hc).setRegisters child hr).of_envs rfl
  | statusSet ha => exact (hk.setStatus _ _).of_envs rfl
  | registersSet ha => exact hk.setRegisters _ (Registers.userMode_forUser _)
  | upcallSet ha =>
    exact hk.modifyEnv (f := fun e => { e with upcall := some (a.word 1) }) (fun _ => rfl) (fun _ => rfl) _
  | passed he hq => exact (hk.setStatus _ _).of_envs rfl
  | @yielded e next rest he hq =>
    have h : Unprivileged { k.setStatus c .runnable with scheduler := { queue := rest, current := some next } } :=
      (hk.setStatus c .runnable).of_envs rfl
    exact h.setStatus next .running
  | @sent req t offered p k₁ ha hs ht =>
    have hk₁ : k₁.Unprivileged := by
      rcases Syscall.transfer_ok ht with ⟨rfl, -, -⟩ | ⟨f, v, rfl, -, hm⟩
      · exact hk
      · obtain ⟨hr, -, ho⟩ := Syscall.checkSend_ok hs
        obtain ⟨e, sv, pte, -, hpage, -, -, rfl⟩ := Syscall.offer_some ho
        exact hk.mapInto (hk.of_get? hr) (Perm.unprivileged_of_settable (Syscall.settable_of_ipcTrySendArgs ha hpage)) hm
    exact (hk₁.modifyEnv (f := fun e =>
      { e with mailbox := e.mailbox.deliver c req.value p, regs := e.regs.setA0 0, status := .runnable })
      (fun _ => rfl) (fun _ => rfl) t.id).of_envs rfl
  | @waiting e target ha he =>
    exact (hk.modifyEnv (f := fun e => { e with mailbox := e.mailbox.await target, status := .notRunnable })
      (fun _ => rfl) (fun _ => rfl) c).of_envs rfl

theorem ecall (hk : k.Unprivileged) (hs : k.Sound []) (c : EnvId) (number : Word) (args : Vector Word 5) :
    (k.ecall c number args).2.Unprivileged := by
  have entered (e : Env) (he : k.env? c = some e) : (k.setRegisters c (e.regs.called number args)).Unprivileged :=
    hk.setRegisters c ((hk.of_get? he).userMode.congr (Registers.sstatus_called _ _ _))
  exact ecall_induction hs c number args hk entered (fun e _ _ _ he h => (entered e he).effect h)
    (fun _ _ hk => hk.of_envs rfl) fun _ ret hk =>
      hk.modifyEnv (f := fun e => { e with regs := e.regs.setA0 ret }) (fun _ => rfl) (fun _ => rfl) c

/-! ## Other events -/

/-- A program that handles its fault goes on in user mode. -/
theorem raise (hk : k.Unprivileged) (he : k.env? i = some e) (f : PageFault) : (k.raise i f).2.Unprivileged := by
  rcases h : k.raise i f with ⟨t, k'⟩
  rcases raise_cases he h with ⟨-, k₁, hb, rfl⟩ | ⟨entry, record, k₁, m, -, -, hb, -, -, rfl⟩
  · exact (hk.of_bare hb).destroyEnv i
  · have hm : Unprivileged { k₁ with machine := m } := (hk.of_bare hb).of_envs rfl
    have hr : Registers.UserMode { e.regs.setSp record.toUInt64 with sepc := entry } := (hk.of_get? he).userMode.congr rfl
    exact (hm.setRegisters i hr).of_envs rfl

theorem perform (hk : k.Unprivileged) (hs : k.Sound []) (i : EnvId) (op : CpuOp) : (k.perform i op).Unprivileged :=
  perform_induction k i op hk (fun _ f he => hk.raise he f) (fun _ _ _ _ _ _ => hk.of_envs rfl)
    (fun r _ => hk.setRegisters i (Registers.userMode_forUser r)) fun number args _ => hk.ecall hs i number args

theorem loadPages (hk : k.Unprivileged) (i : EnvId) (base : Nat) (data : Bytes) (hp : p.Unprivileged) (as : List Nat) :
    (k.loadPages i base data p as).2.Unprivileged := by
  induction as generalizing k with
  | nil => exact hk
  | cons a rest ih =>
    unfold Kernel.loadPages
    split
    · exact hk
    · exact hk
    next v e _ he =>
      split
      next ha => exact hk.of_bare (bare_allocFrame_none ha)
      next f k₁ ha =>
        obtain ⟨m, -, rfl⟩ := allocFrame_some ha
        dsimp only
        split
        next hm =>
          have he := envs_mapInto_error hm
          exact hk.of_envs he
        next k₂ hm =>
          have h : k₂.Unprivileged := mapInto (k := { k with machine := m.write _ _ _ }) hk (hk.of_get? he) hp hm
          exact ih (h.of_envs rfl)

theorem loadSegment (hk : k.Unprivileged) {base len : Nat} {data : Bytes} (hp : p.Unprivileged)
    {r : Except SpawnError Unit} (h : k.loadSegment i base len data p = (r, k')) : k'.Unprivileged := by
  have hl := hk.loadPages i base data hp (pageSteps base (base + len))
  rw [Kernel.loadSegment] at h
  rwa [h] at hl

theorem loadImage (hk : k.Unprivileged) {img : Image} {brk : Nat} {r : Except SpawnError Unit}
    (h : k.loadImage i img brk = (r, k')) : k'.Unprivileged := by
  have unprivileged {p : Perm} (hp : p = .userPresent ∨ p = .userWritable) : p.Unprivileged := by
    rcases hp with rfl | rfl <;> exact Perm.unprivileged_of_settable (by decide)
  rcases loadImage_induction (Q := Unprivileged) h hk fun hk hp hs => hk.loadSegment (unprivileged hp) hs with
    ⟨-, hk'⟩ | ⟨-, k₁, hk₁, rfl⟩
  · exact hk'
  · exact hk₁.modifyEnv (f := fun e => { e with
      regs := { e.regs.setSp stackTop.toUInt64 with sepc := textBase.toUInt64 }, status := .runnable }) (fun _ => rfl)
      (fun _ => rfl) i

/-- **A program is started with the rights of user code.** -/
theorem spawn (hk : k.Unprivileged) {img : Image} {r : Except SpawnError Spawned} (h : k.spawn img = (r, k')) :
    k'.Unprivileged := by
  cases r with
  | error err =>
    rcases spawn_error h with rfl | ⟨e, hc⟩ | ⟨i, brk, k₁, k₂, -, hc, hl, rfl⟩
    · exact hk
    · exact hk.of_bare (bare_createEnv_error hc)
    · have h : Unprivileged (k₂.log (.spawnFailed i err)) := ((hk.createEnv hc).loadImage hl).of_envs rfl
      exact h.destroyEnv i
  | ok s =>
    obtain ⟨k₁, k₂, -, hc, hl, rfl⟩ := spawn_ok h
    exact ((hk.createEnv hc).loadImage hl).of_envs rfl

theorem preempt (hk : k.Unprivileged) : k.preempt.Unprivileged := by
  unfold Kernel.preempt
  split
  · exact hk
  next j _ =>
    have h := hk.modifyEnv (f := fun e => if e.status = .running then { e with status := .runnable } else e)
      (fun e => by split <;> rfl) (fun e => by split <;> rfl) j
    exact h.of_envs rfl

theorem scheduleNext (hk : k.Unprivileged) : k.scheduleNext.2.Unprivileged := by
  unfold Kernel.scheduleNext
  dsimp only
  split
  · exact hk.preempt.of_envs rfl
  next j s _ =>
    have h : Unprivileged { k.preempt with scheduler := s } := hk.preempt.of_envs rfl
    exact h.setStatus j .running

theorem dispatch (hk : k.Unprivileged) (h : k.dispatch i = .ok k') : k'.Unprivileged := by
  obtain ⟨-, -, -, ⟨-, rfl⟩ | ⟨-, rfl⟩⟩ := dispatch_ok h
  · exact hk.setStatus i .running
  · have hp : Unprivileged { k.preempt with scheduler := k.preempt.scheduler.setCurrent (some i) } :=
      hk.preempt.of_envs rfl
    exact hp.setStatus i .running

/-- **Nothing that happens gives more rights than user code has.** -/
theorem step (hk : k.Unprivileged) (hs : k.Sound []) (event : Event) : (k.step event).Unprivileged := by
  cases event with
  | spawn img => exact hk.spawn (Prod.eta (k.spawn img)).symm
  | destroyEnv i => exact hk.destroyEnv i
  | scheduleNext => exact hk.scheduleNext
  | dispatch i =>
    unfold Kernel.step
    dsimp only
    split
    · exact hk
    next h => exact hk.dispatch h
  | perform i op => exact hk.perform hs i op
  | failAfter n => exact hk.of_envs rfl
  | clearFailure => exact hk.of_envs rfl

end Unprivileged

/-- In a state that a kernel can come to, nobody has more rights than user code has. -/
theorem Reachable.unprivileged (h : k.Reachable) : k.Unprivileged := by
  induction h with
  | @boot c k h =>
    unfold Kernel.boot at h
    split at h
    · cases h
    · cases h
      intro e he
      have he : e ∈ (EnvTable.ofCapacity _).toList := he
      rw [toList_ofCapacity] at he
      cases he
  | step hr event ih => exact ih.step hr.sound event

/-- **In every state that a kernel can come to, every live environment is in user mode with interrupts on, and has
mapped only pages for the user with no bit that a program may not set.** -/
theorem programs_unprivileged (h : k.Reachable) : ∀ e ∈ k.envs.toList, e.Unprivileged := h.unprivileged

/-- A program goes on with every status bit set, makes a child, and maps pages with every permission bit there is; the
calls that ask for more than user code has are refused. -/
theorem programs_unprivileged_tried : ∃ k : Kernel, k.Reachable ∧ k.envs.toList.length = 2 ∧
    ∀ e ∈ k.envs.toList, e.Unprivileged := by
  let k := (ofConfig ⟨12, 2⟩).log (.booted ⟨12, 2⟩)
  let events : List Event := [
    .spawn { text := #[0x13], bss := 1 },
    .perform ⟨4096⟩ (.resumeWith { Registers.zero with sstatus := 0xFFFFFFFFFFFFFFFF }),
    .perform ⟨4096⟩ (.ecall 6 (Vector.replicate 5 0)),
    .perform ⟨4096⟩ (.ecall 3 #v[0, 0x00900000, 0xFFF, 0, 0]),
    .perform ⟨4096⟩ (.ecall 3 #v[0, 0x00900000, 0xE07, 0, 0]),
    .perform ⟨4096⟩ (.ecall 4 #v[0, 0x00801000, 4097, 0x00801000, 0x807])]
  have hk : (k.run events).Reachable := (Reachable.boot (c := ⟨12, 2⟩) rfl).run events
  exact ⟨_, hk, by decide +kernel, programs_unprivileged hk⟩

end Kernel
end Exokernel
