import Exokernel.Proofs.User.Duplicate
import Exokernel.Proofs.User.Orphan
import Exokernel.Proofs.User.PrivateCopy
/-!
# What a fork leaves

When a fork succeeds, every page of the child is accounted for: the heap is shared with the parent, the stack is copied, the
exception stack is new, and nothing else is mapped.
-/
namespace Exokernel

/-- The page of the exception stack. -/
def VirtAddr.exceptionStack : VirtAddr := ⟨exceptionStackBase, by decide⟩

theorem VirtAddr.pageOfNat?_exceptionStack :
    VirtAddr.pageOfNat? exceptionStackBase.toUInt64.toNat = some VirtAddr.exceptionStack := by decide

theorem Perm.Unprivileged.and_syscall {p : Perm} (h : p.Unprivileged) : p &&& .syscall = p := by
  have hw := h.within
  simp only [Perm.contains, beq_iff_eq] at hw
  exact congrArg Perm.mk ((UInt32.and_comm _ _).trans hw)

namespace Kernel

variable {k k' k₁ : Kernel} {i j c t : EnvId} {sp va w : Word} {x v : VirtAddr} {q : Pte} {f g : Frame} {e : Env}

/-! ## Starting the child -/

/-- **A fresh page is its own and empty**, and leaves to others what is theirs. -/
theorem private_of_pageAlloc (hk : k.Sound []) (hr : k.Runs i sp) (hv : VirtAddr.pageOfNat? va.toNat = some v)
    (h : k.call i (.pageAlloc t va .userWritable) = (.ok w, k')) :
    ∃ g, k'.Private (t.meant i) v g ∧ k'.machine.page g = Page.zero ∧
      k.Remaps k' (t.meant i) v (some ⟨g, .userWritable⟩) ∧
      ∀ j u f, k.Private j u f → ¬ (t.meant i = j ∧ v.pageDown = u.pageDown) → k'.Private j u f := by
  obtain ⟨g, hfresh, -, hone, hzero, hm, hholds⟩ := allocated_of_pageAlloc hk hr hv h
  refine ⟨g, ⟨by rw [hm.mappings, Mappings.put_self], hone, fun s u q hq hf => ?_⟩, hzero, hm,
    fun j u f hp hn => ⟨?_, ?_, fun s z q hq hf => ?_⟩⟩
  · rw [hm.mappings, Mappings.put] at hq
    split at hq
    next hn => exact ⟨hn.1.symm, hn.2.symm⟩
    · exact absurd hf (hfresh s u q hq)
  · rw [hm.mappings, Mappings.put_of_ne hn, hp.mapped]
  · have := (hholds f (by rw [hp.refs]; exact Nat.one_pos)).refs
    rw [hp.holdsOf_eq_zero hn, holdsOf_none, hp.refs] at this
    exact this
  · rw [hm.mappings] at hq
    refine hp.sole_put (fun q' hq' => ?_) hq hf
    cases hq'
    exact (hfresh _ _ _ hp.mapped).symm

/-- **Another environment gets its upcall.** -/
theorem env?_of_setUpcall (hk : k.Sound []) (hci : c ≠ i) (hcs : c.isSelf = false) (he : k.env? c = some e)
    (h : k.call i (.setUpcall c va) = (.ok w, k')) :
    k'.env? c = some { e with upcall := some va } := by
  have hmeant : c.meant i = c := EnvId.meant_of_not_isSelf hcs
  obtain ⟨_, ret, k₁, -, heff, -, rfl⟩ := effect_of_call_ok hk rfl h
  cases heff with
  | @upcallSet te ha =>
    rw [word_argsOf_called _ _ _ (by decide)] at ha
    have hid : te.id = c := (Syscall.id_of_authorizeWord ha).trans hmeant
    rw [env?_modifyEnv_of_ne (f := fun e => { e with regs := e.regs.setA0 0 }) (fun _ => rfl) hci.symm,
      env?_modifyEnv (f := fun e => { e with upcall := some _ }) (fun _ => rfl), env?_setRegisters_of_ne _ _ hci.symm, he,
      Option.map_some, if_pos hid, word_argsOf_called _ _ _ (by decide)]
    rfl

/-- **Another environment is let run**: it waits in the queue. -/
theorem env?_of_setRunnable (hk : k.Sound []) (hci : c ≠ i) (hcs : c.isSelf = false) (he : k.env? c = some e)
    (h : k.call i (.setStatus c .runnable) = (.ok w, k')) :
    k'.env? c = some { e with status := .runnable } ∧ (k.scheduler.current ≠ some c → c ∈ k'.scheduler.queue) := by
  have hmeant : c.meant i = c := EnvId.meant_of_not_isSelf hcs
  obtain ⟨_, ret, k₁, -, heff, -, rfl⟩ := effect_of_call_ok hk rfl h
  cases heff with
  | @statusSet te s ha =>
    obtain ⟨hcode, ht, -⟩ := Syscall.envSetStatusArgs_ok ha
    rw [word_argsOf_called _ _ _ (by decide)] at ht hcode
    obtain rfl : EnvStatus.runnable = s := Option.some.inj hcode
    have hid : te.id = c := (Syscall.id_of_authorizeWord ht).trans hmeant
    refine ⟨?_, fun hcur => ?_⟩
    · rw [env?_modifyEnv_of_ne (f := fun e => { e with regs := e.regs.setA0 0 }) (fun _ => rfl) hci.symm]
      refine (env?_modifyEnv (f := fun e => { e with status := .runnable }) (fun _ => rfl) c).trans ?_
      rw [env?_setRegisters_of_ne _ _ hci.symm, he, Option.map_some, if_pos hid]
    · change c ∈ (k.scheduler.enqueue te.id).queue
      rw [hid, Scheduler.enqueue]
      split
      next hq => exact hq.resolve_left hcur
      · exact List.mem_append_right _ (List.mem_singleton_self c)

/-- **A child has been started**: it has an exception stack of its own, its upcall, and waits in the queue.  No other page is
any different. -/
structure Started (k k' : Kernel) (i c : EnvId) : Prop where
  sound : k'.Sound []
  exceptionStack : ∃ g, k'.Private c .exceptionStack g ∧ k'.machine.page g = Page.zero
  retains (j : EnvId) (v : VirtAddr) (hv : ¬ (c = j ∧ VirtAddr.exceptionStack.pageDown = v.pageDown)) : k.Retains k' j v
  kept (v : VirtAddr) (g : Frame) (h : k.Private c v g) (hv : VirtAddr.exceptionStack.pageDown ≠ v.pageDown) :
    k'.Private c v g
  child (e : Env) (he : k.env? c = some e) (hs : ¬ e.status.isRunnable) : ∃ e', k'.env? c = some e' ∧ e'.regs = e.regs ∧
    e'.parent = e.parent ∧ e'.upcall = some upcallEntry.toUInt64 ∧ e'.status = .runnable ∧
    (k.Scheduled → c ∈ k'.scheduler.queue)

theorem startChild_started (hk : k.Sound []) (hr : k.Runs i sp) (hci : c ≠ i) (hcs : c.isSelf = false)
    (h : k.startChild i c = (.ok (), k')) : k.Started k' i c := by
  have hmeant : c.meant i = c := EnvId.meant_of_not_isSelf hcs
  obtain ⟨w₁, k₁, w₂, k₂, w₃, h₁, h₂, h₃⟩ := startChild_steps_ok h
  have hk₁ := sound_of_call hk h₁
  obtain ⟨g, hg, hzero, hm, hkept⟩ := private_of_pageAlloc hk hr VirtAddr.pageOfNat?_exceptionStack h₁
  rw [hmeant] at hg hm hkept
  have hk₂ := sound_of_call hk₁ h₂
  have hq₂ := call_setUpcall hk₁ (hm.runs hr) h₂
  obtain ⟨hq₃, -⟩ := call_setRunnable hk₂ (hq₂.runs (hm.runs hr)) h₃
  have hq := hq₂.trans hq₃
  refine ⟨sound_of_call hk₂ h₃, ⟨g, hg.quiet hq, ?_⟩, fun j v hn => (hm.retains hk₁ hn).trans (hq.retains j v),
    fun v f hp hn => (hkept c v f hp fun hx => hn hx.2).quiet hq, fun e he hs => ?_⟩
  · rw [(hq.retains c _).2 _ hg.mapped, hzero]
  · obtain ⟨e₁, he₁, hpar, hup, hregs⟩ := call_selfSame hk rfl h₁ c e he
    have he₂ := env?_of_setUpcall hk₁ hci hcs he₁ h₂
    obtain ⟨he₃, hqueue⟩ := env?_of_setRunnable hk₂ hci hcs he₂ h₃
    refine ⟨_, he₃, hregs hci, hpar, rfl, rfl, fun hsc => hqueue fun hcur => hs ?_⟩
    have hstill := (call_still hk rfl h₁).trans (call_still hk₁ rfl h₂)
    rw [show k₂.scheduler = k.scheduler from congrArg Roster.scheduler hstill.roster] at hcur
    obtain ⟨e', he', hrun⟩ := hsc c (.inr hcur)
    obtain rfl := Option.some.inj (he.symm.trans he')
    exact hrun

/-! ## Filling the child -/

/-- The pages that a fork shares: text, data and heap. -/
def InHeap (brk : Word) (v : VirtAddr) : Prop := textBase ≤ v.raw ∧ v.raw < brk.toNat

/-- The pages that a fork copies: from the one below the stack pointer on, but none of the heap. -/
def InStack (sp brk : Word) (v : VirtAddr) : Prop :=
  max (pageDown (sp.toNat - 1)) brk.toNat ≤ v.raw ∧ v.raw < stackTop

theorem exceptionStack_ne (h : v.raw < stackTop) : VirtAddr.exceptionStack.pageDown ≠ v.pageDown := by
  intro hn
  have hraw := congrArg VirtAddr.raw hn
  simp only [VirtAddr.pageDown, VirtAddr.exceptionStack, pageDown, exceptionStackBase, exceptionStackTop, stackTop, userTop,
    pageSize] at *
  omega

theorem window_ne (h : textBase ≤ v.raw) : v.pageDown ≠ VirtAddr.window.pageDown := by
  intro hn
  have hraw := congrArg VirtAddr.raw hn
  simp only [VirtAddr.pageDown, VirtAddr.window, pageDown, textBase, scratchBase, pageSize] at *
  omega

/-- **A child has what its parent had**, and nothing that it could change for it: the heap is shared and marked, the stack is
copied, the exception stack is new. -/
structure Inherited (k k' : Kernel) (i c : EnvId) (sp brk : Word) : Prop where
  unmapped (v : VirtAddr) (hv : InHeap brk v) (h : k.mappings i v = none) : k'.mappings c v = none
  marked (v : VirtAddr) (q : Pte) (hv : InHeap brk v) (hq : k.mappings i v = some q)
    (hp : q.perm.intersects (.writable ||| .cow)) :
    k'.mappings i v = some ⟨q.frame, .userCow⟩ ∧ k'.mappings c v = some ⟨q.frame, .userCow⟩
  shared (v : VirtAddr) (q : Pte) (hv : InHeap brk v) (hq : k.mappings i v = some q)
    (hp : ¬ q.perm.intersects (.writable ||| .cow)) : k'.mappings i v = some q ∧ k'.mappings c v = some q
  stack (v : VirtAddr) (q : Pte) (hv : InStack sp brk v) (hq : k.mappings i v = some q) : k'.mappings i v = some q ∧
    ∃ g, k'.Private c v g ∧ k'.machine.page g = k.machine.page q.frame ∧ k'.machine.page q.frame = k.machine.page q.frame
  exceptionStack : ∃ g, k'.Private c .exceptionStack g ∧ k'.machine.page g = Page.zero
  only (v : VirtAddr) (h : k'.mappings c v ≠ none) :
    VirtAddr.exceptionStack.pageDown = v.pageDown ∨ (InHeap brk v ∨ InStack sp brk v) ∧ k.mappings i v ≠ none

section populate
variable {brk : Word} (hk : k.Sound []) (hr : k.Runs i sp) (hci : c ≠ i) (hcs : c.isSelf = false)
  (hlow : textBase ≤ brk.toNat) (hhigh : brk.toNat ≤ stackPage) (hb : brk.toNat % pageSize = 0)
include hk hr hci hcs hlow hhigh hb

/-- **A child is filled in three stages.** -/
theorem populate_stages (hset : ∀ (v : VirtAddr) q, InProgram v.raw → k.mappings i v = some q → q.perm.Unprivileged)
    (h : k.populate i c brk = (.ok (), k')) :
    ∃ k₁ k₂, k.Dealt k₁ i c (InHeap brk) ∧ k₁.Stacked k₂ i c (InStack sp brk) ∧ k₂.Started k' i c ∧ k.Works i k₂ := by
  have hheap (v : VirtAddr) : OnPages (pageSteps textBase brk.toNat) v.raw ↔ InHeap brk v :=
    onPages_pageSteps_iff (by decide) hb (Nat.le_trans hhigh (by decide))
  have hstack (v : VirtAddr) : OnPages (stackPages sp brk) v.raw ↔ InStack sp brk v := by
    refine onPages_pageSteps_iff ?_ (by decide) (Nat.le_refl _)
    simp only [pageDown, pageSize] at *
    omega
  have hbelow {v : VirtAddr} (hv : InStack sp brk v) : brk.toNat ≤ v.raw := Nat.le_trans (Nat.le_max_right _ _) hv.1
  obtain ⟨k₁, regs, k₂, h₁, hregs, h₂, h₃⟩ := populate_steps_ok rfl h
  have hd := sharePages_dealt hk hr hci hcs (fun v q hv hq => by
    obtain ⟨hl, hh⟩ := (hheap v).1 hv
    exact (hset v q ⟨hl, Nat.lt_of_lt_of_le hh (Nat.le_trans hhigh (by decide))⟩ hq).and_syscall) h₁
  rw [funext fun v => propext (hheap v)] at hd
  obtain ⟨e, he, hst, hsp⟩ := hd.runs sp hr
  rw [registers, he] at hregs
  cases hregs
  rw [hsp] at h₂
  have hs := copyStack_stacked hd.sound (hd.runs sp hr) hci hcs
    (fun v hv => window_ne (Nat.le_trans hlow (hbelow ((hstack v).1 hv)))) (fun v q hv hq => by
      have hv := (hstack v).1 hv
      rw [(hd.retains i v fun hn => absurd hn.2 (Nat.not_lt_of_le (hbelow hv))).1] at hq
      have hu := hset v q ⟨Nat.le_trans hlow (hbelow hv), hv.2⟩ hq
      exact Pte.allows_read_of hu.present hu.user) h₂
  rw [funext fun v => propext (hstack v)] at hs
  exact ⟨k₁, k₂, hd, hs, startChild_started hs.sound (hs.runs sp (hd.runs sp hr)) hci hcs h₃,
    (sharePages_works hk h₁).trans (copyStack_works hd.sound h₂)⟩

end populate

theorem inherited_of_stages {brk : Word} {k₂ : Kernel} (hci : c ≠ i) (hlow : textBase ≤ brk.toNat)
    (hhigh : brk.toNat ≤ stackPage) (hn : ∀ v, k.mappings c v = none) (hd : k.Dealt k₁ i c (InHeap brk))
    (hs : k₁.Stacked k₂ i c (InStack sp brk)) (ht : k₂.Started k' i c) : k.Inherited k' i c sp brk := by
  have hheap {v : VirtAddr} (hv : InHeap brk v) :
      ¬ InStack sp brk v ∧ VirtAddr.exceptionStack.pageDown ≠ v.pageDown ∧ v.pageDown ≠ VirtAddr.window.pageDown := by
    refine ⟨fun hn => Nat.not_lt_of_le (Nat.le_trans (Nat.le_max_right _ _) hn.1) hv.2, exceptionStack_ne ?_, window_ne hv.1⟩
    exact Nat.lt_of_lt_of_le hv.2 (Nat.le_trans hhigh (by decide))
  have hstack {v : VirtAddr} (hv : InStack sp brk v) :
      ¬ InHeap brk v ∧ VirtAddr.exceptionStack.pageDown ≠ v.pageDown ∧ v.pageDown ≠ VirtAddr.window.pageDown := by
    have hle := Nat.le_trans (Nat.le_max_right _ _) hv.1
    exact ⟨fun hn => Nat.not_lt_of_le hle hn.2, exceptionStack_ne hv.2, window_ne (Nat.le_trans hlow hle)⟩
  -- the heap is as it is shared, in both programs
  have hparent {v : VirtAddr} (hv : InHeap brk v) : k'.mappings i v = (k.mappings i v).map Pte.shared := by
    obtain ⟨-, -, hw⟩ := hheap hv
    rw [(ht.retains i v fun hx => hci hx.1).1, (hs.parent v hw).1, hd.parent v hv]
  have hchild {v : VirtAddr} (hv : InHeap brk v) : k'.mappings c v = (k.mappings i v).map Pte.shared := by
    obtain ⟨hns, hne, -⟩ := hheap hv
    rw [(ht.retains c v fun hx => hne hx.2).1, (hs.child v fun hx => absurd hx hns).1, hd.child v hv fun _ => hn v]
  refine ⟨fun v hv hnone => by rw [hchild hv, hnone, Option.map_none], fun v q hv hq hp => ?_, fun v q hv hq hp => ?_,
    fun v q hv hq => ?_, ht.exceptionStack, fun v hv => ?_⟩
  · rw [hparent hv, hchild hv, hq, Option.map_some, Pte.shared, if_pos hp]
    exact ⟨rfl, rfl⟩
  · rw [hparent hv, hchild hv, hq, Option.map_some, Pte.shared, if_neg hp]
    exact ⟨rfl, rfl⟩
  · obtain ⟨hnh, hne, hw⟩ := hstack hv
    have hret₁ := hd.retains i v hnh
    have hret := (hret₁.trans (hs.parent v hw)).trans (ht.retains i v fun hx => hci hx.1)
    obtain ⟨g, hg, hpage⟩ := hs.copied v q hv (hret₁.1.trans hq)
    refine ⟨hret.1.trans hq, g, ht.kept v g hg hne, ?_, hret.2 q hq⟩
    rw [(ht.retains c v fun hx => hne hx.2).2 _ hg.mapped, hpage, hret₁.2 q hq]
  · by_cases hne : VirtAddr.exceptionStack.pageDown = v.pageDown
    · exact .inl hne
    right
    by_cases hh : InHeap brk v
    · refine ⟨.inl hh, fun hnone => hv ?_⟩
      rw [hchild hh, hnone, Option.map_none]
    · have hnone₁ : k₁.mappings c v = none := (hd.retains c v hh).1.trans (hn v)
      rw [(ht.retains c v fun hx => hne hx.2).1] at hv
      by_cases hst : InStack sp brk v
      · refine ⟨.inr hst, fun hnone => hv ?_⟩
        rw [(hs.child v fun _ => (hd.retains i v hh).1.trans hnone).1, hnone₁]
      · rw [(hs.child v fun hx => absurd hx hst).1, hnone₁] at hv
        exact absurd rfl hv

namespace Inherited

variable {brk : Word}

/-- What a parent has left as it was counts as what it has had before. -/
theorem of_retains (hlow : textBase ≤ brk.toNat) (hhigh : brk.toNat ≤ stackPage)
    (hr : ∀ v : VirtAddr, InProgram v.raw → k.Retains k₁ i v) (h : k₁.Inherited k' i c sp brk) :
    k.Inherited k' i c sp brk := by
  have hheap {v : VirtAddr} (hv : InHeap brk v) : k.Retains k₁ i v :=
    hr v ⟨hv.1, Nat.lt_of_lt_of_le hv.2 (Nat.le_trans hhigh (by decide))⟩
  have hstack {v : VirtAddr} (hv : InStack sp brk v) : k.Retains k₁ i v :=
    hr v ⟨Nat.le_trans hlow (Nat.le_trans (Nat.le_max_right _ _) hv.1), hv.2⟩
  refine ⟨fun v hv hn => h.unmapped v hv ((hheap hv).1.trans hn), fun v q hv hq => h.marked v q hv ((hheap hv).1.trans hq),
    fun v q hv hq => h.shared v q hv ((hheap hv).1.trans hq), fun v q hv hq => ?_, h.exceptionStack, fun v hv => ?_⟩
  · obtain ⟨hq', g, hg, hcopy, hpage⟩ := h.stack v q hv ((hstack hv).1.trans hq)
    exact ⟨hq', g, hg, hcopy.trans ((hstack hv).2 q hq), hpage.trans ((hstack hv).2 q hq)⟩
  · refine (h.only v hv).imp_right fun ⟨hin, hn⟩ => ⟨hin, ?_⟩
    rcases hin with hin | hin
    · rwa [← (hheap hin).1]
    · rwa [← (hstack hin).1]

theorem quiet (h : k.Inherited k₁ i c sp brk) (hq : k₁.Quiet k') : k.Inherited k' i c sp brk := by
  have hpage (f : Frame) : k'.machine.page f = k₁.machine.page f := Machine.page_congr hq.machine f
  refine ⟨?_, ?_, ?_, fun v q hv hvq => ?_, ?_, ?_⟩
  · rw [hq.mappings]
    exact h.unmapped
  · rw [hq.mappings]
    exact h.marked
  · rw [hq.mappings]
    exact h.shared
  · obtain ⟨hv', g, hg, hcopy, hold⟩ := h.stack v q hv hvq
    exact ⟨by rw [hq.mappings, hv'], g, hg.quiet hq, (hpage g).trans hcopy, (hpage _).trans hold⟩
  · obtain ⟨g, hg, hzero⟩ := h.exceptionStack
    exact ⟨g, hg.quiet hq, (hpage g).trans hzero⟩
  · rw [hq.mappings]
    exact h.only

end Inherited

end Kernel

namespace UserProcess

open Kernel

variable {p p' : UserProcess} {k k' k₁ k₂ : Kernel} {c : EnvId} {sp : Word} {child : ForkedChild} {e : Env}

/-! ## The fork -/

/-- **Making ready for faults touches nothing but the exception stack.** -/
theorem setHandler_retains {f : FaultHandler} (hk : k.Sound []) (hr : k.Runs p.env sp)
    (h : p.setHandler k f = (.ok (), p', k')) : k'.Sound [] ∧ k'.Runs p.env sp ∧
      ∀ j (v : VirtAddr), ¬ (p.env = j ∧ VirtAddr.exceptionStack.pageDown = v.pageDown) → k.Retains k' j v := by
  obtain ⟨-, rfl, rfl | hp⟩ | ⟨_, -, ⟨⟩, -⟩ := setHandler_steps h
  · exact ⟨hk, hr, fun _ _ _ => ⟨rfl, fun _ _ => rfl⟩⟩
  obtain ⟨k₁, he, hq₁, hk₁⟩ := enter_ok (p := p) hk hr
  obtain ⟨_, -, ⟨⟩⟩ | ⟨_, he', hp⟩ := prepareUpcall_steps hp
  rw [he] at he'
  cases he'
  have hr₁ := hq₁.runs hr
  obtain ⟨w₁, k₂, h₁, hp⟩ := callAll_cons_ok hp
  have hk₂ := sound_of_call hk₁ h₁
  obtain ⟨g, -, -, -, -, hm, -⟩ := allocated_of_pageAlloc hk₁ hr₁ VirtAddr.pageOfNat?_exceptionStack h₁
  obtain ⟨w₂, k₃, h₂, hp⟩ := callAll_cons_ok hp
  cases hp
  have hq₂ := call_setUpcall hk₂ (hm.runs hr₁) h₂
  exact ⟨sound_of_call hk₂ h₂, hq₂.runs (hm.runs hr₁), fun j v hn =>
    ((hq₁.retains j v).trans (hm.retains hk₂ hn)).trans (hq₂.retains j v)⟩

/-- **A child is filled by its parent and then started**, from the state in which it has been made. -/
theorem populate_inherited {ce : Env} (hk : k.Regular) (hr : k.Runs p.env sp) (hci : c ≠ p.env) (hcs : c.isSelf = false)
    (hlow : textBase ≤ p.runtime.brk.toNat) (hhigh : p.runtime.brk.toNat ≤ stackPage)
    (hb : p.runtime.brk.toNat % pageSize = 0) (hn : ∀ v, k.mappings c v = none) (hce : k.env? c = some ce)
    (hst : ¬ ce.status.isRunnable)
    (hset : ∀ (v : VirtAddr) q, InProgram v.raw → k.mappings p.env v = some q → q.perm.Unprivileged)
    (h : p.populate k c = (.ok (), k')) :
    k'.Sound [] ∧ k.Inherited k' p.env c sp p.runtime.brk ∧ ∃ e, k'.env? c = some e ∧ e.regs = ce.regs ∧
      e.parent = ce.parent ∧ e.upcall = some upcallEntry.toUInt64 ∧ e.status = .runnable ∧ c ∈ k'.scheduler.queue := by
  unfold populate at h
  obtain ⟨k₁, he, hq, hk₁⟩ := enter_ok (p := p) hk.sound hr
  rw [he] at h
  dsimp only at h
  obtain ⟨k₂, k₃, hd, hs, ht, hw⟩ := populate_stages hk₁ (hq.runs hr) hci hcs hlow hhigh hb
    (fun v q hv hq' => hset v q hv (by rwa [← hq.mappings])) h
  have hworks := (enter_works he).trans hw
  have hin := inherited_of_stages hci hlow hhigh (fun v => by rw [hq.mappings, hn v]) hd hs ht
  obtain ⟨e, he₃, hpar, -, hregs⟩ :=
    ((SelfSame.dispatch (dispatch_of_enter he) p.env).trans (hd.selfSame.trans hs.selfSame)) c ce hce
  obtain ⟨e', he', hstance, -⟩ := hworks.stays hci.symm hce hst
  rw [he₃] at he'
  cases he'
  have hst₃ : ¬ e.status.isRunnable := by
    rwa [show e.status = ce.status from congrArg Stance.status hstance]
  obtain ⟨e', he', hr', hp', hu', hs', hqueue⟩ := ht.child e he₃ hst₃
  exact ⟨ht.sound, hin.of_retains hlow hhigh fun v _ => hq.retains p.env v, e', he', hr'.trans (hregs hci),
    hp'.trans hpar, hu', hs', hqueue (hworks.scheduled hk.scheduled)⟩

/-- **A fork that succeeds fills its child's address space page by page**, in any state that a kernel can come to, if the heap
ends at a page boundary below the stack.  (Whatever a program has mapped there, a call could have mapped.)  The heap is shared:
what could be written is marked in both, the rest stays as it is.  Each page of the stack that the parent has mapped is copied
into a frame of the child's own, and the parent keeps it.  The exception stack is new and empty, and the child has nothing else
mapped.  It runs with the registers that its parent had when it was made, but for the result, as a child of its parent, with
the upcall set, and waits in the queue. -/
theorem fork_fills_child (hk : k.Reachable) (he : k.env? p.env = some e) (hs : e.status.isRunnable)
    (hlow : textBase ≤ p.runtime.brk.toNat) (hhigh : p.runtime.brk.toNat ≤ stackPage)
    (hb : p.runtime.brk.toNat % pageSize = 0) (h : p.fork k = (.ok child, p', k')) :
    k.Inherited k' p.env child.id e.regs.sp p.runtime.brk ∧
    p' = ⟨p.env, { p.runtime with handler := some Routine.copyOnWrite }⟩ ∧ child.runtime = p'.runtime ∧
    ∃ k₁ k₂ e₁ ce, p.setHandler k Routine.copyOnWrite = (.ok (), p', k₁) ∧ p'.enter k₁ = (.ok (), k₂) ∧
      k₂.env? p.env = some e₁ ∧ k'.env? child.id = some ce ∧
      ce.regs = (e₁.regs.called Call.exofork.service.number.toUInt64 Call.exofork.args).setA0 0 ∧
      ce.parent = some p.env ∧ ce.upcall = some upcallEntry.toUInt64 ∧ ce.status = .runnable ∧
      child.id ∈ k'.scheduler.queue := by
  have hr : k.Runs p.env e.regs.sp := ⟨e, he, hs, rfl⟩
  obtain ⟨k₁, k₃, k₄, hset, hexo, hpop, hruntime, rfl⟩ := fork_steps_ok h
  obtain ⟨hp₁, -, -⟩ := setHandler_ok hk.sound hset
  obtain ⟨hk₁, hr₁, hret₁⟩ := setHandler_retains hk.sound hr hset
  have henv : p'.env = p.env := by rw [hp₁]
  have hbrk : p'.runtime.brk = p.runtime.brk := by rw [hp₁]
  obtain ⟨hk₃, -, hci, hcs, -, hnone⟩ := exofork_ok hk₁ hexo
  rw [← henv] at hr₁
  obtain ⟨k₂, he₂, hq₂, hk₂⟩ := enter_ok (p := p') hk₁ hr₁
  unfold exofork at hexo
  rw [he₂] at hexo
  dsimp only at hexo
  have hregular : k₂.Regular := (hk.regular.works (setHandler_works hk.sound hset).2).works (enter_works he₂)
  obtain ⟨hecall, e₁, f, he₁, hce⟩ := callForId_exofork_child hk₂ hexo
  rcases callForId_exofork hk₂ (hq₂.runs hr₁) hexo with ⟨⟨_, hx⟩, -⟩ | ⟨_, _, -, -, -, -, -, hmap₃, hspares⟩
  · cases hx
  -- the parent has its pages as before, up to where the child is made
  have hret (v : VirtAddr) (hv : InProgram v.raw) : k.Retains k₃ p.env v :=
    ((hret₁ p.env v fun hn => exceptionStack_ne hv.2 hn.2).trans (hq₂.retains p.env v)).trans
      (.of_spares (by rw [hmap₃]) (hspares p.env))
  obtain ⟨hk₄, hin, ce, hce', hregs, hparent, hupcall, hstatus, hqueue⟩ := populate_inherited
    (hecall ▸ hregular.ecall p'.env _ _) ((hspares p'.env).runs (hq₂.runs hr₁)) hci hcs (by rwa [hbrk]) (by rwa [hbrk])
    (by rwa [hbrk]) (fun v => by rw [hmap₃, hq₂.mappings, hnone v]) hce
    (show ¬ EnvStatus.notRunnable.isRunnable by decide)
    (fun v q hv hq => hk.unprivileged.perm (i := p.env) ((hret v hv).1.symm.trans (henv ▸ hq))) hpop
  rw [henv, hbrk] at hin
  rw [henv] at he₁
  refine ⟨(hin.of_retains hlow hhigh hret).quiet (.log k₄ _), hp₁, hruntime, k₁, k₂, e₁, ce, hset, he₂, he₁, ?_, hregs,
    hparent.trans (congrArg some henv), hupcall, hstatus, hqueue⟩
  rw [env?_log, hce']

/-- A page is copied by a store of as many bytes as a page has. -/
theorem copyToChild_of_stages {k₃ : Kernel} {w : Word} {bytes : Bytes} {i : EnvId} {va : Word}
    (halloc : k.call i (.pageAlloc .self scratchBase.toUInt64 .userWritable) = (.ok w, k₁))
    (hload : k₁.load i va pageSize = (.ok bytes, k₁)) (he : k₁.env? i = some e)
    (hc : e.space.check scratchBase.toUInt64.toNat pageSize .write = .ok ())
    (hrest : Kernel.callAll { k₁ with
        machine := e.space.writeParts scratchBase.toUInt64.toNat bytes 1 scratchBase.toUInt64.toNat pageSize k₁.machine } i
        [.pageMap .self scratchBase.toUInt64 c va .userWritable, .pageUnmap .self scratchBase.toUInt64] = (.ok (), k₃)) :
    k.copyToChild i c va = (.ok (), k₃) := by
  have hsize : bytes.size = pageSize := by
    unfold Kernel.load at hload
    rw [he] at hload
    dsimp only at hload
    split at hload
    next hr =>
      cases hload
      exact (AddressSpace.getElem?_of_read hr).1
    · cases hload
  have hstore : k₁.store i scratchBase.toUInt64 bytes = (.ok (), { k₁ with
      machine := e.space.writeParts scratchBase.toUInt64.toNat bytes 1 scratchBase.toUInt64.toNat pageSize k₁.machine }) := by
    rw [← hsize] at hc
    obtain ⟨m, hm⟩ := AddressSpace.write_of_check (m := k₁.machine) hc
    obtain ⟨-, rfl⟩ := AddressSpace.write_ok hm
    unfold Kernel.store
    rw [he]
    dsimp only
    rw [hm, hsize]
    rfl
  rw [copyToChild_eq, copyVia_of_stored halloc hload hstore]
  exact hrest

theorem copyStack_singleton {a : Nat} {q : Perm} (hq : k.query i a.toUInt64 = some q)
    (h : k.copyToChild i c a.toUInt64 = (.ok (), k')) : k.copyStack i c [a] = (.ok (), k') := by
  simp only [copyStack, hq, h]

/-- A child is made and filled, and then the fork has succeeded. -/
theorem fork_of_stages {p₁ : UserProcess} {k₃ k₄ k₅ k₆ : Kernel} {regs : Registers}
    (hset : p.setHandler k Routine.copyOnWrite = (.ok (), p₁, k₁)) (hexo : p₁.exofork k₁ = (.ok c, k₂))
    (he : p₁.enter k₂ = (.ok (), k₃)) (hshare : k₃.sharePages p₁.env c (pageSteps textBase p₁.runtime.brk.toNat) = (.ok (), k₄))
    (hregs : k₄.registers p₁.env = .ok regs)
    (hcopy : k₄.copyStack p₁.env c (stackPages regs.sp p₁.runtime.brk) = (.ok (), k₅))
    (hstart : k₅.startChild p₁.env c = (.ok (), k₆)) :
    p.fork k = (.ok ⟨c, p₁.runtime⟩, p₁, k₆.log (.forked p₁.env c)) := by
  have hpop : p₁.populate k₂ c = (.ok (), k₆) := by
    unfold populate
    rw [he]
    dsimp only
    rw [populate_eq rfl, hshare]
    dsimp only
    rw [hregs]
    dsimp only
    rw [hcopy]
    exact hstart
  unfold fork
  rw [hset]
  dsimp only
  rw [hexo]
  dsimp only
  rw [hpop]

/-- A program with a page of data and a page of stack. -/
def stackProgram : Kernel := ((ofConfig ⟨24, 2⟩).log (.booted ⟨24, 2⟩)).run [.spawn { data := #[5] }]

def stackProcess : UserProcess :=
  ⟨⟨4096⟩, { thisEnv := ⟨4096⟩, handler := some Routine.copyOnWrite, brk := (textBase + pageSize).toUInt64 }⟩

theorem eq_ok_unit {ε β : Type} {x : Except ε Unit × β} (h : x.1.toOption.isSome) : x = (.ok (), x.2) := eq_ok_getD h ()

section stages
variable (k : Kernel)

/-- A fork of it, once its handler is set, up to where the data is shared. -/
def sharedProgram : Kernel :=
  ((stackProcess.enter (stackProcess.exofork k).2).2.sharePages stackProcess.env ⟨4097⟩
    (pageSteps textBase stackProcess.runtime.brk.toNat)).2

/-- The fork, up to where the stack is to be copied. -/
def windowProgram : Kernel := ((sharedProgram k).call stackProcess.env (.pageAlloc .self scratchBase.toUInt64 .userWritable)).2

def windowEnv : Env := ((windowProgram k).env? stackProcess.env).getD (.fresh stackProcess.env none ⟨.empty ⟨0, 0⟩⟩)

/-- The bytes of its stack. -/
def stackBytes : Bytes := ((windowProgram k).load stackProcess.env stackPage.toUInt64 pageSize).1.toOption.getD #[]

/-- The fork, up to where the child has its stack. -/
def copiedProgram : Except Errno Unit × Kernel :=
  let m := (windowEnv k).space.writeParts scratchBase.toUInt64.toNat (stackBytes k) 1 scratchBase.toUInt64.toNat pageSize
    (windowProgram k).machine
  Kernel.callAll { windowProgram k with machine := m } stackProcess.env
    [.pageMap .self scratchBase.toUInt64 ⟨4097⟩ stackPage.toUInt64 .userWritable, .pageUnmap .self scratchBase.toUInt64]

/-- The fork, when it is done. -/
def forkedProgram : Kernel :=
  ((copiedProgram k).2.startChild stackProcess.env ⟨4097⟩).2.log (.forked stackProcess.env ⟨4097⟩)

/-- Each stage of the fork goes well, whatever the bytes of the stack are. -/
def Staged : Prop := (stackProcess.exofork k).1.toOption = some ⟨4097⟩ ∧
    (stackProcess.enter (stackProcess.exofork k).2).1.toOption.isSome ∧
    ((stackProcess.enter (stackProcess.exofork k).2).2.sharePages stackProcess.env ⟨4097⟩
      (pageSteps textBase stackProcess.runtime.brk.toNat)).1.toOption.isSome ∧
    ((sharedProgram k).registers stackProcess.env).toOption.map Registers.sp = some stackTop.toUInt64 ∧
    ((sharedProgram k).query stackProcess.env stackPage.toUInt64).isSome ∧
    ((sharedProgram k).call stackProcess.env (.pageAlloc .self scratchBase.toUInt64 .userWritable)).1.toOption.isSome ∧
    ((windowProgram k).env? stackProcess.env).isSome ∧
    ((windowProgram k).load stackProcess.env stackPage.toUInt64 pageSize).1.toOption.isSome ∧
    ((windowEnv k).space.check scratchBase.toUInt64.toNat pageSize .write).toOption.isSome ∧
    (copiedProgram k).1.toOption.isSome ∧ ((copiedProgram k).2.startChild stackProcess.env ⟨4097⟩).1.toOption.isSome

instance : Decidable (Staged k) := inferInstanceAs (Decidable (_ ∧ _))

end stages

/-- **A fork that goes well stage by stage goes well.** -/
theorem fork_of_staged (hset : p.setHandler k Routine.copyOnWrite = (.ok (), stackProcess, k₁)) (h : Staged k₁) :
    p.fork k = (.ok ⟨⟨4097⟩, stackProcess.runtime⟩, stackProcess, forkedProgram k₁) := by
  obtain ⟨hexo, henter, hshare, hregs, hquery, halloc, henv, hload, hcheck, hrest, hstart⟩ := h
  obtain ⟨regs, hregs, hsp⟩ := Option.map_eq_some_iff.1 hregs
  have hload := eq_ok_getD hload #[]
  rw [load_ok hload] at hload
  have hwindow : (sharedProgram k₁).call stackProcess.env (.pageAlloc .self scratchBase.toUInt64 .userWritable) =
      (.ok _, windowProgram k₁) := eq_ok_getD halloc 0
  have hcopied : copiedProgram k₁ = (.ok (), (copiedProgram k₁).2) := eq_ok_unit hrest
  have hcopy : (sharedProgram k₁).copyToChild stackProcess.env ⟨4097⟩ stackPage.toUInt64 = (.ok (), (copiedProgram k₁).2) := by
    refine copyToChild_of_stages hwindow hload (e := windowEnv k₁) ?_ ?_ hcopied
    · obtain ⟨e, he⟩ := Option.isSome_iff_exists.1 henv
      have hw : windowEnv k₁ = e := by rw [windowEnv, he, Option.getD_some]
      rw [hw]
      exact he
    · obtain ⟨_, hu⟩ := Option.isSome_iff_exists.1 hcheck
      exact eq_ok_of_toOption hu
  have hstack : (sharedProgram k₁).copyStack stackProcess.env ⟨4097⟩ (stackPages regs.sp stackProcess.runtime.brk) =
      (.ok (), (copiedProgram k₁).2) := by
    obtain ⟨q, hq⟩ := Option.isSome_iff_exists.1 hquery
    rw [hsp, stackPages_stackTop (by decide)]
    exact copyStack_singleton hq hcopy
  exact fork_of_stages hset (Prod.ext (eq_ok_of_toOption hexo) rfl) (eq_ok_unit henter) (eq_ok_unit hshare)
    (eq_ok_of_toOption hregs) hstack (eq_ok_unit hstart)

theorem staged_stackProgram : Staged stackProgram := by decide +kernel

/-- The child of a program with a page of data and a page of stack: the data is marked, and the stack is its own. -/
theorem fork_fills_child_with_stack : ∃ (k k' : Kernel) (p p' : UserProcess) (child : ForkedChild) (e : Env) (v w : VirtAddr)
    (q s : Pte) (g : Frame), k.Reachable ∧ k.env? p.env = some e ∧ p.runtime.brk < e.regs.sp ∧
      p.fork k = (.ok child, p', k') ∧ k.mappings p.env v = some q ∧ k'.mappings child.id v = some ⟨q.frame, .userCow⟩ ∧
      k.mappings p.env w = some s ∧ k'.Private child.id w g ∧ k'.machine.page g = k.machine.page s.frame := by
  have hk : stackProgram.Reachable := Reachable.run (.boot (c := ⟨24, 2⟩) rfl) _
  have hlive : (stackProgram.env? stackProcess.env).map (fun e => (e.status.isRunnable, e.regs.sp)) =
      some (true, stackTop.toUInt64) := by decide +kernel
  obtain ⟨e, he, hst⟩ := Option.map_eq_some_iff.1 hlive
  obtain ⟨hrun, hsp⟩ := Prod.mk.inj hst
  have hf : stackProcess.fork stackProgram = _ := fork_of_staged rfl staged_stackProgram
  obtain ⟨hin, -⟩ := fork_fills_child hk he hrun (by decide) (by decide) (by decide) hf
  let v : VirtAddr := ⟨textBase, by decide⟩
  let w : VirtAddr := ⟨stackPage, by decide⟩
  have hq : stackProgram.mappings stackProcess.env v = some ⟨⟨0, 1⟩, .userWritable⟩ := by decide +kernel
  have hs : stackProgram.mappings stackProcess.env w = some ⟨⟨0, 3⟩, .userWritable⟩ := by decide +kernel
  obtain ⟨-, hv⟩ := hin.marked v _ ⟨Nat.le_refl _, by decide⟩ hq Perm.intersects_userWritable
  obtain ⟨-, g, hg, hpage, -⟩ := hin.stack w _ ⟨by rw [hsp]; decide, by decide⟩ hs
  exact ⟨_, _, _, _, _, e, v, w, _, _, g, hk, he, by rw [hsp]; decide, hf, hq, hv, hs, hg, hpage⟩

end UserProcess
end Exokernel
