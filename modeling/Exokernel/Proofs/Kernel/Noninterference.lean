import Exokernel.Proofs.Kernel.Chronicle
import Exokernel.Proofs.Kernel.Confinement
import Exokernel.Proofs.Kernel.Showing
import Exokernel.Proofs.Syscall.Failure
/-!
# What a program cannot find out

A program sees the frames that it or one of its children has mapped.  Whatever it does, what it is told does not depend
on the bytes of any other frame, and neither does what it sees later: a frame that comes into its view was seen by it
before or is blank (`noninterference`).
-/
namespace Exokernel

/-- What a program can do with the processor, its faults included. -/
inductive Act where
  | perform (op : CpuOp)
  | fault (f : PageFault)
  | registers
  | mailbox
  | query (a : Word)

/-- What the program is told. -/
inductive Reply where
  | loaded (r : Except Trap Bytes)
  | done (r : Except Trap Unit)
  | called (r : Ecall)
  | trapped (t : Trap)
  | registers (r : Except Trap Registers)
  | mailbox (r : Except Trap Mailbox)
  | perm (p : Option Perm)

namespace Kernel

/-- An act of a program: what it is told, and the state after it. -/
def act (k : Kernel) (c : EnvId) : Act → Reply × Kernel
  | .perform (.load a len) => (k.load c a len).map .loaded id
  | .perform (.store a data) => (k.store c a data).map .done id
  | .perform (.resumeWith regs) => (k.resumeWith c regs).map .done id
  | .perform (.ecall number args) => (k.ecall c number args).map .called id
  | .fault f => (k.raise c f).map .trapped id
  | .registers => (.registers (k.registers c), k)
  | .mailbox => (.mailbox (k.mailbox c), k)
  | .query a => (.perm (k.query c a), k)

/-- Some acts of a program, one after the other. -/
def acts (k : Kernel) (c : EnvId) : List Act → List Reply × Kernel
  | [] => ([], k)
  | x :: xs => (acts (k.act c x).2 c xs).map ((k.act c x).1 :: ·) id

/-- The environment itself, or a live child of it. -/
def Kin (k : Kernel) (c j : EnvId) : Prop := j = c ∨ ∃ e, k.env? j = some e ∧ e.parent = some c

/-- The environment or a child of it has the frame mapped. -/
def Sees (k : Kernel) (c : EnvId) (f : Frame) : Prop := ∃ j v p, k.Kin c j ∧ k.mappings j v = some p ∧ p.frame = f

/-- The kernel with every page blanked. -/
def blank (k : Kernel) : Kernel := k.showing fun _ => False

/-- **Two kernels are alike for an environment**: they differ in nothing but the bytes of frames that it does not
see. -/
structure Alike (k : Kernel) (c : EnvId) (k' : Kernel) : Prop where
  blank : k'.blank = k.blank
  page (f : Frame) (h : k.Sees c f) : k'.machine.page f = k.machine.page f

variable {k k' : Kernel} {c i t : EnvId} {e : Env} {f g : Frame} {v : VirtAddr} {p : Pte}

theorem act_perform (k : Kernel) (c : EnvId) (op : CpuOp) : (k.act c (.perform op)).2 = k.perform c op := by
  cases op <;> rfl

theorem Sound.act (hk : k.Sound []) (c : EnvId) (x : Act) : (k.act c x).2.Sound [] := by
  cases x with
  | perform op =>
    rw [act_perform]
    exact hk.perform c op
  | fault f => exact hk.raise c f
  | registers => exact hk
  | mailbox => exact hk
  | query a => exact hk

/-! ## What is seen -/

theorem sees_of_mappings {j : EnvId} (hj : k.Kin c j) (hp : k.mappings j v = some p) : k.Sees c p.frame :=
  ⟨j, v, p, hj, hp, rfl⟩

theorem kin_of_authorized {te : Env} (h : k.Authorized c te) : k.Kin c te.id := by
  rcases h with ⟨he, hid | hpar⟩
  · exact Or.inl hid
  · exact Or.inr ⟨te, he, hpar⟩

theorem Sees.mono (h : k'.Sees c f) (hkin : ∀ j, k'.Kin c j → k.Kin c j)
    (hm : ∀ j v p, k'.mappings j v = some p → k.mappings j v = some p) : k.Sees c f := by
  obtain ⟨j, v, p, hj, hp, rfl⟩ := h
  exact sees_of_mappings (hkin j hj) (hm j v p hp)

theorem shownBy_sees (he : k.env? c = some e) : e.space.ShownBy (k.Sees c) := by
  intro v p hl
  exact sees_of_mappings (Or.inl rfl) ((mappings_of_env? he v).trans hl)

theorem Kin.of_sameTags {j : EnvId} (h : k'.Kin c j) (ht : k.SameTags k') : k.Kin c j := by
  rcases h with rfl | ⟨e, he, hp⟩
  · exact Or.inl rfl
  · have hmap : (k.envs.get? j).map Env.parent = some (some c) := by
      rw [← EnvTable.parent_of_sameTags ht j, show k'.envs.get? j = some e from he, Option.map_some, hp]
    obtain ⟨e', he', hp'⟩ := Option.map_eq_some_iff.1 hmap
    exact Or.inr ⟨e', he', hp'⟩

theorem Kin.of_destroyEnv {j : EnvId} (h : (k.destroyEnv i).2.Kin c j) : k.Kin c j := by
  rcases h with rfl | ⟨e, he, hp⟩
  · exact Or.inl rfl
  · refine Or.inr ⟨e, ?_, hp⟩
    cases hi : k.env? i with
    | none => rwa [destroyEnv_of_env?_none hi] at he
    | some ei =>
      have henv := env?_destroyEnv (destroyEnv_of_env? hi) j
      rw [destroyEnv_of_env? hi] at he
      rw [he] at henv
      split at henv
      · cases henv
      · exact henv.symm

theorem sees_congr (h : k'.envs = k.envs) : k'.Sees c = k.Sees c := by
  funext f
  simp only [Sees, Kin, env?, mappings, h]

theorem Sees.of_sameTags (h : k'.Sees c f) (ht : k.SameTags k') (hm : k'.mappings = k.mappings) : k.Sees c f :=
  h.mono (fun _ hj => hj.of_sameTags ht) fun _ _ _ hp => by rwa [← hm]

/-- **Who maps one page more sees one frame more.** -/
theorem Sees.of_put {q : Perm} (h : k'.Sees c f) (ht : k.SameTags k')
    (hm : k'.mappings = k.mappings.put t v (some ⟨g, q⟩)) : k.Sees c f ∨ f = g := by
  obtain ⟨j, w, p, hj, hp, rfl⟩ := h
  rw [hm] at hp
  unfold Mappings.put at hp
  split at hp
  · cases hp
    exact Or.inr rfl
  · exact Or.inl (sees_of_mappings (hj.of_sameTags ht) hp)

theorem Sees.of_put_none (h : k'.Sees c f) (ht : k.SameTags k') (hm : k'.mappings = k.mappings.put t v none) :
    k.Sees c f := by
  refine h.mono (fun _ hj => hj.of_sameTags ht) fun j w p hp => ?_
  rw [hm] at hp
  unfold Mappings.put at hp
  split at hp
  · cases hp
  · exact hp

theorem Sees.of_destroyEnv (h : (k.destroyEnv i).2.Sees c f) : k.Sees c f := by
  refine h.mono (fun _ hj => hj.of_destroyEnv) fun j w p hp => ?_
  rw [mappings_destroyEnv] at hp
  unfold Mappings.without at hp
  split at hp
  · cases hp
  · exact hp

/-- A new child has nothing to see. -/
theorem Sees.of_createEnv (hk : k.Sound []) {parent : Option EnvId} (hc : k.createEnv parent = (.ok i, k'))
    (h : k'.Sees c f) : k.Sees c f := by
  obtain ⟨hm, hnone⟩ := mappings_createEnv hk hc
  obtain ⟨-, f, henv⟩ := env?_createEnv hk hc
  obtain ⟨j, w, p, hj, hp, rfl⟩ := h
  have hne : i ≠ j := by
    rintro rfl
    rw [hnone] at hp
    cases hp
  rw [hm] at hp
  refine sees_of_mappings ?_ hp
  rcases hj with rfl | ⟨e, he, hpar⟩
  · exact Or.inl rfl
  · rw [henv, if_neg hne] at he
    exact Or.inr ⟨e, he, hpar⟩

/-- What the environment sees after and did not see before is blank. -/
def Conceals (k : Kernel) (c : EnvId) (k' : Kernel) : Prop :=
  ∀ f, k'.Sees c f → k.Sees c f ∨ k'.machine.page f = Page.zero

theorem Conceals.modifyEnv (h : k.Conceals c k') (i : EnvId) {f : Env → Env} (hi : ∀ e, (f e).id = e.id)
    (hp : ∀ e, (f e).parent = e.parent) (hs : ∀ e, (f e).space = e.space) : k.Conceals c (k'.modifyEnv i f) := by
  intro g hg
  exact h g (hg.of_sameTags (.modifyEnv k' i hi hp) (mappings_modifyEnv hi hs))

end Kernel

namespace Syscall

variable {k k' : Kernel} {c : EnvId} {a : CallArgs} {s : Service} {r : Except SysError Word}

/-- **A page that is allocated is blank**, whatever was on its frame before. -/
theorem Effect.pageAlloc_zero {w : Word} (h : Effect k c a .pageAlloc (.ok w) k') (hk : k.Sound []) : ∃ t v f p,
    pageAllocArgs k c a = .ok (t, v, p) ∧ k.SameTags k' ∧ k'.mappings = k.mappings.put t.id v (some ⟨f, p⟩) ∧
      k'.machine.page f = Page.zero := by
  have hpage := fun f hf => h.page hk (f := f) hf
  have hk' := hk.effect h
  cases h with
  | @allocated t v p f k₁ k₂ ha hf hm =>
    have ht := (authorizeWord_ok (pageAllocArgs_ok ha).2.2).1
    have ht₁ : k₁.env? t.id = some t := (Kernel.env?_allocFrame hf t.id).trans ht
    have hblank := Kernel.page_of_allocFrame hk hf
    obtain ⟨m, -, rfl⟩ := Kernel.allocFrame_some hf
    have hmap₂ := Kernel.mappings_mapInto ht₁ hm
    have hmap : (k₂.releaseFrame f).mappings = k.mappings.put t.id v (some ⟨f, p⟩) := hmap₂
    have hput : (k₂.releaseFrame f).mappings t.id v = some ⟨f, p⟩ := by rw [hmap, Mappings.put_self]
    have htags := Kernel.SameTags.mapInto hm
    exact ⟨t, v, f, p, ha, htags, hmap, (hpage f (hk'.refs_pos_of_mappings hput)).trans hblank⟩

/-- **A call of a service brings nothing into view but what was in view, and blank pages.** -/
theorem Effect.conceals (h : Effect k c a s r k') (hk : k.Sound []) : k.Conceals c k' := by
  have same {k' : Kernel} (ht : k.SameTags k') (hm : k'.mappings = k.mappings) : k.Conceals c k' :=
    fun f hf => Or.inl (hf.of_sameTags ht hm)
  cases h with
  | refused hb => exact same (.of_bare hb) (Kernel.mappings_of_bare hb)
  | named => exact same (.refl k) rfl
  | @destroyed t k₁ ht hd =>
    intro f hf
    have hs : (k.destroyEnv t.id).2.Sees c f := by
      rw [hd]
      exact hf
    exact Or.inl hs.of_destroyEnv
  | allocated ha hg hm =>
    obtain ⟨t, v, g, p, -, htags, hmap, hzero⟩ := (Effect.allocated ha hg hm).pageAlloc_zero hk
    intro f hf
    rcases hf.of_put htags hmap with hf | rfl
    · exact Or.inl hf
    · exact Or.inr hzero
  | @mapped pte t v p k₁ ha hm =>
    obtain ⟨sv, src, si, di, -, -, -, -, -, hsrc, hdst, hl, -⟩ := pageMapArgs_ok ha
    have hau := authorize_ok hsrc
    intro f hf
    left
    rcases hf.of_put (.mapInto hm) (Kernel.mappings_mapInto (authorize_ok hdst).1 hm) with hf | rfl
    · exact hf
    · exact Kernel.sees_of_mappings (Kernel.kin_of_authorized hau) ((Kernel.mappings_of_env? hau.1 sv).trans hl)
  | @unmapped t v ha =>
    intro f hf
    exact Or.inl (hf.of_put_none (.unmapFrom k t v)
      (Kernel.mappings_unmapFrom (authorizeWord_ok (pageUnmapArgs_ok ha).2).1 v))
  | @forked parent child k₁ _ hcr =>
    intro f hf
    have hf₁ : (k₁.setRegisters child (parent.regs.setA0 0)).Sees c f := hf
    exact Or.inl ((hf₁.of_sameTags (.setRegisters k₁ child _) (Kernel.mappings_setRegisters k₁ child _)).of_createEnv hk hcr)
  | @statusSet t s ha => exact same (.setStatus k t.id s) (Kernel.mappings_setStatus k t.id s)
  | registersSet ha => exact same (.setRegisters k _ _) (Kernel.mappings_setRegisters k _ _)
  | @upcallSet t ha =>
    exact same (.modifyEnv k t.id (f := fun e => { e with upcall := some (a.word 1) }) (fun _ => rfl) fun _ => rfl)
      (Kernel.mappings_modifyEnv (fun _ => rfl) fun _ => rfl)
  | passed he hq => exact same (.setStatus k c .runnable) (Kernel.mappings_setStatus k c .runnable)
  | @yielded e next rest he hq =>
    exact same ((Kernel.SameTags.setStatus k c .runnable).trans (.setStatus _ next .running))
      ((Kernel.mappings_setStatus _ next .running).trans (Kernel.mappings_setStatus k c .runnable))
  | @sent req t offered p k₁ ha hs ht =>
    have hk₁ := Kernel.SameTags.transfer ht
    intro f hf
    have hf₁ : k₁.Sees c f :=
      hf.of_sameTags (.wake k₁ t.id c req.value p) (Kernel.mappings_wake k₁ t.id c req.value p)
    left
    rcases Kernel.mappings_transfer hs ht with ⟨sv, v, pte, -, -, hp, -, hm⟩ | ⟨-, hm, -⟩
    · rcases hf₁.of_put hk₁ hm with hf | rfl
      · exact hf
      · exact Kernel.sees_of_mappings (Or.inl rfl) hp
    · exact hf₁.of_sameTags hk₁ hm
  | @waiting e target ha he =>
    exact same (.modifyEnv k c (f := fun e => { e with mailbox := e.mailbox.await target, status := .notRunnable })
      (fun _ => rfl) fun _ => rfl) (Kernel.mappings_modifyEnv (fun _ => rfl) fun _ => rfl)

end Syscall

namespace Kernel

variable {k k' : Kernel} {c : EnvId} {f : Frame}

theorem Sound.ecall_conceals (hk : k.Sound []) (c : EnvId) (number : Word) (args : Vector Word 5) :
    k.Conceals c (k.ecall c number args).2 := by
  have entered {r : Registers} {f : Frame} (h : (k.setRegisters c r).Sees c f) : k.Sees c f :=
    h.of_sameTags (.setRegisters k c r) (mappings_setRegisters k c r)
  exact ecall_induction hk c number args (fun f hf => Or.inl hf) (fun e _ f hf => Or.inl (entered hf))
    (fun e _ _ _ _ h f hf => (h.conceals (hk.setRegisters c _) f hf).imp_left entered) (fun _ _ h => h)
    fun k ret h =>
      h.modifyEnv c (f := fun e => { e with regs := e.regs.setA0 ret }) (fun _ => rfl) (fun _ => rfl) fun _ => rfl

theorem sees_of_raise {pf : PageFault} (h : (k.raise c pf).2.Sees c f) : k.Sees c f := by
  cases he : k.env? c with
  | none =>
    have hraise : k.raise c pf = (.killed, k.log (.faulted c pf)) := by
      rw [raise, deliverFault, show (k.log (.faulted c pf)).env? c = none from he]
    rw [hraise] at h
    exact h
  | some me =>
    rcases hr : k.raise c pf with ⟨t, k'⟩
    rw [hr] at h
    rcases raise_cases he hr with ⟨-, k₁, hb, rfl⟩ | ⟨entry, record, k₁, m, -, -, hb, -, -, rfl⟩
    · exact h.of_destroyEnv.of_sameTags (.of_bare hb) (mappings_of_bare hb)
    · have h : (setRegisters { k₁ with machine := m } c { me.regs.setSp record.toUInt64 with sepc := entry }).Sees c f := h
      have h₁ : k₁.Sees c f := h.of_sameTags (.setRegisters _ c _) (mappings_setRegisters _ c _)
      exact h₁.of_sameTags (.of_bare hb) (mappings_of_bare hb)

/-- **Nothing that a program does brings anything into its view but blank pages.** -/
theorem Sound.act_conceals (hk : k.Sound []) (c : EnvId) (x : Act) : k.Conceals c (k.act c x).2 := by
  have fault (pf : PageFault) : k.Conceals c (k.raise c pf).2 := fun f hf => Or.inl (sees_of_raise hf)
  have quiet : k.Conceals c k := fun f hf => Or.inl hf
  cases x with
  | perform op =>
    rw [act_perform]
    exact perform_induction (Q := k.Conceals c) k c op quiet (fun _ pf _ => fault pf)
      (fun _ _ _ _ _ _ f hf => Or.inl hf)
      (fun r _ f hf => Or.inl (hf.of_sameTags (.setRegisters k c _) (mappings_setRegisters k c _)))
      fun number args _ => hk.ecall_conceals c number args
  | fault pf => exact fault pf
  | registers => exact quiet
  | mailbox => exact quiet
  | query a => exact quiet

/-! ## What is told -/

/-- **A program is told the same, and does the same, whatever is on the pages that it does not see.** -/
theorem act_showing {S : Frame → Prop} [DecidablePred S] (h : ∀ e, k.env? c = some e → e.space.ShownBy S) (x : Act) :
    (k.showing S).act c x = Prod.map id (·.showing S) (k.act c x) := by
  cases x with
  | perform op =>
    cases op with
    | load a len => exact congrArg (Prod.map Reply.loaded id) (load_showing h a len)
    | store a data => exact congrArg (Prod.map Reply.done id) (store_showing h a data)
    | resumeWith regs => exact congrArg (Prod.map Reply.done id) (resumeWith_showing regs)
    | ecall number args => exact congrArg (Prod.map Reply.called id) (ecall_showing h number args)
  | fault pf => exact congrArg (Prod.map Reply.trapped id) (raise_showing h pf)
  | registers => rfl
  | mailbox => rfl
  | query a => rfl

namespace Alike

theorem showing {S : Frame → Prop} [DecidablePred S] (h : k.Alike c k') (hS : ∀ f, S f → k.Sees c f) :
    k'.showing S = k.showing S := by
  obtain ⟨hconfig, hmachine, henvs, hscheduler⟩ := Kernel.mk.inj h.blank
  have hm := Machine.showing_eq k.machine S hmachine fun f hf => h.page f (hS f hf)
  unfold Kernel.showing
  rw [hm, show k'.config = k.config from hconfig, show k'.envs = k.envs from henvs,
    show k'.scheduler = k.scheduler from hscheduler]

theorem of_showing {S : Frame → Prop} [DecidablePred S] (h : k'.showing S = k.showing S)
    (hp : ∀ f, k.Sees c f → ¬ S f → k'.machine.page f = k.machine.page f) : k.Alike c k' where
  blank := by
    have hblank (k : Kernel) : (k.showing S).blank = k.blank := by
      simp only [Kernel.blank, Kernel.showing, Machine.showing_showing k.machine S (T := fun _ => False) fun _ hf => hf.elim]
    rw [← hblank, h, hblank]
  page f hf := by
    by_cases hS : S f
    · have hpage (k : Kernel) : (k.showing S).machine.page f = k.machine.page f := by
        rw [machine_showing, Machine.page_showing, if_pos hS]
      rw [← hpage, h, hpage]
    · exact hp f hf hS

theorem envs (h : k.Alike c k') : k'.envs = k.envs := (Kernel.mk.inj h.blank).2.2.1

theorem sees (h : k.Alike c k') : k'.Sees c = k.Sees c := sees_congr h.envs

theorem symm (h : k.Alike c k') : k'.Alike c k where
  blank := h.blank.symm
  page f hf := (h.page f (by rwa [← h.sees])).symm

theorem trans {k₁ : Kernel} (h : k.Alike c k₁) (h' : k₁.Alike c k') : k.Alike c k' where
  blank := h'.blank.trans h.blank
  page f hf := (h'.page f (by rwa [h.sees])).trans (h.page f hf)

/-- What a stranger stores where the program sees nothing makes no difference to it. -/
theorem of_store {i : EnvId} {a : Word} {data : Bytes} (hs : k.store i a data = (.ok (), k'))
    (hn : ∀ v p, k.mappings i v = some p → ¬ k.Sees c p.frame) : k.Alike c k' := by
  classical
  obtain ⟨e, m, he, hw, rfl⟩ := store_ok hs
  have hshown : e.space.ShownBy fun f => ¬ k.Sees c f := fun v p hl => hn v p ((mappings_of_env? he v).trans hl)
  refine of_showing (S := k.Sees c) ?_ fun f hf hno => absurd hf hno
  unfold Kernel.showing
  rw [AddressSpace.showing_write _ hshown hw]

/-- **Whatever a program does, it is told the same in both kernels**, and they stay alike. -/
theorem act (hk : k.Sound []) (hk' : k'.Sound []) (h : k.Alike c k') (x : Act) :
    (k'.act c x).1 = (k.act c x).1 ∧ (k.act c x).2.Alike c (k'.act c x).2 := by
  classical
  have hview := h.showing (S := k.Sees c) fun _ hf => hf
  have hs : ∀ e, k.env? c = some e → e.space.ShownBy (k.Sees c) := fun e he => shownBy_sees he
  have hs' : ∀ e, k'.env? c = some e → e.space.ShownBy (k.Sees c) :=
    fun e he => hs e (by rwa [← env?_congr h.envs])
  have hact : Prod.map id (·.showing (k.Sees c)) (k'.act c x) = Prod.map id (·.showing (k.Sees c)) (k.act c x) := by
    rw [← act_showing hs' x, hview, act_showing hs x]
  obtain ⟨hreply, hstate⟩ := Prod.mk.inj hact
  refine ⟨hreply, .of_showing hstate fun f hf hn => ?_⟩
  -- a frame that comes into view is blank in both
  have henvs : (k'.act c x).2.envs = (k.act c x).2.envs := (Kernel.mk.inj hstate).2.2.1
  have hf' : (k'.act c x).2.Sees c f := by rwa [sees_congr henvs]
  have hn' : ¬ k'.Sees c f := by rwa [h.sees]
  rw [(hk.act_conceals c x f hf).resolve_left hn, (hk'.act_conceals c x f hf').resolve_left hn']

end Alike

theorem Sound.acts (hk : k.Sound []) (c : EnvId) (xs : List Act) : (k.acts c xs).2.Sound [] := by
  induction xs generalizing k with
  | nil => exact hk
  | cons x xs ih => exact ih (hk.act c x)

theorem Alike.acts (hk : k.Sound []) (hk' : k'.Sound []) (h : k.Alike c k') (xs : List Act) :
    (k'.acts c xs).1 = (k.acts c xs).1 ∧ (k.acts c xs).2.Alike c (k'.acts c xs).2 := by
  induction xs generalizing k k' with
  | nil => exact ⟨rfl, h⟩
  | cons x xs ih =>
    obtain ⟨hx, halike⟩ := h.act hk hk' x
    obtain ⟨hxs, hend⟩ := ih (hk.act c x) (hk'.act c x) halike
    refine ⟨?_, hend⟩
    show (k'.act c x).1 :: _ = (k.act c x).1 :: _
    rw [hx, hxs]

theorem ecall_pageAlloc_zero (hk : k.Sound []) {number t va q x y : Word}
    (hn : number.toNat = Service.pageAlloc.number) (h : k.ecall c number #v[t, va, q, x, y] = (.returned 0, k')) :
    ∃ i v f p, Syscall.decodeEnv t = .ok i ∧ Syscall.decodePage va = .ok v ∧ Syscall.decodePerm q = .ok p ∧
      k'.mappings (i.meant c) v = some ⟨f, p⟩ ∧ k'.machine.page f = Page.zero := by
  cases he : k.env? c with
  | none =>
    rw [ecall, he] at h
    cases h
  | some e =>
    have hk₁ := hk.setRegisters c (e.regs.called number #v[t, va, q, x, y])
    have heff := Syscall.effect _ c (argsOf (e.regs.called number #v[t, va, q, x, y])) hk₁ .pageAlloc
    rw [ecall_eq he, hn, SyscallTable.dispatch_number] at h
    rcases hd : Service.pageAlloc.handler (k.setRegisters c (e.regs.called number #v[t, va, q, x, y])) c
      (argsOf (e.regs.called number #v[t, va, q, x, y])) with ⟨out, k₁⟩
    rw [hd] at h heff
    rcases conclude_returned h with ⟨rfl, -, rfl⟩ | ⟨err, -, -, hret, -⟩
    · obtain ⟨te, v, f, p, hargs, -, hmap, hzero⟩ := heff.pageAlloc_zero hk₁
      obtain ⟨hv, hp, ht⟩ := Syscall.pageAllocArgs_ok hargs
      rw [word_argsOf_called _ _ _ (by decide)] at hv hp ht
      unfold Syscall.authorizeWord at ht
      split at ht
      · cases ht
      next i hi =>
        refine ⟨i, v, f, p, hi, hv, hp, ?_, hzero⟩
        have hsame : (k₁.modifyEnv c fun e => { e with regs := e.regs.setA0 0 }).mappings = k₁.mappings :=
          mappings_modifyEnv (fun _ => rfl) fun _ => rfl
        rw [hsame, hmap, ← id_of_authorize ht, Mappings.put_self]
    · have hneg := err.signed_errno_neg
      rw [← hret] at hneg
      exact absurd hneg (by decide)

/-- **Noninterference of memory contents.**  If two kernels differ in nothing but the bytes of frames that a program does
not see, then whatever it does, it is told the same in both, and they still differ in nothing else; and a page that it
allocates is blank. -/
theorem noninterference (hk : k.Reachable) (hk' : k'.Reachable) (h : k.Alike c k') (xs : List Act) :
    (k'.acts c xs).1 = (k.acts c xs).1 ∧ (k.acts c xs).2.Alike c (k'.acts c xs).2 ∧
    ∀ number t va q x y k₁, number.toNat = Service.pageAlloc.number →
      (k.acts c xs).2.ecall c number #v[t, va, q, x, y] = (.returned 0, k₁) →
      ∃ i v f p, Syscall.decodeEnv t = .ok i ∧ Syscall.decodePage va = .ok v ∧ Syscall.decodePerm q = .ok p ∧
        k₁.mappings (i.meant c) v = some ⟨f, p⟩ ∧ k₁.machine.page f = Page.zero := by
  obtain ⟨hreplies, halike⟩ := h.acts hk.sound hk'.sound xs
  exact ⟨hreplies, halike, fun number t va q x y k₁ hn he => ecall_pageAlloc_zero (hk.sound.acts c xs) hn he⟩

theorem leafFrames_of_sees (h : k.Sees c f) :
    ∃ e ∈ k.envs.toList, (e.id = c ∨ e.parent = some c) ∧ f ∈ e.space.table.leafFrames := by
  obtain ⟨j, v, p, hj, hp, rfl⟩ := h
  obtain ⟨e, he, hl⟩ := Option.bind_eq_some_iff.1 hp
  refine ⟨e, EnvTable.mem_toList he, ?_, PageTable.mem_leafFrames hl⟩
  rcases hj with rfl | ⟨e', he', hpar⟩
  · exact Or.inl (EnvTable.id_of_get? he)
  · obtain rfl := Option.some.inj (he.symm.trans he')
    exact Or.inr hpar

/-- Two programs that share nothing: the first cannot tell which byte the second has stored in its data. -/
theorem noninterference_stranger : ∃ k k' : Kernel, k.Reachable ∧ k'.Reachable ∧ k.Shows ⟨4097⟩ textBase 1 ∧
    k'.Shows ⟨4097⟩ textBase 2 ∧ k.Alike ⟨4096⟩ k' ∧ ∀ xs,
    (k'.acts ⟨4096⟩ xs).1 = (k.acts ⟨4096⟩ xs).1 ∧ (k.acts ⟨4096⟩ xs).2.Alike ⟨4096⟩ (k'.acts ⟨4096⟩ xs).2 := by
  let k := (((ofConfig ⟨16, 2⟩).log (.booted ⟨16, 2⟩)).step (.spawn {})).step (.spawn { data := #[0] })
  have hk : k.Reachable := .step (.step (.boot (c := ⟨16, 2⟩) rfl) _) _
  have hdata : k.mappings.entryAt ⟨4097⟩ textBase.toUInt64.toNat = some ⟨⟨0, 4⟩, .userWritable⟩ := by decide +kernel
  have hsep : ∀ e ∈ k.envs.toList, e.id = ⟨4096⟩ ∨ e.parent = some ⟨4096⟩ → ∀ e' ∈ k.envs.toList, e'.id = ⟨4097⟩ →
      ∀ f ∈ e'.space.table.leafFrames, f ∉ e.space.table.leafFrames := by decide +kernel
  have hn : ∀ v p, k.mappings ⟨4097⟩ v = some p → ¬ k.Sees ⟨4096⟩ p.frame := by
    intro v p hp hsees
    obtain ⟨e, hmem, hkin, hf⟩ := leafFrames_of_sees hsees
    obtain ⟨e', he', hl⟩ := Option.bind_eq_some_iff.1 hp
    exact hsep e hmem hkin e' (EnvTable.mem_toList he') (EnvTable.id_of_get? he') _ (PageTable.mem_leafFrames hl) hf
  have hw : Pte.allows ⟨⟨0, 4⟩, .userWritable⟩ .write := by decide
  have hr : Pte.allows ⟨⟨0, 4⟩, .userWritable⟩ .read := by decide
  obtain ⟨k₁, hs₁, -, -⟩ := exists_store hk.sound hdata hw 1
  obtain ⟨k₂, hs₂, -, -⟩ := exists_store hk.sound hdata hw 2
  have hk₁ : k₁.Reachable := by
    have h := hk.step (.perform ⟨4097⟩ (.store textBase.toUInt64 #[1]))
    rw [step, perform, hs₁] at h
    exact h
  have hk₂ : k₂.Reachable := by
    have h := hk.step (.perform ⟨4097⟩ (.store textBase.toUInt64 #[2]))
    rw [step, perform, hs₂] at h
    exact h
  have hshow₁ := shows_of_store hk.sound hs₁ hdata hdata rfl rfl hr
  have hshow₂ := shows_of_store hk.sound hs₂ hdata hdata rfl rfl hr
  have halike := (Alike.of_store hs₁ hn).symm.trans (Alike.of_store hs₂ hn)
  refine ⟨k₁, k₂, hk₁, hk₂, hshow₁, hshow₂, halike, fun xs => ?_⟩
  obtain ⟨hreplies, hstates, -⟩ := noninterference hk₁ hk₂ halike xs
  exact ⟨hreplies, hstates⟩

end Kernel
end Exokernel
