import Exokernel.Proofs.Kernel.Chronicle
import Exokernel.Proofs.Kernel.Rendezvous
/-!
# Bystanders

What becomes of an environment that does not act itself.  What happens from outside at most gives it the processor or
takes it away (`reschedules_step`).  Another program changes its registers only by handing it a message or, with
authority, by replacing them (`keepsRegs_ecall`).
-/
namespace Exokernel

/-! ## Turns -/

/-- At most its turn has changed: it was to run, and is. -/
def Env.Rescheduled (e e' : Env) : Prop :=
  e' = e ∨ e.status.isRunnable ∧ ∃ s : EnvStatus, s.isRunnable ∧ e' = { e with status := s }

namespace Env.Rescheduled

variable {e e₁ e' : Env}

theorem refl (e : Env) : e.Rescheduled e := Or.inl rfl

theorem trans (h : e.Rescheduled e₁) (h' : e₁.Rescheduled e') : e.Rescheduled e' := by
  rcases h with rfl | ⟨hr, s, hs, rfl⟩
  · exact h'
  · rcases h' with rfl | ⟨-, s', hs', rfl⟩
    · exact Or.inr ⟨hr, s, hs, rfl⟩
    · exact Or.inr ⟨hr, s', hs', rfl⟩

theorem regs (h : e.Rescheduled e') : e'.regs = e.regs := by
  rcases h with rfl | ⟨-, s, -, rfl⟩ <;> rfl

/-- Who is not to run has no turn. -/
theorem eq_of_not_runnable (h : e.Rescheduled e') (hr : ¬ e.status.isRunnable) : e' = e :=
  h.resolve_right fun h => hr h.1

end Env.Rescheduled

namespace Kernel

variable {k k' k₁ : Kernel} {event : Event} {i j c : EnvId} {e : Env}

/-- **An environment stays as it is**, but for its turn. -/
def Reschedules (k k' : Kernel) (j : EnvId) : Prop :=
  ∀ e, k.env? j = some e → ∃ e', k'.env? j = some e' ∧ e.Rescheduled e'

namespace Reschedules

theorem of_env? (h : k'.env? j = k.env? j) : k.Reschedules k' j := fun e he => ⟨e, h.trans he, .refl e⟩

theorem trans (h : k.Reschedules k₁ j) (h' : k₁.Reschedules k' j) : k.Reschedules k' j := by
  intro e he
  obtain ⟨e₁, he₁, hr⟩ := h e he
  obtain ⟨e', he', hr'⟩ := h' e₁ he₁
  exact ⟨e', he', hr.trans hr'⟩

theorem modifyEnv {f : Env → Env} (hf : ∀ e, (f e).id = e.id) (hr : ∀ e, k.env? i = some e → e.Rescheduled (f e))
    (j : EnvId) : k.Reschedules (k.modifyEnv i f) j := by
  intro e he
  rw [env?_modifyEnv hf, he]
  refine ⟨_, rfl, ?_⟩
  split
  next hij =>
    subst hij
    exact hr e he
  · exact .refl e

theorem preempt (k : Kernel) (j : EnvId) : k.Reschedules k.preempt j := by
  unfold Kernel.preempt
  split
  · exact of_env? rfl
  next i _ =>
    refine modifyEnv (f := fun e => if e.status = .running then { e with status := .runnable } else e)
      (fun e => by split <;> rfl) (fun e _ => ?_) j
    split
    next hs => exact Or.inr ⟨by rw [hs]; rfl, .runnable, rfl, rfl⟩
    · exact .refl e

theorem setRunning (h : k.Ready i) (j : EnvId) : k.Reschedules (k.setStatus i .running) j := by
  refine modifyEnv (f := fun e => { e with status := .running }) (fun _ => rfl) (fun e he => ?_) j
  obtain ⟨e', he', hr⟩ := h
  obtain rfl : e' = e := Option.some.inj (he'.symm.trans he)
  exact Or.inr ⟨hr, .running, rfl, rfl⟩

theorem scheduleNext (hs : k.Scheduled) (j : EnvId) : k.Reschedules k.scheduleNext.2 j := by
  have hp := hs.preempt
  refine (preempt k j).trans ?_
  unfold Kernel.scheduleNext Scheduler.scheduleNext
  dsimp only
  cases hq : k.preempt.scheduler.queue with
  | nil => exact of_env? rfl
  | cons i rest =>
    have hr : k.preempt.Ready i := hp i (Scheduler.holds_of_queue_eq hq (Or.inr rfl))
    exact setRunning (k := { k.preempt with scheduler := { queue := rest, current := some i } }) hr j

theorem dispatch (h : k.dispatch i = .ok k') (j : EnvId) : k.Reschedules k' j := by
  obtain ⟨e, he, hr, ⟨-, rfl⟩ | ⟨-, rfl⟩⟩ := dispatch_ok h
  all_goals have hi : k.Ready i := ⟨e, he, hr⟩
  · exact setRunning hi j
  · exact (preempt k j).trans (setRunning (k := { k.preempt with scheduler := _ }) hi.preempt j)

end Reschedules

/-! ## What happens from outside -/

/-- **Who is there does not notice that a program is started.** -/
theorem env?_spawn (hk : k.Sound []) (img : Image) (he : k.env? j = some e) : (k.spawn img).2.env? j = some e := by
  have created {i : EnvId} {k₁ : Kernel} (hc : k.createEnv none = (.ok i, k₁)) : j ≠ i ∧ k₁.env? j = some e := by
    obtain ⟨hnone, f, henv⟩ := env?_createEnv hk hc
    have hne : j ≠ i := by
      rintro rfl
      rw [hnone] at he
      cases he
    exact ⟨hne, by rw [henv, if_neg hne.symm, he]⟩
  rcases h : k.spawn img with ⟨err | s, k'⟩
  · rcases spawn_error h with rfl | ⟨_, hc⟩ | ⟨i, brk, k₁, k₂, -, hc, hl, rfl⟩
    · exact he
    · exact (env?_congr (envs_of_bare (bare_createEnv_error hc)) j).trans he
    · obtain ⟨hne, he₁⟩ := created hc
      have he₂ : (k₂.log (.spawnFailed i err)).env? j = some e := ((Remapped.loadImage_error hl).other j hne).trans he₁
      rcases hd : (k₂.log (.spawnFailed i err)).destroyEnv i with ⟨_ | _, k₃⟩
      · cases hn : (k₂.log (.spawnFailed i err)).env? i with
        | none =>
          rw [destroyEnv_of_env?_none hn] at hd
          cases hd
          exact he₂
        | some e' =>
          rw [destroyEnv_of_env? hn] at hd
          cases hd
      · exact (env?_destroyEnv hd j).trans ((if_neg hne.symm).trans he₂)
  · obtain ⟨k₁, k₂, -, hc, hl, rfl⟩ := spawn_ok h
    obtain ⟨hne, he₁⟩ := created hc
    obtain ⟨k₃, hr, rfl⟩ := Remapped.loadImage_ok hl
    have hready := env?_modifyEnv_of_ne (k := k₃) (f := fun e => { e with
      regs := { e.regs.setSp stackTop.toUInt64 with sepc := textBase.toUInt64 }, status := .runnable }) (fun _ => rfl)
      hne.symm
    exact hready.trans ((hr.other j hne).trans he₁)

theorem env?_destroyEnv_self (k : Kernel) (i : EnvId) : (k.destroyEnv i).2.env? i = none := by
  cases he : k.env? i with
  | none =>
    rw [destroyEnv_of_env?_none he]
    exact he
  | some e =>
    have hd := destroyEnv_of_env? he
    rw [hd, env?_destroyEnv hd, if_pos rfl]

theorem env?_destroyEnv_of_ne (k : Kernel) (h : i ≠ j) : (k.destroyEnv i).2.env? j = k.env? j := by
  cases he : k.env? i with
  | none => rw [destroyEnv_of_env?_none he]
  | some e =>
    have hd := destroyEnv_of_env? he
    rw [hd, env?_destroyEnv hd, if_neg h]

/-- **What happens from outside leaves an environment as it is, but for its turn**, unless it ends it. -/
theorem reschedules_step (hk : k.Sound []) (hs : k.Scheduled) (hp : ∀ i op, event ≠ .perform i op)
    (hd : event ≠ .destroyEnv j) : k.Reschedules (k.step event) j := by
  cases event with
  | spawn img => exact fun e he => ⟨e, env?_spawn hk img he, .refl e⟩
  | destroyEnv i =>
    have hne : i ≠ j := by
      rintro rfl
      exact hd rfl
    exact .of_env? (env?_destroyEnv_of_ne k hne)
  | scheduleNext => exact .scheduleNext hs j
  | dispatch i =>
    unfold Kernel.step
    dsimp only
    split
    · exact .of_env? rfl
    next h => exact .dispatch h j
  | perform i op => exact absurd rfl (hp i op)
  | failAfter n => exact .of_env? (env?_congr (envs_of_bare (bare_failAfter k n)) j)
  | clearFailure => exact .of_env? (env?_congr (envs_of_bare (bare_clearFailure k)) j)

/-! ## What other programs do -/

/-- **Nobody notices an access of another.** -/
theorem env?_perform_of_ne (hj : j ≠ c) {op : CpuOp} (hop : ∀ number args, op ≠ .ecall number args) :
    (k.perform c op).env? j = k.env? j :=
  perform_induction (Q := fun k' => k'.env? j = k.env? j) k c op rfl
    (fun _ f he => env?_raise he (Prod.eta (k.raise c f)).symm hj) (fun _ _ _ _ _ _ => rfl)
    (fun _ _ => env?_setRegisters_of_ne _ _ hj.symm) fun number args h => absurd h (hop number args)

/-- The registers that it has it had before. -/
def KeepsRegs (k k' : Kernel) (j : EnvId) : Prop :=
  ∀ e', k'.env? j = some e' → ∃ e, k.env? j = some e ∧ e'.regs = e.regs

namespace KeepsRegs

theorem of_env? (h : k'.env? j = k.env? j) : k.KeepsRegs k' j := fun e he => ⟨e, h.symm.trans he, rfl⟩

theorem trans (h : k.KeepsRegs k₁ j) (h' : k₁.KeepsRegs k' j) : k.KeepsRegs k' j := by
  intro e' he'
  obtain ⟨e₁, he₁, hr₁⟩ := h' e' he'
  obtain ⟨e, he, hr⟩ := h e₁ he₁
  exact ⟨e, he, hr₁.trans hr⟩

theorem modifyEnv {f : Env → Env} (hf : ∀ e, (f e).id = e.id) (hr : ∀ e, (f e).regs = e.regs) (i j : EnvId) :
    k.KeepsRegs (k.modifyEnv i f) j := by
  intro e' he'
  rw [env?_modifyEnv hf] at he'
  obtain ⟨e, he, rfl⟩ := Option.map_eq_some_iff.1 he'
  refine ⟨e, he, ?_⟩
  split
  · exact hr e
  · rfl

theorem setStatus (k : Kernel) (i : EnvId) (s : EnvStatus) (j : EnvId) : k.KeepsRegs (k.setStatus i s) j :=
  modifyEnv (f := fun e => { e with status := s }) (fun _ => rfl) (fun _ => rfl) i j

theorem mapInto {t : Env} {f : Frame} {v : VirtAddr} {p : Perm} (h : k.mapInto t f v p = (.ok (), k')) :
    k.KeepsRegs k' j := by
  obtain ⟨s, m, -, rfl⟩ := mapInto_ok h
  exact modifyEnv (k := { k with machine := m }) (f := fun e => { e with space := s }) (fun _ => rfl) (fun _ => rfl) _ j

/-- **A call of another keeps the registers**, unless it is a message to one who waits, or made to replace them. -/
theorem effect {a : CallArgs} {s : Service} {r : Except SysError Word} (h : Syscall.Effect k c a s r k')
    (hk : k.Sound []) (he : k.env? j ≠ none) (hj : j ≠ c) (hi : k.Idle j)
    (hn : ∀ t, s = .envSetTrapframe → r = .ok 0 → Syscall.authorizeWord k c (a.word 0) = .ok t → t.id ≠ j) :
    k.KeepsRegs k' j := by
  cases h with
  | refused hb => exact of_env? (env?_congr (envs_of_bare hb) j)
  | named => exact of_env? rfl
  | destroyed ht hd =>
    intro e' he'
    have he' := (env?_destroyEnv hd j).symm.trans he'
    split at he'
    · cases he'
    · exact ⟨e', he', rfl⟩
  | @allocated t v p f k₁ k₂ ha hf hm =>
    have h₁ : k.KeepsRegs k₁ j := of_env? (env?_allocFrame hf j)
    have h₂ : k.KeepsRegs k₂ j := h₁.trans (mapInto hm)
    exact h₂
  | mapped ha hm => exact mapInto hm
  | @unmapped t v ha =>
    unfold unmapFrom
    rcases t.space.unmap k.machine v with ⟨s, m⟩
    exact modifyEnv (k := { k with machine := m }) (f := fun e => { e with space := s }) (fun _ => rfl) (fun _ => rfl) _ j
  | @forked parent child k₁ hp hc =>
    obtain ⟨hnone, f, henv⟩ := env?_forked hk hc (parent.regs.setA0 0)
    have hne : child ≠ j := by
      rintro rfl
      exact he hnone
    exact of_env? ((henv j).trans (if_neg hne))
  | @statusSet t st ha =>
    have h₁ := setStatus k t.id st j
    exact h₁
  | registersSet ha =>
    exact of_env? (env?_setRegisters_of_ne k _ (hn _ rfl rfl (Syscall.authorizeWord_of_envSetTrapframeArgs ha)))
  | upcallSet ha =>
    exact modifyEnv (f := fun e => { e with upcall := some (a.word 1) }) (fun _ => rfl) (fun _ => rfl) _ j
  | passed _ hq =>
    have h₁ := setStatus k c .runnable j
    exact h₁
  | @yielded _ next rest _ hq =>
    have h₁ := setStatus k c .runnable j
    have h₂ : k.KeepsRegs { k.setStatus c .runnable with scheduler := { queue := rest, current := some next } } j := h₁
    exact h₂.trans (setStatus _ next .running j)
  | @sent req t offered p k₁ ha hs ht =>
    obtain ⟨hte, hrec, -⟩ := Syscall.checkSend_ok hs
    have hne : t.id ≠ j := by
      rintro rfl
      exact hi t hte hrec
    have h₁ : k.KeepsRegs k₁ j := by
      rcases Syscall.transfer_ok ht with ⟨rfl, -, -⟩ | ⟨f, v, -, -, hm⟩
      · exact of_env? rfl
      · exact mapInto hm
    refine h₁.trans (of_env? ?_)
    exact env?_modifyEnv_of_ne (f := fun e =>
      { e with mailbox := e.mailbox.deliver c req.value p, regs := e.regs.setA0 0, status := .runnable })
      (fun _ => rfl) hne
  | waiting ha _ =>
    exact of_env? (env?_modifyEnv_of_ne (f := fun e =>
      { e with mailbox := e.mailbox.await _, status := .notRunnable }) (fun _ => rfl) hj.symm)

end KeepsRegs

/-- **A program replaces the registers of another**, and may. -/
structure Replaces (k : Kernel) (event : Event) (c j : EnvId) : Prop where
  other : c ≠ j
  asks : ∃ args, event.Calls c .envSetTrapframe args ∧ EnvId.ofWord? (argument args 0) = some j
  succeeds : k.outcome event = some (.returned 0)

/-- **Nobody's registers change by a call of another**, unless there is a message for it, or it has them replaced. -/
theorem keepsRegs_ecall (hk : k.Sound []) (he : k.env? j ≠ none) (hj : j ≠ c) (hi : k.Idle j) {number : Word}
    {args : Vector Word 5} (hn : ¬ k.Replaces (.perform c (.ecall number args)) c j) :
    k.KeepsRegs (k.ecall c number args).2 j := by
  cases hc : k.env? c with
  | none =>
    rw [ecall, hc]
    exact .of_env? rfl
  | some me =>
    have hout := congrArg Prod.fst (ecall_eq hc number args)
    have henter : (k.setRegisters c (me.regs.called number args)).env? j = k.env? j := env?_setRegisters_of_ne _ _ hj.symm
    have hk₀ := hk.setRegisters c (me.regs.called number args)
    rw [ecall_eq hc]
    refine KeepsRegs.trans ?_ (.of_env? (env?_conclude hj))
    refine KeepsRegs.trans (.of_env? henter) ?_
    rcases SyscallTable.dispatch_standard number.toNat (k.setRegisters c (me.regs.called number args)) c
      (argsOf (me.regs.called number args)) with hd | ⟨s, hs, hd⟩
    · rw [hd]
      exact .of_env? rfl
    · rw [hd] at hout ⊢
      refine .effect (Syscall.effect _ c _ hk₀ s) hk₀ (by rwa [henter]) hj ?_ fun t hset hr ha htj => hn ⟨hj.symm, ?_, ?_⟩
      · intro e he
        rw [henter] at he
        exact hi e he
      · subst hset
        obtain ⟨i, hi, hmeant⟩ := meant_of_authorizeWord ha
        rw [word_argsOf_called _ _ _ (by decide)] at hi
        refine ⟨args, ⟨number, rfl, hs.symm⟩, ?_⟩
        rw [argument_eq_getElem (by decide), hi]
        unfold EnvId.meant at hmeant
        split at hmeant
        · exact absurd (hmeant.trans htj) hj.symm
        · rw [hmeant, htj]
      · subst hset
        have hc₀ : (k.setRegisters c (me.regs.called number args)).env? c ≠ none := by
          rw [env?_setRegisters, hc]
          simp
        have heff := Syscall.effect _ c (argsOf (me.regs.called number args)) hk₀ .envSetTrapframe
        rcases hx : Service.envSetTrapframe.handler (k.setRegisters c (me.regs.called number args)) c
          (argsOf (me.regs.called number args)) with ⟨r, k₁⟩
        rw [hx] at hr heff hout
        dsimp only at hr heff
        subst hr
        rw [conclude, answer_of_env? (env?_of_effect heff hk₀ hc₀ fun h => by cases h)] at hout
        exact congrArg some hout

end Kernel
end Exokernel
