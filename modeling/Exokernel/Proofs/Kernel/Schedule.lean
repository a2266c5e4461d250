import Exokernel.Proofs.Kernel.Accounting
import Exokernel.Proofs.Scheduler
/-!
# Who may be scheduled

Whoever waits in the run queue or holds the processor is live and may run.  That holds in every state that a kernel can
come to (`Reachable.scheduled`), so what the scheduler gives the processor to was waiting for it.
-/
namespace Exokernel

theorem EnvStatus.isRunnable_iff {s : EnvStatus} : s.isRunnable ↔ s = .runnable ∨ s = .running := by
  simp [isRunnable]

namespace Kernel

variable {k k' : Kernel} {i j : EnvId} {e : Env}

/-- The environment is live and may run. -/
def Ready (k : Kernel) (i : EnvId) : Prop := ∃ e, k.env? i = some e ∧ e.status.isRunnable

/-- **Only the ready are scheduled.** -/
def Scheduled (k : Kernel) : Prop := ∀ i, k.scheduler.Holds i → k.Ready i

theorem env?_setStatus_of_ne (s : EnvStatus) (h : i ≠ j) : (k.setStatus i s).env? j = k.env? j :=
  env?_modifyEnv_of_ne (f := fun e => { e with status := s }) (fun _ => rfl) h

theorem Ready.congr (h : k.Ready i) (he : k'.env? i = k.env? i) : k'.Ready i := by
  rw [Ready, he]
  exact h

theorem Ready.modifyEnv (h : k.Ready i) {f : Env → Env} (hf : ∀ e, (f e).id = e.id)
    (hs : ∀ e, e.status.isRunnable → (f e).status.isRunnable) (t : EnvId) : (k.modifyEnv t f).Ready i := by
  obtain ⟨e, he, hr⟩ := h
  rw [Ready, env?_modifyEnv hf, he]
  refine ⟨_, rfl, ?_⟩
  split
  · exact hs e hr
  · exact hr

theorem Ready.modifyEnv_of_ne (h : k.Ready i) {f : Env → Env} (hf : ∀ e, (f e).id = e.id) {t : EnvId} (hne : i ≠ t) :
    (k.modifyEnv t f).Ready i := by
  obtain ⟨e, he, hr⟩ := h
  refine ⟨e, ?_, hr⟩
  rw [env?_modifyEnv hf, he, Option.map_some, if_neg hne.symm]

theorem Ready.preempt (h : k.Ready i) : k.preempt.Ready i := by
  unfold Kernel.preempt
  split
  · exact h
  next j _ =>
    refine h.modifyEnv (f := fun e => if e.status = .running then { e with status := .runnable } else e)
      (fun e => ?_) (fun e h => ?_) j
    · split <;> rfl
    · split
      · rfl
      · exact h

theorem ready_modifyEnv {f : Env → Env} (hf : ∀ e, (f e).id = e.id) (hs : ∀ e, (f e).status.isRunnable)
    (h : k.env? i = some e) : (k.modifyEnv i f).Ready i := by
  refine ⟨f e, ?_, hs e⟩
  rw [env?_modifyEnv hf, h, Option.map_some, if_pos rfl]

namespace Scheduled

theorem of (hk : k.Scheduled) (hs : ∀ j, k'.scheduler.Holds j → k.scheduler.Holds j ∨ k'.Ready j)
    (hr : ∀ j, k'.scheduler.Holds j → k.Ready j → k'.Ready j) : k'.Scheduled := fun j hj =>
  (hs j hj).elim (fun h => hr j hj (hk j h)) id

theorem of_bare (hk : k.Scheduled) (h : k'.bare = k.bare) : k'.Scheduled := by
  have hs : k'.scheduler = k.scheduler := show k'.bare.scheduler = k.scheduler by rw [h]; rfl
  exact hk.of (fun j hj => Or.inl (by rwa [hs] at hj)) fun j _ hr => hr.congr (env?_congr (envs_of_bare h) j)

theorem log (hk : k.Scheduled) (l : Line) : (k.log l).Scheduled := hk

theorem modifyEnv (hk : k.Scheduled) {f : Env → Env} (hf : ∀ e, (f e).id = e.id)
    (hs : ∀ e, e.status.isRunnable → (f e).status.isRunnable) (i : EnvId) : (k.modifyEnv i f).Scheduled :=
  hk.of (fun _ hj => Or.inl hj) fun _ _ hr => hr.modifyEnv hf hs i

theorem setRegisters (hk : k.Scheduled) (i : EnvId) (r : Registers) : (k.setRegisters i r).Scheduled :=
  hk.modifyEnv (f := fun e => { e with regs := r }) (fun _ => rfl) (fun _ h => h) i

theorem setRunning (hk : k.Scheduled) (i : EnvId) : (k.setStatus i .running).Scheduled :=
  hk.modifyEnv (f := fun e => { e with status := .running }) (fun _ => rfl) (fun _ _ => rfl) i

theorem enqueue (hk : k.Scheduled) {f : Env → Env} (hf : ∀ e, (f e).id = e.id) (hs : ∀ e, (f e).status.isRunnable)
    (h : k.env? i = some e) :
    Scheduled { k.modifyEnv i f with scheduler := k.scheduler.enqueue i } := by
  refine hk.of (fun j hj => ?_) fun j _ hr => hr.modifyEnv hf (fun e _ => hs e) i
  rcases Scheduler.holds_enqueue.1 hj with hj | rfl
  · exact Or.inl hj
  · exact Or.inr (ready_modifyEnv hf hs h)

theorem remove (hk : k.Scheduled) {f : Env → Env} (hf : ∀ e, (f e).id = e.id) (i : EnvId) :
    Scheduled { k.modifyEnv i f with scheduler := k.scheduler.remove i } :=
  hk.of (fun _ hj => Or.inl (Scheduler.holds_remove.1 hj).1)
    fun _ hj hr => hr.modifyEnv_of_ne hf (Scheduler.holds_remove.1 hj).2

theorem mapInto (hk : k.Scheduled) {f : Frame} {v : VirtAddr} {p : Perm} (h : k.mapInto e f v p = (.ok (), k')) :
    k'.Scheduled := by
  obtain ⟨s, m, -, rfl⟩ := mapInto_ok h
  exact modifyEnv (k := { k with machine := m }) hk (f := fun e => { e with space := s }) (fun _ => rfl) (fun _ h => h) _

theorem unmapFrom (hk : k.Scheduled) (e : Env) (v : VirtAddr) : (k.unmapFrom e v).Scheduled := by
  unfold Kernel.unmapFrom
  cases hu : e.space.unmap k.machine v with
  | mk s m =>
    exact modifyEnv (k := { k with machine := m }) hk (f := fun e => { e with space := s }) (fun _ => rfl)
      (fun _ h => h) _

theorem createEnv (hk : k.Scheduled) {H : List Frame} (hs : k.Sound H) {parent : Option EnvId}
    (h : k.createEnv parent = (.ok i, k')) : k'.Scheduled := by
  obtain ⟨hn, f, hf⟩ := env?_createEnv hs h
  have hsch : k'.scheduler = k.scheduler := by
    obtain ⟨n, f, m, -, -, -, rfl⟩ := createEnv_ok h
    rfl
  refine hk.of (fun j hj => Or.inl (by rwa [hsch] at hj)) fun j _ hr => hr.congr ?_
  rw [hf, if_neg]
  rintro rfl
  obtain ⟨e, he, -⟩ := hr
  rw [hn] at he
  cases he

theorem destroyEnv (hk : k.Scheduled) (i : EnvId) : (k.destroyEnv i).2.Scheduled := by
  rcases h : k.destroyEnv i with ⟨err | u, k'⟩
  · cases he : k.env? i with
    | none => rw [destroyEnv_of_env?_none he] at h; cases h; exact hk
    | some e => rw [destroyEnv_of_env? he] at h; cases h
  · have hsch : k'.scheduler = k.scheduler.remove i := by
      obtain ⟨e, -, rfl⟩ := destroyEnv_ok h
      rfl
    refine hk.of (fun j hj => Or.inl ?_) fun j hj hr => hr.congr ?_
    · rw [hsch] at hj
      exact (Scheduler.holds_remove.1 hj).1
    · rw [hsch] at hj
      rw [env?_destroyEnv h, if_neg (Scheduler.holds_remove.1 hj).2.symm]

/-! ## Calls -/

/-- **Every call of a service schedules only the ready.** -/
theorem effect (hk : k.Scheduled) (hs : k.Sound []) {c : EnvId} {a : CallArgs} {s : Service}
    {r : Except SysError Word} (h : Syscall.Effect k c a s r k') : k'.Scheduled := by
  cases h with
  | refused hb => exact hk.of_bare hb
  | named => exact hk
  | @destroyed t k₁ ht hd =>
    have h := hk.destroyEnv t.id
    rw [hd] at h
    exact h.log _
  | @allocated t v p f k₁ k₂ ha hf hm =>
    obtain ⟨m, -, rfl⟩ := allocFrame_some hf
    have h : k₂.Scheduled := mapInto (k := { k with machine := m }) hk hm
    exact h
  | mapped ha hm => exact hk.mapInto hm
  | unmapped ha => exact hk.unmapFrom _ _
  | forked hp hc => exact ((hk.createEnv hs hc).setRegisters _ _).log _
  | @statusSet t s ha =>
    obtain ⟨-, hau, hst⟩ := Syscall.envSetStatusArgs_ok ha
    obtain ⟨ht, -⟩ := Syscall.authorizeWord_ok hau
    rcases hst with rfl | rfl
    · exact hk.enqueue (f := fun e => { e with status := .runnable }) (fun _ => rfl) (fun _ => rfl) ht
    · exact hk.remove (f := fun e => { e with status := .notRunnable }) (fun _ => rfl) t.id
  | registersSet ha => exact hk.setRegisters _ _
  | upcallSet ha => exact hk.modifyEnv (f := fun e => { e with upcall := some (a.word 1) }) (fun _ => rfl) (fun _ h => h) _
  | passed he hq =>
    exact hk.of (fun _ hj => Or.inl (Scheduler.holds_yieldCurrent.1 hj)) fun _ _ hr =>
      hr.modifyEnv (f := fun e => { e with status := .runnable }) (fun _ => rfl) (fun _ _ => rfl) c
  | @yielded e next rest he hq =>
    have h : Scheduled { k.setStatus c .runnable with scheduler := { queue := rest, current := some next } } :=
      hk.of (fun _ hj => Or.inl (Scheduler.holds_yieldCurrent.1 (Scheduler.holds_of_queue_eq hq hj))) fun _ _ hr =>
        hr.modifyEnv (f := fun e => { e with status := .runnable }) (fun _ => rfl) (fun _ _ => rfl) c
    exact h.setRunning next
  | @sent req t offered p k₁ ha hc ht =>
    obtain ⟨hr, -, -⟩ := Syscall.checkSend_ok hc
    obtain ⟨hk₁, e, he⟩ : k₁.Scheduled ∧ ∃ e, k₁.env? t.id = some e := by
      rcases Syscall.transfer_ok ht with ⟨rfl, -, -⟩ | ⟨f, v, -, -, hm⟩
      · exact ⟨hk, t, hr⟩
      · obtain ⟨-, s, -, he⟩ := env?_mapInto hm
        exact ⟨hk.mapInto hm, _, by rw [he, hr]; rfl⟩
    exact (hk₁.enqueue (f := fun e =>
      { e with mailbox := e.mailbox.deliver c req.value p, regs := e.regs.setA0 0, status := .runnable })
      (fun _ => rfl) (fun _ => rfl) he).log _
  | waiting ha he =>
    exact hk.remove (f := fun e => { e with mailbox := e.mailbox.await _, status := .notRunnable }) (fun _ => rfl) c

theorem ecall (hk : k.Scheduled) (hs : k.Sound []) (c : EnvId) (number : Word) (args : Vector Word 5) :
    (k.ecall c number args).2.Scheduled :=
  ecall_induction hs c number args hk (fun e _ => hk.setRegisters c (e.regs.called number args))
    (fun e _ _ _ _ h => (hk.setRegisters c (e.regs.called number args)).effect (hs.setRegisters c _) h)
    (fun _ l hk => hk.log l) fun _ ret hk =>
      hk.modifyEnv (f := fun e => { e with regs := e.regs.setA0 ret }) (fun _ => rfl) (fun _ h => h) c

/-! ## Other events -/

theorem kill (hk : k.Scheduled) (i : EnvId) : (k.kill i).Scheduled := by
  have hd := hk.destroyEnv i
  unfold Kernel.kill
  split
  next h => rw [h] at hd; exact hd.log _
  next h => rw [h] at hd; exact hd

theorem raise (hk : k.Scheduled) (i : EnvId) (f : PageFault) : (k.raise i f).2.Scheduled := by
  have hk := hk.log (.faulted i f)
  unfold Kernel.raise deliverFault
  split
  · exact hk
  · split
    · exact (hk.log _).kill i
    · split
      · exact (hk.log _).kill i
      · dsimp only
        split
        · exact (hk.log _).kill i
        next m hw =>
          have h : Scheduled { k.log (.faulted i f) with machine := m } := hk
          exact (h.setRegisters _ _).log _

theorem perform (hk : k.Scheduled) (hs : k.Sound []) (i : EnvId) (op : CpuOp) : (k.perform i op).Scheduled :=
  perform_induction k i op hk (fun _ f _ => hk.raise i f) (fun _ _ _ _ _ _ => hk) (fun r _ => hk.setRegisters i r.forUser)
    fun number args _ => hk.ecall hs i number args

theorem remapped (hk : k.Scheduled) (h : k.Remapped k' i) : k'.Scheduled := by
  refine hk.of (fun j hj => Or.inl (by rwa [h.scheduler] at hj)) fun j _ hr => ?_
  by_cases hj : j = i
  · subst hj
    obtain ⟨e, he, hst⟩ := hr
    obtain ⟨s, hs⟩ := h.self e he
    exact ⟨_, hs, hst⟩
  · exact hr.congr (h.other j hj)

/-- **A program that has been started waits for the processor.** -/
theorem spawn (hk : k.Scheduled) (hs : k.Sound []) {img : Image} {r : Except SpawnError Spawned}
    (h : k.spawn img = (r, k')) : k'.Scheduled := by
  cases r with
  | error err =>
    rcases spawn_error h with rfl | ⟨e, hc⟩ | ⟨i, brk, k₁, k₂, -, hc, hl, rfl⟩
    · exact hk
    · exact hk.of_bare (bare_createEnv_error hc)
    · exact (((hk.createEnv hs hc).remapped (.loadImage_error hl)).log _).destroyEnv i
  | ok s =>
    obtain ⟨k₁, k₂, -, hc, hl, rfl⟩ := spawn_ok h
    obtain ⟨k₃, hr, rfl⟩ := Remapped.loadImage_ok hl
    have hk₁ := hk.createEnv hs hc
    obtain ⟨-, f, hf⟩ := env?_createEnv hs hc
    obtain ⟨sp, he⟩ := hr.self _ (by rw [hf, if_pos rfl])
    exact ((hk₁.remapped hr).enqueue (f := fun e => { e with
      regs := { e.regs.setSp stackTop.toUInt64 with sepc := textBase.toUInt64 }, status := .runnable })
      (fun _ => rfl) (fun _ => rfl) he).log _

theorem preempt (hk : k.Scheduled) : k.preempt.Scheduled := by
  refine hk.of (fun j hj => Or.inl ?_) fun _ _ hr => hr.preempt
  unfold Kernel.preempt at hj
  split at hj
  · exact hj
  · exact Scheduler.holds_yieldCurrent.1 hj

theorem scheduleNext (hk : k.Scheduled) : k.scheduleNext.2.Scheduled := by
  have hp := hk.preempt
  unfold Kernel.scheduleNext Scheduler.scheduleNext
  dsimp only
  cases hq : k.preempt.scheduler.queue with
  | nil => exact hp
  | cons i rest =>
    have h : Scheduled { k.preempt with scheduler := { queue := rest, current := some i } } :=
      hp.of (fun _ hj => Or.inl (Scheduler.holds_of_queue_eq hq hj)) fun _ _ hr => hr
    exact h.setRunning i

theorem dispatch (hk : k.Scheduled) (h : k.dispatch i = .ok k') : k'.Scheduled := by
  obtain ⟨e, he, hr, ⟨-, rfl⟩ | ⟨-, rfl⟩⟩ := dispatch_ok h
  · exact hk.setRunning i
  · have hi : k.preempt.Ready i := Ready.preempt ⟨e, he, hr⟩
    refine setRunning ?_ i
    refine hk.preempt.of (fun j hj => ?_) fun _ _ hr => hr
    rcases Scheduler.holds_setCurrent.1 hj with hj | rfl
    · exact Or.inl (Or.inl hj)
    · exact Or.inr hi

theorem step (hk : k.Scheduled) (hs : k.Sound []) (event : Event) : (k.step event).Scheduled := by
  cases event with
  | spawn img => exact hk.spawn hs (Prod.eta (k.spawn img)).symm
  | destroyEnv i => exact hk.destroyEnv i
  | scheduleNext => exact hk.scheduleNext
  | dispatch i =>
    unfold Kernel.step
    dsimp only
    split
    · exact hk
    next h => exact hk.dispatch h
  | perform i op => exact hk.perform hs i op
  | failAfter n => exact hk.of_bare (bare_failAfter k n)
  | clearFailure => exact hk.of_bare (bare_clearFailure k)

end Scheduled

/-- **In every state that a kernel can come to, only the ready are scheduled.** -/
theorem Reachable.scheduled (h : k.Reachable) : k.Scheduled := by
  induction h with
  | boot h =>
    intro i hi
    rw [(boot_empty h).1] at hi
    rcases hi with hi | hi <;> cases hi
  | step hr event ih => exact ih.step hr.sound event

end Kernel
end Exokernel
