import Exokernel.Proofs.Kernel.Bystander
import Exokernel.Proofs.User.Fork
/-!
# Half way

A program that repairs a fault or makes a child takes the processor, looks after its memory and that of the child, and
gives up where a step fails.  However far it comes, nobody else comes or goes, runs or waits for it: `Kernel.Works` says
so of every way that is gone in part, up to the last step of a fork, which lets the child run.
-/
namespace Exokernel

/-- The services by which a program looks after memory and faults. -/
def Service.tends : Service → Bool
  | pageAlloc | pageMap | pageUnmap | envSetPgfaultUpcall => true
  | _ => false

namespace Kernel

variable {k k' k₁ : Kernel} {i j c t : EnvId} {e : Env} {x : Call} {r : Except Errno Word} {a va : Word} {len : Nat}

/-! ## Nobody moves -/

/-- **Everybody is where they were and does what they did**, whatever becomes of memory and registers. -/
structure Still (k k' : Kernel) : Prop where
  roster : k'.roster = k.roster
  tags : k.SameTags k'

namespace Still

theorem refl (k : Kernel) : k.Still k := ⟨rfl, .refl k⟩

theorem trans (h : k.Still k₁) (h' : k₁.Still k') : k.Still k' := ⟨h'.roster.trans h.roster, h.tags.trans h'.tags⟩

theorem of_bare (h : k'.bare = k.bare) : k.Still k' := ⟨roster_of_bare h, .of_bare h⟩

theorem log (k : Kernel) (l : Line) : k.Still (k.log l) := of_bare (bare_log k l)

theorem setRegisters (k : Kernel) (i : EnvId) (r : Registers) : k.Still (k.setRegisters i r) :=
  ⟨roster_setRegisters k i r, .setRegisters k i r⟩

theorem mapInto {f : Frame} {v : VirtAddr} {p : Perm} (h : k.mapInto e f v p = (.ok (), k')) : k.Still k' :=
  ⟨roster_mapInto h, .mapInto h⟩

theorem answered (k : Kernel) (i : EnvId) (ret : Word) :
    k.Still (k.modifyEnv i fun e => { e with regs := e.regs.setA0 ret }) :=
  ⟨roster_setA0 k i ret, .modifyEnv k i (f := fun e => { e with regs := e.regs.setA0 ret }) (fun _ => rfl) fun _ => rfl⟩

end Still

/-- **What a call keeps**, as `ecall_induction` has it, with what the call gives if its service succeeds. -/
theorem call_induction {Q : Kernel → Prop} (hk : k.Sound []) (i : EnvId) (x : Call) (nobody : Q k)
    (served : ∀ e r k', k.env? i = some e →
      Syscall.Effect (k.setRegisters i (e.regs.called x.service.number.toUInt64 x.args)) i
        (argsOf (e.regs.called x.service.number.toUInt64 x.args)) x.service r k' →
      (∀ ret, r = .ok ret → k'.env? i ≠ none → (k.call i x).1 = Errno.decode ret) → Q k')
    (logged : ∀ k l, Q k → Q (k.log l))
    (answered : ∀ k ret, Q k → Q (k.modifyEnv i fun e => { e with regs := e.regs.setA0 ret })) :
    Q (k.call i x).2 := by
  have settled (y : Ecall × Kernel) (h : Q y.2) : Q (settle i x y).2 := by
    rcases settle_cases i x y with hs | hs
    · rwa [hs]
    · rw [hs]
      exact logged _ _ h
  rw [call_eq]
  refine settled _ ?_
  cases he : k.env? i with
  | none =>
    rw [ecall, he]
    exact nobody
  | some e =>
    have hn : x.service.number.toUInt64.toNat = x.service.number := by cases x <;> rfl
    have hcall := call_eq k i x
    rw [ecall_eq he, hn, SyscallTable.dispatch_number] at hcall ⊢
    rcases hx : x.service.handler (k.setRegisters i (e.regs.called x.service.number.toUInt64 x.args)) i
      (argsOf (e.regs.called x.service.number.toUInt64 x.args)) with ⟨out, k₁⟩
    rw [hx] at hcall
    refine conclude_induction i _ (served e out k₁ he (Syscall.effect_of_handler (hk.setRegisters i _) hx) ?_) logged
      answered
    rintro ret rfl hlive
    rw [hcall, conclude, answer_of_env? hlive]
    rfl

/-- **Nobody moves when a program looks after memory.** -/
theorem call_still (hk : k.Sound []) (hx : x.service.tends) (h : k.call i x = (r, k')) : k.Still k' := by
  have hq : k.Still (k.call i x).2 := by
    refine call_induction hk i x (.refl k) (fun e out k₁ _ heff _ => ?_) (fun _ l hs => hs.trans (.log _ l))
      fun _ ret hs => hs.trans (.answered _ i ret)
    refine (Still.setRegisters k i (e.regs.called x.service.number.toUInt64 x.args)).trans ?_
    generalize k.setRegisters i (e.regs.called x.service.number.toUInt64 x.args) = k₀ at heff ⊢
    generalize argsOf (e.regs.called x.service.number.toUInt64 x.args) = a at heff
    generalize x.service = s at heff hx
    cases heff with
    | refused hb => exact .of_bare hb
    | @allocated te v p f k₂ k₃ ha hf hm =>
      obtain ⟨m, -, rfl⟩ := allocFrame_some hf
      have hstill := Still.mapInto hm
      exact ⟨hstill.roster, hstill.tags⟩
    | mapped ha hm => exact .mapInto hm
    | unmapped ha => exact ⟨roster_unmapFrom k₀ _ _, .unmapFrom k₀ _ _⟩
    | upcallSet ha =>
      exact ⟨roster_modifyEnv_eq (f := fun e => { e with upcall := some (a.word 1) }) (fun _ => rfl) fun _ => rfl,
        .modifyEnv k₀ _ (f := fun e => { e with upcall := some (a.word 1) }) (fun _ => rfl) fun _ => rfl⟩
    | _ => cases hx
  rwa [h] at hq

/-- Nor when it may not let another run. -/
theorem call_setStatus_still {err : Errno} {s : EnvStatus} (hk : k.Sound [])
    (h : k.call i (.setStatus t s) = (.error err, k')) : k.Still k' := by
  have hq : k.Still (k.call i (.setStatus t s)).2 := by
    refine call_induction hk i _ (.refl k) (fun e out k₁ he heff hout => ?_) (fun _ l hs => hs.trans (.log _ l))
      fun _ ret hs => hs.trans (.answered _ i ret)
    refine (Still.setRegisters k i
      (e.regs.called (Call.setStatus t s).service.number.toUInt64 (Call.setStatus t s).args)).trans ?_
    generalize hset : k.setRegisters i
      (e.regs.called (Call.setStatus t s).service.number.toUInt64 (Call.setStatus t s).args) = k₀ at heff ⊢
    have hlive : k₀.env? i ≠ none := by
      rw [← hset, env?_setRegisters, he]
      simp
    cases heff with
    | refused hb => exact .of_bare hb
    | statusSet ha =>
      rw [h] at hout
      have hdone := hout 0 rfl (env?_of_sameTags (.setStatus k₀ _ _) hlive)
      cases hdone
  rwa [h] at hq

/-- **A fault moves nobody**, unless it is the end of the program. -/
theorem raise_still {f : PageFault} {tr : Trap} (he : k.env? i = some e) (h : k.raise i f = (tr, k')) :
    (∃ entry record, tr = .upcall entry record ∧ k.Still k') ∨
      tr = .killed ∧ ∃ k₁ : Kernel, k₁.bare = k.bare ∧ k₁.destroyEnv i = (.ok (), k') := by
  rcases raise_cases he h with ⟨rfl, k₁, hb, rfl⟩ | ⟨entry, record, k₁, m, -, -, hb, -, rfl, rfl⟩
  · have he₁ := (env?_congr (envs_of_bare hb) i).trans he
    rw [destroyEnv_of_env? he₁]
    exact Or.inr ⟨rfl, k₁, hb, destroyEnv_of_env? he₁⟩
  · have hs : Still { k₁ with machine := m } _ :=
      (Still.setRegisters _ i { e.regs.setSp record.toUInt64 with sepc := entry }).trans (.log _ (.upcalled i entry record))
    have hb := Still.of_bare hb
    exact Or.inl ⟨entry, _, rfl, hs.roster.trans hb.roster, hb.tags.trans hs.tags⟩

/-- **An access moves nobody**, unless it is the end of the program. -/
theorem perform_still (i : EnvId) {op : CpuOp} (hop : ∀ number args, op ≠ .ecall number args) :
    k.Still (k.perform i op) ∨ ∃ k₁ : Kernel, k₁.bare = k.bare ∧ k₁.destroyEnv i = (.ok (), k.perform i op) := by
  refine perform_induction
    (Q := fun k' => k.Still k' ∨ ∃ k₁ : Kernel, k₁.bare = k.bare ∧ k₁.destroyEnv i = (.ok (), k')) k i op
    (Or.inl (.refl k)) (fun e f he => ?_) (fun _ _ _ _ _ _ => Or.inl ⟨rfl, .refl k⟩)
    (fun r _ => Or.inl (.setRegisters k i _)) fun number args h => absurd h (hop number args)
  rcases raise_still he (Prod.eta (k.raise i f)).symm with ⟨_, _, -, hs⟩ | ⟨-, hd⟩
  · exact Or.inl hs
  · exact Or.inr hd

/-! ## Ways -/

/-- **A way that a program goes**: it takes the processor, looks after memory, and may come to its end by a fault. -/
inductive Works (i : EnvId) (k : Kernel) : Kernel → Prop where
  | rested : Works i k k
  | entered {k₁ k' : Kernel} (h : Works i k k₁) (hd : k₁.dispatch i = .ok k') : Works i k k'
  | tended {k₁ k' : Kernel} (h : Works i k k₁) (hs : k₁.Still k') (hk : k'.Sound []) : Works i k k'
  | ended {k₁ k' : Kernel} (h : Works i k k₁) (hd : k₁.destroyEnv i = (.ok (), k')) : Works i k k'

/-- Whoever is on a roster is there. -/
theorem env?_of_roster (h : k'.roster = k.roster) (he : k.env? i = some e) :
    ∃ e', k'.env? i = some e' ∧ e'.stance = e.stance := by
  have hstance := stances_of_env? he
  rw [← h] at hstance
  exact env?_of_stances hstance

/-- Whoever is there may run. -/
def Able (k : Kernel) (i : EnvId) : Prop := ∀ e, k.env? i = some e → e.status.isRunnable

theorem Able.of_roster (h : k.Able i) (hr : k'.roster = k.roster) : k'.Able i := by
  intro e he
  obtain ⟨e', he', hs⟩ := env?_of_roster hr.symm he
  have hstatus : e'.status = e.status := congrArg Stance.status hs
  rw [← hstatus]
  exact h e' he'

theorem Able.alive (h : k.Able i) : k.env? i = none ∨ ∃ sp, k.Runs i sp := by
  cases he : k.env? i with
  | none => exact Or.inl rfl
  | some e => exact Or.inr ⟨_, e, he, h e he, rfl⟩

theorem able_of_runs {sp : Word} (h : k.Runs i sp) : k.Able i := by
  obtain ⟨e, he, hs, -⟩ := h
  intro e' he'
  obtain rfl : e = e' := Option.some.inj (he.symm.trans he')
  exact hs

namespace Works

theorem trans (h : k.Works i k₁) (h' : k₁.Works i k') : k.Works i k' := by
  induction h' with
  | rested => exact h
  | entered _ hd ih => exact .entered ih hd
  | tended _ hs hk ih => exact .tended ih hs hk
  | ended _ hd ih => exact .ended ih hd

theorem sound (h : k.Works i k') (hk : k.Sound []) : k'.Sound [] := by
  induction h with
  | rested => exact hk
  | entered _ hd ih => exact ih.dispatch hd
  | tended _ _ hk' => exact hk'
  | ended _ hd ih =>
    have hk' := ih.destroyEnv i
    rwa [hd] at hk'

/-- **On its way nothing keeps the program from running on.** -/
theorem able (h : k.Works i k') (ha : k.Able i) : k'.Able i := by
  induction h with
  | rested => exact ha
  | entered _ hd =>
    obtain ⟨sp, hr⟩ := runs_of_dispatch hd
    exact able_of_runs hr
  | tended _ hs _ ih => exact ih.of_roster hs.roster
  | ended _ hd =>
    intro e he
    rw [env?_destroyEnv hd, if_pos rfl] at he
    cases he

theorem scheduled (h : k.Works i k') (hk : k.Scheduled) : k'.Scheduled := by
  induction h with
  | rested => exact hk
  | entered _ hd ih => exact ih.dispatch hd
  | @tended k₁ k₂ _ hs _ ih =>
    intro j hj
    have hsch : k₂.scheduler = k₁.scheduler := congrArg Roster.scheduler hs.roster
    rw [hsch] at hj
    obtain ⟨e, he, hr⟩ := ih j hj
    obtain ⟨e', he', hst⟩ := env?_of_roster hs.roster he
    have hstatus : e'.status = e.status := congrArg Stance.status hst
    exact ⟨e', he', by rwa [hstatus]⟩
  | ended _ hd ih =>
    have hk' := ih.destroyEnv i
    rwa [hd] at hk'

/-- **Nobody is made on the way.** -/
theorem tells (h : k.Works i k') : k.Tells k' 0 := by
  induction h with
  | rested => exact .of_sameTags (.refl k) 0
  | entered _ hd ih => exact ih.sameTags (.dispatch hd)
  | tended _ hs _ ih => exact ih.sameTags hs.tags
  | @ended k₁ k₂ _ hd ih =>
    have ht := Tells.destroyEnv k₁ i 0
    rw [hd] at ht
    exact ih.trans ht

/-- **Whoever is not to run stays so**: a child that is being filled. -/
theorem stays (h : k.Works i k') (hne : i ≠ c) (he : k.env? c = some e) (hr : ¬ e.status.isRunnable) :
    ∃ e', k'.env? c = some e' ∧ e'.stance = e.stance ∧ e'.parent = e.parent := by
  induction h with
  | rested => exact ⟨e, he, rfl, rfl⟩
  | entered _ hd ih =>
    obtain ⟨e₁, he₁, hs, hp⟩ := ih
    have hstatus : e₁.status = e.status := congrArg Stance.status hs
    obtain ⟨e₂, he₂, hres⟩ := Reschedules.dispatch hd c e₁ he₁
    rw [hres.eq_of_not_runnable (by rwa [hstatus])] at he₂
    exact ⟨e₁, he₂, hs, hp⟩
  | @tended k₁ k₂ _ hst _ ih =>
    obtain ⟨e₁, he₁, hs, hp⟩ := ih
    obtain ⟨e₂, he₂, hs₂⟩ := env?_of_roster hst.roster he₁
    have hp₂ : (k₂.env? c).map Env.parent = (k₁.env? c).map Env.parent := EnvTable.parent_of_sameTags hst.tags c
    rw [he₂, he₁] at hp₂
    exact ⟨e₂, he₂, hs₂.trans hs, (Option.some.inj hp₂).trans hp⟩
  | ended _ hd ih =>
    obtain ⟨e₁, he₁, hs, hp⟩ := ih
    exact ⟨e₁, (env?_destroyEnv hd c).trans ((if_neg hne).trans he₁), hs, hp⟩

end Works

/-! ## Steps of user code -/

theorem call_works (hk : k.Sound []) (hx : x.service.tends) (h : k.call i x = (r, k')) : k.Works i k' := by
  have hk' := hk.call i x
  rw [h] at hk'
  exact .tended .rested (call_still hk hx h) hk'

/-- A program that ends itself. -/
theorem call_envDestroy_works (hk : k.Sound []) (h : k.call i (.envDestroy .self) = (r, k')) : k.Works i k' := by
  have hq : k.Works i (k.call i (.envDestroy .self)).2 := by
    refine call_induction hk i _ .rested (fun e out k₁ _ heff _ => ?_)
      (fun k₁ l hw => .tended hw (.log k₁ l) ((hw.sound hk).log l)) fun k₁ ret hw =>
        .tended hw (.answered k₁ i ret)
          ((hw.sound hk).modifyEnv (f := fun e => { e with regs := e.regs.setA0 ret }) (fun _ => rfl) i)
    have hk₀ := hk.setRegisters i
      (e.regs.called (Call.envDestroy .self).service.number.toUInt64 (Call.envDestroy .self).args)
    have hw : k.Works i _ := .tended .rested (.setRegisters k i
      (e.regs.called (Call.envDestroy .self).service.number.toUInt64 (Call.envDestroy .self).args)) hk₀
    have hk₁ := hk₀.effect heff
    cases heff with
    | refused hb => exact .tended hw (.of_bare hb) hk₁
    | @destroyed t k₂ ht hd =>
      rw [word_argsOf_called _ _ _ (by decide)] at ht
      obtain rfl : t.id = i := Syscall.id_of_authorizeWord ht
      exact .tended (.ended hw hd) (.log k₂ _) hk₁
  rwa [h] at hq

theorem perform_works (hk : k.Sound []) (op : CpuOp) (hop : ∀ number args, op ≠ .ecall number args) :
    k.Works i (k.perform i op) := by
  rcases perform_still i hop with hs | ⟨k₁, hb, hd⟩
  · exact .tended .rested hs (hk.perform i op)
  · exact .ended (.tended .rested (.of_bare hb) (hk.of_bare hb)) hd

theorem load_works (hk : k.Sound []) {r : Except Trap Bytes} (h : k.load i a len = (r, k')) : k.Works i k' := by
  have hw := perform_works (i := i) hk (.load a len) fun _ _ h => by cases h
  rw [perform, h] at hw
  exact hw

theorem store_works (hk : k.Sound []) {data : Bytes} {r : Except Trap Unit} (h : k.store i a data = (r, k')) :
    k.Works i k' := by
  have hw := perform_works (i := i) hk (.store a data) fun _ _ h => by cases h
  rw [perform, h] at hw
  exact hw

theorem resumeWith_works (hk : k.Sound []) {regs : Registers} {r : Except Trap Unit}
    (h : k.resumeWith i regs = (r, k')) : k.Works i k' := by
  have hw := perform_works (i := i) hk (.resumeWith regs) fun _ _ h => by cases h
  rw [perform, h] at hw
  exact hw

theorem callAll_works {calls : List Call} (hk : k.Sound []) (hc : ∀ x ∈ calls, x.service.tends) {r : Except Errno Unit}
    (h : k.callAll i calls = (r, k')) : k.Works i k' := by
  induction calls generalizing k with
  | nil =>
    cases h
    exact .rested
  | cons x rest ih =>
    rcases callAll_cons_cases h with ⟨err, hx, -⟩ | ⟨w, k₁, hx, h⟩
    all_goals have hw := call_works hk (hc x List.mem_cons_self) hx
    · exact hw
    · exact hw.trans (ih (hw.sound hk) (fun y hy => hc y (List.mem_cons_of_mem _ hy)) h)

/-- A copy by way of a scratch page, as far as it comes. -/
theorem copyVia_works (hk : k.Sound []) {s : Word} {r : Except Errno Unit} (h : k.copyVia i s va t = (r, k')) :
    k.Works i k' := by
  rcases copyVia_steps h with ⟨err, h₁, -⟩ | ⟨w, k₁, h₁, h⟩
  · exact call_works hk rfl h₁
  have hw₁ := call_works hk rfl h₁
  rcases h with ⟨tr, h₂, -⟩ | ⟨bytes, k₂, h₂, h⟩
  · exact hw₁.trans (load_works (hw₁.sound hk) h₂)
  have hw₂ := hw₁.trans (load_works (hw₁.sound hk) h₂)
  rcases h with ⟨tr, h₃, -⟩ | ⟨k₃, h₃, h⟩
  · exact hw₂.trans (store_works (hw₂.sound hk) h₃)
  have hw₃ := hw₂.trans (store_works (hw₂.sound hk) h₃)
  refine hw₃.trans (callAll_works (hw₃.sound hk) ?_ h)
  simp [Call.service, Service.tends]

/-! ## Forks -/

theorem sharePageCalls_tend (child : EnvId) (va : Word) (p : Perm) : ∀ x ∈ sharePageCalls child va p, x.service.tends := by
  unfold sharePageCalls
  split <;> simp [Call.service, Service.tends]

theorem sharePages_works {pages : List Nat} (hk : k.Sound []) {r : Except (ForkStep × Errno) Unit}
    (h : k.sharePages i c pages = (r, k')) : k.Works i k' := by
  induction pages generalizing k with
  | nil =>
    cases h
    exact .rested
  | cons a rest ih =>
    rcases sharePages_cons_cases h with ⟨-, h⟩ | ⟨q, -, ⟨err, hc, -⟩ | ⟨k₁, hc, h⟩⟩
    · exact ih hk h
    · exact callAll_works hk (sharePageCalls_tend c _ q) hc
    · have hw := callAll_works hk (sharePageCalls_tend c _ q) hc
      exact hw.trans (ih (hw.sound hk) h)

theorem copyStack_works {pages : List Nat} (hk : k.Sound []) {r : Except (ForkStep × Errno) Unit}
    (h : k.copyStack i c pages = (r, k')) : k.Works i k' := by
  induction pages generalizing k with
  | nil =>
    cases h
    exact .rested
  | cons a rest ih =>
    rcases copyStack_cons_cases h with ⟨-, h⟩ | ⟨q, -, ⟨err, hc, -⟩ | ⟨k₁, hc, h⟩⟩
    · exact ih hk h
    · exact copyVia_works hk hc
    · have hw := copyVia_works hk hc
      exact hw.trans (ih (hw.sound hk) h)

/-- **A child that cannot be started has not been.** -/
theorem startChild_works (hk : k.Sound []) {err : ForkStep × Errno} (h : k.startChild i c = (.error err, k')) :
    k.Works i k' := by
  rcases startChild_steps h with ⟨_, h₁, -⟩ | ⟨_, k₁, h₁, h⟩
  all_goals have hw₁ := call_works hk rfl h₁
  · exact hw₁
  rcases h with ⟨_, h₂, -⟩ | ⟨_, k₂, h₂, h⟩
  all_goals have hw₂ := hw₁.trans (call_works (hw₁.sound hk) rfl h₂)
  · exact hw₂
  obtain ⟨_, h₃, -⟩ | ⟨_, -, ⟨⟩⟩ := h
  exact .tended hw₂ (call_setStatus_still (hw₂.sound hk) h₃) (sound_of_call (hw₂.sound hk) h₃)

theorem populate_works (hk : k.Sound []) {brk : Word} {err : ForkStep × Errno}
    (h : k.populate i c brk = (.error err, k')) : k.Works i k' := by
  generalize hp : pageSteps textBase brk.toNat = pages
  rcases populate_steps hp h with ⟨_, h₁, -⟩ | ⟨k₁, h₁, h⟩
  all_goals have hw₁ := sharePages_works hk h₁
  · exact hw₁
  rcases h with ⟨_, -, rfl, -⟩ | ⟨regs, -, h⟩
  · exact hw₁
  rcases h with ⟨_, h₂, -⟩ | ⟨k₂, h₂, h⟩
  all_goals have hw₂ := hw₁.trans (copyStack_works (hw₁.sound hk) h₂)
  · exact hw₂
  · exact hw₂.trans (startChild_works (hw₂.sound hk) h)

end Kernel

namespace UserProcess

open Kernel

variable {p p' : UserProcess} {k k' : Kernel} {c : EnvId}

theorem enter_works {r : Except Errno Unit} (h : p.enter k = (r, k')) : k.Works p.env k' := by
  unfold enter at h
  split at h
  · cases h
    exact .rested
  rename_i hd
  cases h
  exact .entered .rested hd

/-- A panic, whether or not it is the end. -/
theorem fatal_works (hk : k.Sound []) (cause : UserPanic) : k.Works p.env (p.fatal k cause) := by
  have hlog (k : Kernel) (l : Line) (hk : k.Sound []) : k.Works p.env (k.log l) := .tended .rested (.log k l) (hk.log l)
  have hw₀ := hlog k (.userPanic p.env cause) hk
  unfold fatal
  rcases he : p.enter (k.log (.userPanic p.env cause)) with ⟨_ | _, k₁⟩
  all_goals have hw₁ := hw₀.trans (enter_works he)
  · exact hw₁
  dsimp only
  rcases hc : k₁.call p.env (.envDestroy .self) with ⟨err | w, k₂⟩
  all_goals have hw₂ := hw₁.trans (call_envDestroy_works (hw₁.sound hk) hc)
  · exact hw₂.trans (hlog k₂ _ (hw₂.sound hk))
  · exact hw₂

theorem prepareUpcall_works (hk : k.Sound []) {r : Except Errno Unit} (h : p.prepareUpcall k = (r, k')) :
    k.Works p.env k' := by
  rcases prepareUpcall_steps h with ⟨_, he, -⟩ | ⟨k₁, he, h⟩
  all_goals have hw := enter_works he
  · exact hw
  · refine hw.trans (callAll_works (hw.sound hk) ?_ h)
    simp [Call.service, Service.tends]

theorem setHandler_works (hk : k.Sound []) {f : FaultHandler} {r : Except Errno Unit}
    (h : p.setHandler k f = (r, p', k')) : p'.env = p.env ∧ k.Works p.env k' := by
  rcases setHandler_steps h with ⟨-, rfl, rfl | hp⟩ | ⟨_, hp, -, rfl⟩
  · exact ⟨rfl, .rested⟩
  · exact ⟨rfl, prepareUpcall_works hk hp⟩
  · exact ⟨rfl, prepareUpcall_works hk hp⟩

theorem populate_works (hk : k.Sound []) {err : ForkStep × Errno} (h : p.populate k c = (.error err, k')) :
    k.Works p.env k' := by
  unfold populate at h
  rcases he : p.enter k with ⟨_ | _, k₁⟩
  all_goals
    have hw := enter_works he
    rw [he] at h
  · cases h
    exact hw
  · exact hw.trans (Kernel.populate_works (hw.sound hk) h)

end UserProcess
end Exokernel
