import Exokernel.Proofs.Kernel.Orphan
import Exokernel.Proofs.User.Panic
/-!
# Forks that panic

A fork that cannot be completed ends the parent and leaves the child where it is, filled in part and never started.  From
then on the child is an orphan, and whatever happens it stays as it was left, unless it is ended from outside
(`orphan_never_runs`).
-/
namespace Exokernel

namespace Kernel

variable {k k' : Kernel} {i c : EnvId}

/-- What holds of every state that a kernel can come to, and of the states in the middle of what a program does. -/
structure Regular (k : Kernel) : Prop where
  sound : k.Sound []
  scheduled : k.Scheduled
  chronicled : k.Chronicled

theorem Reachable.regular (h : k.Reachable) : k.Regular := ⟨h.sound, h.scheduled, h.chronicled⟩

theorem Regular.works (h : k.Regular) (hw : k.Works i k') : k'.Regular :=
  ⟨hw.sound h.sound, hw.scheduled h.scheduled, h.chronicled.tells hw.tells⟩

theorem Regular.ecall (h : k.Regular) (i : EnvId) (number : Word) (args : Vector Word 5) :
    (k.ecall i number args).2.Regular :=
  ⟨h.sound.ecall i number args, h.scheduled.ecall h.sound i number args, h.chronicled.tells (.ecall h.sound i number args)⟩

/-- A call to fork that succeeds leaves a fresh child. -/
theorem env?_of_forked (hk : k.Sound []) (hi : k.env? i ≠ none) {a : CallArgs} {ret : Word}
    (h : Syscall.Effect k i a .exofork (.ok ret) k') :
    ∃ child parent f, ret = child.toWord ∧ child ≠ i ∧ k.env? i = some parent ∧
      k'.env? child = some { Env.fresh child (some i) ⟨.empty f⟩ with regs := parent.regs.setA0 0 } := by
  cases h with
  | @forked parent child k₁ hp hc =>
    obtain ⟨hnone, f, henv⟩ := env?_forked hk hc (parent.regs.setA0 0)
    have hne : child ≠ i := by
      rintro rfl
      exact hi hnone
    exact ⟨child, parent, f, rfl, hne, hp, (henv child).trans (if_pos rfl)⟩

/-- **A child is as new, but for the registers**: those of its parent at the call, with zero as the result. -/
theorem callForId_exofork_child (hk : k.Sound []) (h : k.callForId i .exofork = (.ok c, k')) :
    (k.ecall i Call.exofork.service.number.toUInt64 Call.exofork.args).2 = k' ∧ ∃ e f, k.env? i = some e ∧
      k'.env? c = some { Env.fresh c (some i) ⟨.empty f⟩ with
        regs := (e.regs.called Call.exofork.service.number.toUInt64 Call.exofork.args).setA0 0 } := by
  unfold callForId at h
  rcases hc : k.call i .exofork with ⟨err | w, k₁⟩
  all_goals rw [hc] at h
  · cases h
  dsimp only at h
  split at h
  · cases h
  rename_i hw
  cases h
  obtain ⟨hk', haw | ⟨e, r, k₂, he, heff, ⟨ret, rfl, hret, rfl⟩ | ⟨rfl, -⟩⟩⟩ := call_ok hk hc
  · cases haw
  · refine ⟨hk', e, ?_⟩
    obtain ⟨child, parent, f, rfl, hne, hp, hchild⟩ := env?_of_forked (hk.setRegisters i _)
      (by rw [env?_setRegisters, he]; simp) heff
    rw [env?_setRegisters, he, Option.map_some, if_pos rfl] at hp
    cases hp
    rw [EnvId.decode_toWord] at hret
    obtain rfl : child.toWord = w := Except.ok.inj hret
    obtain rfl : child = c := Option.some.inj ((Syscall.ofWord?_toWord child).symm.trans hw)
    refine ⟨f, he, ?_⟩
    rw [env?_modifyEnv_of_ne (f := fun e => { e with regs := e.regs.setA0 child.toWord }) (fun _ => rfl) hne.symm, hchild]
  · cases (heff.waits rfl).1

/-- **A child is made for its parent, and does not run before it is told to.** -/
theorem callForId_exofork_fresh (hk : k.Regular) (h : k.callForId i .exofork = (.ok c, k')) :
    k'.Regular ∧ ∃ e, k'.env? c = some e ∧ e.stance = .fresh ∧ e.parent = some i := by
  obtain ⟨rfl, e, f, -, hc⟩ := callForId_exofork_child hk.sound h
  exact ⟨hk.ecall i _ _, _, hc, rfl, rfl⟩

end Kernel

namespace UserProcess

open Kernel

variable {p p' p₁ : UserProcess} {k k' k₁ k₂ : Kernel} {c : EnvId} {cause : UserPanic}

theorem exofork_fresh (hk : k.Regular) (h : p.exofork k = (.ok c, k')) :
    k'.Regular ∧ ∃ e, k'.env? c = some e ∧ e.stance = .fresh ∧ e.parent = some p.env := by
  unfold exofork at h
  rcases he : p.enter k with ⟨_ | _, k₁⟩
  all_goals rw [he] at h
  · cases h
  · exact callForId_exofork_fresh (hk.works (enter_works he)) h

/-- **A fork that panics after its child was made leaves an orphan.** -/
theorem fork_orphan (hk : k.Regular) (hset : p.setHandler k Routine.copyOnWrite = (.ok (), p₁, k₁))
    (hex : p₁.exofork k₁ = (.ok c, k₂)) (hf : p.fork k = (.error (.panicked cause), p', k')) :
    ∃ e, k'.Orphan c p.env e 0 := by
  obtain ⟨henv, hw₁⟩ := setHandler_works hk.sound hset
  have hk₁ := hk.works hw₁
  obtain ⟨hk₂, e, he, hs, hp⟩ := exofork_fresh hk₁ hex
  obtain ⟨-, ⟨sp, hr⟩, hne, -⟩ := exofork_ok hk₁.sound hex
  have hrest : k₂.Works p₁.env k' ∧ k'.env? p₁.env = none := by
    obtain ⟨_, _, _, hset', -⟩ | ⟨_, _, hset', hf⟩ := fork_steps hf
    all_goals
      rw [hset] at hset'
      cases hset'
    obtain ⟨_, -, ⟨⟩, -⟩ | ⟨_, _, hex', ⟨step, err, k₃, hpop, hf⟩ | ⟨_, -, ⟨⟩, -⟩⟩ := hf
    rw [hex] at hex'
    cases hex'
    cases hf
    have hw := populate_works hk₂.sound hpop
    exact ⟨hw.trans (fatal_works (hw.sound hk₂.sound) _),
      (fatal_over (Fit.works ⟨hk₂.sound, able_of_runs hr⟩ hw) _).gone⟩
  obtain ⟨hw, hgone⟩ := hrest
  have hk' := hk₂.works hw
  have hstatus : e.status = .notRunnable := congrArg Stance.status hs
  obtain ⟨e', he', hs', hp'⟩ := hw.stays hne.symm he (by rw [hstatus]; decide)
  have hs' := hs'.trans hs
  have hmail : e'.mailbox = {} := congrArg Stance.mailbox hs'
  obtain ⟨me, hme, -⟩ := hr
  rw [henv] at hp hw hgone hme
  exact ⟨e', hk'.sound, hk'.scheduled, he', congrArg Stance.status hs', by rw [hmail]; decide, hp'.trans hp,
    .of_gone hk₂.chronicled hme hw.tells hgone⟩

/-- **A half-built child never runs.**  When a fork has made a child and panics, the parent is gone, and its slot has not
been used since the parent was made.  From then on, until the child is ended from outside and as long as the slot of the
parent is used less than `generationPeriod` times, the child stays as it was left, whatever happens and whatever other
programs do.  It does nothing itself: it would have to be given the processor. -/
theorem orphan_never_runs (hk : k.Reachable) (hset : p.setHandler k Routine.copyOnWrite = (.ok (), p₁, k₁))
    (hex : p₁.exofork k₁ = (.ok c, k₂)) (hf : p.fork k = (.error (.panicked cause), p', k')) :
    k'.env? p.env = none ∧ k'.Stale p.env 0 ∧ ∃ e, k'.env? c = some e ∧
      ∀ events, .destroyEnv c ∉ events → k'.ActsInTurn events c → k'.uses p.env.index events < generationPeriod →
        (k'.run events).Abandoned c e := by
  obtain ⟨e, ho⟩ := fork_orphan hk.regular hset hex hf
  refine ⟨ho.stale.env?_eq_none (by decide), ho.stale, e, ho.there, fun events hd ht hu => ?_⟩
  rw [← Nat.zero_add (uses _ _ _)] at hu
  exact (ho.run hu (ho.actor_ne hu ht hd) hd).abandoned hu

/-- A fork runs out of memory at the stack of the child.  The next program comes into the slot of the parent and tries to
let the child run. -/
theorem orphan_never_runs_for_successor : ∃ (k k₁ k₂ k' : Kernel) (p p₁ p' : UserProcess) (c : EnvId) (cause : UserPanic)
    (e : Env) (events : List Event), k.Reachable ∧ p.setHandler k Routine.copyOnWrite = (.ok (), p₁, k₁) ∧
      p₁.exofork k₁ = (.ok c, k₂) ∧ p.fork k = (.error (.panicked cause), p', k') ∧ k'.env? p.env = none ∧
      k'.uses p.env.index events = 1 ∧ (k'.run events).Abandoned c e := by
  let k := ((ofConfig ⟨5, 2⟩).log (.booted ⟨5, 2⟩)).step (.spawn {})
  let p : UserProcess := .ofEnv ⟨0x1000⟩ textBase.toUInt64
  let p₁ := (p.setHandler k Routine.copyOnWrite).2.1
  let k₁ := (p.setHandler k Routine.copyOnWrite).2.2
  let k' := (p.fork k).2.2
  let events : List Event :=
    [.spawn {}, .dispatch ⟨0x2000⟩, .perform ⟨0x2000⟩ (.ecall 7 #v[0x1001, 2, 0, 0, 0])]
  have hk : k.Reachable := .step (.boot (c := ⟨5, 2⟩) rfl) _
  have hset : p.setHandler k Routine.copyOnWrite = (.ok (), p₁, k₁) := Prod.ext (by decide +kernel) rfl
  have hex : p₁.exofork k₁ = (.ok ⟨0x1001⟩, (p₁.exofork k₁).2) := Prod.ext (by decide +kernel) rfl
  have hf : p.fork k = (.error (.panicked (.fork (.stack 0xeebfd000) .noMem)), (p.fork k).2.1, k') := by
    have hfst : (p.fork k).1.map (fun _ => ()) = .error (.panicked (.fork (.stack 0xeebfd000) .noMem)) := by decide +kernel
    refine Prod.ext ?_ rfl
    cases hr : (p.fork k).1 with
    | error err =>
      rw [hr] at hfst
      cases hfst
      rfl
    | ok child =>
      rw [hr] at hfst
      cases hfst
  have hu : k'.uses p.env.index events = 1 := by decide +kernel
  have hd : Event.destroyEnv ⟨0x1001⟩ ∉ events := by simp [events]
  have ht : k'.ActsInTurn events ⟨0x1001⟩ := by
    intro before op after h
    have hmem : Event.perform ⟨0x1001⟩ op ∈ events := by
      rw [h]
      simp
    simp [events] at hmem
  obtain ⟨hgone, -, e, -, hafter⟩ := orphan_never_runs hk hset hex hf
  exact ⟨k, k₁, _, k', p, p₁, _, ⟨0x1001⟩, _, e, events, hk, hset, hex, hf, hgone, hu,
    hafter events hd ht (by rw [hu]; decide)⟩

end UserProcess
end Exokernel
