import Exokernel.Proofs.Kernel.Bystander
import Exokernel.Proofs.User.Call
/-!
# Collecting a message

Whoever waits for a message looks for it later, and reads it from two places: the message itself lies in the mailbox,
where it stays until the next wait; whether there is one is read from the register for the result of the wait, which the
program goes on using.  So a message can be collected as long as that register holds no error (`message_collected`); one
call that fails in between, and it is an error that is collected (`message_lost`).
-/
namespace Exokernel

/-- Whoever takes the register for a result reads an error. -/
def Registers.HoldsError (r : Registers) : Prop := r.a0.signed < 0

theorem Registers.a0_setSp (r : Registers) (w : Word) : (r.setSp w).a0 = r.a0 := by
  simp only [a0, setSp]
  exact Vector.getElem_set_ne (by decide) (by decide) (by decide)

namespace Kernel

variable {k k' : Kernel} {event : Event} {i j c : EnvId} {e e' me : Env} {number : Word} {args : Vector Word 5}

/-! ## The result of a wait -/

/-- **What spoils the result of a wait.** -/
inductive Spoils (k : Kernel) (j : EnvId) : Event → Prop where
  /-- A call of its own fails. -/
  | failed {number ret : Word} {args : Vector Word 5} (h : (k.ecall j number args).1 = .returned ret)
      (hr : ret.signed < 0) : Spoils k j (.perform j (.ecall number args))
  /-- It goes on with other registers, and they hold an error. -/
  | resumed {r : Registers} (h : r.HoldsError) : Spoils k j (.perform j (.resumeWith r))
  /-- Another program replaces its registers. -/
  | replaced {c : EnvId} {event : Event} (h : k.Replaces event c j) : Spoils k j event

/-- A call of its own that succeeds spoils nothing. -/
theorem not_spoils_of_returned (ret : Word) (h : (k.ecall j number args).1 = .returned ret) (hr : ¬ ret.signed < 0) :
    ¬ k.Spoils j (.perform j (.ecall number args)) := by
  rintro (⟨h', hneg⟩ | _ | ⟨hne, ⟨_, ⟨_, hcall, -⟩, -⟩, -⟩)
  · cases h'.symm.trans h
    exact hr hneg
  · cases hcall
    exact hne rfl

/-- The register for its result holds no error. -/
def HoldsResult (k : Kernel) (j : EnvId) : Prop := ∀ e, k.env? j = some e → ¬ e.regs.HoldsError

theorem HoldsResult.keepsRegs (h : k.HoldsResult j) (hk : k.KeepsRegs k' j) : k'.HoldsResult j := by
  intro e' he'
  obtain ⟨e, he, hr⟩ := hk e' he'
  rw [hr]
  exact h e he

/-- **How a call ends for the caller**: with a result in its register, waiting, or not at all. -/
theorem ecall_ends (hk : k.Sound []) (hc : k.env? c = some me) (number : Word) (args : Vector Word 5) :
    (∃ ret, (k.ecall c number args).1 = .returned ret ∧
      ∀ e', (k.ecall c number args).2.env? c = some e' → e'.regs.a0 = ret) ∨
    k.Receives (.perform c (.ecall number args)) c ∨ (k.ecall c number args).2.env? c = none := by
  have hk₀ := hk.setRegisters c (me.regs.called number args)
  have hout {out : Ecall} {k' : Kernel} (hx : k.ecall c number args = (out, k')) :
      k.outcome (.perform c (.ecall number args)) = some out := by
    rw [outcome, hx]
  rcases hx : k.ecall c number args with ⟨⟨ret⟩ | _ | _, k'⟩
  all_goals
    have hcall := (ecall_eq hc number args).symm.trans hx
    have hstd := SyscallTable.dispatch_standard number.toNat (k.setRegisters c (me.regs.called number args)) c
      (argsOf (me.regs.called number args))
  · refine Or.inl ⟨ret, rfl, fun e' he' => ?_⟩
    have hans : ∃ k₁ : Kernel, k' = k₁.modifyEnv c fun e => { e with regs := e.regs.setA0 ret } := by
      rcases conclude_returned hcall with ⟨-, -, hk'⟩ | ⟨err, -, -, -, hk'⟩
      · exact ⟨_, hk'⟩
      · exact ⟨_, hk'⟩
    obtain ⟨k₁, rfl⟩ := hans
    have he' := (env?_modifyEnv (f := fun e => { e with regs := e.regs.setA0 ret }) (fun _ => rfl) c).symm.trans he'
    obtain ⟨e₁, -, rfl⟩ := Option.map_eq_some_iff.1 he'
    rw [if_pos rfl]
    exact Registers.a0_setA0 _ ret
  · have hd := conclude_blocked hcall
    rcases hstd with hs | ⟨s, hn, hs⟩
    · cases hs.symm.trans hd
    · have heff := Syscall.effect _ c (argsOf (me.regs.called number args)) hk₀ s
      rw [← hs, hd] at heff
      obtain ⟨rfl, -⟩ := heff.waits rfl
      exact Or.inr (Or.inl ⟨args, ⟨number, rfl, hn.symm⟩, hout hx⟩)
  · refine Or.inr (Or.inr ?_)
    rcases conclude_exited hcall with hd | hn
    · rcases hstd with hs | ⟨s, -, hs⟩
      · cases hs.symm.trans hd
      · have heff := Syscall.effect _ c (argsOf (me.regs.called number args)) hk₀ s
        rw [← hs, hd] at heff
        exact heff.gone rfl
    · exact hn

/-- A fault that is handed over leaves the register for the result alone. -/
theorem a0_raise (he : k.env? i = some e) (f : PageFault) (he' : (k.raise i f).2.env? i = some e') :
    e'.regs.a0 = e.regs.a0 := by
  rcases raise_cases he (Prod.eta (k.raise i f)).symm with ⟨-, k₁, hb, h⟩ | ⟨entry, record, k₁, m, -, -, hb, -, -, h⟩
  · rw [h, env?_destroyEnv_self] at he'
    cases he'
  · rw [h, env?_log, env?_setRegisters, env?_withMachine] at he'
    obtain ⟨e₁, -, rfl⟩ := Option.map_eq_some_iff.1 he'
    rw [if_pos rfl]
    exact Registers.a0_setSp _ _

/-- **An operation of the program itself** leaves no error in the register, unless it spoils it. -/
theorem HoldsResult.perform (h : k.HoldsResult j) (hk : k.Sound []) (he : k.env? j = some e) {op : CpuOp}
    (hr : ¬ k.Receives (.perform j op) j) (hn : ¬ k.Spoils j (.perform j op)) : (k.perform j op).HoldsResult j := by
  refine perform_induction (Q := fun k' => k'.HoldsResult j) k j op h (fun e₁ f he₁ e' he' => ?_)
    (fun _ _ _ _ _ _ => h) (fun r hop => ?_) fun number args hop => ?_
  · rw [Registers.HoldsError, a0_raise he₁ f he']
    exact h e₁ he₁
  · subst hop
    intro e' he'
    rw [env?_setRegisters, he, Option.map_some, if_pos rfl] at he'
    cases he'
    exact fun hneg => hn (.resumed hneg)
  · subst hop
    intro e' he'
    rcases ecall_ends hk he number args with ⟨ret, hret, ha⟩ | hrec | hnone
    · rw [Registers.HoldsError, ha e' he']
      exact fun hneg => hn (.failed hret hneg)
    · exact absurd hrec hr
    · cases hnone.symm.trans he'

/-- **Whatever happens leaves no error in the register**, unless it spoils it. -/
theorem HoldsResult.step (h : k.HoldsResult j) (hk : k.Reachable) (he : k.env? j = some e) (hi : k.Idle j)
    (hr : ¬ k.Receives event j) (hn : ¬ k.Spoils j event) : (k.step event).HoldsResult j := by
  have hlive : k.env? j ≠ none := by
    rw [he]
    simp
  by_cases hp : ∃ c op, event = .perform c op
  · obtain ⟨c, op, rfl⟩ := hp
    by_cases hj : j = c
    · subst hj
      exact h.perform hk.sound he hr hn
    by_cases hop : ∃ number args, op = .ecall number args
    · obtain ⟨number, args, rfl⟩ := hop
      exact h.keepsRegs (keepsRegs_ecall hk.sound hlive hj hi fun hrep => hn (.replaced hrep))
    · exact h.keepsRegs (.of_env? (env?_perform_of_ne hj fun number args hx => hop ⟨number, args, hx⟩))
  · intro e' he'
    by_cases hd : event = .destroyEnv j
    · subst hd
      cases (env?_destroyEnv_self k j).symm.trans he'
    · obtain ⟨e₁, he₁, hres⟩ := reschedules_step hk.sound hk.scheduled (fun c op hx => hp ⟨c, op, hx⟩) hd e he
      cases he₁.symm.trans he'
      rw [Registers.HoldsError, hres.regs]
      exact h e he

/-- A call to receive is accepted only if the caller waits from then on. -/
theorem call_recv_ok (hk : k.Sound []) {target : Option Word} {w : Word} (h : k.call i (.recv target) = (.ok w, k')) :
    (k.ecall i Service.ipcRecv.number.toUInt64 (Call.recv target).args).2 = k' ∧
      ∃ e, k'.env? i = some e ∧ e.mailbox.receiving := by
  obtain ⟨hk', haw | ⟨e, r, k₁, -, heff, ⟨ret, rfl, -, -⟩ | ⟨rfl, rfl⟩⟩⟩ := call_ok hk h
  · cases haw
  · cases heff
  · exact ⟨hk', (heff.waits rfl).2⟩

/-! ## Runs -/

/-- The environment is there all the time. -/
def StaysLive (k : Kernel) (events : List Event) (j : EnvId) : Prop :=
  ∀ before after, events = before ++ after → (k.run before).env? j ≠ none

theorem staysLive_of_take {events : List Event} (h : ∀ n ≤ events.length, ((k.run (events.take n)).env? j).isSome) :
    k.StaysLive events j := by
  rintro before after rfl
  have hb := h before.length (by simp)
  rw [List.take_left] at hb
  exact Option.isSome_iff_ne_none.1 hb

theorem StaysLive.tail {rest : List Event} (h : k.StaysLive (event :: rest) j) : (k.step event).StaysLive rest j := by
  intro before after hrest
  exact h (event :: before) after (by rw [hrest, List.cons_append])

theorem StaysLive.suffix (before : List Event) {after : List Event} (h : k.StaysLive (before ++ after) j) :
    (k.run before).StaysLive after j := by
  induction before generalizing k with
  | nil => exact h
  | cons event rest ih => exact ih h.tail

/-- An event of the run spoils the result of a wait. -/
def Spoiled (k : Kernel) (events : List Event) (j : EnvId) : Prop :=
  ∃ before event after, events = before ++ event :: after ∧ (k.run before).Spoils j event

theorem not_spoiled_nil : ¬ k.Spoiled [] j := by
  rintro ⟨before, event, after, hnil, -⟩
  cases before <;> cases hnil

theorem spoiled_cons {rest : List Event} :
    k.Spoiled (event :: rest) j ↔ k.Spoils j event ∨ (k.step event).Spoiled rest j := by
  constructor
  · rintro ⟨_ | ⟨first, before⟩, event', after, hcons, hs⟩
    · cases hcons
      exact Or.inl hs
    · cases hcons
      exact Or.inr ⟨before, event', after, rfl, hs⟩
  · rintro (hs | ⟨before, event', after, rfl, hs⟩)
    · exact ⟨[], event, rest, rfl, hs⟩
    · exact ⟨event :: before, event', after, rfl, hs⟩

/-- No call of the run leaves its caller waiting. -/
theorem noReceive_of_outcome {events : List Event}
    (h : ∀ n < events.length, events[n]?.bind (k.run (events.take n)).outcome ≠ some .blocked) : k.NoReceive events j := by
  rintro before event after rfl ⟨args, -, ho⟩
  have hb := h before.length (by simp)
  rw [List.take_left, List.getElem?_append_right (Nat.le_refl _), Nat.sub_self] at hb
  exact hb ho

theorem HoldsResult.run (events : List Event) (h : k.HoldsResult j) (hk : k.Reachable) (hi : k.Idle j)
    (hl : k.StaysLive events j) (hr : k.NoReceive events j) (hn : ¬ k.Spoiled events j) :
    (k.run events).HoldsResult j := by
  induction events generalizing k with
  | nil => exact h
  | cons event rest ih =>
    obtain ⟨e, he⟩ := Option.ne_none_iff_exists'.1 (hl [] (event :: rest) rfl)
    obtain ⟨hs, hrest⟩ := not_or.1 fun hs => hn (spoiled_cons.2 hs)
    exact ih (h.step hk he hi hr.head hs) (.step hk event) (idle_step hk hi hr.head) hl.tail hr.tail hrest

/-- **Who waits goes on waiting until a message is sent.** -/
theorem receiving_run (events : List Event) (hk : k.Reachable) (he : k.env? j = some e) (hr : e.mailbox.receiving)
    (hl : k.StaysLive events j) (hn : sentTo j k events = []) :
    ∃ e', (k.run events).env? j = some e' ∧ e'.mailbox.receiving := by
  induction events generalizing k e with
  | nil => exact ⟨e, he, hr⟩
  | cons event rest ih =>
    obtain ⟨hnone, hrest⟩ := List.append_eq_nil_iff.1 hn
    obtain ⟨e₁, he₁⟩ := Option.ne_none_iff_exists'.1 (hl [event] rest rfl)
    refine ih (.step hk event) he₁ ?_ hl.tail hrest
    refine Classical.byContradiction fun hr₁ => ?_
    obtain ⟨c, req, hs⟩ := sends_of_changed hk he he₁ (Or.inl ⟨hr, hr₁⟩)
    have hm := sentTo?_eq_some_iff.2 ⟨c, req, hs, rfl⟩
    rw [hm] at hnone
    cases hnone

end Kernel

namespace PendingRecv

variable {h : PendingRecv} {k : Kernel} {e : Env}

theorem poll_of_receiving (he : k.env? h.env = some e) (hr : e.mailbox.receiving) : h.poll k = none := by
  rw [poll, he]
  exact if_pos hr

theorem poll_of_idle (he : k.env? h.env = some e) (hr : ¬ e.mailbox.receiving) :
    h.poll k = some ((Errno.decode e.regs.a0).map fun _ => e.mailbox.message) := by
  rw [poll, he]
  exact if_neg hr

end PendingRecv

namespace UserProcess

open Kernel

variable {p : UserProcess} {k₀ k : Kernel} {h : PendingRecv} {target : Option Word} {e : Env}

/-- **Whoever has begun to receive waits.** -/
theorem recv_ok (hk : k₀.Reachable) (hr : p.recv k₀ target = (.ok h, k)) :
    h.env = p.env ∧ k.Reachable ∧ ∃ e, k.env? p.env = some e ∧ e.mailbox.receiving := by
  unfold recv call enter at hr
  rcases hd : k₀.dispatch p.env with err | k₁
  · rw [hd] at hr
    cases hr
  have hk₁ : k₁.Reachable := by
    have hstep := Reachable.step hk (.dispatch p.env)
    rwa [Kernel.step, hd] at hstep
  rw [hd] at hr
  dsimp only at hr
  rcases hcall : k₁.call p.env (.recv target) with ⟨err | w, k₂⟩
  all_goals rw [hcall] at hr
  · cases hr
  · obtain ⟨he, hrec⟩ := call_recv_ok hk₁.sound hcall
    cases hr
    have hk₂ := Reachable.step hk₁ (.perform p.env (.ecall Service.ipcRecv.number.toUInt64 (Call.recv target).args))
    rw [Kernel.step, Kernel.perform, he] at hk₂
    exact ⟨rfl, hk₂, hrec⟩

/-- **A message can be collected until its receiver has spoiled the result of its wait.**  Before it is sent there is nothing
to collect; from then on, until the receiver waits again, it is that message or an error, and an error only if the
register for the result holds one. -/
theorem message_collected {events : List Event} (hk : k₀.Reachable) (hr : p.recv k₀ target = (.ok h, k))
    (hl : k.StaysLive events p.env) :
    (sentTo p.env k events = [] → h.poll (k.run events) = none) ∧
    ∀ before event after m, events = before ++ event :: after → (k.run before).sentTo? p.env event = some m →
      ((k.run before).step event).NoReceive after p.env →
      (∃ e, (k.run events).env? p.env = some e ∧
        h.poll (k.run events) = some ((Errno.decode e.regs.a0).map fun _ => m)) ∧
      (¬ ((k.run before).step event).Spoiled after p.env → h.poll (k.run events) = some (.ok m)) := by
  obtain ⟨henv, hk, e₀, he₀, hrec₀⟩ := recv_ok hk hr
  constructor
  · intro hn
    obtain ⟨e, he, hrec⟩ := receiving_run events hk he₀ hrec₀ hl hn
    exact PendingRecv.poll_of_receiving (by rw [henv]; exact he) hrec
  · rintro before event after m rfl hm hno
    obtain ⟨c, req, hsend, rfl⟩ := sentTo?_eq_some_iff.1 hm
    have hk₁ := hk.run before
    have hk₂ : ((k.run before).step event).Reachable := .step hk₁ event
    obtain ⟨e₁, e₂, hd⟩ := hsend.delivery hk₁.sound
    have hl₂ := (hl.suffix before).tail
    obtain ⟨e, he, hmsg⟩ := message_stays after hk₂ hd.left (hd.idle e₂ hd.left) hno hl₂
    have hidle := idle_run after hk₂ hd.idle hno e he
    have hrun : k.run (before ++ event :: after) = ((k.run before).step event).run after := by
      rw [Kernel.run, List.foldl_append]
      rfl
    rw [hd.mailbox] at hmsg
    have hpoll := PendingRecv.poll_of_idle (h := h) (by rw [henv]; exact he) hidle
    rw [hmsg] at hpoll
    rw [hrun]
    refine ⟨⟨e, he, hpoll⟩, fun hclean => ?_⟩
    have hzero : ((k.run before).step event).HoldsResult p.env := by
      intro e' he'
      cases hd.left.symm.trans he'
      rw [Registers.HoldsError, hd.a0]
      decide
    have hres : ¬ e.regs.a0.signed < 0 := hzero.run after hk₂ hd.idle hl₂ hno hclean e he
    rw [hpoll, Errno.decode, if_neg hres]
    rfl

/-- A program gets a message, goes on, asks for its own id, and collects the message. -/
theorem message_collected_later : ∃ (k₀ k : Kernel) (p : UserProcess) (h : PendingRecv) (events : List Event),
    k₀.Reachable ∧ p.recv k₀ none = (.ok h, k) ∧ k.StaysLive events p.env ∧
      h.poll (k.run events) = some (.ok ⟨⟨0x1001⟩, 7, .empty⟩) := by
  let k₀ := (((ofConfig ⟨16, 2⟩).log (.booted ⟨16, 2⟩)).step (.spawn {})).step (.spawn {})
  let p : UserProcess := .ofEnv ⟨0x1000⟩ textBase.toUInt64
  let k := (p.recv k₀ none).2
  let send : Event := .perform ⟨0x1001⟩ (.ecall 11 #v[0x1000, 7, 4294967295, 0, 0])
  let ask : Event := .perform ⟨0x1000⟩ (.ecall 1 (Vector.replicate 5 0))
  have hk₀ : k₀.Reachable := .step (.step (.boot (c := ⟨16, 2⟩) rfl) _) _
  have hr : p.recv k₀ none = (.ok ⟨⟨0x1000⟩⟩, k) := Prod.ext (by decide +kernel) rfl
  have hl : k.StaysLive [send, .dispatch ⟨0x1000⟩, ask] p.env := staysLive_of_take (by decide +kernel)
  have hm : k.sentTo? p.env send = some ⟨⟨0x1001⟩, 7, .empty⟩ := by decide +kernel
  have hno : (k.step send).NoReceive [.dispatch ⟨0x1000⟩, ask] p.env := noReceive_of_outcome (by decide +kernel)
  have hclean : ¬ (k.step send).Spoiled [.dispatch ⟨0x1000⟩, ask] p.env := by
    rw [spoiled_cons, spoiled_cons, not_or, not_or]
    refine ⟨?_, not_spoils_of_returned 0x1000 (by decide +kernel) (by decide), not_spoiled_nil⟩
    rintro (_ | _ | ⟨-, ⟨_, ⟨_, hcall, -⟩, -⟩, -⟩)
    cases hcall
  exact ⟨k₀, k, p, _, _, hk₀, hr, hl, ((message_collected hk₀ hr hl).2 [] _ _ _ rfl hm hno).2 hclean⟩

/-- **A message is lost for its receiver**: a call of it fails before it has looked, and the error of that call is what it
collects. -/
theorem message_lost : ∃ (k₀ k : Kernel) (p : UserProcess) (h : PendingRecv) (event : Event) (after : List Event)
    (m : Message), k₀.Reachable ∧ p.recv k₀ none = (.ok h, k) ∧ k.StaysLive (event :: after) p.env ∧
      k.sentTo? p.env event = some m ∧ (k.step event).NoReceive after p.env ∧
      h.poll (k.run (event :: after)) = some (.error .inval) := by
  let k₀ := (((ofConfig ⟨16, 2⟩).log (.booted ⟨16, 2⟩)).step (.spawn {})).step (.spawn {})
  let p : UserProcess := .ofEnv ⟨0x1000⟩ textBase.toUInt64
  let k := (p.recv k₀ none).2
  let send : Event := .perform ⟨0x1001⟩ (.ecall 11 #v[0x1000, 7, 4294967295, 0, 0])
  let unmap : Event := .perform ⟨0x1000⟩ (.ecall 5 #v[0, 1, 0, 0, 0])
  have hk₀ : k₀.Reachable := .step (.step (.boot (c := ⟨16, 2⟩) rfl) _) _
  have hr : p.recv k₀ none = (.ok ⟨⟨0x1000⟩⟩, k) := Prod.ext (by decide +kernel) rfl
  have hl : k.StaysLive [send, .dispatch ⟨0x1000⟩, unmap] p.env := staysLive_of_take (by decide +kernel)
  have hm : k.sentTo? p.env send = some ⟨⟨0x1001⟩, 7, .empty⟩ := by decide +kernel
  have hno : (k.step send).NoReceive [.dispatch ⟨0x1000⟩, unmap] p.env := noReceive_of_outcome (by decide +kernel)
  exact ⟨k₀, k, p, _, send, _, _, hk₀, hr, hl, hm, hno, by decide +kernel⟩

end UserProcess
end Exokernel
