import Exokernel.Proofs.Kernel.Roster
import Exokernel.Proofs.Kernel.Sharing
import Exokernel.Proofs.Syscall.Failure
import Exokernel.User.Message
/-!
# Rendezvous

A message is handed over at once or not at all: a send that succeeds finds its receiver waiting, and ends the wait.
Nothing else ends a wait or touches a message, so what an environment finds when its waits end is what was sent to it, in
that order (`rendezvous`).
-/
namespace Exokernel

/-- The message that lies in a mailbox. -/
def Mailbox.message (b : Mailbox) : Message := ⟨b.sender, b.value, b.perm⟩

theorem Registers.a0_setA0 (r : Registers) (w : Word) : (r.setA0 w).a0 = w := by
  simp only [a0, setA0, Vector.getElem_set_self]

theorem Event.request?_eq_some {event : Event} {c : EnvId} {req : SendRequest} (h : event.request? = some (c, req)) :
    ∃ number args, event = .perform c (.ecall number args) ∧ number.toNat = Service.ipcTrySend.number ∧
      Syscall.ipcTrySendArgs (args.push 0) = .ok req := by
  unfold request? at h
  split at h
  next c' number args =>
    split at h
    next hn =>
      obtain ⟨req', hreq, hp⟩ := Option.map_eq_some_iff.1 h
      cases hp
      refine ⟨number, args, rfl, hn, ?_⟩
      cases ha : Syscall.ipcTrySendArgs (args.push 0) with
      | error err =>
        rw [ha] at hreq
        cases hreq
      | ok req' =>
        rw [ha] at hreq
        cases hreq
        rfl
    · cases h
  · cases h

namespace Kernel

variable {k k' : Kernel} {event : Event} {c t j : EnvId} {req : SendRequest} {e e' : Env}

/-- **A program sends a message, and the send succeeds.** -/
structure Sends (k : Kernel) (event : Event) (c t : EnvId) (req : SendRequest) : Prop where
  request : event.request? = some (c, req)
  receiver : req.receiver.meant c = t
  succeeds : k.outcome event = some (.returned 0)

/-! ## What a send does -/

/-- **What a send makes of its receiver**: it was waiting, and now has the message and may run.  A page that was offered
and asked for is mapped where it was asked for, with the permission it was offered with; else nothing is mapped. -/
structure Delivery (k k' : Kernel) (c t : EnvId) (req : SendRequest) (e e' : Env) : Prop where
  found : k.env? t = some e
  receiving : e.mailbox.receiving
  left : k'.env? t = some e'
  mailbox : e'.mailbox = e.mailbox.deliver c req.value (k.granted t req.page)
  a0 : e'.regs.a0 = 0
  status : e'.status = .runnable
  scheduler : k'.scheduler = k.scheduler.enqueue t
  queued : k'.current ≠ some t → t ∈ k'.scheduler.queue
  page : (∃ sv v p pte, req.page = some (sv, p) ∧ e.mailbox.target = some v ∧ k.mappings c sv = some pte ∧
      k'.mappings = k.mappings.put t v (some ⟨pte.frame, p⟩) ∧ e'.mailbox.perm = p) ∨
    ((req.page = none ∨ e.mailbox.target = none) ∧ k'.mappings = k.mappings ∧ e'.mailbox.perm = .empty)

/-- A call to send that returns zero has found its receiver and handed the message over. -/
theorem ecall_sent (hk : k.Sound []) {number : Word} {args : Vector Word 5}
    (hn : number.toNat = Service.ipcTrySend.number) (ha : Syscall.ipcTrySendArgs (args.push 0) = .ok req)
    (ho : (k.ecall c number args).1 = .returned 0) : ∃ (k₀ k₁ : Kernel) (te : Env) (offered : Option (Frame × Perm))
      (p : Perm), k₀.roster = k.roster ∧ k₀.mappings = k.mappings ∧ k₀.checkSend c req = .ok (te, offered) ∧
      k₀.transfer te offered = (.ok p, k₁) ∧ (k.ecall c number args).2 =
        ((k₁.wake te.id c req.value p).log (.delivered c te.id req.value p)).modifyEnv c fun e =>
          { e with regs := e.regs.setA0 0 } := by
  cases hc : k.env? c with
  | none =>
    rw [ecall, hc] at ho
    cases ho
  | some me =>
    have hk₀ := hk.setRegisters c (me.regs.called number args)
    have hargs : Syscall.ipcTrySendArgs (argsOf (me.regs.called number args)) = .ok req := by
      rw [ipcTrySendArgs_eq fun _ hx => word_argsOf_called _ _ _ hx, ha]
    have heff := Syscall.effect _ c (argsOf (me.regs.called number args)) hk₀ .ipcTrySend
    rw [ecall_eq hc, hn, SyscallTable.dispatch_number] at ho ⊢
    rcases hx : conclude c number
      (Service.ipcTrySend.handler (k.setRegisters c (me.regs.called number args)) c
        (argsOf (me.regs.called number args))) with ⟨out, k'⟩
    rw [hx] at ho
    dsimp only at ho
    subst ho
    rcases conclude_returned hx with ⟨hok, -, rfl⟩ | ⟨err, -, -, hzero, -⟩
    · rcases hh : Service.ipcTrySend.handler (k.setRegisters c (me.regs.called number args)) c
        (argsOf (me.regs.called number args)) with ⟨r, k₂⟩
      rw [hh] at hok heff
      dsimp only at hok heff
      subst hok
      cases heff with
      | @sent req' te offered p k₁ hreq hs ht =>
        cases hargs.symm.trans hreq
        exact ⟨_, k₁, te, offered, p, roster_setRegisters _ _ _, mappings_setRegisters _ _ _, hs, ht, rfl⟩
    · have hneg := err.signed_errno_neg
      rw [← hzero] at hneg
      exact absurd hneg (by decide)

/-- The result of its wait is zero, also for one that sends to itself. -/
theorem a0_of_wake {value : UInt32} {p : Perm} {l : Line} (h : (((k.wake t c value p).log l).modifyEnv j fun e =>
    { e with regs := e.regs.setA0 0 }).env? t = some e') : e'.regs.a0 = 0 := by
  rw [env?_modifyEnv (f := fun e => { e with regs := e.regs.setA0 0 }) fun _ => rfl] at h
  have hw : ((k.wake t c value p).log l).env? t = (k.env? t).map fun e => if t = t then
      { e with mailbox := e.mailbox.deliver c value p, regs := e.regs.setA0 0, status := .runnable } else e :=
    env?_modifyEnv (f := fun e =>
      { e with mailbox := e.mailbox.deliver c value p, regs := e.regs.setA0 0, status := .runnable }) (fun _ => rfl) t
  rw [hw] at h
  cases he : k.env? t with
  | none =>
    rw [he] at h
    cases h
  | some e =>
    rw [he, Option.map_some, Option.map_some, if_pos rfl] at h
    cases h
    split <;> exact Registers.a0_setA0 _ 0

/-- **A send that succeeds delivers its message.** -/
theorem Sends.delivery (hk : k.Sound []) (h : k.Sends event c t req) : ∃ e e', k.Delivery (k.step event) c t req e e' := by
  obtain ⟨hr, hmeant, hout⟩ := h
  obtain ⟨number, args, rfl, hn, ha⟩ := Event.request?_eq_some hr
  obtain ⟨k₀, k₁, te, offered, p, hroster, hmap, hs, ht, hk'⟩ := ecall_sent hk hn ha (Option.some.inj hout)
  obtain ⟨hte, hrec, -⟩ := Syscall.checkSend_ok hs
  obtain rfl : te.id = t := (Syscall.meant_of_checkSend hs).symm.trans hmeant
  have hstance := stances_of_env? hte
  rw [hroster] at hstance
  obtain ⟨e, he, hst⟩ := env?_of_stances hstance
  have hmail : e.mailbox = te.mailbox := congrArg Stance.mailbox hst
  have hp := perm_of_transfer hs ht he hmail
  have hroster' : (k.ecall c number args).2.roster =
      k.roster.enlist te.id ⟨.runnable, e.mailbox.deliver c req.value p⟩ := by
    rw [hk', roster_setA0, roster_delivered hs ht, hroster, hmail]
  have hmap' : (k.ecall c number args).2.mappings = k₁.mappings := by
    rw [hk', (Quiet.setA0 _ c 0).mappings]
    exact mappings_wake k₁ te.id c req.value p
  obtain ⟨e', he', hst'⟩ : ∃ e', (k.ecall c number args).2.env? te.id = some e' ∧
      e'.stance = ⟨.runnable, e.mailbox.deliver c req.value p⟩ := by
    refine env?_of_stances ?_
    rw [hroster']
    exact EnvMap.set_self
  have hmail' : e'.mailbox = e.mailbox.deliver c req.value p := congrArg Stance.mailbox hst'
  have hsch : (k.ecall c number args).2.scheduler = k.scheduler.enqueue te.id := congrArg Roster.scheduler hroster'
  refine ⟨e, e', he, ?_, he', ?_, ?_, congrArg Stance.status hst', hsch, ?_, ?_⟩
  · rw [hmail]
    exact hrec
  · rw [hmail', hp]
  · rw [hk'] at he'
    exact a0_of_wake he'
  · intro hc
    have hheld : (k.scheduler.enqueue te.id).Holds te.id := Scheduler.holds_enqueue.2 (Or.inr rfl)
    rw [← hsch] at hheld
    exact hheld.resolve_right hc
  · show _ ∨ _ ∧ (k.ecall c number args).2.mappings = _ ∧ _
    rw [hmap', hmail', hmail, ← hmap]
    rcases mappings_transfer hs ht with ⟨sv, v, pte, hpage, htv, hsrc, -, hm⟩ | ⟨hno, hm, hp⟩
    · exact Or.inl ⟨sv, v, p, pte, hpage, htv, hsrc, hmap'.trans hm, rfl⟩
    · exact Or.inr ⟨hno, hm, hp⟩

end Kernel

/-! ## What nothing else does -/

namespace Roster

variable {r r₁ r' : Roster} {i j c : EnvId} {s s' : Stance}

/-- No mailbox has changed, and there are no new ones. -/
def SameMail (r r' : Roster) : Prop := ∀ j s', r'.stances j = some s' → ∃ s, r.stances j = some s ∧ s'.mailbox = s.mailbox

theorem SameMail.refl (r : Roster) : r.SameMail r := fun _ s h => ⟨s, h, rfl⟩

theorem SameMail.trans (h : r.SameMail r₁) (h' : r₁.SameMail r') : r.SameMail r' := by
  intro j s' hs'
  obtain ⟨s₁, hs₁, hm₁⟩ := h' j s' hs'
  obtain ⟨s, hs, hm⟩ := h j s₁ hs₁
  exact ⟨s, hs, hm₁.trans hm⟩

theorem SameMail.modify {f : Stance → Stance} (hf : ∀ s, (f s).mailbox = s.mailbox) (sch : Scheduler) :
    r.SameMail ⟨sch, r.stances.modify i f⟩ := by
  intro j s' hs'
  obtain ⟨s, hs, rfl⟩ := Option.map_eq_some_iff.1 ((EnvMap.modify_apply _ _ _ _).symm.trans hs')
  refine ⟨s, hs, ?_⟩
  split
  · exact hf s
  · rfl

theorem sameMail_preempt (r : Roster) : r.SameMail r.preempt := by
  unfold preempt
  split
  · exact .refl r
  · refine .modify (fun s => ?_) _
    split <;> rfl

theorem sameMail_setStatus (r : Roster) (i : EnvId) (status : EnvStatus) (sch : Scheduler) :
    r.SameMail ⟨sch, (r.setStatus i status).stances⟩ :=
  .modify (f := fun s => { s with status }) (fun _ => rfl) sch

theorem sameMail_advance (r : Roster) : r.SameMail r.advance := by
  unfold advance
  split
  · exact .refl r
  · exact sameMail_setStatus r _ _ _

theorem sameMail_yield (r : Roster) (c : EnvId) : r.SameMail (r.yield c) :=
  (sameMail_setStatus r c _ _).trans (sameMail_advance _)

theorem sameMail_dispatch (r : Roster) (i : EnvId) : r.SameMail (r.dispatch i) := by
  unfold dispatch
  split
  · exact sameMail_setStatus r i _ _
  · exact (sameMail_preempt r).trans (sameMail_setStatus _ i _ _)

end Roster

namespace Kernel

variable {k k' : Kernel} {event : Event} {c t j : EnvId} {req : SendRequest} {e e' : Env} {r : Roster} {s' : Stance}

/-- **Where a mailbox comes from**: it is new, or it was there, and only a message or a wait has changed it. -/
def MailFrom (k : Kernel) (event : Event) (j : EnvId) (b : Mailbox) : Prop :=
  (k.env? j = none ∧ b = {}) ∨ ∃ e, k.env? j = some e ∧ (b = e.mailbox ∨
    (∃ c req, k.Sends event c j req ∧ b = e.mailbox.deliver c req.value (k.granted j req.page)) ∨
    k.Receives event j ∧ ∃ target, b = e.mailbox.await target)

theorem mailFrom_of_stances {s : Stance} (h : k.roster.stances j = some s) (hb : s'.mailbox = s.mailbox) :
    k.MailFrom event j s'.mailbox := by
  obtain ⟨e, he, rfl⟩ := env?_of_stances h
  exact Or.inr ⟨e, he, Or.inl hb⟩

theorem mailFrom_of_set {i : EnvId} {o : Option Stance} (h : k.roster.stances.set i o j = some s')
    (hi : i = j → o = some s' → k.MailFrom event j s'.mailbox) : k.MailFrom event j s'.mailbox := by
  by_cases hj : i = j
  · refine hi hj ?_
    subst hj
    exact EnvMap.set_self.symm.trans h
  · exact mailFrom_of_stances ((EnvMap.set_of_ne hj).symm.trans h) rfl

theorem mailFrom_of_sameMail (h : k.roster.SameMail r) (hs : r.stances j = some s') : k.MailFrom event j s'.mailbox := by
  obtain ⟨s, hs, hm⟩ := h j s' hs
  exact mailFrom_of_stances hs hm

theorem env?_of_stances_none {i : EnvId} (h : k.roster.stances i = none) : k.env? i = none :=
  Option.map_eq_none_iff.1 h

theorem Moves.mailFrom (hm : k.Moves event r) (hs : r.stances j = some s') : k.MailFrom event j s'.mailbox := by
  cases hm with
  | rested => exact mailFrom_of_stances hs rfl
  | made hn =>
    refine mailFrom_of_set hs fun hj ho => ?_
    subst hj
    cases ho
    exact Or.inl ⟨env?_of_stances_none hn, rfl⟩
  | started hn =>
    refine mailFrom_of_set hs fun hj ho => ?_
    subst hj
    cases ho
    exact Or.inl ⟨env?_of_stances_none hn, rfl⟩
  | ended => exact mailFrom_of_set hs fun _ ho => by cases ho
  | allowed _ hi =>
    refine mailFrom_of_set hs fun hj ho => ?_
    subst hj
    cases ho
    exact mailFrom_of_stances hi rfl
  | stopped hi =>
    refine mailFrom_of_set hs fun hj ho => ?_
    subst hj
    cases ho
    exact mailFrom_of_stances hi rfl
  | yielded => exact mailFrom_of_sameMail (Roster.sameMail_yield _ _) hs
  | @sent c t req s hr ho ht hi _ =>
    refine mailFrom_of_set hs fun hj hos => ?_
    subst hj
    cases hos
    obtain ⟨e, he, rfl⟩ := env?_of_stances hi
    exact Or.inr ⟨e, he, Or.inr (Or.inl ⟨c, req, ⟨hr, ht, ho⟩, rfl⟩)⟩
  | @awaited c s target he hi =>
    refine mailFrom_of_set hs fun hj ho => ?_
    subst hj
    cases ho
    obtain ⟨e, hc, rfl⟩ := env?_of_stances hi
    exact Or.inr ⟨e, hc, Or.inr (Or.inr ⟨he, target, rfl⟩)⟩
  | scheduled =>
    exact mailFrom_of_sameMail ((Roster.sameMail_preempt _).trans (Roster.sameMail_advance _)) hs
  | dispatched => exact mailFrom_of_sameMail (Roster.sameMail_dispatch _ _) hs

/-- **Only a message or a wait changes a mailbox.** -/
theorem mailFrom_step (hk : k.Reachable) (he' : (k.step event).env? j = some e') : k.MailFrom event j e'.mailbox :=
  (hk.moves event).mailFrom (stances_of_env? he')

/-- **A wait ends, and a message changes, only when one is sent.** -/
theorem sends_of_changed (hk : k.Reachable) (he : k.env? j = some e) (he' : (k.step event).env? j = some e')
    (h : (e.mailbox.receiving ∧ ¬ e'.mailbox.receiving) ∨ e'.mailbox.message ≠ e.mailbox.message) :
    ∃ c req, k.Sends event c j req := by
  rcases mailFrom_step hk he' with ⟨hn, -⟩ | ⟨e₀, he₀, heq | ⟨c, req, hs, -⟩ | ⟨-, target, heq⟩⟩
  · rw [hn] at he
    cases he
  · cases he.symm.trans he₀
    rw [heq] at h
    rcases h with ⟨hr, hn⟩ | hn
    · exact absurd hr hn
    · exact absurd rfl hn
  · exact ⟨c, req, hs⟩
  · -- who begins to wait waits, and keeps its message
    cases he.symm.trans he₀
    rw [heq] at h
    rcases h with ⟨-, hn⟩ | hn
    · exact absurd rfl hn
    · exact absurd rfl hn

/-! ## Runs -/

/-- The environment does not wait for a message, or there is none. -/
def Idle (k : Kernel) (j : EnvId) : Prop := ∀ e, k.env? j = some e → ¬ e.mailbox.receiving

/-- The environment does not begin to wait in a run. -/
def NoReceive (k : Kernel) (events : List Event) (j : EnvId) : Prop :=
  ∀ before event after, events = before ++ event :: after → ¬ (k.run before).Receives event j

theorem NoReceive.head {rest : List Event} (h : k.NoReceive (event :: rest) j) : ¬ k.Receives event j :=
  h [] event rest rfl

theorem NoReceive.tail {rest : List Event} (h : k.NoReceive (event :: rest) j) : (k.step event).NoReceive rest j := by
  intro before event' after hrest
  exact h (event :: before) event' after (by rw [hrest, List.cons_append])

theorem idle_step (hk : k.Reachable) (h : k.Idle j) (hn : ¬ k.Receives event j) : (k.step event).Idle j := by
  intro e' he' hr
  rcases mailFrom_step hk he' with ⟨-, heq⟩ | ⟨e, he, heq | ⟨c, req, -, heq⟩ | ⟨hrec, -⟩⟩
  · rw [heq] at hr
    cases hr
  · rw [heq] at hr
    exact h e he hr
  · rw [heq] at hr
    cases hr
  · exact hn hrec

/-- **Who does not begin to wait does not wait.** -/
theorem idle_run (events : List Event) (hk : k.Reachable) (h : k.Idle j) (hn : k.NoReceive events j) :
    (k.run events).Idle j := by
  induction events generalizing k with
  | nil => exact h
  | cons event rest ih => exact ih (.step hk event) (idle_step hk h hn.head) hn.tail

theorem Delivery.idle (h : k.Delivery k' c t req e e') : k'.Idle t := by
  intro e₁ he₁ hr
  cases h.left.symm.trans he₁
  rw [h.mailbox] at hr
  cases hr

/-- **Between two messages the receiver begins to wait.** -/
theorem receives_between {event' : Event} {c' : EnvId} {req' : SendRequest} (events : List Event) (hk : k.Reachable)
    (h : k.Sends event c t req) (h' : ((k.step event).run events).Sends event' c' t req') :
    ∃ before recv after, events = before ++ recv :: after ∧ ((k.step event).run before).Receives recv t := by
  refine Classical.byContradiction fun hno => ?_
  have hnone : (k.step event).NoReceive events t := fun before recv after hevents hrec =>
    hno ⟨before, recv, after, hevents, hrec⟩
  have hk' : (k.step event).Reachable := .step hk event
  obtain ⟨e, e', hd⟩ := h.delivery hk.sound
  obtain ⟨e₁, e₂, hd'⟩ := h'.delivery (hk'.run events).sound
  exact idle_run events hk' hd.idle hnone e₁ hd'.found hd'.receiving

/-- **A message stays until its receiver waits again**, as long as there is the receiver. -/
theorem message_stays (events : List Event) (hk : k.Reachable) (he : k.env? j = some e) (hi : ¬ e.mailbox.receiving)
    (hn : k.NoReceive events j) (hl : ∀ before after, events = before ++ after → (k.run before).env? j ≠ none) :
    ∃ e', (k.run events).env? j = some e' ∧ e'.mailbox.message = e.mailbox.message := by
  induction events generalizing k e with
  | nil => exact ⟨e, he, rfl⟩
  | cons event rest ih =>
    obtain ⟨e₁, he₁⟩ := Option.ne_none_iff_exists'.1 (hl [event] rest rfl)
    have hi₁ : ¬ e₁.mailbox.receiving :=
      idle_step hk (fun e₂ he₂ => by cases he.symm.trans he₂; exact hi) hn.head e₁ he₁
    have hm : e₁.mailbox.message = e.mailbox.message := by
      refine Classical.byContradiction fun hne => ?_
      obtain ⟨c, req, hs⟩ := sends_of_changed hk he he₁ (Or.inr hne)
      obtain ⟨e₂, e₃, hd⟩ := hs.delivery hk.sound
      cases he.symm.trans hd.found
      exact hi hd.receiving
    obtain ⟨e', he', hm'⟩ := ih (.step hk event) he₁ hi₁ hn.tail fun before after hrest =>
      hl (event :: before) after (by rw [hrest, List.cons_append])
    exact ⟨e', he', hm'.trans hm⟩

/-- The message that is found when a wait ends, if an event ends one: there was a wait, and there is none any more. -/
def found? (k : Kernel) (j : EnvId) (event : Event) : Option Message :=
  match k.env? j, (k.step event).env? j with
  | some e, some e' => if e.mailbox.receiving ∧ ¬ e'.mailbox.receiving then some e'.mailbox.message else none
  | _, _ => none

/-- The message that is sent to an environment, if an event is a send that succeeds. -/
def sentTo? (k : Kernel) (j : EnvId) (event : Event) : Option Message :=
  event.request?.bind fun (c, req) =>
    if req.receiver.meant c = j ∧ k.outcome event = some (.returned 0) then some ⟨c, req.value, k.granted j req.page⟩
    else none

/-- What an environment finds in its mailbox when its waits end, in the course of a run. -/
def found (j : EnvId) : Kernel → List Event → List Message
  | _, [] => []
  | k, event :: rest => (k.found? j event).toList ++ found j (k.step event) rest

/-- What is sent to an environment in the course of a run. -/
def sentTo (j : EnvId) : Kernel → List Event → List Message
  | _, [] => []
  | k, event :: rest => (k.sentTo? j event).toList ++ sentTo j (k.step event) rest

theorem sentTo?_eq_some_iff {m : Message} : k.sentTo? j event = some m ↔
    ∃ c req, k.Sends event c j req ∧ m = ⟨c, req.value, k.granted j req.page⟩ := by
  unfold sentTo?
  constructor
  · intro h
    obtain ⟨⟨c, req⟩, hr, h⟩ := Option.bind_eq_some_iff.1 h
    dsimp only at h
    split at h
    next hif =>
      cases h
      exact ⟨c, req, ⟨hr, hif.1, hif.2⟩, rfl⟩
    · cases h
  · rintro ⟨c, req, ⟨hr, ht, ho⟩, rfl⟩
    rw [hr, Option.bind_some]
    exact if_pos ⟨ht, ho⟩

theorem found?_eq_some_iff {m : Message} : k.found? j event = some m ↔ ∃ e e', k.env? j = some e ∧
    (k.step event).env? j = some e' ∧ (e.mailbox.receiving ∧ ¬ e'.mailbox.receiving) ∧ e'.mailbox.message = m := by
  unfold found?
  constructor
  · intro h
    split at h
    next e e' he he' =>
      split at h
      next hif =>
        cases h
        exact ⟨e, e', he, he', hif, rfl⟩
      · cases h
    · cases h
  · rintro ⟨e, e', he, he', hif, rfl⟩
    rw [he, he']
    exact if_pos hif

/-- **An event ends a wait with the message that it sends.** -/
theorem found?_eq_sentTo? (hk : k.Reachable) (j : EnvId) (event : Event) : k.found? j event = k.sentTo? j event := by
  refine Option.ext fun m => ?_
  rw [found?_eq_some_iff, sentTo?_eq_some_iff]
  constructor
  · rintro ⟨e, e', he, he', hif, rfl⟩
    obtain ⟨c, req, hs⟩ := sends_of_changed hk he he' (Or.inl hif)
    obtain ⟨e₁, e₂, hd⟩ := hs.delivery hk.sound
    cases he.symm.trans hd.found
    cases he'.symm.trans hd.left
    refine ⟨c, req, hs, ?_⟩
    rw [hd.mailbox]
    rfl
  · rintro ⟨c, req, hs, rfl⟩
    obtain ⟨e, e', hd⟩ := hs.delivery hk.sound
    refine ⟨e, e', hd.found, hd.left, ⟨hd.receiving, hd.idle e' hd.left⟩, ?_⟩
    rw [hd.mailbox]
    rfl

theorem found_eq_sentTo (hk : k.Reachable) (j : EnvId) (events : List Event) : found j k events = sentTo j k events := by
  induction events generalizing k with
  | nil => rfl
  | cons event rest ih =>
    rw [found, sentTo, found?_eq_sentTo? hk, ih (.step hk event)]

/-- **Messages are delivered exactly once.** -/
structure Rendezvous (k : Kernel) : Prop where
  /-- A send that succeeds hands its message over. -/
  delivery (event : Event) (c t : EnvId) (req : SendRequest) (h : k.Sends event c t req) :
    ∃ e e', k.Delivery (k.step event) c t req e e'
  /-- A wait ends, and a message changes, only when one is sent. -/
  sends_of_changed (event : Event) (j : EnvId) (e e' : Env) (he : k.env? j = some e)
    (he' : (k.step event).env? j = some e')
    (h : (e.mailbox.receiving ∧ ¬ e'.mailbox.receiving) ∨ e'.mailbox.message ≠ e.mailbox.message) :
    ∃ c req, k.Sends event c j req
  /-- Between two messages the receiver begins to wait. -/
  receives_between (event event' : Event) (events : List Event) (c c' t : EnvId) (req req' : SendRequest)
    (h : k.Sends event c t req) (h' : ((k.step event).run events).Sends event' c' t req') :
    ∃ before recv after, events = before ++ recv :: after ∧ ((k.step event).run before).Receives recv t
  /-- What is found when waits end is what was sent, in the same order. -/
  found_eq_sentTo (j : EnvId) (events : List Event) : found j k events = sentTo j k events
  /-- A message stays until its receiver waits again, as long as there is the receiver. -/
  message_stays (j : EnvId) (e : Env) (events : List Event) (he : k.env? j = some e) (hi : ¬ e.mailbox.receiving)
    (hn : k.NoReceive events j) (hl : ∀ before after, events = before ++ after → (k.run before).env? j ≠ none) :
    ∃ e', (k.run events).env? j = some e' ∧ e'.mailbox.message = e.mailbox.message

/-- **Messages are delivered exactly once, in whatever order programs send and wait.** -/
theorem rendezvous (hk : k.Reachable) : k.Rendezvous where
  delivery _ _ _ _ h := h.delivery hk.sound
  sends_of_changed _ _ _ _ he he' h := sends_of_changed hk he he' h
  receives_between _ _ events _ _ _ _ _ h h' := receives_between events hk h h'
  found_eq_sentTo := found_eq_sentTo hk
  message_stays _ _ events he hi hn hl := message_stays events hk he hi hn hl

/-- One program waits, another sends it two messages: the second is refused. -/
theorem rendezvous_refused : ∃ (k : Kernel) (events : List Event), k.Reachable ∧ k.Rendezvous ∧
    found ⟨4096⟩ k events = [⟨⟨4097⟩, 7, .empty⟩] := by
  let k := (((ofConfig ⟨8, 2⟩).log (.booted ⟨8, 2⟩)).step (.spawn {})).step (.spawn {})
  let recv : Event := .perform ⟨4096⟩ (.ecall 12 #v[4294967295, 0, 0, 0, 0])
  let send (value : Word) : Event := .perform ⟨4097⟩ (.ecall 11 #v[4096, value, 4294967295, 0, 0])
  have hk : k.Reachable := .step (.step (.boot (c := ⟨8, 2⟩) rfl) _) _
  exact ⟨k, [recv, send 7, send 8], hk, rendezvous hk, by decide +kernel⟩

end Kernel
end Exokernel
