import Mathlib.Data.List.Perm.Subperm
import Exokernel.Proofs.Kernel.Bystander
import Exokernel.Proofs.RoundRobin
/-!
# Turns

Programs take the processor and give it away.  Nobody is lost by it and nobody is doubled: whoever waits for the processor
or holds it does so afterwards, once, and all that changes is whose turn it is (`Kernel.Turned`).
-/
namespace Exokernel

/-! ## The queue and the processor -/

namespace Scheduler

variable {s : Scheduler} {i : EnvId}

/-- Those that the scheduler knows of: who waits, and who holds the processor. -/
def members (s : Scheduler) : List EnvId := s.queue ++ s.current.toList

theorem mem_members : i ∈ s.members ↔ s.Holds i := by
  rw [members, List.mem_append, Option.mem_toList]
  rfl

theorem members_yieldCurrent : s.yieldCurrent.members = s.members := List.append_nil _

/-- The first in the queue goes from there to the processor. -/
theorem perm_members_scheduleNext (hc : s.current = none) : s.scheduleNext.2.members.Perm s.members := by
  obtain ⟨queue, current⟩ := s
  obtain rfl : current = none := hc
  cases queue with
  | nil => exact .refl _
  | cons i rest =>
    show (rest ++ [i]).Perm (i :: rest ++ [])
    rw [List.append_nil]
    exact List.perm_append_singleton i rest

/-- Whoever is chosen goes from the queue to the processor. -/
theorem Proper.perm_members_setCurrent (h : s.Proper) (hc : s.current = none) (hi : i ∈ s.queue) :
    (s.setCurrent (some i)).members.Perm s.members := by
  obtain ⟨queue, current⟩ := s
  obtain rfl : current = none := hc
  show (queue.filter (· != i) ++ [i]).Perm (queue ++ [])
  rw [List.append_nil, ← h.nodup.erase_eq_filter i]
  exact (List.perm_append_singleton i _).trans (List.perm_cons_erase hi).symm

end Scheduler

namespace Roster

variable {r : Roster}

theorem proper_preempt (h : r.scheduler.Proper) : r.preempt.scheduler.Proper := by
  unfold preempt
  split
  · exact h
  · exact h.yieldCurrent

theorem proper_advance (h : r.scheduler.Proper) : r.advance.scheduler.Proper := by
  have hn := h.scheduleNext
  unfold Scheduler.scheduleNext at hn
  unfold advance
  split
  · exact h
  next i rest hq =>
    rw [hq] at hn
    exact hn

theorem proper_dispatch (h : r.scheduler.Proper) (i : EnvId) : (r.dispatch i).scheduler.Proper := by
  unfold dispatch
  split
  · exact h
  · exact (proper_preempt h).setCurrent i

end Roster

namespace Kernel

theorem Moves.proper {k : Kernel} {event : Event} {r : Roster} (hm : k.Moves event r) (h : k.scheduler.Proper) :
    r.scheduler.Proper := by
  cases hm with
  | rested => exact h
  | made => exact h
  | started => exact h.enqueue _
  | ended => exact h.remove _
  | allowed => exact h.enqueue _
  | stopped => exact h.remove _
  | @yielded c => exact Roster.proper_advance (r := { k.roster.setStatus c .runnable with scheduler := _ }) h.yieldCurrent
  | sent => exact h.enqueue _
  | awaited => exact h.remove _
  | scheduled => exact Roster.proper_advance (Roster.proper_preempt h)
  | dispatched => exact Roster.proper_dispatch h _

/-- **In every state that a kernel can come to, the queue has no duplicates** and does not contain the holder of the
processor. -/
theorem Reachable.proper {k : Kernel} (h : k.Reachable) : k.scheduler.Proper := by
  induction h with
  | boot h =>
    rw [(boot_empty h).1]
    exact .empty
  | step hr event ih => exact (hr.moves event).proper ih

end Kernel

/-! ## Only turns -/

/-- At most its turn has changed, and its registers if these are its own affair. -/
structure Env.Turned (e e' : Env) (own : Prop) : Prop where
  id : e'.id = e.id
  parent : e'.parent = e.parent
  status : e'.status = e.status ∨ e.status.isRunnable ∧ e'.status.isRunnable
  space : e'.space = e.space
  regs : own ∨ e'.regs = e.regs
  upcall : e'.upcall = e.upcall
  mailbox : e'.mailbox = e.mailbox

namespace Env.Turned

variable {e e₁ e' : Env} {own : Prop}

theorem refl (e : Env) (own : Prop) : e.Turned e own := ⟨rfl, rfl, .inl rfl, rfl, .inr rfl, rfl, rfl⟩

theorem symm (h : e.Turned e' own) : e'.Turned e own where
  id := h.id.symm
  parent := h.parent.symm
  status := h.status.imp Eq.symm And.symm
  space := h.space.symm
  regs := h.regs.imp_right Eq.symm
  upcall := h.upcall.symm
  mailbox := h.mailbox.symm

/-- Whoever was to run is, and nobody else. -/
theorem isRunnable (h : e.Turned e' own) : e'.status.isRunnable = e.status.isRunnable := by
  rcases h.status with hs | ⟨hs, hs'⟩
  · rw [hs]
  · rw [hs, hs']

theorem trans (h : e.Turned e₁ own) (h' : e₁.Turned e' own) : e.Turned e' own where
  id := h'.id.trans h.id
  parent := h'.parent.trans h.parent
  status := by
    rcases h'.status with hs | ⟨hs, hs'⟩
    · rw [hs]
      exact h.status
    · rw [h.isRunnable] at hs
      exact .inr ⟨hs, hs'⟩
  space := h'.space.trans h.space
  regs := by
    rcases h.regs with ho | hr
    · exact .inl ho
    · exact h'.regs.imp_right (·.trans hr)
  upcall := h'.upcall.trans h.upcall
  mailbox := h'.mailbox.trans h.mailbox

end Env.Turned

theorem Env.Rescheduled.turned {e e' : Env} (h : e.Rescheduled e') (own : Prop) : e.Turned e' own := by
  rcases h with rfl | ⟨hr, s, hs, rfl⟩
  · exact .refl _ own
  · exact ⟨rfl, rfl, .inr ⟨hr, hs⟩, rfl, .inr rfl, rfl, rfl⟩

namespace Kernel

/-- **Only turns have changed**, and the registers of `c`, which are its own affair.  The order of the queue, the holder of
the processor, and who of those that may run does run, can be others than before; those in the queue or on the
processor are the same. -/
structure Turned (k k' : Kernel) (c : EnvId) : Prop where
  config : k'.config = k.config
  /-- Of every frame the bytes and the count, and what is free. -/
  pools : k'.machine.pools = k.machine.pools
  /-- Every slot of the table, whoever is in it. -/
  sameTags : k.SameTags k'
  env (j : EnvId) (e : Env) (h : k.env? j = some e) : ∃ e', k'.env? j = some e' ∧ e.Turned e' (j = c)
  members : k'.scheduler.members.Perm k.scheduler.members

namespace Turned

variable {k k₁ k' : Kernel} {c i j : EnvId} {e : Env}

theorem refl (k : Kernel) (c : EnvId) : k.Turned k c := ⟨rfl, rfl, .refl k, fun _ e h => ⟨e, h, .refl e _⟩, .refl _⟩

theorem trans (h : k.Turned k₁ c) (h' : k₁.Turned k' c) : k.Turned k' c where
  config := h'.config.trans h.config
  pools := h'.pools.trans h.pools
  sameTags := h.sameTags.trans h'.sameTags
  env j e he := by
    obtain ⟨e₁, he₁, ht⟩ := h.env j e he
    obtain ⟨e', he', ht'⟩ := h'.env j e₁ he₁
    exact ⟨e', he', ht.trans ht'⟩
  members := h'.members.trans h.members

/-- Nobody comes. -/
theorem env?_none (h : k.Turned k' c) (hj : k.env? j = none) : k'.env? j = none := by
  have hp : (k'.env? j).map Env.parent = (k.env? j).map Env.parent := EnvTable.parent_of_sameTags h.sameTags j
  rw [hj, Option.map_none] at hp
  exact Option.map_eq_none_iff.1 hp

theorem symm (h : k.Turned k' c) : k'.Turned k c where
  config := h.config.symm
  pools := h.pools.symm
  sameTags := Eq.symm h.sameTags
  env j e' he' := by
    cases he : k.env? j with
    | none =>
      rw [h.env?_none he] at he'
      cases he'
    | some e =>
      obtain ⟨e₁, he₁, ht⟩ := h.env j e he
      cases he₁.symm.trans he'
      exact ⟨e, rfl, ht.symm⟩
  members := h.members.symm

theorem holds_iff (h : k.Turned k' c) : k'.scheduler.Holds i ↔ k.scheduler.Holds i := by
  rw [← Scheduler.mem_members, ← Scheduler.mem_members, h.members.mem_iff]

theorem ready (h : k.Turned k' c) (hr : k.Ready i) : k'.Ready i := by
  obtain ⟨e, he, hs⟩ := hr
  obtain ⟨e', he', ht⟩ := h.env i e he
  exact ⟨e', he', ht.isRunnable.trans hs⟩

/-! ## What changes nothing else -/

theorem log (k : Kernel) (c : EnvId) (l : Line) : k.Turned (k.log l) c :=
  ⟨rfl, rfl, .of_envs rfl, fun _ e h => ⟨e, h, .refl e _⟩, .refl _⟩

/-- What happens to one environment, and to the scheduler. -/
theorem modifyEnv {f : Env → Env} (hf : ∀ e, (f e).id = e.id) (hp : ∀ e, (f e).parent = e.parent)
    (ht : ∀ e, k.env? i = some e → e.Turned (f e) (i = c)) {s : Scheduler} (hs : s.members.Perm k.scheduler.members) :
    k.Turned { k.modifyEnv i f with scheduler := s } c where
  config := rfl
  pools := rfl
  sameTags := .modifyEnv k i hf hp
  env j e he := by
    have henv : (k.modifyEnv i f).env? j = _ := env?_modifyEnv hf j
    rw [he] at henv
    refine ⟨_, henv, ?_⟩
    split
    next hij =>
      subst hij
      exact ht e he
    · exact .refl e _
  members := hs

/-- A program has its own registers changed. -/
theorem modifyRegs (k : Kernel) (c : EnvId) (f : Registers → Registers) :
    k.Turned (k.modifyEnv c fun e => { e with regs := f e.regs }) c :=
  modifyEnv (f := fun e => { e with regs := f e.regs }) (fun _ => rfl) (fun _ => rfl)
    (fun _ _ => ⟨rfl, rfl, .inl rfl, rfl, .inl rfl, rfl, rfl⟩) (.refl _)

theorem setStatus (hr : k.Ready i) {st : EnvStatus} (hst : st.isRunnable) {s : Scheduler}
    (hs : s.members.Perm k.scheduler.members) (c : EnvId) : k.Turned { k.setStatus i st with scheduler := s } c := by
  obtain ⟨e, he, hr⟩ := hr
  refine modifyEnv (f := fun e => { e with status := st }) (fun _ => rfl) (fun _ => rfl) (fun e' he' => ?_) hs
  cases he.symm.trans he'
  exact ⟨rfl, rfl, .inr ⟨hr, hst⟩, rfl, .inr rfl, rfl, rfl⟩

theorem preempt (k : Kernel) (c : EnvId) : k.Turned k.preempt c := by
  unfold Kernel.preempt
  split
  · exact .refl k c
  next i _ =>
    refine modifyEnv (f := fun e => if e.status = .running then { e with status := .runnable } else e)
      (fun e => by split <;> rfl) (fun e => by split <;> rfl) (fun e _ => ?_) (.of_eq Scheduler.members_yieldCurrent)
    split
    next hs => exact ⟨rfl, rfl, .inr ⟨by rw [hs]; rfl, rfl⟩, rfl, .inr rfl, rfl, rfl⟩
    · exact .refl e _

/-- **Whoever waits takes the processor.** -/
theorem dispatch (hp : k.scheduler.Proper) (hi : k.scheduler.Holds i) (hr : k.Ready i) (h : k.dispatch i = .ok k')
    (c : EnvId) : k.Turned k' c := by
  obtain ⟨-, -, -, ⟨-, rfl⟩ | ⟨-, rfl⟩⟩ := dispatch_ok h
  · exact setStatus hr rfl (.refl _) c
  have hpre := preempt k c
  have hnone : k.preempt.scheduler.current = none := by
    unfold Kernel.preempt
    split
    next hc => exact hc
    · rfl
  have hproper : k.preempt.scheduler.Proper := by
    have hsch : k.preempt.scheduler = k.roster.preempt.scheduler := congrArg Roster.scheduler (roster_preempt k)
    rw [hsch]
    exact Roster.proper_preempt hp
  have hqueued : i ∈ k.preempt.scheduler.queue := by
    refine (hpre.holds_iff.2 hi).resolve_right fun hc => ?_
    rw [hnone] at hc
    cases hc
  exact hpre.trans (setStatus (hpre.ready hr) rfl (hproper.perm_members_setCurrent hnone hqueued) c)

/-- **A program gives the processor away**, and the next one has it. -/
theorem yield (hs : k.Scheduled) (hc : k.Ready c) {a : CallArgs} {r : Except SysError Word}
    (h : Syscall.Effect k c a .yield r k') (hr : r = .ok 0) : k.Turned k' c := by
  cases h with
  | refused => cases hr
  | passed he hq => exact setStatus hc rfl (.of_eq Scheduler.members_yieldCurrent) c
  | @yielded e next rest he hq =>
    have hnext : k.Ready next := by
      refine hs next (Scheduler.holds_yieldCurrent.1 (Or.inl ?_))
      rw [hq]
      exact List.mem_cons_self
    have hperm : Scheduler.members { queue := rest, current := some next } |>.Perm k.scheduler.members := by
      have hp := Scheduler.perm_members_scheduleNext (s := k.scheduler.yieldCurrent) rfl
      rw [Scheduler.scheduleNext, hq, Scheduler.members_yieldCurrent] at hp
      exact hp
    have h₁ : k.Turned { k.setStatus c .runnable with scheduler := { queue := rest, current := some next } } c :=
      setStatus hc rfl hperm c
    exact h₁.trans (setStatus (h₁.ready hnext) rfl (.refl _) c)

end Turned
end Kernel
end Exokernel
