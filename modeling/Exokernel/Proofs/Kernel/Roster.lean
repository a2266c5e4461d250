import Exokernel.Proofs.Env.Map
import Exokernel.Proofs.Kernel.Confinement
/-!
# Who runs and who waits

What decides who runs is the scheduler with the status of every environment, and what decides who waits is the mailboxes.
An event moves them in one of a few ways (`Kernel.moves`), which say nothing of memory or registers; what holds of the
processor and of messages is derived from these.
-/
namespace Exokernel

/-! ## Calls -/

namespace Event

/-- A program calls a service. -/
def Calls (event : Event) (c : EnvId) (s : Service) (args : Vector Word 5) : Prop :=
  ∃ number : Word, event = .perform c (.ecall number args) ∧ number.toNat = s.number

/-- A program asks that an environment may run. -/
def Allows (event : Event) (i : EnvId) : Prop :=
  ∃ c args t, event.Calls c .envSetStatus args ∧ EnvStatus.ofCode? args[1].toNat = some .runnable ∧
    EnvId.ofWord? args[0] = some t ∧ t.meant c = i

/-- Who asks to send what. -/
def request? : Event → Option (EnvId × SendRequest)
  | .perform c (.ecall number args) =>
    if number.toNat = Service.ipcTrySend.number then (Syscall.ipcTrySendArgs (args.push 0)).toOption.map (Prod.mk c)
    else none
  | _ => none

end Event

namespace Kernel

/-- How the call ends that an event is. -/
def outcome (k : Kernel) : Event → Option Ecall
  | .perform c (.ecall number args) => some (k.ecall c number args).1
  | _ => none

/-- A program is granted that an environment may run. -/
def Lets (k : Kernel) (event : Event) (i : EnvId) : Prop := event.Allows i ∧ k.outcome event = some (.returned 0)

/-- A program begins to wait for a message. -/
def Receives (k : Kernel) (event : Event) (c : EnvId) : Prop :=
  ∃ args, event.Calls c .ipcRecv args ∧ k.outcome event = some .blocked

/-- The permission with which an environment gets a page that it is offered: none if it asked for none. -/
def granted (k : Kernel) (t : EnvId) (page : Option (VirtAddr × Perm)) : Perm :=
  match page, (k.env? t).bind fun e => e.mailbox.target with
  | some (_, p), some _ => p
  | _, _ => .empty

end Kernel

/-! ## Rosters -/

/-- What an environment is doing, and what it waits for. -/
structure Stance where
  status : EnvStatus
  mailbox : Mailbox

/-- A new environment neither runs nor waits for a message. -/
def Stance.fresh : Stance := ⟨.notRunnable, {}⟩

def Env.stance (e : Env) : Stance := ⟨e.status, e.mailbox⟩

/-- The scheduler, and the stance of every live environment. -/
structure Roster where
  scheduler : Scheduler
  stances : EnvMap Stance

namespace Roster

def set (r : Roster) (i : EnvId) (o : Option Stance) : Roster := { r with stances := r.stances.set i o }

/-- An environment takes a stance and may run. -/
def enlist (r : Roster) (i : EnvId) (s : Stance) : Roster := ⟨r.scheduler.enqueue i, r.stances.set i (some s)⟩

theorem enlist_ne_none {r : Roster} {i j : EnvId} {s : Stance} (h : r.stances j ≠ none) :
    (r.enlist i s).stances j ≠ none := by
  by_cases hj : i = j
  · subst hj
    simp [enlist]
  · simpa only [enlist, EnvMap.set_of_ne hj] using h

/-- An environment takes a stance, or none any more, and may not run. -/
def dismiss (r : Roster) (i : EnvId) (o : Option Stance) : Roster := ⟨r.scheduler.remove i, r.stances.set i o⟩

def setStatus (r : Roster) (i : EnvId) (status : EnvStatus) : Roster :=
  { r with stances := r.stances.modify i fun s => { s with status } }

theorem setStatus_eq {r : Roster} {i : EnvId} {s : Stance} (h : r.stances i = some s) (status : EnvStatus) :
    r.setStatus i status = r.set i (some { s with status }) := by
  rw [setStatus, EnvMap.modify_of_eq_some h, set]

/-- The holder of the processor, still running or not, goes back to the queue. -/
def preempt (r : Roster) : Roster :=
  match r.scheduler.current with
  | none => r
  | some i =>
    ⟨r.scheduler.yieldCurrent, r.stances.modify i fun s => if s.status = .running then { s with status := .runnable } else s⟩

/-- The first in the queue gets the processor. -/
def advance (r : Roster) : Roster :=
  match r.scheduler.queue with
  | [] => r
  | i :: rest => setStatus { r with scheduler := { queue := rest, current := some i } } i .running

theorem advance_of_nil {r : Roster} (h : r.scheduler.queue = []) : r.advance = r := by
  unfold advance
  rw [h]

theorem advance_of_cons {r : Roster} {i : EnvId} {rest : List EnvId} (h : r.scheduler.queue = i :: rest) :
    r.advance = setStatus { r with scheduler := { queue := rest, current := some i } } i .running := by
  unfold advance
  rw [h]

/-- An environment gives the processor to the next. -/
def yield (r : Roster) (c : EnvId) : Roster :=
  advance { r.setStatus c .runnable with scheduler := r.scheduler.yieldCurrent }

/-- An environment gets the processor, whoever holds it. -/
def dispatch (r : Roster) (i : EnvId) : Roster :=
  if r.scheduler.current = some i then r.setStatus i .running
  else setStatus { r.preempt with scheduler := r.preempt.scheduler.setCurrent (some i) } i .running

end Roster

namespace Kernel

variable {k k' : Kernel} {i j c : EnvId} {e : Env}

def roster (k : Kernel) : Roster := ⟨k.scheduler, fun i => (k.env? i).map Env.stance⟩

theorem stances_of_env? (h : k.env? i = some e) : k.roster.stances i = some e.stance := by
  show (k.env? i).map Env.stance = _
  rw [h, Option.map_some]

theorem stances_of_env?_none (h : k.env? i = none) : k.roster.stances i = none := by
  show (k.env? i).map Env.stance = _
  rw [h, Option.map_none]

theorem env?_of_stances {s : Stance} (h : k.roster.stances i = some s) : ∃ e, k.env? i = some e ∧ e.stance = s :=
  Option.map_eq_some_iff.1 h

/-! ## What leaves the roster alone -/

theorem roster_eq (hs : k'.scheduler = k.scheduler)
    (he : ∀ j, (k'.env? j).map Env.stance = (k.env? j).map Env.stance) : k'.roster = k.roster := by
  simp only [roster, hs, he]

theorem roster_of_bare (h : k'.bare = k.bare) : k'.roster = k.roster := by
  have hs : k'.scheduler = k.scheduler := show k'.bare.scheduler = k.scheduler by rw [h]; rfl
  exact roster_eq hs fun j => by rw [env?_congr (envs_of_bare h)]

theorem roster_modifyEnv {f : Env → Env} {g : Stance → Stance} (hf : ∀ e, (f e).id = e.id)
    (hg : ∀ e, (f e).stance = g e.stance) :
    (k.modifyEnv i f).roster = { k.roster with stances := k.roster.stances.modify i g } := by
  unfold roster
  congr 1
  funext j
  rw [env?_modifyEnv hf, EnvMap.modify_apply, Option.map_map, Option.map_map]
  congr 1
  funext e
  show (if i = j then f e else e).stance = if i = j then g e.stance else e.stance
  split
  · exact hg e
  · rfl

theorem roster_modifyEnv_eq {f : Env → Env} (hf : ∀ e, (f e).id = e.id) (hs : ∀ e, (f e).stance = e.stance) :
    (k.modifyEnv i f).roster = k.roster := by
  refine roster_eq rfl fun j => ?_
  rw [env?_modifyEnv hf, Option.map_map]
  congr 1
  funext e
  show (if i = j then f e else e).stance = e.stance
  split
  · exact hs e
  · rfl

@[simp] theorem roster_withScheduler (k : Kernel) (s : Scheduler) :
    roster { k with scheduler := s } = { k.roster with scheduler := s } := rfl

@[simp] theorem roster_log (k : Kernel) (l : Line) : (k.log l).roster = k.roster := rfl

@[simp] theorem roster_setRegisters (k : Kernel) (i : EnvId) (r : Registers) : (k.setRegisters i r).roster = k.roster :=
  roster_modifyEnv_eq (f := fun e => { e with regs := r }) (fun _ => rfl) fun _ => rfl

theorem roster_setA0 (k : Kernel) (i : EnvId) (w : Word) :
    (k.modifyEnv i fun e => { e with regs := e.regs.setA0 w }).roster = k.roster :=
  roster_modifyEnv_eq (f := fun e => { e with regs := e.regs.setA0 w }) (fun _ => rfl) fun _ => rfl

theorem roster_setStatus (k : Kernel) (i : EnvId) (s : EnvStatus) : (k.setStatus i s).roster = k.roster.setStatus i s :=
  roster_modifyEnv (f := fun e => { e with status := s }) (fun _ => rfl) fun _ => rfl

theorem roster_mapInto {f : Frame} {v : VirtAddr} {p : Perm} (h : k.mapInto e f v p = (.ok (), k')) :
    k'.roster = k.roster := by
  obtain ⟨s, m, -, rfl⟩ := mapInto_ok h
  exact roster_modifyEnv_eq (k := { k with machine := m }) (f := fun e => { e with space := s }) (fun _ => rfl)
    fun _ => rfl

theorem roster_unmapFrom (k : Kernel) (e : Env) (v : VirtAddr) : (k.unmapFrom e v).roster = k.roster := by
  unfold unmapFrom
  cases hu : e.space.unmap k.machine v with
  | mk s m =>
    exact roster_modifyEnv_eq (k := { k with machine := m }) (f := fun e => { e with space := s }) (fun _ => rfl)
      fun _ => rfl

theorem Remapped.roster (h : k.Remapped k' i) (he : k.env? i = some e) : k'.roster = k.roster := by
  refine roster_eq h.scheduler fun j => ?_
  by_cases hj : j = i
  · subst hj
    obtain ⟨s, hs⟩ := h.self e he
    rw [he, hs]
    rfl
  · rw [h.other j hj]

theorem roster_conclude (c : EnvId) (number : Word) (r : Except SysError Word × Kernel) :
    (conclude c number r).2.roster = r.2.roster :=
  conclude_induction (Q := fun k => k.roster = r.2.roster) c number rfl (fun _ _ h => h) fun k ret h =>
    (roster_setA0 k c ret).trans h

theorem roster_transfer {t : Env} {offered : Option (Frame × Perm)} {p : Perm}
    (h : k.transfer t offered = (.ok p, k')) : k'.roster = k.roster := by
  rcases Syscall.transfer_ok h with ⟨rfl, -, -⟩ | ⟨f, v, -, -, hm⟩
  · rfl
  · exact roster_mapInto hm

/-! ## Making and ending environments -/

theorem roster_createEnv {H : List Frame} (hk : k.Sound H) {parent : Option EnvId} (h : k.createEnv parent = (.ok i, k')) :
    k.roster.stances i = none ∧ k'.roster = k.roster.set i (some .fresh) := by
  obtain ⟨hnone, f, henv⟩ := env?_createEnv hk h
  have hsch : k'.scheduler = k.scheduler := by
    obtain ⟨n, g, m, -, -, -, rfl⟩ := createEnv_ok h
    rfl
  refine ⟨stances_of_env?_none hnone, ?_⟩
  unfold roster Roster.set
  rw [hsch]
  congr 1
  funext j
  rw [henv]
  by_cases hj : i = j
  · subst hj
    rw [if_pos rfl, EnvMap.set_self]
    rfl
  · rw [if_neg hj, EnvMap.set_of_ne hj]

theorem roster_destroyEnv (h : k.destroyEnv i = (.ok (), k')) : k'.roster = k.roster.dismiss i none := by
  have hsch : k'.scheduler = k.scheduler.remove i := by
    obtain ⟨e, -, rfl⟩ := destroyEnv_ok h
    rfl
  unfold roster Roster.dismiss
  rw [hsch]
  congr 1
  funext j
  rw [env?_destroyEnv h]
  by_cases hj : i = j
  · subst hj
    rw [if_pos rfl, EnvMap.set_self]
    rfl
  · rw [if_neg hj, EnvMap.set_of_ne hj]

/-! ## Moves -/

/-- **What an event can make of the roster.** -/
inductive Moves (k : Kernel) (event : Event) : Roster → Prop where
  | rested : Moves k event k.roster
  | made {i : EnvId} (h : k.roster.stances i = none) : Moves k event (k.roster.set i (some .fresh))
  | started {i : EnvId} (h : k.roster.stances i = none) :
      Moves k event (k.roster.enlist i { Stance.fresh with status := .runnable })
  | ended {i : EnvId} : Moves k event (k.roster.dismiss i none)
  | allowed {i : EnvId} {s : Stance} (he : k.Lets event i) (h : k.roster.stances i = some s) :
      Moves k event (k.roster.enlist i { s with status := .runnable })
  | stopped {i : EnvId} {s : Stance} (h : k.roster.stances i = some s) :
      Moves k event (k.roster.dismiss i (some { s with status := .notRunnable }))
  | yielded {c : EnvId} {s : Stance} {op : CpuOp} (he : event = .perform c op) (h : k.roster.stances c = some s) :
      Moves k event (k.roster.yield c)
  | sent {c t : EnvId} {req : SendRequest} {s : Stance} (hr : event.request? = some (c, req))
      (ho : k.outcome event = some (.returned 0)) (ht : req.receiver.meant c = t) (h : k.roster.stances t = some s)
      (hs : s.mailbox.receiving) :
      Moves k event (k.roster.enlist t ⟨.runnable, s.mailbox.deliver c req.value (k.granted t req.page)⟩)
  | awaited {c : EnvId} {s : Stance} {target : Option VirtAddr} (he : k.Receives event c)
      (h : k.roster.stances c = some s) :
      Moves k event (k.roster.dismiss c (some ⟨.notRunnable, s.mailbox.await target⟩))
  | scheduled : Moves k event k.roster.preempt.advance
  | dispatched {i : EnvId} {s : Stance} (h : k.roster.stances i = some s) (hs : s.status.isRunnable) :
      Moves k event (k.roster.dispatch i)

/-! ## Calls that move it -/

theorem meant_of_authorizeWord {w : Word} {t : Env} (h : Syscall.authorizeWord k c w = .ok t) :
    ∃ i, EnvId.ofWord? w = some i ∧ i.meant c = t.id := by
  unfold Syscall.authorizeWord Syscall.decodeEnv at h
  cases hi : EnvId.ofWord? w with
  | none =>
    rw [hi] at h
    cases h
  | some i =>
    rw [hi] at h
    exact ⟨i, rfl, (id_of_authorize h).symm⟩

theorem roster_wake {t : EnvId} {s : Stance} (h : k.roster.stances t = some s) (c : EnvId) (value : UInt32) (p : Perm) :
    (k.wake t c value p).roster = k.roster.enlist t ⟨.runnable, s.mailbox.deliver c value p⟩ := by
  unfold wake
  rw [roster_withScheduler, roster_modifyEnv (g := fun s => ⟨.runnable, s.mailbox.deliver c value p⟩) (f := fun e =>
    { e with mailbox := e.mailbox.deliver c value p, regs := e.regs.setA0 0, status := .runnable }) (fun _ => rfl)
    fun _ => rfl, EnvMap.modify_of_eq_some h]
  rfl

theorem ipcTrySendArgs_eq {a : CallArgs} {args : Vector Word 5} (h : ∀ x (hx : x < 5), a.word x = args[x]) :
    Syscall.ipcTrySendArgs a = Syscall.ipcTrySendArgs (args.push 0) := by
  have get (x : Nat) (hx : x < 5) : a.word x = CallArgs.word (args.push 0) x := by
    rw [h x hx, CallArgs.word_eq_getElem _ (by omega), Vector.getElem_push, dif_pos hx]
  simp only [Syscall.ipcTrySendArgs, get 0 (by decide), get 1 (by decide), get 2 (by decide), get 3 (by decide)]

/-- The permission of a page that was sent is the one it was granted with. -/
theorem perm_of_transfer {k₁ : Kernel} {req : SendRequest} {t te : Env} {offered : Option (Frame × Perm)} {p : Perm}
    (hs : k.checkSend c req = .ok (t, offered)) (ht : k.transfer t offered = (.ok p, k₁)) (he : k'.env? t.id = some te)
    (hm : te.mailbox = t.mailbox) : k'.granted t.id req.page = p := by
  obtain ⟨-, -, ho⟩ := Syscall.checkSend_ok hs
  unfold granted
  rw [he, Option.bind_some, hm]
  rcases Syscall.transfer_ok ht with ⟨-, rfl, rfl | hno⟩ | ⟨f, v, rfl, htv, -⟩
  · rw [Syscall.offer_none ho]
  · rw [hno]
    split
    next h => cases h
    · rfl
  · obtain ⟨-, sv, -, -, hpage, -⟩ := Syscall.offer_some ho
    rw [hpage, htv]

/-- **What becomes of the roster when a message is handed over**: its receiver has it, and may run. -/
theorem roster_delivered {k₁ : Kernel} {req : SendRequest} {t : Env} {offered : Option (Frame × Perm)} {p : Perm}
    (hs : k.checkSend c req = .ok (t, offered)) (ht : k.transfer t offered = (.ok p, k₁)) :
    ((k₁.wake t.id c req.value p).log (.delivered c t.id req.value p)).roster =
      k.roster.enlist t.id ⟨.runnable, t.mailbox.deliver c req.value p⟩ := by
  have hstance := stances_of_env? (Syscall.checkSend_ok hs).1
  rw [← roster_transfer ht] at hstance
  rw [roster_log, roster_wake hstance, roster_transfer ht]
  rfl

section call
variable {k₀ : Kernel} {number : Word} {args : Vector Word 5} {a : CallArgs} {s : Service} {r : Except SysError Word}

/-- **A call that goes through is answered**, if its caller is still there. -/
theorem outcome_of_ok {w : Word} (hc : k'.roster.stances c ≠ none)
    (ho : (k.ecall c number args).1 = (conclude c number (.ok w, k')).1) :
    k.outcome (.perform c (.ecall number args)) = some (.returned w) := by
  rw [conclude, answer_of_env? fun hn => hc (stances_of_env?_none hn)] at ho
  exact congrArg some ho

theorem moves_statusSet {t : Env} {s : EnvStatus} (hr : k₀.roster = k.roster) (hc : k.roster.stances c ≠ none)
    (ha : ∀ x (hx : x < 5), a.word x = args[x]) (hn : Service.envSetStatus.number = number.toNat)
    (hargs : Syscall.envSetStatusArgs k₀ c a = .ok (t, s))
    (hk' : k' = { k₀.setStatus t.id s with
      scheduler := if s = .runnable then k₀.scheduler.enqueue t.id else k₀.scheduler.remove t.id })
    (ho : (k.ecall c number args).1 = (conclude c number (.ok 0, k')).1) :
    k.Moves (.perform c (.ecall number args)) k'.roster := by
  obtain ⟨hcode, hau, hst⟩ := Syscall.envSetStatusArgs_ok hargs
  have hstance := stances_of_env? (Syscall.authorizeWord_ok hau).1
  rw [hr] at hstance
  have hsch : k₀.scheduler = k.roster.scheduler := congrArg Roster.scheduler hr
  have hroster : k'.roster = { k.roster.set t.id (some { t.stance with status := s }) with
      scheduler := if s = .runnable then k.roster.scheduler.enqueue t.id else k.roster.scheduler.remove t.id } := by
    rw [hk', roster_withScheduler, roster_setStatus, hr, hsch, Roster.setStatus_eq hstance]
  rcases hst with rfl | rfl
  · rw [if_pos rfl] at hroster
    obtain ⟨i, hi, hmeant⟩ := meant_of_authorizeWord hau
    rw [ha 0 (by decide)] at hi
    rw [ha 1 (by decide)] at hcode
    have hlive : k'.roster.stances c ≠ none := by
      rw [hroster]
      exact Roster.enlist_ne_none hc
    rw [hroster]
    exact .allowed ⟨⟨c, args, i, ⟨number, rfl, hn.symm⟩, hcode, hi, hmeant⟩, outcome_of_ok hlive ho⟩ hstance
  · rw [hroster, if_neg (by decide)]
    exact .stopped hstance

theorem moves_sent {req : SendRequest} {t : Env} {offered : Option (Frame × Perm)} {p : Perm} {k₁ : Kernel}
    (hr : k₀.roster = k.roster) (hc : k.roster.stances c ≠ none) (ha : ∀ x (hx : x < 5), a.word x = args[x])
    (hn : Service.ipcTrySend.number = number.toNat) (hreq : Syscall.ipcTrySendArgs a = .ok req)
    (hs : k₀.checkSend c req = .ok (t, offered)) (ht : k₀.transfer t offered = (.ok p, k₁))
    (hk' : k' = (k₁.wake t.id c req.value p).log (.delivered c t.id req.value p))
    (ho : (k.ecall c number args).1 = (conclude c number (.ok 0, k')).1) :
    k.Moves (.perform c (.ecall number args)) k'.roster := by
  obtain ⟨htid, hrec, -⟩ := Syscall.checkSend_ok hs
  have hstance := stances_of_env? htid
  have hroster := roster_delivered hs ht
  rw [hr] at hstance hroster
  rw [← hk'] at hroster
  have hlive : k'.roster.stances c ≠ none := by
    rw [hroster]
    exact Roster.enlist_ne_none hc
  obtain ⟨te, hte, hst⟩ := env?_of_stances hstance
  rw [hroster, ← perm_of_transfer hs ht hte (congrArg Stance.mailbox hst)]
  refine .sent (c := c) (s := t.stance) ?_ (outcome_of_ok hlive ho) (Syscall.meant_of_checkSend hs) hstance hrec
  rw [Event.request?, if_pos hn.symm, ← ipcTrySendArgs_eq ha, hreq]
  rfl

theorem moves_effect (h : Syscall.Effect k₀ c a s r k') (hk : k₀.Sound []) (hr : k₀.roster = k.roster)
    (hc : k.roster.stances c ≠ none) (ha : ∀ x (hx : x < 5), a.word x = args[x]) (hn : s.number = number.toNat)
    (ho : (k.ecall c number args).1 = (conclude c number (r, k')).1) :
    k.Moves (.perform c (.ecall number args)) k'.roster := by
  cases h with
  | refused hb =>
    rw [roster_of_bare hb, hr]
    exact .rested
  | named =>
    rw [hr]
    exact .rested
  | destroyed ht hd =>
    rw [roster_log, roster_destroyEnv hd, hr]
    exact .ended
  | @allocated t v p f k₁ k₂ ha hf hm =>
    obtain ⟨m, -, rfl⟩ := allocFrame_some hf
    have h₂ : k₂.roster = k₀.roster := roster_mapInto (k := { k₀ with machine := m }) hm
    show k.Moves _ k₂.roster
    rw [h₂, hr]
    exact .rested
  | mapped ha hm =>
    rw [roster_mapInto hm, hr]
    exact .rested
  | unmapped ha =>
    rw [roster_unmapFrom, hr]
    exact .rested
  | forked hp hc =>
    obtain ⟨hnone, hset⟩ := roster_createEnv hk hc
    rw [hr] at hnone hset
    rw [roster_log, roster_setRegisters, hset]
    exact .made hnone
  | statusSet hargs => exact moves_statusSet hr hc ha hn hargs rfl ho
  | registersSet ha =>
    rw [roster_setRegisters, hr]
    exact .rested
  | upcallSet ha =>
    rw [roster_modifyEnv_eq (f := fun e => { e with upcall := some (a.word 1) }) (fun _ => rfl) fun _ => rfl, hr]
    exact .rested
  | passed he hq =>
    have hsch : k₀.scheduler = k.roster.scheduler := congrArg Roster.scheduler hr
    have hstance := stances_of_env? he
    rw [hsch] at hq
    rw [hr] at hstance
    rw [roster_withScheduler, roster_setStatus, hr, hsch, ← Roster.advance_of_nil (r := { k.roster.setStatus c .runnable with
      scheduler := k.roster.scheduler.yieldCurrent }) hq]
    exact .yielded rfl hstance
  | @yielded e next rest he hq =>
    have hsch : k₀.scheduler = k.roster.scheduler := congrArg Roster.scheduler hr
    have hstance := stances_of_env? he
    rw [hsch] at hq
    rw [hr] at hstance
    rw [roster_setStatus, roster_withScheduler, roster_setStatus, hr, ← Roster.advance_of_cons
      (r := { k.roster.setStatus c .runnable with scheduler := k.roster.scheduler.yieldCurrent }) hq]
    exact .yielded rfl hstance
  | sent hreq hs ht => exact moves_sent hr hc ha hn hreq hs ht rfl ho
  | @waiting e target ht he =>
    have hsch : k₀.scheduler = k.roster.scheduler := congrArg Roster.scheduler hr
    have hstance := stances_of_env? he
    rw [hr] at hstance
    rw [roster_withScheduler, roster_modifyEnv (g := fun s => ⟨.notRunnable, s.mailbox.await target⟩)
      (f := fun e => { e with mailbox := e.mailbox.await target, status := .notRunnable }) (fun _ => rfl) fun _ => rfl,
      hr, hsch, EnvMap.modify_of_eq_some hstance]
    refine .awaited ⟨args, ⟨number, rfl, hn.symm⟩, ?_⟩ hstance
    exact congrArg some ho

end call

theorem moves_ecall (hk : k.Sound []) (c : EnvId) (number : Word) (args : Vector Word 5) :
    k.Moves (.perform c (.ecall number args)) (k.ecall c number args).2.roster := by
  cases he : k.env? c with
  | none =>
    rw [ecall, he]
    exact .rested
  | some e =>
    have hout := congrArg Prod.fst (ecall_eq he number args)
    rw [ecall_eq he, roster_conclude]
    rcases SyscallTable.dispatch_standard number.toNat (k.setRegisters c (e.regs.called number args)) c
      (argsOf (e.regs.called number args)) with h | ⟨s, hs, h⟩
    · rw [h, roster_setRegisters]
      exact .rested
    · rw [h] at hout ⊢
      have hk₀ := hk.setRegisters c (e.regs.called number args)
      refine moves_effect (Syscall.effect _ c _ hk₀ s) hk₀ (roster_setRegisters k c _) ?_
        (fun _ hx => word_argsOf_called _ _ _ hx) hs hout
      rw [stances_of_env? he]
      simp

/-! ## Other events that move it -/

theorem moves_destroyEnv (k : Kernel) (event : Event) (i : EnvId) : k.Moves event (k.destroyEnv i).2.roster := by
  cases he : k.env? i with
  | none =>
    rw [destroyEnv_of_env?_none he]
    exact .rested
  | some e =>
    have h := destroyEnv_of_env? he
    rw [h, roster_destroyEnv h]
    exact .ended

theorem moves_raise (he : k.env? i = some e) (event : Event) (f : PageFault) :
    k.Moves event (k.raise i f).2.roster := by
  rcases raise_cases he (Prod.eta (k.raise i f)).symm with ⟨-, k₁, hb, h⟩ | ⟨entry, record, k₁, m, -, -, hb, -, -, h⟩
  · have hd := destroyEnv_of_env? ((env?_congr (envs_of_bare hb) i).trans he)
    rw [h, hd, roster_destroyEnv hd, roster_of_bare hb]
    exact .ended
  · have hr : roster { k₁ with machine := m } = k.roster :=
      show k₁.roster = k.roster from roster_of_bare hb
    rw [h, roster_log, roster_setRegisters, hr]
    exact .rested

theorem moves_perform (hk : k.Sound []) (i : EnvId) (op : CpuOp) : k.Moves (.perform i op) (k.perform i op).roster := by
  refine perform_induction (Q := fun k' => k.Moves (.perform i op) k'.roster) k i op .rested
    (fun _ f he => moves_raise he _ f) (fun _ _ _ _ _ _ => .rested) (fun r _ => ?_) fun number args h => ?_
  · rw [roster_setRegisters]
    exact .rested
  · subst h
    exact moves_ecall hk i number args

theorem roster_loadImage_ok {img : Image} {brk : Nat} (he : ∃ e, k.env? i = some e)
    (h : k.loadImage i img brk = (.ok (), k')) : k'.roster = k.roster.setStatus i .runnable := by
  obtain ⟨e, he⟩ := he
  obtain ⟨k₁, hr, rfl⟩ := Remapped.loadImage_ok h
  rw [roster_modifyEnv (g := fun s => { s with status := .runnable }) (f := fun e => { e with
    regs := { e.regs.setSp stackTop.toUInt64 with sepc := textBase.toUInt64 }, status := .runnable }) (fun _ => rfl)
    fun _ => rfl, hr.roster he]
  rfl

theorem moves_spawn (hk : k.Sound []) (hs : k.Scheduled) (img : Image) :
    k.Moves (.spawn img) (k.spawn img).2.roster := by
  rcases h : k.spawn img with ⟨err | s, k'⟩
  · rcases spawn_error h with rfl | ⟨e, hc⟩ | ⟨i, brk, k₁, k₂, -, hc, hl, rfl⟩
    · exact .rested
    · rw [roster_of_bare (bare_createEnv_error hc)]
      exact .rested
    · -- the environment was made, never scheduled, and ended
      obtain ⟨hnone, hset⟩ := roster_createEnv hk hc
      obtain ⟨hn, f, henv⟩ := env?_createEnv hk hc
      have hlive := (henv i).trans (if_pos rfl)
      have hunheld : ¬ k.scheduler.Holds i := by
        intro hi
        obtain ⟨e, he, -⟩ := hs i hi
        rw [hn] at he
        cases he
      have hroster : (k₂.log (.spawnFailed i err)).roster = k.roster.set i (some .fresh) := by
        rw [roster_log, (Remapped.loadImage_error hl).roster hlive, hset]
      obtain ⟨e, he, -⟩ := env?_of_stances (k := k₂.log (.spawnFailed i err)) (i := i) (by
        rw [hroster]
        exact EnvMap.set_self)
      have hd := destroyEnv_of_env? he
      have hback : (k.roster.set i (some .fresh)).dismiss i none = k.roster := by
        unfold Roster.set Roster.dismiss
        rw [EnvMap.set_set, EnvMap.set_eq_self hnone]
        exact congrArg (Roster.mk · _) (Scheduler.remove_eq_self hunheld)
      rw [hd, roster_destroyEnv hd, hroster, hback]
      exact .rested
  · obtain ⟨k₁, k₂, -, hc, hl, rfl⟩ := spawn_ok h
    obtain ⟨hnone, hset⟩ := roster_createEnv hk hc
    obtain ⟨-, f, henv⟩ := env?_createEnv hk hc
    have hroster := roster_loadImage_ok ⟨_, (henv s.id).trans (if_pos rfl)⟩ hl
    rw [hset, Roster.setStatus_eq EnvMap.set_self] at hroster
    have hsch : k₂.scheduler = k.roster.scheduler := congrArg Roster.scheduler hroster
    rw [roster_log, roster_withScheduler, hroster, hsch]
    have hstart : k.Moves (.spawn img) _ := .started hnone
    unfold Roster.enlist at hstart
    unfold Roster.set
    rwa [EnvMap.set_set]

theorem roster_preempt (k : Kernel) : k.preempt.roster = k.roster.preempt := by
  have hcur : k.roster.scheduler.current = k.scheduler.current := rfl
  rw [preempt, Roster.preempt, current, hcur]
  cases k.scheduler.current with
  | none => rfl
  | some i =>
    dsimp only
    rw [roster_withScheduler, roster_modifyEnv
      (g := fun s => if s.status = .running then { s with status := .runnable } else s)
      (f := fun e => if e.status = .running then { e with status := .runnable } else e)]
    · rfl
    · intro e
      split <;> rfl
    · intro e
      show (if e.status = .running then { e with status := .runnable } else e).stance =
        if e.status = .running then { e.stance with status := .runnable } else e.stance
      split <;> rfl

theorem roster_scheduleNext (k : Kernel) : k.scheduleNext.2.roster = k.roster.preempt.advance := by
  have hsch : k.preempt.scheduler = k.roster.preempt.scheduler := congrArg Roster.scheduler (roster_preempt k)
  unfold scheduleNext Scheduler.scheduleNext
  dsimp only
  cases hq : k.preempt.scheduler.queue with
  | nil =>
    rw [Roster.advance_of_nil (by rw [← hsch, hq]), ← roster_preempt]
  | cons i rest =>
    rw [Roster.advance_of_cons (by rw [← hsch, hq]), ← roster_preempt, roster_setStatus]
    rfl

theorem roster_dispatch (h : k.dispatch i = .ok k') :
    ∃ e, k.env? i = some e ∧ e.status.isRunnable ∧ k'.roster = k.roster.dispatch i := by
  have hc : k.roster.scheduler.current = k.current := rfl
  obtain ⟨e, he, hr, ⟨hi, rfl⟩ | ⟨hi, rfl⟩⟩ := dispatch_ok h
  all_goals
    refine ⟨e, he, hr, ?_⟩
    rw [Roster.dispatch, roster_setStatus, hc]
  · rw [if_pos hi]
  · rw [if_neg hi, roster_withScheduler, ← roster_preempt]
    rfl

/-- **Every event of a kernel moves its roster in one of these ways.** -/
theorem Reachable.moves (h : k.Reachable) (event : Event) : k.Moves event (k.step event).roster := by
  cases event with
  | spawn img => exact moves_spawn h.sound h.scheduled img
  | destroyEnv i => exact moves_destroyEnv k _ i
  | scheduleNext =>
    rw [Kernel.step, roster_scheduleNext]
    exact .scheduled
  | dispatch i =>
    unfold Kernel.step
    dsimp only
    split
    · exact .rested
    next k' hd =>
      obtain ⟨e, he, hr, hroster⟩ := roster_dispatch hd
      rw [hroster]
      exact .dispatched (stances_of_env? he) hr
  | perform i op => exact moves_perform h.sound i op
  | failAfter n =>
    rw [Kernel.step, roster_of_bare (bare_failAfter k n)]
    exact .rested
  | clearFailure =>
    rw [Kernel.step, roster_of_bare (bare_clearFailure k)]
    exact .rested

end Kernel
end Exokernel
