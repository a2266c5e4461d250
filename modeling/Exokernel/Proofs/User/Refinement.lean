import Exokernel.Proofs.User.Flat
import Exokernel.Proofs.User.ForkedSpace
import Exokernel.Proofs.User.Store
/-!
# Shared pages behave like copies

Processes that are started, forked and ended in any order, and that read and write their own memory and grow their heaps,
cannot tell the kernel from a world in which every program has a flat memory of its own.  The pages that a fork shares
are marked, a marked page is copied before it is written, and what may be written is mapped nowhere else: this invariant
makes every step of the kernel a step of the flat world with the same outcome.
-/
namespace Exokernel

open Kernel

/-! ## Processes on a kernel -/

/-- What is known of a process from outside. -/
structure Member where
  runtime : Runtime
  /-- It is not a child that is still to be taken up. -/
  resumed : Bool

/-- A kernel and its processes. -/
structure System where
  kernel : Kernel
  members : EnvMap Member

/-- The access is to memory that a program with a given heap owns. -/
def Access.Within (brk : Nat) : Access → Prop
  | .read va len => ∀ x, x < len → Owned brk (va.toNat + x)
  | .write va data => ∀ x, x < data.size → Owned brk (va.toNat + x)

namespace System

/-- The process may be asked to do something: it is one of the processes, or it is gone. -/
def Holds (s : System) (p : UserProcess) : Prop :=
  s.members p.env = some ⟨p.runtime, true⟩ ∨ s.kernel.env? p.env = none

/-- The child may be taken up. -/
def HoldsChild (s : System) (c : ForkedChild) : Prop :=
  s.members c.id = some ⟨c.runtime, false⟩ ∨ s.kernel.env? c.id = none

/-- Something went wrong for a process, which goes on or is gone. -/
def afterFailure (s : System) (k : Kernel) (p : UserProcess) : System :=
  ⟨k, s.members.set p.env (if (k.env? p.env).isSome then some ⟨p.runtime, true⟩ else none)⟩

/-- What is to be seen of that. -/
def failure (k : Kernel) (p : UserProcess) : Outcome := if (k.env? p.env).isSome then .nothing else .ended p.env

/-- **What can happen**: any process may do any of this at any time.  An access is to memory that the process owns. -/
inductive Step : System → Outcome → System → Prop where
  | spawned {s : System} {img : Image} {sp : Spawned} {k : Kernel} (h : s.kernel.spawn img = (.ok sp, k)) :
    Step s (.spawned sp.id img) ⟨k, s.members.set sp.id (some ⟨(UserProcess.ofEnv sp.id sp.brk.toUInt64).runtime, true⟩)⟩
  | spawnFailed {s : System} {img : Image} {err : SpawnError} {k : Kernel} (h : s.kernel.spawn img = (.error err, k)) :
    Step s .nothing { s with kernel := k }
  | read {s : System} {p : UserProcess} {n len : Nat} {va : Word} {bytes : Bytes} {k : Kernel} (hp : s.Holds p)
    (ho : (Access.read va len).Within p.runtime.brk.toNat)
    (h : p.access n s.kernel (.read va len) = some (.ok bytes, k)) :
    Step s (.read p.env va.toNat len bytes) { s with kernel := k }
  | wrote {s : System} {p : UserProcess} {n : Nat} {va : Word} {data done : Bytes} {k : Kernel} (hp : s.Holds p)
    (ho : (Access.write va data).Within p.runtime.brk.toNat)
    (h : p.access n s.kernel (.write va data) = some (.ok done, k)) :
    Step s (.wrote p.env va.toNat data) { s with kernel := k }
  | accessFailed {s : System} {p : UserProcess} {n : Nat} {a : Access} {cause : UserPanic} {k : Kernel} (hp : s.Holds p)
    (ho : a.Within p.runtime.brk.toNat) (h : p.access n s.kernel a = some (.error cause, k)) :
    Step s (failure k p) (s.afterFailure k p)
  | grew {s : System} {p p' : UserProcess} {increment old : Word} {k : Kernel} (hp : s.Holds p)
    (h : p.sbrk s.kernel increment = (.ok old, p', k)) :
    Step s (.grew p.env increment.toNat old.toNat) ⟨k, s.members.set p.env (some ⟨p'.runtime, true⟩)⟩
  | growFailed {s : System} {p p' : UserProcess} {increment : Word} {err : Errno} {k : Kernel} (hp : s.Holds p)
    (h : p.sbrk s.kernel increment = (.error err, p', k)) :
    Step s (failure k p') (s.afterFailure k p')
  | forked {s : System} {p p' : UserProcess} {c : ForkedChild} {k : Kernel} (hp : s.Holds p)
    (h : p.fork s.kernel = (.ok c, p', k)) :
    Step s (.forked p.env c.id)
      ⟨k, (s.members.set p.env (some ⟨p'.runtime, true⟩)).set c.id (some ⟨c.runtime, false⟩)⟩
  | forkFailed {s : System} {p p' : UserProcess} {err : ForkError} {k : Kernel} (hp : s.Holds p)
    (h : p.fork s.kernel = (.error err, p', k)) :
    Step s (failure k p') (s.afterFailure k p')
  | resumed {s : System} {c : ForkedChild} {p : UserProcess} {k : Kernel} (hc : s.HoldsChild c)
    (h : c.resume s.kernel = (.ok p, k)) :
    Step s .nothing ⟨k, s.members.set c.id (some ⟨p.runtime, true⟩)⟩
  | resumeFailed {s : System} {c : ForkedChild} {err : Errno} {k : Kernel} (hc : s.HoldsChild c)
    (h : c.resume s.kernel = (.error err, k)) :
    Step s .nothing { s with kernel := k }
  | destroyed {s : System} {i : EnvId} {k : Kernel} (h : s.kernel.destroyEnv i = (.ok (), k)) :
    Step s (.ended i) ⟨k, s.members.set i none⟩
  | destroyFailed {s : System} {i : EnvId} {err : EnvError} {k : Kernel} (h : s.kernel.destroyEnv i = (.error err, k)) :
    Step s .nothing { s with kernel := k }
  | failAfter (s : System) (n : Nat) : Step s .nothing { s with kernel := s.kernel.failAfter n }
  | clearFailure (s : System) : Step s .nothing { s with kernel := s.kernel.clearFailure }

/-- **What can have happened on a kernel since it was started.** -/
inductive History : List Outcome → System → Prop where
  | start {c : Config} {k : Kernel} (h : boot c = .ok k) : History [] ⟨k, fun _ => none⟩
  | step {os : List Outcome} {o : Outcome} {s s' : System} (h : History os s) (hs : s.Step o s') :
    History (os ++ [o]) s'

/-! ## What a process is to its flat memory -/

/-- **A process shows a flat memory**, on the pages that it owns. -/
structure Hosts (k : Kernel) (i : EnvId) (rt : Runtime) (m : FlatProgram) : Prop where
  runs : k.Runs i stackTop.toUInt64
  brk : rt.brk.toNat = m.brk
  aligned : m.brk % pageSize = 0
  stack : m.brk ≤ stackPage
  handler : UserProcess.CopiesOnWrite ⟨i, rt⟩
  shows (a : Nat) (ho : Owned m.brk a) : k.Shows i a (m.bytes a)

namespace Hosts

variable {k k' : Kernel} {i : EnvId} {rt rt' : Runtime} {m : FlatProgram}

theorem spared (h : Hosts k i rt m) (hs : k.Spares k' i) : Hosts k' i rt m :=
  { h with runs := hs.runs h.runs, shows := fun a ho => hs.shows (h.shows a ho) }

theorem inProgram (h : Hosts k i rt m) {a : Nat} (ho : Owned m.brk a) : InProgram a := ho.inProgram h.stack

/-- **What goes well leaves the memory.** -/
theorem served (h : Hosts k i rt m) (hs : k.Serves k' i stackTop.toUInt64) : Hosts k' i rt m :=
  { h with runs := hs.calm.runs, shows := fun a ho => hs.shows a _ (h.inProgram ho) (h.shows a ho) }

theorem withRuntime (h : Hosts k i rt m) (hb : rt'.brk = rt.brk) (hh : UserProcess.CopiesOnWrite ⟨i, rt'⟩) :
    Hosts k i rt' m :=
  { h with brk := by rw [hb, h.brk], handler := hh }

end Hosts

/-- **The kernel and the flat world agree**: nothing that may be written is shared, and every process shows its memory. -/
structure Refines (s : System) (w : FlatWorld) : Prop where
  sound : s.kernel.Sound []
  exclusive : s.kernel.mappings.Exclusive
  hosts (i : EnvId) : Option.Rel (fun r m => Hosts s.kernel i r.runtime m) (s.members i) (w i)

namespace Refines

variable {s : System} {w : FlatWorld} {k : Kernel} {i : EnvId} {r : Member} {m m' : FlatProgram}

theorem calm (h : Refines s w) {rt : Runtime} (hh : Hosts s.kernel i rt m) : s.kernel.Calm i stackTop.toUInt64 :=
  ⟨h.sound, h.exclusive, hh.runs⟩

theorem hosts_spared (h : Refines s w) (hs : s.kernel.Spares k i) :
    Option.Rel (fun r m => Hosts k i r.runtime m) (s.members i) (w i) := by
  have hi := h.hosts i
  generalize s.members i = r, w i = m at hi
  cases hi with
  | none => exact .none
  | some hh => exact .some (hh.spared hs)

theorem spared (h : Refines s w) (hk : k.Sound []) (hx : k.mappings.Exclusive) (hs : ∀ j, s.kernel.Spares k j) :
    Refines { s with kernel := k } w :=
  ⟨hk, hx, fun j => h.hosts_spared (hs j)⟩

theorem quiet (h : Refines s w) (hq : s.kernel.Quiet k) (hk : k.Sound []) : Refines { s with kernel := k } w :=
  h.spared hk (by rw [hq.mappings]; exact h.exclusive) hq.spares

/-- **What happens to one process happens to its memory.** -/
theorem changed (h : Refines s w) (hk : k.Sound []) (hx : k.mappings.Exclusive) {o : Option Member}
    {o' : Option FlatProgram} (hs : ∀ j, j ≠ i → s.kernel.Spares k j)
    (hh : Option.Rel (fun r m => Hosts k i r.runtime m) o o') : Refines ⟨k, s.members.set i o⟩ (w.set i o') := by
  refine ⟨hk, hx, fun j => ?_⟩
  show Option.Rel _ (s.members.set i o j) (w.set i o' j)
  by_cases hij : i = j
  · subst hij
    rw [EnvMap.set_self, EnvMap.set_self]
    exact hh
  · rw [EnvMap.set_of_ne hij, EnvMap.set_of_ne hij]
    exact h.hosts_spared (hs j (Ne.symm hij))

theorem present (h : Refines s w) (hi : s.members i = some r) : ∃ m, w i = some m ∧ Hosts s.kernel i r.runtime m := by
  have hh := h.hosts i
  rw [hi] at hh
  generalize w i = m at hh
  cases hh with
  | some hh => exact ⟨_, rfl, hh⟩

theorem absent (h : Refines s w) (hn : s.kernel.env? i = none) : w i = none := by
  have hh := h.hosts i
  generalize s.members i = r, w i = m at hh
  cases hh with
  | none => rfl
  | some hh =>
    obtain ⟨e, he, -⟩ := hh.runs
    rw [hn] at he
    cases he

theorem hosted (h : Refines s w) {p : UserProcess} (hp : s.Holds p) :
    (s.members p.env = some ⟨p.runtime, true⟩ ∧ ∃ m, w p.env = some m ∧ Hosts s.kernel p.env p.runtime m) ∨
      s.kernel.env? p.env = none := by
  rcases hp with hp | hp
  · exact Or.inl ⟨hp, h.present hp⟩
  · exact Or.inr hp

theorem served (h : Refines s w) (hr : s.members i = some r) (hm : w i = some m) (hh : Hosts s.kernel i r.runtime m)
    (hs : s.kernel.Serves k i stackTop.toUInt64) : Refines { s with kernel := k } w := by
  have := h.changed hs.calm.sound hs.calm.exclusive hs.spares (.some (hh.served hs))
  rwa [EnvMap.set_eq_self hr, EnvMap.set_eq_self hm] at this

/-! ## Failures -/

theorem goesOn (h : Refines s w) {p : UserProcess} (hm : w p.env = some m) (hk : k.Sound []) (hx : k.mappings.Exclusive)
    (hs : ∀ j, j ≠ p.env → s.kernel.Spares k j) (hh : Hosts k p.env p.runtime m) :
    ∃ w', w.Step (failure k p) w' ∧ Refines (s.afterFailure k p) w' := by
  obtain ⟨e, he, -, -⟩ := hh.runs
  refine ⟨w, ?_, ?_⟩
  · rw [failure, he]
    exact .nothing w
  · rw [afterFailure, he]
    have := h.changed (i := p.env) (o := some ⟨p.runtime, true⟩) hk hx hs (.some hh)
    rwa [EnvMap.set_eq_self hm] at this

theorem isGone (h : Refines s w) {p : UserProcess} (hk : k.Sound []) (hx : k.mappings.Exclusive)
    (hs : ∀ j, j ≠ p.env → s.kernel.Spares k j) (hn : k.env? p.env = none) :
    ∃ w', w.Step (failure k p) w' ∧ Refines (s.afterFailure k p) w' := by
  refine ⟨w.set p.env none, ?_, ?_⟩
  · rw [failure, hn]
    exact .ended w p.env
  · rw [afterFailure, hn]
    exact h.changed hk hx hs .none

theorem perished (h : Refines s w) {p : UserProcess} (hp : s.kernel.Perishes k p.env) :
    ∃ w', w.Step (failure k p) w' ∧ Refines (s.afterFailure k p) w' :=
  h.isGone hp.sound hp.exclusive hp.spares hp.gone

theorem stillGone (h : Refines s w) {p : UserProcess} (hn : s.kernel.env? p.env = none) (hb : k.bare = s.kernel.bare) :
    ∃ w', w.Step (failure k p) w' ∧ Refines (s.afterFailure k p) w' := by
  have hq := Quiet.of_bare hb
  exact h.isGone (h.sound.of_bare hb) (by rw [hq.mappings]; exact h.exclusive) (fun j _ => hq.spares j)
    (hq.gone p.env hn)

/-! ## Steps -/

section steps

variable {p p' : UserProcess} {n : Nat} {va increment : Word}

theorem spawned (h : Refines s w) {img : Image} {sp : Spawned} (hs : s.kernel.spawn img = (.ok sp, k)) :
    ∃ w', w.Step (.spawned sp.id img) w' ∧
      Refines ⟨k, s.members.set sp.id (some ⟨(UserProcess.ofEnv sp.id sp.brk.toUInt64).runtime, true⟩)⟩ w' := by
  obtain ⟨hnone, hb, hc, hshows, hspares⟩ := spawn_ok_cases h.sound h.exclusive hs
  have hf := Image.fits_of_brk? hb
  refine ⟨_, .spawned (h.absent hnone) hb, h.changed hc.sound hc.exclusive (fun j _ => hspares j) (.some ?_)⟩
  exact ⟨hc.runs, toNat_toUInt64_of_le_stackPage hf.stack, hf.aligned, hf.stack, (fun _ hh => nomatch hh), hshows⟩

theorem read (h : Refines s w) (hp : s.Holds p) {len : Nat} {bytes : Bytes}
    (ho : (Access.read va len).Within p.runtime.brk.toNat)
    (hs : p.access n s.kernel (.read va len) = some (.ok bytes, k)) :
    ∃ w', w.Step (.read p.env va.toNat len bytes) w' ∧ Refines { s with kernel := k } w' := by
  rcases h.hosted hp with ⟨hr, m, hm, hh⟩ | hn
  · obtain ⟨hserves, hsize, hget⟩ := UserProcess.read_ok (h.calm hh) hh.handler hs
    refine ⟨w, .read hm (FlatProgram.eq_read hsize fun x hx => ?_), h.served hr hm hh hserves⟩
    have hown : Owned m.brk (va.toNat + x) := by
      rw [← hh.brk]
      exact ho x hx
    exact hget x _ hx (hh.inProgram hown) (hh.shows _ hown)
  · cases (UserProcess.access_of_env?_none hn hs).1

theorem wrote (h : Refines s w) (hp : s.Holds p) {data done : Bytes}
    (hs : p.access n s.kernel (.write va data) = some (.ok done, k)) :
    ∃ w', w.Step (.wrote p.env va.toNat data) w' ∧ Refines { s with kernel := k } w' := by
  rcases h.hosted hp with ⟨hr, m, hm, hh⟩ | hn
  · obtain ⟨hc, hspares, hne, hin⟩ := UserProcess.write_ok (h.calm hh) hh.handler hs
    have hh' : Hosts k p.env p.runtime (m.write va.toNat data) := by
      refine { hh with runs := hc.runs, shows := fun a ho => ?_ }
      show k.Shows p.env a (if va.toNat ≤ a then data.getD (a - va.toNat) (m.bytes a) else m.bytes a)
      by_cases hx : va.toNat ≤ a ∧ a < va.toNat + data.size
      · have hlt : a - va.toNat < data.size := by omega
        have := hin (a - va.toNat) hlt
        rw [Nat.add_sub_cancel' hx.1] at this
        rwa [if_pos hx.1, Array.getD_eq_getD_getElem?, Array.getElem?_eq_getElem hlt, Option.getD_some]
      · have hkept := hne a _ hx (hh.inProgram ho) (hh.shows a ho)
        split
        · rwa [Array.getD_eq_getD_getElem?, Array.getElem?_eq_none (by omega), Option.getD_none]
        · exact hkept
    have := h.changed (o := some ⟨p.runtime, true⟩) hc.sound hc.exclusive hspares (.some hh')
    rw [EnvMap.set_eq_self hr] at this
    exact ⟨_, .wrote _ data hm, this⟩
  · cases (UserProcess.access_of_env?_none hn hs).1

theorem accessFailed (h : Refines s w) (hp : s.Holds p) {a : Access} {cause : UserPanic}
    (hs : p.access n s.kernel a = some (.error cause, k)) :
    ∃ w', w.Step (failure k p) w' ∧ Refines (s.afterFailure k p) w' := by
  rcases h.hosted hp with ⟨-, m, -, hh⟩ | hn
  · exact h.perished (UserProcess.access_error (h.calm hh) hh.handler hs)
  · obtain ⟨-, rfl⟩ := UserProcess.access_of_env?_none hn hs
    exact h.stillGone hn rfl

theorem grew (h : Refines s w) (hp : s.Holds p) {old : Word} (hs : p.sbrk s.kernel increment = (.ok old, p', k)) :
    ∃ w', w.Step (.grew p.env increment.toNat old.toNat) w' ∧
      Refines ⟨k, s.members.set p.env (some ⟨p'.runtime, true⟩)⟩ w' := by
  rcases h.hosted hp with ⟨-, m, hm, hh⟩ | hn
  swap
  · obtain ⟨err, he⟩ := UserProcess.sbrk_of_env?_none hn increment
    rw [he] at hs
    cases hs
  have hbrk := hh.brk
  obtain ⟨hc, hspares, hkept, ⟨err, he, -⟩ | ⟨brk, hg, he, rfl, hzero⟩⟩ :=
    UserProcess.sbrk_cases (h.calm hh) (by rw [hbrk]; exact hh.aligned) hs
  · cases he
  cases he
  obtain ⟨heq, -, hhigh, halign⟩ := UserProcess.grownBrk?_eq_some hg
  rw [hbrk] at heq hkept hzero
  have hh' : Hosts k p.env { p.runtime with brk := brk.toUInt64 } (m.grow increment.toNat) := by
    have hbrk' : (m.grow increment.toNat).brk = brk := heq.symm
    have hbytes (a : Nat) : (m.grow increment.toNat).bytes a = if m.brk ≤ a ∧ a < brk then 0 else m.bytes a := by
      rw [heq]
      rfl
    refine ⟨hc.runs, by rw [hbrk']; exact toNat_toUInt64_of_le_stackPage hhigh, by rw [hbrk']; exact halign,
      by rw [hbrk']; exact hhigh, hh.handler, fun a ho => ?_⟩
    rw [hbrk'] at ho
    rw [hbytes]
    split
    · rename_i hx
      exact hzero a hx.1 hx.2
    · rename_i hx
      have hold : Owned m.brk a ∧ (a < m.brk ∨ stackPage ≤ a) := by
        rcases ho with ⟨hl, hu⟩ | hst
        · exact ⟨Or.inl ⟨hl, by omega⟩, by omega⟩
        · exact ⟨Or.inr hst, Or.inr hst.1⟩
      exact hkept a _ hold.2 (hh.shows a hold.1)
  exact ⟨_, .grew increment.toNat hm hbrk, h.changed hc.sound hc.exclusive hspares (.some hh')⟩

theorem growFailed (h : Refines s w) (hp : s.Holds p) {err : Errno}
    (hs : p.sbrk s.kernel increment = (.error err, p', k)) :
    ∃ w', w.Step (failure k p') w' ∧ Refines (s.afterFailure k p') w' := by
  rcases h.hosted hp with ⟨-, m, hm, hh⟩ | hn
  · have hbrk := hh.brk
    obtain ⟨hc, hspares, hkept, ⟨err, -, rfl⟩ | ⟨brk, -, he, -⟩⟩ :=
      UserProcess.sbrk_cases (h.calm hh) (by rw [hbrk]; exact hh.aligned) hs
    · rw [hbrk] at hkept
      refine h.goesOn hm hc.sound hc.exclusive hspares { hh with runs := hc.runs, shows := fun a ho => ?_ }
      exact hkept a _ (ho.imp And.right And.left) (hh.shows a ho)
    · cases he
  · obtain ⟨err, he⟩ := UserProcess.sbrk_of_env?_none hn increment
    rw [he] at hs
    cases hs
    exact h.stillGone hn rfl

theorem forked (h : Refines s w) (hp : s.Holds p) {c : ForkedChild} (hs : p.fork s.kernel = (.ok c, p', k)) :
    ∃ w', w.Step (.forked p.env c.id) w' ∧
      Refines ⟨k, (s.members.set p.env (some ⟨p'.runtime, true⟩)).set c.id (some ⟨c.runtime, false⟩)⟩ w' := by
  rcases h.hosted hp with ⟨-, m, hm, hh⟩ | hn
  swap
  · obtain ⟨⟨err, he⟩, -⟩ := UserProcess.fork_of_env?_none hn hs
    cases he
  obtain ⟨hp', ⟨i, he, hf⟩ | ⟨⟨err, he⟩, -⟩⟩ :=
    UserProcess.fork_cases (h.calm hh) (by rw [hh.brk]; exact hh.stack) hs
  swap
  · cases he
  cases he
  have hrt : p'.runtime.brk = p.runtime.brk ∧ UserProcess.CopiesOnWrite ⟨p.env, p'.runtime⟩ := by
    rcases hp' with rfl | rfl
    · exact ⟨rfl, hh.handler⟩
    · exact ⟨rfl, fun f hf => (Option.some.inj hf).symm⟩
  have hparent : Hosts k p.env p'.runtime m :=
    { hh with
      runs := hf.calm.runs, brk := by rw [hrt.1, hh.brk], handler := hrt.2,
      shows := fun a ho => hf.shows a _ (hh.inProgram ho) (hh.shows a ho) }
  have hchild : Hosts k i p'.runtime m :=
    { hh with
      runs := hf.runs, brk := by rw [hrt.1, hh.brk], handler := hrt.2,
      shows := fun a ho => hf.copied a _ (by rw [hh.brk]; exact ho) (hh.shows a ho) }
  have h₁ := h.changed (o := some ⟨p'.runtime, true⟩) hf.calm.sound hf.calm.exclusive hf.spares (.some hparent)
  rw [EnvMap.set_eq_self hm] at h₁
  exact ⟨_, .forked hm (h.absent hf.unborn),
    h₁.changed (o := some ⟨p'.runtime, false⟩) h₁.sound h₁.exclusive (fun j _ => .refl k j) (.some hchild)⟩

theorem forkFailed (h : Refines s w) (hp : s.Holds p) {err : ForkError}
    (hs : p.fork s.kernel = (.error err, p', k)) :
    ∃ w', w.Step (failure k p') w' ∧ Refines (s.afterFailure k p') w' := by
  rcases h.hosted hp with ⟨-, m, hm, hh⟩ | hn
  swap
  · obtain ⟨-, henv, hb⟩ := UserProcess.fork_of_env?_none hn hs
    exact h.stillGone (by rw [henv]; exact hn) hb
  obtain ⟨hp', ⟨i, he, -⟩ | ⟨-, hend⟩⟩ := UserProcess.fork_cases (h.calm hh) (by rw [hh.brk]; exact hh.stack) hs
  · cases he
  have hrt : p'.env = p.env ∧ p'.runtime.brk = p.runtime.brk ∧ UserProcess.CopiesOnWrite ⟨p.env, p'.runtime⟩ := by
    rcases hp' with rfl | rfl
    · exact ⟨rfl, rfl, hh.handler⟩
    · exact ⟨rfl, rfl, fun f hf => (Option.some.inj hf).symm⟩
  rcases hend with hserves | hend
  · refine h.goesOn (by rw [hrt.1]; exact hm) hserves.calm.sound hserves.calm.exclusive
      (by rw [hrt.1]; exact hserves.spares) ?_
    rw [hrt.1]
    exact (hh.served hserves).withRuntime hrt.2.1 hrt.2.2
  · exact h.perished (by rw [hrt.1]; exact hend)

theorem resumed (h : Refines s w) {c : ForkedChild} (hc : s.HoldsChild c) (hs : c.resume s.kernel = (.ok p, k)) :
    Refines ⟨k, s.members.set c.id (some ⟨p.runtime, true⟩)⟩ w := by
  rcases hc with hr | hn
  · obtain ⟨m, hm, hh⟩ := h.present hr
    obtain ⟨hserves, hp⟩ := ForkedChild.resume_cases (h.calm hh) hs
    obtain ⟨i, rfl⟩ := hp p rfl
    have hh' : Hosts k c.id { c.runtime with thisEnv := i } m := (hh.served hserves).withRuntime rfl hh.handler
    have := h.changed (o := some ⟨{ c.runtime with thisEnv := i }, true⟩) hserves.calm.sound hserves.calm.exclusive
      hserves.spares (.some hh')
    rwa [EnvMap.set_eq_self hm] at this
  · rw [ForkedChild.resume_of_env?_none hn] at hs
    cases hs

theorem resumeFailed (h : Refines s w) {c : ForkedChild} (hc : s.HoldsChild c) {err : Errno}
    (hs : c.resume s.kernel = (.error err, k)) : Refines { s with kernel := k } w := by
  rcases hc with hr | hn
  · obtain ⟨m, hm, hh⟩ := h.present hr
    exact h.served hr hm hh (ForkedChild.resume_cases (h.calm hh) hs).1
  · rw [ForkedChild.resume_of_env?_none hn] at hs
    cases hs
    exact h

theorem destroyed (h : Refines s w) (hs : s.kernel.destroyEnv i = (.ok (), k)) :
    Refines ⟨k, s.members.set i none⟩ (w.set i none) := by
  have hends := ends_of_destroyEnv h.sound hs
  have hk := h.sound.destroyEnv i
  rw [hs] at hk
  exact h.changed hk (by rw [hends.mappings]; exact h.exclusive.without i) hends.spares .none

theorem destroyFailed (h : Refines s w) {err : EnvError} (hs : s.kernel.destroyEnv i = (.error err, k)) :
    Refines { s with kernel := k } w := by
  rcases he : s.kernel.env? i with _ | e
  · rw [destroyEnv_of_env?_none he] at hs
    cases hs
    exact h
  · rw [destroyEnv_of_env? he] at hs
    cases hs

end steps

/-- **Whatever happens on the kernel happens in the flat world.** -/
theorem step (h : Refines s w) {s' : System} {o : Outcome} (hs : s.Step o s') : ∃ w', w.Step o w' ∧ Refines s' w' := by
  cases hs with
  | spawned hs => exact h.spawned hs
  | spawnFailed hs =>
    obtain ⟨hk, hx, hspares⟩ := spawn_error_cases h.sound h.exclusive hs
    exact ⟨w, .nothing w, h.spared hk hx hspares⟩
  | read hp ho hs => exact h.read hp ho hs
  | wrote hp _ hs => exact h.wrote hp hs
  | accessFailed hp _ hs => exact h.accessFailed hp hs
  | grew hp hs => exact h.grew hp hs
  | growFailed hp hs => exact h.growFailed hp hs
  | forked hp hs => exact h.forked hp hs
  | forkFailed hp hs => exact h.forkFailed hp hs
  | resumed hc hs => exact ⟨w, .nothing w, h.resumed hc hs⟩
  | resumeFailed hc hs => exact ⟨w, .nothing w, h.resumeFailed hc hs⟩
  | destroyed hs => exact ⟨_, .ended w _, h.destroyed hs⟩
  | destroyFailed hs => exact ⟨w, .nothing w, h.destroyFailed hs⟩
  | failAfter n =>
    have hb := bare_failAfter s.kernel n
    exact ⟨w, .nothing w, h.quiet (.of_bare hb) (h.sound.of_bare hb)⟩
  | clearFailure =>
    have hb := bare_clearFailure s.kernel
    exact ⟨w, .nothing w, h.quiet (.of_bare hb) (h.sound.of_bare hb)⟩

end Refines

/-! ## Whole runs -/

theorem mappings_of_boot {c : Config} {k : Kernel} (h : boot c = .ok k) (i : EnvId) (v : VirtAddr) :
    k.mappings i v = none := mappings_of_env?_none ((boot_empty h).2 i) v

theorem refines_of_boot {c : Config} {k : Kernel} (h : boot c = .ok k) :
    Refines ⟨k, fun _ => none⟩ fun _ => none where
  sound := sound_of_boot h
  exclusive i v p _ _ _ hp := by
    have := mappings_of_boot h i v
    cases hp.symm.trans this
  hosts _ := .none

theorem History.refines {os : List Outcome} {s : System} (h : History os s) :
    ∃ w, FlatWorld.History os w ∧ Refines s w := by
  induction h with
  | start h => exact ⟨_, .start, refines_of_boot h⟩
  | step _ hs ih =>
    obtain ⟨w, hw, hr⟩ := ih
    obtain ⟨w', hstep, hr'⟩ := hr.step hs
    exact ⟨w', .step hw hstep, hr'⟩

/-- **Processes read what is in their memories.**  There are the same programs on both sides, and what the kernel lets a
process read, of all that it owns, is what its flat memory holds. -/
structure Agrees (s : System) (w : FlatWorld) : Prop where
  members (i : EnvId) : (s.members i).isSome = (w i).isSome
  memory (i : EnvId) (m : FlatProgram) (h : w i = some m) : ∃ e, s.kernel.env? i = some e ∧
    ∀ a len, (∀ x, x < len → Owned m.brk (a + x)) → e.space.read s.kernel.machine a len = .ok (m.read a len)

theorem Refines.agrees {s : System} {w : FlatWorld} (h : Refines s w) : s.Agrees w where
  members i := by
    have hi := h.hosts i
    generalize s.members i = r, w i = m at hi
    cases hi <;> rfl
  memory i m hm := by
    have hi := h.hosts i
    rw [hm] at hi
    generalize s.members i = r at hi
    cases hi with
    | some hh =>
      obtain ⟨e, he, -⟩ := hh.runs
      refine ⟨e, he, fun a len ho => ?_⟩
      obtain ⟨bytes, hb, hsize, hget⟩ := read_of_shows (d := fun x => m.bytes (a + x)) he fun x hx => hh.shows _ (ho x hx)
      rw [hb, FlatProgram.eq_read hsize hget]

/-- **A process can read what it owns at any time**, and finds there what is in its flat memory. -/
theorem History.reads {os : List Outcome} {s : System} {w : FlatWorld} (h : History os s) (hw : FlatWorld.History os w)
    {p : UserProcess} {m : FlatProgram} (va : Word) (len : Nat) (hp : s.members p.env = some ⟨p.runtime, true⟩)
    (hm : w p.env = some m) (ho : (Access.read va len).Within p.runtime.brk.toNat) :
    ∃ k', History (os ++ [.read p.env va.toNat len (m.read va.toNat len)]) { s with kernel := k' } ∧
      FlatWorld.History (os ++ [.read p.env va.toNat len (m.read va.toNat len)]) w := by
  obtain ⟨w', hw', hr⟩ := h.refines
  obtain rfl := hw.unique hw'
  obtain ⟨m', hm', hh⟩ := hr.present hp
  obtain rfl := Option.some.inj (hm.symm.trans hm')
  have hown (x : Nat) (hx : x < len) : Owned m.brk (va.toNat + x) := by
    rw [← hh.brk]
    exact ho x hx
  obtain ⟨bytes, k', hacc⟩ := UserProcess.access_of_shows (p := p) hr.sound hh.runs
    (fun x hx => hh.shows _ (hown x hx)) 0
  obtain ⟨-, hsize, hget⟩ := UserProcess.read_ok (hr.calm hh) hh.handler hacc
  obtain rfl := FlatProgram.eq_read hsize fun x hx => hget x _ hx (hh.inProgram (hown x hx)) (hh.shows _ (hown x hx))
  exact ⟨k', h.step (.read (Or.inl hp) ho hacc), hw.step (.read hm rfl)⟩

/-- **Sharing pages behaves like copying them.**  Whatever processes do on a kernel, in whatever order and however
much of it fails, happens with the same outcomes where every program has a memory of its own, and what the processes
can read then is what is in those memories. -/
theorem shared_pages_are_copies {os : List Outcome} {s : System} (h : History os s) :
    ∃ w, FlatWorld.History os w ∧ s.Agrees w := by
  obtain ⟨w, hw, hr⟩ := h.refines
  exact ⟨w, hw, hr.agrees⟩

/-- A program with a page of data before its first fork. -/
def forkingProcess : UserProcess := .ofEnv ⟨4096⟩ (textBase + pageSize).toUInt64

/-- Its fork, up to where its handler is set. -/
def readyProgram : Except Errno Unit × UserProcess × Kernel :=
  forkingProcess.setHandler UserProcess.stackProgram Routine.copyOnWrite

/-- Its fork, and its child taken up. -/
def resumedProgram : Except Errno UserProcess × Kernel :=
  ForkedChild.resume ⟨⟨4097⟩, UserProcess.stackProcess.runtime⟩ (UserProcess.forkedProgram readyProgram.2.2)

/-- The child has been taken up, and the data is shared with it. -/
theorem resumedProgram_shares : readyProgram.1.toOption.isSome ∧ UserProcess.Staged readyProgram.2.2 ∧
    resumedProgram.1.toOption.map (fun q => (q.env, q.runtime.brk)) = some (⟨4097⟩, (textBase + pageSize).toUInt64) ∧
    resumedProgram.2.mappings ⟨4096⟩ ⟨textBase, by decide⟩ = some ⟨⟨0, 1⟩, .userCow⟩ ∧
    resumedProgram.2.mappings ⟨4097⟩ ⟨textBase, by decide⟩ = some ⟨⟨0, 1⟩, .userCow⟩ ∧
    resumedProgram.2.marks ⟨4096⟩ textBase ∧
    1 + resumedProgram.2.room ⟨4096⟩ copyScratch ≤ resumedProgram.2.supply := by
  decide +kernel

/-- The parent is ready for faults then. -/
theorem resumedProgram_armed (hk : resumedProgram.2.Sound []) : ∃ stack regs,
    resumedProgram.2.Armed ⟨4096⟩ stack regs ∧ stack.allows .write ∧ OffExceptionStack regs.sp ∧
    regs.UserMode := by
  have hlive : (resumedProgram.2.env? ⟨4096⟩).map (fun e => (e.status.isRunnable, e.upcall, e.regs.sp,
      e.regs.sstatus, e.space.table.toList.all fun x => x.2.allows .read)) =
      some (true, some upcallEntry.toUInt64, stackTop.toUInt64, Registers.fresh.sstatus, true) := by decide +kernel
  have hstack : (resumedProgram.2.mappings.entryAt ⟨4096⟩ exceptionStackBase).map (·.allows .write) = some true := by
    decide +kernel
  obtain ⟨e, he, hst⟩ := Option.map_eq_some_iff.1 hlive
  simp only [Prod.mk.injEq] at hst
  obtain ⟨hrun, hupcall, hsp, hstatus, hall⟩ := hst
  obtain ⟨stack, hq, hal⟩ := Option.map_eq_some_iff.1 hstack
  refine ⟨stack, e.regs, ⟨hk, ⟨e, he, hrun, rfl, hupcall⟩, hq, fun v q hv => ?_⟩, hal, ?_,
    Registers.userMode_fresh.congr hstatus⟩
  · rw [mappings_of_env? he] at hv
    exact List.all_eq_true.1 hall _ (PageTable.mem_toList hv)
  · rw [hsp, OffExceptionStack]
    decide

/-- The program is started, forks, and its child is taken up. -/
theorem history_resumedProgram : ∃ (s : System) (q : UserProcess),
    History [.spawned ⟨4096⟩ { data := #[5] }, .forked ⟨4096⟩ ⟨4097⟩, .nothing] s ∧ s.kernel = resumedProgram.2 ∧
    s.members ⟨4096⟩ = some ⟨UserProcess.stackProcess.runtime, true⟩ ∧ s.members ⟨4097⟩ = some ⟨q.runtime, true⟩ ∧
    q.runtime.brk = (textBase + pageSize).toUInt64 := by
  obtain ⟨hready, hstaged, hresume, -⟩ := resumedProgram_shares
  let k₀ : Kernel := (ofConfig ⟨24, 2⟩).log (.booted ⟨24, 2⟩)
  have hspawn : (k₀.spawn { data := #[5] }).1.toOption.map (fun a => (a.id, a.brk)) = some (⟨4096⟩, textBase + pageSize) := by
    decide +kernel
  obtain ⟨⟨i, brk⟩, ha, hi⟩ := Option.map_eq_some_iff.1 hspawn
  obtain ⟨rfl, rfl⟩ := Prod.mk.inj hi
  have hset : readyProgram = (.ok (), UserProcess.stackProcess, readyProgram.2.2) := by
    have h : readyProgram = (.ok (), readyProgram.2) := UserProcess.eq_ok_unit hready
    obtain ⟨-, hp, -⟩ | ⟨err, -, herr, -⟩ := UserProcess.setHandler_steps h
    · exact h.trans (congrArg (Prod.mk (Except.ok ())) (Prod.ext hp rfl))
    · cases herr
  obtain ⟨q, hq, hqe⟩ := Option.map_eq_some_iff.1 hresume
  have s₁ := History.step (.start (c := ⟨24, 2⟩) (k := k₀) rfl) (.spawned (Prod.ext (eq_ok_of_toOption ha) rfl))
  have s₂ := s₁.step (.forked (p := forkingProcess) (Or.inl rfl) (UserProcess.fork_of_staged hset hstaged))
  have s₃ := s₂.step (.resumed (p := q) (Or.inl rfl) (Prod.ext (eq_ok_of_toOption hq) rfl))
  exact ⟨_, q, s₃, rfl, rfl, rfl, (Prod.mk.inj hqe).2⟩

/-- The parent can write to the page that the two share. -/
theorem resumedProgram_writes (hk : resumedProgram.2.Sound []) : ∃ k,
    UserProcess.stackProcess.access 2 resumedProgram.2 (.write textBase.toUInt64 #[9]) = some (.ok #[], k) := by
  obtain ⟨-, -, -, -, -, hmark, hroom⟩ := resumedProgram_shares
  obtain ⟨stack, regs, harmed, hal, hout, hmode⟩ := resumedProgram_armed hk
  exact UserProcess.access_of_marks (p := UserProcess.stackProcess) textBase.toUInt64 #[9] harmed hal hout hmode rfl
    (.inl (by decide)) (x := textBase) (by decide) (by decide) hmark hroom 0

/-- The memory that the program is started with. -/
def forkingMemory : FlatProgram := .ofImage { data := #[5] } (textBase + pageSize)

/-- Where memories are never shared, both have it then. -/
theorem history_forkingMemory : FlatWorld.History [.spawned ⟨4096⟩ { data := #[5] }, .forked ⟨4096⟩ ⟨4097⟩, .nothing]
    ((EnvMap.set (fun _ => none) ⟨4096⟩ (some forkingMemory)).set ⟨4097⟩ (some forkingMemory)) :=
  ((FlatWorld.History.start.step (.spawned rfl (by decide))).step (.forked rfl rfl)).step (.nothing _)

/-- A program with a page of data forks.  While the two share the page, the parent writes to it; the child reads on what was
there before, and the parent what it has written. -/
theorem shared_pages_are_copies_after_fork : ∃ (s s' : System) (w : FlatWorld) (os : List Outcome) (p q : UserProcess)
    (v : VirtAddr) (f : Frame) (k : Kernel),
    os = [.spawned ⟨4096⟩ { data := #[5] }, .forked ⟨4096⟩ ⟨4097⟩, .nothing] ∧ History os s ∧
    p.env = ⟨4096⟩ ∧ s.members ⟨4096⟩ = some ⟨p.runtime, true⟩ ∧ s.members ⟨4097⟩ = some ⟨q.runtime, true⟩ ∧
    v.raw = textBase ∧ s.kernel.mappings ⟨4096⟩ v = some ⟨f, .userCow⟩ ∧ s.kernel.mappings ⟨4097⟩ v = some ⟨f, .userCow⟩ ∧
    p.access 2 s.kernel (.write textBase.toUInt64 #[9]) = some (.ok #[], k) ∧
    History (os ++ [.wrote ⟨4096⟩ textBase #[9], .read ⟨4097⟩ textBase 1 #[5], .read ⟨4096⟩ textBase 1 #[9]]) s' ∧
    FlatWorld.History (os ++ [.wrote ⟨4096⟩ textBase #[9], .read ⟨4097⟩ textBase 1 #[5], .read ⟨4096⟩ textBase 1 #[9]]) w ∧
    s'.Agrees w := by
  obtain ⟨-, -, -, hparent, hchild, -, -⟩ := resumedProgram_shares
  obtain ⟨s, q, hs, hk, hp, hq, hqbrk⟩ := history_resumedProgram
  let p : UserProcess := UserProcess.stackProcess
  let m : FlatProgram := forkingMemory
  have hown (brk : Word) (hb : brk = (textBase + pageSize).toUInt64) (x : Nat) (hx : x < 1) :
      Owned brk.toNat (textBase.toUInt64.toNat + x) := by
    obtain rfl := Nat.lt_one_iff.1 hx
    rw [hb]
    exact Or.inl ⟨by decide, by decide⟩
  -- the parent writes to the page that the two share
  obtain ⟨_, -, hr⟩ := hs.refines
  obtain ⟨k, hwrite⟩ := resumedProgram_writes (hk ▸ hr.sound)
  rw [← hk] at hwrite hparent hchild
  have hwithin : (Access.write textBase.toUInt64 #[9]).Within p.runtime.brk.toNat := hown _ rfl
  have h₁ := hs.step (.wrote (p := p) (Or.inl hp) hwithin hwrite)
  have w₁ := history_forkingMemory.step (.wrote (i := ⟨4096⟩) (m := m) textBase #[9] rfl)
  -- what the two have in their memories, they read
  have hva : textBase.toUInt64.toNat = textBase := by decide
  have hold : m.read textBase 1 = #[5] := by decide +kernel
  have hnew : (m.write textBase #[9]).read textBase 1 = #[9] := by decide +kernel
  obtain ⟨k₂, h₂, w₂⟩ := h₁.reads w₁ (p := ⟨⟨4097⟩, q.runtime⟩) (m := m) textBase.toUInt64 1 hq rfl (hown _ hqbrk)
  obtain ⟨k₃, h₃, w₃⟩ := h₂.reads w₂ (p := p) (m := m.write textBase #[9]) textBase.toUInt64 1 hp rfl (hown _ rfl)
  rw [hva, hold, hnew] at h₃
  obtain ⟨w, hw, hagree⟩ := shared_pages_are_copies h₃
  exact ⟨s, _, w, _, p, q, ⟨textBase, by decide⟩, ⟨0, 1⟩, k, rfl, hs, rfl, hp, hq, rfl, hparent, hchild, hwrite, h₃, hw, hagree⟩

end System
end Exokernel
