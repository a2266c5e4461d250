import Exokernel.Proofs.User.Call
import Exokernel.User.Process
/-!
# Programs in good order

As long as nothing that may be written is shared, what a program writes concerns nobody else.  An operation of a program
goes well (`Serves`), is its end (`Perishes`), or fails halfway (`Falters`) and can only be ended; in each case the other
programs run on and see what they saw.
-/
namespace Exokernel

theorem eq_of_pageDown_eq {x y : Nat} (h : pageDown x = pageDown y) (ho : pageOffset x = pageOffset y) : x = y := by
  rw [← pageDown_add_pageOffset x, h, ho, pageDown_add_pageOffset]

namespace Kernel

variable {k k' k₁ : Kernel} {i j : EnvId} {e : Env} {a x y : Nat} {b : UInt8} {sp : Word} {p q : Pte} {m : Machine}
  {data : Bytes}

/-! ## Writing what is not shared -/

theorem eq_of_exclusive (hx : k.mappings.Exclusive) (hp : k.mappings.entryAt i x = some p)
    (hw : p.perm.contains .writable) (hq : k.mappings.entryAt j y = some q) (hf : q.frame = p.frame)
    (ho : pageOffset y = pageOffset x) : j = i ∧ y = x := by
  obtain ⟨v, hv, hpv⟩ := Option.bind_eq_some_iff.1 hp
  obtain ⟨w, hw', hqw⟩ := Option.bind_eq_some_iff.1 hq
  obtain ⟨hj, hpage, -⟩ := hx _ _ _ _ _ _ hpv hw hqw hf
  refine ⟨hj, eq_of_pageDown_eq ?_ ho⟩
  rw [← VirtAddr.ofNat?_eq_some_iff.1 hv, ← VirtAddr.ofNat?_eq_some_iff.1 hw']
  exact congrArg VirtAddr.raw hpage

section write
variable (hk : k.Sound []) (hx : k.mappings.Exclusive) (he : k.env? i = some e)
  (h : e.space.write k.machine a data = .ok m)
include hk hx he h

/-- **A write concerns nobody else.** -/
theorem spares_write (hj : j ≠ i) : k.Spares { k with machine := m } j := by
  refine fun e' he' => ⟨e', he', id, rfl, fun _ => rfl, fun v q hl => Machine.page_ext fun o => ?_⟩
  refine Classical.byContradiction fun hne => ?_
  obtain ⟨y, p, -, -, hp, hw, hl'⟩ :=
    AddressSpace.writable_of_byte_ne (fun f hf => hk.refs_pos_of_mem he hf) h hne
  rw [← entryAt_of_env? he] at hp
  obtain ⟨w, hw', hpw⟩ := Option.bind_eq_some_iff.1 hp
  have hq : k.mappings j v = some q := by rw [mappings_of_env? he', hl]
  exact hj (hx _ _ _ _ _ _ hpw hw hq (Prod.mk.inj hl').1).1

theorem shows_write_of_ne (hn : ¬ (a ≤ x ∧ x < a + data.size)) (hs : k.Shows i x b) :
    Shows { k with machine := m } i x b := by
  obtain ⟨q, hq, hu, hb⟩ := hs
  refine ⟨q, hq, hu, ?_⟩
  rw [← hb]
  refine Classical.byContradiction fun hne => ?_
  obtain ⟨y, p, hy, hyl, hp, hw, hl⟩ :=
    AddressSpace.writable_of_byte_ne (fun f hf => hk.refs_pos_of_mem he hf) h hne
  rw [← entryAt_of_env? he] at hp
  obtain ⟨-, rfl⟩ := eq_of_exclusive hx hp hw hq (Prod.mk.inj hl).1 (Prod.mk.inj hl).2
  exact hn ⟨hy, hyl⟩

/-- **What was written is seen.** -/
theorem shows_write (hax : a ≤ x) (hb : data[x - a]? = some b) : Shows { k with machine := m } i x b := by
  obtain ⟨hlt, -⟩ := Array.getElem?_eq_some_iff.1 hb
  have hxl : x < a + data.size := by omega
  obtain ⟨p, hp, hal⟩ := AddressSpace.allows_of_check (AddressSpace.write_ok h).1 hax hxl
  have hp' := (entryAt_of_env? he x).trans hp
  refine ⟨p, hp', Pte.allows_read hal, ?_⟩
  rw [← hb]
  refine AddressSpace.byte_write_of_locate (fun f hf => hk.refs_pos_of_mem he hf) h hax hxl
    (AddressSpace.locate_eq_some hp) fun y hy hyl hloc => ?_
  obtain ⟨q, hq, hqw⟩ := AddressSpace.allows_of_check (AddressSpace.write_ok h).1 hy hyl
  rw [AddressSpace.locate_eq_some hq] at hloc
  exact (eq_of_exclusive hx hp' (Pte.writable_of_allows hal) ((entryAt_of_env? he y).trans hq)
    (Prod.mk.inj (Option.some.inj hloc)).1 (Prod.mk.inj (Option.some.inj hloc)).2).2

end write

/-! ## Good states and ends -/

/-- **A program that runs as it should**: nothing that may be written is shared. -/
structure Calm (k : Kernel) (i : EnvId) (sp : Word) : Prop where
  sound : k.Sound []
  exclusive : k.mappings.Exclusive
  runs : k.Runs i sp

/-- The part of an address space that a program and its stack are in. -/
def InProgram (a : Nat) : Prop := textBase ≤ a ∧ a < stackTop

/-- What a program whose heap ends at `brk` reads and writes: its text, data and heap, and its stack. -/
def Owned (brk a : Nat) : Prop := (textBase ≤ a ∧ a < brk) ∨ (stackPage ≤ a ∧ a < stackTop)

theorem Owned.inProgram {brk a : Nat} (h : Owned brk a) (hb : brk ≤ stackPage) : InProgram a := by
  rcases h with ⟨hl, hh⟩ | ⟨hl, hh⟩
  · exact ⟨hl, by simp only [stackPage, stackTop, userTop, pageSize] at *; omega⟩
  · exact ⟨by simp only [stackPage, stackTop, userTop, pageSize, textBase] at *; omega, hh⟩

/-- **What a program has done went well**: it runs, it sees what it saw, and nobody else has noticed. -/
structure Serves (k k' : Kernel) (i : EnvId) (sp : Word) : Prop where
  calm : k'.Calm i sp
  shows (a : Nat) (b : UInt8) (ha : InProgram a) (h : k.Shows i a b) : k'.Shows i a b
  spares (j : EnvId) (hj : j ≠ i) : k.Spares k' j

/-- **What a program has done was its end**, and nobody else has noticed. -/
structure Perishes (k k' : Kernel) (i : EnvId) : Prop where
  sound : k'.Sound []
  exclusive : k'.mappings.Exclusive
  gone : k'.env? i = none
  spares (j : EnvId) (hj : j ≠ i) : k.Spares k' j

/-- **Something went wrong on the way**, for a program and the child that it is making: with the program out of the way,
all is well. -/
structure Falters (k k' : Kernel) (i c : EnvId) : Prop where
  sound : k'.Sound []
  apart : (k'.mappings.without i).Exclusive
  alive : k'.env? i = none ∨ ∃ sp, k'.Runs i sp
  spares (j : EnvId) (hj : j ≠ i) (hc : j ≠ c) : k.Spares k' j

theorem Calm.serves (h : k.Calm i sp) : k.Serves k i sp := ⟨h, fun _ _ _ h => h, fun j _ => .refl k j⟩

theorem Calm.quiet (h : k.Calm i sp) (hq : k.Quiet k') (hk : k'.Sound []) : k.Serves k' i sp :=
  ⟨⟨hk, by rw [hq.mappings]; exact h.exclusive, hq.runs h.runs⟩, fun _ _ _ hs => hq.shows hs, fun j _ => hq.spares j⟩

theorem Serves.trans {sp' : Word} (h : k.Serves k₁ i sp) (h' : k₁.Serves k' i sp') : k.Serves k' i sp' :=
  ⟨h'.calm, fun a b ha hs => h'.shows a b ha (h.shows a b ha hs), fun j hj => (h.spares j hj).trans (h'.spares j hj)⟩

theorem Serves.perishes (h : k.Serves k₁ i sp) (h' : k₁.Perishes k' i) : k.Perishes k' i :=
  ⟨h'.sound, h'.exclusive, h'.gone, fun j hj => (h.spares j hj).trans (h'.spares j hj)⟩

theorem Calm.falters (h : k'.Calm i sp) {c : EnvId} (hs : ∀ j, j ≠ i → j ≠ c → k.Spares k' j) : k.Falters k' i c :=
  ⟨h.sound, h.exclusive.without i, Or.inr ⟨sp, h.runs⟩, hs⟩

theorem Perishes.falters (h : k.Perishes k' i) (c : EnvId) : k.Falters k' i c :=
  ⟨h.sound, h.exclusive.without i, Or.inl h.gone, fun j hj _ => h.spares j hj⟩

theorem Serves.falters {c : EnvId} (h : k.Serves k₁ i sp) (h' : k₁.Falters k' i c) : k.Falters k' i c :=
  ⟨h'.sound, h'.apart, h'.alive, fun j hj hc => (h.spares j hj).trans (h'.spares j hj hc)⟩

section modifyEnv
variable {g : Env → Env} (hid : ∀ e, (g e).id = e.id)
include hid

theorem shows_modifyEnv (hs : ∀ e, (g e).space = e.space) (h : k.Shows j a b) : (k.modifyEnv i g).Shows j a b := by
  obtain ⟨q, hq, hb⟩ := h
  exact ⟨q, by rw [mappings_modifyEnv hid hs, hq], hb⟩

theorem spares_modifyEnv (hj : j ≠ i) : k.Spares (k.modifyEnv i g) j := fun e he =>
  ⟨e, by rw [env?_modifyEnv_of_ne hid hj.symm, he], id, rfl, fun _ => rfl, fun _ _ _ => rfl⟩

end modifyEnv

theorem shows_setRegisters (r : Registers) (h : k.Shows j a b) : (k.setRegisters i r).Shows j a b :=
  shows_modifyEnv (g := fun e => { e with regs := r }) (fun _ => rfl) (fun _ => rfl) h

theorem Calm.setRegisters (h : k.Calm i sp) (r : Registers) : k.Serves (k.setRegisters i r) i r.sp := by
  obtain ⟨e, he, hst, -⟩ := h.runs
  have hrun : (k.setRegisters i r).Runs i r.sp :=
    ⟨{ e with regs := r }, by rw [env?_setRegisters, he, Option.map_some, if_pos rfl], hst, rfl⟩
  exact ⟨⟨h.sound.setRegisters i r, by rw [mappings_setRegisters]; exact h.exclusive, hrun⟩,
    fun _ _ _ hs => shows_setRegisters r hs,
    fun j hj => spares_modifyEnv (g := fun e => { e with regs := r }) (fun _ => rfl) hj⟩

/-! ## Taking the processor -/

/-- **Who can run takes the processor**, and nobody notices. -/
theorem Runs.dispatch (h : k.Runs i sp) : ∃ k', k.dispatch i = .ok k' ∧ k.Quiet k' := by
  obtain ⟨e, he, hst, -⟩ := h
  obtain ⟨k', hk'⟩ : ∃ k', k.dispatch i = .ok k' := by
    unfold Kernel.dispatch
    rw [he]
    dsimp only
    rw [hst]
    exact ⟨_, rfl⟩
  exact ⟨k', hk', .dispatch hk'⟩

theorem dispatch_of_env?_none (h : k.env? i = none) : k.dispatch i = .error .badEnv := by
  unfold Kernel.dispatch
  rw [h]

/-- Who is given the processor runs. -/
theorem runs_of_dispatch (h : k.dispatch i = .ok k') : ∃ sp, k'.Runs i sp := by
  obtain ⟨e, he, hrun, -⟩ := dispatch_ok h
  exact ⟨e.regs.sp, (Quiet.dispatch h).runs ⟨e, he, hrun, rfl⟩⟩

end Kernel

namespace UserProcess

open Kernel

variable {p : UserProcess} {k k' k₁ : Kernel} {sp : Word} {cause : UserPanic}

theorem enter_ok (hk : k.Sound []) (hr : k.Runs p.env sp) :
    ∃ k', p.enter k = (.ok (), k') ∧ k.Quiet k' ∧ k'.Sound [] := by
  obtain ⟨k', hd, hq⟩ := hr.dispatch
  refine ⟨k', ?_, hq, hk.dispatch hd⟩
  rw [enter, hd]

theorem enter_of_env?_none (h : k.env? p.env = none) : p.enter k = (.error .badEnv, k) := by
  rw [enter, dispatch_of_env?_none h]

/-- **A panic is the end**, if the end has not come already. -/
theorem fatal_ends (hk : k.Sound []) (hl : k.env? p.env = none ∨ ∃ sp, k.Runs p.env sp) (cause : UserPanic) :
    k.Ends (p.fatal k cause) p.env ∧ (p.fatal k cause).Sound [] := by
  have hlog := Quiet.log k (.userPanic p.env cause)
  unfold fatal
  rcases hl with hn | ⟨sp, hr⟩
  · have hn' : (k.log (.userPanic p.env cause)).env? p.env = none := hn
    rw [enter_of_env?_none hn']
    refine ⟨⟨hn', ?_, fun j _ => hlog.spares j⟩, hk.log _⟩
    rw [hlog.mappings]
    funext j v
    rw [Mappings.without]
    split
    · rename_i hj
      exact mappings_of_env?_none (by rw [← hj, hn]) v
    · rfl
  · obtain ⟨k₁, he, hq, hk₁⟩ := enter_ok (p := p) (hk.log (.userPanic p.env cause)) (hlog.runs hr)
    rw [he]
    dsimp only
    have hk₂ := hk₁.call p.env (.envDestroy .self)
    rcases hc : k₁.call p.env (.envDestroy .self) with ⟨r, k₂⟩
    rw [hc] at hk₂
    obtain ⟨rfl, hends⟩ := call_envDestroy hk₁ (hq.runs (hlog.runs hr)) hc
    exact ⟨(hlog.trans hq).ends hends, hk₂⟩

/-- **Whoever falters and panics is gone**, and nobody else has noticed but a child that nobody knew. -/
theorem fatal_of_falters {c : EnvId} (h : k.Falters k₁ p.env c) (hc : k.env? c = none ∨ c = p.env)
    (cause : UserPanic) : k.Perishes (p.fatal k₁ cause) p.env := by
  obtain ⟨he, hk⟩ := fatal_ends h.sound h.alive cause
  refine ⟨hk, by rw [he.mappings]; exact h.apart, he.gone, fun j hj => ?_⟩
  by_cases hjc : j = c
  · subst hjc
    exact .of_env?_none (hc.resolve_right hj)
  · exact (h.spares j hj hjc).trans (he.spares j hj)

/-- **Giving up in good order.** -/
theorem fatal_perishes (hc : k.Calm p.env sp) (cause : UserPanic) : k.Perishes (p.fatal k cause) p.env := by
  exact fatal_of_falters (c := p.env) (hc.falters fun j _ _ => .refl k j) (Or.inr rfl) cause

end UserProcess
end Exokernel
