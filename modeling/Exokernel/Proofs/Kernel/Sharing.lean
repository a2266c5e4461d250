import Exokernel.Proofs.Kernel.Accounting
import Exokernel.Proofs.Paging.Access
/-!
# Who shares a frame

The page tables of all environments together say what is mapped where.  A frame that someone may write is shared with
nobody, as long as what is shared is mapped without the right to write it: the laws below say so for every way in which
user code changes a mapping.
-/
namespace Exokernel

/-! ## Permissions -/

namespace Perm

theorem contains_and {p q r : Perm} (h : p.contains r) (h' : q.contains r) : (p &&& q).contains r := by
  simp only [contains, beq_iff_eq] at *
  show p.bits &&& q.bits &&& r.bits = r.bits
  rw [UInt32.and_assoc, h', h]

end Perm

theorem Pte.allows_read_of {e : Pte} (hp : e.perm.contains .present) (hu : e.perm.contains .user) :
    e.allows .read := by
  rw [allows, hp, hu]
  rfl

theorem Registers.sp_setA0 (r : Registers) (w : Word) : (r.setA0 w).sp = r.sp := by
  simp only [sp, setA0, Vector.getElem_set]
  rfl

/-! ## Mappings -/

/-- What is mapped where: for every environment, the entry of every page. -/
abbrev Mappings := EnvId → VirtAddr → Option Pte

namespace Mappings

variable {M : Mappings} {i j c t : EnvId} {v w s : VirtAddr} {f : Frame} {e p : Pte} {q : Perm}

/-- Change one page of one environment. -/
def put (M : Mappings) (t : EnvId) (v : VirtAddr) (o : Option Pte) : Mappings := fun j w =>
  if t = j ∧ v.pageDown = w.pageDown then o else M j w

/-- Forget an environment. -/
def without (M : Mappings) (i : EnvId) : Mappings := fun j w => if i = j then none else M j w

/-- The entry for a byte. -/
def entryAt (M : Mappings) (j : EnvId) (a : Nat) : Option Pte := (VirtAddr.ofNat? a).bind (M j)

/-- A frame that is mapped nowhere. -/
def Fresh (M : Mappings) (f : Frame) : Prop := ∀ j v p, M j v = some p → p.frame ≠ f

/-- **What may be written is mapped nowhere else.** -/
def Exclusive (M : Mappings) : Prop :=
  ∀ j v p j' v' p', M j v = some p → p.perm.contains .writable → M j' v' = some p' → p'.frame = p.frame →
    j' = j ∧ v'.pageDown = v.pageDown ∧ p' = p

theorem put_self (o : Option Pte) : M.put t v o t v = o := if_pos ⟨rfl, rfl⟩

theorem entryAt_put (o : Option Pte) (a : Nat) :
    (M.put t v o).entryAt j a = if t = j ∧ v.pageDown.raw = pageDown a then o else M.entryAt j a := by
  unfold entryAt VirtAddr.ofNat?
  split
  · rw [Option.bind_some, put, Option.bind_some]
    congr 1
    simp only [VirtAddr.pageDown, VirtAddr.mk.injEq]
  · rename_i ha
    have hv := v.raw_lt
    rw [Option.bind_none, Option.bind_none, if_neg]
    rintro ⟨-, h⟩
    simp only [VirtAddr.pageDown, pageDown, userTop, pageSize] at *
    omega

namespace Exclusive

theorem without (h : M.Exclusive) (i : EnvId) : (M.without i).Exclusive := by
  intro j₁ v₁ p₁ j₂ v₂ p₂ h₁ hw h₂ hff
  simp only [Mappings.without] at h₁ h₂
  split at h₁
  · cases h₁
  split at h₂
  · cases h₂
  exact h _ _ _ _ _ _ h₁ hw h₂ hff

theorem of_fresh (h : M.Exclusive) (hf : M.Fresh f) {M' : Mappings}
    (hM : ∀ j w p, M' j w = some p → (j = c ∧ w.pageDown = v.pageDown ∧ p = ⟨f, q⟩) ∨ M j w = some p) :
    M'.Exclusive := by
  intro j₁ v₁ p₁ j₂ v₂ p₂ h₁ hw h₂ hff
  rcases hM _ _ _ h₁ with ⟨rfl, hv₁, rfl⟩ | h₁
  · rcases hM _ _ _ h₂ with ⟨rfl, hv₂, rfl⟩ | h₂
    · exact ⟨rfl, hv₂.trans hv₁.symm, rfl⟩
    · exact absurd hff (hf _ _ _ h₂)
  · rcases hM _ _ _ h₂ with ⟨rfl, hv₂, rfl⟩ | h₂
    · exact absurd hff.symm (hf _ _ _ h₁)
    · exact h _ _ _ _ _ _ h₁ hw h₂ hff

/-- **A fresh frame may be mapped with any right.** -/
theorem put_fresh (h : M.Exclusive) (hf : M.Fresh f) (t : EnvId) (v : VirtAddr) (q : Perm) :
    (M.put t v (some ⟨f, q⟩)).Exclusive := by
  refine h.of_fresh hf (c := t) (v := v) (q := q) fun j w p hp => ?_
  unfold put at hp
  split at hp
  · rename_i hc
    cases hp
    exact Or.inl ⟨hc.1.symm, hc.2.symm, rfl⟩
  · exact Or.inr hp

/-- **A fresh page may be filled in one place and handed on to another**, if it does not stay in the first. -/
theorem put_moved (h : M.Exclusive) (hf : M.Fresh f) (i c : EnvId) (s v : VirtAddr) (o : Option Pte) (q : Perm) :
    (((M.put i s o).put c v (some ⟨f, q⟩)).put i s none).Exclusive := by
  refine h.of_fresh hf (c := c) (v := v) (q := q) fun j w p hp => ?_
  simp only [put] at hp
  split at hp
  · cases hp
  rename_i hs
  split at hp
  · rename_i hc
    cases hp
    exact Or.inl ⟨hc.1.symm, hc.2.symm, rfl⟩
  · exact Or.inr hp

/-- Before it is taken out of the first place, only the holder of that is in the way. -/
theorem put_moving (h : M.Exclusive) (hf : M.Fresh f) (i c : EnvId) (s v : VirtAddr) (o : Option Pte) (q : Perm) :
    (((M.put i s o).put c v (some ⟨f, q⟩)).without i).Exclusive := by
  refine h.of_fresh hf (c := c) (v := v) (q := q) fun j w p hp => ?_
  simp only [Mappings.without, put] at hp
  split at hp
  · cases hp
  rename_i hi
  split at hp
  · rename_i hc
    cases hp
    exact Or.inl ⟨hc.1.symm, hc.2.symm, rfl⟩
  · rw [if_neg (fun hc => hi hc.1)] at hp
    exact Or.inr hp

/-- **What only its holder may write can be shown to another**, who may not write it: the holder apart, all is well. -/
theorem put_shared (h : M.Exclusive) (hp : M i s = some p) (hq : ¬ q.contains .writable) :
    ((M.put c v (some ⟨p.frame, q⟩)).without i).Exclusive := by
  intro j₁ v₁ p₁ j₂ v₂ p₂ h₁ hw h₂ hff
  simp only [Mappings.without, put] at h₁ h₂
  split at h₁
  · cases h₁
  rename_i hi₁
  split at h₁
  · cases h₁
    exact absurd hw hq
  split at h₂
  · cases h₂
  split at h₂
  · cases h₂
    exact absurd (h _ _ _ _ _ _ h₁ hw hp hff).1 hi₁
  · exact h _ _ _ _ _ _ h₁ hw h₂ hff

/-- **What nobody may write can be shown to anyone**, who may not write it either. -/
theorem put_readOnly (h : M.Exclusive) (hp : M i s = some p) (hr : ¬ p.perm.contains .writable)
    (hq : ¬ q.contains .writable) : (M.put c v (some ⟨p.frame, q⟩)).Exclusive := by
  intro j₁ v₁ p₁ j₂ v₂ p₂ h₁ hw h₂ hff
  simp only [put] at h₁ h₂
  split at h₁
  · cases h₁
    exact absurd hw hq
  split at h₂
  · cases h₂
    obtain ⟨-, -, rfl⟩ := h _ _ _ _ _ _ h₁ hw hp hff
    exact absurd hw hr
  · exact h _ _ _ _ _ _ h₁ hw h₂ hff

/-- **A page that its holder marks as well is shared by all without harm.** -/
theorem put_marked (h : M.Exclusive) (hp : M i v = some p) (hq : ¬ q.contains .writable) :
    ((M.put c v (some ⟨p.frame, q⟩)).put i v (some ⟨p.frame, q⟩)).Exclusive := by
  have hother {j₁ : EnvId} {v₁ : VirtAddr} {p₁ : Pte} (h₁ : M j₁ v₁ = some p₁) (hw : p₁.perm.contains .writable)
      (hn : ¬ (i = j₁ ∧ v.pageDown = v₁.pageDown)) : p.frame ≠ p₁.frame := by
    intro hff
    obtain ⟨hj, hv, -⟩ := h _ _ _ _ _ _ h₁ hw hp hff
    exact hn ⟨hj, hv⟩
  intro j₁ v₁ p₁ j₂ v₂ p₂ h₁ hw h₂ hff
  simp only [put] at h₁ h₂
  split at h₁
  · cases h₁
    exact absurd hw hq
  rename_i hn
  split at h₁
  · cases h₁
    exact absurd hw hq
  split at h₂
  · cases h₂
    exact absurd hff (hother h₁ hw hn)
  split at h₂
  · cases h₂
    exact absurd hff (hother h₁ hw hn)
  · exact h _ _ _ _ _ _ h₁ hw h₂ hff

end Exclusive
end Mappings

namespace Kernel

variable {k k' k₁ : Kernel} {i j t : EnvId} {e : Env} {v : VirtAddr} {f : Frame} {p : Pte} {o : Option Pte} {a : Nat}
  {b : UInt8} {sp : Word} {H : List Frame}

/-- What is mapped where in a kernel. -/
def mappings (k : Kernel) : Mappings := fun j v => (k.env? j).bind fun e => e.space.lookup v

theorem mappings_of_env? (h : k.env? i = some e) (v : VirtAddr) : k.mappings i v = e.space.lookup v := by
  rw [mappings, h, Option.bind_some]

theorem mappings_of_env?_none (h : k.env? i = none) (v : VirtAddr) : k.mappings i v = none := by
  rw [mappings, h, Option.bind_none]

theorem mappings_congr (h : (k'.env? j).map Env.space = (k.env? j).map Env.space) (v : VirtAddr) :
    k'.mappings j v = k.mappings j v := by
  have hm (k : Kernel) : k.mappings j v = ((k.env? j).map Env.space).bind fun s => s.lookup v := by
    rw [mappings, Option.bind_map]
    rfl
  rw [hm, hm, h]

theorem mappings_modifyEnv {g : Env → Env} (hid : ∀ e, (g e).id = e.id) (hs : ∀ e, (g e).space = e.space) :
    (k.modifyEnv i g).mappings = k.mappings := by
  funext j v
  refine mappings_congr ?_ v
  rw [env?_modifyEnv hid]
  cases k.env? j with
  | none => rfl
  | some e => by_cases hj : i = j <;> simp [hj, hs]

theorem mappings_setRegisters (k : Kernel) (i : EnvId) (r : Registers) :
    (k.setRegisters i r).mappings = k.mappings :=
  mappings_modifyEnv (g := fun e => { e with regs := r }) (fun _ => rfl) fun _ => rfl

theorem mappings_setStatus (k : Kernel) (i : EnvId) (s : EnvStatus) : (k.setStatus i s).mappings = k.mappings :=
  mappings_modifyEnv (g := fun e => { e with status := s }) (fun _ => rfl) fun _ => rfl

/-- One page of one environment is mapped otherwise. -/
theorem mappings_eq_put {te : Env} {s : AddressSpace} (ht : k.env? te.id = some te)
    (hl : ∀ w, s.lookup w = if v.pageDown = w.pageDown then o else te.space.lookup w)
    (he : ∀ j, k'.env? j = (k.env? j).map fun e => if te.id = j then { e with space := s } else e) :
    k'.mappings = k.mappings.put te.id v o := by
  funext j w
  by_cases hj : te.id = j
  · subst hj
    rw [Mappings.put, mappings_of_env? ht, mappings_of_env? (e := { te with space := s }) (by rw [he, ht]; simp)]
    simp [hl]
  · have hother : (k'.env? j).map Env.space = (k.env? j).map Env.space := by
      rw [he]
      cases k.env? j <;> simp [hj]
    rw [Mappings.put, if_neg (fun h => hj h.1)]
    exact mappings_congr hother w

theorem mappings_mapInto {q : Perm} (he : k.env? e.id = some e) (h : k.mapInto e f v q = (.ok (), k')) :
    k'.mappings = k.mappings.put e.id v (some ⟨f, q⟩) := by
  obtain ⟨-, s, hl, henv⟩ := env?_mapInto h
  exact mappings_eq_put he hl henv

theorem mappings_unmapFrom (he : k.env? e.id = some e) (v : VirtAddr) :
    (k.unmapFrom e v).mappings = k.mappings.put e.id v none := by
  obtain ⟨-, s, hl, henv⟩ := env?_unmapFrom k e v
  exact mappings_eq_put he hl henv

theorem mappings_of_bare (h : k'.bare = k.bare) : k'.mappings = k.mappings := by
  funext j v
  exact mappings_congr (by rw [env?_congr (envs_of_bare h)]) v

/-- A new environment has nothing mapped. -/
theorem mappings_createEnv (hk : k.Sound H) {parent : Option EnvId} (h : k.createEnv parent = (.ok i, k')) :
    k'.mappings = k.mappings ∧ ∀ v, k'.mappings i v = none := by
  obtain ⟨hnone, f, henv⟩ := env?_createEnv hk h
  have hempty (v : VirtAddr) : k'.mappings i v = none := by
    rw [mappings_of_env? ((henv i).trans (if_pos rfl))]
    exact PageTable.lookup_empty _ _
  refine ⟨?_, hempty⟩
  funext j v
  by_cases hj : i = j
  · rw [← hj, hempty, mappings_of_env?_none hnone]
  · exact mappings_congr (by rw [henv, if_neg hj]) v

theorem mappings_destroyEnv (k : Kernel) (i : EnvId) : (k.destroyEnv i).2.mappings = k.mappings.without i := by
  funext j v
  rw [Mappings.without]
  cases he : k.env? i with
  | none =>
    rw [destroyEnv_of_env?_none he]
    split
    · rename_i hij
      exact mappings_of_env?_none (by rw [← hij, he]) v
    · rfl
  | some e =>
    have henv := env?_destroyEnv (destroyEnv_of_env? he) j
    rw [destroyEnv_of_env? he]
    split
    · rename_i hij
      exact mappings_of_env?_none (by rw [henv, if_pos hij]) v
    · rename_i hij
      exact mappings_congr (by rw [henv, if_neg hij]) v

theorem mappings_transfer {c : EnvId} {req : SendRequest} {te : Env} {offered : Option (Frame × Perm)} {q : Perm}
    (hs : k.checkSend c req = .ok (te, offered)) (ht : k.transfer te offered = (.ok q, k')) :
    (∃ sv v pte, req.page = some (sv, q) ∧ te.mailbox.target = some v ∧ k.mappings c sv = some pte ∧
      (q.contains .writable → pte.perm.contains .writable) ∧
      k'.mappings = k.mappings.put te.id v (some ⟨pte.frame, q⟩)) ∨
    ((req.page = none ∨ te.mailbox.target = none) ∧ k'.mappings = k.mappings ∧ q = .empty) := by
  obtain ⟨hte, -, ho⟩ := Syscall.checkSend_ok hs
  rcases Syscall.transfer_ok ht with ⟨rfl, rfl, hno⟩ | ⟨f, v, rfl, htv, hm⟩
  · refine Or.inr ⟨?_, rfl, rfl⟩
    rcases hno with rfl | hno
    · exact Or.inl (Syscall.offer_none ho)
    · exact Or.inr hno
  · obtain ⟨me, sv, pte, hme, hpage, hl, hw, rfl⟩ := Syscall.offer_some ho
    refine Or.inl ⟨sv, v, pte, hpage, htv, ?_, hw, mappings_mapInto hte hm⟩
    rw [mappings_of_env? hme, hl]

theorem mappings_wake (k : Kernel) (t c : EnvId) (value : UInt32) (q : Perm) :
    (k.wake t c value q).mappings = k.mappings :=
  mappings_modifyEnv (g := fun e =>
    { e with mailbox := e.mailbox.deliver c value q, regs := e.regs.setA0 0, status := .runnable }) (fun _ => rfl)
    fun _ => rfl

theorem entryAt_of_env? (h : k.env? i = some e) (a : Nat) : k.mappings.entryAt i a = e.space.entryAt a := by
  unfold Mappings.entryAt AddressSpace.entryAt
  congr 1
  funext v
  exact mappings_of_env? h v

theorem Sound.refs_pos_of_mappings (hk : k.Sound H) (h : k.mappings j v = some p) : 0 < k.machine.refs p.frame := by
  obtain ⟨e, he, hl⟩ := Option.bind_eq_some_iff.1 h
  exact hk.refs_pos_of_lookup he hl

/-! ## What a program sees -/

/-- The program may run, on a stack at a given address. -/
def Runs (k : Kernel) (i : EnvId) (sp : Word) : Prop :=
  ∃ e, k.env? i = some e ∧ e.status.isRunnable ∧ e.regs.sp = sp

/-- The program reads a byte at an address. -/
def Shows (k : Kernel) (i : EnvId) (a : Nat) (b : UInt8) : Prop :=
  ∃ p, k.mappings.entryAt i a = some p ∧ p.allows .read ∧ k.machine.byte (p.frame, pageOffset a) = some b

theorem read_of_shows {len : Nat} {d : Nat → UInt8} (h : k.env? i = some e)
    (hs : ∀ x, x < len → k.Shows i (a + x) (d x)) :
    ∃ bytes, e.space.read k.machine a len = .ok bytes ∧ bytes.size = len ∧ ∀ x, x < len → bytes[x]? = some (d x) := by
  have hc : e.space.check a len .read = .ok () := by
    refine AddressSpace.check_of_allows fun x hx hl => ?_
    obtain ⟨p, hp, hu, -⟩ := hs (x - a) (by omega)
    rw [Nat.add_sub_cancel' hx, entryAt_of_env? h] at hp
    exact ⟨p, hp, hu⟩
  obtain ⟨bytes, hb⟩ : ∃ bytes, e.space.read k.machine a len = .ok bytes := by
    rw [AddressSpace.read, hc]
    exact ⟨_, rfl⟩
  obtain ⟨hsize, hget⟩ := AddressSpace.getElem?_of_read hb
  refine ⟨bytes, hb, hsize, fun x hx => ?_⟩
  obtain ⟨p, hp, -, hbyte⟩ := hs x hx
  rw [entryAt_of_env? h] at hp
  rw [hget x hx, AddressSpace.byte?, AddressSpace.locate_eq_some hp, Option.bind_some, hbyte]

theorem getElem?_of_shows {len x : Nat} {bytes : Bytes} (h : k.env? i = some e)
    (hr : e.space.read k.machine a len = .ok bytes) (hx : x < len) (hs : k.Shows i (a + x) b) : bytes[x]? = some b := by
  obtain ⟨p, hp, -, hb⟩ := hs
  rw [entryAt_of_env? h] at hp
  rw [(AddressSpace.getElem?_of_read hr).2 x hx, AddressSpace.byte?, AddressSpace.locate_eq_some hp, Option.bind_some, hb]

/-- The program is still there: it can run if it could, and its stack is where it was. -/
def Keeps (k k' : Kernel) (j : EnvId) : Prop :=
  ∀ e, k.env? j = some e → ∃ e', k'.env? j = some e' ∧ (e.status.isRunnable → e'.status.isRunnable) ∧
    e'.regs.sp = e.regs.sp

namespace Keeps

theorem refl (k : Kernel) (j : EnvId) : k.Keeps k j := fun e h => ⟨e, h, id, rfl⟩

theorem trans (h : k.Keeps k₁ j) (h' : k₁.Keeps k' j) : k.Keeps k' j := by
  intro e he
  obtain ⟨e₁, he₁, hr₁, hs₁⟩ := h e he
  obtain ⟨e₂, he₂, hr₂, hs₂⟩ := h' e₁ he₁
  exact ⟨e₂, he₂, fun h => hr₂ (hr₁ h), hs₂.trans hs₁⟩

theorem runs (h : k.Keeps k' j) (hr : k.Runs j sp) : k'.Runs j sp := by
  obtain ⟨e, he, hst, hsp⟩ := hr
  obtain ⟨e', he', hr', hs'⟩ := h e he
  exact ⟨e', he', hr' hst, hs'.trans hsp⟩

end Keeps

/-- **Nothing that concerns the program has changed**: it goes on where it was, with the same pages. -/
def Spares (k k' : Kernel) (j : EnvId) : Prop :=
  ∀ e, k.env? j = some e → ∃ e', k'.env? j = some e' ∧ (e.status.isRunnable → e'.status.isRunnable) ∧
    e'.regs.sp = e.regs.sp ∧ (∀ v, e'.space.lookup v = e.space.lookup v) ∧
    ∀ v p, e.space.lookup v = some p → k'.machine.page p.frame = k.machine.page p.frame

namespace Spares

theorem refl (k : Kernel) (j : EnvId) : k.Spares k j := fun e h => ⟨e, h, id, rfl, fun _ => rfl, fun _ _ _ => rfl⟩

theorem trans (h : k.Spares k₁ j) (h' : k₁.Spares k' j) : k.Spares k' j := by
  intro e he
  obtain ⟨e₁, he₁, hr₁, hs₁, hl₁, hp₁⟩ := h e he
  obtain ⟨e₂, he₂, hr₂, hs₂, hl₂, hp₂⟩ := h' e₁ he₁
  refine ⟨e₂, he₂, fun h => hr₂ (hr₁ h), hs₂.trans hs₁, fun v => (hl₂ v).trans (hl₁ v), fun v p hp => ?_⟩
  exact (hp₂ v p (by rw [hl₁, hp])).trans (hp₁ v p hp)

theorem of_env?_none (h : k.env? j = none) : k.Spares k' j := fun e he => by rw [h] at he; cases he

/-- Who is not there in the end has not been there. -/
theorem env?_eq_none (h : k.Spares k' j) (hn : k'.env? j = none) : k.env? j = none := by
  rcases he : k.env? j with _ | e
  · rfl
  · obtain ⟨e', he', -⟩ := h e he
    rw [hn] at he'
    cases he'

theorem keeps (h : k.Spares k' j) : k.Keeps k' j := by
  intro e he
  obtain ⟨e', he', hr', hs', -, -⟩ := h e he
  exact ⟨e', he', hr', hs'⟩

theorem runs (h : k.Spares k' j) (hr : k.Runs j sp) : k'.Runs j sp := h.keeps.runs hr

theorem shows (h : k.Spares k' j) (hs : k.Shows j a b) : k'.Shows j a b := by
  obtain ⟨p, hp, hu, hb⟩ := hs
  obtain ⟨v, hv, hl⟩ := Option.bind_eq_some_iff.1 hp
  obtain ⟨e, he, hle⟩ := Option.bind_eq_some_iff.1 hl
  obtain ⟨e', he', -, -, hl', hpg⟩ := h e he
  refine ⟨p, ?_, hu, ?_⟩
  · rw [Mappings.entryAt, hv, Option.bind_some, mappings_of_env? he', hl', hle]
  · rw [Machine.byte_congr (hpg v p hle), hb]

end Spares

/-! ## Small steps -/

/-- **Nothing that concerns any program has changed.** -/
structure Quiet (k k' : Kernel) : Prop where
  machine : k'.machine.bare = k.machine.bare
  mappings : k'.mappings = k.mappings
  gone (j : EnvId) (h : k.env? j = none) : k'.env? j = none
  spares (j : EnvId) : k.Spares k' j

/-- **One page of one environment is mapped otherwise**, and no byte in use has changed. -/
structure Remaps (k k' : Kernel) (t : EnvId) (v : VirtAddr) (o : Option Pte) : Prop where
  page (f : Frame) (hf : 0 < k'.machine.refs f) : k'.machine.page f = k.machine.page f
  mappings : k'.mappings = k.mappings.put t v o
  keeps (j : EnvId) : k.Keeps k' j
  spares (j : EnvId) (hj : j ≠ t) : k.Spares k' j

namespace Quiet

theorem refl (k : Kernel) : k.Quiet k := ⟨rfl, rfl, fun _ h => h, Spares.refl k⟩

theorem trans (h : k.Quiet k₁) (h' : k₁.Quiet k') : k.Quiet k' :=
  ⟨h'.machine.trans h.machine, h'.mappings.trans h.mappings, fun j hj => h'.gone j (h.gone j hj),
    fun j => (h.spares j).trans (h'.spares j)⟩

theorem of_envs (hm : k'.machine.bare = k.machine.bare) (f : EnvId → Env → Env)
    (he : ∀ j, k'.env? j = (k.env? j).map (f j)) (hs : ∀ j e, k.env? j = some e → (f j e).space = e.space)
    (hr : ∀ j e, k.env? j = some e → e.status.isRunnable → (f j e).status.isRunnable)
    (hsp : ∀ j e, k.env? j = some e → (f j e).regs.sp = e.regs.sp) : k.Quiet k' where
  machine := hm
  mappings := by
    funext j v
    refine mappings_congr ?_ v
    rw [he]
    cases h : k.env? j with
    | none => rfl
    | some e => rw [Option.map_some, Option.map_some, Option.map_some, hs j e h]
  gone j h := by rw [he, h, Option.map_none]
  spares j e h := by
    refine ⟨f j e, by rw [he, h, Option.map_some], hr j e h, hsp j e h, fun v => by rw [hs j e h], fun v p _ => ?_⟩
    exact Machine.page_congr hm _

theorem of_bare (h : k'.bare = k.bare) : k.Quiet k' :=
  of_envs (machine_of_bare h) (fun _ e => e) (fun j => by rw [env?_congr (envs_of_bare h), Option.map_id'])
    (fun _ _ _ => rfl) (fun _ _ _ h => h) (fun _ _ _ => rfl)

theorem modifyEnv {g : Env → Env} (hid : ∀ e, (g e).id = e.id) (hs : ∀ e, (g e).space = e.space)
    (hr : ∀ e, e.status.isRunnable → (g e).status.isRunnable)
    (hsp : ∀ e, k.env? i = some e → (g e).regs.sp = e.regs.sp) : k.Quiet (k.modifyEnv i g) := by
  refine of_envs rfl (fun j e => if i = j then g e else e) (fun j => env?_modifyEnv hid j) ?_ ?_ ?_
  · intro j e _
    split
    · exact hs e
    · rfl
  · intro j e _ h
    split
    · exact hr e h
    · exact h
  · intro j e he
    split
    · rename_i hj
      exact hsp e (by rw [hj, he])
    · rfl

theorem log (k : Kernel) (l : Line) : k.Quiet (k.log l) := of_bare (bare_log k l)

theorem setA0 (k : Kernel) (i : EnvId) (w : Word) :
    k.Quiet (k.modifyEnv i fun e => { e with regs := e.regs.setA0 w }) :=
  .modifyEnv (g := fun e => { e with regs := e.regs.setA0 w }) (fun _ => rfl) (fun _ => rfl) (fun _ h => h)
    fun e _ => e.regs.sp_setA0 w

theorem conclude (i : EnvId) (number : Word) (r : Except SysError Word × Kernel) :
    r.2.Quiet (Kernel.conclude i number r).2 :=
  conclude_induction (Q := r.2.Quiet) i number (.refl r.2) (fun k l h => h.trans (.log k l)) fun k ret h =>
    h.trans (.setA0 k i ret)

theorem withScheduler (k : Kernel) (s : Scheduler) : k.Quiet { k with scheduler := s } :=
  .of_envs rfl (fun _ e => e) (fun j => by rw [Option.map_id']; rfl) (fun _ _ _ => rfl) (fun _ _ _ h => h)
    fun _ _ _ => rfl

theorem setRunning (k : Kernel) (i : EnvId) : k.Quiet (k.setStatus i .running) :=
  .modifyEnv (g := fun e => { e with status := .running }) (fun _ => rfl) (fun _ => rfl) (fun _ _ => rfl)
    fun _ _ => rfl

theorem preempt (k : Kernel) : k.Quiet k.preempt := by
  unfold Kernel.preempt
  split
  · exact .refl k
  · rename_i j _
    refine .trans (.modifyEnv (g := fun e => if e.status = .running then { e with status := .runnable } else e)
      (i := j) ?_ ?_ ?_ ?_) (.withScheduler _ _)
    · intro e
      split <;> rfl
    · intro e
      split <;> rfl
    · intro e he
      split
      · rfl
      · exact he
    · intro e _
      split <;> rfl

theorem dispatch (h : k.dispatch i = .ok k') : k.Quiet k' := by
  obtain ⟨-, -, -, ⟨-, rfl⟩ | ⟨-, rfl⟩⟩ := dispatch_ok h
  · exact .setRunning k i
  · exact ((Quiet.preempt k).trans (.withScheduler _ _)).trans (.setRunning _ i)

theorem scheduleNext (k : Kernel) : k.Quiet k.scheduleNext.2 := by
  unfold Kernel.scheduleNext
  dsimp only
  split
  · exact (preempt k).trans (.withScheduler _ _)
  · exact ((preempt k).trans (.withScheduler _ _)).trans (.setRunning _ _)

theorem runs (h : k.Quiet k') (hr : k.Runs j sp) : k'.Runs j sp := (h.spares j).runs hr

theorem shows (h : k.Quiet k') (hs : k.Shows j a b) : k'.Shows j a b := (h.spares j).shows hs

theorem remaps (h : k.Quiet k₁) (h' : k₁.Remaps k' t v o) : k.Remaps k' t v o where
  page f hf := (h'.page f hf).trans (Machine.page_congr h.machine f)
  mappings := by rw [h'.mappings, h.mappings]
  keeps j := (h.spares j).keeps.trans (h'.keeps j)
  spares j hj := (h.spares j).trans (h'.spares j hj)

end Quiet

namespace Remaps

theorem of_env? {te : Env} {s : AddressSpace} {v : VirtAddr} {o : Option Pte} (hk' : k'.Sound H)
    (hp : ∀ f, 0 < k'.machine.refs f → k'.machine.page f = k.machine.page f)
    (ht : k.env? te.id = some te)
    (hl : ∀ w, s.lookup w = if v.pageDown = w.pageDown then o else te.space.lookup w)
    (he : ∀ j, k'.env? j = (k.env? j).map fun e => if te.id = j then { e with space := s } else e) :
    k.Remaps k' te.id v o where
  page := hp
  mappings := mappings_eq_put ht hl he
  keeps j e hje := by
    by_cases hj : te.id = j
    · exact ⟨{ e with space := s }, by rw [he, hje, Option.map_some, if_pos hj], id, rfl⟩
    · exact ⟨e, by rw [he, hje, Option.map_some, if_neg hj], id, rfl⟩
  spares j hj e hje := by
    have hje' : k'.env? j = some e := by rw [he, hje, Option.map_some, if_neg hj.symm]
    exact ⟨e, hje', id, rfl, fun _ => rfl, fun v p hl => hp _ (hk'.refs_pos_of_lookup hje' hl)⟩

theorem runs (h : k.Remaps k' t v o) (hr : k.Runs j sp) : k'.Runs j sp := (h.keeps j).runs hr

theorem quiet (h : k.Remaps k₁ t v o) (h' : k₁.Quiet k') : k.Remaps k' t v o where
  page f hf := by
    rw [Machine.refs_congr h'.machine] at hf
    exact (Machine.page_congr h'.machine f).trans (h.page f hf)
  mappings := h'.mappings.trans h.mappings
  keeps j := (h.keeps j).trans (h'.spares j).keeps
  spares j hj := (h.spares j hj).trans (h'.spares j)

theorem shows (h : k.Remaps k' t v o) (hk : k'.Sound H) (hs : k.Shows j a b)
    (hn : ¬ (t = j ∧ v.pageDown.raw = pageDown a)) : k'.Shows j a b := by
  obtain ⟨p, hp, hu, hb⟩ := hs
  have hp' : k'.mappings.entryAt j a = some p := by rw [h.mappings, Mappings.entryAt_put, if_neg hn, hp]
  obtain ⟨w, -, hl⟩ := Option.bind_eq_some_iff.1 hp'
  exact ⟨p, hp', hu, by rw [Machine.byte_congr (h.page _ (hk.refs_pos_of_mappings hl)), hb]⟩

end Remaps

/-! ## What is loaded and stored -/

theorem load_ok {a : Word} {len : Nat} {bytes : Bytes} (h : k.load i a len = (.ok bytes, k')) : k' = k := by
  unfold Kernel.load at h
  split at h
  · cases h
  split at h
  · cases h
    rfl
  · cases h

theorem store_ok {a : Word} {data : Bytes} (h : k.store i a data = (.ok (), k')) :
    ∃ e m, k.env? i = some e ∧ e.space.write k.machine a.toNat data = .ok m ∧ k' = { k with machine := m } := by
  unfold Kernel.store at h
  split at h
  · cases h
  rename_i e he
  split at h
  · rename_i m hw
    cases h
    exact ⟨e, m, he, hw, rfl⟩
  · cases h

/-- **What is stored through one mapping is read through every other of the frame.** -/
theorem shows_of_store {a : Word} {x : Nat} {b : UInt8} {e o : Pte} (hk : k.Sound [])
    (h : k.store i a #[b] = (.ok (), k')) (he : k.mappings.entryAt i a.toNat = some e)
    (ho : k.mappings.entryAt j x = some o) (hf : o.frame = e.frame) (hx : pageOffset x = pageOffset a.toNat)
    (hal : o.allows .read) : k'.Shows j x b := by
  obtain ⟨env, m, henv, hw, rfl⟩ := store_ok h
  rw [entryAt_of_env? henv] at he
  have hb := AddressSpace.byte_write_of_locate (fun f hf => hk.refs_pos_of_mem henv hf) hw (Nat.le_refl _)
    (Nat.lt_add_one _) (AddressSpace.locate_eq_some he) fun y hy hyl _ => Nat.le_antisymm (Nat.le_of_lt_succ hyl) hy
  rw [Nat.sub_self] at hb
  refine ⟨o, ho, hal, ?_⟩
  rw [hf, hx]
  exact hb

/-- **Where a program may write, it can store**, and no mapping changes. -/
theorem exists_store {a : Word} {e : Pte} (hk : k.Sound []) (he : k.mappings.entryAt i a.toNat = some e)
    (hal : e.allows .write) (b : UInt8) :
    ∃ k', k.store i a #[b] = (.ok (), k') ∧ k'.mappings = k.mappings ∧ k'.Sound [] := by
  obtain ⟨v, -, hl⟩ := Option.bind_eq_some_iff.1 he
  obtain ⟨env, henv, -⟩ := Option.bind_eq_some_iff.1 hl
  rw [entryAt_of_env? henv] at he
  have hc : env.space.check a.toNat 1 .write = .ok () := by
    refine AddressSpace.check_of_allows fun y hy hyl => ?_
    obtain rfl : y = a.toNat := by omega
    exact ⟨e, he, hal⟩
  obtain ⟨m, hw⟩ : ∃ m, env.space.write k.machine a.toNat #[b] = .ok m := by
    unfold AddressSpace.write
    rw [show (#[b] : Bytes).size = 1 from rfl, hc]
    exact ⟨_, rfl⟩
  refine ⟨{ k with machine := m }, ?_, rfl, hk.write henv hw⟩
  unfold Kernel.store
  rw [henv]
  dsimp only
  rw [hw]

end Kernel
end Exokernel
