import Exokernel.Proofs.Env.Chronicle
import Exokernel.Proofs.Kernel.Accounting
import Exokernel.Proofs.Kernel.Trap
/-!
# The chronicle of a kernel

What becomes of the environments of a kernel can be told as a chronicle of its table: `Chronicle.records` says that the
table is then as the chronicle says, and `Reachable.chronicled` that every state that a kernel can come to has a
chronicle, whatever programs do and whichever calls fail.
-/
namespace Exokernel

/-- What there is to know of a slot: its generation, and who is in it with which parent. -/
def EnvSlot.tag (s : EnvSlot) : UInt32 × Option (EnvId × Option EnvId) :=
  (s.generation, s.env.map fun e => (e.id, e.parent))

namespace EnvTable

/-- A slot that is there and empty. -/
def IsFree (t : EnvTable) (n : Nat) : Prop := ∃ g, t.slots[n]? = some ⟨g, none⟩

/-- The same environments in the same slots, whatever has become of them. -/
def SameTags (t t' : EnvTable) : Prop := t'.slots.map EnvSlot.tag = t.slots.map EnvSlot.tag

/-- Whoever is where they were is there, with the parent they had. -/
theorem parent_of_sameTags {T T' : EnvTable} (h : T.SameTags T') (i : EnvId) :
    (T'.get? i).map Env.parent = (T.get? i).map Env.parent := by
  have tag (T : EnvTable) : (T.get? i).map Env.parent =
      (((T.slots.map EnvSlot.tag)[i.index]?.bind Prod.snd).filter (·.1 == i)).map Prod.snd := by
    unfold EnvTable.get?
    rw [Array.getElem?_map]
    cases T.slots[i.index]? with
    | none => rfl
    | some s =>
      cases s with | mk g o => cases o with
      | none => rfl
      | some e => by_cases h : e.id = i <;> simp [Option.filter, EnvSlot.tag, h]
  rw [tag, tag, h]

theorem firstFree?_of_sameTags {T T' : EnvTable} (h : T.SameTags T') : T'.firstFree? = T.firstFree? := by
  have tag (T : EnvTable) : T.firstFree? = (T.slots.map EnvSlot.tag).findIdx? (·.2.isNone) := by
    rw [EnvTable.firstFree?, Array.findIdx?_map]
    congr 1
    funext s
    simp [EnvSlot.tag]
  rw [tag, tag, h]

theorem nextGeneration_of_sameTags {T T' : EnvTable} (h : T.SameTags T') (n : Nat) :
    T'.nextGeneration n = T.nextGeneration n := by
  have tag (T : EnvTable) : T.slots[n]?.map EnvSlot.generation = (T.slots.map EnvSlot.tag)[n]?.map Prod.fst := by
    rw [Array.getElem?_map, Option.map_map]
    rfl
  rw [EnvTable.nextGeneration, EnvTable.nextGeneration, tag, tag, h]

/-- The table is as the chronicle says. -/
structure Records (t : EnvTable) (ds : List Deed) : Prop where
  genuine : Genuine ds
  capacity : t.capacity ≤ maxEnvSlots
  tag (n : Nat) (s : EnvSlot) (h : t.slots[n]? = some s) :
    s.tag = (EnvId.generationAfter (births n ds), Exokernel.occupant n ds)
  beyond (n : Nat) (h : t.capacity ≤ n) : Exokernel.occupant n ds = none

namespace Records

variable {t t' : EnvTable} {ds later past : List Deed} {i c : EnvId} {p : Option EnvId} {e : Env} {n : Nat}

theorem ofCapacity (h : n ≤ maxEnvSlots) : (EnvTable.ofCapacity n).Records [] where
  genuine := .nil
  capacity := by simpa [EnvTable.ofCapacity, EnvTable.capacity] using h
  tag m s hs := by
    have hs : (Array.replicate n ({} : EnvSlot))[m]? = some s := hs
    rw [Array.getElem?_replicate] at hs
    split at hs
    · cases hs
      rfl
    · cases hs
  beyond _ _ := rfl

theorem sameTags (h : t.Records ds) (ht : t.SameTags t') : t'.Records ds := by
  have hsize : t'.slots.size = t.slots.size := by simpa using congrArg Array.size ht
  refine ⟨h.genuine, ?_, fun m s hs => ?_, fun m hm => h.beyond m ?_⟩
  · show t'.slots.size ≤ _
    rw [hsize]
    exact h.capacity
  · have hm : (t.slots.map EnvSlot.tag)[m]? = some s.tag := by
      rw [← ht, Array.getElem?_map, hs, Option.map_some]
    rw [Array.getElem?_map] at hm
    obtain ⟨s', hs', htag⟩ := Option.map_eq_some_iff.1 hm
    rw [← htag]
    exact h.tag m s' hs'
  · show t.slots.size ≤ m
    rw [← hsize]
    exact hm

/-- **Who is in a slot is whom the chronicle puts there.** -/
theorem occupant (h : t.Records ds) (n : Nat) :
    (t.slots[n]?.bind EnvSlot.env).map (fun e => (e.id, e.parent)) = Exokernel.occupant n ds := by
  cases hs : t.slots[n]? with
  | none => exact (h.beyond n (Array.getElem?_eq_none_iff.1 hs)).symm
  | some s => exact congrArg Prod.snd (h.tag n s hs)

theorem occupant_of_get? (h : t.Records ds) (hg : t.get? i = some e) :
    Exokernel.occupant i.index ds = some (i, e.parent) := by
  obtain ⟨g, hs⟩ := slot_of_get? hg
  rw [← h.occupant, hs]
  show some (e.id, e.parent) = _
  rw [id_of_get? hg]

theorem get?_of_occupant (h : t.Records ds) (ho : Exokernel.occupant i.index ds = some (i, p)) :
    ∃ e, t.get? i = some e ∧ e.parent = p := by
  rw [← h.occupant] at ho
  obtain ⟨e, he, heq⟩ := Option.map_eq_some_iff.1 ho
  cases heq
  exact ⟨e, by rw [EnvTable.get?, he, Option.filter_some, if_pos (by simp)], rfl⟩

theorem get?_eq_none (h : t.Records ds) (ho : ∀ q, Exokernel.occupant i.index ds ≠ some (i, q)) : t.get? i = none :=
  Option.eq_none_iff_forall_ne_some.2 fun _ hg => ho _ (h.occupant_of_get? hg)

theorem index_of_slot (h : t.Records ds) (hs : t.slots[n]?.bind EnvSlot.env = some e) : e.id.index = n := by
  have ho := h.occupant n
  rw [hs] at ho
  exact (born_of_occupant ho.symm).1

theorem generation (h : t.Records ds) {g : UInt32} {o : Option Env} (hs : t.slots[n]? = some ⟨g, o⟩) :
    g = EnvId.generationAfter (births n ds) := congrArg Prod.fst (h.tag n _ hs)

/-- **Ids of live environments are different.** -/
theorem nodup_ids (h : t.Records ds) : (t.toList.map Env.id).Nodup := by
  have sub : ∀ (l : List EnvSlot) (b : Nat), (∀ n e, l[n]?.bind EnvSlot.env = some e → e.id.index = b + n) →
      ((l.filterMap EnvSlot.env).map fun e => e.id.index).Sublist (List.range' b l.length) := by
    intro l
    induction l with
    | nil => exact fun _ _ => List.Sublist.refl _
    | cons s l ih =>
      intro b hl
      have hrest := ih (b + 1) fun n e he => by
        have := hl (n + 1) e he
        omega
      rw [List.length_cons, List.range'_succ]
      cases he : s.env with
      | none =>
        rw [List.filterMap_cons_none he]
        exact hrest.cons b
      | some e =>
        rw [List.filterMap_cons_some he, List.map_cons, hl 0 e he]
        exact hrest.cons_cons b
  have hsub := sub t.slots.toList 0 fun n e he => by
    rw [Array.getElem?_toList] at he
    rw [h.index_of_slot he, Nat.zero_add]
  refine List.Nodup.of_map EnvId.index ?_
  rw [List.map_map]
  exact hsub.nodup List.nodup_range'

theorem born (h : t.Records ds) (hn : t.firstFree? = some n) (hp : ∀ q, p = some q → t.get? q ≠ none)
    (hi : i = .ofParts (t.nextGeneration n) n) (s : AddressSpace) :
    (t.fill n (t.nextGeneration n) (.fresh i p s)).Records (.born i p :: ds) := by
  obtain ⟨g, hs⟩ := slot_of_firstFree? hn
  have hlt : n < t.slots.size := lt_capacity_of_firstFree? hn
  have hindex : i.index = n := by
    rw [hi, EnvId.index_ofParts _ (Nat.lt_of_lt_of_le hlt h.capacity)]
  have hgen : t.nextGeneration n = EnvId.generationAfter (births n ds + 1) := by
    rw [nextGeneration, hs, EnvId.generationAfter, ← h.generation hs]
    rfl
  refine ⟨?_, ?_, fun m s' hs' => ?_, fun m hm => ?_⟩
  · refine .born h.genuine ?_ ?_ fun q hq => ?_
    · rw [hindex, ← hgen, hi]
    · rw [hindex, ← h.occupant, hs]
      rfl
    · obtain ⟨e, he⟩ := Option.ne_none_iff_exists'.1 (hp q hq)
      exact ⟨e.parent, h.occupant_of_get? he⟩
  · rw [capacity_fill]
    exact h.capacity
  · rw [fill, Array.getElem?_setIfInBounds] at hs'
    by_cases hm : n = m
    · subst hm
      rw [if_pos rfl, if_pos hlt] at hs'
      cases hs'
      rw [← hindex, births_born, Exokernel.occupant_born, hindex, ← hgen]
      rfl
    · rw [if_neg hm] at hs'
      have hd : (Deed.born i p).slot ≠ m := by
        rw [← hindex] at hm
        exact hm
      rw [births_cons_of_ne hd, Exokernel.occupant_cons_of_ne hd]
      exact h.tag m s' hs'
  · rw [capacity_fill] at hm
    have hd : (Deed.born i p).slot ≠ m := by
      show i.index ≠ m
      have hm : t.slots.size ≤ m := hm
      omega
    rw [Exokernel.occupant_cons_of_ne hd]
    exact h.beyond m hm

theorem ended (h : t.Records ds) (hg : t.get? i = some e) : (t.remove i).Records (.ended i :: ds) := by
  refine ⟨.ended h.genuine (h.occupant_of_get? hg), ?_, fun m s hs => ?_, fun m hm => ?_⟩
  · rw [capacity_remove]
    exact h.capacity
  · rw [remove, Array.getElem?_modify] at hs
    rw [births_ended]
    by_cases hm : i.index = m
    · subst hm
      obtain ⟨g, hslot⟩ := slot_of_get? hg
      rw [if_pos rfl, hslot, Option.map_some] at hs
      cases hs
      rw [Exokernel.occupant_ended, ← h.generation hslot]
      simp [EnvSlot.tag, id_of_get? hg]
    · have hd : (Deed.ended i).slot ≠ m := hm
      rw [if_neg hm] at hs
      rw [Exokernel.occupant_cons_of_ne hd]
      exact h.tag m s hs
  · rw [capacity_remove] at hm
    have hd : (Deed.ended i).slot ≠ m := by
      obtain ⟨g, hslot⟩ := slot_of_get? hg
      have hlt := (Array.getElem?_eq_some_iff.1 hslot).1
      show i.index ≠ m
      have hm : t.slots.size ≤ m := hm
      omega
    rw [Exokernel.occupant_cons_of_ne hd]
    exact h.beyond m hm

end Records
end EnvTable

namespace Kernel

/-- **What can become of a kernel's environments**, and the chronicle of it.  An environment is made for nobody or for one
that is there; the rest of what a kernel does leaves everybody where they are. -/
inductive Chronicle : Kernel → List Deed → Prop where
  | start {k : Kernel} {n : Nat} (h : k.envs = .ofCapacity n) (hn : n ≤ maxEnvSlots) : Chronicle k []
  | born {k k' : Kernel} {ds : List Deed} {i : EnvId} {parent : Option EnvId} (h : Chronicle k ds)
      (hp : ∀ p, parent = some p → k.env? p ≠ none) (hc : k.createEnv parent = (.ok i, k')) :
      Chronicle k' (.born i parent :: ds)
  | unborn {k k' : Kernel} {ds : List Deed} {parent : Option EnvId} {err : EnvError} (h : Chronicle k ds)
      (hc : k.createEnv parent = (.error err, k')) : Chronicle k' ds
  | ended {k k' : Kernel} {ds : List Deed} {i : EnvId} (h : Chronicle k ds) (hd : k.destroyEnv i = (.ok (), k')) :
      Chronicle k' (.ended i :: ds)
  | missed {k k' : Kernel} {ds : List Deed} {i : EnvId} {err : EnvError} (h : Chronicle k ds)
      (hd : k.destroyEnv i = (.error err, k')) : Chronicle k' ds
  | other {k k' : Kernel} {ds : List Deed} (h : Chronicle k ds) (hs : k.envs.SameTags k'.envs) : Chronicle k' ds

variable {k k' : Kernel} {ds later past : List Deed} {i c : EnvId} {p : Option EnvId} {e : Env}

theorem Chronicle.records (h : k.Chronicle ds) : k.envs.Records ds := by
  induction h with
  | start h hn =>
    rw [h]
    exact .ofCapacity hn
  | born _ hp hc ih =>
    obtain ⟨n, f, m, hn, -, hi, rfl⟩ := createEnv_ok hc
    exact ih.born hn hp hi _
  | unborn _ hc ih =>
    rw [envs_of_bare (bare_createEnv_error hc)]
    exact ih
  | ended _ hd ih =>
    obtain ⟨e, he, rfl⟩ := destroyEnv_ok hd
    exact ih.ended he
  | @missed k k' ds i err _ hd ih =>
    cases he : k.env? i with
    | none =>
      rw [destroyEnv_of_env?_none he] at hd
      cases hd
      exact ih
    | some e =>
      rw [destroyEnv_of_env? he] at hd
      cases hd
  | other _ hs ih => exact ih.sameTags hs

/-! ## Chronicles of runs -/

/-- The environments are where they were. -/
def SameTags (k k' : Kernel) : Prop := k.envs.SameTags k'.envs

/-- Nobody who is where they were is gone. -/
theorem env?_of_sameTags (h : k.SameTags k') (hi : k.env? i ≠ none) : k'.env? i ≠ none := by
  have hp : (k'.env? i).map Env.parent = (k.env? i).map Env.parent := EnvTable.parent_of_sameTags h i
  intro hn
  rw [hn, Option.map_none, eq_comm, Option.map_eq_none_iff] at hp
  exact hi hp

namespace SameTags

theorem refl (k : Kernel) : k.SameTags k := rfl

theorem trans {k₁ : Kernel} (h : k.SameTags k₁) (h' : k₁.SameTags k') : k.SameTags k' := Eq.trans h' h

theorem of_envs (h : k'.envs = k.envs) : k.SameTags k' := by rw [SameTags, EnvTable.SameTags, h]

theorem of_bare (h : k'.bare = k.bare) : k.SameTags k' := of_envs (envs_of_bare h)

/-- Nobody moves when something else changes. -/
theorem modifyEnv (k : Kernel) (i : EnvId) {f : Env → Env} (hi : ∀ e, (f e).id = e.id)
    (hp : ∀ e, (f e).parent = e.parent) : k.SameTags (k.modifyEnv i f) := by
  apply Array.ext_getElem?
  intro n
  show ((k.envs.modify i f).slots.map EnvSlot.tag)[n]? = (k.envs.slots.map EnvSlot.tag)[n]?
  rw [Array.getElem?_map, Array.getElem?_map, EnvTable.modify, Array.getElem?_modify]
  split
  · rw [Option.map_map]
    congr 1
    funext s
    simp only [Function.comp_apply, EnvSlot.tag, Option.map_map]
    congr 2
    funext e
    by_cases he : e.id = i <;> simp [he, hi, hp]
  · rfl

theorem setStatus (k : Kernel) (i : EnvId) (s : EnvStatus) : k.SameTags (k.setStatus i s) :=
  modifyEnv k i (f := fun e => { e with status := s }) (fun _ => rfl) fun _ => rfl

theorem setRegisters (k : Kernel) (i : EnvId) (r : Registers) : k.SameTags (k.setRegisters i r) :=
  modifyEnv k i (f := fun e => { e with regs := r }) (fun _ => rfl) fun _ => rfl

theorem mapInto {f : Frame} {v : VirtAddr} {p : Perm} {r : Except MapError Unit} (h : k.mapInto e f v p = (r, k')) :
    k.SameTags k' := by
  cases r with
  | error err => exact of_envs (envs_mapInto_error h)
  | ok u =>
    obtain ⟨s, m, -, rfl⟩ := mapInto_ok h
    exact modifyEnv _ e.id (f := fun e => { e with space := s }) (fun _ => rfl) fun _ => rfl

theorem unmapFrom (k : Kernel) (e : Env) (v : VirtAddr) : k.SameTags (k.unmapFrom e v) := by
  unfold Kernel.unmapFrom
  rcases e.space.unmap k.machine v with ⟨s, m⟩
  exact modifyEnv _ e.id (f := fun e => { e with space := s }) (fun _ => rfl) fun _ => rfl

theorem transfer {t : Env} {offered : Option (Frame × Perm)} {p : Perm} (h : k.transfer t offered = (.ok p, k')) :
    k.SameTags k' := by
  rcases Syscall.transfer_ok h with ⟨rfl, -, -⟩ | ⟨f, v, -, -, hm⟩
  · exact .refl _
  · exact .mapInto hm

theorem wake (k : Kernel) (t c : EnvId) (value : UInt32) (p : Perm) : k.SameTags (k.wake t c value p) :=
  modifyEnv k t (f := fun e =>
    { e with mailbox := e.mailbox.deliver c value p, regs := e.regs.setA0 0, status := .runnable }) (fun _ => rfl)
    fun _ => rfl

theorem loadPages (k : Kernel) (i : EnvId) (base : Nat) (data : Bytes) (p : Perm) (as : List Nat) :
    k.SameTags (k.loadPages i base data p as).2 := by
  induction as generalizing k with
  | nil => exact refl k
  | cons a rest ih =>
    unfold Kernel.loadPages
    split
    · exact refl k
    · exact refl k
    · split
      next ha => exact of_bare (bare_allocFrame_none ha)
      next f k₁ ha =>
        obtain ⟨m, -, rfl⟩ := allocFrame_some ha
        dsimp only
        split
        next hm =>
          have hs := mapInto hm
          exact hs
        next k₂ hm =>
          have hs := mapInto hm
          have hr : k.SameTags (k₂.releaseFrame f) := hs
          exact hr.trans (ih _)

theorem loadSegment {base len : Nat} {data : Bytes} {p : Perm} {r : Except SpawnError Unit}
    (h : k.loadSegment i base len data p = (r, k')) : k.SameTags k' := by
  have hl := loadPages k i base data p (pageSteps base (base + len))
  rw [Kernel.loadSegment] at h
  rwa [h] at hl

theorem loadImage {img : Image} {brk : Nat} {r : Except SpawnError Unit} (h : k.loadImage i img brk = (r, k')) :
    k.SameTags k' := by
  rcases loadImage_induction (Q := k.SameTags) h (refl k) fun ht _ hs => ht.trans (loadSegment hs) with
    ⟨-, ht⟩ | ⟨-, k₁, ht, rfl⟩
  · exact ht
  · exact ht.trans (modifyEnv k₁ i (f := fun e => { e with
      regs := { e.regs.setSp stackTop.toUInt64 with sepc := textBase.toUInt64 }, status := .runnable }) (fun _ => rfl)
      fun _ => rfl)

theorem preempt (k : Kernel) : k.SameTags k.preempt := by
  unfold Kernel.preempt
  split
  · exact refl k
  next i _ =>
    exact modifyEnv k i (f := fun e => if e.status = .running then { e with status := .runnable } else e)
      (fun e => by split <;> rfl) fun e => by split <;> rfl

theorem scheduleNext (k : Kernel) : k.SameTags k.scheduleNext.2 := by
  unfold Kernel.scheduleNext
  dsimp only
  split
  · exact preempt k
  · exact (preempt k).trans (setStatus _ _ .running)

theorem dispatch (h : k.dispatch i = .ok k') : k.SameTags k' := by
  obtain ⟨-, -, -, ⟨-, rfl⟩ | ⟨-, rfl⟩⟩ := dispatch_ok h
  · exact setStatus k i .running
  · exact (preempt k).trans (setStatus _ i .running)

end SameTags

/-- **A call makes an environment for its caller, ends one, or leaves everybody where they are.** -/
theorem tags_of_effect {a : CallArgs} {s : Service} {r : Except SysError Word} (h : Syscall.Effect k c a s r k') :
    k.SameTags k' ∨
    (∃ child k₁, k.env? c ≠ none ∧ k.createEnv (some c) = (.ok child, k₁) ∧ k₁.SameTags k') ∨
    ∃ t k₁, k.destroyEnv t = (.ok (), k₁) ∧ k₁.SameTags k' ∧ (t = c → r = .error .envExit) := by
  cases h with
  | refused hb => exact Or.inl (.of_bare hb)
  | named => exact Or.inl (.refl k)
  | @destroyed t k₁ ht hd =>
    exact Or.inr (Or.inr ⟨t.id, k₁, hd, .of_envs rfl, fun hc => if_pos hc⟩)
  | allocated ha hf hm =>
    obtain ⟨m, -, rfl⟩ := allocFrame_some hf
    have hs := SameTags.mapInto hm
    exact Or.inl hs
  | mapped ha hm => exact Or.inl (.mapInto hm)
  | unmapped ha => exact Or.inl (.unmapFrom k _ _)
  | @forked parent child k₁ hp hc =>
    exact Or.inr (Or.inl ⟨child, k₁, by rw [hp]; simp, hc, .setRegisters k₁ child (parent.regs.setA0 0)⟩)
  | statusSet ha => exact Or.inl (.setStatus k _ _)
  | registersSet ha => exact Or.inl (.setRegisters k _ _)
  | upcallSet ha =>
    exact Or.inl (.modifyEnv k _ (f := fun e => { e with upcall := some (a.word 1) }) (fun _ => rfl) fun _ => rfl)
  | passed he hq => exact Or.inl (.setStatus k c .runnable)
  | yielded he hq => exact Or.inl ((SameTags.setStatus k c .runnable).trans (.setStatus _ _ .running))
  | @sent req t offered p k₁ ha hs ht =>
    exact Or.inl ((SameTags.transfer ht).trans (.wake k₁ t.id c req.value p))
  | @waiting e target ha he =>
    exact Or.inl (.modifyEnv k c
      (f := fun e => { e with mailbox := e.mailbox.await target, status := .notRunnable }) (fun _ => rfl) fun _ => rfl)

/-- The caller of a service is there when it ends, unless it has ended itself. -/
theorem env?_of_effect {a : CallArgs} {s : Service} {r : Except SysError Word} (h : Syscall.Effect k c a s r k')
    (hk : k.Sound []) (hc : k.env? c ≠ none) (hr : r ≠ .error .envExit) : k'.env? c ≠ none := by
  rcases tags_of_effect h with ht | ⟨child, k₁, -, hcr, ht⟩ | ⟨t, k₁, hd, ht, hx⟩
  · exact env?_of_sameTags ht hc
  · refine env?_of_sameTags ht ?_
    obtain ⟨hnone, f, henv⟩ := env?_createEnv hk hcr
    have hne : child ≠ c := by
      rintro rfl
      exact hc hnone
    rwa [henv, if_neg hne]
  · refine env?_of_sameTags ht ?_
    rwa [env?_destroyEnv hd, if_neg fun htc => hr (hx htc)]

/-- **What happens to a kernel can be told**: its chronicle grows, by at most so many births in each slot. -/
structure Tells (k k' : Kernel) (m : Nat) : Prop where
  capacity : k'.envs.capacity = k.envs.capacity
  told : ∃ new, (∀ ds, k.Chronicle ds → k'.Chronicle (new ++ ds)) ∧ ∀ n, births n new ≤ m

namespace Tells

theorem of_sameTags (h : k.SameTags k') (m : Nat) : k.Tells k' m where
  capacity := by
    have hsize := congrArg Array.size h
    rwa [Array.size_map, Array.size_map] at hsize
  told := ⟨[], fun _ hds => hds.other h, fun _ => Nat.zero_le m⟩

theorem trans {k₁ : Kernel} {m n : Nat} (h : k.Tells k₁ m) (h' : k₁.Tells k' n) : k.Tells k' (m + n) := by
  obtain ⟨new, hnew, hm⟩ := h.told
  obtain ⟨new', hnew', hn⟩ := h'.told
  refine ⟨h'.capacity.trans h.capacity, new' ++ new, fun ds hds => ?_, fun slot => ?_⟩
  · rw [List.append_assoc]
    exact hnew' _ (hnew ds hds)
  · have hm := hm slot
    have hn := hn slot
    rw [births_append]
    omega

theorem sameTags {k₁ : Kernel} {m : Nat} (h : k.Tells k₁ m) (h' : k₁.SameTags k') : k.Tells k' m :=
  h.trans (.of_sameTags h' 0)

theorem createEnv (hp : ∀ c, p = some c → k.env? c ≠ none) {r : Except EnvError EnvId}
    (h : k.createEnv p = (r, k')) : k.Tells k' 1 := by
  cases r with
  | error err =>
    refine ⟨?_, [], fun _ hds => hds.unborn h, fun _ => Nat.zero_le 1⟩
    rw [envs_of_bare (bare_createEnv_error h)]
  | ok i =>
    refine ⟨?_, [.born i p], fun _ hds => hds.born hp h, fun n => ?_⟩
    · obtain ⟨n, f, m, -, -, -, rfl⟩ := createEnv_ok h
      exact EnvTable.capacity_fill _ _ _ _
    · exact List.countP_le_length

theorem destroyEnv (k : Kernel) (i : EnvId) (m : Nat) : k.Tells (k.destroyEnv i).2 m := by
  rcases h : k.destroyEnv i with ⟨err | u, k'⟩
  · refine ⟨?_, [], fun _ hds => hds.missed h, fun _ => Nat.zero_le m⟩
    cases he : k.env? i with
    | none =>
      rw [destroyEnv_of_env?_none he] at h
      cases h
      rfl
    | some e =>
      rw [destroyEnv_of_env? he] at h
      cases h
  · refine ⟨?_, [.ended i], fun _ hds => hds.ended h, fun n => ?_⟩
    · obtain ⟨e, he, rfl⟩ := destroyEnv_ok h
      exact EnvTable.capacity_remove _ _
    · rw [births_ended]
      exact Nat.zero_le m

theorem effect {a : CallArgs} {s : Service} {r : Except SysError Word} (h : Syscall.Effect k c a s r k') :
    k.Tells k' 1 := by
  rcases tags_of_effect h with ht | ⟨child, k₁, hc, hcr, ht⟩ | ⟨t, k₁, hd, ht, -⟩
  · exact .of_sameTags ht 1
  · exact (createEnv (fun d hd => by cases hd; exact hc) hcr).sameTags ht
  · have h₁ := destroyEnv k t 1
    rw [hd] at h₁
    exact h₁.sameTags ht

theorem ecall (hs : k.Sound []) (c : EnvId) (number : Word) (args : Vector Word 5) :
    k.Tells (k.ecall c number args).2 1 := by
  have entered (r : Registers) : k.Tells (k.setRegisters c r) 0 := .of_sameTags (.setRegisters k c r) 0
  exact ecall_induction hs c number args (.of_sameTags (.refl k) 1)
    (fun e _ => .of_sameTags (.setRegisters k c (e.regs.called number args)) 1)
    (fun e _ _ _ _ h => (entered (e.regs.called number args)).trans (effect h))
    (fun _ _ hk => hk.sameTags (.of_envs rfl)) fun k ret hk =>
      hk.sameTags (.modifyEnv k c (f := fun e => { e with regs := e.regs.setA0 ret }) (fun _ => rfl) fun _ => rfl)

theorem raise (he : k.env? i = some e) (f : PageFault) (m : Nat) : k.Tells (k.raise i f).2 m := by
  rcases h : k.raise i f with ⟨t, k'⟩
  rcases raise_cases he h with ⟨-, k₁, hb, rfl⟩ | ⟨entry, record, k₁, memory, -, -, hb, -, -, rfl⟩
  · have h₁ := (of_sameTags (.of_bare hb) 0).trans (destroyEnv k₁ i m)
    rwa [Nat.zero_add] at h₁
  · have hm : k₁.SameTags _ :=
      .setRegisters { k₁ with machine := memory } i { e.regs.setSp record.toUInt64 with sepc := entry }
    exact (of_sameTags (.of_bare hb) m).sameTags hm

theorem perform (hs : k.Sound []) (i : EnvId) (op : CpuOp) : k.Tells (k.perform i op) 1 := by
  have write (m : Machine) : k.SameTags { k with machine := m } := .of_envs rfl
  exact perform_induction (Q := fun k' => k.Tells k' 1) k i op (.of_sameTags (.refl k) 1) (fun _ f he => raise he f 1)
    (fun _ _ _ m _ _ => .of_sameTags (write m) 1) (fun r _ => .of_sameTags (.setRegisters k i r.forUser) 1)
    fun number args _ => ecall hs i number args

theorem spawn {img : Image} {r : Except SpawnError Spawned} (h : k.spawn img = (r, k')) : k.Tells k' 1 := by
  have nobody : ∀ c, (none : Option EnvId) = some c → k.env? c ≠ none := fun _ h => by cases h
  cases r with
  | error err =>
    rcases spawn_error h with rfl | ⟨e, hc⟩ | ⟨i, brk, k₁, k₂, -, hc, hl, rfl⟩
    · exact .of_sameTags (.refl k') 1
    · exact createEnv nobody hc
    · have hs := SameTags.loadImage hl
      have h₂ : k₁.SameTags (k₂.log (.spawnFailed i err)) := hs
      exact ((createEnv nobody hc).sameTags h₂).trans (destroyEnv _ i 0)
  | ok s =>
    obtain ⟨k₁, k₂, -, hc, hl, rfl⟩ := spawn_ok h
    have h₂ : k₁.SameTags k₂ := SameTags.loadImage hl
    exact (createEnv nobody hc).sameTags h₂

/-- **Every event can be told**, with at most one birth. -/
theorem step (hs : k.Sound []) (event : Event) : k.Tells (k.step event) 1 := by
  cases event with
  | spawn img => exact spawn (Prod.eta (k.spawn img)).symm
  | destroyEnv i => exact destroyEnv k i 1
  | scheduleNext => exact .of_sameTags (.scheduleNext k) 1
  | dispatch i =>
    unfold Kernel.step
    dsimp only
    split
    · exact .of_sameTags (.refl k) 1
    next h => exact .of_sameTags (.dispatch h) 1
  | perform i op => exact perform hs i op
  | failAfter n => exact .of_sameTags (.of_bare (bare_failAfter k n)) 1
  | clearFailure => exact .of_sameTags (.of_bare (bare_clearFailure k)) 1

end Tells

/-- What has become of a kernel can be told. -/
def Chronicled (k : Kernel) : Prop := ∃ ds, k.Chronicle ds

theorem Chronicled.tells {m : Nat} (hk : k.Chronicled) (h : k.Tells k' m) : k'.Chronicled := by
  obtain ⟨ds, hds⟩ := hk
  obtain ⟨new, hnew, -⟩ := h.told
  exact ⟨_, hnew ds hds⟩

/-- **Every state that a kernel can come to has a chronicle.** -/
theorem Reachable.chronicled (h : k.Reachable) : k.Chronicled := by
  induction h with
  | @boot c k h =>
    have hcap := (sound_of_boot h).capacity
    unfold Kernel.boot at h
    split at h
    · cases h
    · cases h
      have hcap : (EnvTable.ofCapacity c.maxEnvs).capacity ≤ maxEnvSlots := hcap
      exact ⟨[], .start rfl (by simpa [EnvTable.ofCapacity, EnvTable.capacity] using hcap)⟩
  | step hr event ih => exact ih.tells (.step hr.sound event)

end Kernel
end Exokernel
