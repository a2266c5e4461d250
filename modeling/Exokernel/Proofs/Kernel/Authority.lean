import Exokernel.Proofs.Kernel.Confinement
import Exokernel.Proofs.Kernel.Loading
/-!
# Authority to write

The right to write a frame comes with a frame that was free, or from somebody who has it.  So a frame in use that nobody
may write is one that nobody will, and its bytes stay, until it is given up (`readOnly_frame_stays`).
-/
namespace Exokernel

/-! ## Rights -/

namespace Mappings

variable {M : Mappings} {i t : EnvId} {v w : VirtAddr} {f g : Frame} {p : Pte} {q : Perm} {o : Option Pte}

/-- Nobody may write the frame. -/
def ReadOnly (M : Mappings) (f : Frame) : Prop := ∀ j v p, M j v = some p → p.frame = f → ¬ p.perm.contains .writable

namespace ReadOnly

theorem without (h : M.ReadOnly f) (i : EnvId) : (M.without i).ReadOnly f := by
  intro j v p hp
  unfold Mappings.without at hp
  split at hp
  · cases hp
  · exact h j v p hp

theorem put (h : M.ReadOnly f) (ho : ∀ p, o = some p → p.frame = f → ¬ p.perm.contains .writable) :
    (M.put t v o).ReadOnly f := by
  intro j w p hp
  unfold Mappings.put at hp
  split at hp
  · exact ho p hp
  · exact h j w p hp

theorem put_other (h : M.ReadOnly f) (hg : f ≠ g) (q : Perm) : (M.put t v (some ⟨g, q⟩)).ReadOnly f :=
  h.put fun p hp hf => by
    cases hp
    exact absurd hf.symm hg

/-- **What is handed on with no more rights than its holder has** can be written by nobody new. -/
theorem put_lent (h : M.ReadOnly f) (hp : M i w = some p) (hq : q.contains .writable → p.perm.contains .writable) :
    (M.put t v (some ⟨p.frame, q⟩)).ReadOnly f :=
  h.put fun p' hp' hf hw => by
    cases hp'
    exact h i w p hp hf (hq hw)

end ReadOnly
end Mappings

namespace Syscall

variable {k k' : Kernel} {c : EnvId} {a : CallArgs} {s : Service} {r : Except SysError Word} {f : Frame}

/-- **No call of a service gives anyone the right to write a frame in use that nobody may write.** -/
theorem Effect.readOnly (h : Effect k c a s r k') (hk : k.Sound []) (hf : 0 < k.machine.refs f)
    (hr : k.mappings.ReadOnly f) : k'.mappings.ReadOnly f := by
  have same {k' : Kernel} (h : k'.mappings = k.mappings) : k'.mappings.ReadOnly f := by rwa [h]
  cases h with
  | refused hb => exact same (Kernel.mappings_of_bare hb)
  | named => exact hr
  | @destroyed t k₁ ht hd =>
    have hm := Kernel.mappings_destroyEnv k t.id
    rw [hd] at hm
    show k₁.mappings.ReadOnly f
    rw [hm]
    exact hr.without t.id
  | @allocated t v p g k₁ k₂ ha hg hm =>
    have ht := (authorizeWord_ok (pageAllocArgs_ok ha).2.2).1
    have ht₁ : k₁.env? t.id = some t := (Kernel.env?_allocFrame hg t.id).trans ht
    obtain ⟨m, hal, rfl⟩ := Kernel.allocFrame_some hg
    have hne : f ≠ g := by
      rintro rfl
      have := Machine.refs_of_alloc hk.balanced.tidy hal
      omega
    show k₂.mappings.ReadOnly f
    rw [Kernel.mappings_mapInto ht₁ hm]
    exact Mappings.ReadOnly.put_other (M := k.mappings) hr hne p
  | @mapped pte t v p k₁ ha hm =>
    obtain ⟨sv, src, si, di, -, -, -, -, -, hsrc, hdst, hl, hw⟩ := pageMapArgs_ok ha
    rw [Kernel.mappings_mapInto (authorize_ok hdst).1 hm]
    refine hr.put_lent (i := src.id) (w := sv) ?_ hw
    rw [Kernel.mappings_of_env? (authorize_ok hsrc).1, hl]
  | @unmapped t v ha =>
    rw [Kernel.mappings_unmapFrom (authorizeWord_ok (pageUnmapArgs_ok ha).2).1]
    exact hr.put fun p hp => by cases hp
  | @forked parent child k₁ _ hc =>
    exact same ((Kernel.mappings_setRegisters k₁ child _).trans (Kernel.mappings_createEnv hk hc).1)
  | @statusSet t s ha => exact same (Kernel.mappings_setStatus k t.id s)
  | registersSet ha => exact same (Kernel.mappings_setRegisters k _ _)
  | upcallSet ha => exact same (Kernel.mappings_modifyEnv (fun _ => rfl) fun _ => rfl)
  | passed he hq => exact same (Kernel.mappings_setStatus k c .runnable)
  | @yielded e next rest he hq =>
    exact same ((Kernel.mappings_setStatus _ next .running).trans (Kernel.mappings_setStatus k c .runnable))
  | @sent req t offered p k₁ ha hs ht =>
    have hm₁ : ((k₁.wake t.id c req.value p).log (.delivered c t.id req.value p)).mappings = k₁.mappings :=
      Kernel.mappings_wake k₁ t.id c req.value p
    rw [hm₁]
    rcases Kernel.mappings_transfer hs ht with ⟨sv, v, pte, -, -, hp, hw, hm⟩ | ⟨-, hm, -⟩
    · rw [hm]
      exact hr.put_lent hp hw
    · exact same hm
  | waiting ha he => exact same (Kernel.mappings_modifyEnv (fun _ => rfl) fun _ => rfl)

end Syscall

namespace Kernel

variable {k k' k₁ : Kernel} {c i : EnvId} {e : Env} {f : Frame} {a : Nat} {p : Pte} {img : Image} {brk : Nat} {H : List Frame}

/-- **A frame is as safe as it was**: nobody may write it and, if it is still in use, it has the same bytes. -/
structure Guards (k k' : Kernel) (f : Frame) : Prop where
  readOnly : k'.mappings.ReadOnly f
  page (hu : 0 < k'.machine.refs f) : k'.machine.page f = k.machine.page f

/-- That nobody may write a frame can be seen from the page tables of the live environments. -/
theorem readOnly_of_leaves (h : ∀ e ∈ k.envs.toList, ∀ page ∈ e.space.table.tables, ∀ p ∈ page.leaves,
    p.frame = f → ¬ p.perm.contains .writable) : k.mappings.ReadOnly f := by
  intro j v p hp
  obtain ⟨e, he, hl⟩ := Option.bind_eq_some_iff.1 hp
  obtain ⟨page, hpage, hmem⟩ := PageTable.mem_leaves hl
  exact h e (EnvTable.mem_toList he) page hpage p hmem

namespace Guards

theorem trans (h : k.Guards k₁ f) (hu : 0 < k₁.machine.refs f) (h' : k₁.Guards k' f) : k.Guards k' f :=
  ⟨h'.readOnly, fun hu' => (h'.page hu').trans (h.page hu)⟩

theorem of_quiet (hr : k.mappings.ReadOnly f) (h : k.Quiet k') : k.Guards k' f :=
  ⟨by rw [h.mappings]; exact hr, fun _ => Machine.page_congr h.machine f⟩

theorem destroyEnv (hr : k.mappings.ReadOnly f) (i : EnvId) : k.Guards (k.destroyEnv i).2 f :=
  ⟨by rw [mappings_destroyEnv]; exact hr.without i, page_destroyEnv⟩

/-! ## Operations -/

/-- Whoever has a page mapped may not write it. -/
theorem not_writable_of_entryAt (hr : k.mappings.ReadOnly f) (he : k.env? c = some e) (hp : e.space.entryAt a = some p)
    (hf : p.frame = f) : ¬ p.perm.contains .writable := by
  obtain ⟨v, -, hl⟩ := Option.bind_eq_some_iff.1 hp
  exact hr c v p (by rw [mappings_of_env? he, hl]) hf

theorem raise (hk : k.Sound []) (hr : k.mappings.ReadOnly f) (he : k.env? c = some e) (pf : PageFault) :
    k.Guards (k.raise c pf).2 f := by
  rcases h : k.raise c pf with ⟨t, k'⟩
  refine ⟨?_, fun hu => Machine.page_ext fun o => ?_⟩
  · rcases raise_cases he h with ⟨-, k₁, hb, rfl⟩ | ⟨entry, record, k₁, m, -, -, hb, -, -, rfl⟩
    · rw [mappings_destroyEnv, mappings_of_bare hb]
      exact hr.without c
    · show (setRegisters { k₁ with machine := m } c _).mappings.ReadOnly f
      rw [mappings_setRegisters]
      show k₁.mappings.ReadOnly f
      rw [mappings_of_bare hb]
      exact hr
  · by_contra hne
    obtain ⟨entry, record, x, pte, -, -, -, -, -, hent, hw, hl⟩ := byte_raise hk he h (l := (f, o)) hu hne
    exact not_writable_of_entryAt hr he hent (congrArg Prod.fst hl).symm hw

theorem load (hk : k.Sound []) (hr : k.mappings.ReadOnly f) (c : EnvId) (a : Word) (len : Nat) :
    k.Guards (k.load c a len).2 f := by
  unfold Kernel.load
  split
  · exact .of_quiet hr (.refl k)
  · rename_i e he
    split
    · exact .of_quiet hr (.refl k)
    · exact raise hk hr he _

theorem store (hk : k.Sound []) (hr : k.mappings.ReadOnly f) (c : EnvId) (a : Word) (data : Bytes) :
    k.Guards (k.store c a data).2 f := by
  unfold Kernel.store
  split
  · exact .of_quiet hr (.refl k)
  · rename_i e he
    split
    · rename_i m hm
      refine ⟨hr, fun _ => Machine.page_ext fun o => ?_⟩
      by_contra hne
      obtain ⟨x, pte, -, -, hent, hw, hl⟩ :=
        AddressSpace.writable_of_byte_ne (fun g hg => hk.refs_pos_of_mem he hg) hm hne
      exact not_writable_of_entryAt hr he hent (congrArg Prod.fst hl).symm hw
    · exact raise hk hr he _

theorem ecall (hk : k.Sound []) (hu : 0 < k.machine.refs f) (hr : k.mappings.ReadOnly f) (c : EnvId) (number : Word)
    (args : Vector Word 5) : k.Guards (k.ecall c number args).2 f := by
  cases he : k.env? c with
  | none =>
    rw [Kernel.ecall, he]
    exact .of_quiet hr (.refl k)
  | some e =>
    refine ⟨?_, page_ecall hk he number args⟩
    have hr₀ : (k.setRegisters c (e.regs.called number args)).mappings.ReadOnly f := by
      rw [mappings_setRegisters]
      exact hr
    have hk₀ := hk.setRegisters c (e.regs.called number args)
    rw [ecall_eq he, (Quiet.conclude c number _).mappings]
    rcases SyscallTable.dispatch_standard number.toNat (k.setRegisters c (e.regs.called number args)) c
      (argsOf (e.regs.called number args)) with hd | ⟨s, -, hd⟩
    · rw [hd]
      exact hr₀
    · rw [hd]
      exact (Syscall.effect _ c _ hk₀ s).readOnly hk₀ hu hr₀

end Guards

/-! ## Starting programs -/

/-- **A program is being loaded beside a frame in use**: the program does not have it, and it is as safe as it was. -/
structure LoadsBeside (k k' : Kernel) (i : EnvId) (f : Frame) : Prop where
  sound : k'.Sound []
  guards : k.Guards k' f
  used : 0 < k'.machine.refs f
  unmapped (v : VirtAddr) (p : Pte) (h : k'.mappings i v = some p) : p.frame ≠ f

namespace LoadsBeside

variable {k₂ k₃ : Kernel} {g : Frame} {v : VirtAddr} {q : Perm} {d : Bytes}

theorem quiet (h : k.LoadsBeside k₁ i f) (hq : k₁.Quiet k') (hk : k'.Sound []) : k.LoadsBeside k' i f where
  sound := hk
  guards := h.guards.trans h.used (.of_quiet h.guards.readOnly hq)
  used := by
    rw [Machine.refs_congr hq.machine]
    exact h.used
  unmapped := by
    rw [hq.mappings]
    exact h.unmapped

theorem ne_inHand (h : k.LoadsBeside k₁ i f) (hin : k₁.InHand k₂ g d) : f ≠ g := by
  rintro rfl
  have := h.used
  have := hin.unused
  omega

theorem giveUp (h : k.LoadsBeside k₁ i f) (hin : k₁.InHand k₂ g d) (hb : k₃.bare = k₂.bare) :
    k.LoadsBeside (k₃.releaseFrame g) i f := by
  have hne := h.ne_inHand hin
  obtain ⟨hs, hm, -⟩ := hin.giveUp hb
  refine ⟨hs, h.guards.trans h.used ⟨by rw [hm]; exact h.guards.readOnly, fun hu => ?_⟩, ?_, ?_⟩
  · rw [(page_releaseFrame hu).2, Machine.page_congr (machine_of_bare hb), hin.other f hne]
  · rw [hin.refs_giveUp hb hne]
    exact h.used
  · rw [hm]
    exact h.unmapped

/-- **A page is loaded into a frame that was free.** -/
theorem mapped (h : k.LoadsBeside k₁ i f) (hin : k₁.InHand k₂ g d) (he : k₁.env? i = some e)
    (hmap : k₂.mapInto e g v q = (.ok (), k₃)) : k.LoadsBeside (k₃.releaseFrame g) i f := by
  have hne := h.ne_inHand hin
  obtain ⟨hs, hrem⟩ := hin.mapped he hmap
  have hm : (k₃.releaseFrame g).mappings = k₁.mappings.put i v (some ⟨g, q⟩) := by
    rw [hrem.mappings, hin.mappings]
  refine ⟨hs, h.guards.trans h.used ⟨?_, fun hu => ?_⟩, ?_, fun w p hp => ?_⟩
  · rw [hm]
    exact h.guards.readOnly.put_other hne q
  · rw [hrem.page f hu, hin.other f hne]
  · refine Nat.lt_of_lt_of_le h.used (hin.refs_le_mapped hmap hne fun p hl => ?_)
    exact h.unmapped v p (by rw [mappings_of_env? he, hl])
  · rw [hm] at hp
    unfold Mappings.put at hp
    split at hp
    · cases hp
      exact hne.symm
    · exact h.unmapped w p hp

theorem loadPages (h : k.LoadsBeside k₁ i f) (base : Nat) (data : Bytes) (q : Perm) (as : List Nat) :
    k.LoadsBeside (k₁.loadPages i base data q as).2 i f := by
  induction as generalizing k₁ with
  | nil => exact h
  | cons x rest ih =>
    unfold Kernel.loadPages
    split
    · exact h
    · exact h
    rename_i v e _ he
    split
    · rename_i k₂ hal
      have hb := bare_allocFrame_none hal
      exact h.quiet (.of_bare hb) (h.sound.of_bare hb)
    rename_i g k₂ hal
    have hin := inHand_of_allocFrame h.sound hal (data.extract (x - base) (x - base + pageSize))
    dsimp only
    split
    · rename_i k₃ hmap
      have hpos := hin.sound.refs_pos (List.mem_append_right _ List.mem_cons_self)
      exact h.giveUp hin (bare_mapInto_error hpos hmap)
    · rename_i k₃ hmap
      exact ih (h.mapped hin he hmap)

theorem loadSegment (h : k.LoadsBeside k₁ i f) {base len : Nat} {data : Bytes} {q : Perm} {r : Except SpawnError Unit}
    (hl : k₁.loadSegment i base len data q = (r, k')) : k.LoadsBeside k' i f := by
  have hp := h.loadPages base data q (pageSteps base (base + len))
  rw [Kernel.loadSegment] at hl
  rwa [hl] at hp

theorem loadImage_error (h : k.LoadsBeside k₁ i f) {err : SpawnError}
    (hl : k₁.loadImage i img brk = (.error err, k')) : k.LoadsBeside k' i f := by
  rcases loadImage_induction (Q := fun k₁ => k.LoadsBeside k₁ i f) hl h fun h _ hs => h.loadSegment hs with
    ⟨-, h⟩ | ⟨hr, -⟩
  · exact h
  · cases hr

theorem loadImage_ok (h : k.LoadsBeside k₁ i f) (hl : k₁.loadImage i img brk = (.ok (), k')) : k.Guards k' f := by
  rcases loadImage_induction (Q := fun k₁ => k.LoadsBeside k₁ i f) hl h fun h _ hs => h.loadSegment hs with
    ⟨⟨_, hr⟩, -⟩ | ⟨-, k₂, ⟨-, ⟨hr, hp⟩, -, -⟩, rfl⟩
  · cases hr
  refine ⟨?_, hp⟩
  rw [mappings_modifyEnv (g := fun e => { e with
    regs := { e.regs.setSp stackTop.toUInt64 with sepc := textBase.toUInt64 }, status := .runnable }) (fun _ => rfl)
    fun _ => rfl]
  exact hr

/-- A new environment has no frame but a free one. -/
theorem of_createEnv (hk : k.Sound []) (hu : 0 < k.machine.refs f) (hr : k.mappings.ReadOnly f)
    {parent : Option EnvId} (h : k.createEnv parent = (.ok i, k')) : k.LoadsBeside k' i f := by
  obtain ⟨hm, hnone⟩ := mappings_createEnv hk h
  have hk' := hk.createEnv h
  refine ⟨hk', ⟨by rw [hm]; exact hr, fun _ => page_createEnv hk h f⟩, ?_, fun v p hp => ?_⟩
  · obtain ⟨n, g, m, -, hal, -, rfl⟩ := createEnv_ok h
    show 0 < m.refs f
    rw [Machine.refs_alloc hk.balanced.tidy hal]
    omega
  · rw [hnone] at hp
    cases hp

end LoadsBeside

theorem Guards.spawn (hk : k.Sound []) (hu : 0 < k.machine.refs f) (hr : k.mappings.ReadOnly f) (img : Image) :
    k.Guards (k.spawn img).2 f := by
  rcases h : k.spawn img with ⟨err | s, k'⟩
  · rcases spawn_error h with rfl | ⟨e, hc⟩ | ⟨i, brk, k₁, k₂, -, hc, hl, rfl⟩
    · exact .of_quiet hr (.refl k')
    · exact .of_quiet hr (.of_bare (bare_createEnv_error hc))
    · have hb := (LoadsBeside.of_createEnv hk hu hr hc).loadImage_error hl
      have hb' := hb.quiet (.log k₂ (.spawnFailed i err)) (hb.sound.log _)
      exact hb'.guards.trans hb'.used (.destroyEnv hb'.guards.readOnly i)
  · obtain ⟨k₁, k₂, -, hc, hl, rfl⟩ := spawn_ok h
    obtain ⟨hr', hp⟩ := (LoadsBeside.of_createEnv hk hu hr hc).loadImage_ok hl
    exact ⟨hr', hp⟩

/-! ## Runs -/

/-- **Nothing that happens makes a frame less safe.** -/
theorem Guards.step (hk : k.Sound []) (hu : 0 < k.machine.refs f) (hr : k.mappings.ReadOnly f) (event : Event) :
    k.Guards (k.step event) f := by
  cases event with
  | spawn img => exact .spawn hk hu hr img
  | destroyEnv i => exact .destroyEnv hr i
  | scheduleNext => exact .of_quiet hr (.scheduleNext k)
  | dispatch i =>
    unfold Kernel.step
    dsimp only
    split
    · exact .of_quiet hr (.refl k)
    · rename_i hd
      exact .of_quiet hr (.dispatch hd)
  | perform i op =>
    cases op with
    | load a len => exact .load hk hr i a len
    | store a data => exact .store hk hr i a data
    | resumeWith regs =>
      show k.Guards (k.resumeWith i regs).2 f
      unfold resumeWith
      split
      · exact .of_quiet hr (.refl k)
      · exact ⟨by rw [mappings_setRegisters]; exact hr, fun _ => rfl⟩
    | ecall number args => exact .ecall hk hu hr i number args
  | failAfter n => exact .of_quiet hr (.of_bare (bare_failAfter k n))
  | clearFailure => exact .of_quiet hr (.of_bare (bare_clearFailure k))

/-- The frame is not given up: after each of the events somebody holds it. -/
def NeverFrees (k : Kernel) (f : Frame) : List Event → Prop
  | [] => True
  | event :: rest => 0 < (k.step event).machine.refs f ∧ (k.step event).NeverFrees f rest

/-- **A frame that somebody has mapped and nobody may write stays so, with the bytes it has, until it is given up.** -/
theorem readOnly_frame_stays (hk : k.Reachable) (hm : ∃ j v p, k.mappings j v = some p ∧ p.frame = f)
    (hr : k.mappings.ReadOnly f) (events : List Event) (hh : k.NeverFrees f events) :
    (k.run events).mappings.ReadOnly f ∧ (k.run events).machine.page f = k.machine.page f := by
  obtain ⟨j, v, p, hp, rfl⟩ := hm
  have hu := hk.sound.refs_pos_of_mappings hp
  clear hp
  induction events generalizing k with
  | nil => exact ⟨hr, rfl⟩
  | cons event rest ih =>
    have hg := Guards.step hk.sound hu hr event
    obtain ⟨hr', hpage⟩ := ih (.step hk event) hg.readOnly hh.2 hh.1
    exact ⟨hr', hpage.trans (hg.page hh.1)⟩

/-- A program shows its text to a child, asks in vain for the child to have the right to write it, and is ended by a
write of its own: the child still has the text. -/
theorem readOnly_frame_stays_shown : ∃ (k : Kernel) (f : Frame) (events : List Event), k.Reachable ∧
    (∃ j v p, k.mappings j v = some p ∧ p.frame = f) ∧ k.mappings.ReadOnly f ∧ k.NeverFrees f events ∧
    (k.run events).mappings.ReadOnly f ∧ (k.run events).machine.page f = k.machine.page f := by
  let k := ((ofConfig ⟨12, 2⟩).log (.booted ⟨12, 2⟩)).step (.spawn { text := #[0x13] })
  let text : Frame := ⟨0, 1⟩
  let events : List Event := [
    .perform ⟨4096⟩ (.ecall 6 (Vector.replicate 5 0)),
    .perform ⟨4096⟩ (.ecall 4 #v[0, 0x00800000, 4097, 0x00800000, 5]),
    .perform ⟨4096⟩ (.ecall 4 #v[0, 0x00800000, 4097, 0x00801000, 7]),
    .perform ⟨4096⟩ (.store 0x00800000 #[0xFF])]
  have hk : k.Reachable := .step (.boot (c := ⟨12, 2⟩) rfl) _
  have hm : (k.mappings ⟨4096⟩ ⟨textBase, by decide⟩).map Pte.frame = some text := by decide +kernel
  obtain ⟨p, hp, hf⟩ := Option.map_eq_some_iff.1 hm
  have hr : k.mappings.ReadOnly text := readOnly_of_leaves (by decide +kernel)
  have hn : k.NeverFrees text events :=
    ⟨by decide +kernel, by decide +kernel, by decide +kernel, by decide +kernel, trivial⟩
  exact ⟨k, text, events, hk, ⟨_, _, p, hp, hf⟩, hr, hn, readOnly_frame_stays hk ⟨_, _, p, hp, hf⟩ hr events hn⟩

end Kernel
end Exokernel
