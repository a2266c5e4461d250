import Exokernel.Proofs.Kernel.Sharing
/-!
# Making room for a program

A new environment has nothing mapped.  A page of it is a frame that nobody has, filled while the kernel has it in hand and
then mapped, or given up; nobody else notices.
-/
namespace Exokernel.Kernel

variable {k k' k₁ k₂ : Kernel} {i j : EnvId} {e : Env} {v : VirtAddr} {f : Frame} {p : Perm} {d : Bytes} {H : List Frame}

/-! ## Making an environment -/

theorem Spares.of_page (he : ∀ j, k'.env? j = k.env? j)
    (hp : ∀ j v q, k.mappings j v = some q → k'.machine.page q.frame = k.machine.page q.frame) (j : EnvId) :
    k.Spares k' j := fun e hj =>
  ⟨e, (he j).trans hj, id, rfl, fun _ => rfl, fun v q hl => hp j v q (by rw [mappings_of_env? hj, hl])⟩

theorem fresh_of_refs (hk : k.Sound H) (h : k.machine.refs f = 0) : k.mappings.Fresh f := by
  rintro j v q hq rfl
  have := hk.refs_pos_of_mappings hq
  omega

/-- **A new environment has nothing mapped**, and nobody notices it. -/
theorem createEnv_cases (hk : k.Sound []) {parent : Option EnvId} (h : k.createEnv parent = (.ok i, k')) :
    k.env? i = none ∧ (∃ e, k'.env? i = some e) ∧ k'.mappings = k.mappings ∧ ∀ j, k.Spares k' j := by
  obtain ⟨hnone, f, henv⟩ := env?_createEnv hk h
  refine ⟨hnone, ⟨_, (henv i).trans (if_pos rfl)⟩, (mappings_createEnv hk h).1, fun j e he => ?_⟩
  have hj : i ≠ j := by
    rintro rfl
    rw [hnone] at he
    cases he
  exact ⟨e, by rw [henv, if_neg hj, he], id, rfl, fun _ => rfl, fun v q _ => page_createEnv hk h q.frame⟩

/-! ## Loading a page -/

/-- A frame in hand, filled: nobody has it mapped. -/
structure InHand (k k' : Kernel) (f : Frame) (d : Bytes) : Prop where
  sound : k'.Sound [f]
  fresh : k.mappings.Fresh f
  envs (j : EnvId) : k'.env? j = k.env? j
  filled : k'.machine.page f = Page.zero.write 0 d
  other (g : Frame) (h : g ≠ f) : k'.machine.page g = k.machine.page g
  unused : k.machine.refs f = 0
  refs (g : Frame) (h : g ≠ f) : k'.machine.refs g = k.machine.refs g

theorem inHand_of_allocFrame (hk : k.Sound []) (h : k.allocFrame = (some f, k₁)) (d : Bytes) :
    k.InHand { k₁ with machine := k₁.machine.write f 0 d } f d := by
  have hk₁ := hk.allocFrame h
  have hpos := hk₁.refs_pos (List.mem_append_right _ List.mem_cons_self)
  obtain ⟨m, hal, rfl⟩ := allocFrame_some h
  have hzero := Machine.refs_of_alloc hk.balanced.tidy hal
  refine ⟨hk₁.writeFrame 0 d, fresh_of_refs hk hzero, fun j => rfl, ?_, fun g hg => ?_, hzero, fun g hg => ?_⟩
  · show (m.write f 0 d).page f = _
    rw [Machine.page_write hpos, if_pos rfl, Machine.page_of_alloc hk.balanced.tidy hal]
  · show (m.write f 0 d).page g = _
    rw [Machine.page_write hpos, if_neg hg.symm, Machine.page_alloc hk.balanced.tidy hal]
  · show (m.write f 0 d).refs g = _
    rw [Machine.refs_write, Machine.refs_alloc hk.balanced.tidy hal, if_neg hg.symm, Nat.add_zero]

theorem refs_releaseFrame_of_ne (k : Kernel) {f g : Frame} (h : g ≠ f) :
    (k.releaseFrame f).machine.refs g = k.machine.refs g := by
  show (k.machine.release f).refs g = _
  rw [Machine.refs_release, if_neg h.symm, Nat.sub_zero]

namespace InHand

theorem mappings (h : k.InHand k₁ f d) : k₁.mappings = k.mappings := by
  funext j v
  exact mappings_congr (by rw [h.envs]) v

theorem spares (h : k.InHand k₁ f d) (j : EnvId) : k.Spares k₁ j :=
  .of_page h.envs (fun j v q hq => h.other _ (h.fresh j v q hq)) j

theorem giveUp (h : k.InHand k₁ f d) (hb : k₂.bare = k₁.bare) :
    (k₂.releaseFrame f).Sound [] ∧ (k₂.releaseFrame f).mappings = k.mappings ∧
      ∀ j, k.Spares (k₂.releaseFrame f) j := by
  have hs := (h.sound.of_bare hb).releaseFrame
  have he (j : EnvId) : (k₂.releaseFrame f).env? j = k.env? j := (env?_congr (envs_of_bare hb) j).trans (h.envs j)
  have hm : (k₂.releaseFrame f).mappings = k.mappings := by
    funext j v
    exact mappings_congr (by rw [he]) v
  refine ⟨hs, hm, .of_page he fun j v q hq => ?_⟩
  have hpos := hs.refs_pos_of_mappings (by rw [hm]; exact hq)
  rw [(page_releaseFrame hpos).2, Machine.page_congr (machine_of_bare hb), h.other _ (h.fresh j v q hq)]

/-- **A page that is mapped shows what it was filled with.** -/
theorem mapped (h : k.InHand k₁ f d) (he : k.env? i = some e) (hm : k₁.mapInto e f v p = (.ok (), k₂)) :
    (k₂.releaseFrame f).Sound [] ∧ k₁.Remaps (k₂.releaseFrame f) i v (some ⟨f, p⟩) := by
  obtain rfl := EnvTable.id_of_get? he
  have he₁ := (h.envs e.id).trans he
  have hin : f ∈ k₁.envs.leafFrames ++ [f] := List.mem_append_right _ List.mem_cons_self
  have hs := (h.sound.mapInto he₁ hin hm).releaseFrame
  obtain ⟨-, s, hl, henv⟩ := env?_mapInto hm
  refine ⟨hs, .of_env? hs (fun g hg => ?_) he₁ hl henv⟩
  obtain ⟨hg₂, hpage⟩ := page_releaseFrame hg
  rw [hpage, h.sound.page_mapInto (h.sound.refs_pos hin) hm hg₂]

theorem refs_giveUp (h : k.InHand k₁ f d) (hb : k₂.bare = k₁.bare) {g : Frame} (hg : g ≠ f) :
    (k₂.releaseFrame f).machine.refs g = k.machine.refs g := by
  rw [refs_releaseFrame_of_ne k₂ hg, Machine.refs_congr (machine_of_bare hb), h.refs g hg]

/-- Nothing is given up but what was mapped there. -/
theorem refs_le_mapped (h : k.InHand k₁ f d) (hm : k₁.mapInto e f v p = (.ok (), k₂)) {g : Frame} (hg : g ≠ f)
    (hn : ∀ q, e.space.lookup v = some q → q.frame ≠ g) : k.machine.refs g ≤ (k₂.releaseFrame f).machine.refs g := by
  rw [refs_releaseFrame_of_ne k₂ hg, ← h.refs g hg]
  exact h.sound.refs_le_mapInto (h.sound.refs_pos (List.mem_append_right _ List.mem_cons_self)) hm hn

end InHand

end Exokernel.Kernel
