import Exokernel.Kernel.Program
import Exokernel.Proofs.Kernel.Loading
import Exokernel.Proofs.User.Heap
/-!
# New programs

A new program shows its image: text, data, and zeros after them up to the end of its heap and on its stack.  A program
that cannot be loaded leaves nothing behind that another would notice.
-/
namespace Exokernel

namespace Kernel

variable {k k' k₁ k₂ : Kernel} {i j : EnvId} {e : Env} {v : VirtAddr} {f : Frame} {p : Perm} {base : Nat} {data d : Bytes}
  {H : List Frame}

/-! ## Loading a segment -/

/-- Some pages of a program have been loaded, or a part of them: what is on the others stays, and nobody notices. -/
structure Loads (k k' : Kernel) (i : EnvId) (pages : List Nat) : Prop where
  sound : k'.Sound []
  exclusive : k'.mappings.Exclusive
  keeps : k.Keeps k' i
  shows (a : Nat) (b : UInt8) (hn : pageDown a ∉ pages) (h : k.Shows i a b) : k'.Shows i a b
  spares (j : EnvId) (hj : j ≠ i) : k.Spares k' j

namespace Loads

theorem of_spares (hk : k'.Sound []) (hx : k.mappings.Exclusive) (hm : k'.mappings = k.mappings)
    (hs : ∀ j, k.Spares k' j) (pages : List Nat) : k.Loads k' i pages :=
  ⟨hk, by rw [hm]; exact hx, (hs i).keeps, fun _ _ _ h => (hs i).shows h, fun j _ => hs j⟩

theorem trans {A B : List Nat} (h : k.Loads k₁ i A) (h' : k₁.Loads k' i B) : k.Loads k' i (A ++ B) where
  sound := h'.sound
  exclusive := h'.exclusive
  keeps := h.keeps.trans h'.keeps
  shows a b hn hs :=
    h'.shows a b (fun hb => hn (List.mem_append_right A hb)) (h.shows a b (fun ha => hn (List.mem_append_left B ha)) hs)
  spares j hj := (h.spares j hj).trans (h'.spares j hj)

theorem live {A : List Nat} (h : k.Loads k' i A) (he : ∃ e, k.env? i = some e) : ∃ e, k'.env? i = some e := by
  obtain ⟨e, he⟩ := he
  exact (h.keeps e he).imp fun _ h => h.1

theorem ready {A : List Nat} (h : k.Loads k₁ i A) (he : ∃ e, k.env? i = some e) (sp pc : Word)
    (hk' : k' = k₁.modifyEnv i fun e =>
      { e with regs := { e.regs.setSp sp with sepc := pc }, status := .runnable }) :
    k'.Calm i sp ∧ (∀ a b, k₁.Shows i a b → k'.Shows i a b) ∧ ∀ j, j ≠ i → k.Spares k' j := by
  obtain ⟨e, he⟩ := h.live he
  subst hk'
  have hid (e : Env) : ({ e with
      regs := { e.regs.setSp sp with sepc := pc }, status := .runnable } : Env).id = e.id := rfl
  have hs (e : Env) : ({ e with
      regs := { e.regs.setSp sp with sepc := pc }, status := .runnable } : Env).space = e.space := rfl
  refine ⟨⟨h.sound.modifyEnv hs i, by rw [mappings_modifyEnv hid hs]; exact h.exclusive, ?_⟩,
    fun a b hsh => shows_modifyEnv hid hs hsh, fun j hj => (h.spares j hj).trans (spares_modifyEnv hid hj)⟩
  exact ⟨_, by rw [env?_modifyEnv hid, he, Option.map_some, if_pos rfl], rfl, Vector.getElem_set_self _⟩

end Loads

theorem getElem?_write_extract (data : Bytes) (x o : Nat) (ho : o < pageSize) :
    (Page.zero.write 0 (data.extract x (x + pageSize)))[o]? = some (data.getD (x + o) 0) := by
  rw [Vector.getElem?_eq_getElem ho, Page.getElem_write, if_pos (Nat.zero_le _), Page.getElem_zero]
  simp only [Array.getD_eq_getD_getElem?, Array.getElem?_extract, Nat.sub_zero]
  congr 2
  split
  · rfl
  · rename_i hn
    rw [Array.getElem?_eq_none (by omega)]

/-- **A page that was filled and mapped shows its data**, and what is on the other pages stays. -/
theorem InHand.loads {x : Nat} (hin : k.InHand k₁ f (data.extract (x - base) (x - base + pageSize)))
    (hx : k.mappings.Exclusive) (hp : p.contains .present) (hu : p.contains .user) (hb : base ≤ x)
    (hv : VirtAddr.pageOfNat? x = some v) (hs : k'.Sound []) (hm : k₁.Remaps k' i v (some ⟨f, p⟩)) :
    k.Loads k' i [x] ∧ ∀ a, pageDown a = x → k'.Shows i a (data.getD (a - base) 0) := by
  have hraw := VirtAddr.raw_pageDown hv
  refine ⟨⟨hs, ?_, (hin.spares i).keeps.trans (hm.keeps i), fun a b hn hsh => ?_,
    fun j hj => (hin.spares j).trans (hm.spares j hj)⟩, fun a ha => ?_⟩
  · rw [hm.mappings, hin.mappings]
    exact hx.put_fresh hin.fresh _ _ _
  · refine hm.shows hs ((hin.spares i).shows hsh) fun hc => hn ?_
    rw [← hc.2, hraw]
    exact List.mem_singleton_self x
  · have hput : k'.mappings i v = some ⟨f, p⟩ := by rw [hm.mappings, Mappings.put_self]
    refine ⟨⟨f, p⟩, ?_, Pte.allows_read_of hp hu, ?_⟩
    · rw [hm.mappings, Mappings.entryAt_put, if_pos ⟨rfl, by rw [hraw, ha]⟩]
    · rw [Machine.byte, hm.page f (hs.refs_pos_of_mappings hput), hin.filled,
        getElem?_write_extract data _ _ (pageOffset_lt a)]
      congr 2
      have := pageDown_add_pageOffset a
      omega

theorem loadPages_cases {pages : List Nat} (hk : k.Sound []) (hx : k.mappings.Exclusive) (he : ∃ e, k.env? i = some e)
    (hp : p.contains .present) (hu : p.contains .user) (hb : ∀ x ∈ pages, base ≤ x) {r : Except SpawnError Unit}
    (h : k.loadPages i base data p pages = (r, k')) :
    k.Loads k' i pages ∧ (r = .ok () → ∀ a, pageDown a ∈ pages → k'.Shows i a (data.getD (a - base) 0)) := by
  induction pages generalizing k with
  | nil =>
    cases h
    exact ⟨.of_spares hk hx rfl (fun j => .refl _ j) _, fun _ _ ha => by cases ha⟩
  | cons x rest ih =>
    unfold loadPages at h
    obtain ⟨e, he⟩ := he
    rw [he] at h
    split at h
    · cases h
      exact ⟨.of_spares hk hx rfl (fun j => .refl _ j) _, fun hr => by cases hr⟩
    · rename_i hn _
      cases hn
    rename_i v e' hv he'
    cases he'
    split at h
    · rename_i k₁ hal
      cases h
      have hq := Quiet.of_bare (bare_allocFrame_none hal)
      exact ⟨.of_spares (hk.of_bare (bare_allocFrame_none hal)) hx hq.mappings hq.spares _, fun hr => by cases hr⟩
    rename_i f k₁ hal
    have hin := inHand_of_allocFrame hk hal (data.extract (x - base) (x - base + pageSize))
    dsimp only at h
    split at h
    · rename_i k₂ hmap
      cases h
      have hpos := hin.sound.refs_pos (List.mem_append_right _ List.mem_cons_self)
      obtain ⟨hs, hm, hsp⟩ := hin.giveUp (bare_mapInto_error hpos hmap)
      exact ⟨.of_spares hs hx hm hsp _, fun hr => by cases hr⟩
    rename_i k₂ hmap
    obtain ⟨hs, hrem⟩ := hin.mapped he hmap
    generalize hk₃ : k₂.releaseFrame f = k₃ at h hs hrem
    obtain ⟨hload, hshow⟩ := hin.loads hx hp hu (hb x List.mem_cons_self) hv hs hrem
    obtain ⟨hrest, hall⟩ := ih hs hload.exclusive (hload.live ⟨e, he⟩)
      (fun y hy => hb y (List.mem_cons_of_mem _ hy)) h
    refine ⟨hload.trans hrest, fun hr a ha => ?_⟩
    by_cases hin : pageDown a ∈ rest
    · exact hall hr a hin
    · rcases List.mem_cons.1 ha with ha | ha
      · exact hrest.shows a _ hin (hshow a ha)
      · exact absurd ha hin

theorem loadSegment_cases {len : Nat} (hk : k.Sound []) (hx : k.mappings.Exclusive) (he : ∃ e, k.env? i = some e)
    (hp : p.contains .present) (hu : p.contains .user) {r : Except SpawnError Unit}
    (h : k.loadSegment i base len data p = (r, k')) :
    k.Loads k' i (pageSteps base (base + len)) ∧
      (r = .ok () → ∀ a, pageDown a ∈ pageSteps base (base + len) → k'.Shows i a (data.getD (a - base) 0)) := by
  refine loadPages_cases hk hx he hp hu (fun x hx => ?_) h
  exact (bounds_of_mem_pageSteps hx).1

end Kernel

namespace Image

variable {img : Image} {brk : Nat}

/-- The byte of an image at an address. -/
def byteAt (img : Image) (a : Nat) : UInt8 :=
  if a < img.dataStart then img.text.getD (a - textBase) 0 else img.data.getD (a - img.dataStart) 0

/-- Where the parts of an image that is not too large lie. -/
structure Fits (img : Image) (brk : Nat) : Prop where
  aligned : brk % pageSize = 0
  dataAligned : img.dataStart % pageSize = 0
  text : textBase ≤ img.dataStart
  textEnd (a : Nat) (h : a < img.dataStart) : pageDown a < textBase + img.text.size
  data : img.dataStart ≤ brk
  dataEnd : img.dataStart + img.data.size ≤ brk
  stack : brk ≤ stackPage

theorem fits_of_brk? (h : img.brk? = some brk) : img.Fits brk := by
  unfold brk? at h
  dsimp only at h
  split at h
  · rename_i hb
    cases h
    have hs := hb.1
    have hhigh := hb.2
    have hd : img.dataStart = pageUp (textBase + img.text.size) := rfl
    refine ⟨Nat.mul_mod_left _ _, by rw [hd]; exact Nat.mul_mod_left _ _, ?_, fun a ha => ?_, ?_, ?_, hhigh⟩
    all_goals
      simp only [pageUp, pageDown, pageSize, addressLimit, stackPage, stackTop, userTop, textBase] at *
      omega
  · cases h

end Image

namespace Kernel

variable {k k' : Kernel} {i : EnvId} {img : Image} {brk : Nat}

theorem loads_of_error (hk : k.Sound []) (hx : k.mappings.Exclusive) (he : ∃ e, k.env? i = some e) {err : SpawnError}
    (h : k.loadImage i img brk = (.error err, k')) : ∃ pages, k.Loads k' i pages := by
  rcases loadImage_error h with h₁ | ⟨k₁, h₁, h₂ | ⟨k₂, h₂, h₃⟩⟩
  · exact ⟨_, (loadSegment_cases hk hx he (by decide) (by decide) h₁).1⟩
  · have hl₁ := (loadSegment_cases hk hx he (by decide) (by decide) h₁).1
    exact ⟨_, hl₁.trans (loadSegment_cases hl₁.sound hl₁.exclusive (hl₁.live he) (by decide) (by decide) h₂).1⟩
  · have hl₁ := (loadSegment_cases hk hx he (by decide) (by decide) h₁).1
    have hl₂ := hl₁.trans (loadSegment_cases hl₁.sound hl₁.exclusive (hl₁.live he) (by decide) (by decide) h₂).1
    exact ⟨_, hl₂.trans (loadSegment_cases hl₂.sound hl₂.exclusive (hl₂.live he) (by decide) (by decide) h₃).1⟩

/-- **A program that is loaded shows its image.** -/
theorem loadImage_cases (hk : k.Sound []) (hx : k.mappings.Exclusive) (he : ∃ e, k.env? i = some e)
    (hf : img.Fits brk) (h : k.loadImage i img brk = (.ok (), k')) :
    k'.Calm i stackTop.toUInt64 ∧ (∀ a, Owned brk a → k'.Shows i a (img.byteAt a)) ∧ ∀ j, j ≠ i → k.Spares k' j := by
  obtain ⟨k₁, k₂, k₃, h₁, h₂, h₃, hk'⟩ := loadImage_ok h
  obtain ⟨hl₁, htext⟩ := loadSegment_cases hk hx he (by decide) (by decide) h₁
  obtain ⟨hl₂, hdata⟩ := loadSegment_cases hl₁.sound hl₁.exclusive (hl₁.live he) (by decide) (by decide) h₂
  have hl₁₂ := hl₁.trans hl₂
  obtain ⟨hl₃, hstack⟩ := loadSegment_cases hl₁₂.sound hl₁₂.exclusive (hl₁₂.live he) (by decide) (by decide) h₃
  have hl := hl₁₂.trans hl₃
  have hbyte (a : Nat) (ho : Owned brk a) : k₃.Shows i a (img.byteAt a) := by
    have hdown := pageDown_le a
    have hstart := hf.stack
    unfold Image.byteAt
    rcases ho with ⟨hlow, hhigh⟩ | ⟨hlow, hhigh⟩
    · have hns : pageDown a ∉ pageSteps stackPage (stackPage + pageSize) := fun hm => by
        have := bounds_of_mem_pageSteps hm
        omega
      split
      · rename_i ha
        have hnd : pageDown a ∉ pageSteps img.dataStart (img.dataStart + (brk - img.dataStart)) := fun hm => by
          have := bounds_of_mem_pageSteps hm
          omega
        exact hl₃.shows a _ hns (hl₂.shows a _ hnd (htext rfl a (pageDown_mem_pageSteps (by decide) hlow (hf.textEnd a ha))))
      · rename_i ha
        have hend := hf.data
        exact hl₃.shows a _ hns (hdata rfl a (pageDown_mem_pageSteps hf.dataAligned (by omega) (by omega)))
    · have hend := hf.dataEnd
      have hz := hstack rfl a (pageDown_mem_pageSteps (by decide) hlow (Nat.lt_of_le_of_lt hdown hhigh))
      rw [Array.getD_eq_getD_getElem?, Array.getElem?_empty] at hz
      rw [if_neg (by omega), Array.getD_eq_getD_getElem?, Array.getElem?_eq_none (by omega)]
      exact hz
  obtain ⟨hc, hshows, hspares⟩ := hl.ready he stackTop.toUInt64 textBase.toUInt64 hk'
  exact ⟨hc, fun a ho => hshows a _ (hbyte a ho), hspares⟩

/-! ## Starting a program -/

/-- **A program that is started shows its image**, and nobody else has noticed. -/
theorem spawn_ok_cases (hk : k.Sound []) (hx : k.mappings.Exclusive) {s : Spawned} (h : k.spawn img = (.ok s, k')) :
    k.env? s.id = none ∧ img.brk? = some s.brk ∧ k'.Calm s.id stackTop.toUInt64 ∧
      (∀ a, Owned s.brk a → k'.Shows s.id a (img.byteAt a)) ∧ ∀ j, k.Spares k' j := by
  obtain ⟨k₁, k₂, hb, hcr, hload, rfl⟩ := spawn_ok h
  obtain ⟨hnone, he, hm, hs₁⟩ := createEnv_cases hk hcr
  have hx₁ : k₁.mappings.Exclusive := by
    rw [hm]
    exact hx
  obtain ⟨hc, hshows, hs₂⟩ := loadImage_cases (hk.createEnv hcr) hx₁ he (Image.fits_of_brk? hb) hload
  have hq := (Quiet.withScheduler k₂ (k₂.scheduler.enqueue s.id)).trans (.log _ (.spawned s.id img s.brk))
  refine ⟨hnone, hb, (hc.quiet hq ((hc.sound.withScheduler _).log _)).calm, fun a ho => hq.shows (hshows a ho), fun j => ?_⟩
  by_cases hj : j = s.id
  · subst hj
    exact .of_env?_none hnone
  · exact ((hs₁ j).trans (hs₂ j hj)).trans (hq.spares j)

/-- **A program that cannot be started leaves nothing behind** that anyone would notice. -/
theorem spawn_error_cases (hk : k.Sound []) (hx : k.mappings.Exclusive) {err : SpawnError}
    (h : k.spawn img = (.error err, k')) : k'.Sound [] ∧ k'.mappings.Exclusive ∧ ∀ j, k.Spares k' j := by
  rcases spawn_error h with rfl | ⟨e, hcr⟩ | ⟨i, brk, k₁, k₂, hb, hcr, hload, rfl⟩
  · exact ⟨hk, hx, fun j => .refl _ j⟩
  · have hq := Quiet.of_bare (bare_createEnv_error hcr)
    exact ⟨hk.of_bare (bare_createEnv_error hcr), by rw [hq.mappings]; exact hx, hq.spares⟩
  · obtain ⟨hnone, he, hm, hs₁⟩ := createEnv_cases hk hcr
    have hx₁ : k₁.mappings.Exclusive := by
      rw [hm]
      exact hx
    obtain ⟨pages, hl⟩ := loads_of_error (hk.createEnv hcr) hx₁ he hload
    have hlog := Quiet.log k₂ (.spawnFailed i err)
    have hk₂ := hl.sound.log (.spawnFailed i err)
    obtain ⟨e, he⟩ := hl.live he
    have hdes := destroyEnv_of_env? (k := k₂.log (.spawnFailed i err)) he
    have hends := hlog.ends (ends_of_destroyEnv hk₂ hdes)
    have hk' := hk₂.destroyEnv i
    rw [hdes] at hk' ⊢
    refine ⟨hk', by rw [hends.mappings]; exact hl.exclusive.without i, fun j => ?_⟩
    by_cases hj : j = i
    · subst hj
      exact .of_env?_none hnone
    · exact ((hs₁ j).trans (hl.spares j hj)).trans (hends.spares j hj)

end Kernel
end Exokernel
