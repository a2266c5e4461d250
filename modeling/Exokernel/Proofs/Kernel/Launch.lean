import Exokernel.Proofs.Kernel.Load
import Exokernel.Proofs.User.PageCopy
/-!
# Starting a program, exactly

From an image alone it can be told which pages a program will have and how many frames they take.  Main statement
(`Kernel.spawn_exact`): the program is started just when there are a slot and that many frames for it, and then it has
those pages and no others; if it is not started, all that remains of the attempt is the generation of its slot.
-/
namespace Exokernel

/-! ## The pages of an image -/

/-- The page boundary at or above a number, however high. -/
def roundUp (a : Nat) : Nat := (a + (pageSize - 1)) / pageSize * pageSize

/-- **Rounding up below the stack needs no bound**, and a number that the bound would be needed for is too high. -/
theorem roundUp_le_stackPage {a : Nat} : roundUp a ≤ stackPage ↔ a < addressLimit ∧ pageUp a ≤ stackPage := by
  simp only [pageUp, pageDown, roundUp, pageSize, addressLimit, stackPage, stackTop, userTop]
  omega

theorem pageUp_eq_roundUp {a : Nat} (h : roundUp a ≤ stackPage) : pageUp a = roundUp a := by
  simp only [pageUp, pageDown, roundUp, pageSize, addressLimit, stackPage, stackTop, userTop] at *
  omega

namespace Image

variable {img : Image} {brk : Nat}

/-- **The end of the heap in unbounded arithmetic**: the text, rounded up, then the data and the zeros, rounded up. -/
def extent (img : Image) : Nat := roundUp (roundUp (textBase + img.text.size) + img.data.size + img.bss)

/-- **The pages of a program**: those up to the end of the heap, and that of the stack. -/
def pages (img : Image) : List Nat := pageSteps textBase img.extent ++ [stackPage]

/-- **The number of frames that a program takes**: its directory, its pages, and a page-table page for each region. -/
def cost (img : Image) : Nat := 1 + img.pages.length + (regionsOf img.pages).card

/-- Text is read-only. -/
def permAt (img : Image) (a : Nat) : Perm := if a < img.dataStart then .userPresent else .userWritable

theorem dataStart_eq (h : img.extent ≤ stackPage) : img.dataStart = roundUp (textBase + img.text.size) := by
  refine pageUp_eq_roundUp (Nat.le_trans ?_ h)
  simp only [extent, roundUp, pageSize]
  omega

/-- **The checked end of the heap is the unbounded one**, unless that is too high. -/
theorem brk?_eq (img : Image) : img.brk? = if img.extent ≤ stackPage then some img.extent else none := by
  have heq (h : img.extent ≤ stackPage) : roundUp (img.dataStart + img.data.size + img.bss) = img.extent := by
    rw [dataStart_eq h, extent]
  -- a text that is too long is too long also when its end is rounded up with a bound
  have hiff : roundUp (img.dataStart + img.data.size + img.bss) ≤ stackPage ↔ img.extent ≤ stackPage := by
    simp only [extent, dataStart, pageUp, pageDown, roundUp, pageSize, addressLimit, stackPage, stackTop, userTop, textBase]
    omega
  unfold brk?
  dsimp only
  by_cases h : img.extent ≤ stackPage
  · rw [if_pos (roundUp_le_stackPage.1 (hiff.2 h)), if_pos h, pageUp_eq_roundUp (hiff.2 h), heq h]
  · rw [if_neg fun hs => h (hiff.1 (roundUp_le_stackPage.2 hs)), if_neg h]

/-- The pages of the text, and then those of the data. -/
theorem pageSteps_extent (h : img.extent ≤ stackPage) : pageSteps textBase img.extent =
    pageSteps textBase (textBase + img.text.size) ++
      pageSteps img.dataStart (img.dataStart + (img.extent - img.dataStart)) := by
  have hd := dataStart_eq h
  have hstart : img.dataStart =
      textBase + pageSize * ((textBase + img.text.size - textBase + (pageSize - 1)) / pageSize) := by
    rw [hd]
    simp only [roundUp, pageSize, textBase]
    omega
  rw [pageSteps, pageSteps, pageSteps, hstart, List.range'_append, ← hstart, hd]
  congr 1
  simp only [extent, roundUp, pageSize, textBase]
  omega

theorem dataPage_notMem_text (h : img.extent ≤ stackPage) {a : Nat}
    (ha : a ∈ pageSteps img.dataStart (img.dataStart + (img.extent - img.dataStart))) :
    a ∉ pageSteps textBase (textBase + img.text.size) := fun ha' => by
  have hlow := (bounds_of_mem_pageSteps ha).1
  have hhigh := (bounds_of_mem_pageSteps ha').2
  have hd := dataStart_eq h
  simp only [roundUp, pageSize] at hd
  omega

theorem stackPage_notMem_extent (h : img.extent ≤ stackPage) :
    stackPage ∉ pageSteps textBase (textBase + img.text.size) ++
      pageSteps img.dataStart (img.dataStart + (img.extent - img.dataStart)) := fun hs => by
  rw [← pageSteps_extent h] at hs
  have hhigh := (bounds_of_mem_pageSteps hs).2
  omega

theorem byteAt_of_extent_le (h : img.extent ≤ stackPage) {a : Nat} (ha : img.extent ≤ a) : img.byteAt a = 0 := by
  have hb := img.brk?_eq
  rw [if_pos h] at hb
  have hf := fits_of_brk? hb
  have := hf.data
  have := hf.dataEnd
  rw [byteAt, if_neg (by omega), Array.getD_eq_getD_getElem?, Array.getElem?_eq_none (by omega)]
  rfl

end Image

namespace Kernel

variable {k k' k₁ : Kernel} {i : EnvId} {img : Image} {r : Except SpawnError Unit}

/-! ## Loading an image -/

theorem loadable_pageSteps {low high : Nat} (hl : low % pageSize = 0) (hh : high ≤ userTop)
    (hm : ∀ v : VirtAddr, v.pageDown.raw ∈ pageSteps low high → k.mappings i v = none) :
    k.Loadable i low (pageSteps low high) := by
  have hnodup : (pageSteps low high).Nodup := by
    apply List.nodup_range'
    decide
  refine ⟨hnodup, fun a ha => (bounds_of_mem_pageSteps ha).1, fun a ha => ?_, hm⟩
  have hlt := (bounds_of_mem_pageSteps ha).2
  obtain ⟨n, rfl, -⟩ := mem_pageSteps.1 ha
  exact ⟨⟨low + pageSize * n, by omega⟩, VirtAddr.pageOfNat?_eq_some_iff.2 ⟨rfl, by rw [Nat.add_mul_mod_self_left, hl]⟩⟩

section segments

variable (hk : k.Sound []) (he : ∃ e, k.env? i = some e) (hx : img.extent ≤ stackPage)
include hk he hx

theorem text_outcome
    (hm : ∀ v : VirtAddr, v.pageDown.raw ∈ pageSteps textBase (textBase + img.text.size) → k.mappings i v = none)
    (h : k.loadSegment i textBase img.text.size img.text .userPresent = (r, k')) :
    k.LoadOutcome i (pageSteps textBase (textBase + img.text.size)) img.permAt img.byteAt r k' := by
  have hf := Image.fits_of_brk? (img.brk?_eq.trans (if_pos hx))
  have hd := Image.dataStart_eq hx
  have hend : textBase + img.text.size ≤ userTop := by
    have := hf.data
    have : stackPage ≤ userTop := by decide
    simp only [roundUp, pageSize] at hd
    omega
  have hlow {a : Nat} (ha : a ∈ pageSteps textBase (textBase + img.text.size)) {o : Nat} (ho : o < pageSize) :
      a + o < img.dataStart := by
    obtain ⟨n, rfl, hlt⟩ := mem_pageSteps.1 ha
    simp only [roundUp, pageSize, textBase] at *
    omega
  refine (loadPages_outcome hk he (loadable_pageSteps (by decide) hend hm) h).congr (fun a ha => ?_) fun a ha o ho => ?_
  · have hlt : a + 0 < img.dataStart := hlow ha (by decide)
    rw [Nat.add_zero] at hlt
    rw [Image.permAt, if_pos hlt]
  · rw [Image.byteAt, if_pos (hlow ha ho)]

theorem data_outcome
    (hm : ∀ v : VirtAddr, v.pageDown.raw ∈ pageSteps img.dataStart (img.dataStart + (img.extent - img.dataStart)) →
      k.mappings i v = none)
    (h : k.loadSegment i img.dataStart (img.extent - img.dataStart) img.data .userWritable = (r, k')) :
    k.LoadOutcome i (pageSteps img.dataStart (img.dataStart + (img.extent - img.dataStart))) img.permAt img.byteAt r k' := by
  have hf := Image.fits_of_brk? (img.brk?_eq.trans (if_pos hx))
  have hend : img.dataStart + (img.extent - img.dataStart) ≤ userTop := by
    have := hf.data
    have := hf.stack
    have : stackPage ≤ userTop := by decide
    omega
  have hlow {a : Nat} (ha : a ∈ pageSteps img.dataStart (img.dataStart + (img.extent - img.dataStart))) :
      img.dataStart ≤ a := (bounds_of_mem_pageSteps ha).1
  refine (loadPages_outcome hk he (loadable_pageSteps hf.dataAligned hend hm) h).congr (fun a ha => ?_) fun a ha o ho => ?_
  · rw [Image.permAt, if_neg (Nat.not_lt_of_le (hlow ha))]
  · rw [Image.byteAt, if_neg (Nat.not_lt_of_le (Nat.le_trans (hlow ha) (Nat.le_add_right _ _)))]

theorem stack_outcome (hm : ∀ v : VirtAddr, v.pageDown.raw ∈ [stackPage] → k.mappings i v = none)
    (h : k.loadSegment i stackPage pageSize #[] .userWritable = (r, k')) :
    k.LoadOutcome i [stackPage] img.permAt img.byteAt r k' := by
  have hf := Image.fits_of_brk? (img.brk?_eq.trans (if_pos hx))
  have hpages : pageSteps stackPage (stackPage + pageSize) = [stackPage] := by decide
  have hout := loadPages_outcome hk he (loadable_pageSteps (by decide) (by decide) (by rw [hpages]; exact hm)) h
  rw [hpages] at hout
  have hdata := hf.data
  refine hout.congr (fun a ha => ?_) fun a ha o ho => ?_ <;> cases List.mem_singleton.1 ha
  · rw [Image.permAt, if_neg (by omega)]
  · rw [Image.byteAt_of_extent_le hx (Nat.le_trans hx (Nat.le_add_right _ _)), Array.getD_eq_getD_getElem?,
      Array.getElem?_empty]
    rfl

end segments

/-- **The pages of an image are all loaded just when there are frames enough.** -/
theorem loadImage_outcome (hk : k.Sound []) (he : ∃ e, k.env? i = some e)
    (hm : ∀ v, k.mappings i v = none) (hx : img.extent ≤ stackPage) (h : k.loadImage i img img.extent = (r, k')) :
    ∃ k₁, k.LoadOutcome i img.pages img.permAt img.byteAt r k₁ ∧
      (r = .ok () ∧ k' = (k₁.modifyEnv i fun e =>
        { e with regs := { e.regs.setSp stackTop.toUInt64 with sepc := textBase.toUInt64 }, status := .runnable }) ∨
      (∃ err, r = .error err) ∧ k' = k₁) := by
  have hpages : img.pages = pageSteps textBase (textBase + img.text.size) ++
      (pageSteps img.dataStart (img.dataStart + (img.extent - img.dataStart)) ++ [stackPage]) := by
    rw [Image.pages, Image.pageSteps_extent hx, List.append_assoc]
  -- the pages of the data, and that of the stack, are none of those before
  have hdata (v : VirtAddr) (hv : v.pageDown.raw ∈ pageSteps img.dataStart (img.dataStart + (img.extent - img.dataStart))) :
      v.pageDown.raw ∉ pageSteps textBase (textBase + img.text.size) := Image.dataPage_notMem_text hx hv
  have hstack (v : VirtAddr) (hv : v.pageDown.raw ∈ [stackPage]) :
      v.pageDown.raw ∉ pageSteps textBase (textBase + img.text.size) ++
        pageSteps img.dataStart (img.dataStart + (img.extent - img.dataStart)) := by
    rw [List.mem_singleton.1 hv]
    exact Image.stackPage_notMem_extent hx
  rw [hpages]
  have text {r : Except SpawnError Unit} {k₁ : Kernel} (h₁ : k.loadSegment i textBase img.text.size img.text .userPresent =
      (r, k₁)) := text_outcome hk he hx (fun v _ => hm v) h₁
  cases r with
  | ok u =>
    obtain ⟨k₁, k₂, k₃, h₁, h₂, h₃, hk'⟩ := loadImage_ok h
    cases text h₁ with
    | loaded hs₁ hR₁ hl₁ =>
      have hd := data_outcome hl₁.sound (hl₁.live he) hx (fun v hv => (hl₁.unmapped v (hdata v hv)).trans (hm v)) h₂
      cases hd with
      | loaded hs₂ hR₂ hl₂ =>
        have hl := hl₁.trans hl₂
        have hst := stack_outcome hl.sound (hl.live he) hx (fun v hv => (hl.unmapped v (hstack v hv)).trans (hm v)) h₃
        exact ⟨k₃, .of_loaded hs₁ hR₁ hl₁ (.of_loaded hs₂ hR₂ hl₂ hst), Or.inl ⟨rfl, hk'⟩⟩
  | error err =>
    refine ⟨k', ?_, Or.inr ⟨⟨err, rfl⟩, rfl⟩⟩
    rcases loadImage_error h with h₁ | ⟨k₁, h₁, h₂⟩
    · exact (text h₁).append_short _
    cases text h₁ with
    | loaded hs₁ hR₁ hl₁ =>
      refine .of_loaded hs₁ hR₁ hl₁ ?_
      have data {r : Except SpawnError Unit} {k₂ : Kernel} (h₂ : k₁.loadSegment i img.dataStart
          (img.extent - img.dataStart) img.data .userWritable = (r, k₂)) :=
        data_outcome hl₁.sound (hl₁.live he) hx (fun v hv => (hl₁.unmapped v (hdata v hv)).trans (hm v)) h₂
      rcases h₂ with h₂ | ⟨k₂, h₂, h₃⟩
      · exact (data h₂).append_short _
      cases data h₂ with
      | loaded hs₂ hR₂ hl₂ =>
        have hl := hl₁.trans hl₂
        exact .of_loaded hs₂ hR₂ hl₂
          (stack_outcome hl.sound (hl.live he) hx (fun v hv => (hl.unmapped v (hstack v hv)).trans (hm v)) h₃)

end Kernel

/-! ## A slot that is used in vain -/

namespace EnvTable

variable {t t' : EnvTable} {n : Nat} {e : Env}

/-- A table in which a free slot has been used once more and is free again. -/
def spend (t : EnvTable) (n : Nat) : EnvTable := ⟨t.slots.setIfInBounds n ⟨t.nextGeneration n, none⟩⟩

theorem toList_spend (h : t.firstFree? = some n) : (t.spend n).toList = t.toList := by
  obtain ⟨g, hs⟩ := slot_of_firstFree? h
  conv => rhs; rw [toList, toList_eq_of_getElem? hs]
  rw [toList, spend, toList_setIfInBounds (lt_capacity_of_firstFree? h)]
  simp

theorem get?_spend (h : t.firstFree? = some n) (j : EnvId) : (t.spend n).get? j = t.get? j := by
  by_cases hj : n = j.index
  · rw [get?_of_firstFree? h hj.symm, get?, spend, Array.getElem?_setIfInBounds, if_pos hj]
    split <;> rfl
  · rw [get?, spend, Array.getElem?_setIfInBounds, if_neg hj, get?]

/-- **An environment that is made and ended leaves its slot spent**, however it was changed in between. -/
theorem remove_of_edited (hc : t.capacity ≤ maxEnvSlots) (hn : t.firstFree? = some n)
    (he : e.id = .ofParts (t.nextGeneration n) n) (h : (t.fill n (t.nextGeneration n) e).Edited t' e.id) :
    t'.remove e.id = t.spend n := by
  obtain ⟨g, hg, rfl⟩ := h
  have hx : e.id.index = n := by
    rw [he, EnvId.index_ofParts _ (Nat.lt_of_lt_of_le (lt_capacity_of_firstFree? hn) hc)]
  simp only [remove, modify, fill, spend, hx, mk.injEq]
  refine Array.ext_getElem? fun j => ?_
  simp only [Array.getElem?_modify, Array.getElem?_setIfInBounds]
  by_cases hj : n = j
  · subst hj
    rw [if_pos rfl, if_pos rfl, if_pos rfl, if_pos rfl]
    split
    · simp [Option.filter, hg]
    · rfl
  · simp [hj]

end EnvTable

namespace Kernel

variable {k k' k₁ k₂ : Kernel} {i : EnvId} {img : Image} {n : Nat}

/-- **Nothing can be told apart**: the environments, the scheduler, the counts and the bytes of all frames and the set of
the free ones are the same. -/
structure AsBefore (k k' : Kernel) : Prop where
  env? (j : EnvId) : k'.env? j = k.env? j
  scheduler : k'.scheduler = k.scheduler
  refs (g : Frame) : k'.machine.refs g = k.machine.refs g
  page (g : Frame) : k'.machine.page g = k.machine.page g
  free : (k'.machine.free pool).Perm (k.machine.free pool)

namespace AsBefore

theorem of_bare (h : k'.bare = k.bare) : k.AsBefore k' where
  env? j := env?_congr (envs_of_bare h) j
  scheduler := show k'.bare.scheduler = k.scheduler by rw [h]; rfl
  refs := Machine.refs_congr (machine_of_bare h)
  page := Machine.page_congr (machine_of_bare h)
  free := by rw [← Machine.free_bare, machine_of_bare h, Machine.free_bare]

/-- **Sound kernels with the same environments count the same**, so that the same frames are free in them. -/
theorem of_spend (hk : k.Sound []) (hk' : k'.Sound []) (hn : k.envs.firstFree? = some n) (he : k'.envs = k.envs.spend n)
    (hs : k'.scheduler = k.scheduler) (hcap : k'.machine.capacity pool = k.machine.capacity pool)
    (hp : ∀ g, 0 < k'.machine.refs g → 0 < k.machine.refs g → k'.machine.page g = k.machine.page g) :
    k.AsBefore k' := by
  have hl := EnvTable.toList_spend hn
  have hrefs (g : Frame) : k'.machine.refs g = k.machine.refs g := by
    rw [hk'.balanced.refs_eq, hk.balanced.refs_eq, EnvTable.pagingFrames, EnvTable.leafFrames, he, hl]
    rfl
  refine ⟨fun j => ?_, hs, hrefs, fun g => ?_, ?_⟩
  · show k'.envs.get? j = k.envs.get? j
    rw [he, EnvTable.get?_spend hn]
  · by_cases hg : k.machine.refs g = 0
    · rw [hk.balanced.tidy.page_of_refs hg, hk'.balanced.tidy.page_of_refs ((hrefs g).trans hg)]
    · have hpos := Nat.pos_of_ne_zero hg
      exact hp g (by rw [hrefs]; exact hpos) hpos
  · refine (List.perm_ext_iff_of_nodup hk'.accounted.free_nodup hk.accounted.free_nodup).2 fun g => ?_
    obtain ⟨x, m⟩ := g
    by_cases hx : x = pool
    · subst hx
      rw [hk'.accounted.mem_free, hk.accounted.mem_free, hcap, hrefs]
    · have hother (m' : Machine) : ⟨x, m⟩ ∉ m'.free pool := fun hg => by
        obtain ⟨y, -, hy⟩ := List.mem_map.1 hg
        cases hy
        exact hx rfl
      exact iff_of_false (hother _) (hother _)

end AsBefore

/-- **What it takes to make an environment**: a frame, and there is no room for a page in it yet. -/
theorem createEnv_cost (hk : k.Sound []) (h : k.createEnv none = (.ok i, k₁)) :
    k.supply = 1 + k₁.supply ∧ k₁.regions i = ∅ ∧ k.FramesKept k₁ ∧ k₁.scheduler = k.scheduler := by
  obtain ⟨-, f, henv⟩ := env?_createEnv hk h
  have hroom (v : VirtAddr) : k₁.room i v.raw = 1 := by
    rw [room_of_env? ((henv i).trans (if_pos rfl))]
    have hnone : (PageTable.empty f).dir.get v.dirIndex = none := Vector.getElem_replicate _
    rw [Env.fresh, hnone, Option.isSome_none, if_neg Bool.false_ne_true]
  obtain ⟨n, f, m, -, hal, -, rfl⟩ := createEnv_ok h
  have hrefs := Machine.refs_alloc hk.balanced.tidy hal
  have hcap := k.machine.capacity_alloc pool pool
  rw [hal] at hcap
  have hsupply : k.supply = 1 + m.supply pool := Machine.supply_of_alloc_some hal
  refine ⟨hsupply, regions_eq_of_room (fun v => (hroom v).trans (if_neg (Finset.notMem_empty _)).symm) (by simp),
    ⟨fun g hg => ?_, fun g _ => Machine.page_alloc hk.balanced.tidy hal g, hcap⟩, rfl⟩
  have hfg : f ≠ g := by
    rintro rfl
    have := Machine.refs_of_alloc hk.balanced.tidy hal
    omega
  exact (hrefs g).trans (by rw [if_neg hfg, Nat.add_zero])

/-! ## Starting a program -/

-- As for the inversions of starting a program: the function is unfolded before it is applied, and what it calls made
-- variables, so that nothing is run on the landmarks of the layout.

/-- **The ways that starting a program can go**, and what the answer is in each. -/
theorem spawn_cases (k : Kernel) (img : Image) :
    img.brk? = none ∧ k.spawn img = (.error .tooLarge, k) ∨
    ∃ brk, img.brk? = some brk ∧
      ((∃ e k₁, k.createEnv none = (.error e, k₁) ∧ k.spawn img = (.error (.env e), k₁)) ∨
      ∃ i k₁, k.createEnv none = (.ok i, k₁) ∧
        ((∃ err k₂, k₁.loadImage i img brk = (.error err, k₂) ∧
          k.spawn img = (.error err, ((k₂.log (.spawnFailed i err)).destroyEnv i).2)) ∨
        ∃ k₂, k₁.loadImage i img brk = (.ok (), k₂) ∧
          k.spawn img =
            (.ok ⟨i, brk⟩, Kernel.log { k₂ with scheduler := k₂.scheduler.enqueue i } (.spawned i img brk)))) := by
  have hF : @spawn = spawn := rfl
  conv at hF => rhs; delta spawn
  have hF := congrFun (congrFun hF k) img
  rw [hF]
  clear hF
  obtain ⟨L, hL⟩ : ∃ L, L = loadImage := ⟨_, rfl⟩
  obtain ⟨B, hB⟩ : ∃ B, B = Image.brk? := ⟨_, rfl⟩
  rw [← hL, ← hB]
  clear hL hB
  cases hb : B img with
  | none => exact Or.inl ⟨rfl, rfl⟩
  | some brk =>
    refine Or.inr ⟨brk, rfl, ?_⟩
    rcases hc : k.createEnv none with ⟨e | i, k₁⟩
    · exact Or.inl ⟨e, k₁, rfl, rfl⟩
    · refine Or.inr ⟨i, k₁, rfl, ?_⟩
      dsimp only
      rcases hl : L k₁ i img brk with ⟨err | u, k₂⟩
      · exact Or.inl ⟨err, k₂, rfl, rfl⟩
      · exact Or.inr ⟨k₂, rfl, rfl⟩

/-- **Half a program leaves nothing behind** but the use of its slot. -/
theorem asBefore_of_loadImage_error (hk : k.Sound []) (hs : k.Scheduled) {brk : Nat} {err : SpawnError}
    (hn : k.envs.firstFree? = some n) (hc : k.createEnv none = (.ok i, k₁)) (hl : k₁.loadImage i img brk = (.error err, k₂))
    (hed : k₁.envs.Edited k₂.envs i) (hkept : k₁.FramesKept k₂) :
    ((k₂.log (.spawnFailed i err)).destroyEnv i).2.envs = k.envs.spend n ∧
      k.AsBefore ((k₂.log (.spawnFailed i err)).destroyEnv i).2 := by
  obtain ⟨hnone, f, henv⟩ := env?_createEnv hk hc
  obtain ⟨-, -, hkept₁, hsch⟩ := createEnv_cost hk hc
  have hrem := Remapped.loadImage_error hl
  obtain ⟨s, he⟩ := hrem.self _ ((henv i).trans (if_pos rfl))
  have hkept₂ := hkept₁.trans hkept
  have hdes := destroyEnv_of_env? (k := k₂.log (.spawnFailed i err)) he
  have hpage (g : Frame) := page_destroyEnv (k := k₂.log (.spawnFailed i err)) (i := i) (f := g)
  have hsound := (((hk.createEnv hc).loadImage hl).log (.spawnFailed i err)).destroyEnv i
  rw [hdes] at hpage hsound ⊢
  have henvs : k₂.envs.remove i = k.envs.spend n := by
    obtain ⟨n', f', m, hn', -, rfl, rfl⟩ := createEnv_ok hc
    cases hn.symm.trans hn'
    exact EnvTable.remove_of_edited (e := .fresh _ none ⟨.empty f'⟩) hk.capacity hn rfl hed
  refine ⟨henvs, .of_spend hk hsound hn henvs ?_ ?_ fun g hg hpos => (hpage g hg).trans (hkept₂.page g hpos)⟩
  · show k₂.scheduler.remove i = k.scheduler
    rw [hrem.scheduler, hsch]
    refine Scheduler.remove_eq_self fun hi => ?_
    obtain ⟨e, he, -⟩ := hs i hi
    rw [hnone] at he
    cases he
  · exact (Machine.capacity_releaseAll _ _ pool).trans hkept₂.capacity

/-- **A program has been started** in an environment of its own: it has the pages of its image and no others, each in a
frame that was free, and is the last in the queue. -/
structure Launched (k k' : Kernel) (i : EnvId) (img : Image) : Prop where
  fresh : k.env? i = none
  ready : ∃ e, k'.env? i = some e ∧ e.status = .runnable ∧ e.regs.sepc = textBase.toUInt64 ∧ e.regs.sp = stackTop.toUInt64
  queued : k'.scheduler = { k.scheduler with queue := k.scheduler.queue ++ [i] }
  mapped (v : VirtAddr) (h : v.pageDown.raw ∈ img.pages) :
    ∃ f, k.OwnPage k' i v (img.permAt v.pageDown.raw) img.byteAt f
  unmapped (v : VirtAddr) (h : v.pageDown.raw ∉ img.pages) : k'.mappings i v = none
  /-- The data begin on a page of their own. -/
  dataStart : img.dataStart = roundUp (textBase + img.text.size)
  /-- There are zeros above the heap, and so on the page of the stack. -/
  blank (a : Nat) (h : img.extent ≤ a) : img.byteAt a = 0
  other (j : EnvId) (h : j ≠ i) : k'.env? j = k.env? j
  kept : k.FramesKept k'

theorem launched_of_loaded {k₃ : Kernel} (hk : k.Sound []) (hs : k.Scheduled) (hx : img.extent ≤ stackPage)
    (hc : k.createEnv none = (.ok i, k₁)) (hl : k₁.Loaded k₃ i img.pages img.permAt img.byteAt)
    (hk₂ : k₂ = k₃.modifyEnv i fun e =>
      { e with regs := { e.regs.setSp stackTop.toUInt64 with sepc := textBase.toUInt64 }, status := .runnable }) :
    k.Launched (Kernel.log { k₂ with scheduler := k₂.scheduler.enqueue i } (.spawned i img img.extent)) i img := by
  obtain ⟨hnone, f, henv⟩ := env?_createEnv hk hc
  obtain ⟨-, -, hkept₁, hsch⟩ := createEnv_cost hk hc
  have hempty := (mappings_createEnv hk hc).2
  obtain ⟨e, he⟩ := hl.live ⟨_, (henv i).trans (if_pos rfl)⟩
  generalize hready : (fun e : Env => { e with
    regs := { e.regs.setSp stackTop.toUInt64 with sepc := textBase.toUInt64 }, status := .runnable }) = ready at hk₂
  have hid (e : Env) : (ready e).id = e.id := by rw [← hready]
  have hspace (e : Env) : (ready e).space = e.space := by rw [← hready]
  subst hk₂
  have hmap (j : EnvId) (v : VirtAddr) : (k₃.modifyEnv i ready).mappings j v = k₃.mappings j v := by
    rw [mappings_modifyEnv hid hspace]
  refine ⟨hnone, ?_, ?_, fun v hv => ?_, fun v hv => ?_, Image.dataStart_eq hx, fun a ha => Image.byteAt_of_extent_le hx ha,
    fun j hj => ?_, hkept₁.trans (hl.kept.trans ?_)⟩
  · refine ⟨ready e, ?_, ?_, ?_, ?_⟩
    · show (k₃.modifyEnv i ready).env? i = some (ready e)
      rw [env?_modifyEnv hid, he, Option.map_some, if_pos rfl]
    all_goals rw [← hready]
    exact Vector.getElem_set_self _
  · have hunheld : ¬ k.scheduler.Holds i := fun hi => by
      obtain ⟨e, he, -⟩ := hs i hi
      rw [hnone] at he
      cases he
    show k₃.scheduler.enqueue i = _
    rw [hl.remapped.scheduler, hsch, Scheduler.enqueue, if_neg fun hi => hunheld hi.symm]
  · obtain ⟨g, hg⟩ := hl.mapped v hv
    refine ⟨g, (hmap i v).trans hg.mapped, ?_, hg.refs, fun j w q hq => hg.sole j w q ((hmap j w).symm.trans hq), hg.bytes⟩
    by_contra hpos
    have := hkept₁.refs g (Nat.pos_of_ne_zero hpos)
    have := hg.free
    omega
  · exact (hmap i v).trans ((hl.unmapped v hv).trans (hempty v))
  · exact (env?_modifyEnv_of_ne hid hj.symm).trans ((hl.remapped.other j hj).trans ((henv j).trans (if_neg hj.symm)))
  · exact ⟨fun _ _ => rfl, fun _ _ => rfl, rfl⟩

/-- Nothing limits the frames that are handed out but that they are all in use. -/
def Unlimited (k : Kernel) : Prop := ∀ p, k.machine.pools[pool]? = some p → p.budget = none

theorem Unlimited.supply (h : k.Unlimited) : k.supply = k.freeFrames := by
  rw [Kernel.supply, freeFrames, Machine.supply, Machine.freeCount]
  cases hp : k.machine.pools[pool]? with
  | none => rfl
  | some p => rw [Option.map_some, Option.map_some, Pool.supply, h p hp, Pool.freeCount]

/-- **How starting a program ends**, and on what that depends. -/
inductive SpawnOutcome (k : Kernel) (img : Image) : Except SpawnError Spawned → Kernel → Prop
  | tooLarge (size : stackPage < img.extent) : SpawnOutcome k img (.error .tooLarge) k
  | noSlot {k' : Kernel} (size : img.extent ≤ stackPage) (slot : k.envs.firstFree? = none) (envs : k'.envs = k.envs)
      (same : k.AsBefore k') : SpawnOutcome k img (.error (.env .noFreeEnv)) k'
  | noDirectory {k' : Kernel} {n : Nat} (size : img.extent ≤ stackPage) (slot : k.envs.firstFree? = some n)
      (frames : k.freeFrames = 0) (envs : k'.envs = k.envs) (same : k.AsBefore k') :
      SpawnOutcome k img (.error (.env .noMemory)) k'
  /-- The slot had been taken already, and is spent. -/
  | noRoom {k' : Kernel} {n : Nat} (size : img.extent ≤ stackPage) (slot : k.envs.firstFree? = some n)
      (one : 1 ≤ k.freeFrames) (frames : k.freeFrames < img.cost) (envs : k'.envs = k.envs.spend n)
      (same : k.AsBefore k') : SpawnOutcome k img (.error .noMemory) k'
  | launched {k' : Kernel} {n : Nat} (size : img.extent ≤ stackPage) (slot : k.envs.firstFree? = some n)
      (frames : img.cost ≤ k.freeFrames) (launched : k.Launched k' (.ofParts (k.envs.nextGeneration n) n) img) :
      SpawnOutcome k img (.ok ⟨.ofParts (k.envs.nextGeneration n) n, img.extent⟩) k'

/-- **A program is started just when it is not too large and there are a slot and frames enough.** -/
theorem SpawnOutcome.isOk_iff {r : Except SpawnError Spawned} (h : k.SpawnOutcome img r k') :
    (∃ s, r = .ok s) ↔ img.extent ≤ stackPage ∧ k.envs.firstFree?.isSome ∧ img.cost ≤ k.freeFrames := by
  cases h with
  | tooLarge size => exact iff_of_false (by rintro ⟨s, ⟨⟩⟩) fun h => Nat.not_le_of_lt size h.1
  | noSlot _ slot => exact iff_of_false (by rintro ⟨s, ⟨⟩⟩) fun h => by rw [slot] at h; exact Bool.false_ne_true h.2.1
  | noDirectory _ _ frames =>
    refine iff_of_false (by rintro ⟨s, ⟨⟩⟩) fun h => ?_
    have := h.2.2
    rw [Image.cost] at this
    omega
  | noRoom _ _ _ frames => exact iff_of_false (by rintro ⟨s, ⟨⟩⟩) fun h => Nat.not_le_of_lt frames h.2.2
  | launched size slot frames => exact iff_of_true ⟨_, rfl⟩ ⟨size, by rw [slot]; rfl, frames⟩

/-- **Starting a program, exactly.** -/
theorem spawn_exact (hk : k.Reachable) (hu : k.Unlimited) (img : Image) :
    k.SpawnOutcome img (k.spawn img).1 (k.spawn img).2 ∧
      ((∃ s, (k.spawn img).1 = .ok s) ↔
        img.extent ≤ stackPage ∧ k.envs.firstFree?.isSome ∧ img.cost ≤ k.freeFrames) := by
  have hout : k.SpawnOutcome img (k.spawn img).1 (k.spawn img).2 := by
    have hs := hk.sound
    have hsupply := hu.supply
    have hb := img.brk?_eq
    rcases k.spawn_cases img with ⟨hnone, hsp⟩ | ⟨brk, hbrk, hcases⟩
    · rw [hsp]
      refine .tooLarge (Nat.lt_of_not_le fun hx => ?_)
      rw [if_pos hx, hnone] at hb
      cases hb
    have hx : img.extent ≤ stackPage := by
      by_contra hx
      rw [if_neg hx, hbrk] at hb
      cases hb
    rw [if_pos hx, hbrk] at hb
    cases hb
    rcases hcases with ⟨e, k₁, hc, hsp⟩ | ⟨i, k₁, hc, hcases⟩
    · have hbare := bare_createEnv_error hc
      rw [hsp]
      rcases k.createEnv_outcome none with ⟨hn, k₂, hc'⟩ | ⟨n, hn, ⟨h0, k₂, hc'⟩ | ⟨h1, k₂, hc'⟩⟩ <;>
        cases hc.symm.trans hc'
      · exact .noSlot hx hn (envs_of_bare hbare) (.of_bare hbare)
      · exact .noDirectory hx hn (hsupply.symm.trans h0) (envs_of_bare hbare) (.of_bare hbare)
    · obtain ⟨n, -, -, hn, -, hi, -⟩ := createEnv_ok hc
      obtain ⟨hcost, hregions, -, -⟩ := createEnv_cost hs hc
      obtain ⟨-, f, henv⟩ := env?_createEnv hs hc
      have hneed : 1 + need (k₁.regions i) img.pages = img.cost := by
        rw [hregions, need, Finset.sdiff_empty, Image.cost, Nat.add_assoc]
      have load {r : Except SpawnError Unit} {k₂ : Kernel} (h : k₁.loadImage i img img.extent = (r, k₂)) :=
        loadImage_outcome (hs.createEnv hc) ⟨_, (henv i).trans (if_pos rfl)⟩ (mappings_createEnv hs hc).2 hx h
      rcases hcases with ⟨err, k₂, hl, hsp⟩ | ⟨k₂, hl, hsp⟩ <;> rw [hsp] <;> obtain ⟨k₃, hload, hend⟩ := load hl
      · cases hload with
        | short hlt _ hed hkept =>
          obtain ⟨⟨⟩, -⟩ | ⟨-, rfl⟩ := hend
          obtain ⟨henvs, hsame⟩ := asBefore_of_loadImage_error hs hk.scheduled hn hc hl hed hkept
          exact .noRoom hx hn (by omega) (by omega) henvs hsame
      · cases hload with
        | loaded heq _ hloaded =>
          obtain ⟨-, hk₂⟩ | ⟨⟨_, ⟨⟩⟩, -⟩ := hend
          subst hi
          exact .launched hx hn (by omega) (launched_of_loaded hs hk.scheduled hx hc hloaded hk₂)
  exact ⟨hout, hout.isOk_iff⟩

/-- A program of three pages and a stack, for instance, is started with seven frames and not with six. -/
theorem spawn_exact_of_seven : ∃ (img : Image) (k k' : Kernel), img.pages = [0x800000, 0x801000, 0x802000, 0xEEBFD000] ∧
    img.cost = 7 ∧ boot ⟨7, 1⟩ = .ok k ∧ k.Unlimited ∧ k.SpawnOutcome img (k.spawn img).1 (k.spawn img).2 ∧
    (∃ s, (k.spawn img).1 = .ok s) ∧ boot ⟨6, 1⟩ = .ok k' ∧ k'.Unlimited ∧
    k'.SpawnOutcome img (k'.spawn img).1 (k'.spawn img).2 ∧ ¬ ∃ s, (k'.spawn img).1 = .ok s := by
  have hboot (c : Config) (hc : c.validate = .ok ()) : boot c = .ok ((ofConfig c).log (.booted c)) := by
    rw [boot, hc]
  have hunlimited (c : Config) : ((ofConfig c).log (.booted c)).Unlimited := fun p hp => by
    cases hp
    rfl
  generalize himg : ({ text := #[0x13], data := #[5], bss := 4096 } : Image) = img
  have hpages : img.pages = [0x800000, 0x801000, 0x802000, 0xEEBFD000] := by
    subst himg
    decide +kernel
  have hcost : img.cost = 7 := by
    rw [Image.cost, hpages]
    decide
  have hsize : img.extent ≤ stackPage := by
    subst himg
    decide +kernel
  obtain ⟨hout, hiff⟩ := spawn_exact (.boot (hboot ⟨7, 1⟩ rfl)) (hunlimited ⟨7, 1⟩) img
  obtain ⟨hout', hiff'⟩ := spawn_exact (.boot (hboot ⟨6, 1⟩ rfl)) (hunlimited ⟨6, 1⟩) img
  refine ⟨img, _, _, hpages, hcost, hboot ⟨7, 1⟩ rfl, hunlimited _, hout, hiff.2 ⟨hsize, by decide +kernel, ?_⟩,
    hboot ⟨6, 1⟩ rfl, hunlimited _, hout', fun h => ?_⟩
  · rw [hcost]
    exact Nat.le_refl 7
  · have hlt := (hiff'.1 h).2.2
    rw [hcost] at hlt
    exact absurd hlt (Nat.not_succ_le_self 6)

end Kernel
end Exokernel
