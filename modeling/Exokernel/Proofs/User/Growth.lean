import Exokernel.Proofs.Kernel.Launch
import Exokernel.Proofs.User.ForkedSpace
/-!
# How far a heap grows

A program grows its heap page by page and moves its end when all pages are there.  Main statement
(`UserProcess.sbrk_grows`): either they all are, or memory ran out at one of them; then the pages before that one stay
mapped above the end of the heap (`UserProcess.sbrk_keeps_part`), and nothing else has changed.
-/
namespace Exokernel

namespace Kernel

variable {k k' k₁ : Kernel} {i j : EnvId} {sp : Word} {v : VirtAddr} {g : Frame} {A B : List Nat} {a : Nat}

theorem freeFrames_of_bare (h : k'.machine.bare = k.machine.bare) : k'.freeFrames = k.freeFrames := by
  have hbare (m : Machine) : m.bare.freeCount pool = m.freeCount pool := by
    simp only [Machine.freeCount, Machine.pool_bare, Option.map_map]
    rfl
  rw [freeFrames, freeFrames, ← hbare, h, hbare]

/-- **What a new page costs**: its frame, and one for a page-table page if its region has none. -/
theorem cost_of_mapInto {k₂ : Kernel} {e : Env} {f : Frame} {p : Perm} (hk : k.Sound []) (he : k.env? e.id = some e)
    (hf : k.allocFrame = (some f, k₁)) (hm : k₁.mapInto e f v p = (.ok (), k₂)) :
    k₂.regions e.id = insert (regionAt v.raw) (k.regions e.id) ∧ (k.mappings e.id v = none →
      k.freeFrames = 1 + (if regionAt v.raw ∈ k.regions e.id then 0 else 1) + (k₂.releaseFrame f).freeFrames) := by
  have hk₁ := hk.allocFrame hf
  have he₁ : k₁.env? e.id = some e := by rw [env?_allocFrame hf, he]
  obtain ⟨m, hal, rfl⟩ := allocFrame_some hf
  have hregions : Kernel.regions { k with machine := m } e.id = k.regions e.id := regions_congr (room_congr rfl e.id)
  refine ⟨by rw [regions_mapInto he₁ hm, hregions], fun hl => ?_⟩
  -- the frame is held in hand and by its entry, so that letting it go does not free it
  have hpos := hk₁.refs_pos (List.mem_append_right _ List.mem_cons_self)
  have hone : m.refs f = 1 := by
    rw [Machine.refs_alloc hk.balanced.tidy hal, Machine.refs_of_alloc hk.balanced.tidy hal, if_pos rfl]
  have htwo : k₂.machine.refs f = m.refs f + holdsOf (some ⟨f, p⟩) f :=
    hk₁.refs_mapInto_unmapped he₁ hl hpos hm hpos
  rw [holdsOf_some, if_pos rfl, hone] at htwo
  have halloc : k.freeFrames = 1 + m.freeCount pool := Machine.Stock.freeCount.alloc hal
  have hmap : m.freeCount pool = _ + k₂.freeFrames := stock_mapInto .freeCount he₁ hl hm
  have hrel : (k₂.releaseFrame f).freeFrames = k₂.freeFrames := Machine.Stock.freeCount.release (by omega)
  rw [hregions] at hmap
  omega

theorem cost_of_pageAlloc {va w : Word} {p : Perm} (hk : k.Sound []) (hv : VirtAddr.pageOfNat? va.toNat = some v)
    (h : k.call i (.pageAlloc .self va p) = (.ok w, k')) :
    k'.regions i = insert (regionAt v.raw) (k.regions i) ∧ (k.mappings i v = none →
      k.freeFrames = 1 + (if regionAt v.raw ∈ k.regions i then 0 else 1) + k'.freeFrames) := by
  obtain ⟨e, ret, k₁, he, heff, -, rfl⟩ := effect_of_call_ok hk rfl h
  generalize hr : e.regs.called (Call.pageAlloc .self va p).service.number.toUInt64 (Call.pageAlloc .self va p).args = r
    at heff
  have hargs {n : Nat} (hn : n < 5) : (argsOf r).word n = (Call.pageAlloc .self va p).args[n] := by
    rw [← hr, word_argsOf_called _ _ _ hn]
  have hbefore := Inert.setRegisters k i r
  have hafter := Inert.of_modifyEnv (k := k₁) (i := i) (g := fun e => { e with regs := e.regs.setA0 ret }) (fun _ => rfl)
    fun _ => rfl
  rw [← regions_congr (hbefore.room i), ← hbefore.mappings, regions_congr (hafter.room i)]
  cases heff with
  | @allocated te v' q f k₂ k₃ ha hf hm =>
    obtain ⟨hv', -, ht⟩ := Syscall.pageAllocArgs_ok ha
    have hte := (Syscall.authorizeWord_ok ht).1
    rw [hargs (by decide)] at ht hv'
    obtain rfl : v = v' := Option.some.inj (hv.symm.trans (Syscall.pageOfNat?_of_decodePage hv'))
    obtain rfl : te.id = i := Syscall.id_of_authorizeWord ht
    obtain ⟨hregions, hcost⟩ := cost_of_mapInto (hk.setRegisters te.id r) hte hf hm
    rw [← hregions]
    exact ⟨rfl, hcost⟩

/-- **Some pages of one program are new**: each is blank, writable and in a frame that nobody else has.  Every other page, of
whatever program, has the entry and the bytes that it had, and its frame to itself if it had that.  Where nothing was mapped
before they have taken a frame each, and one for each region that had no page-table page. -/
structure Grown (k k' : Kernel) (i : EnvId) (pages : List Nat) : Prop where
  sound : k'.Sound []
  fresh (v : VirtAddr) (h : v.pageDown.raw ∈ pages) : ∃ g, k'.Private i v g ∧ k'.machine.page g = Page.zero
  retains (j : EnvId) (v : VirtAddr) (h : ¬ (j = i ∧ v.pageDown.raw ∈ pages)) : k.Retains k' j v
  kept (j : EnvId) (v : VirtAddr) (g : Frame) (h : ¬ (j = i ∧ v.pageDown.raw ∈ pages)) (hp : k.Private j v g) :
    k'.Private j v g
  cost (hn : pages.Nodup) (hm : ∀ v : VirtAddr, v.pageDown.raw ∈ pages → k.mappings i v = none) :
    k.freeFrames = need (k.regions i) pages + k'.freeFrames

namespace Grown

theorem of_quiet (hk : k'.Sound []) (h : k.Quiet k') (i : EnvId) : k.Grown k' i [] :=
  ⟨hk, fun _ hv => (List.not_mem_nil hv).elim, fun j v _ => h.retains j v, fun _ _ _ _ hp => hp.quiet h,
    fun _ _ => by rw [need_nil, Nat.zero_add, freeFrames_of_bare h.machine]⟩

/-- What is added later leaves alone what has been added before. -/
theorem trans (h : k.Grown k₁ i A) (hR : k₁.regions i = k.regions i ∪ regionsOf A) (h' : k₁.Grown k' i B) :
    k.Grown k' i (A ++ B) where
  sound := h'.sound
  fresh v hv := by
    by_cases hB : v.pageDown.raw ∈ B
    · exact h'.fresh v hB
    · obtain ⟨g, hp, hz⟩ := h.fresh v ((List.mem_append.1 hv).resolve_right hB)
      have hn : ¬ (i = i ∧ v.pageDown.raw ∈ B) := fun hi => hB hi.2
      exact ⟨g, h'.kept i v g hn hp, ((h'.retains i v hn).2 _ hp.mapped).trans hz⟩
  retains j v hn :=
    (h.retains j v fun hA => hn ⟨hA.1, List.mem_append_left B hA.2⟩).trans
      (h'.retains j v fun hB => hn ⟨hB.1, List.mem_append_right A hB.2⟩)
  kept j v g hn hp :=
    h'.kept j v g (fun hB => hn ⟨hB.1, List.mem_append_right A hB.2⟩)
      (h.kept j v g (fun hA => hn ⟨hA.1, List.mem_append_left B hA.2⟩) hp)
  cost hn hm := by
    obtain ⟨hA, hB, hd⟩ := List.nodup_append.1 hn
    have hm₁ (v : VirtAddr) (hv : v.pageDown.raw ∈ B) : k₁.mappings i v = none :=
      (h.retains i v fun hi => hd _ hi.2 _ hv rfl).1.trans (hm v (List.mem_append_right A hv))
    rw [h.cost hA fun v hv => hm v (List.mem_append_left B hv), h'.cost hB hm₁, need_append, hR, Nat.add_assoc]

/-- **A page that is allocated is new.** -/
theorem of_pageAlloc {w : Word} (hk : k.Sound []) (hr : k.Runs i sp) (hv : VirtAddr.pageOfNat? a.toUInt64.toNat = some v)
    (ha : a.toUInt64.toNat = a) (h : k.call i (.pageAlloc .self a.toUInt64 .userWritable) = (.ok w, k')) :
    k.Grown k' i [a] ∧ k'.regions i = k.regions i ∪ regionsOf [a] ∧ k'.Runs i sp := by
  have hcost := cost_of_pageAlloc hk hv h
  rw [(VirtAddr.pageOfNat?_eq_some_iff.1 hv).1, ha] at hcost
  obtain ⟨g, hp, hz, hm, hkept⟩ := private_of_pageAlloc hk hr hv h
  have hk' := sound_of_call hk h
  have hraw : v.pageDown.raw = a := (VirtAddr.raw_pageDown hv).trans ha
  have hiff (w : VirtAddr) : w.pageDown.raw ∈ [a] ↔ v.pageDown = w.pageDown := by
    rw [List.mem_singleton, ← hraw]
    exact ⟨fun hw => (VirtAddr.eq_of_raw hw).symm, fun hw => congrArg VirtAddr.raw hw.symm⟩
  have hne {j : EnvId} {w : VirtAddr} (hn : ¬ (j = i ∧ w.pageDown.raw ∈ [a])) :
      ¬ (EnvId.self.meant i = j ∧ v.pageDown = w.pageDown) := fun hw => hn ⟨hw.1.symm, (hiff w).2 hw.2⟩
  refine ⟨⟨hk', fun w hw => ⟨g, hp.congr_page ((hiff w).1 hw), hz⟩, fun j w hn => hm.retains hk' (hne hn),
    fun j w f hn hf => hkept j w f hf (hne hn), fun _ hl => ?_⟩, ?_, hm.runs hr⟩
  · rw [need_cons, need_nil, Nat.add_zero]
    exact hcost.2 (hl v (List.mem_singleton.2 hraw))
  · rw [hcost.1, regionsOf_cons, regionsOf_nil, Finset.insert_eq, Finset.union_comm, LawfulSingleton.insert_empty_eq]

end Grown
end Kernel

namespace UserProcess

open Kernel

variable {p : UserProcess} {k k' : Kernel} {sp increment : Word} {pages : List Nat} {r : Except Errno Unit}

/-- **How the allocation of pages ends**: they are all new, or those before one are for which there was no frame left. -/
inductive Allocated (p : UserProcess) (k : Kernel) (pages : List Nat) : Except Errno Unit → Kernel → Prop
  | all {k' : Kernel} (grown : k.Grown k' p.env pages) : Allocated p k pages (.ok ()) k'
  | short {k₁ k' : Kernel} {n a : Nat} (page : pages[n]? = some a) (grown : k.Grown k' p.env (pages.take n))
      (quiet : k₁.Quiet k') (lack : k₁.supply < 1 + k₁.room p.env a)
      (unchanged : n = 0 → k'.machine.bare = k.machine.bare) : Allocated p k pages (.error .noMem) k'

theorem allocPages_outcome (hk : k.Sound []) (hr : k.Runs p.env sp)
    (hp : ∀ a ∈ pages, a.toUInt64.toNat = a ∧ ∃ v, VirtAddr.pageOfNat? a = some v)
    (h : p.allocPages k pages = (r, k')) : p.Allocated k pages r k' := by
  induction pages generalizing k with
  | nil =>
    cases h
    exact .all (.of_quiet hk (.refl _) p.env)
  | cons a rest ih =>
    obtain ⟨ha, v, hv⟩ := hp a List.mem_cons_self
    rw [← ha] at hv
    have hlive : k.env? p.env ≠ none := by
      obtain ⟨e, he, -, -⟩ := hr
      rw [he]
      exact Option.some_ne_none e
    have hres := result_pageAlloc_self hk hlive hv
    unfold allocPages at h
    rcases hc : k.call p.env (.pageAlloc .self a.toUInt64 .userWritable) with ⟨err | w, k₁⟩ <;> rw [hc] at h hres <;>
      dsimp only at h hres
    · -- the first page cannot be had
      rw [ha] at hres
      split at hres
      · cases hres
      next hlack =>
        cases hres
        cases h
        rcases call_pageAlloc hk hr hc with ⟨-, hq⟩ | ⟨hok, -⟩
        · have hnone := Grown.of_quiet (sound_of_call hk hc) hq p.env
          exact .short (n := 0) rfl hnone hq (Nat.lt_of_not_le hlack) fun _ => hq.machine
        · cases hok
    · obtain ⟨hgrown, hR, hr₁⟩ := Grown.of_pageAlloc hk hr hv ha hc
      cases ih hgrown.sound hr₁ (fun x hx => hp x (List.mem_cons_of_mem _ hx)) h with
      | all hrest => exact .all (hgrown.trans hR hrest)
      | @short _ _ n a' hpage hrest hq hlack =>
        exact .short (n := n + 1) hpage (hgrown.trans hR hrest) hq hlack fun hn => absurd hn (Nat.succ_ne_zero n)

/-- The end of the heap after growing it, in unbounded arithmetic. -/
def newBrk (p : UserProcess) (increment : Word) : Nat := roundUp (p.runtime.brk.toNat + increment.toNat)

theorem grownBrk?_eq (p : UserProcess) (increment : Word) :
    p.grownBrk? increment = if p.newBrk increment ≤ stackPage then some (p.newBrk increment) else none := by
  unfold grownBrk?
  dsimp only
  by_cases h : p.newBrk increment ≤ stackPage
  · rw [if_pos (roundUp_le_stackPage.1 h), if_pos h, pageUp_eq_roundUp h]
    rfl
  · rw [if_neg fun hs => h (roundUp_le_stackPage.2 hs), if_neg h]

/-- **How growing a heap ends.** -/
inductive Growth (p : UserProcess) (k : Kernel) (increment : Word) : Except Errno Word × UserProcess × Kernel → Prop
  | tooFar (size : stackPage < p.newBrk increment) : Growth p k increment (.error .noMem, p, k)
  /-- There was no frame for a page, or for its page-table page: those before it are new, and the end of the heap is where it
  was.  If it was the first, the machine is as it was. -/
  | short {k₁ k' : Kernel} {n a : Nat} (size : p.newBrk increment ≤ stackPage)
      (page : (pageSteps p.runtime.brk.toNat (p.newBrk increment))[n]? = some a)
      (grown : k.Grown k' p.env ((pageSteps p.runtime.brk.toNat (p.newBrk increment)).take n))
      (quiet : k₁.Quiet k') (lack : k₁.supply < 1 + k₁.room p.env a)
      (unchanged : n = 0 → k'.machine.bare = k.machine.bare) : Growth p k increment (.error .noMem, p, k')
  | full {k' : Kernel} (size : p.newBrk increment ≤ stackPage)
      (grown : k.Grown k' p.env (pageSteps p.runtime.brk.toNat (p.newBrk increment))) :
      Growth p k increment
        (.ok p.runtime.brk, ⟨p.env, { p.runtime with brk := (p.newBrk increment).toUInt64 }⟩, k')

/-- **A heap grows by all pages, or by those before the first that cannot be had**, and its end is moved only if it is by
all. -/
theorem sbrk_grows (hk : k.Reachable) (hr : ∃ e, k.env? p.env = some e ∧ e.status.isRunnable)
    (ha : p.runtime.brk.toNat % pageSize = 0) (increment : Word) : p.Growth k increment (p.sbrk k increment) := by
  obtain ⟨e, he, hrun⟩ := hr
  have hr : k.Runs p.env e.regs.sp := ⟨e, he, hrun, rfl⟩
  unfold sbrk
  rw [grownBrk?_eq]
  by_cases hx : p.newBrk increment ≤ stackPage
  · obtain ⟨k₁, hdis, hq⟩ := hr.dispatch
    have hk₁ := hk.sound.dispatch hdis
    have hen : p.enter k = (.ok (), k₁) := by rw [enter, hdis]
    have hpages (a : Nat) (hmem : a ∈ pageSteps p.runtime.brk.toNat (p.newBrk increment)) :
        a.toUInt64.toNat = a ∧ ∃ v, VirtAddr.pageOfNat? a = some v := by
      have hlt := (bounds_of_mem_pageSteps hmem).2
      have hle : a ≤ stackPage := Nat.le_trans (Nat.le_of_lt hlt) hx
      obtain ⟨n, rfl, -⟩ := mem_pageSteps.1 hmem
      have hlow : stackPage < userTop := by decide
      exact ⟨toNat_toUInt64_of_le_stackPage hle, ⟨_, by omega⟩,
        VirtAddr.pageOfNat?_eq_some_iff.2 ⟨rfl, by rw [Nat.add_mul_mod_self_left, ha]⟩⟩
    rw [if_pos hx, hen]
    dsimp only
    have hR : k₁.regions p.env = k.regions p.env ∪ regionsOf [] := by
      rw [regions_congr ((Inert.dispatch hdis).room p.env), regionsOf_nil, Finset.union_empty]
    have hgrown₀ := Grown.of_quiet hk₁ hq p.env
    rcases hal : p.allocPages k₁ (pageSteps p.runtime.brk.toNat (p.newBrk increment)) with ⟨r, k₂⟩
    cases allocPages_outcome hk₁ (hq.runs hr) hpages hal with
    | all hgrown => exact .full hx (hgrown₀.trans hR hgrown)
    | short hpage hgrown hquiet hlack hsame =>
      exact .short hx hpage (hgrown₀.trans hR hgrown) hquiet hlack fun hn => (hsame hn).trans hq.machine
  · rw [if_neg hx]
    exact .tooFar (Nat.lt_of_not_le hx)

/-- With one frame left, a heap grows by one byte, and by a page and a byte it does not. -/
theorem sbrk_grows_of_one_frame : ∃ (k : Kernel) (p : UserProcess), k.Reachable ∧
    (∃ e, k.env? p.env = some e ∧ e.status.isRunnable) ∧ p.runtime.brk.toNat = 0x801000 ∧ k.freeFrames = 1 ∧
    p.Growth k 1 (p.sbrk k 1) ∧ (p.sbrk k 1).1.toOption = some 0x801000 ∧
    p.Growth k 4097 (p.sbrk k 4097) ∧ (p.sbrk k 4097).1.toOption = none := by
  let k : Kernel := ((ofConfig ⟨6, 1⟩).log (.booted ⟨6, 1⟩)).step (.spawn { text := #[0x13] })
  let p : UserProcess := .ofEnv ⟨4096⟩ 0x801000
  have hk : k.Reachable := .step (.boot (c := ⟨6, 1⟩) rfl) _
  have hrun : (k.env? p.env).any (·.status.isRunnable) = true := by decide +kernel
  have hr : ∃ e, k.env? p.env = some e ∧ e.status.isRunnable :=
    (Option.any_eq_true _ _).1 hrun
  exact ⟨k, p, hk, hr, by decide, by decide +kernel, sbrk_grows hk hr (by decide) 1, by decide +kernel,
    sbrk_grows hk hr (by decide) 4097, by decide +kernel⟩

/-- **A heap that could not grow may have grown**: the call fails and the end of the heap stays, but the page above it has
been mapped, in the last free frame. -/
theorem sbrk_keeps_part : ∃ (k k' : Kernel) (p p' : UserProcess) (v : VirtAddr) (err : Errno), k.Reachable ∧
    (∃ e, k.env? p.env = some e ∧ e.status.isRunnable) ∧ p.runtime.brk.toNat % pageSize = 0 ∧
    p.sbrk k 4097 = (.error err, p', k') ∧ p'.runtime.brk = p.runtime.brk ∧ v.raw = p.runtime.brk.toNat ∧
    k.mappings p.env v = none ∧ k'.mappings p.env v ≠ none ∧ k.freeFrames = 1 ∧ k'.freeFrames = 0 := by
  let k : Kernel := ((ofConfig ⟨6, 1⟩).log (.booted ⟨6, 1⟩)).step (.spawn { text := #[0x13] })
  let p : UserProcess := .ofEnv ⟨4096⟩ 0x801000
  let v : VirtAddr := ⟨0x801000, by decide⟩
  have hk : k.Reachable := .step (.boot (c := ⟨6, 1⟩) rfl) _
  have hrun : (k.env? p.env).any (·.status.isRunnable) = true := by decide +kernel
  have hbefore : (k.mappings p.env v).isSome = false := by decide +kernel
  have hafter : ((p.sbrk k 4097).2.2.mappings p.env v).isSome = true := by decide +kernel
  have hfailed : (p.sbrk k 4097).1.toOption = none := by decide +kernel
  have hbrk : (p.sbrk k 4097).2.1.runtime.brk = p.runtime.brk := by decide +kernel
  have hfree : k.freeFrames = 1 ∧ (p.sbrk k 4097).2.2.freeFrames = 0 := by decide +kernel
  generalize hx : p.sbrk k 4097 = x at hafter hfailed hbrk hfree
  obtain ⟨err | w, p', k'⟩ := x
  swap
  · cases hfailed
  refine ⟨k, k', p, p', v, err, hk, (Option.any_eq_true _ _).1 hrun, by decide, hx, hbrk, by decide, ?_, fun hnone => ?_,
    hfree.1, hfree.2⟩
  · rw [← Option.not_isSome_iff_eq_none, hbefore]
    exact Bool.false_ne_true
  · rw [hnone] at hafter
    cases hafter

end UserProcess
end Exokernel
