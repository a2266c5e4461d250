import Exokernel.Proofs.User.Isolation
import Exokernel.Proofs.User.Ledger
/-!
# The copy of a page

Whatever a program shares and with whom, a page that it copies by way of its scratch page lies in a fresh frame afterwards,
with the bytes that it had, and the scratch page is unmapped.  Nothing else that is mapped has changed (`Copied`).
-/
namespace Exokernel

theorem Pte.allows_userWritable (f : Frame) (a : AccessKind) : Pte.allows ⟨f, .userWritable⟩ a := by
  have h : Perm.userWritable.contains .present ∧ Perm.userWritable.contains .user ∧
      Perm.userWritable.contains .writable := by decide
  simp only [Pte.allows, h.1, h.2.1, h.2.2, Bool.or_true, Bool.and_self]

namespace Machine

theorem page_eq_of_byte {m m' : Machine} {f g : Frame} (h : ∀ o < pageSize, m'.byte (g, o) = m.byte (f, o)) :
    m'.page g = m.page f := by
  refine Vector.ext fun o ho => ?_
  have hb := h o ho
  simp only [byte, Vector.getElem?_eq_getElem ho] at hb
  exact Option.some.inj hb

/-- A frame that is in nobody's use is blank. -/
theorem Tidy.page_of_refs {m : Machine} {f : Frame} (hm : m.Tidy) (h : m.refs f = 0) : m.page f = Page.zero := by
  unfold Machine.refs at h
  unfold Machine.page
  cases hp : m.pools[f.pool]? with
  | none => rfl
  | some p =>
    rw [hp] at h
    by_cases hf : f.number < p.capacity
    · exact (hm.pool _ p hp).blank _ (((hm.pool _ p hp).mem_free _).2 ⟨hf, h⟩)
    · have hnone : p.slots[f.number]? = none := Array.getElem?_eq_none (Nat.le_of_not_lt hf)
      simp only [Option.map_some, Option.getD_some, Pool.page, hnone, Option.map_none, Option.getD_none]

end Machine

namespace Mappings

variable {M : Mappings} {i t j : EnvId} {x v u : VirtAddr} {f : Frame} {o o' : Option Pte}

theorem put_of_ne (h : ¬ (t = j ∧ v.pageDown = u.pageDown)) : M.put t v o j u = M j u := if_neg h

/-- What is put in two places can be put there in either order. -/
theorem put_comm (h : ¬ (i = t ∧ x.pageDown = v.pageDown)) : (M.put i x o).put t v o' = (M.put t v o').put i x o := by
  funext j u
  simp only [put]
  split
  next ht =>
    split
    next hi => exact absurd ⟨hi.1.trans ht.1.symm, hi.2.trans ht.2.symm⟩ h
    next => rfl
  next => rfl

theorem put_put : (M.put i x o).put i x o' = M.put i x o' := by
  funext j u
  simp only [put]
  split <;> rfl

theorem put_eq_self (h : M i x = o) (hc : ∀ {x u : VirtAddr}, x.pageDown = u.pageDown → M i x = M i u) :
    M.put i x o = M := by
  funext j u
  rw [put]
  split
  next hu => rw [← h, hc hu.2, hu.1]
  next => rfl

end Mappings

namespace Kernel

variable {k k' : Kernel} {i t : EnvId} {sp w va s : Word} {x v : VirtAddr} {old q : Pte} {f g : Frame} {bytes : Bytes}

/-! ## Whole pages -/

theorem entryAt_of_mappings (hv : VirtAddr.pageOfNat? va.toNat = some v) (hq : k.mappings i v = some q) {a : Nat}
    (ha : pageDown a = va.toNat) : k.mappings.entryAt i a = some q := by
  rw [← hq]
  refine entryAt_of_pageOfNat? hv ?_
  exact ha

theorem live_of_mappings (hq : k.mappings i v = some q) : ∃ e, k.env? i = some e := by
  obtain ⟨e, he, -⟩ := Option.bind_eq_some_iff.1 hq
  exact ⟨e, he⟩

/-- **A page that may be read is loaded as it is.** -/
theorem load_page (hv : VirtAddr.pageOfNat? va.toNat = some v) (hq : k.mappings i v = some q) (hal : q.allows .read) :
    ∃ bytes, k.load i va pageSize = (.ok bytes, k) ∧ bytes.size = pageSize ∧
      ∀ o < pageSize, bytes[o]? = k.machine.byte (q.frame, o) := by
  obtain ⟨e, he⟩ := live_of_mappings hq
  have hal' := (VirtAddr.pageOfNat?_eq_some_iff.1 hv).2
  have hentry (o : Nat) (ho : o < pageSize) : e.space.entryAt (va.toNat + o) = some q ∧ pageOffset (va.toNat + o) = o := by
    simp only [pageSize] at ho hal'
    refine ⟨?_, by simp only [pageOffset, pageSize]; omega⟩
    rw [← entryAt_of_env? he]
    exact entryAt_of_mappings hv hq (by simp only [pageDown, pageSize]; omega)
  have hcheck : e.space.check va.toNat pageSize .read = .ok () := by
    refine AddressSpace.check_of_allows fun a ha hl => ?_
    have h := (hentry (a - va.toNat) (by omega)).1
    rw [Nat.add_sub_cancel' ha] at h
    exact ⟨q, h, hal⟩
  obtain ⟨bytes, hb⟩ : ∃ bytes, e.space.read k.machine va.toNat pageSize = .ok bytes := by
    rw [AddressSpace.read, hcheck]
    exact ⟨_, rfl⟩
  obtain ⟨hsize, hget⟩ := AddressSpace.getElem?_of_read hb
  refine ⟨bytes, ?_, hsize, fun o ho => ?_⟩
  · unfold Kernel.load
    rw [he]
    dsimp only
    rw [hb]
  · obtain ⟨hen, hoff⟩ := hentry o ho
    rw [hget o ho, AddressSpace.byte?_eq hen, hoff]
    rfl

/-- **A page that may be written is stored whole**, into its frame and no other. -/
theorem store_page (hk : k.Sound []) (hs : VirtAddr.pageOfNat? s.toNat = some x) (hq : k.mappings i x = some q)
    (hal : q.allows .write) (hsize : bytes.size = pageSize) :
    ∃ m, k.store i s bytes = (.ok (), { k with machine := m }) ∧ Kernel.Sound { k with machine := m } [] ∧
      (∀ o < pageSize, m.byte (q.frame, o) = bytes[o]?) ∧ (∀ g, g ≠ q.frame → m.page g = k.machine.page g) ∧
      (∀ g, m.refs g = k.machine.refs g) ∧ m.capacity pool = k.machine.capacity pool := by
  obtain ⟨e, he⟩ := live_of_mappings hq
  have hal' := (VirtAddr.pageOfNat?_eq_some_iff.1 hs).2
  have hentry (a : Nat) (ha : s.toNat ≤ a) (hl : a < s.toNat + bytes.size) : e.space.entryAt a = some q := by
    rw [← entryAt_of_env? he]
    refine entryAt_of_mappings hs hq ?_
    simp only [hsize, pageDown, pageSize] at *
    omega
  have hcheck : e.space.check s.toNat bytes.size .write = .ok () :=
    AddressSpace.check_of_allows fun a ha hl => ⟨q, hentry a ha hl, hal⟩
  obtain ⟨m, hw⟩ := AddressSpace.write_of_check (m := k.machine) hcheck
  have hpos : ∀ f ∈ e.space.table.leafFrames, 0 < k.machine.refs f := fun f hf => hk.refs_pos_of_mem he hf
  refine ⟨m, ?_, hk.write he hw, fun o ho => ?_, fun g hg => Machine.page_ext fun o => ?_, AddressSpace.refs_write hw, ?_⟩
  · unfold Kernel.store
    rw [he]
    dsimp only
    rw [hw]
  · have hlocate (a : Nat) (ha : s.toNat ≤ a) (hl : a < s.toNat + bytes.size) :
        e.space.locate a = some (q.frame, a - s.toNat) := by
      rw [AddressSpace.locate_eq_some (hentry a ha hl)]
      simp only [hsize, pageOffset, pageSize, Option.some.injEq, Prod.mk.injEq, true_and] at *
      omega
    have hb := AddressSpace.byte_write_of_locate hpos hw (x := s.toNat + o) (l := (q.frame, o)) (Nat.le_add_right _ _)
      (by omega) (by rw [hlocate _ (by omega) (by omega), Nat.add_sub_cancel_left]) fun y hy hyl hloc => by
        rw [hlocate y hy hyl] at hloc
        cases hloc
        omega
    rwa [Nat.add_sub_cancel_left] at hb
  · refine AddressSpace.byte_write_of_ne hpos hw fun a ha hl hloc => ?_
    rw [AddressSpace.locate_eq_some (hentry a ha hl)] at hloc
    cases hloc
    exact hg rfl
  · obtain ⟨-, rfl⟩ := AddressSpace.write_ok hw
    exact AddressSpace.writeParts_induction (Q := fun m => m.capacity pool = k.machine.capacity pool)
      (fun m e o d hm _ => (m.capacity_write _ _ _ _).trans hm) _ _ _ rfl

/-- **A page that has been allocated** is an empty frame that nobody had, with one hold. -/
theorem allocated_of_pageAlloc {p : Perm} (hk : k.Sound []) (hr : k.Runs i sp) (hv : VirtAddr.pageOfNat? va.toNat = some v)
    (h : k.call i (.pageAlloc t va p) = (.ok w, k')) :
    ∃ g, k.mappings.Fresh g ∧ k.machine.refs g = 0 ∧ k'.machine.refs g = 1 ∧ k'.machine.page g = Page.zero ∧
      k.Remaps k' (t.meant i) v (some ⟨g, p⟩) ∧ ∀ f, 0 < k.machine.refs f → k.Holds k' (t.meant i) v none f := by
  obtain ⟨g, hg, hfree, hone, hholds⟩ := holds_of_pageAlloc hk h hv
  rcases call_pageAlloc hk hr h with ⟨⟨_, hw⟩, -⟩ | ⟨-, v', g', hv', hfresh, hzero, hm⟩
  · cases hw
  obtain rfl : v = v' := Option.some.inj (hv.symm.trans hv')
  rw [hm.mappings, Mappings.put_self] at hg
  cases hg
  exact ⟨g, hfresh, hfree, hone, hzero, hm, hholds⟩

/-! ## The copy -/

/-- **The scratch page `x` of a program has been filled**: it lies in a fresh frame, with the bytes of the page that an entry
maps. -/
structure Drafted (k k' : Kernel) (i : EnvId) (x : VirtAddr) (old : Pte) (g : Frame) : Prop where
  sound : k'.Sound []
  selfSame : k.SelfSame k' i
  runs (sp : Word) (h : k.Runs i sp) : k'.Runs i sp
  fresh : k.mappings.Fresh g
  unused : k.machine.refs g = 0
  refs : k'.machine.refs g = 1
  mappings : k'.mappings = k.mappings.put i x (some ⟨g, .userWritable⟩)
  copy : k'.machine.page g = k.machine.page old.frame
  page (f : Frame) (hf : 0 < k'.machine.refs f) (hne : f ≠ g) : k'.machine.page f = k.machine.page f
  holds (f : Frame) (hf : 0 < k.machine.refs f) : k.Holds k' i x none f
  capacity : k'.machine.capacity pool = k.machine.capacity pool

theorem Drafted.mapped (h : k.Drafted k' i x old g) : k'.mappings i x = some ⟨g, .userWritable⟩ := by
  rw [h.mappings, Mappings.put_self]

/-- **The page `x` of a program has moved** to the page `v` of an environment, with its frame. -/
structure Moved (k k' : Kernel) (i t : EnvId) (x v : VirtAddr) (g : Frame) : Prop where
  sound : k'.Sound []
  selfSame : k.SelfSame k' i
  runs (sp : Word) (h : k.Runs i sp) : k'.Runs i sp
  mappings : k'.mappings = (k.mappings.put i x none).put t v (some ⟨g, .userWritable⟩)
  page (f : Frame) (hf : 0 < k'.machine.refs f) : k'.machine.page f = k.machine.page f
  holds (f : Frame) (hl : k.Loose f) (hf : 0 < k.machine.refs f) :
    k'.machine.refs f + holdsOf (k.mappings t v) f = k.machine.refs f ∧ k'.Loose f
  capacity : k'.machine.capacity pool = k.machine.capacity pool

/-- **A page has been copied** to the page `v` of an environment, by way of the scratch page `x` of the program. -/
structure Copied (k k' : Kernel) (i t : EnvId) (x v : VirtAddr) (old : Pte) (g : Frame) : Prop where
  sound : k'.Sound []
  selfSame : k.SelfSame k' i
  runs (sp : Word) (h : k.Runs i sp) : k'.Runs i sp
  fresh : k.mappings.Fresh g
  unused : k.machine.refs g = 0
  refs : k'.machine.refs g = 1
  mappings : k'.mappings = (k.mappings.put i x none).put t v (some ⟨g, .userWritable⟩)
  copy : k'.machine.page g = k.machine.page old.frame
  page (f : Frame) (hf : 0 < k'.machine.refs f) (hne : f ≠ g)
    (hx : k.machine.refs f = 0 ∨ holdsOf (k.mappings i x) f < k.machine.refs f) :
    k'.machine.page f = k.machine.page f
  kept (j : EnvId) (w : VirtAddr) (q : Pte) (hq : k'.mappings j w = some q) (hne : q.frame ≠ g) :
    k'.machine.page q.frame = k.machine.page q.frame
  holds (f : Frame) (hl : k.Loose f) (hf : holdsOf (k.mappings i x) f < k.machine.refs f) :
    k'.machine.refs f + holdsOf (k.mappings i x) f + holdsOf (k.mappings t v) f = k.machine.refs f ∧ k'.Loose f
  capacity : k'.machine.capacity pool = k.machine.capacity pool

section copy
variable {x v : VirtAddr} (hs : VirtAddr.pageOfNat? s.toNat = some x)
include hs

/-- **When there is a frame for the scratch page, it gets filled.** -/
theorem drafted_of_pageAlloc (hk : k.Sound []) (hr : k.Runs i sp) {u : VirtAddr}
    (hu : VirtAddr.pageOfNat? va.toNat = some u) (hq : k.mappings i u = some old) (hal : old.allows .read)
    (hne : u.pageDown ≠ x.pageDown) {k₁ : Kernel} (h : k.call i (.pageAlloc .self s .userWritable) = (.ok w, k₁)) :
    ∃ bytes k₂ g, k₁.load i va pageSize = (.ok bytes, k₁) ∧ k₁.store i s bytes = (.ok (), k₂) ∧
      k.Drafted k₂ i x old g := by
  have hself : EnvId.self.meant i = i := rfl
  obtain ⟨g, hfresh, hfree, hone, -, hm, hholds⟩ := allocated_of_pageAlloc hk hr hs h
  rw [hself] at hm
  have hk₁ := sound_of_call hk h
  have hg : k₁.mappings i x = some ⟨g, .userWritable⟩ := by rw [hm.mappings, Mappings.put_self]
  have hq₁ : k₁.mappings i u = some old := by
    rw [hm.mappings, Mappings.put_of_ne fun hn => hne hn.2.symm, hq]
  obtain ⟨bytes, hload, hsize, hbytes⟩ := load_page hu hq₁ hal
  obtain ⟨m, hstore, hk₂, hin, hout, hrefs, hcap⟩ := store_page hk₁ hs hg (Pte.allows_userWritable g .write) hsize
  have hold : k₁.machine.page old.frame = k.machine.page old.frame := hm.page _ (hk₁.refs_pos_of_mappings hq₁)
  refine ⟨bytes, _, g, hload, hstore, ⟨hk₂, ?_, fun sp h => hm.runs h, hfresh, hfree, ?_, hm.mappings, ?_, ?_, ?_, ?_⟩⟩
  · exact (call_selfSame hk rfl h).trans (.of_eq rfl i)
  · exact (hrefs g).trans hone
  · rw [← hold]
    exact Machine.page_eq_of_byte fun o ho => (hin o ho).trans (hbytes o ho)
  · intro f hf hfg
    exact (hout f hfg).trans (hm.page f (by rwa [← hrefs f]))
  · intro f hf
    obtain ⟨hr₁, hl₁⟩ := hholds f hf
    exact ⟨by rw [← hr₁]; exact congrArg (· + _) (hrefs f), hl₁⟩
  · exact hcap.trans (capacity_of_call hk rfl (.inl rfl) h)

/-- **A page moves from the scratch page** to where it belongs, and nothing else that is in use is any different. -/
theorem moved_of_callAll (hk : k.Sound []) (hr : k.Runs i sp) (hv : VirtAddr.pageOfNat? va.toNat = some v)
    (hne : ¬ (i = t.meant i ∧ x.pageDown = v.pageDown)) (hx : k.mappings i x = some ⟨g, .userWritable⟩)
    (h : k.callAll i [.pageMap .self s t va .userWritable, .pageUnmap .self s] = (.ok (), k')) :
    k.Moved k' i (t.meant i) x v g := by
  have hself : EnvId.self.meant i = i := rfl
  obtain ⟨w₁, k₁, h₁, hrest⟩ := callAll_cons_ok h
  obtain ⟨w₂, k₂, h₂, hlast⟩ := callAll_cons_ok hrest
  cases hlast
  have hk₁ := sound_of_call hk h₁
  rcases call_pageMap hk hr h₁ with ⟨⟨_, hw⟩, -⟩ | ⟨-, x', v', pte, hx', hv', hpte, hm₁⟩
  · cases hw
  obtain rfl : x = x' := Option.some.inj (hs.symm.trans hx')
  obtain rfl : v = v' := Option.some.inj (hv.symm.trans hv')
  rw [hself, hx] at hpte
  cases hpte
  rcases call_pageUnmap hk₁ (hm₁.runs hr) h₂ with ⟨⟨_, hw⟩, -⟩ | ⟨-, x', hx', hm₂⟩
  · cases hw
  obtain rfl : x = x' := Option.some.inj (hs.symm.trans hx')
  rw [hself] at hm₂
  have hx₁ : k₁.mappings i x = some ⟨g, .userWritable⟩ := by
    rw [hm₁.mappings, Mappings.put_of_ne fun hn => hne ⟨hn.1.symm, hn.2.symm⟩, hx]
  refine ⟨sound_of_call hk₁ h₂, (call_selfSame hk rfl h₁).trans (call_selfSame hk₁ rfl h₂),
    fun sp hr => hm₂.runs (hm₁.runs hr), ?_, fun f hf => ?_, fun f hl hf => ?_, ?_⟩
  · rw [hm₂.mappings, hm₁.mappings, Mappings.put_comm fun hn => hne ⟨hn.1.symm, hn.2.symm⟩]
  · refine (hm₂.page f hf).trans (hm₁.page f (Nat.pos_of_ne_zero fun h₀ => ?_))
    have := (holds_of_pageUnmap hk₁ h₂ hs (hk₁.loose_of_refs h₀)).refs
    rw [h₀, holdsOf_none] at this
    omega
  · -- the hold that the new entry brings is the one that goes with the old
    obtain ⟨hr₁, hl₁⟩ := holds_of_pageMap hk h₁ hs hv (by rw [hself, hx]) hf
    obtain ⟨hr₂, hl₂⟩ := holds_of_pageUnmap hk₁ h₂ hs (hl₁ hl)
    rw [hself, hx₁, holdsOf_none] at hr₂
    exact ⟨by omega, hl₂ (hl₁ hl)⟩
  · exact (capacity_of_call hk₁ rfl (.inr (.inr rfl)) h₂).trans (capacity_of_call hk rfl (.inr (.inl rfl)) h₁)

omit hs in
/-- **A filled scratch page moves to where the copy belongs.** -/
theorem Drafted.copied {k₁ : Kernel} (hk : k.Sound []) (hd : k.Drafted k₁ i x old g)
    (hne : ¬ (i = t ∧ x.pageDown = v.pageDown)) (hm : k₁.Moved k' i t x v g) : k.Copied k' i t x v old g := by
  have hv₁ : k₁.mappings t v = k.mappings t v := by rw [hd.mappings, Mappings.put_of_ne hne]
  have hkept {f : Frame} (hf : holdsOf (k.mappings i x) f < k.machine.refs f) :
      k₁.machine.refs f + holdsOf (k.mappings i x) f = k.machine.refs f ∧ (k.Loose f → k₁.Loose f) := by
    obtain ⟨hr, hl⟩ := hd.holds f (by omega)
    exact ⟨by rw [hr, holdsOf_none, Nat.add_zero], hl⟩
  have hmap : k'.mappings = (k.mappings.put i x none).put t v (some ⟨g, .userWritable⟩) := by
    rw [hm.mappings, hd.mappings, Mappings.put_put]
  refine ⟨hm.sound, hd.selfSame.trans hm.selfSame, fun sp hr => hm.runs sp (hd.runs sp hr), hd.fresh, hd.unused, ?_, hmap,
    ?_, fun f hf hfg hx => ?_, fun j u q hq hqg => ?_, fun f hl hf => ?_, hm.capacity.trans hd.capacity⟩
  · -- the place that the copy goes to cannot have held a fresh frame
    have hfresh : holdsOf (k.mappings t v) g = 0 := holdsOf_of_ne fun p hp => hd.fresh _ _ p hp
    have := (hm.holds g (hd.sound.loose_of_mappings hd.mapped) (hd.refs ▸ Nat.one_pos)).1
    rw [hv₁, hfresh, hd.refs] at this
    exact this
  · have hv' : k'.mappings t v = some ⟨g, .userWritable⟩ := by rw [hmap, Mappings.put_self]
    rw [hm.page g (hm.sound.refs_pos_of_mappings hv'), hd.copy]
  · rw [hm.page f hf]
    rcases hx with hx | hx
    · by_cases hf₁ : k₁.machine.refs f = 0
      · rw [hd.sound.balanced.tidy.page_of_refs hf₁, hk.balanced.tidy.page_of_refs hx]
      · exact hd.page f (Nat.pos_of_ne_zero hf₁) hfg
    · have := (hkept hx).1
      exact hd.page f (by omega) hfg
  · -- what is mapped in the end has been mapped all the time
    have hpos := hm.sound.refs_pos_of_mappings hq
    rw [hmap, Mappings.put] at hq
    split at hq
    · cases hq
      exact absurd rfl hqg
    rw [Mappings.put] at hq
    split at hq
    · cases hq
    next hix =>
      have hq₁ : k₁.mappings j u = some q := by rw [hd.mappings, Mappings.put_of_ne hix, hq]
      exact (hm.page _ hpos).trans (hd.page _ (hd.sound.refs_pos_of_mappings hq₁) hqg)
  · obtain ⟨hr₁, hl₁⟩ := hkept hf
    obtain ⟨hr₂, hl₂⟩ := hm.holds f (hl₁ hl) (by omega)
    rw [hv₁] at hr₂
    exact ⟨by omega, hl₂⟩

section via
variable (hk : k.Sound []) (hr : k.Runs i sp) (hv : VirtAddr.pageOfNat? va.toNat = some v) (hq : k.mappings i v = some old)
  (hal : old.allows .read) (hne : v.pageDown ≠ x.pageDown)
include hk hr hv hq hal hne

/-- **What a copy that goes well leaves.** -/
theorem copied_of_copyVia (h : k.copyVia i s va t = (.ok (), k')) : ∃ g, k.Copied k' i (t.meant i) x v old g := by
  obtain ⟨w, k₁, bytes, k₂, k₃, h₁, h₂, h₃, h⟩ := copyVia_steps_ok h
  obtain ⟨_, _, g, hload, hstore, hd⟩ := drafted_of_pageAlloc hs hk hr hv hq hal hne h₁
  rw [h₂] at hload
  cases hload
  rw [h₃] at hstore
  cases hstore
  have hx : ¬ (i = t.meant i ∧ x.pageDown = v.pageDown) := fun hn => hne hn.2.symm
  exact ⟨g, hd.copied hk hx (moved_of_callAll hs hd.sound (hd.runs sp hr) hv hx hd.mapped h)⟩

/-- **A program that gets a frame for its scratch page gets its copy**: what comes after that needs none. -/
theorem copied_of_pageAlloc {k₁ : Kernel} (h : k.call i (.pageAlloc .self s .userWritable) = (.ok w, k₁)) :
    ∃ k' g, k.copyVia i s va .self = (.ok (), k') ∧ k.Copied k' i i x v old g := by
  obtain ⟨bytes, k₂, g, hload, hstore, hd⟩ := drafted_of_pageAlloc hs hk hr hv hq hal hne h
  have hself : EnvId.self.meant i = i := rfl
  have hv₂ : k₂.mappings i v = some old := by rw [hd.mappings, Mappings.put_of_ne fun hn => hne hn.2.symm, hq]
  have hlive {k : Kernel} (hr : k.Runs i sp) : k.env? i ≠ none := by
    obtain ⟨e, he, -⟩ := hr
    exact Option.ne_none_iff_exists'.2 ⟨e, he⟩
  have hmap := result_pageMap_self hd.sound (hlive (hd.runs sp hr)) hs hv hd.mapped
    (show Perm.userWritable.contains .writable by decide)
  rw [room_of_mappings hv hv₂, if_pos (Nat.zero_le _)] at hmap
  have hk₃ := hd.sound.call i (.pageMap .self s .self va .userWritable)
  rcases h₂ : k₂.call i (.pageMap .self s .self va .userWritable) with ⟨r₂, k₃⟩
  rw [h₂] at hmap hk₃
  have hr₃ : k₃.Runs i sp := by
    rcases call_pageMap hd.sound (hd.runs sp hr) h₂ with ⟨-, hq⟩ | ⟨-, _, _, _, -, -, -, hm⟩
    · exact hq.runs (hd.runs sp hr)
    · exact hm.runs (hd.runs sp hr)
  have hunmap := result_pageUnmap_self hk₃ (hlive hr₃) hs
  rcases h₃ : k₃.call i (.pageUnmap .self s) with ⟨r₃, k₄⟩
  rw [h₃] at hunmap
  dsimp only at hmap hunmap
  subst hmap hunmap
  have hrest : k₂.callAll i [.pageMap .self s .self va .userWritable, .pageUnmap .self s] = (.ok (), k₄) := by
    simp only [callAll, h₂, h₃]
  have hx : ¬ (i = EnvId.self.meant i ∧ x.pageDown = v.pageDown) := fun hn => hne hn.2.symm
  exact ⟨k₄, g, (copyVia_of_stored h hload hstore).trans hrest,
    hd.copied hk hx (moved_of_callAll hs hd.sound (hd.runs sp hr) hv hx hd.mapped hrest)⟩

/-- **A program gets a copy exactly when there are the frames that its scratch page needs.** -/
theorem copyVia_self_cases :
    (1 + k.room i s.toNat ≤ k.supply ∧ ∃ k' g, k.copyVia i s va .self = (.ok (), k') ∧ k.Copied k' i i x v old g) ∨
    (k.supply < 1 + k.room i s.toNat ∧ ∃ k₁, k.call i (.pageAlloc .self s .userWritable) = (.error .noMem, k₁) ∧
      k.Quiet k₁ ∧ k₁.Sound []) := by
  have hk₁ := hk.call i (.pageAlloc .self s .userWritable)
  have hres := result_pageAlloc_self hk (i := i) (fun hn => by
    obtain ⟨e, he, -⟩ := hr
    rw [he] at hn
    cases hn) hs
  rcases h : k.call i (.pageAlloc .self s .userWritable) with ⟨r, k₁⟩
  rw [h] at hres hk₁
  dsimp only at hres
  split at hres
  next hroom =>
    subst hres
    exact Or.inl ⟨hroom, copied_of_pageAlloc hs hk hr hv hq hal hne h⟩
  next hroom =>
    subst hres
    rcases call_pageAlloc hk hr h with ⟨-, hquiet⟩ | ⟨hok, -⟩
    · exact Or.inr ⟨by omega, k₁, rfl, hquiet, hk₁⟩
    · cases hok

end via

end copy

end Kernel
end Exokernel
