import Exokernel.Proofs.User.PageCopy
/-!
# Filling a child's address space

A fork walks two ranges of pages.  The pages of the first are shared, and what was writable is marked in both programs; the
pages of the second are copied into frames that nobody else has.  No page is missed, and none is touched that is not in the
range.
-/
namespace Exokernel

/-- The entry under which a page is shared. -/
def Pte.shared (q : Pte) : Pte := if q.perm.intersects (.writable ||| .cow) then ⟨q.frame, .userCow⟩ else q

theorem Pte.shared_shared (q : Pte) : q.shared.shared = q.shared := by
  unfold shared
  split
  · rw [if_pos Perm.intersects_userCow]
  · rfl

/-- The page by way of which a fork copies. -/
def VirtAddr.window : VirtAddr := ⟨scratchBase, by decide⟩

theorem VirtAddr.pageOfNat?_window : VirtAddr.pageOfNat? scratchBase.toUInt64.toNat = some VirtAddr.window := by decide

namespace Kernel

variable {k k' k₁ : Kernel} {i j c t : EnvId} {sp va : Word} {x v w : VirtAddr} {q : Pte} {o : Option Pte} {f g : Frame}
  {P Q : VirtAddr → Prop} {l : List Nat}

/-- **The pages of a walk** are those from its start up to its end, both at a page boundary. -/
theorem onPages_pageSteps_iff {low high a : Nat} (hl : low % pageSize = 0) (hh : high % pageSize = 0) (ht : high ≤ stackTop) :
    OnPages (pageSteps low high) a ↔ low ≤ a ∧ a < high := by
  have hnat {n : Nat} (hn : n < high) : n.toUInt64.toNat = n :=
    UInt64.toNat_ofNat_of_lt (Nat.lt_trans (Nat.lt_of_lt_of_le hn ht) (by decide))
  constructor
  · rintro ⟨y, hy, ha⟩
    obtain ⟨n, rfl, hlt⟩ := mem_pageSteps.1 hy
    rw [hnat hlt] at ha
    simp only [pageDown, pageSize] at *
    omega
  · rintro ⟨hla, hah⟩
    have hlt := Nat.lt_of_le_of_lt (pageDown_le a) hah
    exact ⟨pageDown a, pageDown_mem_pageSteps hl hla hlt, (hnat hlt).symm⟩

/-! ## What stays -/

/-- **A page stays as it is**: its entry, and the bytes there. -/
def Retains (k k' : Kernel) (j : EnvId) (v : VirtAddr) : Prop :=
  k'.mappings j v = k.mappings j v ∧ ∀ q, k.mappings j v = some q → k'.machine.page q.frame = k.machine.page q.frame

theorem Retains.trans (h : k.Retains k₁ j v) (h' : k₁.Retains k' j v) : k.Retains k' j v :=
  ⟨h'.1.trans h.1, fun q hq => (h'.2 q (h.1.trans hq)).trans (h.2 q hq)⟩

theorem Retains.of_spares (hm : k'.mappings j v = k.mappings j v) (hs : k.Spares k' j) : k.Retains k' j v := by
  refine ⟨hm, fun q hq => ?_⟩
  obtain ⟨e, he, hl⟩ := Option.bind_eq_some_iff.1 hq
  obtain ⟨_, -, -, -, -, hpage⟩ := hs e he
  exact hpage v q hl

theorem Quiet.retains (h : k.Quiet k') (j : EnvId) (v : VirtAddr) : k.Retains k' j v :=
  .of_spares (by rw [h.mappings]) (h.spares j)

theorem Remaps.retains (h : k.Remaps k' t x o) (hk : k'.Sound []) (hn : ¬ (t = j ∧ x.pageDown = v.pageDown)) :
    k.Retains k' j v := by
  have hm : k'.mappings j v = k.mappings j v := by rw [h.mappings, Mappings.put_of_ne hn]
  exact ⟨hm, fun q hq => h.page _ (hk.refs_pos_of_mappings (hm.trans hq))⟩

theorem Copied.retains {old : Pte} (h : k.Copied k' i t x v old g) (hi : ¬ (i = j ∧ x.pageDown = w.pageDown))
    (ht : ¬ (t = j ∧ v.pageDown = w.pageDown)) : k.Retains k' j w := by
  have hm : k'.mappings j w = k.mappings j w := by rw [h.mappings, Mappings.put_of_ne ht, Mappings.put_of_ne hi]
  exact ⟨hm, fun q hq => h.kept j w q (hm.trans hq) (h.fresh j w q hq)⟩

/-! ## A frame of its own -/

/-- **A page has a frame to itself**: nobody else maps it, and it is counted once. -/
structure Private (k : Kernel) (j : EnvId) (v : VirtAddr) (g : Frame) : Prop where
  mapped : k.mappings j v = some ⟨g, .userWritable⟩
  refs : k.machine.refs g = 1
  sole (t : EnvId) (w : VirtAddr) (q : Pte) (h : k.mappings t w = some q) (hf : q.frame = g) :
    t = j ∧ w.pageDown = v.pageDown

namespace Private

theorem quiet (h : k.Private j v g) (hq : k.Quiet k') : k'.Private j v g :=
  ⟨by rw [hq.mappings, h.mapped], by rw [Machine.refs_congr hq.machine, h.refs], by rw [hq.mappings]; exact h.sole⟩

/-- The frame of a page is held by no other page. -/
theorem holdsOf_eq_zero (h : k.Private j v g) (hn : ¬ (t = j ∧ x.pageDown = v.pageDown)) :
    holdsOf (k.mappings t x) g = 0 :=
  holdsOf_of_ne fun q hq hf => hn (h.sole t x q hq hf)

theorem congr_page (h : k.Private j v g) (hv : v.pageDown = w.pageDown) : k.Private j w g :=
  ⟨by rw [← mappings_congr_page hv, h.mapped], h.refs, fun t u q hq hf => by rw [← hv]; exact h.sole t u q hq hf⟩

/-- What is mapped elsewhere in a fresh frame, or no longer, does not matter. -/
theorem sole_put (h : k.Private j v g) (ho : ∀ q, o = some q → q.frame ≠ g) {q : Pte} {w : VirtAddr} {s : EnvId}
    (hq : k.mappings.put t x o s w = some q) (hf : q.frame = g) : s = j ∧ w.pageDown = v.pageDown := by
  rw [Mappings.put] at hq
  split at hq
  · exact absurd hf (ho q hq)
  · exact h.sole s w q hq hf

end Private

/-- **A copy has a frame to itself.** -/
theorem Copied.private_copy {old : Pte} (h : k.Copied k' i t x v old g) : k'.Private t v g := by
  refine ⟨by rw [h.mappings, Mappings.put_self], h.refs, fun s w q hq hf => ?_⟩
  rw [h.mappings, Mappings.put] at hq
  split at hq
  next hn => exact ⟨hn.1.symm, hn.2.symm⟩
  · rw [Mappings.put] at hq
    split at hq
    · cases hq
    · exact absurd hf (h.fresh s w q hq)

/-- A copy leaves to another page what is its own. -/
theorem Copied.private_of_ne {old : Pte} (hk : k.Sound []) (h : k.Copied k' i t x v old g) (hp : k.Private j w f)
    (hi : ¬ (i = j ∧ x.pageDown = w.pageDown)) (ht : ¬ (t = j ∧ v.pageDown = w.pageDown)) : k'.Private j w f := by
  have hx := hp.holdsOf_eq_zero hi
  have hv := hp.holdsOf_eq_zero ht
  have hne : f ≠ g := h.fresh _ _ _ hp.mapped
  obtain ⟨hr, -⟩ := h.holds f (hk.loose_of_mappings hp.mapped) (by rw [hx, hp.refs]; exact Nat.one_pos)
  refine ⟨by rw [(h.retains hi ht).1, hp.mapped], ?_, fun s u q hq hf => ?_⟩
  · rw [hx, hv, hp.refs] at hr
    exact hr
  · rw [h.mappings, Mappings.put] at hq
    split at hq
    · cases hq
      exact absurd hf hne.symm
    · exact hp.sole_put (o := none) (fun _ ho => by cases ho) hq hf

/-! ## Sharing pages -/

/-- **Some pages have been shared with a child**: each under the same entry in both programs, and nothing else is any
different. -/
structure Dealt (k k' : Kernel) (i c : EnvId) (P : VirtAddr → Prop) : Prop where
  sound : k'.Sound []
  selfSame : k.SelfSame k' i
  runs (sp : Word) (h : k.Runs i sp) : k'.Runs i sp
  parent (v : VirtAddr) (hv : P v) : k'.mappings i v = (k.mappings i v).map Pte.shared
  child (v : VirtAddr) (hv : P v) (hn : k.mappings i v = none → k.mappings c v = none) :
    k'.mappings c v = (k.mappings i v).map Pte.shared
  retains (j : EnvId) (v : VirtAddr) (hv : ¬ P v) : k.Retains k' j v

namespace Dealt

theorem of_unmapped (hk : k.Sound []) (hn : ∀ v, P v → k.mappings i v = none) : k.Dealt k i c P where
  sound := hk
  selfSame := .refl k i
  runs _ h := h
  parent v hv := by rw [hn v hv, Option.map_none]
  child v hv h := by rw [hn v hv, Option.map_none, h (hn v hv)]
  retains _ _ _ := ⟨rfl, fun _ _ => rfl⟩

theorem trans (h : k.Dealt k₁ i c P) (h' : k₁.Dealt k' i c Q) : k.Dealt k' i c fun v => P v ∨ Q v where
  sound := h'.sound
  selfSame := h.selfSame.trans h'.selfSame
  runs sp hr := h'.runs sp (h.runs sp hr)
  parent v hpq := by
    by_cases hv : P v
    · by_cases hw : Q v
      · rw [h'.parent v hw, h.parent v hv, Option.map_map]
        exact congrArg (Option.map · _) (funext Pte.shared_shared)
      · rw [(h'.retains i v hw).1, h.parent v hv]
    · rw [h'.parent v (hpq.resolve_left hv), (h.retains i v hv).1]
  child v hpq hn := by
    by_cases hv : P v
    · by_cases hw : Q v
      · have hn₁ : k₁.mappings i v = none → k₁.mappings c v = none := by
          rw [h.parent v hv, h.child v hv hn]
          exact id
        rw [h'.child v hw hn₁, h.parent v hv, Option.map_map]
        exact congrArg (Option.map · _) (funext Pte.shared_shared)
      · rw [(h'.retains c v hw).1, h.child v hv hn]
    · have hn₁ : k₁.mappings i v = none → k₁.mappings c v = none := by rwa [(h.retains i v hv).1, (h.retains c v hv).1]
      rw [h'.child v (hpq.resolve_left hv) hn₁, (h.retains i v hv).1]
  retains j v hn := (h.retains j v fun hv => hn (.inl hv)).trans (h'.retains j v fun hv => hn (.inr hv))

/-- What a program has mapped may be handed on by a call, also after it is marked. -/
theorem settable (h : k.Dealt k' i c P) (hs : ∀ v q, Q v → k.mappings i v = some q → q.perm &&& .syscall = q.perm)
    (v : VirtAddr) (q : Pte) (hw : Q v) (hq : k'.mappings i v = some q) : q.perm &&& .syscall = q.perm := by
  by_cases hv : P v
  · rw [h.parent v hv, Option.map_eq_some_iff] at hq
    obtain ⟨e, he, rfl⟩ := hq
    rw [Pte.shared]
    split
    · exact (by decide : Perm.userCow &&& .syscall = .userCow)
    · exact hs v e hw he
  · rw [(h.retains i v hv).1] at hq
    exact hs v q hw hq

end Dealt

/-- **A page is shared**: marked in both programs if it could be written, and handed on as it is otherwise. -/
theorem sharePage_dealt {p : Perm} (hk : k.Sound []) (hr : k.Runs i sp) (hci : c ≠ i) (hcs : c.isSelf = false)
    (hset : ∀ (v : VirtAddr) q, pageDown v.raw = va.toNat → k.mappings i v = some q → q.perm &&& .syscall = q.perm)
    (hq : k.query i va = some p) (h : k.callAll i (sharePageCalls c va p) = (.ok (), k')) :
    k.Dealt k' i c fun v => pageDown v.raw = va.toNat := by
  have hsame : k.SelfSame k' i := callAll_selfSame hk (sharePageCalls_spares c va p) h
  obtain ⟨hk', x, e, hs, he, rfl, ⟨hx, k₁, hk₁, hm₁, hm₂⟩ | ⟨hx, hm⟩⟩ := sharePage_remaps hk hr hci hcs hq h
  · have hshared (v : VirtAddr) (hv : pageDown v.raw = va.toNat) :
        (k.mappings i v).map Pte.shared = some ⟨e.frame, .userCow⟩ := by
      rw [← mappings_congr_page ((pageDown_eq_iff hs).2 hv), he, Option.map_some, Pte.shared, if_pos hx]
    refine ⟨hk', hsame, fun sp hr => hm₂.runs (hm₁.runs hr), fun v hv => ?_, fun v hv _ => ?_, fun j v hn => ?_⟩
    · rw [hshared v hv, hm₂.mappings, Mappings.put, if_pos ⟨rfl, (pageDown_eq_iff hs).2 hv⟩]
    · rw [hshared v hv, hm₂.mappings, Mappings.put_of_ne fun hn => hci hn.1.symm, hm₁.mappings, Mappings.put,
        if_pos ⟨rfl, (pageDown_eq_iff hs).2 hv⟩]
    · have hne {t : EnvId} : ¬ (t = j ∧ x.pageDown = v.pageDown) := fun hx => hn ((pageDown_eq_iff hs).1 hx.2)
      exact (hm₁.retains hk₁ hne).trans (hm₂.retains hk' hne)
  · have hshared (v : VirtAddr) (hv : pageDown v.raw = va.toNat) : k.mappings i v = some e ∧ e.shared = e := by
      rw [← mappings_congr_page ((pageDown_eq_iff hs).2 hv), he, Pte.shared, if_neg hx]
      exact ⟨rfl, rfl⟩
    refine ⟨hk', hsame, fun sp hr => hm.runs hr, fun v hv => ?_, fun v hv _ => ?_, fun j v hn => ?_⟩
    · obtain ⟨hv, he⟩ := hshared v hv
      rw [hm.mappings, Mappings.put_of_ne fun hn => hci hn.1, hv, Option.map_some, he]
    · obtain ⟨hv', he⟩ := hshared v hv
      rw [hm.mappings, Mappings.put, if_pos ⟨rfl, (pageDown_eq_iff hs).2 hv⟩, hv', Option.map_some, he, hset v e hv hv']
    · exact hm.retains hk' fun hx => hn ((pageDown_eq_iff hs).1 hx.2)

/-- **All pages of the walk are shared.** -/
theorem sharePages_dealt (hk : k.Sound []) (hr : k.Runs i sp) (hci : c ≠ i) (hcs : c.isSelf = false)
    (hset : ∀ (v : VirtAddr) q, OnPages l v.raw → k.mappings i v = some q → q.perm &&& .syscall = q.perm)
    (h : k.sharePages i c l = (.ok (), k')) : k.Dealt k' i c fun v => OnPages l v.raw := by
  induction l generalizing k with
  | nil =>
    cases h
    exact .of_unmapped hk fun v ⟨x, hx, _⟩ => by cases hx
  | cons x rest ih =>
    rw [onPages_cons]
    obtain ⟨hq, h⟩ | ⟨p, hq, ⟨_, -, ⟨⟩⟩ | ⟨k₁, h₁, h⟩⟩ := sharePages_cons_cases h
    · -- nothing is mapped there
      have hskip : k.Dealt k i c fun v => pageDown v.raw = x.toUInt64.toNat :=
        .of_unmapped hk fun _ => mappings_of_query_none hq
      exact hskip.trans (ih hk hr (fun v q hv => hset v q hv.tail) h)
    · have hd := sharePage_dealt hk hr hci hcs (fun v q hv => hset v q (.head hv)) hq h₁
      exact hd.trans (ih hd.sound (hd.runs sp hr) (hd.settable fun v q hv => hset v q hv.tail) h)

/-! ## Copying pages -/

/-- **Some pages have been copied into a child**: each page of them that is mapped lies in the child in a frame of its own, with
the same bytes.  But for the window, the program has what it had, and but for these pages, so has the child. -/
structure Stacked (k k' : Kernel) (i c : EnvId) (P : VirtAddr → Prop) : Prop where
  sound : k'.Sound []
  selfSame : k.SelfSame k' i
  runs (sp : Word) (h : k.Runs i sp) : k'.Runs i sp
  copied (v : VirtAddr) (q : Pte) (hv : P v) (hq : k.mappings i v = some q) :
    ∃ g, k'.Private c v g ∧ k'.machine.page g = k.machine.page q.frame
  parent (v : VirtAddr) (hv : v.pageDown ≠ VirtAddr.window.pageDown) : k.Retains k' i v
  child (v : VirtAddr) (hv : P v → k.mappings i v = none) : k.Retains k' c v
  kept (v : VirtAddr) (g : Frame) (h : k.Private c v g) (hv : P v → k.mappings i v = none) : k'.Private c v g

namespace Stacked

theorem of_unmapped (hk : k.Sound []) (hn : ∀ v, P v → k.mappings i v = none) : k.Stacked k i c P where
  sound := hk
  selfSame := .refl k i
  runs _ h := h
  copied v q hv hq := by
    rw [hn v hv] at hq
    cases hq
  parent _ _ := ⟨rfl, fun _ _ => rfl⟩
  child _ _ := ⟨rfl, fun _ _ => rfl⟩
  kept _ _ h _ := h

theorem trans (h : k.Stacked k₁ i c P) (h' : k₁.Stacked k' i c Q) (hw : ∀ v, Q v → v.pageDown ≠ VirtAddr.window.pageDown) :
    k.Stacked k' i c fun v => P v ∨ Q v where
  sound := h'.sound
  selfSame := h.selfSame.trans h'.selfSame
  runs sp hr := h'.runs sp (h.runs sp hr)
  copied v q hpq hq := by
    by_cases hv : Q v
    · -- the second copy is of what the first has left where it was
      have hret := h.parent v (hw v hv)
      obtain ⟨g, hg, hpage⟩ := h'.copied v q hv (hret.1.trans hq)
      exact ⟨g, hg, hpage.trans (hret.2 q hq)⟩
    · obtain ⟨g, hg, hpage⟩ := h.copied v q (hpq.resolve_right hv) hq
      exact ⟨g, h'.kept v g hg fun hn => absurd hn hv, ((h'.child v fun hn => absurd hn hv).2 _ hg.mapped).trans hpage⟩
  parent v hv := (h.parent v hv).trans (h'.parent v hv)
  child v hn := (h.child v fun hv => hn (.inl hv)).trans
    (h'.child v fun hv => (h.parent v (hw v hv)).1.trans (hn (.inr hv)))
  kept v g hg hn := h'.kept v g (h.kept v g hg fun hv => hn (.inl hv)) fun hv =>
    (h.parent v (hw v hv)).1.trans (hn (.inr hv))

theorem of_copied {old : Pte} (hk : k.Sound []) (hci : c ≠ i) (hv : VirtAddr.pageOfNat? va.toNat = some v)
    (hq : k.mappings i v = some old) (h : k.Copied k' i c .window v old g) :
    k.Stacked k' i c fun v => pageDown v.raw = va.toNat where
  sound := h.sound
  selfSame := h.selfSame
  runs := h.runs
  copied w q hw hwq := by
    have hpage := (pageDown_eq_iff hv).2 hw
    rw [← mappings_congr_page hpage, hq] at hwq
    cases hwq
    exact ⟨g, h.private_copy.congr_page hpage, h.copy⟩
  parent w hw := h.retains (fun hn => hw hn.2.symm) fun hn => hci hn.1
  child w hw := by
    refine h.retains (fun hn => hci hn.1.symm) fun hn => ?_
    have hnone := hw ((pageDown_eq_iff hv).1 hn.2)
    rw [← mappings_congr_page hn.2, hq] at hnone
    cases hnone
  kept w f hp hw := by
    refine h.private_of_ne hk hp (fun hn => hci hn.1.symm) fun hn => ?_
    have hnone := hw ((pageDown_eq_iff hv).1 hn.2)
    rw [← mappings_congr_page hn.2, hq] at hnone
    cases hnone

end Stacked

/-- **All pages of the walk are copied.** -/
theorem copyStack_stacked (hk : k.Sound []) (hr : k.Runs i sp) (hci : c ≠ i) (hcs : c.isSelf = false)
    (hw : ∀ v : VirtAddr, OnPages l v.raw → v.pageDown ≠ VirtAddr.window.pageDown)
    (hal : ∀ (v : VirtAddr) q, OnPages l v.raw → k.mappings i v = some q → q.allows .read)
    (h : k.copyStack i c l = (.ok (), k')) : k.Stacked k' i c fun v => OnPages l v.raw := by
  have hmeant : c.meant i = c := EnvId.meant_of_not_isSelf hcs
  induction l generalizing k with
  | nil =>
    cases h
    exact .of_unmapped hk fun v ⟨x, hx, _⟩ => by cases hx
  | cons x rest ih =>
    have hwrest (v : VirtAddr) (hv : OnPages rest v.raw) := hw v hv.tail
    rw [onPages_cons]
    obtain ⟨hq, h⟩ | ⟨p, hq, ⟨_, -, ⟨⟩⟩ | ⟨k₁, h₁, h⟩⟩ := copyStack_cons_cases h
    · -- nothing is mapped there
      have hskip : k.Stacked k i c fun v => pageDown v.raw = x.toUInt64.toNat :=
        .of_unmapped hk fun _ => mappings_of_query_none hq
      exact hskip.trans (ih hk hr hwrest (fun v q hv => hal v q hv.tail) h) hwrest
    · obtain ⟨-, -, -, v, -, -, hv, -⟩ := copyVia_ok hk hr h₁
      rw [query_eq_some hv, Option.map_eq_some_iff] at hq
      obtain ⟨old, hold, -⟩ := hq
      have hpage := (pageDown_eq_iff hv).1 (rfl : v.pageDown = v.pageDown)
      obtain ⟨g, hc⟩ := copied_of_copyVia VirtAddr.pageOfNat?_window hk hr hv hold (hal v old (.head hpage) hold)
        (hw v (.head hpage)) h₁
      rw [hmeant] at hc
      have hs := Stacked.of_copied hk hci hv hold hc
      refine hs.trans (ih hs.sound (hs.runs sp hr) hwrest (fun u q hu hq => ?_) h) hwrest
      rw [(hs.parent u (hwrest u hu)).1] at hq
      exact hal u q hu.tail hq

end Kernel
end Exokernel
