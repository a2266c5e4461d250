import Exokernel.Proofs.User.Fence
import Exokernel.Proofs.User.Fork
/-!
# Parent and child

A fork goes through the pages of the text, the data and the heap one address after another, and marks what may be written
there in both programs.  A frame that the parent may also write at some other address is not marked there, and what the
parent writes at that address the child reads.  Apart from that, parent and child are kept apart: neither may write a frame
that the fork has marked, and what one of them writes from then on the other does not see.
-/
namespace Exokernel

theorem Perm.intersects_userCow : Perm.userCow.intersects (.writable ||| .cow) := by decide

theorem Perm.intersects_userWritable : Perm.userWritable.intersects (.writable ||| .cow) := by decide

theorem Perm.not_writable_of_not_intersects {q : Perm} (h : ¬ q.intersects (.writable ||| .cow)) :
    ¬ q.contains .writable := by
  intro hw
  exact Perm.not_writable_and h .writable (Perm.contains_and hw (show Perm.writable.contains .writable by decide))

namespace Mappings

variable {M M' : Mappings} {i c : EnvId} {f : Frame} {P : VirtAddr → Prop}

/-- **Certain pages of a program are marked**, and neither it nor its child may write their frames; nor may it write what
the child has on these pages. -/
structure Sealed (M : Mappings) (i c : EnvId) (P : VirtAddr → Prop) : Prop where
  marked (v : VirtAddr) (hv : P v) : ∃ f, M i v = some ⟨f, .userCow⟩ ∧
    ∀ j w q, j = i ∨ j = c → M j w = some q → q.perm.contains .writable → q.frame ≠ f
  fenced : M.Fenced i c P

namespace Sealed

/-- **The child may get a fresh frame**, and the parent may lose what is not marked. -/
theorem grow (h : M.Sealed i c P) (hf : M.Fresh f) (hi : ∀ w q, M' i w = some q → M i w = some q)
    (hc : ∀ w q, M' c w = some q → q.frame = f ∨ M c w = some q) (hP : ∀ v, P v → M' i v = M i v) :
    M'.Sealed i c P := by
  refine ⟨fun v hv => ?_, fun v p w q hv hp hq hw => ?_⟩
  · obtain ⟨g, hg, hno⟩ := h.marked v hv
    refine ⟨g, (hP v hv).trans hg, fun j w q hj hq hw => ?_⟩
    rcases hj with rfl | rfl
    · exact hno j w q (Or.inl rfl) (hi w q hq) hw
    · rcases hc w q hq with hqf | hq
      · rw [hqf]
        exact (hf _ _ _ hg).symm
      · exact hno j w q (Or.inr rfl) hq hw
  · rcases hc v p hp with hpf | hp
    · rw [hpf]
      exact hf _ _ _ (hi w q hq)
    · exact h.fenced v p w q hv hp (hi w q hq) hw

end Sealed
end Mappings

namespace Kernel

variable {k k' k₁ : Kernel} {i c t : EnvId} {sp va sva s : Word} {q : Perm} {w : Word} {P Q : VirtAddr → Prop} {l : List Nat}

theorem Sealed.parted (hk : k.Sound []) (hci : c ≠ i) (h : k.mappings.Sealed i c P) : k.Parted i c P := by
  refine ⟨hci.symm, hk, h.fenced, fun v p x q hv hp hq hw => ?_⟩
  obtain ⟨f, hf, hno⟩ := h.marked v hv
  obtain rfl := Option.some.inj (hf.symm.trans hp)
  exact hno c x q (Or.inr rfl) hq hw

/-! ## Calls that succeed -/

section ok
variable (hk : k.Sound []) (hr : k.Runs i sp)
include hk hr

theorem call_pageAlloc_ok (h : k.call i (.pageAlloc t va q) = (.ok w, k')) : k'.Sound [] ∧ k'.Runs i sp ∧
    ∃ v f, VirtAddr.pageOfNat? va.toNat = some v ∧ k.mappings.Fresh f ∧
      k'.mappings = k.mappings.put (t.meant i) v (some ⟨f, q⟩) := by
  rcases call_pageAlloc hk hr h with ⟨⟨err, he⟩, -⟩ | ⟨-, v, f, hv, hf, -, hm⟩
  · cases he
  · exact ⟨sound_of_call hk h, hm.runs hr, v, f, hv, hf, hm.mappings⟩

theorem call_pageMap_ok (h : k.call i (.pageMap .self sva t va q) = (.ok w, k')) : k'.Sound [] ∧ k'.Runs i sp ∧
    ∃ sv v pte, VirtAddr.pageOfNat? sva.toNat = some sv ∧ VirtAddr.pageOfNat? va.toNat = some v ∧
      k.mappings i sv = some pte ∧ k'.mappings = k.mappings.put (t.meant i) v (some ⟨pte.frame, q⟩) := by
  rcases call_pageMap hk hr h with ⟨⟨err, he⟩, -⟩ | ⟨-, sv, v, pte, hsv, hv, hp, hm⟩
  · cases he
  · exact ⟨sound_of_call hk h, hm.runs hr, sv, v, pte, hsv, hv, hp, hm.mappings⟩

theorem call_pageUnmap_ok (h : k.call i (.pageUnmap t va) = (.ok w, k')) : k'.Sound [] ∧ k'.Runs i sp ∧
    ∃ v, VirtAddr.pageOfNat? va.toNat = some v ∧ k'.mappings = k.mappings.put (t.meant i) v none := by
  rcases call_pageUnmap hk hr h with ⟨⟨err, he⟩, -⟩ | ⟨-, v, hv, hm⟩
  · cases he
  · exact ⟨sound_of_call hk h, hm.runs hr, v, hv, hm.mappings⟩

end ok

/-! ## Sharing the pages -/

/-- **Some pages have been shared with a child**: none of them may be written by the program any more, those that could
be are marked in both, and the child may write nothing that it could not. -/
structure Shared (k k' : Kernel) (i c : EnvId) (P : VirtAddr → Prop) (sp : Word) : Prop where
  sound : k'.Sound []
  runs : k'.Runs i sp
  parent (v : VirtAddr) (p : Pte) (h : k'.mappings i v = some p) (hw : p.perm.contains .writable) :
    k.mappings i v = some p ∧ ¬ P v
  child (v : VirtAddr) (p : Pte) (h : k'.mappings c v = some p) (hw : p.perm.contains .writable) :
    k.mappings c v = some p
  marked (v : VirtAddr) (p : Pte) (hv : P v) (h : k.mappings i v = some p)
    (hp : p.perm.intersects (.writable ||| .cow)) :
    k'.mappings i v = some ⟨p.frame, .userCow⟩ ∧ k'.mappings c v = some ⟨p.frame, .userCow⟩
  other (v : VirtAddr) (hv : ¬ P v) : k'.mappings i v = k.mappings i v ∧ k'.mappings c v = k.mappings c v

namespace Shared

theorem of_unmapped (hk : k.Sound []) (hr : k.Runs i sp) (hn : ∀ v, P v → k.mappings i v = none) :
    k.Shared k i c P sp where
  sound := hk
  runs := hr
  parent v p h _ := ⟨h, fun hv => by rw [hn v hv] at h; cases h⟩
  child _ _ h _ := h
  marked v p hv h _ := by rw [hn v hv] at h; cases h
  other _ _ := ⟨rfl, rfl⟩

theorem trans (h : k.Shared k₁ i c P sp) (h' : k₁.Shared k' i c Q sp) : k.Shared k' i c (fun v => P v ∨ Q v) sp where
  sound := h'.sound
  runs := h'.runs
  parent v p hp hw := by
    obtain ⟨hp₁, hq⟩ := h'.parent v p hp hw
    obtain ⟨hp₀, hn⟩ := h.parent v p hp₁ hw
    exact ⟨hp₀, fun hpq => hpq.elim hn hq⟩
  child v p hp hw := h.child v p (h'.child v p hp hw) hw
  marked v p hpq hp hx := by
    by_cases hv : P v
    · obtain ⟨hi, hc⟩ := h.marked v p hv hp hx
      by_cases hq : Q v
      · exact h'.marked v ⟨p.frame, .userCow⟩ hq hi Perm.intersects_userCow
      · obtain ⟨hi', hc'⟩ := h'.other v hq
        exact ⟨hi'.trans hi, hc'.trans hc⟩
    · exact h'.marked v p (hpq.resolve_left hv) ((h.other v hv).1.trans hp) hx
  other v hn := by
    obtain ⟨hi, hc⟩ := h.other v fun hv => hn (Or.inl hv)
    obtain ⟨hi', hc'⟩ := h'.other v fun hv => hn (Or.inr hv)
    exact ⟨hi'.trans hi, hc'.trans hc⟩

end Shared

/-- The page that a word names is the one that an address is on. -/
theorem pageDown_eq_iff {v x : VirtAddr} (h : VirtAddr.pageOfNat? va.toNat = some x) :
    x.pageDown = v.pageDown ↔ pageDown v.raw = va.toNat := by
  rw [← VirtAddr.raw_pageDown h]
  constructor
  · intro hx
    rw [hx]
    rfl
  · intro hx
    cases hp : x.pageDown
    rw [hp] at hx
    simp only [VirtAddr.pageDown, VirtAddr.mk.injEq] at *
    exact hx.symm

theorem pageOfNat?_of_pageDown {v : VirtAddr} (h : pageDown v.raw = va.toNat) :
    VirtAddr.pageOfNat? va.toNat = some v.pageDown := by
  refine VirtAddr.pageOfNat?_eq_some_iff.2 ⟨h, ?_⟩
  rw [← h]
  exact Nat.mul_mod_left _ _

theorem mappings_congr_page {j : EnvId} {v x : VirtAddr} (h : x.pageDown = v.pageDown) :
    k.mappings j x = k.mappings j v := by
  unfold mappings
  congr 1
  funext e
  exact PageTable.lookup_congr h

theorem query_eq_some {x : VirtAddr} (hx : VirtAddr.pageOfNat? va.toNat = some x) :
    k.query i va = (k.mappings i x).map Pte.perm := by
  obtain ⟨hraw, hal⟩ := VirtAddr.pageOfNat?_eq_some_iff.1 hx
  rw [query_eq, ← entryAt_of_pageOfNat? hx (a := va.toNat)]
  simp only [pageDown, pageSize] at *
  omega

/-- A page that the query has not found is not mapped. -/
theorem mappings_of_query_none {v : VirtAddr} (hq : k.query i va = none) (hv : pageDown v.raw = va.toNat) :
    k.mappings i v = none := by
  have hx := pageOfNat?_of_pageDown hv
  rw [query_eq_some hx, Option.map_eq_none_iff] at hq
  rw [← mappings_congr_page ((pageDown_eq_iff hx).2 hv), hq]

theorem OnPages.head {x a : Nat} (h : pageDown a = x.toUInt64.toNat) : OnPages (x :: l) a :=
  ⟨x, List.mem_cons_self, h⟩

theorem OnPages.tail {x a : Nat} (h : OnPages l a) : OnPages (x :: l) a := by
  obtain ⟨y, hy, ha⟩ := h
  exact ⟨y, List.mem_cons_of_mem x hy, ha⟩

theorem onPages_cons (x : Nat) (l : List Nat) : (fun v : VirtAddr => OnPages (x :: l) v.raw) =
    fun v => pageDown v.raw = x.toUInt64.toNat ∨ OnPages l v.raw := by
  funext v
  simp only [OnPages, List.exists_mem_cons_iff]

/-- **What the sharing of a page maps**: its frame, marked in both programs if one of them could write it. -/
theorem sharePage_remaps (hk : k.Sound []) (hr : k.Runs i sp) (hci : c ≠ i) (hcs : c.isSelf = false)
    (hq : k.query i va = some q) (h : k.callAll i (sharePageCalls c va q) = (.ok (), k')) :
    k'.Sound [] ∧ ∃ x p, VirtAddr.pageOfNat? va.toNat = some x ∧ k.mappings i x = some p ∧ p.perm = q ∧
      ((q.intersects (.writable ||| .cow) ∧ ∃ k₁, k₁.Sound [] ∧ k.Remaps k₁ c x (some ⟨p.frame, .userCow⟩) ∧
          k₁.Remaps k' i x (some ⟨p.frame, .userCow⟩)) ∨
        (¬ q.intersects (.writable ||| .cow) ∧ k.Remaps k' c x (some ⟨p.frame, q &&& .syscall⟩))) := by
  have hself : EnvId.self.meant i = i := rfl
  have hmeant : c.meant i = c := EnvId.meant_of_not_isSelf hcs
  have hperm {x : VirtAddr} {p : Pte} (hx : VirtAddr.pageOfNat? va.toNat = some x) (hp : k.mappings i x = some p) :
      p.perm = q := by
    rw [query_eq_some hx, hp] at hq
    exact Option.some.inj hq
  unfold sharePageCalls at h
  split at h
  next hx =>
    obtain ⟨w₁, k₁, h₁, h⟩ := callAll_cons_ok h
    obtain ⟨w₂, k₂, h₂, h⟩ := callAll_cons_ok h
    cases h
    have hk₁ := sound_of_call hk h₁
    rcases call_pageMap hk hr h₁ with ⟨⟨_, he⟩, -⟩ | ⟨-, x, y, p, hs, hv, hp, hm₁⟩
    · cases he
    obtain rfl := Option.some.inj (hs.symm.trans hv)
    rcases call_pageMap hk₁ (hm₁.runs hr) h₂ with ⟨⟨_, he⟩, -⟩ | ⟨-, x', y', p', hs', hv', hp', hm₂⟩
    · cases he
    obtain rfl := Option.some.inj (hs.symm.trans hs')
    obtain rfl := Option.some.inj (hs.symm.trans hv')
    rw [hself] at hp hp' hm₂
    rw [hmeant] at hm₁
    rw [hm₁.mappings, Mappings.put, if_neg fun hn => hci hn.1, hp] at hp'
    cases hp'
    exact ⟨sound_of_call hk₁ h₂, x, p, hs, hp, hperm hs hp, .inl ⟨hx, k₁, hk₁, hm₁, hm₂⟩⟩
  next hx =>
    obtain ⟨w₁, k₁, h₁, h⟩ := callAll_cons_ok h
    cases h
    rcases call_pageMap hk hr h₁ with ⟨⟨_, he⟩, -⟩ | ⟨-, x, y, p, hs, hv, hp, hm⟩
    · cases he
    obtain rfl := Option.some.inj (hs.symm.trans hv)
    rw [hself] at hp
    rw [hmeant] at hm
    exact ⟨sound_of_call hk h₁, x, p, hs, hp, hperm hs hp, .inr ⟨hx, hm⟩⟩

/-- **A page is shared** as its permission asks for. -/
theorem sharePage_ok (hk : k.Sound []) (hr : k.Runs i sp) (hci : c ≠ i) (hcs : c.isSelf = false)
    (hq : k.query i va = some q) (h : k.callAll i (sharePageCalls c va q) = (.ok (), k')) :
    k.Shared k' i c (fun v => pageDown v.raw = va.toNat) sp := by
  obtain ⟨hk', x, p, hx, hp, rfl, ⟨-, k₁, -, hm₁, hm₂⟩ | ⟨hro, hm⟩⟩ := sharePage_remaps hk hr hci hcs hq h
  · have hi (v : VirtAddr) : k'.mappings i v =
        if pageDown v.raw = va.toNat then some ⟨p.frame, .userCow⟩ else k.mappings i v := by
      simp only [hm₂.mappings, hm₁.mappings, Mappings.put, pageDown_eq_iff hx, hci, true_and, false_and, if_false]
    have hc (v : VirtAddr) : k'.mappings c v =
        if pageDown v.raw = va.toNat then some ⟨p.frame, .userCow⟩ else k.mappings c v := by
      simp only [hm₂.mappings, hm₁.mappings, Mappings.put, pageDown_eq_iff hx, hci.symm, true_and, false_and, if_false]
    have hcow : ¬ Perm.userCow.contains .writable := by decide
    refine ⟨hk', hm₂.runs (hm₁.runs hr), fun v o ho hw => ?_, fun v o ho hw => ?_, fun v o hv ho _ => ?_, fun v hv => ?_⟩
    · rw [hi] at ho
      split at ho
      · cases ho
        exact absurd hw hcow
      · rename_i hv
        exact ⟨ho, hv⟩
    · rw [hc] at ho
      split at ho
      · cases ho
        exact absurd hw hcow
      · exact ho
    · rw [← mappings_congr_page ((pageDown_eq_iff hx).2 hv), hp] at ho
      cases ho
      exact ⟨by rw [hi, if_pos hv], by rw [hc, if_pos hv]⟩
    · exact ⟨by rw [hi, if_neg hv], by rw [hc, if_neg hv]⟩
  · have hi (v : VirtAddr) : k'.mappings i v = k.mappings i v := by
      rw [hm.mappings, Mappings.put, if_neg fun hn => hci hn.1]
    have hc (v : VirtAddr) : k'.mappings c v =
        if pageDown v.raw = va.toNat then some ⟨p.frame, p.perm &&& .syscall⟩ else k.mappings c v := by
      simp only [hm.mappings, Mappings.put, pageDown_eq_iff hx, true_and]
    have hpage {v : VirtAddr} {o : Pte} (hv : pageDown v.raw = va.toNat) (ho : k.mappings i v = some o) :
        o.perm = p.perm := by
      rw [← mappings_congr_page ((pageDown_eq_iff hx).2 hv), hp] at ho
      cases ho
      rfl
    refine ⟨hk', hm.runs hr, fun v o ho hw => ?_, fun v o ho hw => ?_, fun v o hv ho hx => ?_, fun v hv => ?_⟩
    · rw [hi] at ho
      refine ⟨ho, fun hv => Perm.not_writable_of_not_intersects hro ?_⟩
      rwa [hpage hv ho] at hw
    · rw [hc] at ho
      split at ho
      · cases ho
        exact absurd hw (Perm.not_writable_and hro .syscall)
      · exact ho
    · rw [hpage hv ho] at hx
      exact absurd hx hro
    · exact ⟨hi v, by rw [hc, if_neg hv]⟩

/-- **All pages are shared.** -/
theorem sharePages_ok (hk : k.Sound []) (hr : k.Runs i sp) (hci : c ≠ i) (hcs : c.isSelf = false)
    (h : k.sharePages i c l = (.ok (), k')) : k.Shared k' i c (fun v => OnPages l v.raw) sp := by
  induction l generalizing k with
  | nil =>
    cases h
    exact .of_unmapped hk hr fun v ⟨x, hx, _⟩ => by cases hx
  | cons x rest ih =>
    rw [onPages_cons]
    obtain ⟨hq, h⟩ | ⟨q, hq, ⟨_, -, ⟨⟩⟩ | ⟨k₁, h₁, h⟩⟩ := sharePages_cons_cases h
    · have hskip : k.Shared k i c (fun v => pageDown v.raw = x.toUInt64.toNat) sp :=
        .of_unmapped hk hr fun _ => mappings_of_query_none hq
      exact hskip.trans (ih hk hr h)
    · have hs := sharePage_ok hk hr hci hcs hq h₁
      exact hs.trans (ih hs.sound hs.runs h)

/-! ## After the pages are shared -/

/-- The program runs, and its pages are sealed. -/
structure Keeping (k : Kernel) (i c : EnvId) (P : VirtAddr → Prop) (sp : Word) : Prop where
  sound : k.Sound []
  runs : k.Runs i sp
  sealed : k.mappings.Sealed i c P

theorem Keeping.quiet (h : k.Keeping i c P sp) (hq : k.Quiet k') (hk : k'.Sound []) : k'.Keeping i c P sp :=
  ⟨hk, hq.runs h.runs, by rw [hq.mappings]; exact h.sealed⟩

/-- **A copy that is handed on** is in a fresh frame, which is mapped at its scratch page no longer. -/
theorem copyVia_ok (hk : k.Sound []) (hr : k.Runs i sp) (h : k.copyVia i s va t = (.ok (), k')) :
    k'.Sound [] ∧ k'.Runs i sp ∧ ∃ x v f, VirtAddr.pageOfNat? s.toNat = some x ∧ VirtAddr.pageOfNat? va.toNat = some v ∧
      k.mappings.Fresh f ∧ k'.mappings = ((k.mappings.put i x (some ⟨f, .userWritable⟩)).put (t.meant i) v
        (some ⟨f, .userWritable⟩)).put i x none := by
  have hself : EnvId.self.meant i = i := rfl
  obtain ⟨w₁, k₁, bytes, k₂, k₃, h₁, h₂, h₃, h⟩ := copyVia_steps_ok h
  obtain ⟨hk₁, hr₁, x, f, hx, hf, hm₁⟩ := call_pageAlloc_ok hk hr h₁
  obtain rfl := load_ok h₂
  have hm₃ := mappings_of_store h₃
  obtain ⟨w₄, k₄, h₄, h⟩ := callAll_cons_ok h
  obtain ⟨hk₄, hr₄, x', v, p, hx', hv, hp, hm₄⟩ := call_pageMap_ok (.of_store h₃ hk₁) (.of_store h₃ hr₁) h₄
  obtain rfl := Option.some.inj (hx.symm.trans hx')
  obtain ⟨w₅, k₅, h₅, h⟩ := callAll_cons_ok h
  cases h
  obtain ⟨hk₅, hr₅, x', hx', hm₅⟩ := call_pageUnmap_ok hk₄ hr₄ h₅
  obtain rfl := Option.some.inj (hx.symm.trans hx')
  rw [hself] at hm₁ hm₅
  rw [hm₃, hm₁, Mappings.put_self] at hp
  cases hp
  exact ⟨hk₅, hr₅, x, v, f, hx, hv, hf, by rw [hm₅, hm₄, hm₃, hm₁]⟩

/-- **A page that is copied into the child leaves the seal whole**, if the scratch page is none of the sealed ones. -/
theorem Keeping.copyVia (h : k.Keeping i c P sp) (hci : c ≠ i) (hcs : c.isSelf = false)
    (hs : ∀ v, P v → pageDown v.raw ≠ s.toNat) (hc : k.copyVia i s va c = (.ok (), k')) : k'.Keeping i c P sp := by
  have hmeant : c.meant i = c := EnvId.meant_of_not_isSelf hcs
  obtain ⟨hk', hr', x, v, f, hx, hv, hf, hm⟩ := copyVia_ok h.sound h.runs hc
  rw [hmeant] at hm
  refine ⟨hk', hr', h.sealed.grow hf (fun w q hq => ?_) (fun w q hq => ?_) fun w hw => ?_⟩
  · rw [hm] at hq
    simp only [Mappings.put] at hq
    split at hq
    · cases hq
    rename_i hn
    rw [if_neg fun hc => hci hc.1] at hq
    exact hq
  · rw [hm] at hq
    simp only [Mappings.put] at hq
    rw [if_neg fun hn => hci hn.1.symm] at hq
    split at hq
    · cases hq
      exact Or.inl rfl
    · rw [if_neg fun hn => hci hn.1.symm] at hq
      exact Or.inr hq
  · have hxw : x.pageDown ≠ w.pageDown := fun hn => hs w hw ((pageDown_eq_iff hx).1 hn)
    rw [hm]
    simp only [Mappings.put, true_and]
    rw [if_neg hxw, if_neg fun hc => hci hc.1, if_neg hxw]

theorem Keeping.copyStack (h : k.Keeping i c P sp) (hci : c ≠ i) (hcs : c.isSelf = false)
    (hs : ∀ v, P v → pageDown v.raw ≠ scratchBase.toUInt64.toNat) (hc : k.copyStack i c l = (.ok (), k')) :
    k'.Keeping i c P sp := by
  induction l generalizing k with
  | nil =>
    cases hc
    exact h
  | cons x rest ih =>
    obtain ⟨-, hc⟩ | ⟨_, -, ⟨_, -, ⟨⟩⟩ | ⟨k₁, h₁, hc⟩⟩ := copyStack_cons_cases hc
    · exact ih h hc
    · exact ih (h.copyVia hci hcs hs h₁) hc

/-- **The child's exception stack is its own.** -/
theorem Keeping.startChild (h : k.Keeping i c P sp) (hci : c ≠ i) (hcs : c.isSelf = false)
    (hc : k.startChild i c = (.ok (), k')) : k'.Keeping i c P sp := by
  have hmeant : c.meant i = c := EnvId.meant_of_not_isSelf hcs
  obtain ⟨w₁, k₁, w₂, k₂, w₃, h₁, h₂, h₃⟩ := startChild_steps_ok hc
  obtain ⟨hk₁, hr₁, x, f, hx, hf, hm₁⟩ := call_pageAlloc_ok h.sound h.runs h₁
  rw [hmeant] at hm₁
  have hs₁ : k₁.Keeping i c P sp := by
    have hi (w : VirtAddr) : k₁.mappings i w = k.mappings i w := by
      rw [hm₁, Mappings.put, if_neg fun hn => hci hn.1]
    refine ⟨hk₁, hr₁, h.sealed.grow hf (fun w q hq => (hi w).symm.trans hq) (fun w q hq => ?_) fun w _ => hi w⟩
    rw [hm₁, Mappings.put] at hq
    split at hq
    · cases hq
      exact Or.inl rfl
    · exact Or.inr hq
  have hk₂ := sound_of_call hk₁ h₂
  have hs₂ := hs₁.quiet (call_setUpcall hk₁ hr₁ h₂) hk₂
  exact hs₂.quiet (call_setRunnable hk₂ hs₂.runs h₃).1 (sound_of_call hk₂ h₃)

/-- **The child is filled and started**: what the program could write there alone is sealed. -/
theorem populate_ok {brk : Word} (hk : k.Sound []) (hr : k.Runs i sp) (hci : c ≠ i) (hcs : c.isSelf = false)
    (hseal : ∀ k₁, k.Shared k₁ i c (fun v => OnPages (pageSteps textBase brk.toNat) v.raw) sp →
      k₁.mappings.Sealed i c P)
    (hs : ∀ v, P v → pageDown v.raw ≠ scratchBase.toUInt64.toNat) (h : k.populate i c brk = (.ok (), k')) :
    k'.Keeping i c P sp := by
  generalize hp : pageSteps textBase brk.toNat = pages at hseal
  obtain ⟨k₁, regs, k₂, h₁, -, h₂, h₃⟩ := populate_steps_ok hp h
  have hsh := sharePages_ok hk hr hci hcs h₁
  have hk₁ : k₁.Keeping i c P sp := ⟨hsh.sound, hsh.runs, hseal k₁ hsh⟩
  exact (hk₁.copyStack hci hcs hs h₂).startChild hci hcs h₃

end Kernel

namespace UserProcess

open Kernel

variable {p p' q : UserProcess} {k k' k₁ k₂ : Kernel} {c : EnvId} {sp : Word} {child : ForkedChild}

/-! ## The fork -/

/-- The addresses whose pages the fork of a program walks: its text, its data and its heap. -/
def Walks (p : UserProcess) (v : VirtAddr) : Prop := textBase ≤ v.raw ∧ pageDown v.raw < p.runtime.brk.toNat

/-- What the fork of a program marks: what is writable or marked of its text, data and heap. -/
def ForkMarks (p : UserProcess) (k : Kernel) (v : VirtAddr) : Prop :=
  textBase ≤ v.raw ∧ v.raw < p.runtime.brk.toNat ∧
    ∃ e, k.mappings p.env v = some e ∧ e.perm.intersects (.writable ||| .cow)

/-- **What a program has at an address it may write nowhere else**: at no address that its fork does not come to. -/
def Unaliased (p : UserProcess) (k : Kernel) (v : VirtAddr) : Prop :=
  ∀ e w e', k.mappings p.env v = some e → k.mappings p.env w = some e' → e'.frame = e.frame →
    e'.perm.contains .writable → p.Walks w

/-- What the fork of a program marks, and the program may write nowhere else. -/
def ForkSeals (p : UserProcess) (k : Kernel) (v : VirtAddr) : Prop := p.ForkMarks k v ∧ p.Unaliased k v

theorem onPages_of_walks {v : VirtAddr} (h : p.Walks v) : OnPages (pageSteps textBase p.runtime.brk.toNat) v.raw := by
  refine ⟨pageDown v.raw, pageDown_mem_pageSteps (by decide) h.1 h.2, ?_⟩
  have hlt := Nat.lt_of_le_of_lt (pageDown_le v.raw) v.raw_lt
  exact (UInt64.toNat_ofNat_of_lt (Nat.lt_trans hlt (by decide))).symm

theorem ForkMarks.walks {v : VirtAddr} (h : p.ForkMarks k v) : p.Walks v :=
  ⟨h.1, Nat.lt_of_le_of_lt (pageDown_le _) h.2.1⟩

theorem Walks.pageDown_ne_scratchBase {v : VirtAddr} (h : p.Walks v) :
    pageDown v.raw ≠ scratchBase.toUInt64.toNat := by
  have hlow := h.1
  have hs : scratchBase.toUInt64.toNat = scratchBase := by decide
  rw [hs]
  simp only [pageDown, pageSize, textBase, scratchBase] at *
  omega

/-- The program may have been given an exception stack, in a frame that was mapped nowhere. -/
def Readies (p : UserProcess) (k k' : Kernel) : Prop :=
  k'.mappings = k.mappings ∨
    ∃ v f, k.mappings.Fresh f ∧ k'.mappings = k.mappings.put p.env v (some ⟨f, .userWritable⟩)

theorem setHandler_ok {f : FaultHandler} (hk : k.Sound []) (h : p.setHandler k f = (.ok (), p', k')) :
    p' = ⟨p.env, { p.runtime with handler := some f }⟩ ∧ k'.Sound [] ∧ p.Readies k k' := by
  obtain ⟨-, rfl, rfl | hp⟩ | ⟨_, -, ⟨⟩, -⟩ := setHandler_steps h
  · exact ⟨rfl, hk, Or.inl rfl⟩
  refine ⟨rfl, ?_⟩
  obtain ⟨_, -, ⟨⟩⟩ | ⟨k₁, he, hp⟩ := prepareUpcall_steps hp
  obtain ⟨-, hq₁, hk₁, sp, hr₁⟩ | ⟨⟨_, ⟨⟩⟩, -⟩ := enter_cases hk he
  obtain ⟨w₁, k₂, h₁, hp⟩ := callAll_cons_ok hp
  obtain ⟨hk₂, hr₂, v, g, -, hg, hm₂⟩ := call_pageAlloc_ok hk₁ hr₁ h₁
  obtain ⟨w₂, k₃, h₂, hp⟩ := callAll_cons_ok hp
  cases hp
  have hself : EnvId.self.meant p.env = p.env := rfl
  rw [hself, hq₁.mappings] at hm₂
  rw [hq₁.mappings] at hg
  exact ⟨sound_of_call hk₂ h₂, Or.inr ⟨v, g, hg, by rw [(call_setUpcall hk₂ hr₂ h₂).mappings, hm₂]⟩⟩

/-- **A child has nothing mapped when it is made.** -/
theorem exofork_ok (hk : k.Sound []) (h : p.exofork k = (.ok c, k')) :
    k'.Sound [] ∧ (∃ sp, k'.Runs p.env sp) ∧ c ≠ p.env ∧ c.isSelf = false ∧ k'.mappings = k.mappings ∧
      ∀ v, k.mappings c v = none := by
  unfold exofork at h
  rcases he : p.enter k with ⟨r₁, k₁⟩
  rw [he] at h
  rcases enter_cases hk he with ⟨rfl, hq₁, hk₁, sp, hr₁⟩ | ⟨⟨err, rfl⟩, -⟩
  swap
  · cases h
  dsimp only at h
  have hk' : k'.Sound [] := by
    have := hk₁.callForId p.env .exofork
    rwa [h] at this
  rcases callForId_exofork hk₁ hr₁ h with ⟨⟨err, hx⟩, -⟩ | ⟨child, e, hx, hnone, hself, -, -, hmap, hspares⟩
  · cases hx
  cases hx
  refine ⟨hk', ⟨sp, (hspares _).runs hr₁⟩, ?_, hself, hmap.trans hq₁.mappings, fun v => ?_⟩
  · rintro rfl
    obtain ⟨e, he, -⟩ := hr₁
    rw [hnone] at he
    cases he
  · rw [← hq₁.mappings, mappings_of_env?_none hnone]

/-- **A frame that is to be marked may be written at no address that the fork does not come to**, also after the exception
stack has been made. -/
theorem ForkSeals.frame_ne {v : VirtAddr} (hv : p.ForkSeals k v) (hset : p.Readies k k₁) : ∃ e, k₁.mappings p.env v = some e ∧
      e.perm.intersects (.writable ||| .cow) ∧ ∀ w e', k₁.mappings p.env w = some e' → e'.perm.contains .writable →
        ¬ OnPages (pageSteps textBase p.runtime.brk.toNat) w.raw → e'.frame ≠ e.frame := by
  obtain ⟨hv, hu⟩ := hv
  obtain ⟨-, -, e, he, hx⟩ := id hv
  have hold {w : VirtAddr} {e' : Pte} (he' : k.mappings p.env w = some e') (hw : e'.perm.contains .writable)
      (hn : ¬ OnPages (pageSteps textBase p.runtime.brk.toNat) w.raw) : e'.frame ≠ e.frame :=
    fun hf => hn (onPages_of_walks (hu e w e' he he' hf hw))
  rcases hset with hm | ⟨s, f, hf, hm⟩
  · rw [hm]
    exact ⟨e, he, hx, fun w e' he' hw hn => hold he' hw hn⟩
  by_cases hsv : s.pageDown = v.pageDown
  · refine ⟨⟨f, .userWritable⟩, ?_, ?_, fun w e' he' hw hn => ?_⟩
    · rw [hm, Mappings.put, if_pos ⟨rfl, hsv⟩]
    · exact Perm.intersects_userWritable
    · rw [hm, Mappings.put] at he'
      split at he'
      · -- the page of the exception stack is then one that the fork comes to
        rename_i hc
        refine absurd ?_ hn
        obtain ⟨x, hx, hpage⟩ := onPages_of_walks hv.walks
        exact ⟨x, hx, (congrArg VirtAddr.raw (hc.2.symm.trans hsv)).trans hpage⟩
      · exact hf _ _ _ he'
  · refine ⟨e, ?_, hx, fun w e' he' hw hn => ?_⟩
    · rw [hm, Mappings.put, if_neg fun hc => hsv hc.2, he]
    · rw [hm, Mappings.put] at he'
      split at he'
      · cases he'
        exact (hf _ _ _ he).symm
      · exact hold he' hw hn

/-- **What is shared is sealed**, if the program may write it nowhere else. -/
theorem sealed_of_shared (hset : p.Readies k k₁) (hn : ∀ v, k₁.mappings c v = none)
    (hs : k₁.Shared k₂ p.env c (fun v => OnPages (pageSteps textBase p.runtime.brk.toNat) v.raw) sp) :
    k₂.mappings.Sealed p.env c (p.ForkSeals k) := by
  have hparent {v w : VirtAddr} {e q : Pte} (hv : p.ForkSeals k v) (he : k₁.mappings p.env v = some e)
      (hq : k₂.mappings p.env w = some q) (hw : q.perm.contains .writable) : q.frame ≠ e.frame := by
    obtain ⟨e', he', -, hno⟩ := hv.frame_ne hset
    obtain rfl := Option.some.inj (he.symm.trans he')
    obtain ⟨hq₁, hoff⟩ := hs.parent w q hq hw
    exact hno w q hq₁ hw hoff
  refine ⟨fun v hv => ?_, fun v p' w q hv hp hq hw => ?_⟩
  · obtain ⟨e, he, hx, -⟩ := hv.frame_ne hset
    refine ⟨e.frame, (hs.marked v e (onPages_of_walks hv.1.walks) he hx).1, fun j w q hj hq hw => ?_⟩
    rcases hj with rfl | rfl
    · exact hparent hv he hq hw
    · have hq₁ := hs.child w q hq hw
      rw [hn w] at hq₁
      cases hq₁
  · obtain ⟨e, he, hx, -⟩ := hv.frame_ne hset
    obtain rfl := Option.some.inj (hp.symm.trans (hs.marked v e (onPages_of_walks hv.1.walks) he hx).2)
    have hne := hparent hv he hq hw
    exact hne

/-- **A fork that succeeds keeps sealed what is sealed when the pages have been shared.** -/
theorem fork_ok {P : VirtAddr → Prop} (hk : k.Sound []) (h : p.fork k = (.ok child, p', k'))
    (hseal : ∀ k₁ k₂ sp, p.Readies k k₁ → (∀ v, k₁.mappings child.id v = none) →
      k₁.Shared k₂ p.env child.id (fun v => OnPages (pageSteps textBase p.runtime.brk.toNat) v.raw) sp →
      k₂.mappings.Sealed p.env child.id P)
    (hs : ∀ v, P v → pageDown v.raw ≠ scratchBase.toUInt64.toNat) :
    p' = ⟨p.env, { p.runtime with handler := some Routine.copyOnWrite }⟩ ∧ child.runtime = p'.runtime ∧
      child.id ≠ p.env ∧ ∃ sp, k'.Keeping p.env child.id P sp := by
  obtain ⟨k₁, k₂, k₃, hset, hexo, hpop, hruntime, rfl⟩ := fork_steps_ok h
  obtain ⟨hp₁, hk₁, hm₁⟩ := setHandler_ok hk hset
  have henv : p'.env = p.env := by rw [hp₁]
  have hbrk : p'.runtime.brk = p.runtime.brk := by rw [hp₁]
  obtain ⟨hk₂, ⟨sp, hr₂⟩, hci, hcs, hm₂, hnone⟩ := exofork_ok hk₁ hexo
  rw [henv] at hr₂ hci
  refine ⟨hp₁, hruntime, hci, sp, ?_⟩
  unfold populate at hpop
  rcases he : p'.enter k₂ with ⟨r, k₄⟩
  rw [he] at hpop
  rcases enter_cases hk₂ he with ⟨rfl, hq, hk₄, -⟩ | ⟨⟨err, rfl⟩, -⟩
  swap
  · cases hpop
  dsimp only at hpop
  rw [henv, hbrk] at hpop
  have hm₄ : k₄.mappings = k₁.mappings := hq.mappings.trans hm₂
  have hready : p.Readies k k₄ := by
    unfold Readies
    rw [hm₄]
    exact hm₁
  have hkeep : k₃.Keeping p.env child.id P sp :=
    populate_ok hk₄ (hq.runs hr₂) hci hcs (fun k₅ => hseal k₄ k₅ sp hready fun v => by rw [hm₄, hnone v]) hs hpop
  exact hkeep.quiet (.log k₃ _) (hkeep.sound.log _)

end UserProcess

/-- **A child is taken up**, and nothing else happens. -/
theorem ForkedChild.resume_ok {c : ForkedChild} {k k' : Kernel} {q : UserProcess} (hk : k.Sound [])
    (h : c.resume k = (.ok q, k')) :
    k.Quiet k' ∧ k'.Sound [] ∧ q.env = c.id ∧ q.runtime.handler = c.runtime.handler := by
  unfold resume at h
  split at h
  · cases h
  rename_i k₁ hd
  obtain ⟨sp, hr₁⟩ := Kernel.runs_of_dispatch hd
  have hk₁ := hk.dispatch hd
  have hq₁ := Kernel.Quiet.dispatch hd
  split at h
  · cases h
  split at h
  · cases h
  have hk₂ := hk₁.callForId c.id .getEnvId
  rcases hcall : k₁.callForId c.id .getEnvId with ⟨err | i, k₂⟩
  · rw [hcall] at h
    cases h
  · rw [hcall] at h hk₂
    cases h
    exact ⟨hq₁.trans (Kernel.callForId_getEnvId hk₁ hr₁ hcall), hk₂, rfl, rfl⟩

namespace UserProcess

open Kernel

variable {p p' q : UserProcess} {k k₁ k₂ : Kernel} {child : ForkedChild}

theorem copiesOnWrite_of_handler (h : p.runtime.handler = some Routine.copyOnWrite) : p.CopiesOnWrite := by
  intro f hf
  exact Option.some.inj (hf.symm.trans h)

/-- **A fork keeps parent and child apart**, on each page of the text, data and heap that was writable or marked and that the
parent may write at no address that the fork does not come to.  When the child has been taken up, such a page is marked in the
parent, and neither of the two may write its frame at any address.  From then on, in whatever order the two use their memories,
what one of them does to its memory leaves what the other reads there as it is. -/
theorem fork_isolates (hk : k.Reachable) (hf : p.fork k = (.ok child, p', k₁)) (hr : child.resume k₁ = (.ok q, k₂)) :
    (∀ v, p.ForkMarks k v → p.Unaliased k v → ∃ f, k₂.mappings p'.env v = some ⟨f, .userCow⟩ ∧
      ∀ j w e, j = p'.env ∨ j = q.env → k₂.mappings j w = some e → e.perm.contains .writable → e.frame ≠ f) ∧
    ∀ k₃ k₄ v b, Turns p' q k₂ k₃ → p.ForkMarks k v → p.Unaliased k v →
      (p'.Uses k₃ k₄ → k₃.Shows q.env v.raw b → k₄.Shows q.env v.raw b) ∧
      (q.Uses k₃ k₄ → k₃.Shows p'.env v.raw b → k₄.Shows p'.env v.raw b) := by
  obtain ⟨hp', hrt, hci, sp, hkeep⟩ := fork_ok (P := p.ForkSeals k) hk.sound hf
    (fun _ _ _ hset hn hs => sealed_of_shared hset hn hs) fun v hv => hv.1.walks.pageDown_ne_scratchBase
  obtain ⟨hq, hk₂, hqenv, hqh⟩ := child.resume_ok hkeep.sound hr
  have henv : p'.env = p.env := by rw [hp']
  have hcp : p'.CopiesOnWrite := copiesOnWrite_of_handler (by rw [hp'])
  have hcq : q.CopiesOnWrite := copiesOnWrite_of_handler (by rw [hqh, hrt, hp'])
  have hkeep₂ := hkeep.quiet hq hk₂
  rw [henv, hqenv]
  refine ⟨fun v hv hu => hkeep₂.sealed.marked v ⟨hv, hu⟩, fun k₃ k₄ v b ht hv hu => ?_⟩
  have hparted : k₂.Parted p'.env q.env (p.ForkSeals k) := by
    rw [henv, hqenv]
    exact Sealed.parted hk₂ hci hkeep₂.sealed
  have hparted₃ := ht.parted hparted hcp hcq
  rw [← henv, ← hqenv]
  exact ⟨fun hu' hs => (hu'.respects hparted₃ hcp).shows v b ⟨hv, hu⟩ hs,
    fun hu' hs => (hu'.respects hparted₃.symm hcq).shows v b ⟨hv, hu⟩ hs⟩

/-- A program with a page of data and no stack in use. -/
def dataProgram : Kernel := ((ofConfig ⟨24, 2⟩).log (.booted ⟨24, 2⟩)).run [.spawn { data := #[5] },
  .perform ⟨4096⟩ (.resumeWith ({ Registers.zero with sepc := textBase.toUInt64 }.setSp userTop.toUInt64))]

theorem reachable_dataProgram : dataProgram.Reachable := Reachable.run (.boot (c := ⟨24, 2⟩) rfl) _

theorem eq_ok_getD {ε α β : Type} {x : Except ε α × β} (h : x.1.toOption.isSome) (d : α) :
    x = (.ok (x.1.toOption.getD d), x.2) := by
  obtain ⟨_ | a, b⟩ := x
  · cases h
  · rfl

theorem fork_eq (h : (p.fork k).1.toOption.isSome) (d : ForkedChild) :
    p.fork k = (.ok ((p.fork k).1.toOption.getD d), (p.fork k).2.1, (p.fork k).2.2) :=
  eq_ok_getD h d

/-- A program with a page of data forks. -/
theorem fork_isolates_data : ∃ (k k₁ k₂ : Kernel) (p p' q : UserProcess) (child : ForkedChild) (v : VirtAddr),
    k.Reachable ∧ p.fork k = (.ok child, p', k₁) ∧ child.resume k₁ = (.ok q, k₂) ∧ p.ForkMarks k v ∧ p.Unaliased k v ∧
    (∃ f, k₂.mappings p'.env v = some ⟨f, .userCow⟩) ∧
    ∀ k₃ k₄ b, Turns p' q k₂ k₃ → p'.Uses k₃ k₄ → k₃.Shows q.env v.raw b → k₄.Shows q.env v.raw b := by
  let p : UserProcess := .ofEnv ⟨4096⟩ (textBase + pageSize).toUInt64
  have hx : (p.fork dataProgram).1.toOption.isSome := by decide +kernel
  have hy : (((p.fork dataProgram).1.toOption.getD ⟨⟨0⟩, p.runtime⟩).resume
      (p.fork dataProgram).2.2).1.toOption.isSome := by decide +kernel
  have hf := fork_eq hx ⟨⟨0⟩, p.runtime⟩
  have hr := eq_ok_getD hy p
  have hbrk : p.runtime.brk.toNat = textBase + pageSize := by decide
  have hm : dataProgram.mappings p.env ⟨textBase, by decide⟩ = some ⟨⟨0, 1⟩, .userWritable⟩ := by decide +kernel
  have hall : (dataProgram.env? p.env).map (fun e => e.space.table.toList) =
      some [(textBase, ⟨⟨0, 1⟩, .userWritable⟩), (stackPage, ⟨⟨0, 3⟩, .userWritable⟩)] := by decide +kernel
  have hv : p.ForkMarks dataProgram ⟨textBase, by decide⟩ :=
    ⟨Nat.le_refl _, by rw [hbrk]; decide, _, hm, Perm.intersects_userWritable⟩
  have hu : p.Unaliased dataProgram ⟨textBase, by decide⟩ := by
    intro e w e' he he' hfr _
    obtain rfl := Option.some.inj (hm.symm.trans he)
    obtain ⟨me, hme, hl⟩ := Option.bind_eq_some_iff.1 he'
    rw [hme, Option.map_some] at hall
    have hmem := PageTable.mem_toList hl
    rw [Option.some.inj hall, List.mem_pair, Prod.mk.injEq, Prod.mk.injEq] at hmem
    -- the stack is in another frame than the data
    rcases hmem with ⟨hw, -⟩ | ⟨-, rfl⟩
    · simp only [Walks, hbrk, VirtAddr.pageDown, pageDown, textBase, pageSize] at *
      omega
    · cases hfr
  have h := fork_isolates reachable_dataProgram hf hr
  obtain ⟨f, hfr, -⟩ := h.1 _ hv hu
  exact ⟨_, _, _, p, _, _, _, _, reachable_dataProgram, hf, hr, hv, hu, ⟨f, hfr⟩,
    fun k₃ k₄ b ht hu' => (h.2 k₃ k₄ _ b ht hv hu).1 hu'⟩

/-- **A program that has its data mapped a second time is not kept apart from its child**: what it stores at the second
address, twice and with different bytes, the child reads in its own data. -/
theorem fork_misses_alias : ∃ (k k₁ k₂ k₃ k₄ : Kernel) (p p' q : UserProcess) (child : ForkedChild) (v : VirtAddr)
    (a : Word), k.Reachable ∧ p.fork k = (.ok child, p', k₁) ∧ child.resume k₁ = (.ok q, k₂) ∧ p.ForkMarks k v ∧
    k₂.store p'.env a #[1] = (.ok (), k₃) ∧ k₃.Shows q.env v.raw 1 ∧
    k₃.store p'.env a #[2] = (.ok (), k₄) ∧ k₄.Shows q.env v.raw 2 := by
  let k := dataProgram.step (.perform ⟨4096⟩ (.ecall 4 #v[0, textBase.toUInt64, 0, 0x10000000, 7]))
  let p : UserProcess := .ofEnv ⟨4096⟩ (textBase + pageSize).toUInt64
  have hk : k.Reachable := .step reachable_dataProgram _
  have hx : (p.fork k).1.toOption.isSome := by decide +kernel
  have hy : (((p.fork k).1.toOption.getD ⟨⟨0⟩, p.runtime⟩).resume (p.fork k).2.2).1.toOption.isSome := by
    decide +kernel
  have hm : k.mappings p.env ⟨textBase, by decide⟩ = some ⟨⟨0, 1⟩, .userWritable⟩ := by decide +kernel
  have hparent : (((p.fork k).1.toOption.getD ⟨⟨0⟩, p.runtime⟩).resume (p.fork k).2.2).2.mappings.entryAt
      (p.fork k).2.1.env 0x10000000 = some ⟨⟨0, 1⟩, .userWritable⟩ := by decide +kernel
  have hchild : (((p.fork k).1.toOption.getD ⟨⟨0⟩, p.runtime⟩).resume (p.fork k).2.2).2.mappings.entryAt
      ((p.fork k).1.toOption.getD ⟨⟨0⟩, p.runtime⟩).id textBase = some ⟨⟨0, 1⟩, .userCow⟩ := by decide +kernel
  have hf := fork_eq hx ⟨⟨0⟩, p.runtime⟩
  have hr := eq_ok_getD hy p
  have hv : p.ForkMarks k ⟨textBase, by decide⟩ := ⟨Nat.le_refl _, by decide, _, hm, Perm.intersects_userWritable⟩
  obtain ⟨-, -, -, sp, hkeep⟩ := fork_ok (P := fun _ => False) hk.sound hf
    (fun _ _ _ _ _ _ => ⟨fun _ hv => hv.elim, fun _ _ _ _ hv => hv.elim⟩) fun _ hv => hv.elim
  obtain ⟨-, hk₂, hqenv, -⟩ := ForkedChild.resume_ok hkeep.sound hr
  rw [← hqenv] at hchild
  have hw : Pte.allows ⟨⟨0, 1⟩, .userWritable⟩ .write := by decide
  have hc : Pte.allows ⟨⟨0, 1⟩, .userCow⟩ .read := by decide
  obtain ⟨k₃, hs₃, hm₃, hk₃⟩ := exists_store (a := 0x10000000) hk₂ hparent hw 1
  have h₃ := shows_of_store hk₂ hs₃ hparent hchild rfl (by decide) hc
  rw [← hm₃] at hparent hchild
  obtain ⟨k₄, hs₄, -, -⟩ := exists_store (a := 0x10000000) hk₃ hparent hw 2
  have h₄ := shows_of_store hk₃ hs₄ hparent hchild rfl (by decide) hc
  exact ⟨k, _, _, k₃, k₄, p, _, _, _, _, 0x10000000, hk, hf, hr, hv, hs₃, h₃, hs₄, h₄⟩

end UserProcess
end Exokernel
