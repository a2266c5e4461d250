import Exokernel.Proofs.User.Access
import Exokernel.Proofs.User.Heap
/-!
# Forks

A fork gives the child what the parent shows, and neither the parent nor anyone else sees a difference.  Pages are shared
one by one, and while the child has a page that the parent has not marked yet, the parent is in the way: a fork that fails
there ends it.
-/
namespace Exokernel

theorem Perm.not_writable_and {q : Perm} (h : ¬ q.intersects (.writable ||| .cow)) (s : Perm) :
    ¬ (q &&& s).contains .writable := by
  have h0 : q.bits &&& (writable ||| cow).bits = 0 := by simpa [intersects] using h
  have h2 : q.bits &&& writable.bits = 0 := by
    rw [show writable.bits = (writable ||| cow).bits &&& writable.bits by decide, ← UInt32.and_assoc, h0,
      UInt32.zero_and]
  intro hc
  have hc : (q &&& s).bits &&& writable.bits = writable.bits := by simpa [contains] using hc
  have hz : (q &&& s).bits &&& writable.bits = 0 := by
    show q.bits &&& s.bits &&& writable.bits = 0
    rw [UInt32.and_assoc, UInt32.and_comm s.bits, ← UInt32.and_assoc, h2, UInt32.zero_and]
  exact absurd (hz.symm.trans hc) (by decide)

namespace Kernel

variable {k k' k₁ : Kernel} {i c : EnvId} {sp va : Word} {q : Perm} {P Q : Nat → Prop} {r : Except Errno Unit}
  {l : List Nat}

/-! ## Page by page -/

/-- The address is on one of some pages. -/
def OnPages (l : List Nat) (a : Nat) : Prop := ∃ x ∈ l, pageDown a = x.toUInt64.toNat

namespace Copies

theorem trans (h : k.Copies k₁ i c P sp) (h' : k₁.Copies k' i c Q sp) : k.Copies k' i c (fun a => P a ∨ Q a) sp where
  calm := h'.calm
  shows a b ha hs := h'.shows a b ha (h.shows a b ha hs)
  copied a b ha hp hs := by
    by_cases hq : Q a
    · exact h'.copied a b ha hq (h.shows a b ha hs)
    · exact h'.other a b ha hq (h.copied a b ha (hp.resolve_right hq) hs)
  other a b ha hp hs := h'.other a b ha (fun hq => hp (Or.inr hq)) (h.other a b ha (fun hp' => hp (Or.inl hp')) hs)
  keeps l hl := (h.keeps l hl).trans (h'.keeps l hl)
  spares l hl hlc := (h.spares l hl hlc).trans (h'.spares l hl hlc)

theorem congr (h : k.Copies k' i c P sp) (hpq : ∀ a, P a ↔ Q a) : k.Copies k' i c Q sp where
  calm := h.calm
  shows := h.shows
  copied a b ha hq := h.copied a b ha ((hpq a).2 hq)
  other a b ha hq := h.other a b ha fun hp => hq ((hpq a).1 hp)
  keeps := h.keeps
  spares := h.spares

theorem falters (h : k.Copies k₁ i c P sp) (h' : k₁.Falters k' i c) : k.Falters k' i c :=
  ⟨h'.sound, h'.apart, h'.alive, fun j hj hc => (h.spares j hj hc).trans (h'.spares j hj hc)⟩

theorem of_unseen (hc : k.Calm i sp) (hn : ∀ a b, P a → ¬ k.Shows i a b) : k.Copies k i c P sp where
  calm := hc
  shows _ _ _ h := h
  copied a b _ hp h := absurd h (hn a b hp)
  other _ _ _ _ h := h
  keeps l _ := .refl k l
  spares l _ _ := .refl k l

theorem cons {x : Nat} (h : k.Copies k₁ i c (pageDown · = x.toUInt64.toNat) sp) (h' : k₁.Copies k' i c (OnPages l) sp) :
    k.Copies k' i c (OnPages (x :: l)) sp :=
  (h.trans h').congr fun a => by simp only [OnPages, List.exists_mem_cons_iff]

end Copies

theorem query_eq (k : Kernel) (i : EnvId) (va : Word) : k.query i va = (k.mappings.entryAt i va.toNat).map Pte.perm := by
  unfold query
  cases h : k.env? i with
  | none =>
    unfold Mappings.entryAt
    cases VirtAddr.ofNat? va.toNat with
    | none => rfl
    | some v => rw [Option.bind_some, mappings_of_env?_none h]; rfl
  | some e => rw [entryAt_of_env? h]

/-- The entry of a page, by its start or by any address on it. -/
theorem entryAt_of_pageOfNat? {v : VirtAddr} {a : Nat} (h : VirtAddr.pageOfNat? va.toNat = some v)
    (ha : pageDown a = va.toNat) : k.mappings.entryAt i a = k.mappings i v := by
  have hv := v.raw_lt
  obtain ⟨hraw, -⟩ := VirtAddr.pageOfNat?_eq_some_iff.1 h
  have hlt : a < userTop := by
    simp only [pageDown, pageSize, userTop] at *
    omega
  unfold Mappings.entryAt VirtAddr.ofNat?
  rw [dif_pos hlt, Option.bind_some]
  unfold mappings
  congr 1
  funext e
  refine PageTable.lookup_congr ?_
  simp only [VirtAddr.pageDown, VirtAddr.mk.injEq]
  rw [ha, hraw]
  simp only [pageDown, pageSize] at *
  omega

theorem shows_same_frame {j : EnvId} {a : Nat} {b : UInt8} {p : Pte} (hs : k.Shows i a b)
    (hp : k.mappings.entryAt i a = some p) (hp' : k'.mappings.entryAt j a = some ⟨p.frame, q⟩)
    (hpres : q.contains .present) (huser : q.contains .user)
    (hpage : k'.machine.page p.frame = k.machine.page p.frame) : k'.Shows j a b := by
  obtain ⟨p', hentry, -, hb⟩ := hs
  rw [hp] at hentry
  cases hentry
  exact ⟨_, hp', Pte.allows_read_of hpres huser, by rw [Machine.byte_congr hpage, hb]⟩

/-! ## Sharing a page -/

theorem share_marked (hc : k.Calm i sp) (hci : c ≠ i) (hcs : c.isSelf = false)
    (h : k.callAll i [.pageMap .self va c va .userCow, .pageMap .self va .self va .userCow] = (r, k')) :
    (r = .ok () ∧ k.Copies k' i c (pageDown · = va.toNat) sp) ∨ ∃ err, r = .error err ∧ k.Falters k' i c := by
  have hself : EnvId.self.meant i = i := rfl
  have hmeant : c.meant i = c := EnvId.meant_of_not_isSelf hcs
  rcases callAll_cons_cases h with ⟨err, h₁, rfl⟩ | ⟨_, k₁, h₁, h⟩
  all_goals have hk₁ := sound_of_call hc.sound h₁
  · obtain ⟨-, hq⟩ | ⟨⟨⟩, -⟩ := call_pageMap hc.sound hc.runs h₁
    exact Or.inr ⟨err, rfl, (hc.quiet hq hk₁).calm.falters fun j _ _ => hq.spares j⟩
  obtain ⟨⟨_, ⟨⟩⟩, -⟩ | ⟨-, v, w, pte, hv, hw, hpte, hm₁⟩ := call_pageMap hc.sound hc.runs h₁
  obtain rfl : v = w := Option.some.inj (hv.symm.trans hw)
  rw [hself] at hpte
  rw [hmeant] at hm₁
  have hpte₁ : k₁.mappings i v = some pte := by
    rw [hm₁.mappings, Mappings.put, if_neg (fun hn => hci hn.1), hpte]
  rcases callAll_cons_cases h with ⟨err, h₂, rfl⟩ | ⟨_, k₂, h₂, h⟩
  all_goals have hk₂ := sound_of_call hk₁ h₂
  · -- the child has the page and the parent has not marked it
    obtain ⟨-, hq⟩ | ⟨⟨⟩, -⟩ := call_pageMap hk₁ (hm₁.runs hc.runs) h₂
    refine Or.inr ⟨err, rfl, hk₂, ?_, Or.inr ⟨sp, hq.runs (hm₁.runs hc.runs)⟩, fun j _ hj => ?_⟩
    · rw [hq.mappings, hm₁.mappings]
      exact hc.exclusive.put_shared hpte (by decide)
    · exact (hm₁.spares j hj).trans (hq.spares j)
  obtain ⟨⟨_, ⟨⟩⟩, -⟩ | ⟨-, v', w', pte', hv', hw', hpte', hm₂⟩ := call_pageMap hk₁ (hm₁.runs hc.runs) h₂
  obtain rfl : v = v' := Option.some.inj (hv.symm.trans hv')
  obtain rfl : v = w' := Option.some.inj (hv.symm.trans hw')
  rw [hself] at hpte' hm₂
  obtain rfl : pte = pte' := Option.some.inj (hpte₁.symm.trans hpte')
  cases h
  have hmap := hm₂.mappings
  rw [hm₁.mappings] at hmap
  have hpage : k'.machine.page pte.frame = k.machine.page pte.frame := by
    have hput : k'.mappings i v = some ⟨pte.frame, .userCow⟩ := by rw [hmap, Mappings.put_self]
    rw [hm₂.page _ (hk₂.refs_pos_of_mappings hput), hm₁.page _ (hk₁.refs_pos_of_mappings hpte₁)]
  have hraw := VirtAddr.raw_pageDown hv
  have hother {j : EnvId} {a : Nat} {b : UInt8} (hp : pageDown a ≠ va.toNat) (hs : k.Shows j a b) : k'.Shows j a b :=
    hm₂.shows hk₂ (hm₁.shows hk₁ hs fun hn => hp (hn.2.symm.trans hraw)) fun hn => hp (hn.2.symm.trans hraw)
  have hpres : Perm.userCow.contains .present := by decide
  have huser : Perm.userCow.contains .user := by decide
  have hsame {a : Nat} {b : UInt8} (hp : pageDown a = va.toNat) (hs : k.Shows i a b) :
      k'.Shows i a b ∧ k'.Shows c a b := by
    have hentry := (entryAt_of_pageOfNat? hv hp).trans hpte
    refine ⟨shows_same_frame hs hentry ?_ hpres huser hpage, shows_same_frame hs hentry ?_ hpres huser hpage⟩
    · rw [hmap, Mappings.entryAt_put, if_pos ⟨rfl, by rw [hraw, hp]⟩]
    · rw [hmap, Mappings.entryAt_put, if_neg (fun hn => hci hn.1.symm), Mappings.entryAt_put,
        if_pos ⟨rfl, by rw [hraw, hp]⟩]
  refine Or.inl ⟨rfl, ⟨hk₂, ?_, hm₂.runs (hm₁.runs hc.runs)⟩, fun a b _ hs => ?_, fun a b _ hp hs => (hsame hp hs).2,
    fun a b _ hp hs => hother hp hs, fun l _ => (hm₁.keeps l).trans (hm₂.keeps l),
    fun l hl hlc => (hm₁.spares l hlc).trans (hm₂.spares l hl)⟩
  · rw [hmap]
    exact hc.exclusive.put_marked hpte (by decide)
  · by_cases hp : pageDown a = va.toNat
    · exact (hsame hp hs).1
    · exact hother hp hs

theorem share_readOnly (hc : k.Calm i sp) (hcs : c.isSelf = false) (hq : k.query i va = some q)
    (hro : ¬ q.intersects (.writable ||| .cow))
    (h : k.callAll i [.pageMap .self va c va (q &&& .syscall)] = (r, k')) :
    (r = .ok () ∧ k.Copies k' i c (pageDown · = va.toNat) sp) ∨ ∃ err, r = .error err ∧ k.Falters k' i c := by
  have hself : EnvId.self.meant i = i := rfl
  have hmeant : c.meant i = c := EnvId.meant_of_not_isSelf hcs
  rcases callAll_cons_cases h with ⟨err, h₁, rfl⟩ | ⟨_, k₁, h₁, h⟩
  all_goals have hk₁ := sound_of_call hc.sound h₁
  · obtain ⟨-, hq⟩ | ⟨⟨⟩, -⟩ := call_pageMap hc.sound hc.runs h₁
    exact Or.inr ⟨err, rfl, (hc.quiet hq hk₁).calm.falters fun j _ _ => hq.spares j⟩
  obtain ⟨⟨_, ⟨⟩⟩, -⟩ | ⟨-, v, w, pte, hv, hw, hpte, hm⟩ := call_pageMap hc.sound hc.runs h₁
  obtain rfl : v = w := Option.some.inj (hv.symm.trans hw)
  rw [hself] at hpte
  rw [hmeant] at hm
  cases h
  have hraw := VirtAddr.raw_pageDown hv
  have hperm : pte.perm = q := by
    rw [query_eq, entryAt_of_pageOfNat? hv (a := va.toNat), hpte] at hq
    · exact Option.some.inj hq
    · have := (VirtAddr.pageOfNat?_eq_some_iff.1 hv).2
      simp only [pageDown, pageSize] at *
      omega
  have hnw := Perm.not_writable_and hro .syscall
  have hpage : k'.machine.page pte.frame = k.machine.page pte.frame := by
    have hput : k'.mappings c v = some ⟨pte.frame, q &&& .syscall⟩ := by rw [hm.mappings, Mappings.put_self]
    have hpos := hk₁.refs_pos_of_mappings hput
    exact hm.page _ hpos
  have hx : k'.mappings.Exclusive := by
    rw [hm.mappings]
    refine hc.exclusive.put_readOnly hpte (fun hw => ?_) hnw
    have := Perm.contains_and hw (show Perm.writable.contains .writable by decide)
    exact Perm.not_writable_and hro .writable (by rwa [hperm] at this)
  have hcopied (a : Nat) (b : UInt8) (hp : pageDown a = va.toNat) (hs : k.Shows i a b) : k'.Shows c a b := by
    have hentry := (entryAt_of_pageOfNat? hv hp).trans hpte
    obtain ⟨p, hp', hal, -⟩ := id hs
    rw [hentry] at hp'
    cases hp'
    obtain ⟨hpres, huser⟩ := Pte.contains_of_allows hal
    rw [hperm] at hpres huser
    refine shows_same_frame hs hentry ?_ (Perm.contains_and hpres (show Perm.syscall.contains .present by decide))
      (Perm.contains_and huser (show Perm.syscall.contains .user by decide)) hpage
    rw [hm.mappings, Mappings.entryAt_put, if_pos ⟨rfl, by rw [hraw, hp]⟩]
  have hother {j : EnvId} {a : Nat} {b : UInt8} (hn : ¬ (c = j ∧ pageDown a = va.toNat)) (hs : k.Shows j a b) :
      k'.Shows j a b := hm.shows hk₁ hs fun hn' => hn ⟨hn'.1, by rw [← hn'.2, hraw]⟩
  refine Or.inl ⟨rfl, ⟨hk₁, hx, hm.runs hc.runs⟩, fun a b _ hs => ?_, fun a b _ hp hs => hcopied a b hp hs,
    fun a b _ hp hs => hother (fun hn => hp hn.2) hs, fun l _ => hm.keeps l, fun l _ hlc => hm.spares l hlc⟩
  by_cases hp : c = i ∧ pageDown a = va.toNat
  · have := hcopied a b hp.2 hs
    rwa [hp.1] at this
  · exact hother hp hs

/-- **A page is shared**, whatever its permission, or the program falters. -/
theorem sharePage_cases (hc : k.Calm i sp) (hci : c ≠ i) (hcs : c.isSelf = false) (hq : k.query i va = some q)
    (h : k.callAll i (sharePageCalls c va q) = (r, k')) :
    (r = .ok () ∧ k.Copies k' i c (pageDown · = va.toNat) sp) ∨ ∃ err, r = .error err ∧ k.Falters k' i c := by
  unfold sharePageCalls at h
  split at h
  · exact share_marked hc hci hcs h
  · rename_i hro
    exact share_readOnly hc hcs hq hro h

theorem query_of_shows {a : Nat} {b : UInt8} (hs : k.Shows i a b) (ha : pageDown a = va.toNat) : k.query i va ≠ none := by
  obtain ⟨p, hp, -, -⟩ := hs
  obtain ⟨w, hw, -⟩ := Option.bind_eq_some_iff.1 hp
  have hlt := w.raw_lt
  rw [VirtAddr.ofNat?_eq_some_iff.1 hw] at hlt
  have hva : va.toNat < userTop := by
    have := pageDown_le a
    omega
  have hpage : VirtAddr.pageOfNat? va.toNat = some ⟨va.toNat, hva⟩ := by
    refine VirtAddr.pageOfNat?_eq_some_iff.2 ⟨rfl, ?_⟩
    rw [← ha]
    exact Nat.mul_mod_left _ _
  have hdown : pageDown va.toNat = va.toNat := by
    rw [← ha]
    simp only [pageDown, pageSize]
    omega
  rw [query_eq, entryAt_of_pageOfNat? hpage hdown, ← entryAt_of_pageOfNat? hpage ha, hp]
  simp

/-- The sharing of pages passes over one that is not mapped, ends with one that cannot be shared, or goes on. -/
theorem sharePages_cons_cases {x : Nat} {r : Except (ForkStep × Errno) Unit} (h : k.sharePages i c (x :: l) = (r, k')) :
    (k.query i x.toUInt64 = none ∧ k.sharePages i c l = (r, k')) ∨
    ∃ q, k.query i x.toUInt64 = some q ∧
      ((∃ err, k.callAll i (sharePageCalls c x.toUInt64 q) = (.error err, k') ∧
          r = .error (.duplicate x.toUInt64, err)) ∨
        ∃ k₁, k.callAll i (sharePageCalls c x.toUInt64 q) = (.ok (), k₁) ∧ k₁.sharePages i c l = (r, k')) := by
  unfold sharePages at h
  dsimp only at h
  rcases hq : k.query i x.toUInt64 with _ | q <;> rw [hq] at h
  · exact Or.inl ⟨rfl, h⟩
  refine Or.inr ⟨q, rfl, ?_⟩
  dsimp only at h
  rcases h₁ : k.callAll i (sharePageCalls c x.toUInt64 q) with ⟨err | _, k₁⟩ <;> rw [h₁] at h
  · cases h
    exact Or.inl ⟨err, rfl, rfl⟩
  · exact Or.inr ⟨k₁, rfl, h⟩

/-- **All pages are shared**, or the program falters. -/
theorem sharePages_cases (hc : k.Calm i sp) (hci : c ≠ i) (hcs : c.isSelf = false) {r : Except (ForkStep × Errno) Unit}
    (h : k.sharePages i c l = (r, k')) :
    (r = .ok () ∧ k.Copies k' i c (OnPages l) sp) ∨ ∃ err, r = .error err ∧ k.Falters k' i c := by
  induction l generalizing k with
  | nil =>
    cases h
    exact Or.inl ⟨rfl, .of_unseen hc fun a b ⟨x, hx, _⟩ => by cases hx⟩
  | cons x rest ih =>
    rcases sharePages_cons_cases h with ⟨hq, h⟩ | ⟨q, hq, ⟨err, h₁, rfl⟩ | ⟨k₁, h₁, h⟩⟩
    · have hskip : k.Copies k i c (pageDown · = x.toUInt64.toNat) sp :=
        .of_unseen hc fun a b ha hs => query_of_shows hs ha hq
      exact (ih hc h).imp_left fun ⟨hr, hcp⟩ => ⟨hr, hskip.cons hcp⟩
    · obtain ⟨⟨⟩, -⟩ | ⟨_, -, hf⟩ := sharePage_cases hc hci hcs hq h₁
      exact Or.inr ⟨_, rfl, hf⟩
    · obtain ⟨-, hcp⟩ | ⟨_, ⟨⟩, -⟩ := sharePage_cases hc hci hcs hq h₁
      rcases ih hcp.calm h with ⟨hr, hrest⟩ | ⟨err, hr, hf⟩
      · exact Or.inl ⟨hr, hcp.cons hrest⟩
      · exact Or.inr ⟨err, hr, hcp.falters hf⟩

/-! ## The stack and the start -/

theorem InProgram.pageDown_ne_scratchBase {a : Nat} (ha : InProgram a) : pageDown a ≠ scratchBase.toUInt64.toNat := by
  have hlow := ha.le_pageDown
  have hs : scratchBase.toUInt64.toNat < textBase := by decide
  omega

theorem InProgram.pageDown_ne_exceptionStackBase {a : Nat} (ha : InProgram a) :
    pageDown a ≠ exceptionStackBase.toUInt64.toNat := by
  have hlow : stackTop < exceptionStackBase.toUInt64.toNat := by decide
  have := pageDown_le a
  have := ha.2
  omega

/-- The copying of pages passes over one that is not mapped, ends with one that cannot be copied, or goes on. -/
theorem copyStack_cons_cases {x : Nat} {r : Except (ForkStep × Errno) Unit} (h : k.copyStack i c (x :: l) = (r, k')) :
    (k.query i x.toUInt64 = none ∧ k.copyStack i c l = (r, k')) ∨
    ∃ q, k.query i x.toUInt64 = some q ∧
      ((∃ err, k.copyVia i scratchBase.toUInt64 x.toUInt64 c = (.error err, k') ∧ r = .error (.stack x.toUInt64, err)) ∨
        ∃ k₁, k.copyVia i scratchBase.toUInt64 x.toUInt64 c = (.ok (), k₁) ∧ k₁.copyStack i c l = (r, k')) := by
  unfold copyStack at h
  dsimp only at h
  rcases hq : k.query i x.toUInt64 with _ | q <;> rw [hq] at h
  · exact Or.inl ⟨rfl, h⟩
  refine Or.inr ⟨q, rfl, ?_⟩
  dsimp only at h
  rw [copyToChild_eq] at h
  rcases h₁ : k.copyVia i scratchBase.toUInt64 x.toUInt64 c with ⟨err | _, k₁⟩ <;> rw [h₁] at h
  · cases h
    exact Or.inl ⟨err, rfl, rfl⟩
  · exact Or.inr ⟨k₁, rfl, h⟩

/-- **All stack pages are copied**, or the program falters. -/
theorem copyStack_cases (hc : k.Calm i sp) (hcs : c.isSelf = false) {r : Except (ForkStep × Errno) Unit}
    (h : k.copyStack i c l = (r, k')) :
    (r = .ok () ∧ k.Copies k' i c (OnPages l) sp) ∨ ∃ err, r = .error err ∧ k.Falters k' i c := by
  have hmeant : c.meant i = c := EnvId.meant_of_not_isSelf hcs
  induction l generalizing k with
  | nil =>
    cases h
    exact Or.inl ⟨rfl, .of_unseen hc fun a b ⟨x, hx, _⟩ => by cases hx⟩
  | cons x rest ih =>
    rcases copyStack_cons_cases h with ⟨hq, h⟩ | ⟨q, hq, h⟩
    · have hskip : k.Copies k i c (pageDown · = x.toUInt64.toNat) sp :=
        .of_unseen hc fun a b ha hs => query_of_shows hs ha hq
      exact (ih hc h).imp_left fun ⟨hr, hcp⟩ => ⟨hr, hskip.cons hcp⟩
    have hcopy {r₁ : Except Errno Unit} {k₁ : Kernel} (h₁ : k.copyVia i scratchBase.toUInt64 x.toUInt64 c = (r₁, k₁)) :=
      copyVia_cases hc (fun a ha => ha.pageDown_ne_scratchBase) h₁
    rw [hmeant] at hcopy
    rcases h with ⟨err, h₁, rfl⟩ | ⟨k₁, h₁, h⟩
    · obtain ⟨⟨⟩, -⟩ | ⟨_, -, hf⟩ := hcopy h₁
      exact Or.inr ⟨_, rfl, hf⟩
    · obtain ⟨-, hcp⟩ | ⟨_, ⟨⟩, -⟩ := hcopy h₁
      rcases ih hcp.calm h with ⟨hr, hrest⟩ | ⟨err, hr, hf⟩
      · exact Or.inl ⟨hr, hcp.cons hrest⟩
      · exact Or.inr ⟨err, hr, hcp.falters hf⟩

/-- **How far a start comes**: a call for the exception stack, the upcall or the status fails, or none does. -/
theorem startChild_steps {r : Except (ForkStep × Errno) Unit} (h : k.startChild i c = (r, k')) :
    (∃ err, k.call i (.pageAlloc c exceptionStackBase.toUInt64 .userWritable) = (.error err, k') ∧
      r = .error (.exceptionStack, err)) ∨
    ∃ w k₁, k.call i (.pageAlloc c exceptionStackBase.toUInt64 .userWritable) = (.ok w, k₁) ∧
      ((∃ err, k₁.call i (.setUpcall c upcallEntry.toUInt64) = (.error err, k') ∧ r = .error (.upcall, err)) ∨
        ∃ w k₂, k₁.call i (.setUpcall c upcallEntry.toUInt64) = (.ok w, k₂) ∧
          ((∃ err, k₂.call i (.setStatus c .runnable) = (.error err, k') ∧ r = .error (.start, err)) ∨
            ∃ w, k₂.call i (.setStatus c .runnable) = (.ok w, k') ∧ r = .ok ())) := by
  unfold startChild at h
  rcases h₁ : k.call i (.pageAlloc c exceptionStackBase.toUInt64 .userWritable) with ⟨err | w, k₁⟩ <;> rw [h₁] at h
  · cases h
    exact Or.inl ⟨err, rfl, rfl⟩
  refine Or.inr ⟨w, k₁, rfl, ?_⟩
  dsimp only at h
  rcases h₂ : k₁.call i (.setUpcall c upcallEntry.toUInt64) with ⟨err | w, k₂⟩ <;> rw [h₂] at h
  · cases h
    exact Or.inl ⟨err, rfl, rfl⟩
  refine Or.inr ⟨w, k₂, rfl, ?_⟩
  dsimp only at h
  rcases h₃ : k₂.call i (.setStatus c .runnable) with ⟨err | w, k₃⟩ <;> rw [h₃] at h <;> cases h
  · exact Or.inl ⟨err, rfl, rfl⟩
  · exact Or.inr ⟨w, rfl, rfl⟩

theorem startChild_steps_ok (h : k.startChild i c = (.ok (), k')) :
    ∃ w₁ k₁ w₂ k₂ w₃, k.call i (.pageAlloc c exceptionStackBase.toUInt64 .userWritable) = (.ok w₁, k₁) ∧
      k₁.call i (.setUpcall c upcallEntry.toUInt64) = (.ok w₂, k₂) ∧
      k₂.call i (.setStatus c .runnable) = (.ok w₃, k') := by
  obtain ⟨_, -, ⟨⟩⟩ | ⟨w₁, k₁, h₁, ⟨_, -, ⟨⟩⟩ | ⟨w₂, k₂, h₂, ⟨_, -, ⟨⟩⟩ | ⟨w₃, h₃, -⟩⟩⟩ := startChild_steps h
  exact ⟨w₁, k₁, w₂, k₂, w₃, h₁, h₂, h₃⟩

/-- **The child gets its exception stack and may run**, or the program falters. -/
theorem startChild_cases (hc : k.Calm i sp) (hcs : c.isSelf = false)
    {r : Except (ForkStep × Errno) Unit} (h : k.startChild i c = (r, k')) :
    (r = .ok () ∧ k.Copies k' i c (fun _ => False) sp ∧ ∃ e, k'.env? c = some e ∧ e.status.isRunnable) ∨
      ∃ err, r = .error err ∧ k.Falters k' i c := by
  have hmeant : c.meant i = c := EnvId.meant_of_not_isSelf hcs
  rcases startChild_steps h with ⟨err, h₁, rfl⟩ | ⟨_, k₁, h₁, h⟩
  all_goals have hk₁ := sound_of_call hc.sound h₁
  · obtain ⟨-, hq⟩ | ⟨⟨⟩, -⟩ := call_pageAlloc hc.sound hc.runs h₁
    exact Or.inr ⟨_, rfl, (hc.quiet hq hk₁).calm.falters fun j _ _ => hq.spares j⟩
  obtain ⟨⟨_, ⟨⟩⟩, -⟩ | ⟨-, v, f, hv, hfresh, -, hm⟩ := call_pageAlloc hc.sound hc.runs h₁
  rw [hmeant] at hm
  have hc₁ : k₁.Calm i sp :=
    ⟨hk₁, by rw [hm.mappings]; exact hc.exclusive.put_fresh hfresh _ _ _, hm.runs hc.runs⟩
  rcases h with ⟨err, h₂, rfl⟩ | ⟨_, k₂, h₂, h⟩
  all_goals
    have hk₂ := sound_of_call hk₁ h₂
    have hq₂ := call_setUpcall hk₁ hc₁.runs h₂
    have hs₂ := hc₁.quiet hq₂ hk₂
  · exact Or.inr ⟨_, rfl, hs₂.calm.falters fun j hj hjc => (hm.spares j hjc).trans (hq₂.spares j)⟩
  rcases h with ⟨err, h₃, rfl⟩ | ⟨w, h₃, rfl⟩
  all_goals
    obtain ⟨hq₃, hrun⟩ := call_setRunnable hk₂ hs₂.calm.runs h₃
    have hs₃ := hs₂.trans (hs₂.calm.quiet hq₃ (sound_of_call hk₂ h₃))
    have hquiet := hq₂.trans hq₃
  · exact Or.inr ⟨_, rfl, hs₃.calm.falters fun j hj hjc => (hm.spares j hjc).trans (hquiet.spares j)⟩
  · have hshow {j : EnvId} {a : Nat} {b : UInt8} (ha : InProgram a) (hs : k.Shows j a b) : k'.Shows j a b := by
      refine hquiet.shows (hm.shows hk₁ hs fun hn => ?_)
      exact ha.pageDown_ne_exceptionStackBase (by rw [← hn.2, VirtAddr.raw_pageDown hv])
    rw [hmeant] at hrun
    refine Or.inl ⟨rfl, ⟨hs₃.calm, fun a b ha hs => hshow ha hs, fun _ _ _ hf => hf.elim, fun a b ha _ hs => hshow ha hs,
      fun l _ => (hm.keeps l).trans (hquiet.spares l).keeps,
      fun l _ hlc => (hm.spares l hlc).trans (hquiet.spares l)⟩, hrun w rfl⟩

-- To compare it with its unfolded body, the checker would run it on the landmarks of the layout.  So it is unfolded before
-- it is applied, and the pages are a variable.
theorem populate_eq {pages : List Nat} {brk : Word} (hp : pageSteps textBase brk.toNat = pages) (k : Kernel)
    (i c : EnvId) :
    k.populate i c brk = match k.sharePages i c pages with
      | (.error e, k) => (.error e, k)
      | (.ok (), k) =>
        match k.registers i with
        | .error _ => (.error (.start, .badEnv), k)
        | .ok regs =>
          match k.copyStack i c (stackPages regs.sp brk) with
          | (.error e, k) => (.error e, k)
          | (.ok (), k) => k.startChild i c := by
  have hF : @populate = populate := rfl
  conv at hF => rhs; delta populate
  have hF := congrFun (congrFun (congrFun (congrFun hF k) i) c) brk
  beta_reduce at hF
  rw [hp] at hF
  exact hF

/-- **How far the filling of a child comes**: pages cannot be shared, the stack is not known or cannot be copied, or what
is left is the start. -/
theorem populate_steps {pages : List Nat} {brk : Word} (hp : pageSteps textBase brk.toNat = pages)
    {r : Except (ForkStep × Errno) Unit} (h : k.populate i c brk = (r, k')) :
    (∃ err, k.sharePages i c pages = (.error err, k') ∧ r = .error err) ∨
    ∃ k₁, k.sharePages i c pages = (.ok (), k₁) ∧
      ((∃ err, k₁.registers i = .error err ∧ k' = k₁ ∧ r = .error (.start, .badEnv)) ∨
        ∃ regs, k₁.registers i = .ok regs ∧
          ((∃ err, k₁.copyStack i c (stackPages regs.sp brk) = (.error err, k') ∧ r = .error err) ∨
            ∃ k₂, k₁.copyStack i c (stackPages regs.sp brk) = (.ok (), k₂) ∧ k₂.startChild i c = (r, k'))) := by
  rw [populate_eq hp] at h
  rcases h₁ : k.sharePages i c pages with ⟨err | _, k₁⟩ <;> rw [h₁] at h
  · cases h
    exact Or.inl ⟨err, rfl, rfl⟩
  refine Or.inr ⟨k₁, rfl, ?_⟩
  dsimp only at h
  rcases hregs : k₁.registers i with err | regs <;> rw [hregs] at h
  · cases h
    exact Or.inl ⟨err, rfl, rfl, rfl⟩
  refine Or.inr ⟨regs, rfl, ?_⟩
  dsimp only at h
  rcases h₂ : k₁.copyStack i c (stackPages regs.sp brk) with ⟨err | _, k₂⟩ <;> rw [h₂] at h
  · cases h
    exact Or.inl ⟨err, rfl, rfl⟩
  · exact Or.inr ⟨k₂, rfl, h⟩

theorem populate_steps_ok {pages : List Nat} {brk : Word} (hp : pageSteps textBase brk.toNat = pages)
    (h : k.populate i c brk = (.ok (), k')) :
    ∃ k₁ regs k₂, k.sharePages i c pages = (.ok (), k₁) ∧ k₁.registers i = .ok regs ∧
      k₁.copyStack i c (stackPages regs.sp brk) = (.ok (), k₂) ∧ k₂.startChild i c = (.ok (), k') := by
  obtain ⟨_, -, ⟨⟩⟩ | ⟨k₁, h₁, ⟨_, -, -, ⟨⟩⟩ | ⟨regs, hregs, ⟨_, -, ⟨⟩⟩ | ⟨k₂, h₂, h₃⟩⟩⟩ := populate_steps hp h
  exact ⟨k₁, regs, k₂, h₁, hregs, h₂, h₃⟩

/-- **The child is filled and started**, or the program falters. -/
theorem populate_cases {brk : Word} (hc : k.Calm i sp) (hci : c ≠ i) (hcs : c.isSelf = false)
    {r : Except (ForkStep × Errno) Unit} (h : k.populate i c brk = (r, k')) :
    (r = .ok () ∧
      k.Copies k' i c (fun a => OnPages (pageSteps textBase brk.toNat) a ∨ OnPages (stackPages sp brk) a) sp ∧
      ∃ e, k'.env? c = some e ∧ e.status.isRunnable) ∨
      ∃ err, r = .error err ∧ k.Falters k' i c := by
  generalize hp : pageSteps textBase brk.toNat = pages
  rcases populate_steps hp h with ⟨err, h₁, rfl⟩ | ⟨k₁, h₁, h⟩
  · obtain ⟨⟨⟩, -⟩ | ⟨_, -, hf⟩ := sharePages_cases hc hci hcs h₁
    exact Or.inr ⟨_, rfl, hf⟩
  obtain ⟨-, hcp₁⟩ | ⟨_, ⟨⟩, -⟩ := sharePages_cases hc hci hcs h₁
  obtain ⟨e, he, -, rfl⟩ := hcp₁.calm.runs
  have hregs : k₁.registers i = .ok e.regs := by rw [registers, he]
  rw [hregs] at h
  obtain ⟨_, ⟨⟩, -⟩ | ⟨_, ⟨⟩, ⟨err, h₂, rfl⟩ | ⟨k₂, h₂, h⟩⟩ := h
  · obtain ⟨⟨⟩, -⟩ | ⟨_, -, hf⟩ := copyStack_cases hcp₁.calm hcs h₂
    exact Or.inr ⟨_, rfl, hcp₁.falters hf⟩
  obtain ⟨-, hcp₂⟩ | ⟨_, ⟨⟩, -⟩ := copyStack_cases hcp₁.calm hcs h₂
  have hcp₂ := hcp₁.trans hcp₂
  rcases startChild_cases hcp₂.calm hcs h with ⟨hr, hcp₃, hrun⟩ | ⟨err, hr, hf⟩
  · exact Or.inl ⟨hr, (hcp₂.trans hcp₃).congr fun a => by rw [or_false], hrun⟩
  · exact Or.inr ⟨err, hr, hcp₂.falters hf⟩

end Kernel

namespace UserProcess

open Kernel

variable {p p' : UserProcess} {k k' : Kernel} {sp : Word}

/-! ## Before the child is made -/

/-- A program makes ready for faults by two calls, once it has the processor. -/
theorem prepareUpcall_steps {r : Except Errno Unit} (h : p.prepareUpcall k = (r, k')) :
    (∃ err, p.enter k = (.error err, k') ∧ r = .error err) ∨
    ∃ k₁, p.enter k = (.ok (), k₁) ∧ k₁.callAll p.env [.pageAlloc .self exceptionStackBase.toUInt64 .userWritable,
      .setUpcall .self upcallEntry.toUInt64] = (r, k') := by
  unfold prepareUpcall at h
  rcases he : p.enter k with ⟨err | _, k₁⟩ <;> rw [he] at h
  · cases h
    exact Or.inl ⟨err, rfl, rfl⟩
  · exact Or.inr ⟨k₁, rfl, h⟩

/-- A handler is set, by a program that is ready for faults or can be made so, or it is not. -/
theorem setHandler_steps {f : FaultHandler} {r : Except Errno Unit} (h : p.setHandler k f = (r, p', k')) :
    (r = .ok () ∧ p' = ⟨p.env, { p.runtime with handler := some f }⟩ ∧ (k' = k ∨ p.prepareUpcall k = (.ok (), k'))) ∨
    ∃ err, p.prepareUpcall k = (.error err, k') ∧ r = .error err ∧ p' = p := by
  unfold setHandler at h
  dsimp only at h
  split at h
  · cases h
    exact Or.inl ⟨rfl, rfl, Or.inl rfl⟩
  rcases hp : p.prepareUpcall k with ⟨err | _, k₁⟩ <;> rw [hp] at h <;> cases h
  · exact Or.inr ⟨err, rfl, rfl, rfl⟩
  · exact Or.inl ⟨rfl, rfl, Or.inr rfl⟩

theorem prepareUpcall_serves (hc : k.Calm p.env sp) {r : Except Errno Unit} (h : p.prepareUpcall k = (r, k')) :
    k.Serves k' p.env sp := by
  obtain ⟨k₁, he, hq, hk₁⟩ := enter_ok (p := p) hc.sound hc.runs
  have hs₁ := hc.quiet hq hk₁
  obtain ⟨_, he', -⟩ | ⟨_, he', h⟩ := prepareUpcall_steps h
  all_goals
    rw [he] at he'
    cases he'
  rcases callAll_cons_cases h with ⟨err, h₂, -⟩ | ⟨_, k₂, h₂, h⟩
  all_goals have hk₂ := sound_of_call hk₁ h₂
  · obtain ⟨-, hq₂⟩ | ⟨⟨⟩, -⟩ := call_pageAlloc hk₁ hs₁.calm.runs h₂
    exact hs₁.trans (hs₁.calm.quiet hq₂ hk₂)
  obtain ⟨⟨_, ⟨⟩⟩, -⟩ | ⟨-, v, f, hv, hfresh, -, hm⟩ := call_pageAlloc hk₁ hs₁.calm.runs h₂
  have hself : EnvId.self.meant p.env = p.env := rfl
  rw [hself] at hm
  have hs₂ : k₁.Serves k₂ p.env sp := by
    refine ⟨⟨hk₂, ?_, hm.runs hs₁.calm.runs⟩, fun a b ha hs => hm.shows hk₂ hs fun hn => ?_, fun j hj => hm.spares j hj⟩
    · rw [hm.mappings]
      exact hs₁.calm.exclusive.put_fresh hfresh _ _ _
    · exact ha.pageDown_ne_exceptionStackBase (by rw [← hn.2, VirtAddr.raw_pageDown hv])
  rcases callAll_cons_cases h with ⟨err, h₃, -⟩ | ⟨_, k₃, h₃, h⟩
  all_goals
    have hs₃ := (hs₁.trans hs₂).trans (hs₂.calm.quiet (call_setUpcall hk₂ hs₂.calm.runs h₃) (sound_of_call hk₂ h₃))
  · exact hs₃
  · cases h
    exact hs₃

theorem setHandler_cases (hc : k.Calm p.env sp) {f : FaultHandler} {r : Except Errno Unit}
    (h : p.setHandler k f = (r, p', k')) :
    k.Serves k' p.env sp ∧ ((r = .ok () ∧ p' = ⟨p.env, { p.runtime with handler := some f }⟩) ∨
      ∃ err, r = .error err ∧ p' = p) := by
  rcases setHandler_steps h with ⟨hr, hp', rfl | hp⟩ | ⟨err, hp, hr, hp'⟩
  · exact ⟨hc.serves, Or.inl ⟨hr, hp'⟩⟩
  · exact ⟨prepareUpcall_serves hc hp, Or.inl ⟨hr, hp'⟩⟩
  · exact ⟨prepareUpcall_serves hc hp, Or.inr ⟨err, hr, hp'⟩⟩

/-- **A child is made**, with nothing on its pages yet. -/
theorem exofork_cases (hc : k.Calm p.env sp) {r : Except Errno EnvId} (h : p.exofork k = (r, k')) :
    k.Serves k' p.env sp ∧ ∀ child, r = .ok child → ∃ c, k.env? child = none ∧ child.isSelf = false ∧
      k'.env? child = some c ∧ c.regs.sp = sp := by
  unfold exofork at h
  obtain ⟨k₁, he, hq, hk₁⟩ := enter_ok (p := p) hc.sound hc.runs
  have hs₁ := hc.quiet hq hk₁
  rw [he] at h
  dsimp only at h
  have hk' : k'.Sound [] := by
    have := hk₁.callForId p.env .exofork
    rwa [h] at this
  rcases callForId_exofork hk₁ hs₁.calm.runs h with ⟨⟨err, rfl⟩, hq'⟩ | ⟨child, c, rfl, hnone, hself, hchild, hsp, hmap, hspares⟩
  · exact ⟨hs₁.trans (hs₁.calm.quiet hq' hk'), fun _ hr => by cases hr⟩
  · refine ⟨hs₁.trans ⟨⟨hk', by rw [hmap]; exact hs₁.calm.exclusive, (hspares _).runs hs₁.calm.runs⟩,
      fun a b _ hs => (hspares _).shows hs, fun j _ => hspares j⟩, fun _ hr => ?_⟩
    cases hr
    exact ⟨c, (hq.spares child).env?_eq_none hnone, hself, hchild, hsp⟩

/-! ## The whole fork -/

theorem stackPages_stackTop {brk : Word} (h : brk.toNat ≤ stackPage) :
    stackPages stackTop.toUInt64 brk = [stackPage] := by
  have hdown : pageDown (stackTop.toUInt64.toNat - 1) = stackPage := by decide
  have hsteps : pageSteps stackPage stackTop = [stackPage] := by decide
  rw [stackPages, hdown, Nat.max_eq_left h, hsteps]

theorem onPages_of_owned {brk : Word} {a : Nat} (hb : brk.toNat ≤ stackPage) (h : Owned brk.toNat a) :
    OnPages (pageSteps textBase brk.toNat) a ∨ OnPages (stackPages stackTop.toUInt64 brk) a := by
  rcases h with ⟨hl, hh⟩ | ⟨hl, hh⟩
  · have hd := Nat.lt_of_le_of_lt (pageDown_le a) hh
    refine Or.inl ⟨pageDown a, pageDown_mem_pageSteps (by decide) hl hd, (toNat_toUInt64_of_le_stackPage ?_).symm⟩
    omega
  · refine Or.inr ⟨stackPage, by rw [stackPages_stackTop hb]; exact List.mem_singleton_self _, ?_⟩
    rw [toNat_toUInt64_of_le_stackPage (Nat.le_refl _)]
    simp only [pageDown, stackPage, stackTop, userTop, pageSize] at *
    omega

theorem populate_cases {c : EnvId} (hc : k.Calm p.env stackTop.toUInt64) (hci : c ≠ p.env) (hcs : c.isSelf = false)
    (hb : p.runtime.brk.toNat ≤ stackPage) {r : Except (ForkStep × Errno) Unit} (h : p.populate k c = (r, k')) :
    (r = .ok () ∧ k'.Calm p.env stackTop.toUInt64 ∧
      (∀ a b, InProgram a → k.Shows p.env a b → k'.Shows p.env a b) ∧
      (∀ a b, Owned p.runtime.brk.toNat a → k.Shows p.env a b → k'.Shows c a b) ∧ k.Keeps k' c ∧
      (∃ e, k'.env? c = some e ∧ e.status.isRunnable) ∧ ∀ j, j ≠ p.env → j ≠ c → k.Spares k' j) ∨
      ∃ err, r = .error err ∧ k.Falters k' p.env c := by
  unfold populate at h
  obtain ⟨k₁, he, hq, hk₁⟩ := enter_ok (p := p) hc.sound hc.runs
  have hs₁ := hc.quiet hq hk₁
  rw [he] at h
  rcases Kernel.populate_cases hs₁.calm hci hcs h with ⟨hr, hcp, hrun⟩ | ⟨err, hr, hf⟩
  · exact Or.inl ⟨hr, hcp.calm, fun a b ha hs => hcp.shows a b ha (hq.shows hs),
      fun a b ho hs => hcp.copied a b (ho.inProgram hb) (onPages_of_owned hb ho) (hq.shows hs),
      (hq.spares c).keeps.trans (hcp.keeps c hci), hrun, fun j hj hjc => (hq.spares j).trans (hcp.spares j hj hjc)⟩
  · exact Or.inr ⟨err, hr, hs₁.falters hf⟩

/-- What a fork leaves behind: the parent as it was, and a child that was not there, may run, and shows what the parent
shows. -/
structure Forks (k k' : Kernel) (p : UserProcess) (c : EnvId) : Prop where
  calm : k'.Calm p.env stackTop.toUInt64
  shows (a : Nat) (b : UInt8) (ha : InProgram a) (h : k.Shows p.env a b) : k'.Shows p.env a b
  unborn : k.env? c = none
  runs : k'.Runs c stackTop.toUInt64
  copied (a : Nat) (b : UInt8) (ha : Owned p.runtime.brk.toNat a) (h : k.Shows p.env a b) : k'.Shows c a b
  spares (j : EnvId) (hj : j ≠ p.env) : k.Spares k' j

theorem abortFork_cases {k₁ : Kernel} {c : EnvId} (hf : k.Falters k₁ p.env c) (hc : k.env? c = none ∨ c = p.env)
    {step : ForkStep} {err : Errno} {r : Except ForkError ForkedChild} (h : p.abortFork k₁ step err = (r, p', k')) :
    (∃ e, r = .error e) ∧ p' = p ∧ k.Perishes k' p.env := by
  cases h
  exact ⟨⟨_, rfl⟩, rfl, fatal_of_falters hf hc _⟩

/-- **How far a fork comes**: it is aborted before a child is made, it makes none, it is aborted when the child cannot be
filled, or it succeeds. -/
theorem fork_steps {r : Except ForkError ForkedChild} (h : p.fork k = (r, p', k')) :
    (∃ err p₁ k₁, p.setHandler k Routine.copyOnWrite = (.error err, p₁, k₁) ∧
      p₁.abortFork k₁ .handler err = (r, p', k')) ∨
    ∃ p₁ k₁, p.setHandler k Routine.copyOnWrite = (.ok (), p₁, k₁) ∧
      ((∃ err, p₁.exofork k₁ = (.error err, k') ∧ r = .error (.exofork err) ∧ p' = p₁) ∨
        ∃ c k₂, p₁.exofork k₁ = (.ok c, k₂) ∧
          ((∃ step err k₃, p₁.populate k₂ c = (.error (step, err), k₃) ∧ p₁.abortFork k₃ step err = (r, p', k')) ∨
            ∃ k₃, p₁.populate k₂ c = (.ok (), k₃) ∧ r = .ok ⟨c, p₁.runtime⟩ ∧ p' = p₁ ∧
              k' = k₃.log (.forked p₁.env c))) := by
  unfold fork at h
  rcases hset : p.setHandler k Routine.copyOnWrite with ⟨err | _, p₁, k₁⟩ <;> rw [hset] at h
  · exact Or.inl ⟨err, p₁, k₁, rfl, h⟩
  refine Or.inr ⟨p₁, k₁, rfl, ?_⟩
  dsimp only at h
  rcases hexo : p₁.exofork k₁ with ⟨err | c, k₂⟩ <;> rw [hexo] at h
  · cases h
    exact Or.inl ⟨err, rfl, rfl, rfl⟩
  refine Or.inr ⟨c, k₂, rfl, ?_⟩
  dsimp only at h
  rcases hpop : p₁.populate k₂ c with ⟨⟨step, err⟩ | _, k₃⟩ <;> rw [hpop] at h
  · exact Or.inl ⟨step, err, k₃, rfl, h⟩
  · cases h
    exact Or.inr ⟨k₃, rfl, rfl, rfl, rfl⟩

theorem fork_steps_ok {child : ForkedChild} (h : p.fork k = (.ok child, p', k')) :
    ∃ k₁ k₂ k₃, p.setHandler k Routine.copyOnWrite = (.ok (), p', k₁) ∧ p'.exofork k₁ = (.ok child.id, k₂) ∧
      p'.populate k₂ child.id = (.ok (), k₃) ∧ child.runtime = p'.runtime ∧ k' = k₃.log (.forked p'.env child.id) := by
  obtain ⟨_, _, _, -, ⟨⟩⟩ | ⟨p₁, k₁, hset, ⟨_, -, ⟨⟩, -⟩ | ⟨c, k₂, hexo, ⟨_, _, _, -, ⟨⟩⟩ | ⟨k₃, hpop, ⟨⟩, rfl, rfl⟩⟩⟩ :=
    fork_steps h
  exact ⟨k₁, k₂, k₃, hset, hexo, hpop, rfl, rfl⟩

/-- **A fork makes a copy, fails without a trace, or is the end of the parent.** -/
theorem fork_cases (hc : k.Calm p.env stackTop.toUInt64) (hb : p.runtime.brk.toNat ≤ stackPage)
    {r : Except ForkError ForkedChild} (h : p.fork k = (r, p', k')) :
    (p' = p ∨ p' = ⟨p.env, { p.runtime with handler := some Routine.copyOnWrite }⟩) ∧
      ((∃ c, r = .ok ⟨c, p'.runtime⟩ ∧ Forks k k' p c) ∨
        ((∃ err, r = .error err) ∧ (k.Serves k' p.env stackTop.toUInt64 ∨ k.Perishes k' p.env))) := by
  rcases fork_steps h with ⟨err, p₁, k₁, hset, ha⟩ | ⟨p₁, k₁, hset, h⟩
  · obtain ⟨hs₁, ⟨⟨⟩, -⟩ | ⟨_, -, rfl⟩⟩ := setHandler_cases hc hset
    obtain ⟨hr, rfl, hend⟩ := abortFork_cases (hs₁.calm.falters fun j _ _ => .refl _ j) (Or.inr rfl) ha
    exact ⟨Or.inl rfl, Or.inr ⟨hr, Or.inr (hs₁.perishes hend)⟩⟩
  obtain ⟨hs₁, ⟨-, rfl⟩ | ⟨_, ⟨⟩, -⟩⟩ := setHandler_cases hc hset
  -- the handler is no part of what the rest depends on
  obtain ⟨q, hq⟩ : ∃ q, q = (⟨p.env, { p.runtime with handler := some Routine.copyOnWrite }⟩ : UserProcess) := ⟨_, rfl⟩
  have henv : q.env = p.env := by rw [hq]
  have hbrk : q.runtime.brk = p.runtime.brk := by rw [hq]
  rw [← hq] at h ⊢
  clear hq
  rcases h with ⟨err, hexo, rfl, rfl⟩ | ⟨c, k₂, hexo, h⟩
  all_goals
    obtain ⟨hs₂, hchild⟩ := exofork_cases (by rw [henv]; exact hs₁.calm) hexo
    rw [henv] at hs₂
  · exact ⟨Or.inr rfl, Or.inr ⟨⟨_, rfl⟩, Or.inl (hs₁.trans hs₂)⟩⟩
  obtain ⟨ce, hnone, hself, hce, hsp⟩ := hchild c rfl
  have hs₂ := hs₁.trans hs₂
  obtain ⟨pe, hpe, -, -⟩ := hs₁.calm.runs
  have hci : c ≠ p.env := by
    rintro rfl
    rw [hnone] at hpe
    cases hpe
  have hunborn : k.env? c = none := (hs₁.spares c hci).env?_eq_none hnone
  have hpop {r₃ : Except (ForkStep × Errno) Unit} {k₃ : Kernel} (h₃ : q.populate k₂ c = (r₃, k₃)) :=
    populate_cases (by rw [henv]; exact hs₂.calm) (by rwa [henv]) hself (by rwa [hbrk]) h₃
  rw [henv] at hpop
  rcases h with ⟨step, err, k₃, h₃, h⟩ | ⟨k₃, h₃, rfl, rfl, rfl⟩
  · obtain ⟨⟨⟩, -⟩ | ⟨_, -, hf⟩ := hpop h₃
    obtain ⟨hr, rfl, hend⟩ := abortFork_cases (p := q) (by rw [henv]; exact hs₂.falters hf) (Or.inl hunborn) h
    rw [henv] at hend
    exact ⟨Or.inr rfl, Or.inr ⟨hr, Or.inr hend⟩⟩
  · obtain ⟨-, hc₃, hshows, hcopied, hkeeps, ⟨e, he, hrun⟩, hspares⟩ | ⟨_, ⟨⟩, -⟩ := hpop h₃
    rw [hbrk] at hcopied
    have hlog := Quiet.log k₃ (.forked p'.env c)
    have hs₄ := hc₃.quiet hlog (hc₃.sound.log _)
    obtain ⟨e', he', -, hsp'⟩ := hkeeps ce hce
    obtain rfl : e = e' := Option.some.inj (he.symm.trans he')
    refine ⟨Or.inr rfl, Or.inl ⟨c, rfl, hs₄.calm, fun a b ha hs => ?_, hunborn, ?_, fun a b ho hs => ?_, fun j hj => ?_⟩⟩
    · exact hlog.shows (hshows a b ha (hs₂.shows a b ha hs))
    · exact hlog.runs ⟨e, he, hrun, hsp'.trans hsp⟩
    · exact hlog.shows (hcopied a b ho (hs₂.shows a b (ho.inProgram hb) hs))
    · by_cases hjc : j = c
      · subst hjc
        exact .of_env?_none hunborn
      · exact ((hs₂.spares j hj).trans (hspares j hj hjc)).trans (hlog.spares j)

theorem exofork_of_env?_none (h : k.env? p.env = none) : p.exofork k = (.error .badEnv, k) := by
  rw [exofork, enter_of_env?_none h]

theorem fork_of_env?_none (hn : k.env? p.env = none) {r : Except ForkError ForkedChild}
    (h : p.fork k = (r, p', k')) : (∃ err, r = .error err) ∧ p'.env = p.env ∧ k'.bare = k.bare := by
  unfold fork setHandler prepareUpcall at h
  rw [enter_of_env?_none hn] at h
  cases hh : p.runtime.handler.isSome with
  | false =>
    rw [hh] at h
    have hlog : (k.log (.userPanic p.env (.fork .handler .badEnv))).env? p.env = none := hn
    cases h
    rw [fatal, enter_of_env?_none hlog]
    exact ⟨⟨_, rfl⟩, rfl, bare_log k _⟩
  | true =>
    rw [hh] at h
    have hexo : UserProcess.exofork ⟨p.env, { p.runtime with handler := some Routine.copyOnWrite }⟩ k =
        (.error .badEnv, k) := exofork_of_env?_none hn
    dsimp only at h
    rw [if_pos rfl] at h
    dsimp only at h
    rw [hexo] at h
    cases h
    exact ⟨⟨_, rfl⟩, rfl, rfl⟩

end UserProcess

/-- **A child is taken up** without anyone noticing. -/
theorem ForkedChild.resume_cases {c : ForkedChild} {k k' : Kernel} {sp : Word} (hc : k.Calm c.id sp)
    {r : Except Errno UserProcess} (h : c.resume k = (r, k')) :
    k.Serves k' c.id sp ∧ ∀ p, r = .ok p → ∃ i, p = ⟨c.id, { c.runtime with thisEnv := i }⟩ := by
  unfold resume at h
  obtain ⟨k₁, hd, hq⟩ := hc.runs.dispatch
  have hs₁ := hc.quiet hq (hc.sound.dispatch hd)
  rw [hd] at h
  dsimp only at h
  split at h
  · cases h
    exact ⟨hs₁, fun _ hr => by cases hr⟩
  split at h
  · cases h
    exact ⟨hs₁, fun _ hr => by cases hr⟩
  have hk₂ := hs₁.calm.sound.callForId c.id .getEnvId
  rcases hcall : k₁.callForId c.id .getEnvId with ⟨r₂, k₂⟩
  rw [hcall] at h hk₂
  have hs₂ := hs₁.trans (hs₁.calm.quiet (Kernel.callForId_getEnvId hs₁.calm.sound hs₁.calm.runs hcall) hk₂)
  rcases r₂ with err | i
  · cases h
    exact ⟨hs₂, fun _ hr => by cases hr⟩
  · cases h
    refine ⟨hs₂, fun _ hr => ?_⟩
    cases hr
    exact ⟨i, rfl⟩

theorem ForkedChild.resume_of_env?_none {c : ForkedChild} {k : Kernel} (h : k.env? c.id = none) :
    c.resume k = (.error .badEnv, k) := by
  rw [resume, Kernel.dispatch_of_env?_none h]

end Exokernel
