import Exokernel.Proofs.User.Calm
/-!
# The heap

A program that grows its heap gets pages of zeros, and what it has below its heap's old end and above the new one stays.
-/
namespace Exokernel

/-! ## Ranges of pages -/

theorem toNat_toUInt64_of_le_stackPage {n : Nat} (h : n ≤ stackPage) : n.toUInt64.toNat = n :=
  UInt64.toNat_ofNat_of_lt (Nat.lt_of_le_of_lt h (by decide))

theorem pageDown_mem_pageSteps {low high a : Nat} (hl : low % pageSize = 0) (hlow : low ≤ a) (ha : pageDown a < high) :
    pageDown a ∈ pageSteps low high := by
  simp only [mem_pageSteps, pageDown, pageSize] at *
  exact ⟨(a / 4096 * 4096 - low) / 4096, by omega, by omega⟩

theorem bounds_of_mem_pageSteps {low high x : Nat} (h : x ∈ pageSteps low high) : low ≤ x ∧ x < high := by
  obtain ⟨i, rfl, hi⟩ := mem_pageSteps.1 h
  exact ⟨Nat.le_add_right _ _, hi⟩

theorem pageDown_ne_of_mem_pageSteps {low high a x : Nat} (hh : high ≤ stackPage) (hx : x ∈ pageSteps low high)
    (ha : a < low ∨ stackPage ≤ a) : pageDown a ≠ x := by
  have := bounds_of_mem_pageSteps hx
  simp only [pageDown, pageSize, stackPage, stackTop, userTop] at *
  omega

/-! ## Growing -/

namespace Kernel

theorem Remaps.shows_zero {k k' : Kernel} {t : EnvId} {v : VirtAddr} {f : Frame} {p : Perm} {a : Nat}
    (h : k.Remaps k' t v (some ⟨f, p⟩)) (hz : k'.machine.page f = Page.zero) (hp : p.contains .present)
    (hu : p.contains .user) (ha : pageDown a = v.pageDown.raw) : k'.Shows t a 0 := by
  refine ⟨⟨f, p⟩, ?_, Pte.allows_read_of hp hu, ?_⟩
  · rw [h.mappings, Mappings.entryAt_put, if_pos ⟨rfl, ha.symm⟩]
  · have ho := pageOffset_lt a
    rw [Machine.byte, hz, Vector.getElem?_eq_getElem ho, Page.getElem_zero]

end Kernel

namespace UserProcess

open Kernel

variable {p p' : UserProcess} {k k' : Kernel} {sp increment : Word} {brk : Nat}

theorem allocPages_cases (hc : k.Calm p.env sp) (pages : List Nat) {r : Except Errno Unit}
    (h : p.allocPages k pages = (r, k')) :
    k'.Calm p.env sp ∧ (∀ j, j ≠ p.env → k.Spares k' j) ∧
      (∀ a b, (∀ x ∈ pages, pageDown a ≠ x.toUInt64.toNat) → k.Shows p.env a b → k'.Shows p.env a b) ∧
      (r = .ok () → ∀ x ∈ pages, ∀ a, pageDown a = x.toUInt64.toNat → k'.Shows p.env a 0) := by
  induction pages generalizing k with
  | nil =>
    cases h
    exact ⟨hc, fun j _ => .refl _ j, fun _ _ _ hs => hs, fun _ x hx => by cases hx⟩
  | cons x rest ih =>
    unfold allocPages at h
    have hk₁ := hc.sound.call p.env (.pageAlloc .self x.toUInt64 .userWritable)
    rcases h₁ : k.call p.env (.pageAlloc .self x.toUInt64 .userWritable) with ⟨r₁, k₁⟩
    rw [h₁] at h hk₁
    rcases call_pageAlloc hc.sound hc.runs h₁ with ⟨⟨err, rfl⟩, hq⟩ | ⟨rfl, v, f, hv, hfresh, hz, hm⟩
    · cases h
      have hs := hc.quiet hq hk₁
      exact ⟨hs.calm, hs.spares, fun a b _ hsh => hq.shows hsh, fun he => by cases he⟩
    have hself : EnvId.self.meant p.env = p.env := rfl
    rw [hself] at hm
    have hc₁ : k₁.Calm p.env sp :=
      ⟨hk₁, by rw [hm.mappings]; exact hc.exclusive.put_fresh hfresh _ _ _, hm.runs hc.runs⟩
    obtain ⟨hc', hsp, hkept, hzero⟩ := ih hc₁ h
    refine ⟨hc', fun j hj => (hm.spares j hj).trans (hsp j hj), fun a b hn hs => ?_, fun he y hy a ha => ?_⟩
    · refine hkept a b (fun y hy => hn y (List.mem_cons_of_mem _ hy)) (hm.shows hk₁ hs fun hc => ?_)
      exact hn x List.mem_cons_self (by rw [← hc.2, VirtAddr.raw_pageDown hv])
    · by_cases hin : ∃ z ∈ rest, pageDown a = z.toUInt64.toNat
      · obtain ⟨z, hz', haz⟩ := hin
        exact hzero he z hz' a haz
      · rcases List.mem_cons.1 hy with rfl | hy
        · refine hkept a 0 (fun z hz' haz => hin ⟨z, hz', haz⟩) (hm.shows_zero hz ?_ ?_ ?_)
          · show Perm.userWritable.contains .present
            decide
          · show Perm.userWritable.contains .user
            decide
          · rw [VirtAddr.raw_pageDown hv, ha]
        · exact absurd ⟨y, hy, ha⟩ hin

/-- **The heap never shrinks and stays below the stack.** -/
theorem grownBrk?_eq_some (h : p.grownBrk? increment = some brk) :
    brk = pageUp (p.runtime.brk.toNat + increment.toNat) ∧ p.runtime.brk.toNat ≤ brk ∧ brk ≤ stackPage ∧
      brk % pageSize = 0 := by
  unfold grownBrk? at h
  dsimp only at h
  split at h
  · rename_i hb
    cases h
    refine ⟨rfl, ?_, hb.2, ?_⟩
    · have := hb.1
      have := hb.2
      simp only [pageUp, pageDown, pageSize, addressLimit, stackPage, stackTop, userTop] at *
      omega
    · simp only [pageUp, pageDown]
      exact Nat.mul_mod_left _ _
  · cases h

/-- **The heap grows by zeros**, and nobody else has noticed, also if it grows in part only. -/
theorem sbrk_cases (hc : k.Calm p.env sp) (ha : p.runtime.brk.toNat % pageSize = 0) {r : Except Errno Word}
    (h : p.sbrk k increment = (r, p', k')) :
    k'.Calm p.env sp ∧ (∀ j, j ≠ p.env → k.Spares k' j) ∧
      (∀ a b, a < p.runtime.brk.toNat ∨ stackPage ≤ a → k.Shows p.env a b → k'.Shows p.env a b) ∧
      ((∃ err, r = .error err ∧ p' = p) ∨
        ∃ brk, p.grownBrk? increment = some brk ∧ r = .ok p.runtime.brk ∧
          p' = ⟨p.env, { p.runtime with brk := brk.toUInt64 }⟩ ∧
          ∀ a, p.runtime.brk.toNat ≤ a → a < brk → k'.Shows p.env a 0) := by
  unfold sbrk at h
  rcases hg : p.grownBrk? increment with _ | brk
  · rw [hg] at h
    cases h
    exact ⟨hc, fun j _ => .refl _ j, fun _ _ _ hs => hs, Or.inl ⟨_, rfl, rfl⟩⟩
  obtain ⟨-, -, hhigh, -⟩ := grownBrk?_eq_some hg
  obtain ⟨k₁, he, hq, hk₁⟩ := enter_ok (p := p) hc.sound hc.runs
  have hs₁ := hc.quiet hq hk₁
  rw [hg] at h
  dsimp only at h
  rw [he] at h
  dsimp only at h
  have hword {x : Nat} (hx : x ∈ pageSteps p.runtime.brk.toNat brk) : x.toUInt64.toNat = x := by
    exact toNat_toUInt64_of_le_stackPage (Nat.le_trans (Nat.le_of_lt (bounds_of_mem_pageSteps hx).2) hhigh)
  rcases hal : p.allocPages k₁ (pageSteps p.runtime.brk.toNat brk) with ⟨res, k₂⟩
  rw [hal] at h
  obtain ⟨hc₂, hsp, hkept, hzero⟩ := allocPages_cases hs₁.calm _ hal
  have hkept' (a : Nat) (b : UInt8) (hab : a < p.runtime.brk.toNat ∨ stackPage ≤ a) (hs : k.Shows p.env a b) :
      k₂.Shows p.env a b := by
    refine hkept a b (fun x hx => ?_) (hq.shows hs)
    rw [hword hx]
    exact pageDown_ne_of_mem_pageSteps hhigh hx hab
  have hspares (j : EnvId) (hj : j ≠ p.env) : k.Spares k₂ j := (hs₁.spares j hj).trans (hsp j hj)
  rcases res with err | _
  · cases h
    exact ⟨hc₂, hspares, hkept', Or.inl ⟨_, rfl, rfl⟩⟩
  · cases h
    refine ⟨hc₂, hspares, hkept', Or.inr ⟨brk, rfl, rfl, rfl, fun a hlow hab => ?_⟩⟩
    have hx := pageDown_mem_pageSteps ha hlow (Nat.lt_of_le_of_lt (pageDown_le a) hab)
    exact hzero rfl _ hx a (hword hx).symm

theorem sbrk_of_env?_none (hn : k.env? p.env = none) (increment : Word) : ∃ err, p.sbrk k increment = (.error err, p, k) := by
  unfold sbrk
  rw [enter_of_env?_none hn]
  cases p.grownBrk? increment with
  | none => exact ⟨_, rfl⟩
  | some brk => exact ⟨_, rfl⟩

end UserProcess
end Exokernel
