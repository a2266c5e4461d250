import Mathlib.Order.Bounds.Basic
import Exokernel.Proofs.Kernel.Run
import Exokernel.Proofs.Paging.Fault
/-!
# The check of an access, byte by byte

The processor walks the pages of a range in 64-bit words.  The walk never overflows and gives the answer of
`AddressSpace.check`: the least byte of the range that is closed to the access, if there is one.  Main statement:
`check_finds_least_closed_byte`.
-/
namespace Exokernel

/-! ## Arithmetic of words -/

namespace Word

/-- The sum of two words, if it is a word. -/
def checkedAdd (a b : Word) : Option Word := if a.toNat + b.toNat < addressLimit then some (a + b) else none

/-- The difference of two words, if it is a word. -/
def checkedSub (a b : Word) : Option Word := if b.toNat ≤ a.toNat then some (a - b) else none

/-- The page boundary at or below an address. -/
def pageDown (a : Word) : Word := a &&& ~~~4095

theorem checkedAdd_eq_some {a b c : Word} (h : a.checkedAdd b = some c) : c.toNat = a.toNat + b.toNat := by
  unfold checkedAdd at h
  split at h
  next hlt =>
    cases h
    exact (UInt64.toNat_add a b).trans (Nat.mod_eq_of_lt hlt)
  · cases h

theorem toNat_next {a : Word} (h : a.toNat + pageSize < addressLimit) :
    (a + pageSize.toUInt64).toNat = a.toNat + pageSize :=
  (UInt64.toNat_add a _).trans (Nat.mod_eq_of_lt h)

theorem checkedAdd_eq_none {a b : Word} : a.checkedAdd b = none ↔ addressLimit ≤ a.toNat + b.toNat := by
  rw [checkedAdd, ite_eq_right_iff]
  simp

theorem checkedSub_one {a : Word} (h : a ≠ 0) : ∃ b, a.checkedSub 1 = some b ∧ b.toNat = a.toNat - 1 := by
  have hpos : 1 ≤ a.toNat := Nat.pos_of_ne_zero fun h0 => h (UInt64.toNat_inj.1 h0)
  exact ⟨a - 1, if_pos hpos, UInt64.toNat_sub_of_le _ _ hpos⟩

/-- **Masking off the offset rounds down.** -/
theorem toNat_pageDown (a : Word) : a.pageDown.toNat = Exokernel.pageDown a.toNat := by
  have hmask : (~~~4095 : Word).toNat = (2 ^ 52 - 1) <<< 12 := by decide
  have hbit (i : Nat) : a.toNat.testBit i = (decide (i < 64) && a.toNat.testBit i) := by
    by_cases hi : i < 64
    · simp [hi]
    · simp [Nat.testBit_lt_two_pow (Nat.lt_of_lt_of_le a.toNat_lt (Nat.pow_le_pow_right (by decide) (Nat.le_of_not_lt hi)))]
  have hdown : Exokernel.pageDown a.toNat = (a.toNat >>> 12) <<< 12 := by
    rw [Nat.shiftRight_eq_div_pow, Nat.shiftLeft_eq]
    rfl
  apply Nat.eq_of_testBit_eq
  intro i
  rw [pageDown, UInt64.toNat_and, hmask, hdown, Nat.testBit_and, hbit i, Nat.testBit_shiftLeft, Nat.testBit_shiftLeft,
    Nat.testBit_two_pow_sub_one, Nat.testBit_shiftRight]
  by_cases h12 : 12 ≤ i
  · have hi : i - 12 < 52 ↔ i < 64 := by omega
    rw [Nat.add_sub_cancel' h12, hbit i]
    by_cases h64 : i < 64 <;> simp [h12, hi, h64]
  · simp [h12]

/-- A page starts no later than an address just when it is no later page. -/
theorem le_iff_of_aligned {page last : Word} (hal : page.toNat % pageSize = 0) :
    page ≤ last ↔ page.toNat / pageSize ≤ last.toNat / pageSize := by
  rw [UInt64.le_iff_toNat_le]
  simp only [pageSize] at *
  omega

end Word

namespace AddressSpace

variable {s : AddressSpace} {k : AccessKind} {a b n : Nat} {f : PageFault}

/-! ## The walk in machine words -/

/-- The walk of a check from a page on, as far as the last address.  A range that starts inside the page faults where it
starts. -/
def walkFrom (s : AddressSpace) (k : AccessKind) (va last page : Word) : Except PageFault Unit :=
  if page ≤ last then
    match s.faultAt k page.toNat with
    | some f => .error { f with address := (max page va).toNat }
    | none => if page.toNat + pageSize < addressLimit then walkFrom s k va last (page + pageSize.toUInt64) else .ok ()
  else .ok ()
termination_by last.toNat + 1 - page.toNat
decreasing_by
  have := UInt64.le_iff_toNat_le.1 ‹page ≤ last›
  rw [Word.toNat_next ‹_›]
  simp only [pageSize]
  omega

/-- **A check as the processor makes it**, with `none` where the arithmetic would overflow. -/
def checkWords (s : AddressSpace) (va len : Word) (k : AccessKind) : Option (Except PageFault Unit) :=
  if len = 0 then some (.ok ())
  else do
    let rest ← len.checkedSub 1
    match va.checkedAdd rest with
    | none => some (.error ⟨va.toNat, faultCode k⟩)
    | some last => some (s.walkFrom k va last va.pageDown)

theorem faultAt_congr (h : a / pageSize = b / pageSize) :
    s.faultAt k b = (s.faultAt k a).map fun f => { f with address := b } := by
  unfold faultAt
  rw [entryAt_congr h]
  split
  · rfl
  · split <;> rfl

/-- **The walk looks at each page that is left once.** -/
theorem walkFrom_eq {va last page : Word} (hal : page.toNat % pageSize = 0) (hva : va.toNat < page.toNat + pageSize) :
    s.walkFrom k va last page =
      s.checkPages k (last.toNat / pageSize + 1 - page.toNat / pageSize) (max page.toNat va.toNat) := by
  have hsame {page : Nat} (hal : page % pageSize = 0) (hva : va.toNat < page + pageSize) :
      page / pageSize = max page va.toNat / pageSize := by
    simp only [pageSize] at *
    omega
  -- by the page that the walk has come to: the check looks at the same page, at its first byte in the range
  fun_induction walkFrom s k va last page with
  | case1 page hle f hf =>
    rw [Nat.succ_sub ((Word.le_iff_of_aligned hal).1 hle), checkPages, faultAt_congr (hsame hal hva), hf, UInt64.toNat_max]
    rfl
  | case2 page hle hnone hlt ih =>
    have hnext := Word.toNat_next hlt
    have hstep : Exokernel.pageDown (max page.toNat va.toNat) + pageSize = max (page.toNat + pageSize) va.toNat := by
      simp only [Exokernel.pageDown, pageSize] at *
      omega
    rw [Nat.succ_sub ((Word.le_iff_of_aligned hal).1 hle), checkPages, faultAt_congr (hsame hal hva), hnone,
      Option.map_none, hstep]
    dsimp only
    rw [ih (by rw [hnext, Nat.add_mod_right]; exact hal) (by omega), hnext,
      Nat.add_div_right _ (by decide : 0 < pageSize), Nat.succ_sub_succ]
  | case3 page hle hnone hlt =>
    -- the last page of all is the last one to look at
    have hlast : last.toNat / pageSize + 1 - page.toNat / pageSize = 1 := by
      have := last.toNat_lt
      have := (Word.le_iff_of_aligned hal).1 hle
      simp only [pageSize, addressLimit] at *
      omega
    rw [hlast, checkPages, faultAt_congr (hsame hal hva), hnone]
    rfl
  | case4 page hle =>
    rw [Nat.sub_eq_zero_of_le (by have := mt (Word.le_iff_of_aligned hal).2 hle; omega)]
    rfl

/-- **The walk in machine words is the check.** -/
theorem checkWords_eq (va len : Word) : s.checkWords va len k = some (s.check va.toNat len.toNat k) := by
  unfold checkWords check
  by_cases h0 : len = 0
  · rw [if_pos h0, if_pos (by rw [h0]; rfl)]
  · have h0' : len.toNat ≠ 0 := fun h => h0 (UInt64.toNat_inj.1 h)
    obtain ⟨rest, hr, hrest⟩ := Word.checkedSub_one h0
    rw [if_neg h0, if_neg h0', hr, ← hrest]
    show (match va.checkedAdd rest with | none => _ | some last => _) = _
    rcases hl : va.checkedAdd rest with - | last
    · rw [if_pos (Word.checkedAdd_eq_none.1 hl)]
    · have hlast := Word.checkedAdd_eq_some hl
      have hdown := Word.toNat_pageDown va
      have hlt := last.toNat_lt
      rw [if_neg (by simp only [addressLimit]; omega)]
      show some (s.walkFrom k va last va.pageDown) = _
      rw [walkFrom_eq, hdown, hlast, pagesTouched]
      · congr 2
        · simp only [pageDown, pageSize]
          omega
        · exact Nat.max_eq_right (pageDown_le _)
      all_goals rw [hdown]; simp only [Exokernel.pageDown, pageSize]; omega

/-! ## The least byte that is closed -/

/-- The byte at an address is open to accesses of a kind. -/
structure Open (s : AddressSpace) (k : AccessKind) (x : Nat) : Prop where
  below : x < userTop
  mapped : ∃ e, s.entryAt x = some e ∧ e.perm.contains .present ∧ e.perm.contains .user ∧
    (k = .write → e.perm.contains .writable)

/-- The page of an address is mapped and present. -/
def presentAt (s : AddressSpace) (x : Nat) : Bool := (s.entryAt x).any (·.perm.contains .present)

/-- The cause of a fault: user code made an access of a kind to a page that is present or is not. -/
def causeOf (k : AccessKind) (isPresent : Bool) : FaultCode :=
  .user ||| (if k = .write then .write else ⟨0⟩) ||| (if isPresent then .present else ⟨0⟩)

theorem open_iff {x : Nat} : s.Open k x ↔ ∃ e, s.entryAt x = some e ∧ e.allows k := by
  have hallows (e : Pte) : e.allows k ↔ e.perm.contains .present ∧ e.perm.contains .user ∧
      (k = .write → e.perm.contains .writable) := by
    cases k <;> simp [Pte.allows]
  constructor
  · rintro ⟨-, e, he, h⟩
    exact ⟨e, he, (hallows e).2 h⟩
  · rintro ⟨e, he, h⟩
    exact ⟨lt_of_entryAt he, e, he, (hallows e).1 h⟩

/-- The code of a fault says what was tried and whether there was a page. -/
theorem code_of_faultAt (h : s.faultAt k a = some f) : f.code = causeOf k (s.presentAt a) := by
  unfold faultAt at h
  unfold presentAt
  cases he : s.entryAt a with
  | none =>
    rw [he] at h
    cases h
    cases k <;> rfl
  | some e =>
    rw [he, Option.map_some, Option.filter_some] at h
    rw [Option.any_some]
    cases hp : e.perm.contains .present with
    | false =>
      rw [hp] at h
      cases h
      cases k <;> rfl
    | true =>
      rw [hp, if_pos rfl] at h
      dsimp only at h
      split at h
      · cases h
      · cases h
        cases k <;> rfl

theorem allows_of_checkPages_error (h : s.checkPages k n a = .error f) {x : Nat} (ha : a ≤ x) (hx : x < f.address) :
    ∃ e, s.entryAt x = some e ∧ e.allows k := by
  induction n generalizing a with
  | zero => cases h
  | succ n ih =>
    unfold checkPages at h
    split at h
    next g hg =>
      cases h
      rw [(faultAt_eq_some hg).1] at hx
      omega
    next hnone =>
      by_cases hp : x / pageSize = a / pageSize
      · rw [entryAt_congr hp]
        exact faultAt_eq_none_iff.1 hnone
      · refine ih h ?_
        simp only [pageDown, pageSize] at *
        omega

/-- **A check passes just when the whole range is open.** -/
theorem check_eq_ok_iff {len : Nat} :
    s.check a len k = .ok () ↔ ∀ x, a ≤ x → x < a + len → s.Open k x :=
  ⟨fun h _ hx hlt => open_iff.2 (allows_of_check h hx hlt),
    fun h => check_of_allows fun x hx hlt => open_iff.1 (h x hx hlt)⟩

/-- **A check that fails reports the least byte that is closed.** -/
theorem least_of_check_error {len : Nat} (hlen : len < addressLimit / 2) (h : s.check a len k = .error f) :
    IsLeast {x | a ≤ x ∧ x < a + len ∧ ¬ s.Open k x} f.address ∧ f.code = causeOf k (s.presentAt f.address) := by
  rcases check_error_cases h with ⟨h0, hover, rfl⟩ | ⟨-, hpages, hf, hle, hlt, -⟩
  · -- a range of this length that runs past the last address starts above `userTop`
    have htop : userTop ≤ a := by
      simp only [addressLimit, userTop] at *
      omega
    have hclosed : ¬ s.Open k a := fun ho => absurd ho.below (Nat.not_lt_of_le htop)
    have hnone : s.entryAt a = none :=
      Option.eq_none_iff_forall_not_mem.2 fun e he => absurd (lt_of_entryAt he) (Nat.not_lt_of_le htop)
    refine ⟨⟨⟨Nat.le_refl _, Nat.lt_add_of_pos_right (Nat.pos_of_ne_zero h0), hclosed⟩, fun x hx => hx.1⟩, ?_⟩
    dsimp only
    rw [presentAt, hnone]
    cases k <;> rfl
  · have hclosed : ¬ s.Open k f.address := fun ho => by
      rw [faultAt_eq_none_iff.2 (open_iff.1 ho)] at hf
      cases hf
    refine ⟨⟨⟨hle, hlt, hclosed⟩, fun x hx => Nat.le_of_not_lt fun hxf => hx.2.2 ?_⟩, code_of_faultAt hf⟩
    exact open_iff.2 (allows_of_checkPages_error hpages hx.1 hxf)

/-- **The check of an access finds the first byte that is closed**, without overflow, and a load or store that fails it
moves no byte: what is left is the delivery of the fault. -/
theorem check_finds_least_closed_byte (s : AddressSpace) (k : AccessKind) :
    (∀ va len : Word, len.toNat < addressLimit / 2 →
      s.checkWords va len k = some (s.check va.toNat len.toNat k) ∧
      (s.check va.toNat len.toNat k = .ok () ↔ ∀ x, va.toNat ≤ x → x < va.toNat + len.toNat → s.Open k x) ∧
      ∀ f, s.check va.toNat len.toNat k = .error f →
        IsLeast {x | va.toNat ≤ x ∧ x < va.toNat + len.toNat ∧ ¬ s.Open k x} f.address ∧
        f.code = causeOf k (s.presentAt f.address)) ∧
    ∀ (kern : Kernel) (i : EnvId) (e : Env) (va : Word) (f : PageFault), kern.env? i = some e → e.space = s →
      (∀ len, s.check va.toNat len .read = .error f →
        s.read kern.machine va.toNat len = .error f ∧
        kern.load i va len = (.error (kern.raise i f).1, (kern.raise i f).2)) ∧
      ∀ data : Bytes, s.check va.toNat data.size .write = .error f →
        s.write kern.machine va.toNat data = .error f ∧
        kern.store i va data = (.error (kern.raise i f).1, (kern.raise i f).2) := by
  refine ⟨fun va len hlen => ⟨checkWords_eq va len, check_eq_ok_iff, fun f h => least_of_check_error hlen h⟩, ?_⟩
  rintro kern i e va f he rfl
  refine ⟨fun len h => ?_, fun data h => ?_⟩
  · have hr : e.space.read kern.machine va.toNat len = .error f := by rw [read, h]
    refine ⟨hr, ?_⟩
    rw [Kernel.load, he]
    dsimp only
    rw [hr]
  · have hw : e.space.write kern.machine va.toNat data = .error f := by rw [write, h]
    refine ⟨hw, ?_⟩
    rw [Kernel.store, he]
    dsimp only
    rw [hw]

/-- A store that starts at the end of the stack and runs into the guard page above it. -/
theorem check_finds_guard_page : ∃ (kern : Kernel) (e : Env) (f : PageFault), kern.Reachable ∧
    kern.env? ⟨4096⟩ = some e ∧
    e.space.checkWords (stackTop - 2).toUInt64 4 .write = some (.error f) ∧ f = ⟨stackTop, ⟨6⟩⟩ ∧
    IsLeast {x | stackTop - 2 ≤ x ∧ x < stackTop - 2 + 4 ∧ ¬ e.space.Open .write x} stackTop ∧
    (∀ x, stackTop - 2 ≤ x → x < stackTop - 2 + 2 → e.space.Open .write x) ∧
    kern.store ⟨4096⟩ (stackTop - 2).toUInt64 #[1, 2, 3, 4] = (.error (kern.raise ⟨4096⟩ f).1, (kern.raise ⟨4096⟩ f).2) := by
  let kern := ((Kernel.ofConfig ⟨16, 1⟩).log (.booted ⟨16, 1⟩)).step (.spawn {})
  have hk : kern.Reachable := .step (.boot (c := ⟨16, 1⟩) rfl) _
  obtain ⟨e, he⟩ : ∃ e, kern.env? ⟨4096⟩ = some e := Option.isSome_iff_exists.1 (by decide +kernel)
  have hcheck (len : Nat) : e.space.check (stackTop - 2) len .write =
      ((kern.env? ⟨4096⟩).map fun e => e.space.check (stackTop - 2) len .write).getD (.ok ()) := by rw [he]; rfl
  have h4 : e.space.check (stackTop - 2) 4 .write = .error ⟨stackTop, ⟨6⟩⟩ := (hcheck 4).trans (by decide +kernel)
  have h2 : e.space.check (stackTop - 2) 2 .write = .ok () := (hcheck 2).trans (by decide +kernel)
  obtain ⟨hcheck, htransfer⟩ := check_finds_least_closed_byte e.space .write
  obtain ⟨hwords, -, hleast⟩ := hcheck (stackTop - 2).toUInt64 4 (by decide)
  obtain ⟨-, hopen, -⟩ := hcheck (stackTop - 2).toUInt64 2 (by decide)
  exact ⟨kern, e, ⟨stackTop, ⟨6⟩⟩, hk, he, hwords.trans (congrArg some h4), rfl, (hleast _ h4).1, hopen.1 h2,
    ((htransfer kern ⟨4096⟩ e (stackTop - 2).toUInt64 _ he rfl).2 #[1, 2, 3, 4] h4).2⟩

end AddressSpace
end Exokernel
