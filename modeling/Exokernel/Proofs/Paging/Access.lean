import Exokernel.Proofs.Paging.Space
/-!
# Access to user memory

A byte of an address space has a place: a frame and an offset in it.  A check looks at the first byte of each page
only, and yet answers for every byte of its range.  Main statements: a read gives the bytes of its range
(`getElem?_of_read`), and a write changes the bytes of its range (`byte_write_of_locate`) and no others
(`byte_write_of_ne`).
-/
namespace Exokernel

/-- The place of a byte: a frame and an offset in it. -/
abbrev Place := Frame × Nat

namespace Machine

def byte (m : Machine) (l : Place) : Option UInt8 := (m.page l.1)[l.2]?

theorem byte_congr {m m' : Machine} {l : Place} (h : m'.page l.1 = m.page l.1) : m'.byte l = m.byte l := by
  rw [byte, h, byte]

theorem page_ext {m m' : Machine} {f : Frame} (h : ∀ o, m'.byte (f, o) = m.byte (f, o)) :
    m'.page f = m.page f := by
  apply Vector.ext
  intro o ho
  have := h o
  simp only [byte] at this
  rw [Vector.getElem?_eq_getElem ho, Vector.getElem?_eq_getElem ho] at this
  exact Option.some.inj this

theorem byte_write {m : Machine} {f : Frame} (h : 0 < m.refs f) (o : Nat) (d : Bytes) (l : Place) :
    (m.write f o d).byte l = if f = l.1 ∧ o ≤ l.2 ∧ l.2 < o + d.size ∧ l.2 < pageSize then d[l.2 - o]? else m.byte l := by
  obtain ⟨g, i⟩ := l
  simp only [byte, page_write h]
  by_cases hf : f = g
  · by_cases hi : i < pageSize
    · by_cases ho : o ≤ i
      · by_cases hd : i < o + d.size
        · have : i - o < d.size := by omega
          simp [hf, hi, ho, hd, Page.getElem_write, Array.getD, this]
        · have : ¬ i - o < d.size := by omega
          simp [hf, hi, ho, hd, Page.getElem_write, Array.getD, this]
      · simp [hf, hi, ho, Page.getElem_write]
    · simp [hf, hi]
  · simp [hf]

end Machine

/-- The entry lets user code make accesses of a kind. -/
def Pte.allows (e : Pte) (k : AccessKind) : Bool :=
  e.perm.contains .present && (e.perm.contains .user && (k == .read || e.perm.contains .writable))

theorem Pte.allows_read {e : Pte} (h : e.allows .write) : e.allows .read := by
  simp only [allows, Bool.and_eq_true] at *
  exact ⟨h.1, h.2.1, rfl⟩

theorem Pte.contains_of_allows {e : Pte} {k : AccessKind} (h : e.allows k) :
    e.perm.contains .present ∧ e.perm.contains .user := by
  simp only [allows, Bool.and_eq_true] at h
  exact ⟨h.1, h.2.1⟩

theorem Pte.writable_of_allows {e : Pte} (h : e.allows .write) : e.perm.contains .writable := by
  simp only [allows, Bool.and_eq_true] at h
  simpa using h.2.2

namespace AddressSpace

variable {s : AddressSpace} {m m' : Machine} {k : AccessKind} {a b len : Nat}

/-! ## Checks -/

theorem entryAt_congr (h : a / pageSize = b / pageSize) : s.entryAt a = s.entryAt b := by
  have hlt : a < userTop ↔ b < userTop := by simp only [userTop, pageSize] at *; omega
  unfold entryAt VirtAddr.ofNat?
  by_cases ha : a < userTop
  · rw [dif_pos ha, dif_pos (hlt.1 ha), Option.bind_some, Option.bind_some]
    refine PageTable.lookup_congr ?_
    simp only [VirtAddr.pageDown, Exokernel.pageDown, h]
  · rw [dif_neg ha, dif_neg (mt hlt.2 ha)]

theorem faultAt_eq_none_iff : s.faultAt k a = none ↔ ∃ e, s.entryAt a = some e ∧ e.allows k := by
  unfold faultAt
  cases s.entryAt a with
  | none => simp
  | some e =>
    by_cases hp : e.perm.contains .present = true
    · cases k <;> simp [hp, Option.filter, Pte.allows]
    · simp [hp, Option.filter, Pte.allows]

theorem checkPages_eq_ok_iff (n : Nat) (a : Nat) : s.checkPages k n a = .ok () ↔
    ∀ x, a ≤ x → x / pageSize < a / pageSize + n → ∃ e, s.entryAt x = some e ∧ e.allows k := by
  induction n generalizing a with
  | zero =>
    refine ⟨fun _ x hx hn => ?_, fun _ => rfl⟩
    have := Nat.div_le_div_right (c := pageSize) hx
    omega
  | succ n ih =>
    have hnext : (Exokernel.pageDown a + pageSize) / pageSize = a / pageSize + 1 := by
      simp only [Exokernel.pageDown, pageSize]; omega
    unfold checkPages
    cases hf : s.faultAt k a with
    | some f =>
      refine ⟨fun h => (by cases h), fun h => ?_⟩
      rw [faultAt_eq_none_iff.2 (h a (Nat.le_refl _) (by omega))] at hf
      cases hf
    | none =>
      rw [faultAt_eq_none_iff] at hf
      show s.checkPages k n _ = _ ↔ _
      rw [ih, hnext]
      constructor
      · intro h x hx hn
        by_cases hp : x / pageSize = a / pageSize
        · rwa [entryAt_congr hp]
        · refine h x ?_ (by omega)
          simp only [Exokernel.pageDown, pageSize] at *; omega
      · intro h x hx hn
        refine h x ?_ (by omega)
        simp only [Exokernel.pageDown, pageSize] at *; omega

/-- **A check that passes answers for every byte of the range.** -/
theorem allows_of_check (h : s.check a len k = .ok ()) {x : Nat} (hx : a ≤ x) (hn : x < a + len) :
    ∃ e, s.entryAt x = some e ∧ e.allows k := by
  unfold check at h
  rw [if_neg (by omega)] at h
  split at h
  · cases h
  · refine (checkPages_eq_ok_iff _ _).1 h x hx ?_
    simp only [pagesTouched, pageSize]
    omega

theorem check_of_allows (h : ∀ x, a ≤ x → x < a + len → ∃ e, s.entryAt x = some e ∧ e.allows k) :
    s.check a len k = .ok () := by
  unfold check
  split
  · rfl
  next h0 =>
    have hlast : a + (len - 1) < userTop := by
      obtain ⟨e, he, -⟩ := h (a + (len - 1)) (by omega) (by omega)
      obtain ⟨v, hv, -⟩ := Option.bind_eq_some_iff.1 he
      rw [← VirtAddr.ofNat?_eq_some_iff.1 hv]
      exact v.raw_lt
    rw [if_neg (by simp only [addressLimit, userTop] at *; omega), checkPages_eq_ok_iff]
    intro x hx hn
    -- the last page of the range may hold bytes behind it
    obtain ⟨y, hy, hyl, hyx⟩ : ∃ y, a ≤ y ∧ y < a + len ∧ y / pageSize = x / pageSize := by
      by_cases hxl : x < a + len
      · exact ⟨x, hx, hxl, rfl⟩
      · refine ⟨a + (len - 1), by omega, by omega, ?_⟩
        have := Nat.div_le_div_right (c := pageSize) (show a ≤ a + (len - 1) by omega)
        have := Nat.div_le_div_right (c := pageSize) (show a + (len - 1) ≤ x by omega)
        simp only [pagesTouched] at hn
        omega
    rw [← entryAt_congr hyx]
    exact h y hy hyl

/-! ## Places -/

/-- Where the byte at an address is, if its page is mapped. -/
def locate (s : AddressSpace) (a : Nat) : Option Place := (s.entryAt a).map fun e => (e.frame, pageOffset a)

/-- The byte at an address, if its page is mapped. -/
def byte? (s : AddressSpace) (m : Machine) (a : Nat) : Option UInt8 := (s.locate a).bind m.byte

theorem locate_eq_some {e : Pte} (h : s.entryAt a = some e) : s.locate a = some (e.frame, pageOffset a) := by
  rw [locate, h]; rfl

theorem byte?_eq {e : Pte} (h : s.entryAt a = some e) : s.byte? m a = (m.page e.frame)[pageOffset a]? := by
  rw [byte?, locate_eq_some h]; rfl

/-! ## Reading -/

theorem getElem?_readPart {n i : Nat} (hi : i < n) (hn : pageOffset a + n ≤ pageSize) :
    (s.readPart m a n)[i]? = s.byte? m (a + i) := by
  have hp : (a + i) / pageSize = a / pageSize := by simp only [pageOffset, pageSize] at *; omega
  have ho : pageOffset (a + i) = pageOffset a + i := by simp only [pageOffset, pageSize] at *; omega
  unfold readPart
  cases he : s.entryAt a with
  | none => simp [byte?, locate, entryAt_congr hp, he]
  | some e =>
    rw [byte?_eq (e := e) (by rw [entryAt_congr hp, he]), ho]
    have : i < min (pageOffset a + n) pageSize - pageOffset a := by omega
    simp [Machine.read, Page.read, this]

theorem size_readPart {n : Nat} {e : Pte} (he : s.entryAt a = some e) (hn : pageOffset a + n ≤ pageSize) :
    (s.readPart m a n).size = n := by
  rw [readPart, he]
  show ((m.page e.frame).read _ _).size = _
  rw [Page.size_read, Page.room]
  omega

theorem pageOffset_add_min_le (a len : Nat) : pageOffset a + min (pageSize - pageOffset a) len ≤ pageSize := by
  have := pageOffset_lt a
  omega

theorem pagesTouched_tail {n : Nat} (hn : pagesTouched a len ≤ n + 1) (h : 0 < len - min (pageSize - pageOffset a) len) :
    pagesTouched (a + min (pageSize - pageOffset a) len) (len - min (pageSize - pageOffset a) len) ≤ n := by
  simp only [pagesTouched, pageOffset, pageSize] at *
  omega

theorem foldl_readPart (n : Nat) (a len : Nat) (hn : 0 < len → pagesTouched a len ≤ n)
    (hm : ∀ x, a ≤ x → x < a + len → ∃ e, s.entryAt x = some e) (buf : Bytes) :
    ∃ out : Bytes, (partsFrom n a len).foldl (fun buf (b, n) => buf ++ s.readPart m b n) buf = buf ++ out ∧
      out.size = len ∧ ∀ i, i < len → out[i]? = s.byte? m (a + i) := by
  induction n generalizing a len buf with
  | zero =>
    obtain rfl : len = 0 := by
      have : 1 ≤ pagesTouched a len := by simp only [pagesTouched]; omega
      omega
    exact ⟨#[], by simp [partsFrom], rfl, fun i hi => absurd hi (Nat.not_lt_zero _)⟩
  | succ n ih =>
    unfold partsFrom
    by_cases h0 : len = 0
    · subst h0
      exact ⟨#[], by simp, rfl, fun i hi => absurd hi (Nat.not_lt_zero _)⟩
    · rw [if_neg h0]
      have hle := pageOffset_add_min_le a len
      have hpos : 0 < min (pageSize - pageOffset a) len := by have := pageOffset_lt a; omega
      have htail := pagesTouched_tail (hn (by omega))
      generalize hh : min (pageSize - pageOffset a) len = here at *
      obtain ⟨e, he⟩ := hm a (Nat.le_refl _) (by omega)
      have hsize := size_readPart (m := m) he hle
      obtain ⟨out, ho, hs, hb⟩ := ih (a + here) (len - here) htail (fun x hx hl => hm x (by omega) (by omega))
        (buf ++ s.readPart m a here)
      refine ⟨s.readPart m a here ++ out, ?_, ?_, fun i hi => ?_⟩
      · simp only [List.foldl_cons]
        rw [ho, Array.append_assoc]
      · rw [Array.size_append, hsize, hs]
        omega
      · by_cases hlt : i < here
        · rw [Array.getElem?_append_left (by omega), getElem?_readPart hlt hle]
        · rw [Array.getElem?_append_right (by omega), hsize, hb _ (by omega)]
          congr 1
          omega

/-- **A read gives the bytes of its range.** -/
theorem getElem?_of_read {bytes : Bytes} (h : s.read m a len = .ok bytes) :
    bytes.size = len ∧ ∀ i, i < len → bytes[i]? = s.byte? m (a + i) := by
  unfold read at h
  split at h
  · cases h
  next hc =>
    cases h
    obtain ⟨out, ho, hs, hb⟩ := foldl_readPart (s := s) (m := m) (pagesTouched a len) a len (fun _ => Nat.le_refl _)
      (fun x hx hl => (allows_of_check hc hx hl).imp fun _ he => he.1) #[]
    rw [rangeParts, ho, Array.empty_append]
    exact ⟨hs, hb⟩

/-! ## Writing -/

theorem byte_writePart {d : Bytes} (hr : ∀ e, s.entryAt a = some e → 0 < m.refs e.frame)
    (hn : pageOffset a + d.size ≤ pageSize) (l : Place) :
    (s.writePart m a d).byte l =
      if ∃ i, i < d.size ∧ s.locate (a + i) = some l then d[l.2 - pageOffset a]? else m.byte l := by
  have hloc (i : Nat) (hi : i < d.size) : s.locate (a + i) = (s.entryAt a).map fun e => (e.frame, pageOffset a + i) := by
    have hp : (a + i) / pageSize = a / pageSize := by simp only [pageOffset, pageSize] at *; omega
    have ho : pageOffset (a + i) = pageOffset a + i := by simp only [pageOffset, pageSize] at *; omega
    rw [locate, entryAt_congr hp, ho]
  unfold writePart
  cases he : s.entryAt a with
  | none =>
    rw [if_neg]
    rintro ⟨i, hi, h⟩
    rw [hloc i hi, he] at h
    cases h
  | some e =>
    show (m.write e.frame _ d).byte l = _
    have hiff : (e.frame = l.1 ∧ pageOffset a ≤ l.2 ∧ l.2 < pageOffset a + d.size ∧ l.2 < pageSize) ↔
        ∃ i, i < d.size ∧ s.locate (a + i) = some l := by
      constructor
      · rintro ⟨hf, ho, hd, -⟩
        refine ⟨l.2 - pageOffset a, by omega, ?_⟩
        rw [hloc _ (by omega), he, Nat.add_sub_cancel' ho, Option.map_some, hf]
      · rintro ⟨i, hi, h⟩
        rw [hloc i hi, he] at h
        cases h
        refine ⟨rfl, ?_, ?_, ?_⟩ <;> dsimp only <;> omega
    rw [Machine.byte_write (hr e he)]
    simp only [hiff]

@[simp] theorem refs_writePart (d : Bytes) (g : Frame) : (s.writePart m a d).refs g = m.refs g := by
  unfold writePart
  split
  · rfl
  · exact Machine.refs_write _ _ _ _ _

/-- Where the data goes for the first `n` pages of a range, part by part. -/
def writeParts (s : AddressSpace) (base : Nat) (data : Bytes) (n a len : Nat) (m : Machine) : Machine :=
  (partsFrom n a len).foldl (fun m (b, n) => s.writePart m b (data.extract (b - base) (b - base + n))) m

theorem write_ok {data : Bytes} (h : s.write m a data = .ok m') :
    s.check a data.size .write = .ok () ∧ m' = s.writeParts a data (pagesTouched a data.size) a data.size m := by
  unfold write at h
  split at h
  · cases h
  next hc =>
    cases h
    exact ⟨hc, rfl⟩

/-- What passes its check is written. -/
theorem write_of_check {data : Bytes} (h : s.check a data.size .write = .ok ()) : ∃ m', s.write m a data = .ok m' := by
  unfold write
  rw [h]
  exact ⟨_, rfl⟩

theorem writeParts_succ {base n : Nat} {data : Bytes} (h : len ≠ 0) :
    s.writeParts base data (n + 1) a len m =
      s.writeParts base data n (a + min (pageSize - pageOffset a) len) (len - min (pageSize - pageOffset a) len)
        (s.writePart m a (data.extract (a - base) (a - base + min (pageSize - pageOffset a) len))) := by
  rw [writeParts, partsFrom, if_neg h]
  rfl

theorem writeParts_induction {Q : Machine → Prop} {base : Nat} {data : Bytes}
    (step : ∀ (m : Machine) (e : Pte) (o : Nat) (d : Bytes), Q m → e.frame ∈ s.table.leafFrames → Q (m.write e.frame o d))
    (n a len : Nat) (h : Q m) :
    Q (s.writeParts base data n a len m) := by
  induction n generalizing a len m with
  | zero => exact h
  | succ n ih =>
    by_cases h0 : len = 0
    · rw [writeParts, partsFrom, if_pos h0]; exact h
    · rw [writeParts_succ h0]
      refine ih _ _ ?_
      unfold writePart
      split
      · exact h
      next e he =>
        obtain ⟨v, -, hv⟩ := Option.bind_eq_some_iff.1 he
        exact step _ _ _ _ h (PageTable.mem_leafFrames hv)

theorem refs_write {data : Bytes} (h : s.write m a data = .ok m') (g : Frame) : m'.refs g = m.refs g := by
  obtain ⟨-, rfl⟩ := write_ok h
  exact writeParts_induction (Q := fun m' => m'.refs g = m.refs g)
    (fun m' e o d hm _ => by rw [Machine.refs_write, hm]) _ _ _ rfl

/-- **A write keeps the books.** -/
theorem balanced_write {P L : List Frame} {data : Bytes} (hb : m.Balanced P L) (hs : ∀ f ∈ s.table.leafFrames, f ∈ L)
    (h : s.write m a data = .ok m') : m'.Balanced P L := by
  obtain ⟨-, rfl⟩ := write_ok h
  exact writeParts_induction (Q := fun m => m.Balanced P L) (fun m e o d hm he => hm.write (hs _ he) o d) _ _ _ hb

section bytes
variable {base : Nat} {data : Bytes} {l : Place}

theorem byte_writeParts_of_ne (n : Nat) (hr : ∀ x e, s.entryAt x = some e → 0 < m.refs e.frame) (hb : base ≤ a)
    (hd : a + len = base + data.size) (hne : ∀ x, a ≤ x → x < a + len → s.locate x ≠ some l) :
    (s.writeParts base data n a len m).byte l = m.byte l := by
  induction n generalizing a len m with
  | zero => rfl
  | succ n ih =>
    by_cases h0 : len = 0
    · rw [writeParts, partsFrom, if_pos h0]; rfl
    · have hle := pageOffset_add_min_le a len
      rw [writeParts_succ h0]
      have hmin : min (pageSize - pageOffset a) len ≤ len := Nat.min_le_right _ _
      generalize min (pageSize - pageOffset a) len = here at *
      have hsize : (data.extract (a - base) (a - base + here)).size = here := by simp; omega
      rw [ih (fun x e he => by rw [refs_writePart]; exact hr x e he) (by omega) (by omega)
        (fun x hx hl => hne x (by omega) (by omega))]
      rw [byte_writePart (fun e he => hr a e he) (by omega), if_neg]
      rintro ⟨i, hi, h⟩
      exact hne _ (by omega) (by omega) h

theorem byte_writeParts_of_locate (n : Nat) (hn : 0 < len → pagesTouched a len ≤ n)
    (hr : ∀ x e, s.entryAt x = some e → 0 < m.refs e.frame) (hb : base ≤ a) (hd : a + len = base + data.size)
    {x : Nat} (hx : a ≤ x) (hl : x < a + len) (hloc : s.locate x = some l)
    (hu : ∀ y, a ≤ y → y < a + len → s.locate y = some l → y ≤ x) :
    (s.writeParts base data n a len m).byte l = data[x - base]? := by
  induction n generalizing a len m with
  | zero =>
    have : 1 ≤ pagesTouched a len := by simp only [pagesTouched]; omega
    omega
  | succ n ih =>
    have h0 : len ≠ 0 := by omega
    have hle := pageOffset_add_min_le a len
    have htail := pagesTouched_tail (hn (by omega))
    rw [writeParts_succ h0]
    have hmin : min (pageSize - pageOffset a) len ≤ len := Nat.min_le_right _ _
    generalize min (pageSize - pageOffset a) len = here at *
    have hsize : (data.extract (a - base) (a - base + here)).size = here := by simp; omega
    have hr' (y : Nat) (e : Pte) (he : s.entryAt y = some e) :
        0 < (s.writePart m a (data.extract (a - base) (a - base + here))).refs e.frame := by
      rw [refs_writePart]; exact hr y e he
    by_cases hin : x < a + here
    · rw [byte_writeParts_of_ne n hr' (by omega) (by omega)
        (fun y hy hyl h => by have := hu y (by omega) (by omega) h; omega)]
      rw [byte_writePart (fun e he => hr a e he) (by omega),
        if_pos ⟨x - a, by omega, by rw [Nat.add_sub_cancel' hx, hloc]⟩]
      have ho : l.2 = pageOffset x := by
        obtain ⟨e, -, rfl⟩ := Option.map_eq_some_iff.1 hloc
        rfl
      have hox : pageOffset x - pageOffset a = x - a := by simp only [pageOffset, pageSize] at *; omega
      rw [ho, hox, Array.getElem?_extract, if_pos (by omega)]
      congr 1
      omega
    · exact ih htail hr' (by omega) (by omega) (by omega) (by omega) (fun y hy hyl h => hu y (by omega) (by omega) h)

end bytes

section write
variable {data : Bytes} {l : Place} (hr : ∀ f ∈ s.table.leafFrames, 0 < m.refs f) (h : s.write m a data = .ok m')
include hr h

/-- **A write changes no place outside its range.** -/
theorem byte_write_of_ne (hne : ∀ x, a ≤ x → x < a + data.size → s.locate x ≠ some l) : m'.byte l = m.byte l := by
  obtain ⟨-, rfl⟩ := write_ok h
  refine byte_writeParts_of_ne _ (fun x e he => ?_) (Nat.le_refl _) rfl hne
  obtain ⟨v, -, hv⟩ := Option.bind_eq_some_iff.1 he
  exact hr _ (PageTable.mem_leafFrames hv)

/-- **A write puts each byte where its address is**, if no later address of the range is there too. -/
theorem byte_write_of_last {x : Nat} (hx : a ≤ x) (hl : x < a + data.size) (hloc : s.locate x = some l)
    (hu : ∀ y, a ≤ y → y < a + data.size → s.locate y = some l → y ≤ x) : m'.byte l = data[x - a]? := by
  obtain ⟨-, rfl⟩ := write_ok h
  refine byte_writeParts_of_locate _ (fun _ => Nat.le_refl _) (fun x e he => ?_) (Nat.le_refl _) rfl hx hl hloc hu
  obtain ⟨v, -, hv⟩ := Option.bind_eq_some_iff.1 he
  exact hr _ (PageTable.mem_leafFrames hv)

theorem byte_write_of_locate {x : Nat} (hx : a ≤ x) (hl : x < a + data.size) (hloc : s.locate x = some l)
    (hu : ∀ y, a ≤ y → y < a + data.size → s.locate y = some l → y = x) : m'.byte l = data[x - a]? :=
  byte_write_of_last hr h hx hl hloc fun y hy hyl hloc => Nat.le_of_eq (hu y hy hyl hloc)

/-- **A write changes only frames that are mapped writable.** -/
theorem writable_of_byte_ne (hne : m'.byte l ≠ m.byte l) :
    ∃ x e, a ≤ x ∧ x < a + data.size ∧ s.entryAt x = some e ∧ e.perm.contains .writable ∧
      l = (e.frame, pageOffset x) := by
  refine Classical.byContradiction fun hn => hne ?_
  refine byte_write_of_ne hr h fun x hx hl hloc => hn ?_
  obtain ⟨e, he, hw⟩ := allows_of_check (write_ok h).1 hx hl
  rw [locate_eq_some he] at hloc
  cases hloc
  exact ⟨x, e, hx, hl, he, Pte.writable_of_allows hw, rfl⟩

end write

end AddressSpace
end Exokernel
