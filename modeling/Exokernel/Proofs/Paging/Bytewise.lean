import Exokernel.Kernel.Cpu
import Exokernel.Proofs.Paging.Access
/-!
# Access byte by byte

Memory moves in parts, one for each page of a range.  The pages of a range may map the same frame, and then the parts
fall on each other.  Even so a write leaves the machine that single stores in ascending order leave (`write_eq_storeBytes`),
and a read gives what single loads give.  Main statement: `access_bytewise`.
-/
namespace Exokernel

/-- **One byte of a frame replaced**, as long as there is such a frame and the offset is in the page. -/
def Machine.setByte (m : Machine) (l : Place) (b : UInt8) : Machine :=
  m.modifyPool l.1.pool fun p =>
    { p with slots := p.slots.modify l.1.number fun s => { s with page := s.page.setIfInBounds l.2 b } }

namespace AddressSpace

/-- A single store: one byte, at the place where its address is. -/
def storeByte (s : AddressSpace) (m : Machine) (a : Nat) (b : UInt8) : Machine :=
  match s.locate a with
  | none => m
  | some l => m.setByte l b

/-- **Single stores in ascending order.** -/
def storeBytes (s : AddressSpace) (m : Machine) (a : Nat) : List UInt8 → Machine
  | [] => m
  | b :: bs => s.storeBytes (s.storeByte m a b) (a + 1) bs

end AddressSpace

/-! ## One part -/

theorem Page.write_nil (p : Page) (o : Nat) : p.write o #[] = p := by
  apply Vector.ext
  intro i hi
  rw [Page.getElem_write]
  split <;> rfl

/-- A write in a page stores its first byte and then writes the rest behind it. -/
theorem Page.write_cons (p : Page) (o : Nat) (b : UInt8) (bs : List UInt8) :
    p.write o (b :: bs).toArray = Page.write (p.setIfInBounds o b) (o + 1) bs.toArray := by
  apply Vector.ext
  intro i hi
  rw [Page.getElem_write, Page.getElem_write, Vector.getElem_setIfInBounds]
  by_cases ho : o = i
  · subst ho
    rw [if_pos (Nat.le_refl _), if_neg (by omega), if_pos rfl, Nat.sub_self]
    rfl
  · rw [if_neg ho]
    by_cases hle : o ≤ i
    · obtain ⟨j, rfl⟩ : ∃ j, i = o + 1 + j := ⟨i - (o + 1), by omega⟩
      rw [if_pos hle, if_pos (by omega), show o + 1 + j - o = j + 1 by omega, Nat.add_sub_cancel_left]
      simp [Array.getD]
    · rw [if_neg hle, if_neg (by omega)]

theorem modify_modify {α : Type} (xs : Array α) (i : Nat) (g h : α → α) :
    (xs.modify i g).modify i h = xs.modify i fun x => h (g x) := by
  apply Array.ext_getElem?
  intro j
  simp only [Array.getElem?_modify]
  split
  · rw [Option.map_map]
    rfl
  · rfl

theorem modify_id {α : Type} (xs : Array α) (i : Nat) : xs.modify i (fun x => x) = xs := by
  apply Array.ext_getElem?
  intro j
  simp [Array.getElem?_modify]

namespace Machine

variable {m : Machine} {f : Frame} {o : Nat}

theorem write_nil : m.write f o #[] = m := by
  simp only [write, Pool.write, Page.write_nil, modify_id, modifyPool]

theorem write_cons (b : UInt8) (bs : List UInt8) :
    m.write f o (b :: bs).toArray = (m.setByte (f, o) b).write f (o + 1) bs.toArray := by
  simp only [write, setByte, modifyPool, Pool.write, modify_modify, Page.write_cons]

end Machine

namespace AddressSpace

variable {s : AddressSpace} {m m' : Machine} {a len : Nat} {data : Bytes}

theorem storeByte_eq {e : Pte} (h : s.entryAt a = some e) (b : UInt8) :
    s.storeByte m a b = m.setByte (e.frame, pageOffset a) b := by
  rw [storeByte, locate_eq_some h]

theorem storeBytes_append (bs cs : List UInt8) :
    s.storeBytes m a (bs ++ cs) = s.storeBytes (s.storeBytes m a bs) (a + bs.length) cs := by
  induction bs generalizing m a with
  | nil => rfl
  | cons b bs ih =>
    rw [List.cons_append, storeBytes, ih, storeBytes, List.length_cons, Nat.add_assoc, Nat.add_comm 1]

/-- **What falls into one page is stored byte by byte.**  By induction on the bytes: unless the first is the last, the
next address is in the same page, and so has the same entry. -/
theorem storeBytes_eq_write {e : Pte} (he : s.entryAt a = some e) (bs : List UInt8)
    (h : pageOffset a + bs.length ≤ pageSize) :
    s.storeBytes m a bs = m.write e.frame (pageOffset a) bs.toArray := by
  induction bs generalizing m a with
  | nil => exact Machine.write_nil.symm
  | cons b bs ih =>
    rw [storeBytes, storeByte_eq he, Machine.write_cons]
    cases bs with
    | nil => exact Machine.write_nil.symm
    | cons c bs =>
      rw [List.length_cons, List.length_cons] at h
      have hp : (a + 1) / pageSize = a / pageSize := by simp only [pageOffset, pageSize] at *; omega
      have ho : pageOffset (a + 1) = pageOffset a + 1 := by simp only [pageOffset, pageSize] at *; omega
      rw [ih (by rw [entryAt_congr hp, he]) (by rw [ho, List.length_cons]; omega), ho]

/-! ## A whole range -/

theorem writeParts_eq_storeBytes {base : Nat} (n a len : Nat) (hn : 0 < len → pagesTouched a len ≤ n)
    (hm : ∀ x, a ≤ x → x < a + len → ∃ e, s.entryAt x = some e) (hb : base ≤ a) (hd : a + len = base + data.size) :
    s.writeParts base data n a len m = s.storeBytes m a (data.toList.drop (a - base)) := by
  induction n generalizing a len m with
  | zero =>
    obtain rfl : len = 0 := by
      have : 1 ≤ pagesTouched a len := by simp only [pagesTouched]; omega
      omega
    rw [List.drop_of_length_le (by rw [Array.length_toList]; omega)]
    rfl
  | succ n ih =>
    by_cases h0 : len = 0
    · rw [writeParts, partsFrom, if_pos h0, List.drop_of_length_le (by rw [Array.length_toList]; omega)]
      rfl
    · have hle := pageOffset_add_min_le a len
      have hmin : min (pageSize - pageOffset a) len ≤ len := Nat.min_le_right _ _
      have htail := pagesTouched_tail (hn (by omega))
      rw [writeParts_succ h0]
      generalize min (pageSize - pageOffset a) len = here at *
      obtain ⟨e, he⟩ := hm a (Nat.le_refl _) (by omega)
      -- the first part, and the bytes that are left
      have hpart : data.extract (a - base) (a - base + here) = ((data.toList.drop (a - base)).take here).toArray := by
        apply Array.ext'
        rw [Array.toList_extract, List.extract_eq_take_drop, Nat.add_sub_cancel_left]
      have hlen : ((data.toList.drop (a - base)).take here).length = here := by
        rw [List.length_take, List.length_drop, Array.length_toList]
        omega
      have hrest : (data.toList.drop (a - base)).drop here = data.toList.drop (a + here - base) := by
        rw [List.drop_drop]
        congr 1
        omega
      rw [ih _ _ htail (fun x hx hl => hm x (by omega) (by omega)) (by omega) (by omega), hpart, writePart, he]
      show s.storeBytes (m.write e.frame (pageOffset a) _) _ _ = _
      rw [← storeBytes_eq_write he _ (by omega), ← hrest]
      conv_rhs => rw [← List.take_append_drop here (data.toList.drop (a - base)), storeBytes_append, hlen]

/-- **A write that is allowed leaves what single stores in ascending order leave.** -/
theorem write_eq_storeBytes (h : s.check a data.size .write = .ok ()) :
    s.write m a data = .ok (s.storeBytes m a data.toList) := by
  obtain ⟨m', hw⟩ := write_of_check (m := m) h
  obtain ⟨-, rfl⟩ := write_ok hw
  rw [hw, writeParts_eq_storeBytes _ a data.size (fun _ => Nat.le_refl _)
    (fun x hx hl => (allows_of_check h hx hl).imp fun _ he => he.1) (Nat.le_refl _) rfl, Nat.sub_self, List.drop_zero]

/-- What passes its check is read. -/
theorem read_of_check (h : s.check a len .read = .ok ()) : ∃ bytes, s.read m a len = .ok bytes := by
  unfold read
  rw [h]
  exact ⟨_, rfl⟩

theorem read_of_bytes {bytes : Bytes} (h : s.check a len .read = .ok ()) (hs : bytes.size = len)
    (hb : ∀ i, i < len → s.byte? m (a + i) = bytes[i]?) : s.read m a len = .ok bytes := by
  obtain ⟨out, ho⟩ := read_of_check (m := m) h
  obtain ⟨hs', hi⟩ := getElem?_of_read ho
  rw [ho]
  congr 1
  apply Array.ext_getElem?
  intro i
  by_cases hlt : i < len
  · rw [hi i hlt, hb i hlt]
  · rw [Array.getElem?_eq_none (by omega), Array.getElem?_eq_none (by omega)]

/-- **A single load gives the byte at its address.** -/
theorem read_one (h : s.check a len .read = .ok ()) {i : Nat} (hi : i < len) :
    ∃ b, s.byte? m (a + i) = some b ∧ s.read m (a + i) 1 = .ok #[b] := by
  obtain ⟨e, he, -⟩ := allows_of_check h (Nat.le_add_right a i) (by omega)
  have ho := pageOffset_lt (a + i)
  have hb : s.byte? m (a + i) = some (m.page e.frame)[pageOffset (a + i)] := by
    rw [byte?_eq he, Vector.getElem?_eq_getElem ho]
  have hc : s.check (a + i) 1 .read = .ok () :=
    check_of_allows fun x hx hl => allows_of_check h (by omega) (by omega)
  refine ⟨_, hb, read_of_bytes hc rfl fun j hj => ?_⟩
  obtain rfl : j = 0 := by omega
  rw [Nat.add_zero, hb]
  rfl

/-- **Every byte of a read is that of a single load.** -/
theorem read_eq_loads (h : s.check a len .read = .ok ()) :
    ∃ bytes, s.read m a len = .ok bytes ∧ bytes.size = len ∧
      ∀ i, i < len → ∃ b, s.read m (a + i) 1 = .ok #[b] ∧ bytes[i]? = some b := by
  obtain ⟨bytes, hr⟩ := read_of_check (m := m) h
  obtain ⟨hs, hb⟩ := getElem?_of_read hr
  refine ⟨bytes, hr, hs, fun i hi => ?_⟩
  obtain ⟨b, hl, ho⟩ := read_one (m := m) h hi
  exact ⟨b, ho, (hb i hi).trans hl⟩

/-! ## Reading what was written -/

/-- The pages of a range are mapped to frames of their own. -/
def Unaliased (s : AddressSpace) (a len : Nat) : Prop :=
  ∀ x y e e', a ≤ x → x < a + len → a ≤ y → y < a + len → s.entryAt x = some e → s.entryAt y = some e' →
    e.frame = e'.frame → x / pageSize = y / pageSize

/-- Two addresses of such a range are at one place only if they are equal. -/
theorem Unaliased.eq_of_locate (hu : s.Unaliased a len) {x y : Nat} {l : Place} (hx : a ≤ x) (hxl : x < a + len)
    (hy : a ≤ y) (hyl : y < a + len) (hlx : s.locate x = some l) (hly : s.locate y = some l) : y = x := by
  obtain ⟨e, he, hle⟩ := Option.map_eq_some_iff.1 hlx
  obtain ⟨e', he', hle'⟩ := Option.map_eq_some_iff.1 hly
  rw [← hle, Prod.mk.injEq] at hle'
  obtain ⟨hf, ho⟩ := hle'
  have hp := hu y x e' e hy hyl hx hxl he' he hf
  simp only [pageOffset, pageSize] at *
  omega

/-- **What was written is read**, if no two pages of the range are mapped to one frame. -/
theorem read_of_write (hr : ∀ f ∈ s.table.leafFrames, 0 < m.refs f) (h : s.write m a data = .ok m')
    (hu : s.Unaliased a data.size) : s.read m' a data.size = .ok data := by
  have hc := (write_ok h).1
  refine read_of_bytes (check_of_allows fun x hx hl => ?_) rfl fun i hi => ?_
  · obtain ⟨e, he, hw⟩ := allows_of_check hc hx hl
    exact ⟨e, he, Pte.allows_read hw⟩
  · obtain ⟨e, he, -⟩ := allows_of_check hc (Nat.le_add_right a i) (by omega)
    have hl := locate_eq_some he
    have hb := byte_write_of_locate hr h (Nat.le_add_right a i) (by omega) hl fun y hy hyl hly =>
      hu.eq_of_locate (Nat.le_add_right a i) (by omega) hy hyl hl hly
    rw [byte?, hl, Option.bind_some, hb, Nat.add_sub_cancel_left]

/-! ## Both -/

/-- **Access to memory is access byte by byte**, whatever frames the pages of the range share.  A write that is allowed
leaves the machine that single stores in ascending order leave, and a kernel's store changes nothing but that machine:
no mapping, and of the frames only the places of the range, where the highest address wins.  A read that is allowed
fills its whole range with what single loads give. -/
theorem access_bytewise (s : AddressSpace) (m : Machine) (a : Nat) :
    (∀ data : Bytes, s.check a data.size .write = .ok () →
      s.write m a data = .ok (s.storeBytes m a data.toList) ∧
      (∀ (k : Kernel) (i : EnvId) (e : Env) (va : Word), k.env? i = some e → e.space = s → k.machine = m → va.toNat = a →
        k.store i va data = (.ok (), { k with machine := s.storeBytes m a data.toList })) ∧
      ((∀ f ∈ s.table.leafFrames, 0 < m.refs f) →
        (∀ l, (∀ x, a ≤ x → x < a + data.size → s.locate x ≠ some l) →
          (s.storeBytes m a data.toList).byte l = m.byte l) ∧
        (∀ l x, a ≤ x → x < a + data.size → s.locate x = some l →
          (∀ y, a ≤ y → y < a + data.size → s.locate y = some l → y ≤ x) →
          (s.storeBytes m a data.toList).byte l = data[x - a]?) ∧
        (s.Unaliased a data.size → s.read (s.storeBytes m a data.toList) a data.size = .ok data))) ∧
    ∀ len, s.check a len .read = .ok () → ∃ bytes, s.read m a len = .ok bytes ∧ bytes.size = len ∧
      ∀ i, i < len → ∃ b, s.read m (a + i) 1 = .ok #[b] ∧ bytes[i]? = some b := by
  refine ⟨fun data h => ?_, fun len h => read_eq_loads h⟩
  have hw := write_eq_storeBytes (m := m) h
  refine ⟨hw, ?_, fun hr => ⟨?_, ?_, ?_⟩⟩
  · rintro k i e va he rfl rfl rfl
    rw [Kernel.store, he]
    dsimp only
    rw [hw]
  · intro l hne
    exact byte_write_of_ne hr hw hne
  · intro l x hx hl hloc hlast
    exact byte_write_of_last hr hw hx hl hloc hlast
  · intro hu
    exact read_of_write hr hw hu

/-- Two neighbouring pages map one frame.  A write runs over the first and one byte into the second: that byte is the one
that stays.  A write of four bytes is read back in the first page, and in the second. -/
theorem access_bytewise_aliased : ∃ (s : AddressSpace) (m : Machine) (f : Frame),
    s.locate textBase = some (f, 0) ∧ s.locate (textBase + pageSize) = some (f, 0) ∧
    (∃ m', s.write m textBase ((Array.replicate pageSize 1).push 2) = .ok m' ∧ m'.byte (f, 0) = some 2) ∧
    ∃ m', s.write m textBase #[1, 2, 3, 4] = .ok m' ∧ s.read m' textBase 4 = .ok #[1, 2, 3, 4] ∧
      ∃ b, s.read m' (textBase + pageSize + 2) 1 = .ok #[b] := by
  let f : Frame := ⟨0, 0⟩
  let m := (((Machine.ofSizes [4]).alloc 0).2.alloc 0).2.alloc 0 |>.2.retain f
  let v : VirtAddr := ⟨textBase, by decide⟩
  let w : VirtAddr := ⟨textBase + pageSize, by decide⟩
  let e : Pte := ⟨f, .userWritable⟩
  let s : AddressSpace := ⟨(PageTable.empty ⟨0, 1⟩).setDir v
    (some (PageTable.setEntry (PageTable.setEntry (.empty ⟨0, 2⟩) v (some e)) w (some e)))⟩
  have hv : s.locate textBase = some (f, 0) := by decide +kernel
  have hw : s.locate (textBase + pageSize) = some (f, 0) := by decide +kernel
  have hr : ∀ f ∈ s.table.leafFrames, 0 < m.refs f := by decide +kernel
  have hsize : ((Array.replicate pageSize (1 : UInt8)).push 2).size = pageSize + 1 := by
    rw [Array.size_push, Array.size_replicate]
  obtain ⟨hwrite, -⟩ := access_bytewise s m textBase
  obtain ⟨hlong, -, hl⟩ := hwrite ((Array.replicate pageSize 1).push 2) (by rw [hsize]; decide +kernel)
  obtain ⟨-, hlast, -⟩ := hl hr
  obtain ⟨hshort, -, hs⟩ := hwrite #[1, 2, 3, 4] (by decide +kernel)
  obtain ⟨-, -, hback⟩ := hs hr
  refine ⟨s, m, f, hv, hw, ⟨_, hlong, ?_⟩, _, hshort, ?_, ?_⟩
  · rw [hlast (f, 0) (textBase + pageSize) (by omega) (by omega) hw (fun y _ hy _ => by omega), Nat.add_sub_cancel_left,
      Array.getElem?_push, if_pos Array.size_replicate.symm]
  · apply hback
    intro x y _ _ hx hxl hy hyl _ _ _
    have h4 : (#[1, 2, 3, 4] : Bytes).size = 4 := rfl
    simp only [textBase, pageSize] at *
    omega
  · obtain ⟨-, hread⟩ := access_bytewise s (s.storeBytes m textBase #[1, 2, 3, 4].toList) (textBase + pageSize)
    obtain ⟨bytes, -, -, hb⟩ := hread 3 (by decide +kernel)
    obtain ⟨b, hb, -⟩ := hb 2 (by omega)
    exact ⟨b, hb⟩

end AddressSpace
end Exokernel
