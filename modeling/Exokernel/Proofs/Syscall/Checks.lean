import Exokernel.Proofs.Kernel.Identity
import Exokernel.Proofs.Kernel.Sharing
/-!
# The checks of a call

Every service makes its checks in an order of its own.  They are stated here on the argument words and on the state before
the call: on who is live and whose child, on what is mapped, and on how many frames are left (`Service.checks`).  A
computation makes a list of checks if it fails as the first of them that fails says (`Makes`); the laws of this relation
follow the order in which a computation is put together, and its first instances are the readers of arguments.
-/
namespace Exokernel

/-! ## Lists of checks -/

/-- Something that a call requires, and the error that it reports where that is not so. -/
structure Check where
  holds : Bool
  errno : Errno

/-- What a program learns when its call ends. -/
inductive Report where
  | result (r : Except Errno Word)
  | blocked
  | exited
deriving DecidableEq

/-- **The report of a list of checks**: the error of the first that fails, and what else there is to say if none does. -/
def Report.after (success : Report) : List Check → Report
  | [] => success
  | c :: rest => if c.holds then success.after rest else .result (.error c.errno)

def Ecall.report : Ecall → Report
  | .returned ret => .result (Errno.decode ret)
  | .blocked => .blocked
  | .exited => .exited

/-- What the end of a dispatch will be to the caller. -/
def Report.ofDispatch : Except SysError Word → Report
  | .ok ret => .result (Errno.decode ret)
  | .error .blocked => .blocked
  | .error .envExit => .exited
  | .error err => .result (.error err.errno)

/-! ## Words -/

namespace Word

/-- The address of a user page. -/
def isPage (w : Word) : Bool := decide (w.toNat < userTop) && w.toNat % pageSize == 0

/-- A page is meant: from `userTop` on a word stands for none. -/
def meansPage (w : Word) : Bool := decide (w.toNat < userTop)

/-- A permission that a call may install: present and for the user, and no bit but these, the one for writing and those
left to user code. -/
def isSettable (w : Word) : Bool := w &&& 0x5 == 0x5 && w &&& 0xE07 == w

/-- A permission to write is asked for. -/
def asksToWrite (w : Word) : Bool := w &&& 0x2 == 0x2

end Word

/-! ## Frames -/

/-- The number of frames that a pool will hand out. -/
def Pool.supply (p : Pool) : Nat :=
  match p.budget with
  | none => p.free.length
  | some n => min n p.free.length

def Machine.supply (m : Machine) (pool : Nat) : Nat := (m.pools[pool]?.map Pool.supply).getD 0

namespace Kernel

/-- The number of frames that the kernel can still hand out. -/
def supply (k : Kernel) : Nat := k.machine.supply pool

/-- The number of frames that it takes to make room for an entry: one, if there is no page-table page for it yet. -/
def room (k : Kernel) (t : EnvId) (a : Nat) : Nat :=
  if (k.env? t).any fun e => (VirtAddr.ofNat? a).any fun v => (e.space.table.dir.get v.dirIndex).isSome then 0 else 1

/-! ## Environments -/

/-- The live environment that an argument names: zero names the caller, and no word wider than an id names anyone. -/
def named (k : Kernel) (c : EnvId) (w : Word) : Option EnvId :=
  if w = 0 then some c
  else if w.toNat < 0x100000000 ∧ (k.env? ⟨w.toUInt32⟩).isSome then some ⟨w.toUInt32⟩ else none

/-- The live environment that an argument names, if the caller may act on it: itself or its child. -/
def inReach (k : Kernel) (c : EnvId) (w : Word) : Option EnvId :=
  (k.named c w).filter fun t => t == c || (k.env? t).bind Env.parent == some c

/-- A page is mapped, and for writing if a permission to write is asked for. -/
def lends (k : Kernel) (t : EnvId) (va perm : Word) : Bool :=
  (k.mappings.entryAt t va.toNat).any fun pte => !perm.asksToWrite || pte.perm.contains .writable

/-- Every byte of a range may be read. -/
def readable (k : Kernel) (t : EnvId) (a len : Nat) : Bool :=
  (List.range len).all fun i => (k.mappings.entryAt t (a + i)).any (·.allows .read)

def isReceiving (k : Kernel) (t : EnvId) : Bool := (k.env? t).any (·.mailbox.receiving)

/-- There is room for an offered page where the receiver wants one, if it does. -/
def canTake (k : Kernel) (t : EnvId) : Bool :=
  ((k.env? t).bind (·.mailbox.target)).all fun v => decide (k.room t v.raw ≤ k.supply)

end Kernel

/-! ## The checks of each service -/

namespace Service

/-- **What a service requires of the words of its arguments**, in the order in which it is checked. -/
def checks (k : Kernel) (c : EnvId) (w : Nat → Word) : Service → List Check
  | getEnvId => []
  | envDestroy => [⟨(k.inReach c (w 0)).isSome, .badEnv⟩]
  | pageAlloc =>
    [⟨(w 1).isPage, .inval⟩, ⟨(w 2).isSettable, .inval⟩, ⟨(k.inReach c (w 0)).isSome, .badEnv⟩,
      ⟨(k.inReach c (w 0)).any fun t => decide (1 + k.room t (w 1).toNat ≤ k.supply), .noMem⟩]
  | pageMap =>
    [⟨(w 1).isPage, .inval⟩, ⟨(w 3).isPage, .inval⟩, ⟨(w 4).isSettable, .inval⟩,
      ⟨(k.inReach c (w 0)).isSome, .badEnv⟩, ⟨(k.inReach c (w 2)).isSome, .badEnv⟩,
      ⟨(k.inReach c (w 0)).any fun s => k.lends s (w 1) (w 4), .inval⟩,
      ⟨(k.inReach c (w 2)).any fun t => decide (k.room t (w 3).toNat ≤ k.supply), .noMem⟩]
  | pageUnmap => [⟨(w 1).isPage, .inval⟩, ⟨(k.inReach c (w 0)).isSome, .badEnv⟩]
  | exofork => [⟨k.envs.firstFree?.isSome, .noFreeEnv⟩, ⟨decide (1 ≤ k.supply), .noMem⟩]
  | envSetStatus =>
    [⟨w 1 == 2 || w 1 == 4, .inval⟩, ⟨(k.inReach c (w 0)).isSome, .badEnv⟩]
  | envSetTrapframe =>
    [⟨(k.inReach c (w 0)).isSome, .badEnv⟩, ⟨k.readable c (w 1).toNat Registers.size, .inval⟩]
  | envSetPgfaultUpcall => [⟨(k.inReach c (w 0)).isSome, .badEnv⟩]
  | yield => []
  | ipcTrySend =>
    [⟨!(w 2).meansPage || (w 2).isPage, .inval⟩, ⟨!(w 2).meansPage || (w 3).isSettable, .inval⟩,
      ⟨(k.named c (w 0)).isSome, .badEnv⟩, ⟨!(w 2).meansPage || k.lends c (w 2) (w 3), .inval⟩,
      ⟨(k.named c (w 0)).any k.isReceiving, .ipcNotRecv⟩,
      ⟨!(w 2).meansPage || (k.named c (w 0)).any k.canTake, .noMem⟩]
  | ipcRecv => [⟨!(w 0).meansPage || (w 0).isPage, .inval⟩]

/-- What a service reports when nothing is wrong. -/
def success (k : Kernel) (c : EnvId) (w : Nat → Word) : Service → Report
  | getEnvId => .result (.ok c.toWord)
  | envDestroy => if k.named c (w 0) = some c then .exited else .result (.ok 0)
  | exofork =>
    .result (.ok ((k.envs.firstFree?.map fun n => (EnvId.ofParts (k.envs.nextGeneration n) n).toWord).getD 0))
  | ipcRecv => .blocked
  | _ => .result (.ok 0)

end Service

/-- **What a call has to report**, by its number, its arguments and the state before it. -/
def Kernel.verdict (k : Kernel) (c : EnvId) (number : Word) (args : Vector Word 5) : Report :=
  match Service.all.find? fun s => s.number == number.toNat with
  | none => .result (.error .noSys)
  | some s => (s.success k c (argument args)).after (s.checks k c (argument args))

/-! ## Frames that are left -/

theorem Pool.supply_alloc (p : Pool) :
    (p.alloc.1 = .denied ∨ p.alloc.1 = .exhausted) ∧ p.supply = 0 ∨
    (∃ n, p.alloc.1 = .granted n) ∧ p.supply = 1 + p.alloc.2.supply := by
  unfold alloc supply
  cases hb : p.budget with
  | none =>
    cases hf : p.free with
    | nil => simp
    | cons n rest => simp; omega
  | some b =>
    cases b with
    | zero => simp
    | succ b =>
      cases hf : p.free with
      | nil => simp
      | cons n rest => simp; omega

namespace Machine

variable {m m' : Machine} {i : Nat} {f : Frame}

/-- **A pool with a supply hands out a frame**, and has one less then. -/
theorem supply_of_alloc_some (h : m.alloc i = (some f, m')) : m.supply i = 1 + m'.supply i := by
  obtain ⟨-, p, p', hp, ha, rfl⟩ := alloc_some h
  have hs := p.supply_alloc
  rw [ha] at hs
  have hlt := (Array.getElem?_eq_some_iff.1 hp).1
  have hs : p.supply = 1 + p'.supply := by simpa using hs
  rw [supply, supply, hp, Array.getElem?_setIfInBounds, if_pos rfl, if_pos hlt]
  exact hs

theorem supply_of_alloc_none (h : m.alloc i = (none, m')) : m.supply i = 0 := by
  unfold alloc at h
  unfold supply
  cases hp : m.pools[i]? with
  | none => rfl
  | some p =>
    rw [hp] at h
    rcases p.supply_alloc with ⟨-, h0⟩ | ⟨⟨n, hn⟩, -⟩
    · exact h0
    · rcases ha : p.alloc with ⟨g, p'⟩
      rw [ha] at hn
      subst hn
      dsimp only at h
      rw [ha] at h
      cases h

theorem supply_retain (m : Machine) (f : Frame) (i : Nat) : (m.retain f).supply i = m.supply i := by
  simp only [supply, retain, pool_modifyPool, Option.map_map]
  congr 2
  funext p
  by_cases hp : f.pool = i <;> simp [hp, Pool.retain, Pool.supply]

end Machine

namespace Kernel

variable {k k' : Kernel} {e : Env} {f : Frame} {v : VirtAddr} {p : Perm}

/-- **A new environment takes a slot and a frame**, and is refused for the lack of a slot first. -/
theorem createEnv_outcome (k : Kernel) (parent : Option EnvId) :
    (k.envs.firstFree? = none ∧ ∃ k', k.createEnv parent = (.error .noFreeEnv, k')) ∨
    ∃ n, k.envs.firstFree? = some n ∧
      ((k.supply = 0 ∧ ∃ k', k.createEnv parent = (.error .noMemory, k')) ∨
        (1 ≤ k.supply ∧ ∃ k', k.createEnv parent = (.ok (.ofParts (k.envs.nextGeneration n) n), k'))) := by
  unfold createEnv AddressSpace.alloc PageTable.alloc
  cases hn : k.envs.firstFree? with
  | none => exact Or.inl ⟨rfl, _, rfl⟩
  | some n =>
    refine Or.inr ⟨n, rfl, ?_⟩
    dsimp only
    cases ha : k.machine.alloc pool with
    | mk o m =>
      cases o with
      | none => exact Or.inl ⟨Machine.supply_of_alloc_none ha, _, rfl⟩
      | some f =>
        refine Or.inr ⟨?_, _, rfl⟩
        rw [supply, Machine.supply_of_alloc_some ha]
        exact Nat.le_add_right 1 _

/-- A frame is handed out just when there is one left. -/
theorem allocFrame_cases (k : Kernel) :
    (∃ f k', k.allocFrame = (some f, k') ∧ k'.envs = k.envs ∧ k.supply = 1 + k'.supply) ∨
    (∃ k', k.allocFrame = (none, k') ∧ k.supply = 0) := by
  unfold allocFrame
  cases ha : k.machine.alloc pool with
  | mk o m =>
    cases o with
    | none => exact Or.inr ⟨_, rfl, Machine.supply_of_alloc_none ha⟩
    | some f => exact Or.inl ⟨f, _, rfl, rfl, Machine.supply_of_alloc_some ha⟩

theorem room_congr (h : k'.envs = k.envs) (t : EnvId) (a : Nat) : k'.room t a = k.room t a := by
  unfold room
  rw [env?_congr h]

/-- **A mapping is made just when there is a frame for the page-table page that it needs.** -/
theorem mapInto_cases (he : k.env? e.id = some e) (f : Frame) (v : VirtAddr) (p : Perm) :
    (∃ k', k.mapInto e f v p = (.ok (), k') ∧ k.room e.id v.raw ≤ k.supply) ∨
    ∃ k', k.mapInto e f v p = (.error .outOfMemory, k') ∧ k.supply < k.room e.id v.raw := by
  have hdir : v.pageDown.dirIndex = v.dirIndex := (VirtAddr.index_eq_iff.2 v.pageDown_pageDown).1
  have hroom : k.room e.id v.raw = if (e.space.table.dir[v.pageDown.dirIndex]).isSome then 0 else 1 := by
    rw [room, he, Option.any_some, VirtAddr.ofNat?_eq_some_iff.2 rfl, Option.any_some]
    simp only [hdir]
    rfl
  unfold mapInto AddressSpace.map PageTable.insert
  rw [hroom]
  cases hd : e.space.table.dir[v.pageDown.dirIndex] with
  | some page => exact Or.inl ⟨_, rfl, Nat.zero_le _⟩
  | none =>
    dsimp only
    cases ha : (k.machine.retain f).alloc pool with
    | mk o m =>
      cases o with
      | none =>
        have hs := Machine.supply_of_alloc_none ha
        rw [Machine.supply_retain] at hs
        exact Or.inr ⟨_, rfl, by rw [supply, hs]; decide⟩
      | some b =>
        have hs := Machine.supply_of_alloc_some ha
        rw [Machine.supply_retain] at hs
        refine Or.inl ⟨_, rfl, ?_⟩
        rw [supply, hs]
        exact Nat.le_add_right 1 _

end Kernel

/-! ## Making checks -/

namespace Syscall

/-- **A computation makes some checks in their order**: at the first one that fails it fails so, and if all hold it gives
a result that is as `Q` says. -/
inductive Makes {α : Type} (Q : α → Prop) : Except SysError α → List Check → Prop where
  | passed {r : α} (h : Q r) : Makes Q (.ok r) []
  | held {x : Except SysError α} {ch : Check} {rest : List Check} (h : ch.holds = true) (hr : Makes Q x rest) :
      Makes Q x (ch :: rest)
  | failed {err : SysError} {ch : Check} {rest : List Check} (h : ch.holds = false) (hp : Plain err)
      (he : err.errno = ch.errno) : Makes Q (.error err) (ch :: rest)

section makes
variable {α β : Type} {P : α → Prop} {Q : β → Prop} {x : Except SysError α} {f : α → Except SysError β}
  {checks rest : List Check} {success : Report} {y : Except SysError Word}

/-- One computation after the other makes the checks of both. -/
theorem Makes.bind (hx : Makes P x checks) (hf : ∀ r, P r → Makes Q (f r) rest) : Makes Q (x >>= f) (checks ++ rest) := by
  induction hx with
  | passed h => exact hf _ h
  | held h _ ih => exact .held h ih
  | failed h hp he => exact .failed h hp he

theorem Makes.map {g : α → β} (hx : Makes P x checks) (hg : ∀ r, P r → Q (g r)) : Makes Q (x.map g) checks := by
  induction hx with
  | passed h => exact .passed (hg _ h)
  | held h _ ih => exact .held h ih
  | failed h hp he => exact .failed h hp he

theorem report_of_plain {err : SysError} (hp : Plain err) : Report.ofDispatch (.error err) = .result (.error err.errno) := by
  cases err <;> first | rfl | exact absurd rfl hp.1 | exact absurd rfl hp.2

/-- **What is reported of a computation** that makes the checks first: the error of the first that fails, or what is
reported of the rest of it. -/
theorem Makes.report (hx : Makes P x checks) (rest : List Check)
    (hok : ∀ r, x = .ok r → P r → Report.ofDispatch y = success.after rest) (herr : ∀ err, x = .error err → y = .error err) :
    Report.ofDispatch y = success.after (checks ++ rest) := by
  induction hx with
  | passed h => exact hok _ rfl h
  | held h _ ih =>
    rw [List.cons_append, Report.after, if_pos h]
    exact ih hok herr
  | failed h hp he =>
    rw [List.cons_append, Report.after, if_neg (by simp [h]), herr _ rfl, report_of_plain hp, he]

end makes

/-! ## Words that are read -/

theorem makes_decodePage (w : Word) : Makes (fun v => v.raw = w.toNat) (decodePage w) [⟨w.isPage, .inval⟩] := by
  unfold decodePage
  cases hv : VirtAddr.pageOfNat? w.toNat with
  | some v =>
    obtain ⟨hr, ha⟩ := VirtAddr.pageOfNat?_eq_some_iff.1 hv
    have hlt := v.raw_lt
    rw [hr] at hlt
    exact .held (by simp [Word.isPage, hlt, ha]) (.passed hr)
  | none =>
    refine .failed ?_ (by simp [Plain]) rfl
    show w.isPage = false
    rw [Word.isPage, Bool.and_eq_false_iff, decide_eq_false_iff_not, beq_eq_false_iff_ne, ← not_and_or]
    rintro ⟨hlt, ha⟩
    have hpage : VirtAddr.pageOfNat? w.toNat = some ⟨w.toNat, hlt⟩ := VirtAddr.pageOfNat?_eq_some_iff.2 ⟨rfl, ha⟩
    rw [hv] at hpage
    cases hpage

theorem makes_decodeOptionalPage (w : Word) :
    Makes (fun o => o.isSome = w.meansPage ∧ ∀ v, o = some v → v.raw = w.toNat) (decodeOptionalPage w)
      [⟨!w.meansPage || w.isPage, .inval⟩] := by
  unfold decodeOptionalPage
  by_cases hw : userTop ≤ w.toNat
  · have hm : w.meansPage = false := decide_eq_false (Nat.not_lt.2 hw)
    rw [if_pos hw, hm]
    exact .held rfl (.passed ⟨rfl, fun v h => by cases h⟩)
  · have hm : w.meansPage = true := decide_eq_true (Nat.not_le.1 hw)
    rw [if_neg hw, hm]
    exact (makes_decodePage w).map fun v hv => ⟨rfl, fun v' h => by cases h; exact hv⟩

/-- The bits of a word and of a permission are the same, where the word is no wider. -/
theorem settable_of_lt {w : Word} (hw : w.toNat < 0x1000) : Perm.settable ⟨w.toUInt32⟩ = w.isSettable ∧
    Perm.contains ⟨w.toUInt32⟩ .writable = w.asksToWrite := by
  have bits (m : UInt32) : w.toUInt32 &&& m = m ↔ w &&& m.toUInt64 = m.toUInt64 := by
    rw [← UInt32.toNat_inj, ← UInt64.toNat_inj, UInt32.toNat_and, UInt64.toNat_and, UInt64.toNat_toUInt32,
      UInt32.toNat_toUInt64, Nat.mod_eq_of_lt (by omega)]
  have inside (m : UInt32) : m &&& w.toUInt32 = w.toUInt32 ↔ w &&& m.toUInt64 = w := by
    rw [← UInt32.toNat_inj, ← UInt64.toNat_inj, UInt32.toNat_and, UInt64.toNat_and, UInt64.toNat_toUInt32,
      UInt32.toNat_toUInt64, Nat.mod_eq_of_lt (by omega), Nat.and_comm]
  constructor
  · rw [Bool.eq_iff_iff]
    simp only [Perm.settable, Perm.contains, Word.isSettable, Bool.and_eq_true, beq_iff_eq]
    exact and_congr (bits 5) (inside 0xE07)
  · rw [Bool.eq_iff_iff]
    simp only [Perm.contains, Word.asksToWrite, beq_iff_eq]
    exact bits 2

/-- **A permission is settable as a word just when it passes as a permission.** -/
theorem makes_perm {α : Type} {Q : α → Prop} {f : Perm → Except SysError α} {rest : List Check} (w : Word)
    (hf : ∀ p, p.contains .writable = w.asksToWrite → Makes Q (f p) rest) :
    Makes Q (decodePerm w >>= fun p => checkPerm p >>= fun _ => f p) (⟨w.isSettable, .inval⟩ :: rest) := by
  unfold decodePerm Perm.ofWord?
  by_cases hall : w &&& Perm.all.bits.toUInt64 = w
  · have hw : w.toNat < 0x1000 := by
      have h : w.toNat ≤ 0xFFF := by
        rw [← hall, UInt64.toNat_and]
        exact Nat.and_le_right
      omega
    obtain ⟨hset, hwrite⟩ := settable_of_lt hw
    rw [if_pos (beq_iff_eq.2 hall), ← hset]
    show Makes Q (checkPerm ⟨w.toUInt32⟩ >>= fun _ => f _) _
    unfold checkPerm
    cases hs : Perm.settable ⟨w.toUInt32⟩ with
    | true => exact .held rfl (hf _ hwrite)
    | false => exact .failed rfl (by simp [Plain]) rfl
  · rw [if_neg (fun h => hall (beq_iff_eq.1 h))]
    refine .failed (Bool.eq_false_iff.2 fun hs => hall ?_) (by simp [Plain]) rfl
    -- every settable bit has a name
    simp only [Word.isSettable, Bool.and_eq_true, beq_iff_eq] at hs
    calc w &&& Perm.all.bits.toUInt64 = w &&& 0xE07 &&& Perm.all.bits.toUInt64 := by rw [hs.2]
      _ = w &&& (0xE07 &&& Perm.all.bits.toUInt64) := UInt64.and_assoc _ _ _
      _ = w := hs.2

/-! ## Environments that are named -/

section named
variable {k : Kernel} {c : EnvId} {w : Word} {t : Env}

theorem ofWord?_cases (w : Word) :
    (w.toNat < 0x100000000 ∧ decodeEnv w = .ok ⟨w.toUInt32⟩) ∨
    (¬ w.toNat < 0x100000000 ∧ decodeEnv w = .error (.env .badEnv)) := by
  unfold decodeEnv EnvId.ofWord?
  by_cases hw : w.toNat < 0x100000000
  · exact Or.inl ⟨hw, by rw [if_pos hw]⟩
  · exact Or.inr ⟨hw, by rw [if_neg hw]⟩

theorem isSelf_iff (hw : w.toNat < 0x100000000) : EnvId.isSelf ⟨w.toUInt32⟩ ↔ w = 0 := by
  rw [EnvId.isSelf, beq_iff_eq, ← UInt32.toNat_inj, ← UInt64.toNat_inj, UInt64.toNat_toUInt32,
    Nat.mod_eq_of_lt (by omega)]
  rfl

/-- Whom a word names is whom its id means to the caller. -/
theorem named_eq (hc : k.env? c ≠ none) (hw : w.toNat < 0x100000000) :
    k.named c w = (k.env? (EnvId.meant ⟨w.toUInt32⟩ c)).map Env.id := by
  unfold Kernel.named EnvId.meant
  by_cases h0 : w = 0
  · obtain ⟨e, he⟩ := Option.ne_none_iff_exists'.1 hc
    rw [if_pos h0, if_pos ((isSelf_iff hw).2 h0), he, Option.map_some, EnvTable.id_of_get? he]
  · rw [if_neg h0, if_neg (mt (isSelf_iff hw).1 h0)]
    cases he : k.env? ⟨w.toUInt32⟩ with
    | none => simp
    | some e => simp [hw, EnvTable.id_of_get? he]

theorem named_of_wide (hw : ¬ w.toNat < 0x100000000) : k.named c w = none := by
  have h0 : w ≠ 0 := by
    rintro rfl
    exact hw (by decide)
  rw [Kernel.named, if_neg h0, if_neg fun h => hw h.1]

/-- Without permission an id stands for whom it means. -/
theorem resolve_eq_get (T : EnvTable) (i c : EnvId) : T.resolve i (.env c) false = T.get (i.meant c) := by
  unfold EnvTable.resolve EnvId.meant
  cases i.isSelf with
  | true => rfl
  | false =>
    show _ = T.get i
    cases T.get i <;> rfl

/-- **The environment that a word names**, found without permission. -/
theorem resolve_cases (hc : k.env? c ≠ none) (w : Word) :
    (∃ t i, k.env? t.id = some t ∧ k.named c w = some t.id ∧ decodeEnv w = .ok i ∧
      k.envs.resolve i (.env c) false = .ok t) ∨
    (k.named c w = none ∧ (decodeEnv w = .error (.env .badEnv) ∨
      ∃ i, decodeEnv w = .ok i ∧ k.envs.resolve i (.env c) false = .error .badEnv)) := by
  rcases ofWord?_cases w with ⟨hw, hd⟩ | ⟨hw, hd⟩
  · have hn := named_eq hc hw
    cases he : k.env? (EnvId.meant ⟨w.toUInt32⟩ c) with
    | none =>
      rw [he] at hn
      refine Or.inr ⟨hn, Or.inr ⟨_, hd, ?_⟩⟩
      have he : k.envs.get? (EnvId.meant ⟨w.toUInt32⟩ c) = none := he
      rw [resolve_eq_get, EnvTable.get, he]
    | some t =>
      rw [he] at hn
      refine Or.inl ⟨t, _, ?_, hn, hd, ?_⟩
      · rw [EnvTable.id_of_get? he]
        exact he
      · have he : k.envs.get? (EnvId.meant ⟨w.toUInt32⟩ c) = some t := he
        rw [resolve_eq_get, EnvTable.get, he]
  · exact Or.inr ⟨named_of_wide hw, Or.inl hd⟩

/-- Being let through is being in reach. -/
theorem inReach_eq_some_iff (hc : k.env? c ≠ none) (hw : w.toNat < 0x100000000) (i : EnvId) :
    k.inReach c w = some i ↔ ∃ t, k.envs.resolve ⟨w.toUInt32⟩ (.env c) true = .ok t ∧ t.id = i := by
  rw [Kernel.inReach, named_eq hc hw]
  simp only [Kernel.resolve_ok_iff]
  cases he : k.env? (EnvId.meant ⟨w.toUInt32⟩ c) with
  | none => simp
  | some t =>
    have hid := EnvTable.id_of_get? he
    have ht : k.env? t.id = some t := by rw [hid, he]
    have hkin : t.id = c ↔ EnvId.isSelf ⟨w.toUInt32⟩ ∨ ⟨w.toUInt32⟩ = c := by
      rw [hid, EnvId.meant]
      by_cases hs : EnvId.isSelf ⟨w.toUInt32⟩ = true
      · simp [hs]
      · simp [hs]
    rw [Option.map_some, Option.filter_some, ht, Option.bind_some]
    simp only [Bool.or_eq_true, beq_iff_eq, Option.some.injEq, hkin, or_assoc]
    constructor
    · intro h
      split at h
      next hr => exact ⟨t, ⟨rfl, hr⟩, Option.some.inj h⟩
      next => cases h
    · rintro ⟨_, ⟨rfl, hr⟩, rfl⟩
      exact if_pos hr

/-- **The environment that a word names**, if the caller may act on it. -/
theorem makes_authorizeWord (hc : k.env? c ≠ none) (w : Word) :
    Makes (fun t => k.env? t.id = some t ∧ k.inReach c w = some t.id) (authorizeWord k c w)
      [⟨(k.inReach c w).isSome, .badEnv⟩] := by
  unfold authorizeWord
  rcases ofWord?_cases w with ⟨hw, hd⟩ | ⟨hw, hd⟩
  · rw [hd]
    dsimp only
    unfold authorize
    have hin := inReach_eq_some_iff hc hw
    cases hr : k.envs.resolve ⟨w.toUInt32⟩ (.env c) true with
    | ok t =>
      have ht := (hin t.id).2 ⟨t, hr, rfl⟩
      exact .held (by rw [ht]; rfl) (.passed ⟨env?_of_resolve hr, ht⟩)
    | error err =>
      have hnone : k.inReach c w = none := Option.eq_none_iff_forall_ne_some.2 fun i hi => by
        obtain ⟨t, ht, -⟩ := (hin i).1 hi
        rw [hr] at ht
        cases ht
      rw [Kernel.badEnv_of_resolve hr]
      exact .failed (by rw [hnone]; rfl) (by simp [Plain]) rfl
  · rw [hd]
    exact .failed (by rw [Kernel.inReach, named_of_wide hw]; rfl) (by simp [Plain]) rfl

end named

end Syscall
end Exokernel
