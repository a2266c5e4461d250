import Exokernel.Proofs.Kernel.Privilege
import Exokernel.Proofs.User.PageCopy
/-!
# The copy-on-write handler

A write to a page that is marked gives the program a page of its own, or ends it.  Which of the two depends on the frames
that are left and on nothing else: the handler fails before it has changed anything or not at all.
-/
namespace Exokernel

/-- The page that the copy-on-write handler copies by way of. -/
def VirtAddr.scratch : VirtAddr := ⟨copyScratch, by decide⟩

theorem VirtAddr.pageOfNat?_scratch : VirtAddr.pageOfNat? copyScratch.toUInt64.toNat = some VirtAddr.scratch := by decide

theorem toNat_pageDown (a : Word) : (pageDown a.toNat).toUInt64.toNat = pageDown a.toNat :=
  UInt64.toNat_ofNat_of_lt (Nat.lt_of_le_of_lt (pageDown_le _) a.toNat_lt)

/-- The page of an address, as the handler names it. -/
theorem VirtAddr.pageOfNat?_pageDown {a : Word} {v : VirtAddr} (h : VirtAddr.ofNat? a.toNat = some v) :
    VirtAddr.pageOfNat? (Exokernel.pageDown a.toNat).toUInt64.toNat = some v.pageDown := by
  rw [toNat_pageDown, pageOfNat?_eq_some_iff, ← VirtAddr.ofNat?_eq_some_iff.1 h]
  exact ⟨rfl, Nat.mul_mod_left _ _⟩

namespace Kernel

variable {k k' k₁ : Kernel} {i j t : EnvId} {sp : Word} {x v : VirtAddr} {old : Pte} {g : Frame}

/-- Whatever a program has mapped, a call could have mapped. -/
theorem Unprivileged.perm (hk : k.Unprivileged) (h : k.mappings i v = some old) : old.perm.Unprivileged := by
  obtain ⟨e, he, hl⟩ := Option.bind_eq_some_iff.1 h
  obtain ⟨page, hp, hm⟩ := PageTable.mem_leaves hl
  exact (hk.of_get? he).mapped old (List.mem_flatMap.2 ⟨page, hp, hm⟩)

/-- Whatever a program has mapped, it may read. -/
theorem Unprivileged.allows_read (hk : k.Unprivileged) (h : k.mappings i v = some old) : old.allows .read :=
  Pte.allows_read_of (hk.perm h).present (hk.perm h).user

theorem entryAt_pageDown (k : Kernel) (i : EnvId) (a : Nat) :
    k.mappings.entryAt i (pageDown a) = k.mappings.entryAt i a := by
  cases he : k.env? i with
  | none => simp only [Mappings.entryAt, funext (mappings_of_env?_none he), Option.bind_fun_none]
  | some e =>
    rw [entryAt_of_env? he, entryAt_of_env? he]
    exact AddressSpace.entryAt_congr (Nat.mul_div_cancel _ (by decide))

/-- The permission of the page of an address. -/
theorem query_pageDown (k : Kernel) (i : EnvId) (a : Word) :
    k.query i (pageDown a.toNat).toUInt64 = (k.mappings.entryAt i a.toNat).map Pte.perm := by
  rw [query_eq, toNat_pageDown, entryAt_pageDown]

/-- A copy that is made after the processor has been given to somebody is made all the same. -/
theorem Copied.of_dispatch (hd : k.dispatch j = .ok k₁) (h : k₁.Copied k' i t x v old g) : k.Copied k' i t x v old g := by
  have hs := SamePages.dispatch hd
  refine ⟨h.sound, (SelfSame.dispatch hd i).trans h.selfSame, fun sp hr => h.runs sp ((Quiet.dispatch hd).runs hr), ?_, ?_,
    h.refs, ?_, ?_, ?_, ?_, ?_, ?_⟩
  · rw [← hs.mappings]
    exact h.fresh
  · rw [← hs.machine]
    exact h.unused
  · rw [← hs.mappings]
    exact h.mappings
  · rw [← hs.machine]
    exact h.copy
  · rw [← hs.machine, ← hs.mappings]
    exact h.page
  · rw [← hs.machine]
    exact h.kept
  · intro f hl
    rw [← hs.machine, ← hs.mappings]
    exact h.holds f ((hs.loose f).2 hl)
  · rw [← hs.machine]
    exact h.capacity

end Kernel

namespace UserProcess

open Kernel

variable {p : UserProcess} {k k' : Kernel} {sp va : Word} {access : Kernel → Access → Served Bytes} {record : FaultRecord}
  {v : VirtAddr} {old : Pte}

theorem dispatch_of_enter (h : p.enter k = (.ok (), k')) : k.dispatch p.env = .ok k' := by
  unfold enter at h
  split at h
  · cases h
  next hd =>
    cases h
    exact hd

/-- Without a frame for its scratch page the handler gives up at once. -/
theorem run_copyPage_of_pageAlloc {err : Errno} {k₁ : Kernel}
    (h : k.call p.env (.pageAlloc .self copyScratch.toUInt64 .userWritable) = (.error err, k₁)) :
    p.run access (Routine.copyPage va) k =
      some (.error (.syscall "page_alloc" err), p.fatal k₁ (.syscall "page_alloc" err)) := by
  unfold Routine.copyPage
  simp only [run]
  rw [h]
  rfl

/-- **What the handler does when it has taken the processor.** -/
theorem run_copyOnWrite_eq (access : Kernel → Access → Served Bytes) (record : FaultRecord) (hk : k.Sound [])
    (hr : k.Runs p.env sp) :
    ∃ k₁, k.dispatch p.env = .ok k₁ ∧ k.Quiet k₁ ∧ k₁.Sound [] ∧
      p.run access (Routine.copyOnWrite record) k = p.run access (Routine.copyIfMarked record
        (pageDown record.address.toNat).toUInt64 ((k.mappings.entryAt p.env record.address.toNat).map Pte.perm)) k₁ := by
  obtain ⟨k₁, he, hq, hk₁⟩ := enter_ok (p := p) hk hr
  refine ⟨k₁, dispatch_of_enter he, hq, hk₁, ?_⟩
  unfold Routine.copyOnWrite
  simp only [run]
  rw [he]
  dsimp only
  simp only [run]
  rw [query_pageDown, hq.mappings]

/-- **A fault that is a write to a marked page is repaired**, if there are frames for the scratch page. -/
theorem run_copyOnWrite_marked (access : Kernel → Access → Served Bytes) (hk : k.Sound []) (hr : k.Runs p.env sp)
    (hv : VirtAddr.ofNat? record.address.toNat = some v) (hq : k.mappings p.env v = some old) (hal : old.allows .read)
    (hw : record.code.contains .write) (hc : old.perm.contains .cow) (hne : v.pageDown ≠ VirtAddr.scratch) :
    (1 + k.room p.env copyScratch ≤ k.supply ∧ ∃ k' g,
      p.run access (Routine.copyOnWrite record) k = some (.ok (), k') ∧ k.Copied k' p.env p.env .scratch v.pageDown old g) ∨
    (k.supply < 1 + k.room p.env copyScratch ∧ ∃ k',
      p.run access (Routine.copyOnWrite record) k = some (.error (.syscall "page_alloc" .noMem), k') ∧
      k.Ends k' p.env ∧ k'.Sound []) := by
  obtain ⟨k₁, hd₁, hq₁, hk₁, hrun⟩ := run_copyOnWrite_eq access record hk hr
  obtain ⟨k₂, he₂, hq₂, hk₂⟩ := enter_ok (p := p) hk₁ (hq₁.runs hr)
  have hd₂ := dispatch_of_enter he₂
  have hentry : k.mappings.entryAt p.env record.address.toNat = some old := by
    rw [Mappings.entryAt, hv, Option.bind_some, hq]
  have hrun₂ : p.run access (Routine.copyOnWrite record) k =
      p.run access (Routine.copyPage (pageDown record.address.toNat).toUInt64) k₂ := by
    rw [hrun, hentry, Routine.copyIfMarked, if_pos (by simp [hw, hc])]
    simp only [run]
    rw [he₂]
  have hinert := (Inert.dispatch hd₁).trans (Inert.dispatch hd₂)
  have hq₂' : k₂.mappings p.env v.pageDown = some old := by
    rw [hinert.mappings, mappings_congr_page (VirtAddr.pageDown_pageDown v), hq]
  rcases copyVia_self_cases VirtAddr.pageOfNat?_scratch hk₂ (hq₂.runs (hq₁.runs hr)) (VirtAddr.pageOfNat?_pageDown hv)
    hq₂' hal (by rwa [VirtAddr.pageDown_pageDown]) with ⟨hroom, k', g, hcopy, hcopied⟩ | ⟨hroom, k', hcall, hquiet, hk'⟩
  all_goals
    rw [hinert.room, hinert.supply] at hroom
    rw [hrun₂]
  · exact Or.inl ⟨hroom, k', g, run_copyPage_of_copyVia hcopy, (hcopied.of_dispatch hd₂).of_dispatch hd₁⟩
  · have hall := (hq₁.trans hq₂).trans hquiet
    obtain ⟨hends, hk₃⟩ := fatal_ends (p := p) hk' (.inr ⟨sp, hall.runs hr⟩) (.syscall "page_alloc" .noMem)
    exact Or.inr ⟨hroom, _, run_copyPage_of_pageAlloc hcall, hall.ends hends, hk₃⟩

/-- **Any other fault is the end of the program.** -/
theorem run_copyOnWrite_unmarked (access : Kernel → Access → Served Bytes) (hk : k.Sound []) (hr : k.Runs p.env sp)
    (hn : ¬ (record.code.contains .write ∧
      ∃ e, k.mappings.entryAt p.env record.address.toNat = some e ∧ e.perm.contains .cow)) :
    ∃ k', p.run access (Routine.copyOnWrite record) k =
        some (.error (.fault record.address record.code record.regs.sepc), k') ∧ k.Ends k' p.env ∧ k'.Sound [] := by
  obtain ⟨k₁, -, hq₁, hk₁, hrun⟩ := run_copyOnWrite_eq access record hk hr
  obtain ⟨hends, hk₂⟩ := fatal_ends (p := p) hk₁ (.inr ⟨sp, hq₁.runs hr⟩)
    (.fault record.address record.code record.regs.sepc)
  refine ⟨_, ?_, hq₁.ends hends, hk₂⟩
  rw [hrun, Routine.copyIfMarked, if_neg]
  · rfl
  · intro hb
    obtain ⟨hw, hany⟩ := Bool.and_eq_true_iff.1 hb
    rw [Option.any_map, Option.any_eq_true] at hany
    exact hn ⟨hw, hany⟩

end UserProcess

namespace Kernel

variable {k k' : Kernel} {i : EnvId} {v : VirtAddr} {old : Pte} {g : Frame}

/-- **A marked page has become the program's own**: `g` is a new frame with the bytes that the page had, and nothing else has
changed but the hold of the frame that was mapped there. -/
structure Repaired (k k' : Kernel) (i : EnvId) (v : VirtAddr) (old : Pte) (g : Frame) : Prop where
  unused : k.machine.refs g = 0
  refs : k'.machine.refs g = 1
  mappings : k'.mappings = k.mappings.put i v (some ⟨g, .userWritable⟩)
  scratch : k'.mappings i .scratch = none
  copy : k'.machine.page g = k.machine.page old.frame
  refs_old : k'.machine.refs old.frame + 1 = k.machine.refs old.frame
  freed (h : k'.machine.refs old.frame = 0) : old.frame ∈ k'.machine.free pool
  refs_other (j : EnvId) (w : VirtAddr) (q : Pte) (h : k.mappings j w = some q) (hne : q.frame ≠ old.frame) :
    k'.machine.refs q.frame = k.machine.refs q.frame
  page (f : Frame) (hf : 0 < k'.machine.refs f) (hne : f ≠ g) : k'.machine.page f = k.machine.page f

/-- **A frame that nobody holds any more is free again.** -/
theorem Sound.mem_free_of_refs (hk : k.Sound []) (hk' : k'.Sound [])
    (hcap : k'.machine.capacity pool = k.machine.capacity pool) {f : Frame} (hf : 0 < k.machine.refs f)
    (h : k'.machine.refs f = 0) : f ∈ k'.machine.free pool := by
  obtain ⟨n, m⟩ := f
  have hf₀ := hf
  unfold Machine.refs at hf
  cases hp : k.machine.pools[n]? with
  | none =>
    rw [hp] at hf
    cases hf
  | some p =>
    have hn := (Array.getElem?_eq_some_iff.1 hp).1
    rw [hk.balanced.tidy.size] at hn
    obtain rfl : n = pool := Nat.lt_one_iff.1 hn
    rw [hp] at hf
    have hm : m < k.machine.capacity pool := by
      rw [Machine.capacity, hp]
      exact Pool.lt_capacity_of_refs_pos hf
    rw [← hcap] at hm
    exact (hk'.accounted.mem_free m).2 ⟨hm, h⟩

/-- A copy to where the page was, by way of a scratch page that is in no other use. -/
theorem Copied.repaired (hk : k.Sound []) (h : k.Copied k' i i .scratch v.pageDown old g) (hv : k.mappings i v = some old)
    (hs : k.mappings i .scratch = none) : k.Repaired k' i v old g := by
  have hne : ¬ (i = i ∧ v.pageDown.pageDown = VirtAddr.scratch.pageDown) := by
    rintro ⟨-, hp⟩
    rw [← mappings_congr_page (VirtAddr.pageDown_pageDown v), mappings_congr_page hp, hs] at hv
    cases hv
  have hput : k.mappings.put i .scratch none = k.mappings := Mappings.put_eq_self hs mappings_congr_page
  have hv' : k.mappings i v.pageDown = some old := by rw [mappings_congr_page (VirtAddr.pageDown_pageDown v), hv]
  have hholds {j : EnvId} {w : VirtAddr} {q : Pte} (hq : k.mappings j w = some q) :
      k'.machine.refs q.frame + holdsOf (some old) q.frame = k.machine.refs q.frame := by
    have hpos := hk.refs_pos_of_mappings hq
    have := (h.holds q.frame (hk.loose_of_mappings hq) (by rwa [hs, holdsOf_none])).1
    rwa [hs, hv', holdsOf_none, Nat.add_zero] at this
  have hold := hholds hv
  rw [holdsOf_self] at hold
  refine ⟨h.unused, h.refs, ?_, ?_, h.copy, hold, fun hz => ?_, fun j w q hq hne => ?_, fun f hf hfg => h.page f hf hfg ?_⟩
  · rw [h.mappings, hput]
    funext j w
    simp only [Mappings.put, VirtAddr.pageDown_pageDown]
  · rw [h.mappings, hput, Mappings.put_of_ne hne, hs]
  · exact hk.mem_free_of_refs h.sound h.capacity (hk.refs_pos_of_mappings hv) hz
  · have := hholds hq
    rwa [holdsOf_some, if_neg (Ne.symm hne), Nat.add_zero] at this
  · rw [hs, holdsOf_none]
    exact (Nat.eq_zero_or_pos _)

end Kernel

namespace UserProcess

open Kernel

variable {p : UserProcess} {k : Kernel} {sp : Word}

/-- **The handler makes one page the program's own or is the end of the program**, in any state that a kernel can come to,
if the scratch page is not in use.  A write to a marked page is repaired exactly when there is a frame for the copy, and one
more if the scratch page has no page-table page; otherwise the program ends because there was none.  For any other fault the
program ends with what the record says. -/
theorem copyOnWrite_repairs_or_ends (hk : k.Reachable) (hr : k.Runs p.env sp) (hs : k.mappings p.env .scratch = none)
    (access : Kernel → Access → Served Bytes) (record : FaultRecord) :
    (∀ v old, record.code.contains .write → VirtAddr.ofNat? record.address.toNat = some v →
      k.mappings p.env v = some old → old.perm.contains .cow →
      (1 + k.room p.env copyScratch ≤ k.supply → ∃ k' g,
        p.run access (Routine.copyOnWrite record) k = some (.ok (), k') ∧ k.Repaired k' p.env v old g) ∧
      (k.supply < 1 + k.room p.env copyScratch → ∃ k',
        p.run access (Routine.copyOnWrite record) k = some (.error (.syscall "page_alloc" .noMem), k') ∧
        k.Ends k' p.env)) ∧
    (¬ (record.code.contains .write ∧
        ∃ old, k.mappings.entryAt p.env record.address.toNat = some old ∧ old.perm.contains .cow) → ∃ k',
      p.run access (Routine.copyOnWrite record) k =
        some (.error (.fault record.address record.code record.regs.sepc), k') ∧ k.Ends k' p.env) := by
  refine ⟨fun v old hw hv hq hc => ?_, fun hn => ?_⟩
  · have hne : v.pageDown ≠ .scratch := by
      rintro hp
      rw [← mappings_congr_page (VirtAddr.pageDown_pageDown v), hp, hs] at hq
      cases hq
    rcases run_copyOnWrite_marked access hk.sound hr hv hq (hk.unprivileged.allows_read hq) hw hc hne with
      ⟨hroom, k', g, hrun, hcopied⟩ | ⟨hroom, k', hrun, hends, -⟩
    · exact ⟨fun _ => ⟨k', g, hrun, hcopied.repaired hk.sound hq hs⟩, fun hlt => absurd hlt (by omega)⟩
    · exact ⟨fun hle => absurd hle (by omega), fun _ => ⟨k', hrun, hends⟩⟩
  · obtain ⟨k', hrun, hends, -⟩ := run_copyOnWrite_unmarked access hk.sound hr hn
    exact ⟨k', hrun, hends⟩

/-- A program with its data at two addresses, marked at both. -/
def markedProgram : Kernel := dataProgram.run [
  .perform ⟨4096⟩ (.ecall 4 #v[0, textBase.toUInt64, 0, 0x10000000, Perm.userCow.toWord]),
  .perform ⟨4096⟩ (.ecall 4 #v[0, textBase.toUInt64, 0, textBase.toUInt64, Perm.userCow.toWord])]

theorem reachable_markedProgram : markedProgram.Reachable := .run reachable_dataProgram _

/-- A write to data that is marked at two addresses is repaired.  With one frame left, where two are needed, it is the end, and
so is a write to the second page of the program, which is not there. -/
theorem copyOnWrite_repairs_shared : ∃ (k k₁ k₁' k₂' k₃' : Kernel) (p : UserProcess) (sp : Word) (record other : FaultRecord)
    (v : VirtAddr) (old : Pte) (g : Frame), k.Reachable ∧ k.Runs p.env sp ∧ k.mappings p.env .scratch = none ∧
    k₁.Reachable ∧ k₁.Runs p.env sp ∧ k₁.mappings p.env .scratch = none ∧ k.machine.refs old.frame = 2 ∧
    p.run (fun _ _ => none) (Routine.copyOnWrite record) k = some (.ok (), k₁') ∧ k.Repaired k₁' p.env v old g ∧
    p.run (fun _ _ => none) (Routine.copyOnWrite record) k₁ = some (.error (.syscall "page_alloc" .noMem), k₂') ∧
    k₁.Ends k₂' p.env ∧
    p.run (fun _ _ => none) (Routine.copyOnWrite other) k =
      some (.error (.fault other.address other.code other.regs.sepc), k₃') ∧ k.Ends k₃' p.env := by
  let p : UserProcess := .ofEnv ⟨4096⟩ (textBase + pageSize).toUInt64
  let record : FaultRecord := ⟨textBase.toUInt64, .write, .zero⟩
  let other : FaultRecord := ⟨(textBase + pageSize).toUInt64, .write, .zero⟩
  let v : VirtAddr := ⟨textBase, by decide⟩
  let old : Pte := ⟨⟨0, 1⟩, .userCow⟩
  have hlive : (markedProgram.env? p.env).map (fun e => (e.status.isRunnable, e.regs.sp)) = some (true, userTop.toUInt64) := by
    decide +kernel
  obtain ⟨e, he, hst⟩ := Option.map_eq_some_iff.1 hlive
  have hr : markedProgram.Runs p.env userTop.toUInt64 := ⟨e, he, (Prod.mk.inj hst).1, (Prod.mk.inj hst).2⟩
  have hv : VirtAddr.ofNat? record.address.toNat = some v := by decide
  have hq : markedProgram.mappings p.env v = some old := by decide +kernel
  have hs : markedProgram.mappings p.env .scratch = none := by decide +kernel
  have h := copyOnWrite_repairs_or_ends reachable_markedProgram hr hs (fun _ _ => none)
  obtain ⟨k₁', g, hrun₁, hrep⟩ := ((h record).1 v old (by decide) hv hq (by decide)).1 (by decide +kernel)
  obtain ⟨k₃', hrun₃, hends₃⟩ := (h other).2 (by
    rintro ⟨-, q, hq, -⟩
    rw [show markedProgram.mappings.entryAt p.env other.address.toNat = none by decide +kernel] at hq
    cases hq)
  -- the same state but for the frames that are left
  let k₁ := markedProgram.step (.failAfter 1)
  have hk₁ : k₁.Reachable := .step reachable_markedProgram _
  have hr₁ : k₁.Runs p.env userTop.toUInt64 := hr
  have hs₁ : k₁.mappings p.env .scratch = none := hs
  obtain ⟨k₂', hrun₂, hends₂⟩ := ((copyOnWrite_repairs_or_ends hk₁ hr₁ hs₁ (fun _ _ => none) record).1 v old (by decide)
    hv hq (by decide)).2 (by decide +kernel)
  exact ⟨markedProgram, k₁, k₁', k₂', k₃', p, _, record, other, v, old, g, reachable_markedProgram, hr, hs, hk₁, hr₁, hs₁,
    by decide +kernel, hrun₁, hrep, hrun₂, hends₂, hrun₃, hends₃⟩

end UserProcess
end Exokernel
