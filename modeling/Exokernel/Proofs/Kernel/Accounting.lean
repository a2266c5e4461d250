import Mathlib.Algebra.GroupWithZero.Nat
import Mathlib.Data.List.Dedup
import Exokernel.Proofs.Kernel.Program
import Exokernel.Proofs.Syscall.Ecall
/-!
# Frame accounting

Every event keeps a kernel sound (`Sound.step`), so every state that a kernel can come to is (`Reachable.sound`), and so
its counts, its free list and the number of its frames in use are exactly what the live environments account for.
-/
namespace Exokernel.Kernel

variable {k k' : Kernel} {i : EnvId} {e : Env} {H : List Frame}

/-! ## Calls -/

namespace Sound

theorem wake (hk : k.Sound H) (t c : EnvId) (value : UInt32) (p : Perm) : (k.wake t c value p).Sound H :=
  (hk.modifyEnv (f := fun e =>
    { e with mailbox := e.mailbox.deliver c value p, regs := e.regs.setA0 0, status := .runnable })
    (fun _ => rfl) t).withScheduler _

/-- **Every call of a service keeps a kernel sound.** -/
theorem effect (hk : k.Sound []) {c : EnvId} {a : CallArgs} {s : Service} {r : Except SysError Word}
    (h : Syscall.Effect k c a s r k') : k'.Sound [] := by
  cases h with
  | refused hb => exact hk.of_bare hb
  | named => exact hk
  | @destroyed t k₁ ht hd =>
    have h := hk.destroyEnv t.id
    rw [hd] at h
    exact h.log _
  | allocated ha hf hm =>
    have ht := (Syscall.authorizeWord_ok (Syscall.pageAllocArgs_ok ha).2.2).1
    refine releaseFrame ((hk.allocFrame hf).mapInto ?_ (List.mem_append_right _ List.mem_cons_self) hm)
    rw [env?_allocFrame hf]
    exact ht
  | mapped ha hm =>
    obtain ⟨sv, src, si, di, -, -, -, -, -, hsrc, hdst, hl, -⟩ := Syscall.pageMapArgs_ok ha
    have hf := EnvTable.mem_leafFrames (Syscall.authorize_ok hsrc).1 hl
    exact hk.mapInto (Syscall.authorize_ok hdst).1 (List.mem_append_left _ hf) hm
  | unmapped ha => exact hk.unmapFrom (Syscall.authorizeWord_ok (Syscall.pageUnmapArgs_ok ha).2).1 _
  | forked hp hc => exact ((hk.createEnv hc).setRegisters _ _).log _
  | statusSet ha => exact (hk.setStatus _ _).withScheduler _
  | registersSet ha => exact hk.setRegisters _ _
  | upcallSet ha => exact hk.modifyEnv (f := fun e => { e with upcall := some (a.word 1) }) (fun _ => rfl) _
  | passed he hq => exact (hk.setStatus _ _).withScheduler _
  | yielded he hq => exact ((hk.setStatus _ _).withScheduler _).setStatus _ _
  | sent ha hs ht =>
    obtain ⟨hr, -, ho⟩ := Syscall.checkSend_ok hs
    refine (wake ?_ _ _ _ _).log _
    rcases Syscall.transfer_ok ht with ⟨rfl, -, -⟩ | ⟨f, v, rfl, -, hm⟩
    · exact hk
    · obtain ⟨e, sv, pte, he, -, hl, -, rfl⟩ := Syscall.offer_some ho
      exact hk.mapInto hr (List.mem_append_left _ (EnvTable.mem_leafFrames he hl)) hm
  | waiting ha he =>
    exact (hk.modifyEnv (f := fun e => { e with mailbox := e.mailbox.await _, status := .notRunnable })
      (fun _ => rfl) _).withScheduler _

theorem dispatch_standard (hk : k.Sound []) (n : Nat) (c : EnvId) (a : CallArgs) :
    (SyscallTable.standard.dispatch n k c a).2.Sound [] := by
  rcases SyscallTable.dispatch_standard n k c a with h | ⟨s, -, h⟩
  · rw [h]; exact hk
  · rw [h]; exact hk.effect (Syscall.effect k c a hk s)

theorem conclude {r : Except SysError Word × Kernel} (hk : r.2.Sound H) (c : EnvId) (number : Word) :
    (Kernel.conclude c number r).2.Sound H :=
  conclude_induction (Q := fun k => k.Sound H) c number hk (fun _ l hk => hk.log l) fun _ ret hk =>
    hk.modifyEnv (f := fun e => { e with regs := e.regs.setA0 ret }) (fun _ => rfl) c

theorem ecall (hk : k.Sound []) (c : EnvId) (number : Word) (args : Vector Word 5) :
    (k.ecall c number args).2.Sound [] := by
  cases he : k.env? c with
  | none => rw [Kernel.ecall, he]; exact hk
  | some e =>
    rw [ecall_eq he]
    exact ((hk.setRegisters _ _).dispatch_standard _ _ _).conclude c number

/-! ## Faults and programs -/

theorem kill (hk : k.Sound []) (i : EnvId) : (k.kill i).Sound [] := by
  have hd := hk.destroyEnv i
  unfold Kernel.kill
  split
  next h => rw [h] at hd; exact hd.log _
  next h => rw [h] at hd; exact hd

theorem deliverFault (hk : k.Sound []) (i : EnvId) (f : PageFault) : (k.deliverFault i f).2.Sound [] := by
  unfold Kernel.deliverFault
  split
  · exact hk
  next e he =>
    split
    · exact (hk.log _).kill i
    · split
      · exact (hk.log _).kill i
      · dsimp only
        split
        · exact (hk.log _).kill i
        next m hw => exact ((hk.write he hw).setRegisters _ _).log _

theorem raise (hk : k.Sound []) (i : EnvId) (f : PageFault) : (k.raise i f).2.Sound [] := (hk.log _).deliverFault i f

/-- **Whatever a program does keeps a kernel sound.** -/
theorem perform (hk : k.Sound []) (i : EnvId) (op : CpuOp) : (k.perform i op).Sound [] :=
  perform_induction (Q := fun k => k.Sound []) k i op hk (fun _ f _ => hk.raise i f) (fun _ _ _ _ he hw => hk.write he hw)
    (fun r _ => hk.setRegisters i r.forUser) fun number args _ => hk.ecall i number args

/-! ## The processor -/

theorem preempt (hk : k.Sound H) : k.preempt.Sound H := by
  unfold Kernel.preempt
  split
  · exact hk
  · refine (hk.modifyEnv (f := fun e => if e.status = .running then { e with status := .runnable } else e)
      (fun e => ?_) _).withScheduler _
    split <;> rfl

theorem scheduleNext (hk : k.Sound H) : k.scheduleNext.2.Sound H := by
  unfold Kernel.scheduleNext
  dsimp only
  split
  · exact hk.preempt.withScheduler _
  · exact (hk.preempt.withScheduler _).setStatus _ _

theorem dispatch (hk : k.Sound H) (h : k.dispatch i = .ok k') : k'.Sound H := by
  obtain ⟨-, -, -, ⟨-, rfl⟩ | ⟨-, rfl⟩⟩ := dispatch_ok h
  · exact hk.setStatus _ _
  · exact (hk.preempt.withScheduler _).setStatus _ _

/-! ## Runs -/

/-- **Every event keeps a kernel sound.** -/
theorem step (hk : k.Sound []) (event : Event) : (k.step event).Sound [] := by
  cases event with
  | spawn img => exact hk.spawn (Prod.eta (k.spawn img)).symm
  | destroyEnv i => exact hk.destroyEnv i
  | scheduleNext => exact hk.scheduleNext
  | dispatch i =>
    unfold Kernel.step
    dsimp only
    split
    · exact hk
    next h => exact hk.dispatch h
  | perform i op => exact hk.perform i op
  | failAfter n => exact hk.of_bare (bare_failAfter k n)
  | clearFailure => exact hk.of_bare (bare_clearFailure k)

end Sound

theorem toList_ofCapacity (n : Nat) : (EnvTable.ofCapacity n).toList = [] := by
  simp [EnvTable.ofCapacity, EnvTable.toList]

/-- A kernel that has just started has no environments, and nobody to schedule. -/
theorem boot_empty {c : Config} (h : boot c = .ok k) : k.scheduler = {} ∧ ∀ i, k.env? i = none := by
  unfold boot at h
  split at h
  · cases h
  · cases h
    refine ⟨rfl, fun i => ?_⟩
    show (EnvTable.ofCapacity c.maxEnvs).get? i = none
    rcases hn : (EnvTable.ofCapacity c.maxEnvs).get? i with _ | e
    · rfl
    · have := EnvTable.mem_toList hn
      rw [toList_ofCapacity] at this
      cases this

/-- **A kernel that has just started is sound**: all frames are free. -/
theorem sound_of_boot {c : Config} (h : boot c = .ok k) : k.Sound [] := by
  unfold boot at h
  split at h
  · cases h
  next hv =>
    cases h
    have hmax : c.maxEnvs ≤ maxEnvSlots := by
      unfold Config.validate at hv
      split at hv
      · cases hv
      · split at hv
        · cases hv
        · split at hv
          · cases hv
          · omega
    refine Sound.log ⟨?_, by simpa [ofConfig, EnvTable.ofCapacity, EnvTable.capacity] using hmax⟩ _
    show Machine.Balanced (.ofSizes [c.frames]) (EnvTable.pagingFrames (.ofCapacity c.maxEnvs))
      (EnvTable.leafFrames (.ofCapacity c.maxEnvs) ++ [])
    rw [EnvTable.pagingFrames, EnvTable.leafFrames, toList_ofCapacity]
    exact Machine.balanced_ofSizes c.frames

/-- **Every state that a kernel can come to is sound.** -/
theorem Reachable.sound (h : k.Reachable) : k.Sound [] := by
  induction h with
  | boot h => exact sound_of_boot h
  | step _ event ih => exact ih.step event

/-! ## The accounts -/

/-- The number of frames that are not free. -/
def usedFrames (k : Kernel) : Nat := (k.machine.pools[pool]?.map Pool.usedCount).getD 0

/-- **What the live environments account for.** -/
structure Accounted (k : Kernel) : Prop where
  /-- A frame is held by each entry that maps it, by the directory it is, and by the page-table page it is. -/
  refs_eq (f : Frame) : k.machine.refs f = k.envs.leafFrames.count f +
    (if ∃ e ∈ k.envs.toList, e.space.table.root = f then 1 else 0) +
    (if ∃ e ∈ k.envs.toList, ∃ page ∈ e.space.table.tables, page.backing = f then 1 else 0)
  /-- Directories and page-table pages have frames of their own. -/
  paging_nodup : (k.envs.toList.flatMap fun e => e.space.table.root :: e.space.table.tables.map TablePage.backing).Nodup
  /-- No entry maps a frame that a directory or a page-table page takes. -/
  paging_apart (e : Env) (he : e ∈ k.envs.toList) (f : Frame)
    (hf : f = e.space.table.root ∨ ∃ page ∈ e.space.table.tables, f = page.backing) : f ∉ k.envs.leafFrames
  free_nodup : (k.machine.free pool).Nodup
  mem_free (n : Nat) : ⟨pool, n⟩ ∈ k.machine.free pool ↔ n < k.machine.capacity pool ∧ k.machine.refs ⟨pool, n⟩ = 0
  used_eq : k.usedFrames = (k.envs.toList.map fun e => 1 + e.space.tablePages).sum + k.envs.leafFrames.dedup.length
  used_eq_zero (h : k.envs.toList = []) : k.usedFrames = 0

theorem perm_flatMap_cons {α β : Type} (f : α → β) (g : α → List β) (l : List α) :
    (l.flatMap fun x => f x :: g x).Perm (l.map f ++ l.flatMap g) := by
  induction l with
  | nil => exact List.Perm.refl _
  | cons x l ih =>
    simp only [List.flatMap_cons, List.map_cons, List.cons_append]
    refine List.Perm.cons _ ?_
    exact (List.Perm.append_left _ ih).trans (List.perm_append_comm_assoc _ _ _)

theorem length_pagingFrames (t : EnvTable) :
    t.pagingFrames.length = (t.toList.map fun e => 1 + e.space.tablePages).sum := by
  rw [EnvTable.pagingFrames, List.length_flatMap]
  congr 1
  refine List.map_congr_left fun e _ => ?_
  rw [PageTable.pagingFrames, List.length_cons, List.length_map]
  exact Nat.add_comm _ _

/-- The directories come first, then the page-table pages. -/
theorem count_pagingFrames {t : EnvTable} (h : t.pagingFrames.Nodup) (f : Frame) : t.pagingFrames.count f =
    (if ∃ e ∈ t.toList, e.space.table.root = f then 1 else 0) +
    (if ∃ e ∈ t.toList, ∃ page ∈ e.space.table.tables, page.backing = f then 1 else 0) := by
  have hp := perm_flatMap_cons (fun e : Env => e.space.table.root)
    (fun e => e.space.table.tables.map TablePage.backing) t.toList
  obtain ⟨h₁, h₂, -⟩ := List.nodup_append.1 (hp.nodup_iff.1 h)
  rw [EnvTable.pagingFrames]
  refine (hp.count_eq f).trans ?_
  rw [List.count_append, h₁.count, h₂.count]
  simp only [List.mem_map, List.mem_flatMap]

theorem Sound.accounted (hk : k.Sound []) : k.Accounted := by
  have hb := hk.balanced
  rw [List.append_nil] at hb
  obtain ⟨hn, hm, hu⟩ := hb.used
  have hused : k.usedFrames = (k.envs.toList.map fun e => 1 + e.space.tablePages).sum + k.envs.leafFrames.dedup.length := by
    rw [← length_pagingFrames]
    exact hu
  refine ⟨fun f => ?_, hb.nodup, fun e he f hf => hb.apart f ?_, hn, hm, hused, fun h => ?_⟩
  · rw [hb.refs_eq, count_pagingFrames hb.nodup]
    omega
  · refine List.mem_flatMap.2 ⟨e, he, ?_⟩
    rcases hf with rfl | ⟨page, hp, rfl⟩
    · exact List.mem_cons_self
    · exact List.mem_cons_of_mem _ (List.mem_map_of_mem hp)
  · rw [hused, EnvTable.leafFrames, h]
    rfl

/-- **Frame accounting is exact in every state that a kernel can come to.** -/
theorem frames_accounted (h : k.Reachable) : k.Accounted := h.sound.accounted

/-- A program with one page of zeros takes five frames: a directory, two page-table pages, that page and its stack.
Mapping the page once more takes none, and counts its frame twice.  All five are free again when the program has ended. -/
theorem frames_accounted_shared : ∃ k k₁ k₂ : Kernel, boot ⟨8, 2⟩ = .ok k ∧
    k₁ = (k.step (.spawn { bss := 1 })).step (.perform ⟨4096⟩ (.ecall 4 #v[0, 0x800000, 0, 0x802000, 7])) ∧
    k₁.Accounted ∧ k₁.envs.toList.length = 1 ∧ k₁.usedFrames = 5 ∧
    k₁.envs.leafFrames.length = 3 ∧ k₁.envs.leafFrames.dedup.length = 2 ∧ (∃ f, k₁.machine.refs f = 2) ∧
    k₂ = k₁.step (.perform ⟨4096⟩ (.ecall 2 #v[0, 0, 0, 0, 0])) ∧
    k₂.Accounted ∧ k₂.envs.toList.length = 0 ∧ k₂.usedFrames = 0 := by
  let k := (ofConfig ⟨8, 2⟩).log (.booted ⟨8, 2⟩)
  let k₁ := (k.step (.spawn { bss := 1 })).step (.perform ⟨4096⟩ (.ecall 4 #v[0, 0x800000, 0, 0x802000, 7]))
  let k₂ := k₁.step (.perform ⟨4096⟩ (.ecall 2 #v[0, 0, 0, 0, 0]))
  have hk₁ : k₁.Reachable := .step (.step (.boot (c := ⟨8, 2⟩) rfl) _) _
  have hk₂ : k₂.Reachable := hk₁.step _
  exact ⟨k, k₁, k₂, rfl, rfl, frames_accounted hk₁, by decide +kernel, by decide +kernel, by decide +kernel,
    by decide +kernel, ⟨⟨pool, 1⟩, by decide +kernel⟩, rfl, frames_accounted hk₂, by decide +kernel, by decide +kernel⟩

end Exokernel.Kernel
