import Exokernel.Proofs.Kernel.Accounting
/-!
# Failed calls

A call that fails and returns leaves no trace in the kernel but in the budget and the console, whatever it had done
before it failed.  Of the caller it changes the registers that hold the call and its answer, and where it goes on.
-/
namespace Exokernel

/-- The registers after a call that returned: the call is in place with its answer, and the program goes on after it. -/
def Registers.returned (r : Registers) (number : Word) (args : Vector Word 5) (ret : Word) : Registers :=
  (r.called number args).setA0 ret

theorem Registers.getElem_returned (r : Registers) (number : Word) (args : Vector Word 5) (ret : Word) {i : Nat}
    (h : i < 32) (h17 : i ≠ 17) (hargs : i < 10 ∨ 15 ≤ i) : (r.returned number args ret).x[i] = r.x[i] := by
  have hn : ¬ (10 ≤ i ∧ i - 10 < 5) := by omega
  simp only [returned, setA0, called, Vector.getElem_set]
  rw [if_neg (by omega), getElem_withCall _ _ _ h, if_neg h17, dif_neg hn]

/-- **Every error number is negative as a result.** -/
theorem Errno.signed_toWord_neg (e : Errno) : e.toWord.signed < 0 := by cases e <;> decide

/-- Every error number is read back from its word. -/
theorem Errno.decode_toWord (e : Errno) : Errno.decode e.toWord = .error e := by cases e <;> decide

/-- An id is no error. -/
theorem EnvId.decode_toWord (i : EnvId) : Errno.decode i.toWord = .ok i.toWord := by
  have hr := i.raw.toNat_lt
  have h : i.toWord.toNat = i.raw.toNat := UInt32.toNat_toUInt64 i.raw
  have hn : ¬ i.toWord.signed < 0 := by
    unfold Word.signed
    rw [if_pos (by omega)]
    omega
  rw [Errno.decode, if_neg hn]

theorem SysError.signed_errno_neg (err : SysError) : err.errno.toWord.signed < 0 := err.errno.signed_toWord_neg

namespace Syscall

variable {k k' : Kernel} {c : EnvId} {a : CallArgs} {s : Service} {err : SysError}

theorem Effect.bare_of_error {r : Except SysError Word} (h : Effect k c a s r k') (hr : r = .error err)
    (hp : Plain err) : k'.bare = k.bare := by
  cases h with
  | refused hb => exact hb
  | destroyed ht hd =>
    split at hr
    · cases hr; exact absurd rfl hp.2
    · cases hr
  | waiting ha he => cases hr; exact absurd rfl hp.1
  | named => cases hr
  | allocated => cases hr
  | mapped => cases hr
  | unmapped => cases hr
  | forked => cases hr
  | statusSet => cases hr
  | registersSet => cases hr
  | upcallSet => cases hr
  | passed => cases hr
  | yielded => cases hr
  | sent => cases hr

/-- Only who has begun to wait is blocked. -/
theorem Effect.waits {r : Except SysError Word} (h : Effect k c a s r k') (hr : r = .error .blocked) :
    s = .ipcRecv ∧ ∃ e, k'.env? c = some e ∧ e.mailbox.receiving := by
  cases h with
  | refused hb hp => cases hr; exact absurd rfl hp.1
  | destroyed => split at hr <;> cases hr
  | @waiting e target ha he =>
    have henv := Kernel.env?_modifyEnv (k := k) (i := c)
      (f := fun e => { e with mailbox := e.mailbox.await target, status := .notRunnable }) (fun _ => rfl) c
    rw [he, Option.map_some, if_pos rfl] at henv
    exact ⟨rfl, _, henv, rfl⟩
  | _ => cases hr

/-- Only who has ended itself is told that it is gone. -/
theorem Effect.gone {r : Except SysError Word} (h : Effect k c a s r k') (hr : r = .error .envExit) :
    k'.env? c = none := by
  cases h with
  | refused hb hp => cases hr; exact absurd rfl hp.2
  | @destroyed t k₁ ht hd =>
    split at hr
    next hc => exact (Kernel.env?_destroyEnv hd c).trans (if_pos hc)
    · cases hr
  | _ => cases hr

/-- **A dispatch that fails so that the call returns leaves no trace.** -/
theorem bare_dispatch_error {H : List Frame} (hk : k.Sound H) {n : Nat}
    (h : SyscallTable.standard.dispatch n k c a = (.error err, k')) (hp : Plain err) : k'.bare = k.bare := by
  rcases SyscallTable.dispatch_standard n k c a with hd | ⟨s, -, hd⟩
  · rw [hd] at h
    cases h
    rfl
  · have he := effect k c a hk s
    rw [← hd, h] at he
    exact he.bare_of_error rfl hp

end Syscall

namespace Kernel

variable {k k' : Kernel} {c : EnvId} {e : Env} {err : SysError}

/-- **Failure is atomic.**  A dispatch that fails, and neither blocks nor ends the caller, leaves the kernel as it was
but for the budget and the console.  The call then returns a negative word, and the kernel after it is the kernel before
it, with the call, its answer and the next instruction in the registers of the caller. -/
theorem failed_call_leaves_no_trace (hk : k.Reachable) (hc : k.env? c = some e) :
    (∀ n a err k', SyscallTable.standard.dispatch n k c a = (.error err, k') → err ≠ .blocked → err ≠ .envExit →
      k'.bare = k.bare) ∧
    (∀ number args err k', SyscallTable.standard.dispatch number.toNat (k.setRegisters c (e.regs.called number args)) c
        (argsOf (e.regs.called number args)) = (.error err, k') → err ≠ .blocked → err ≠ .envExit →
      ∃ ret k'', k.ecall c number args = (.returned ret, k'') ∧ ret = err.errno.toWord ∧ ret.signed < 0 ∧
        k''.bare = (k.setRegisters c (e.regs.returned number args ret)).bare ∧
        ∀ i (hi : i < 32), i ≠ 17 → (i < 10 ∨ 15 ≤ i) → (e.regs.returned number args ret).x[i] = e.regs.x[i]) := by
  refine ⟨fun n a err k' h hb hx => Syscall.bare_dispatch_error hk.sound h ⟨hb, hx⟩, ?_⟩
  intro number args err k' h hb hx
  have hbare := Syscall.bare_dispatch_error (hk.sound.setRegisters c _) h ⟨hb, hx⟩
  have hc' : (k'.log (.callFailed c number err)).env? c ≠ none := by
    have he : (k'.log (.callFailed c number err)).env? c = (k.setRegisters c (e.regs.called number args)).env? c :=
      env?_congr (envs_of_bare hbare) c
    rw [he, env?_setRegisters, hc]
    simp
  have hans := answer_of_env? hc' err.errno.toWord
  refine ⟨err.errno.toWord,
    (k'.log (.callFailed c number err)).modifyEnv c fun e => { e with regs := e.regs.setA0 err.errno.toWord },
    ?_, rfl, SysError.signed_errno_neg err, ?_, fun i hi h17 ha => Registers.getElem_returned _ _ _ _ hi h17 ha⟩
  · rw [ecall_eq hc, h, conclude, if_neg hb, if_neg hx, hans]
  · rw [bare_modifyEnv, bare_log, hbare, ← bare_modifyEnv, modifyEnv_setRegisters]
    rfl

/-- A page that finds no frame for its page-table page: its own frame goes back. -/
theorem failed_call_leaves_no_trace_pageAlloc : ∃ k c e k', k.Reachable ∧ k.env? c = some e ∧
    SyscallTable.standard.dispatch 3 k c #v[0, scratchBase.toUInt64, 7, 0, 0, 0] = (.error (.map .outOfMemory), k') ∧
    k'.bare = k.bare := by
  let k := ((ofConfig ⟨4, 1⟩).log (.booted ⟨4, 1⟩)).step (.spawn {})
  have hk : k.Reachable := .step (.boot (c := ⟨4, 1⟩) rfl) _
  obtain ⟨e, he⟩ : ∃ e, k.env? ⟨4096⟩ = some e := Option.isSome_iff_exists.1 (by decide +kernel)
  have hd : (SyscallTable.standard.dispatch 3 k ⟨4096⟩ #v[0, scratchBase.toUInt64, 7, 0, 0, 0]).1 =
      .error (.map .outOfMemory) := by decide +kernel
  rcases hx : SyscallTable.standard.dispatch 3 k ⟨4096⟩ #v[0, scratchBase.toUInt64, 7, 0, 0, 0] with ⟨r, k'⟩
  rw [hx] at hd
  obtain rfl : r = .error (.map .outOfMemory) := hd
  exact ⟨k, ⟨4096⟩, e, k', hk, he, hx, (failed_call_leaves_no_trace hk he).1 _ _ _ _ hx (by decide) (by decide)⟩

end Kernel
end Exokernel
