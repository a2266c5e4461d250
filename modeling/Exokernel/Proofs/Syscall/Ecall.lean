import Exokernel.Proofs.Syscall.Effect
/-!
# From the call to its answer

A call puts its number and its arguments into the registers of the caller, is dispatched, and ends: with a word in the
caller's `a0`, with the caller blocked, or with the caller gone.
-/
namespace Exokernel

/-- The registers with which a call enters the kernel: the program will go on after the call. -/
def Registers.called (r : Registers) (number : Word) (args : Vector Word 5) : Registers :=
  { r.withCall number args with sepc := r.sepc + 4 }

theorem Registers.sepc_withCall (r : Registers) (number : Word) (args : Vector Word 5) :
    (r.withCall number args).sepc = r.sepc := by simp only [withCall]

theorem Registers.getElem_withCall (r : Registers) (number : Word) (args : Vector Word 5) {i : Nat} (h : i < 32) :
    (r.withCall number args).x[i] =
      if i = 17 then number else if h : 10 ≤ i ∧ i - 10 < 5 then args[i - 10] else r.x[i] := by
  simp only [withCall, Vector.getElem_ofFn]
  rfl

theorem CallArgs.word_eq_getElem (a : CallArgs) {i : Nat} (h : i < 6) : a.word i = a[i] := by
  rw [word, ← Array.getElem_eq_getD (h := by simpa using h), Vector.getElem_toArray]

theorem Kernel.word_argsOf_called (r : Registers) (number : Word) (args : Vector Word 5) {i : Nat} (h : i < 5) :
    (argsOf (r.called number args)).word i = args[i] := by
  have h₂ : 10 ≤ 10 + i ∧ 10 + i - 10 < 5 := by omega
  rw [CallArgs.word_eq_getElem _ (by omega)]
  simp only [argsOf, Vector.getElem_ofFn]
  show (r.withCall number args).x[10 + i] = _
  rw [Registers.getElem_withCall _ _ _ (by omega), if_neg (by omega), dif_pos h₂]
  simp only [Nat.add_sub_cancel_left]

/-- A word of the arguments of a call. -/
def argument (args : Vector Word 5) (n : Nat) : Word := args.toArray.getD n 0

theorem argument_eq_getElem {args : Vector Word 5} {n : Nat} (h : n < 5) : argument args n = args[n] := by
  rw [argument, ← Array.getElem_eq_getD (h := by simpa using h), Vector.getElem_toArray]

theorem EnvTable.modify_modify (t : EnvTable) (i : EnvId) {f g : Env → Env} (hf : ∀ e, (f e).id = e.id) :
    (t.modify i f).modify i g = t.modify i fun e => g (f e) := by
  unfold modify
  congr 1
  apply Array.ext_getElem?
  intro j
  simp only [Array.getElem?_modify]
  split
  · rw [Option.map_map]
    congr 1
    funext s
    simp only [Function.comp_apply, Option.map_map]
    congr 2
    funext e
    by_cases h : e.id = i <;> simp [h, hf]
  · rfl

namespace Kernel

variable {k k' : Kernel} {c : EnvId} {e : Env} {H : List Frame}

theorem modifyEnv_modifyEnv (k : Kernel) (c : EnvId) {f g : Env → Env} (hf : ∀ e, (f e).id = e.id) :
    (k.modifyEnv c f).modifyEnv c g = k.modifyEnv c fun e => g (f e) := by
  rw [modifyEnv, modifyEnv, modifyEnv, EnvTable.modify_modify _ _ hf]

theorem modifyEnv_setRegisters (k : Kernel) (c : EnvId) (r : Registers) (f : Env → Env) :
    (k.setRegisters c r).modifyEnv c f = k.modifyEnv c fun e => f { e with regs := r } :=
  modifyEnv_modifyEnv k c (f := fun e => { e with regs := r }) fun _ => rfl

theorem setRegisters_setRegisters (k : Kernel) (c : EnvId) (r r' : Registers) :
    (k.setRegisters c r).setRegisters c r' = k.setRegisters c r' :=
  modifyEnv_setRegisters k c r _

theorem env?_setRegisters (k : Kernel) (c j : EnvId) (r : Registers) :
    (k.setRegisters c r).env? j = (k.env? j).map fun e => if c = j then { e with regs := r } else e :=
  env?_modifyEnv (f := fun e => { e with regs := r }) (fun _ => rfl) j

theorem env?_setRegisters_of_ne (k : Kernel) (r : Registers) {j : EnvId} (h : c ≠ j) :
    (k.setRegisters c r).env? j = k.env? j :=
  env?_modifyEnv_of_ne (f := fun e => { e with regs := r }) (fun _ => rfl) h

/-- **What is found after a fork**: the child with the registers that it is given, and every other as before. -/
theorem env?_forked (hk : k.Sound H) {parent : Option EnvId} (h : k.createEnv parent = (.ok c, k')) (r : Registers) :
    k.env? c = none ∧ ∃ f, ∀ j, (k'.setRegisters c r).env? j =
      if c = j then some { Env.fresh c parent ⟨.empty f⟩ with regs := r } else k.env? j := by
  obtain ⟨hnone, f, henv⟩ := env?_createEnv hk h
  refine ⟨hnone, f, fun j => ?_⟩
  by_cases hj : c = j
  · rw [env?_setRegisters, henv, if_pos hj, if_pos hj, Option.map_some, if_pos hj]
  · rw [env?_setRegisters_of_ne _ _ hj, henv, if_neg hj, if_neg hj]

/-- A word comes back, if the caller is still there. -/
def answer (k : Kernel) (c : EnvId) (ret : Word) : Ecall × Kernel :=
  match k.env? c with
  | none => (.exited, k)
  | some _ => (.returned ret, k.modifyEnv c fun e => { e with regs := e.regs.setA0 ret })

theorem answer_of_env? (h : k.env? c ≠ none) (ret : Word) :
    k.answer c ret = (.returned ret, k.modifyEnv c fun e => { e with regs := e.regs.setA0 ret }) := by
  unfold answer
  split
  next hn => exact absurd hn h
  · rfl

/-- How a call ends that was dispatched. -/
def conclude (c : EnvId) (number : Word) : Except SysError Word × Kernel → Ecall × Kernel
  | (.ok ret, k) => k.answer c ret
  | (.error err, k) =>
    if err = .blocked then (.blocked, k)
    else if err = .envExit then (.exited, k)
    else (k.log (.callFailed c number err)).answer c err.errno.toWord

/-- **What the end of a call keeps**: all that a line on the console and a result in the registers of the caller keep. -/
theorem conclude_induction {Q : Kernel → Prop} (c : EnvId) (number : Word) {r : Except SysError Word × Kernel} (h : Q r.2)
    (hl : ∀ k l, Q k → Q (k.log l)) (ha : ∀ k ret, Q k → Q (k.modifyEnv c fun e => { e with regs := e.regs.setA0 ret })) :
    Q (conclude c number r).2 := by
  have answer {k : Kernel} (hk : Q k) (ret : Word) : Q (k.answer c ret).2 := by
    unfold Kernel.answer
    split
    · exact hk
    · exact ha k ret hk
  obtain ⟨err | ret, k⟩ := r
  · unfold conclude
    dsimp only
    split
    · exact h
    · split
      · exact h
      · exact answer (hl k _ h) _
  · exact answer h ret

theorem handleEcall_eq (h : k.env? c = some e) (table : SyscallTable) {number : Word} (hn : e.regs.a7 = number) :
    k.handleEcall table c = conclude c number (table.dispatch number.toNat
      (k.setRegisters c { e.regs with sepc := e.regs.sepc + 4 }) c (argsOf { e.regs with sepc := e.regs.sepc + 4 })) := by
  subst hn
  have ha : Registers.a7 { e.regs with sepc := e.regs.sepc + 4 } = e.regs.a7 := rfl
  rw [handleEcall, h]
  dsimp only
  rw [ha]
  rcases table.dispatch e.regs.a7.toNat (k.setRegisters c { e.regs with sepc := e.regs.sepc + 4 }) c
    (argsOf { e.regs with sepc := e.regs.sepc + 4 }) with ⟨err | ret, k₁⟩
  · cases err <;> rfl
  · rfl

/-- **A call of a program is dispatched with its number and arguments in its registers.** -/
theorem ecall_eq (h : k.env? c = some e) (number : Word) (args : Vector Word 5) :
    k.ecall c number args = conclude c number (SyscallTable.standard.dispatch number.toNat
      (k.setRegisters c (e.regs.called number args)) c (argsOf (e.regs.called number args))) := by
  obtain ⟨e₁, h₁, hr⟩ : ∃ e₁, (k.setRegisters c (e.regs.withCall number args)).env? c = some e₁ ∧
      e₁.regs = e.regs.withCall number args := by
    rw [env?_setRegisters, h, Option.map_some, if_pos rfl]
    exact ⟨_, rfl, rfl⟩
  have h17 : e₁.regs.a7 = number := by
    rw [hr, Registers.a7, Registers.getElem_withCall _ _ _ (by decide), if_pos rfl]
  have hcall : { e₁.regs with sepc := e₁.regs.sepc + 4 } = e.regs.called number args := by
    rw [hr, Registers.called, Registers.sepc_withCall]
  rw [ecall, h]
  dsimp only
  rw [handleEcall_eq h₁ _ h17, setRegisters_setRegisters, hcall]

/-- **What a call keeps**: all that the registers of the call, what a service does, a line on the console and a result in
the registers of the caller keep. -/
theorem ecall_induction {Q : Kernel → Prop} (hk : k.Sound H) (c : EnvId) (number : Word) (args : Vector Word 5)
    (nobody : Q k) (entered : ∀ e, k.env? c = some e → Q (k.setRegisters c (e.regs.called number args)))
    (served : ∀ e s r k', k.env? c = some e →
      Syscall.Effect (k.setRegisters c (e.regs.called number args)) c (argsOf (e.regs.called number args)) s r k' → Q k')
    (logged : ∀ k l, Q k → Q (k.log l))
    (answered : ∀ k ret, Q k → Q (k.modifyEnv c fun e => { e with regs := e.regs.setA0 ret })) :
    Q (k.ecall c number args).2 := by
  cases he : k.env? c with
  | none =>
    rw [ecall, he]
    exact nobody
  | some e =>
    rw [ecall_eq he]
    refine conclude_induction c number ?_ logged answered
    rcases SyscallTable.dispatch_standard number.toNat (k.setRegisters c (e.regs.called number args)) c
      (argsOf (e.regs.called number args)) with h | ⟨s, -, h⟩
    · rw [h]
      exact entered e he
    · rw [h]
      exact served e s _ _ he (Syscall.effect _ c _ (hk.setRegisters c _) s)

/-- A call is answered if the caller is there. -/
theorem answer_cases (k : Kernel) (c : EnvId) (ret : Word) :
    (k.answer c ret).1 = .returned ret ∨ (k.answer c ret).1 = .exited ∧ (k.answer c ret).2.env? c = none := by
  cases h : k.env? c with
  | none =>
    rw [answer, h]
    exact Or.inr ⟨rfl, h⟩
  | some e =>
    rw [answer_of_env? (by rw [h]; simp)]
    exact Or.inl rfl

theorem conclude_blocked {number : Word} {r : Except SysError Word × Kernel}
    (h : conclude c number r = (.blocked, k')) : r = (.error .blocked, k') := by
  have ans (k₁ : Kernel) (w : Word) (h : k₁.answer c w = (.blocked, k')) : False := by
    have hc := answer_cases k₁ c w
    rw [h] at hc
    rcases hc with hc | ⟨hc, -⟩ <;> cases hc
  obtain ⟨err | w, k₁⟩ := r
  · unfold conclude at h
    dsimp only at h
    split at h
    next hb =>
      cases h
      rw [hb]
    · split at h
      · cases h
      · exact absurd h fun h => ans _ _ h
  · exact absurd h fun h => ans _ _ h

theorem conclude_exited {number : Word} {r : Except SysError Word × Kernel} (h : conclude c number r = (.exited, k')) :
    r = (.error .envExit, k') ∨ k'.env? c = none := by
  have ans {k₁ : Kernel} {w : Word} (h : k₁.answer c w = (.exited, k')) : k'.env? c = none := by
    have hc := answer_cases k₁ c w
    rw [h] at hc
    rcases hc with hc | ⟨-, hc⟩
    · cases hc
    · exact hc
  obtain ⟨err | w, k₁⟩ := r
  · unfold conclude at h
    dsimp only at h
    split at h
    · cases h
    · split at h
      next hx =>
        cases h
        rw [hx]
        exact Or.inl rfl
      · exact Or.inr (ans h)
  · exact Or.inr (ans h)

theorem conclude_returned {number ret : Word} {r : Except SysError Word × Kernel}
    (h : conclude c number r = (.returned ret, k')) :
    (r.1 = .ok ret ∧ r.2.env? c ≠ none ∧ k' = r.2.modifyEnv c fun e => { e with regs := e.regs.setA0 ret }) ∨
    ∃ err, r.1 = .error err ∧ Syscall.Plain err ∧ ret = err.errno.toWord ∧
      k' = (r.2.log (.callFailed c number err)).modifyEnv c fun e => { e with regs := e.regs.setA0 ret } := by
  have ans {k₁ : Kernel} {w : Word} (h : k₁.answer c w = (.returned ret, k')) :
      w = ret ∧ k₁.env? c ≠ none ∧ k' = k₁.modifyEnv c fun e => { e with regs := e.regs.setA0 ret } := by
    unfold answer at h
    split at h
    · cases h
    next he => cases h; exact ⟨rfl, by rw [he]; simp, rfl⟩
  obtain ⟨err | w, k₁⟩ := r
  · unfold conclude at h
    dsimp only at h
    split at h
    · cases h
    next hb =>
      split at h
      · cases h
      next hx =>
        obtain ⟨rfl, -, rfl⟩ := ans h
        exact Or.inr ⟨err, rfl, ⟨hb, hx⟩, rfl, rfl⟩
  · obtain ⟨rfl, hn, rfl⟩ := ans h
    exact Or.inl ⟨rfl, hn, rfl⟩

end Kernel
end Exokernel
