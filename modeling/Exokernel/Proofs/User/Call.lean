import Exokernel.Proofs.Kernel.Confinement
import Exokernel.Proofs.Kernel.Sharing
import Exokernel.Proofs.Syscall.Failure
import Exokernel.User.Call
/-!
# What calls do to programs

The calls that user code makes to manage memory, each with its two ends: it fails and concerns nobody, or it succeeds
and changes one page of one environment.
-/
namespace Exokernel

theorem eq_ok_of_toOption {ε α : Type} {x : Except ε α} {a : α} (h : x.toOption = some a) : x = .ok a := by
  cases x <;> cases h
  rfl

theorem Registers.sp_called (r : Registers) (number : Word) (args : Vector Word 5) :
    (r.called number args).sp = r.sp := by
  have h : (r.withCall number args).x[2] = r.x[2] := by
    rw [getElem_withCall _ _ _ (by decide), if_neg (by decide), dif_neg (by decide)]
  exact h

namespace Kernel

variable {k k' : Kernel} {i j t : EnvId} {e : Env} {sp : Word} {H : List Frame}

theorem Quiet.setRegisters (h : k.env? i = some e) {r : Registers} (hr : r.sp = e.regs.sp) :
    k.Quiet (k.setRegisters i r) := by
  refine .modifyEnv (g := fun e => { e with regs := r }) (fun _ => rfl) (fun _ => rfl) (fun _ h => h) fun e' he' => ?_
  rw [h] at he'
  cases he'
  exact hr

/-- What user code makes of the end of a call. -/
def settle (i : EnvId) (c : Call) : Ecall × Kernel → Except Errno Word × Kernel
  | (.returned ret, k) => (Errno.decode ret, k)
  | (other, k) =>
    if c.awaited = some other then (.ok 0, k) else (.error .badEnv, k.log (.unexpectedEnd i c other))

theorem call_eq (k : Kernel) (i : EnvId) (c : Call) :
    k.call i c = settle i c (k.ecall i c.service.number.toUInt64 c.args) := rfl

theorem settle_cases (i : EnvId) (c : Call) (x : Ecall × Kernel) :
    (settle i c x).2 = x.2 ∨ (settle i c x).2 = x.2.log (.unexpectedEnd i c x.1) := by
  obtain ⟨⟨ret⟩ | _ | _, k⟩ := x
  · exact Or.inl rfl
  all_goals
    unfold settle
    dsimp only
    split
    · exact Or.inl rfl
    · exact Or.inr rfl

theorem Quiet.settle (i : EnvId) (c : Call) (x : Ecall × Kernel) : x.2.Quiet (Kernel.settle i c x).2 := by
  rcases settle_cases i c x with h | h
  · rw [h]
    exact .refl _
  · rw [h]
    exact .log _ _

theorem Sound.call (hk : k.Sound []) (i : EnvId) (c : Call) : (k.call i c).2.Sound [] := by
  have h := hk.ecall i c.service.number.toUInt64 c.args
  rw [call_eq]
  rcases settle_cases i c (k.ecall i c.service.number.toUInt64 c.args) with hs | hs
  · rw [hs]
    exact h
  · rw [hs]
    exact h.log _

theorem Sound.callForId (hk : k.Sound []) (i : EnvId) (c : Call) : (k.callForId i c).2.Sound [] := by
  have h := hk.call i c
  unfold Kernel.callForId
  rcases hc : k.call i c with ⟨err | w, k₁⟩
  · rwa [hc] at h
  · rw [hc] at h
    dsimp only
    split <;> exact h

/-- **A call is its service**, with registers set before and after. -/
theorem call_effect (hk : k.Sound []) (hr : k.Runs i sp) (c : Call) : ∃ k₀ k₁ args out,
    k.Quiet k₀ ∧ k₀.Runs i sp ∧ k₀.Sound [] ∧ (∀ x (h : x < 5), args.word x = c.args[x]) ∧
    c.service.handler k₀ i args = (out, k₁) ∧ k₁.Quiet (k.call i c).2 ∧
    (∀ ret, out = .ok ret → k₁.Runs i sp → (k.call i c).1 = Errno.decode ret) ∧
    (∀ err, out = .error err → Syscall.Plain err → k₁.bare = k₀.bare →
      (∃ e', (k.call i c).1 = .error e') ∧ k.Quiet (k.call i c).2) ∧
    (out = .error .envExit → c.awaited = some .exited → (k.call i c).1 = .ok 0) := by
  obtain ⟨e, he, -, -⟩ := id hr
  have hn : c.service.number.toUInt64.toNat = c.service.number := by cases c <;> rfl
  have hk₀ := hk.setRegisters i (e.regs.called c.service.number.toUInt64 c.args)
  have hq := Quiet.setRegisters he (Registers.sp_called e.regs c.service.number.toUInt64 c.args)
  rw [call_eq, ecall_eq he, hn, SyscallTable.dispatch_number]
  have hargs (x : Nat) (h : x < 5) :
      (argsOf (e.regs.called c.service.number.toUInt64 c.args)).word x = c.args[x] := word_argsOf_called _ _ _ h
  generalize k.setRegisters i (e.regs.called c.service.number.toUInt64 c.args) = k₀ at *
  generalize argsOf (e.regs.called c.service.number.toUInt64 c.args) = args at *
  rcases hx : c.service.handler k₀ i args with ⟨out, k₁⟩
  have hq₁ := (Quiet.conclude i c.service.number.toUInt64 (out, k₁)).trans (.settle i c _)
  refine ⟨k₀, k₁, args, out, hq, hq.runs hr, hk₀, hargs, hx, hq₁, ?_, ?_, ?_⟩
  · rintro ret rfl ⟨e₁, he₁, -, -⟩
    rw [conclude, answer_of_env? (by rw [he₁]; simp)]
    rfl
  · rintro err rfl ⟨hb, hx⟩ hbare
    obtain ⟨e₀, he₀, -⟩ := hq.spares i e he
    have hlive : (k₁.log (.callFailed i c.service.number.toUInt64 err)).env? i ≠ none := by
      rw [env?_log, env?_congr (envs_of_bare hbare), he₀]
      simp
    refine ⟨?_, (hq.trans (.of_bare hbare)).trans hq₁⟩
    rw [conclude, if_neg hb, if_neg hx, answer_of_env? hlive]
    exact ⟨_, err.errno.decode_toWord⟩
  · rintro rfl haw
    rw [conclude, if_neg (by decide), if_pos rfl]
    unfold settle
    exact congrArg Prod.fst (if_pos haw)

end Kernel

namespace Syscall

variable {k : Kernel} {i : EnvId} {te : Env} {w : Word} {v : VirtAddr} {p q : Perm}

theorem ofWord?_toWord (i : EnvId) : EnvId.ofWord? i.toWord = some i := by
  obtain ⟨r⟩ := i
  have hr := r.toNat_lt
  have h : (EnvId.toWord ⟨r⟩).toNat = r.toNat := UInt32.toNat_toUInt64 r
  rw [EnvId.ofWord?, if_pos (by rw [h]; omega)]
  simp [EnvId.toWord]

theorem decodeEnv_toWord (i : EnvId) : decodeEnv i.toWord = .ok i := by rw [decodeEnv, ofWord?_toWord]

theorem pageOfNat?_of_decodePage (h : decodePage w = .ok v) : VirtAddr.pageOfNat? w.toNat = some v := by
  unfold decodePage at h
  split at h
  · cases h
  · rename_i hv
    cases h
    exact hv

theorem perm_of_decodePerm (h : decodePerm p.toWord = .ok q) : q = p := by
  unfold decodePerm Perm.ofWord? at h
  split at h
  · cases h
  · rename_i hq
    cases h
    split at hq
    · cases hq
      simp [Perm.toWord]
    · cases hq

theorem effect_of_handler (hk : k.Sound []) {a : CallArgs} {s : Service} {out : Except SysError Word} {k' : Kernel}
    (h : s.handler k i a = (out, k')) : Effect k i a s out k' := by
  have he := effect k i a hk s
  rwa [h] at he

theorem id_of_authorizeWord {t : EnvId} (h : authorizeWord k i t.toWord = .ok te) : te.id = t.meant i := by
  rw [authorizeWord, decodeEnv_toWord] at h
  exact Kernel.id_of_authorize h

end Syscall

namespace Kernel

variable {k k' : Kernel} {i t s child : EnvId} {sp va sva : Word} {p : Perm} {r : Except Errno Word}

/-- **A call that succeeds**: the caller was to end by it, or its service has given a result or has left it waiting. -/
theorem call_ok (hk : k.Sound []) {x : Call} {w : Word} (h : k.call i x = (.ok w, k')) :
    (k.ecall i x.service.number.toUInt64 x.args).2 = k' ∧ (x.awaited = some .exited ∨ ∃ e r k₁, k.env? i = some e ∧
      Syscall.Effect (k.setRegisters i (e.regs.called x.service.number.toUInt64 x.args)) i
        (argsOf (e.regs.called x.service.number.toUInt64 x.args)) x.service r k₁ ∧
      ((∃ ret, r = .ok ret ∧ Errno.decode ret = .ok w ∧
          k' = k₁.modifyEnv i fun e => { e with regs := e.regs.setA0 ret }) ∨
        (r = .error .blocked ∧ k' = k₁))) := by
  have ended {k₁ : Kernel} (h : settle i x (.exited, k₁) = (.ok w, k')) : k₁ = k' ∧ x.awaited = some .exited := by
    unfold settle at h
    dsimp only at h
    split at h
    next haw =>
      cases h
      exact ⟨rfl, haw⟩
    · cases h
  rw [call_eq] at h
  cases he : k.env? i with
  | none =>
    have hnobody : k.ecall i x.service.number.toUInt64 x.args = (.exited, k) := by rw [ecall, he]
    rw [hnobody] at h ⊢
    obtain ⟨rfl, haw⟩ := ended h
    exact ⟨rfl, Or.inl haw⟩
  | some e =>
    have hn : x.service.number.toUInt64.toNat = x.service.number := by cases x <;> rfl
    have heff := Syscall.effect _ i (argsOf (e.regs.called x.service.number.toUInt64 x.args))
      (hk.setRegisters i (e.regs.called x.service.number.toUInt64 x.args)) x.service
    rcases hx : k.ecall i x.service.number.toUInt64 x.args with ⟨⟨ret⟩ | _ | _, k₂⟩
    all_goals
      have hcall := (ecall_eq he _ _).symm.trans hx
      rw [hn, SyscallTable.dispatch_number] at hcall
      rw [hx] at h
    · have hret : Errno.decode ret = .ok w := congrArg Prod.fst h
      obtain rfl : k₂ = k' := congrArg Prod.snd h
      rcases conclude_returned hcall with ⟨hok, -, hk'⟩ | ⟨err, -, -, rfl, -⟩
      · exact ⟨rfl, Or.inr ⟨e, _, _, rfl, heff, Or.inl ⟨ret, hok, hret, hk'⟩⟩⟩
      · rw [Errno.decode_toWord] at hret
        cases hret
    · rw [conclude_blocked hcall] at heff
      unfold settle at h
      dsimp only at h
      split at h
      · cases h
        exact ⟨rfl, Or.inr ⟨e, _, _, rfl, heff, Or.inr ⟨rfl, rfl⟩⟩⟩
      · cases h
    · obtain ⟨rfl, haw⟩ := ended h
      exact ⟨rfl, Or.inl haw⟩

/-- **A page of zeros is mapped**, or nobody notices. -/
theorem call_pageAlloc (hk : k.Sound []) (hr : k.Runs i sp) (h : k.call i (.pageAlloc t va p) = (r, k')) :
    ((∃ err, r = .error err) ∧ k.Quiet k') ∨
    (r = .ok 0 ∧ ∃ v f, VirtAddr.pageOfNat? va.toNat = some v ∧ k.mappings.Fresh f ∧ k'.machine.page f = Page.zero ∧
      k.Remaps k' (t.meant i) v (some ⟨f, p⟩)) := by
  obtain ⟨k₀, k₁, a, out, hq₀, hr₀, hk₀, ha, hx, hq₁, hok, herr, -⟩ := call_effect hk hr (.pageAlloc t va p)
  rw [h] at hq₁ hok herr
  have heff := Syscall.effect_of_handler hk₀ (s := .pageAlloc) hx
  have hk₁ := hk₀.effect heff
  have hpage := fun f hf => heff.page hk₀ (f := f) hf
  cases heff with
  | refused hb hp => exact Or.inl (herr _ rfl hp hb)
  | @allocated te v q f k₂ k₃ hargs hf hm =>
    right
    obtain ⟨hv, hq, ht⟩ := Syscall.pageAllocArgs_ok hargs
    have hte := (Syscall.authorizeWord_ok ht).1
    rw [ha 0 (by decide)] at ht
    rw [ha 1 (by decide)] at hv
    rw [ha 2 (by decide)] at hq
    obtain rfl := Syscall.perm_of_decodePerm hq
    have hid := Syscall.id_of_authorizeWord ht
    obtain ⟨-, s, hl, henv⟩ := env?_mapInto hm
    have hrem : k₀.Remaps (k₃.releaseFrame f) te.id v (some ⟨f, q⟩) := by
      refine .of_env? hk₁ hpage hte hl fun j => ?_
      rw [← env?_allocFrame hf j]
      exact henv j
    have hput : (k₃.releaseFrame f).mappings te.id v = some ⟨f, q⟩ := by rw [hrem.mappings, Mappings.put_self]
    have hzero := (hpage f (hk₁.refs_pos_of_mappings hput)).trans (page_of_allocFrame hk₀ hf)
    have hfresh : k.mappings.Fresh f := by
      rintro j w x hmap rfl
      obtain ⟨m, hal, -⟩ := allocFrame_some hf
      have := hk.refs_pos_of_mappings hmap
      rw [← Machine.refs_congr hq₀.machine, Machine.refs_of_alloc hk₀.balanced.tidy hal] at this
      omega
    rw [hid] at hrem
    refine ⟨hok 0 rfl (hrem.runs hr₀), v, f, Syscall.pageOfNat?_of_decodePage hv, hfresh, ?_, (hq₀.remaps hrem).quiet hq₁⟩
    rw [Machine.page_congr hq₁.machine, hzero]

/-- **A mapping is copied**, or nobody notices. -/
theorem call_pageMap (hk : k.Sound []) (hr : k.Runs i sp) (h : k.call i (.pageMap s sva t va p) = (r, k')) :
    ((∃ err, r = .error err) ∧ k.Quiet k') ∨
    (r = .ok 0 ∧ ∃ sv v pte, VirtAddr.pageOfNat? sva.toNat = some sv ∧ VirtAddr.pageOfNat? va.toNat = some v ∧
      k.mappings (s.meant i) sv = some pte ∧ k.Remaps k' (t.meant i) v (some ⟨pte.frame, p⟩)) := by
  obtain ⟨k₀, k₁, a, out, hq₀, hr₀, hk₀, ha, hx, hq₁, hok, herr, -⟩ := call_effect hk hr (.pageMap s sva t va p)
  rw [h] at hq₁ hok herr
  have heff := Syscall.effect_of_handler hk₀ (s := .pageMap) hx
  have hk₁ := hk₀.effect heff
  have hpage := fun f hf => heff.page hk₀ (f := f) hf
  cases heff with
  | refused hb hp => exact Or.inl (herr _ rfl hp hb)
  | @mapped pte te v q k₁ hargs hm =>
    right
    obtain ⟨sv, src, si, di, hsv, hv, hq, hsi, hdi, hsrc, hdst, hl, -⟩ := Syscall.pageMapArgs_ok hargs
    rw [ha 0 (by decide)] at hsi
    rw [ha 1 (by decide)] at hsv
    rw [ha 2 (by decide)] at hdi
    rw [ha 3 (by decide)] at hv
    rw [ha 4 (by decide)] at hq
    obtain rfl := Syscall.perm_of_decodePerm hq
    obtain rfl : s = si := Except.ok.inj ((Syscall.decodeEnv_toWord s).symm.trans hsi)
    obtain rfl : t = di := Except.ok.inj ((Syscall.decodeEnv_toWord t).symm.trans hdi)
    obtain ⟨-, s', hls, henv⟩ := env?_mapInto hm
    have hrem := Remaps.of_env? hk₁ hpage (Syscall.authorize_ok hdst).1 hls henv
    rw [id_of_authorize hdst] at hrem
    refine ⟨hok 0 rfl (hrem.runs hr₀), sv, v, pte, Syscall.pageOfNat?_of_decodePage hsv,
      Syscall.pageOfNat?_of_decodePage hv, ?_, (hq₀.remaps hrem).quiet hq₁⟩
    rw [← hq₀.mappings, ← id_of_authorize hsrc, mappings_of_env? (Syscall.authorize_ok hsrc).1, hl]

/-- **A mapping is taken out**, or nobody notices. -/
theorem call_pageUnmap (hk : k.Sound []) (hr : k.Runs i sp) (h : k.call i (.pageUnmap t va) = (r, k')) :
    ((∃ err, r = .error err) ∧ k.Quiet k') ∨
    (r = .ok 0 ∧ ∃ v, VirtAddr.pageOfNat? va.toNat = some v ∧ k.Remaps k' (t.meant i) v none) := by
  obtain ⟨k₀, k₁, a, out, hq₀, hr₀, hk₀, ha, hx, hq₁, hok, herr, -⟩ := call_effect hk hr (.pageUnmap t va)
  rw [h] at hq₁ hok herr
  have heff := Syscall.effect_of_handler hk₀ (s := .pageUnmap) hx
  have hk₁ := hk₀.effect heff
  have hpage := fun f hf => heff.page hk₀ (f := f) hf
  cases heff with
  | refused hb hp => exact Or.inl (herr _ rfl hp hb)
  | @unmapped te v hargs =>
    right
    obtain ⟨hv, ht⟩ := Syscall.pageUnmapArgs_ok hargs
    have hte := (Syscall.authorizeWord_ok ht).1
    rw [ha 0 (by decide)] at ht
    rw [ha 1 (by decide)] at hv
    obtain ⟨-, s', hls, henv⟩ := env?_unmapFrom k₀ te v
    have hrem := Remaps.of_env? hk₁ hpage hte hls henv
    rw [Syscall.id_of_authorizeWord ht] at hrem
    exact ⟨hok 0 rfl (hrem.runs hr₀), v, Syscall.pageOfNat?_of_decodePage hv, (hq₀.remaps hrem).quiet hq₁⟩

/-! ## Other calls -/

theorem call_setUpcall (hk : k.Sound []) (hr : k.Runs i sp) (h : k.call i (.setUpcall t va) = (r, k')) :
    k.Quiet k' := by
  obtain ⟨k₀, k₁, a, out, hq₀, hr₀, hk₀, ha, hx, hq₁, hok, herr, -⟩ := call_effect hk hr (.setUpcall t va)
  rw [h] at hq₁ hok herr
  have heff := Syscall.effect_of_handler hk₀ (s := .envSetPgfaultUpcall) hx
  cases heff with
  | refused hb hp => exact (herr _ rfl hp hb).2
  | upcallSet =>
    refine (hq₀.trans (.modifyEnv (g := fun e => { e with upcall := some (a.word 1) }) (fun _ => rfl) (fun _ => rfl)
      (fun _ h => h) fun _ _ => rfl)).trans hq₁

/-- **Whoever is told to run may run.** -/
theorem call_setRunnable (hk : k.Sound []) (hr : k.Runs i sp) (h : k.call i (.setStatus t .runnable) = (r, k')) :
    k.Quiet k' ∧ ∀ w, r = .ok w → ∃ e, k'.env? (t.meant i) = some e ∧ e.status.isRunnable := by
  obtain ⟨k₀, k₁, a, out, hq₀, hr₀, hk₀, ha, hx, hq₁, hok, herr, -⟩ := call_effect hk hr (.setStatus t .runnable)
  rw [h] at hq₁ hok herr
  have heff := Syscall.effect_of_handler hk₀ (s := .envSetStatus) hx
  cases heff with
  | refused hb hp =>
    obtain ⟨⟨err, rfl⟩, hq⟩ := herr _ rfl hp hb
    exact ⟨hq, fun w hw => by cases hw⟩
  | @statusSet te st hargs =>
    obtain ⟨hcode, ht, -⟩ := Syscall.envSetStatusArgs_ok hargs
    have hte := (Syscall.authorizeWord_ok ht).1
    rw [ha 0 (by decide)] at ht
    rw [ha 1 (by decide)] at hcode
    obtain rfl : EnvStatus.runnable = st := Option.some.inj hcode
    have hq : k₀.Quiet { k₀.setStatus te.id .runnable with
        scheduler := if EnvStatus.runnable = .runnable then k₀.scheduler.enqueue te.id
          else k₀.scheduler.remove te.id } :=
      .of_envs rfl (fun j e => if te.id = j then { e with status := .runnable } else e)
        (fun j => env?_modifyEnv (f := fun e => { e with status := .runnable }) (fun _ => rfl) j)
        (fun j e _ => by split <;> rfl) (fun j e _ h => by split <;> first | rfl | exact h)
        (fun j e _ => by split <;> rfl)
    refine ⟨(hq₀.trans hq).trans hq₁, fun w _ => ?_⟩
    have hset : (k₀.setStatus te.id .runnable).env? te.id = some { te with status := .runnable } := by
      refine (env?_modifyEnv (f := fun e => { e with status := .runnable }) (fun _ => rfl) te.id).trans ?_
      rw [hte, Option.map_some, if_pos rfl]
    rw [← Syscall.id_of_authorizeWord ht]
    obtain ⟨e', he', hrun, -⟩ := hq₁.spares te.id _ hset
    exact ⟨e', he', hrun rfl⟩

theorem call_getEnvId (hk : k.Sound []) (hr : k.Runs i sp) (h : k.call i .getEnvId = (r, k')) : k.Quiet k' := by
  obtain ⟨k₀, k₁, a, out, hq₀, hr₀, hk₀, ha, hx, hq₁, hok, herr, -⟩ := call_effect hk hr .getEnvId
  rw [h] at hq₁ hok herr
  have heff := Syscall.effect_of_handler hk₀ (s := .getEnvId) hx
  cases heff with
  | refused hb hp => exact (herr _ rfl hp hb).2
  | named => exact hq₀.trans hq₁

theorem callForId_getEnvId (hk : k.Sound []) (hr : k.Runs i sp) {r : Except Errno EnvId}
    (h : k.callForId i .getEnvId = (r, k')) : k.Quiet k' := by
  unfold callForId at h
  rcases hc : k.call i .getEnvId with ⟨res, k₁⟩
  have hq := call_getEnvId hk hr hc
  rw [hc] at h
  rcases res with err | w
  · cases h
    exact hq
  · dsimp only at h
    split at h <;> (cases h; exact hq)

/-! ## Making and ending programs -/

/-- The program is gone, and that concerns no other. -/
structure Ends (k k' : Kernel) (i : EnvId) : Prop where
  gone : k'.env? i = none
  mappings : k'.mappings = k.mappings.without i
  spares (j : EnvId) (hj : j ≠ i) : k.Spares k' j

theorem Quiet.ends {k₁ : Kernel} (h : k.Quiet k₁) (h' : k₁.Ends k' i) : k.Ends k' i where
  gone := h'.gone
  mappings := by rw [h'.mappings, h.mappings]
  spares j hj := (h.spares j).trans (h'.spares j hj)

theorem Ends.quiet {k₁ : Kernel} (h : k.Ends k₁ i) (h' : k₁.Quiet k') : k.Ends k' i where
  gone := h'.gone i h.gone
  mappings := h'.mappings.trans h.mappings
  spares j hj := (h.spares j hj).trans (h'.spares j)

theorem ends_of_destroyEnv (hk : k.Sound []) (h : k.destroyEnv i = (.ok (), k')) : k.Ends k' i := by
  have henv := env?_destroyEnv h
  have hk' : k'.Sound [] := by
    have := hk.destroyEnv i
    rwa [h] at this
  have hm := mappings_destroyEnv k i
  rw [h] at hm
  refine ⟨by rw [henv, if_pos rfl], hm, fun j hj e he => ?_⟩
  have he' : k'.env? j = some e := by rw [henv, if_neg hj.symm, he]
  refine ⟨e, he', id, rfl, fun _ => rfl, fun v p hl => ?_⟩
  have hpos := hk'.refs_pos_of_lookup he' hl
  obtain ⟨e₀, -, rfl⟩ := destroyEnv_ok h
  exact Machine.page_releaseAll _ hpos

/-- **Whoever ends itself is gone.** -/
theorem call_envDestroy (hk : k.Sound []) (hr : k.Runs i sp) (h : k.call i (.envDestroy .self) = (r, k')) :
    r = .ok 0 ∧ k.Ends k' i := by
  obtain ⟨k₀, k₁, a, out, hq₀, ⟨e, he, -, -⟩, hk₀, ha, hx, hq₁, -, -, hend⟩ := call_effect hk hr (.envDestroy .self)
  rw [h] at hq₁ hend
  obtain rfl : e.id = i := EnvTable.id_of_get? he
  have hau : Syscall.authorizeWord k₀ e.id (a.word 0) = .ok e := by
    rw [ha 0 (by decide)]
    have hget : k₀.envs.get e.id = .ok e := by
      unfold EnvTable.get
      rw [show k₀.envs.get? e.id = some e from he]
    show (k₀.envs.get e.id).mapError _ = _
    rw [hget]
    rfl
  have hdes := destroyEnv_of_env? he
  have hx' : (Call.envDestroy .self).service.handler k₀ e.id a = Syscall.envDestroy k₀ e.id a := rfl
  rw [hx', Syscall.envDestroy, hau] at hx
  dsimp only at hx
  rw [hdes] at hx
  dsimp only at hx
  rw [if_pos rfl] at hx
  cases hx
  exact ⟨hend rfl rfl, (hq₀.ends (ends_of_destroyEnv hk₀ hdes)).quiet ((Quiet.log _ _).trans hq₁)⟩

/-- A fork spares everyone. -/
theorem spares_forked (hk : k.Sound []) {parent : Option EnvId} {c : EnvId} (h : k.createEnv parent = (.ok c, k'))
    (r : Registers) (l : Line) (j : EnvId) : k.Spares ((k'.setRegisters c r).log l) j := by
  obtain ⟨hnone, f, henv⟩ := env?_forked hk h r
  intro e he
  have hne : c ≠ j := by
    rintro rfl
    rw [hnone] at he
    cases he
  exact ⟨e, ((henv j).trans (if_neg hne)).trans he, id, rfl, fun _ => rfl, fun v q hl => page_createEnv hk h q.frame⟩

/-- **A child is made**, with nothing mapped and the stack pointer of its parent, or nobody notices. -/
theorem callForId_exofork (hk : k.Sound []) (hr : k.Runs i sp) {r : Except Errno EnvId}
    (h : k.callForId i .exofork = (r, k')) :
    ((∃ err, r = .error err) ∧ k.Quiet k') ∨
    ∃ child c, r = .ok child ∧ k.env? child = none ∧ child.isSelf = false ∧ k'.env? child = some c ∧
      c.regs.sp = sp ∧ k'.mappings = k.mappings ∧ ∀ j, k.Spares k' j := by
  obtain ⟨k₀, k₁, a, out, hq₀, hr₀, hk₀, ha, hx, hq₁, hok, herr, -⟩ := call_effect hk hr .exofork
  have heff := Syscall.effect_of_handler hk₀ (s := .exofork) hx
  unfold callForId at h
  cases heff with
  | refused hb hp =>
    obtain ⟨⟨err, he⟩, hq⟩ := herr _ rfl hp hb
    generalize k.call i .exofork = x at *
    obtain ⟨x, k₂⟩ := x
    subst he
    cases h
    exact Or.inl ⟨⟨err, rfl⟩, hq⟩
  | @forked parent child k₂ hpar hcr =>
    right
    obtain ⟨hnone, f, henv⟩ := env?_forked hk₀ hcr (parent.regs.setA0 0)
    obtain ⟨p, hpe, -, hsp⟩ := id hr₀
    obtain rfl : parent = p := Option.some.inj (hpar.symm.trans hpe)
    have hspares := spares_forked hk₀ hcr (parent.regs.setA0 0) (.exoforked i child)
    have hmap : ((k₂.setRegisters child (parent.regs.setA0 0)).log (.exoforked i child)).mappings = k₀.mappings :=
      (mappings_setRegisters k₂ child _).trans (mappings_createEnv hk₀ hcr).1
    have hret := hok _ rfl ((hspares i).runs hr₀)
    rw [EnvId.decode_toWord] at hret
    have hself : child.isSelf = false := by
      obtain ⟨n, g, m, -, -, rfl, -⟩ := createEnv_ok hcr
      exact EnvId.isSelf_ofParts _ _
    obtain ⟨c, hc, -, hcsp, -⟩ := hq₁.spares child _ ((henv child).trans (if_pos rfl))
    generalize k.call i .exofork = x at *
    obtain ⟨x, k₃⟩ := x
    dsimp only at hret
    subst hret
    dsimp only at h
    rw [Syscall.ofWord?_toWord] at h
    cases h
    refine ⟨child, c, rfl, (hq₀.spares child).env?_eq_none hnone, hself, hc, ?_, ?_, fun j => ?_⟩
    · rw [hcsp, ← hsp]
      exact Registers.sp_setA0 _ _
    · rw [hq₁.mappings, hmap, hq₀.mappings]
    · exact ((hq₀.spares j).trans (hspares j)).trans (hq₁.spares j)

end Kernel
end Exokernel
