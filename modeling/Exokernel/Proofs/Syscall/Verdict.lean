import Exokernel.Proofs.Syscall.Checks
import Exokernel.Proofs.Syscall.Failure
/-!
# What a call reports

A call reports the error of the first check of its service that fails, and what the service gives if none does.  Main
statement: `first_failing_check_reported`, by which the answer of a call is the verdict of its list of checks on the state
before it, whatever its number and its arguments are.
-/
namespace Exokernel
namespace Syscall

/-! ## Arguments -/

section arguments
variable {k : Kernel} {c : EnvId} {a : CallArgs} {e : Env} {v : VirtAddr} {p : Perm}

theorem lends_cases {i : EnvId} {va perm : Word} (he : k.env? i = some e) (hv : v.raw = va.toNat)
    (hp : p.contains .writable = perm.asksToWrite) :
    (k.lends i va perm = true ∧ ∃ pte, e.space.lookup v = some pte ∧
      (p.contains .writable && !pte.perm.contains .writable) = false) ∨
    (k.lends i va perm = false ∧ ∀ pte, e.space.lookup v = some pte →
      (p.contains .writable && !pte.perm.contains .writable) = true) := by
  rw [Kernel.lends, Kernel.entryAt_of_env? he, AddressSpace.entryAt, VirtAddr.ofNat?_eq_some_iff.2 hv, Option.bind_some,
    ← hp]
  cases e.space.lookup v with
  | none => exact Or.inr ⟨rfl, fun _ h => by cases h⟩
  | some pte => cases p.contains .writable <;> cases hw : pte.perm.contains .writable <;> simp [hw]

theorem makes_pageAllocArgs (hc : k.env? c ≠ none) :
    Makes (fun (t, v, _) => k.env? t.id = some t ∧ k.inReach c (a.word 0) = some t.id ∧ v.raw = (a.word 1).toNat)
      (pageAllocArgs k c a) [⟨(a.word 1).isPage, .inval⟩, ⟨(a.word 2).isSettable, .inval⟩,
        ⟨(k.inReach c (a.word 0)).isSome, .badEnv⟩] :=
  (makes_decodePage _).bind fun _ hv => makes_perm _ fun _ _ => (makes_authorizeWord hc _).bind fun _ ht =>
    .passed ⟨ht.1, ht.2, hv⟩

theorem makes_pageUnmapArgs (hc : k.env? c ≠ none) : Makes (fun _ => True) (pageUnmapArgs k c a)
    [⟨(a.word 1).isPage, .inval⟩, ⟨(k.inReach c (a.word 0)).isSome, .badEnv⟩] :=
  (makes_decodePage _).bind fun _ _ => (makes_authorizeWord hc _).bind fun _ _ => .passed trivial

/-- Which of the two words is wrong makes no difference. -/
theorem authorize_both {α : Type} (w w' : Word) (f : Env → Env → Except SysError α) :
    (decodeEnv w >>= fun i => decodeEnv w' >>= fun j => authorize k c i >>= fun src => authorize k c j >>= f src) =
      (authorizeWord k c w >>= fun src => authorizeWord k c w' >>= f src) := by
  unfold authorizeWord
  rcases ofWord?_cases w with ⟨-, hd⟩ | ⟨-, hd⟩ <;> rw [hd]
  · rcases ofWord?_cases w' with ⟨-, hd'⟩ | ⟨-, hd'⟩ <;> rw [hd']
    · rfl
    · show Except.error _ = (authorize k c _ >>= fun _ => Except.error _)
      unfold authorize
      cases hr : k.envs.resolve ⟨w.toUInt32⟩ (.env c) true with
      | ok t => rfl
      | error err =>
        rw [Kernel.badEnv_of_resolve hr]
        rfl
  · rfl

theorem makes_pageMapArgs (hc : k.env? c ≠ none) :
    Makes (fun (_, t, v, _) => k.env? t.id = some t ∧ k.inReach c (a.word 2) = some t.id ∧ v.raw = (a.word 3).toNat)
      (pageMapArgs k c a) [⟨(a.word 1).isPage, .inval⟩, ⟨(a.word 3).isPage, .inval⟩, ⟨(a.word 4).isSettable, .inval⟩,
        ⟨(k.inReach c (a.word 0)).isSome, .badEnv⟩, ⟨(k.inReach c (a.word 2)).isSome, .badEnv⟩,
        ⟨(k.inReach c (a.word 0)).any fun s => k.lends s (a.word 1) (a.word 4), .inval⟩] := by
  refine (makes_decodePage _).bind fun sv hsv => (makes_decodePage _).bind fun dv hdv => makes_perm _ fun p hp => ?_
  rw [authorize_both]
  refine (makes_authorizeWord hc _).bind fun src hsrc => (makes_authorizeWord hc _).bind fun dst hdst => ?_
  rw [hsrc.2, Option.any_some]
  rcases lends_cases hsrc.1 hsv hp with ⟨hl, pte, hpte, hw⟩ | ⟨hl, hpte⟩ <;> rw [hl]
  · rw [hpte]
    dsimp only
    rw [if_neg (by rw [hw]; decide)]
    exact .held rfl (.passed ⟨hdst.1, hdst.2, hdv⟩)
  · cases hs : src.space.lookup sv with
    | none => exact .failed rfl (by simp [Plain]) rfl
    | some pte =>
      dsimp only
      rw [if_pos (hpte pte hs)]
      exact .failed rfl (by simp [Plain]) rfl

theorem makes_envSetStatusArgs (hc : k.env? c ≠ none) : Makes (fun _ => True) (envSetStatusArgs k c a)
    [⟨a.word 1 == 2 || a.word 1 == 4, .inval⟩, ⟨(k.inReach c (a.word 0)).isSome, .badEnv⟩] := by
  have eq_iff (n : Word) : a.word 1 = n ↔ (a.word 1).toNat = n.toNat := UInt64.toNat_inj.symm
  have h₂ := eq_iff 2
  have h₄ := eq_iff 4
  have held : (a.word 1 == 2 || a.word 1 == 4) = decide ((a.word 1).toNat = 2 ∨ (a.word 1).toNat = 4) := by
    rw [Bool.eq_iff_iff, decide_eq_true_iff, Bool.or_eq_true, beq_iff_eq, beq_iff_eq, h₂, h₄]
    rfl
  rw [held]
  unfold envSetStatusArgs
  generalize (a.word 1).toNat = n
  cases hs : EnvStatus.ofCode? n with
  | none =>
    refine .failed (decide_eq_false ?_) (by simp [Plain]) rfl
    rintro (rfl | rfl) <;> cases hs
  | some st =>
    have hcode : st.code = n := by simpa using List.find?_some hs
    dsimp only
    by_cases hst : st = .runnable ∨ st = .notRunnable
    · rw [if_pos hst]
      refine .held (decide_eq_true ?_) ((makes_authorizeWord hc _).map fun _ _ => trivial)
      rcases hst with rfl | rfl
      · exact Or.inl hcode.symm
      · exact Or.inr hcode.symm
    · rw [if_neg hst]
      refine .failed (decide_eq_false ?_) (by simp [Plain]) rfl
      rintro (rfl | rfl) <;> cases st <;> simp_all [EnvStatus.code]

/-- **A range passes the check of its pages just when each of its bytes may be read.** -/
theorem readable_iff (he : k.env? c = some e) (b len : Nat) :
    k.readable c b len = true ↔ e.space.check b len .read = .ok () := by
  simp only [Kernel.readable, List.all_eq_true, List.mem_range, Kernel.entryAt_of_env? he, Option.any_eq_true]
  constructor
  · intro h
    refine AddressSpace.check_of_allows fun x hx hl => ?_
    have := h (x - b) (by omega)
    rwa [Nat.add_sub_cancel' hx] at this
  · intro h i hi
    exact AddressSpace.allows_of_check h (Nat.le_add_right _ _) (by omega)

theorem callerEnv_of_live (hc : k.env? c ≠ none) : ∃ e, callerEnv k c = .ok e := by
  obtain ⟨e, he⟩ := Option.ne_none_iff_exists'.1 hc
  have he : k.envs.get? c = some e := he
  exact ⟨e, by rw [callerEnv, EnvTable.get, he]; rfl⟩

/-- A live program can always give the processor away. -/
theorem yield_ok (hc : k.env? c ≠ none) : (yield k c a).1 = .ok 0 := by
  obtain ⟨e, he⟩ := callerEnv_of_live hc
  rw [yield, he]
  dsimp only
  split <;> rfl

theorem makes_envSetTrapframeArgs (hc : k.env? c ≠ none) : Makes (fun _ => True) (envSetTrapframeArgs k c a)
    [⟨(k.inReach c (a.word 0)).isSome, .badEnv⟩, ⟨k.readable c (a.word 1).toNat Registers.size, .inval⟩] := by
  refine (makes_authorizeWord hc _).bind fun t _ => ?_
  obtain ⟨e, hget⟩ := callerEnv_of_live hc
  have hr := readable_iff (callerEnv_ok hget) (a.word 1).toNat Registers.size
  rw [hget]
  dsimp only [bind, Except.bind]
  unfold AddressSpace.read
  cases hck : e.space.check (a.word 1).toNat Registers.size .read with
  | error f =>
    refine .failed (Bool.eq_false_iff.2 fun h => ?_) (by simp [Plain]) rfl
    rw [hr.1 h] at hck
    cases hck
  | ok u => exact .held (hr.2 hck) (.passed trivial)

/-! ## Messages -/

/-- What a send does before it moves anything. -/
def sendArgs (k : Kernel) (c : EnvId) (a : CallArgs) : Except SysError (SendRequest × Env × Option (Frame × Perm)) := do
  let req ← ipcTrySendArgs a
  let r ← (k.checkSend c req).mapError .ipc
  return (req, r)

theorem sendArgs_ok {req : SendRequest} {t : Env} {offered : Option (Frame × Perm)}
    (h : sendArgs k c a = .ok (req, t, offered)) :
    ipcTrySendArgs a = .ok req ∧ k.checkSend c req = .ok (t, offered) := by
  obtain ⟨req', hreq, h⟩ := bind_ok h
  obtain ⟨r, hr, h⟩ := bind_ok h
  cases h
  cases hcs : k.checkSend c req with
  | error err => rw [hcs] at hr; cases hr
  | ok r => rw [hcs] at hr; cases hr; exact ⟨hreq, rfl⟩

theorem ipcTrySend_of_sendArgs {err : SysError} (h : sendArgs k c a = .error err) : ipcTrySend k c a = (.error err, k) := by
  unfold sendArgs at h
  unfold ipcTrySend
  cases hreq : ipcTrySendArgs a with
  | error err' =>
    rw [hreq] at h
    cases h
    rfl
  | ok req =>
    rw [hreq] at h
    have h : ((k.checkSend c req).mapError SysError.ipc >>= fun r => pure (req, r)) = .error err := h
    dsimp only
    unfold Kernel.send
    cases hcs : k.checkSend c req with
    | error err' =>
      rw [hcs] at h
      cases h
      rfl
    | ok r =>
      rw [hcs] at h
      cases h

/-- The checks from the receiver on. -/
theorem makes_checkSend (hc : k.env? c ≠ none) (w : Word) (value : UInt32) (page : Option (VirtAddr × Perm)) (lent : Bool)
    (hl : (lent = true ∧ ∃ offered, k.offer c page = .ok offered ∧ offered.isSome = page.isSome) ∨
      (lent = false ∧ k.offer c page = .error .invalidSource)) :
    Makes (fun (_, t, offered) => k.env? t.id = some t ∧ k.named c w = some t.id ∧ offered.isSome = page.isSome)
      (decodeEnv w >>= fun receiver => (k.checkSend c { receiver, value, page }).mapError SysError.ipc >>=
        fun r => pure (({ receiver, value, page } : SendRequest), r))
      [⟨(k.named c w).isSome, .badEnv⟩, ⟨lent, .inval⟩, ⟨(k.named c w).any k.isReceiving, .ipcNotRecv⟩] := by
  rcases resolve_cases hc w with ⟨t, i, ht, hn, hd, hres⟩ | ⟨hn, hd | ⟨i, hd, hres⟩⟩ <;> rw [hn, hd]
  · refine .held rfl ?_
    show Makes _ ((k.checkSend c { receiver := i, value, page }).mapError SysError.ipc >>= _) _
    unfold Kernel.checkSend
    rw [hres]
    dsimp only
    rcases hl with ⟨rfl, offered, ho, hsome⟩ | ⟨rfl, ho⟩ <;> rw [ho]
    · refine .held rfl ?_
      rw [Option.any_some, Kernel.isReceiving, ht, Option.any_some]
      dsimp only
      cases t.mailbox.receiving with
      | true => exact .held rfl (.passed ⟨ht, rfl, hsome⟩)
      | false => exact .failed rfl (by simp [Plain]) rfl
    · exact .failed rfl (by simp [Plain]) rfl
  · exact .failed rfl (by simp [Plain]) rfl
  · show Makes _ ((k.checkSend c { receiver := i, value, page }).mapError SysError.ipc >>= _) _
    unfold Kernel.checkSend
    rw [hres]
    exact .failed rfl (by simp [Plain]) rfl

/-- **The checks of a send**: on the page, if one is offered, then on the receiver, on the page again, and on whether
the receiver waits. -/
theorem makes_sendArgs (hc : k.env? c ≠ none) :
    Makes (fun (_, t, offered) => k.env? t.id = some t ∧ k.named c (a.word 0) = some t.id ∧
        offered.isSome = (a.word 2).meansPage) (sendArgs k c a)
      [⟨!(a.word 2).meansPage || (a.word 2).isPage, .inval⟩, ⟨!(a.word 2).meansPage || (a.word 3).isSettable, .inval⟩,
        ⟨(k.named c (a.word 0)).isSome, .badEnv⟩,
        ⟨!(a.word 2).meansPage || k.lends c (a.word 2) (a.word 3), .inval⟩,
        ⟨(k.named c (a.word 0)).any k.isReceiving, .ipcNotRecv⟩] := by
  rw [sendArgs, ipcTrySendArgs, bind_assoc]
  refine (makes_decodeOptionalPage _).bind fun o ⟨hm, hraw⟩ => ?_
  rw [← hm]
  cases o with
  | none =>
    simp only [bind_assoc, pure_bind]
    exact .held rfl (makes_checkSend hc _ _ none true (Or.inl ⟨rfl, none, rfl, rfl⟩))
  | some v =>
    simp only [bind_assoc, pure_bind]
    refine makes_perm _ fun p hp => makes_checkSend hc _ _ (some (v, p)) _ ?_
    obtain ⟨e, he⟩ := Option.ne_none_iff_exists'.1 hc
    rw [Kernel.offer, he]
    dsimp only
    rcases lends_cases he (hraw v rfl) hp with ⟨hl, pte, hpte, hw⟩ | ⟨hl, hpte⟩
    · refine Or.inl ⟨hl, some (pte.frame, p), ?_, rfl⟩
      rw [hpte]
      exact if_neg (by rw [hw]; decide)
    · refine Or.inr ⟨hl, ?_⟩
      cases hs : e.space.lookup v with
      | none => rfl
      | some pte => exact if_pos (hpte pte hs)

end arguments

/-! ## The services -/

section services
variable {k : Kernel} {c : EnvId} {a : CallArgs} {w : Nat → Word}

/-- A service reports what its checks say. -/
def Reports (k : Kernel) (c : EnvId) (a : CallArgs) (w : Nat → Word) (s : Service) : Prop :=
  Report.ofDispatch (s.handler k c a).1 = (s.success k c w).after (s.checks k c w)

variable (hk : k.Sound []) (hc : k.env? c ≠ none) (ha : ∀ x < 5, a.word x = w x)
include hc ha

theorem envDestroy_reports : Reports k c a w .envDestroy := by
  have hargs := makes_authorizeWord hc (a.word 0)
  rw [ha 0 (by decide)] at hargs
  refine hargs.report [] (fun t hau ⟨ht, hin⟩ => ?_) fun err he => ?_
  · have hn : k.named c (w 0) = some t.id := (Option.filter_eq_some_iff.1 hin).1
    show Report.ofDispatch (envDestroy k c a).1 = if k.named c (w 0) = some c then _ else _
    rw [envDestroy, ha 0 (by decide), hau, hn]
    dsimp only
    rw [Kernel.destroyEnv_of_env? ht]
    dsimp only
    by_cases h : t.id = c
    · rw [if_pos h, if_pos (by rw [h])]
      rfl
    · rw [if_neg h, if_neg (by rwa [Option.some.injEq])]
      rfl
  · show (envDestroy k c a).1 = _
    rw [envDestroy, ha 0 (by decide), he]

theorem pageAlloc_reports : Reports k c a w .pageAlloc := by
  have hargs := makes_pageAllocArgs (a := a) hc
  rw [ha 0 (by decide), ha 1 (by decide), ha 2 (by decide)] at hargs
  refine hargs.report [_] (fun (t, v, p) hx ⟨ht, hin, hv⟩ => ?_) fun err he => ?_
  · show Report.ofDispatch (pageAlloc k c a).1 = _
    rw [hin, Option.any_some, ← hv, pageAlloc, hx]
    dsimp only
    rcases k.allocFrame_cases with ⟨f, k₁, hf, henvs, hs⟩ | ⟨k₁, hf, hs⟩ <;> rw [hf, hs]
    · dsimp only
      rw [← Kernel.room_congr henvs]
      have ht₁ : k₁.env? t.id = some t := (Kernel.env?_congr henvs _).trans ht
      rcases Kernel.mapInto_cases ht₁ f v p with ⟨k₂, hm, hs⟩ | ⟨k₂, hm, hs⟩ <;> rw [hm]
      · rw [decide_eq_true (by omega)]
        rfl
      · rw [decide_eq_false (by omega)]
        rfl
    · rw [decide_eq_false (by omega)]
      rfl
  · show (pageAlloc k c a).1 = _
    rw [pageAlloc, he]

theorem pageMap_reports : Reports k c a w .pageMap := by
  have hargs := makes_pageMapArgs (a := a) hc
  rw [ha 0 (by decide), ha 1 (by decide), ha 2 (by decide), ha 3 (by decide), ha 4 (by decide)] at hargs
  refine hargs.report [_] (fun (pte, t, v, p) hx ⟨ht, hin, hv⟩ => ?_) fun err he => ?_
  · show Report.ofDispatch (pageMap k c a).1 = _
    rw [hin, Option.any_some, ← hv, pageMap, hx]
    dsimp only
    rcases Kernel.mapInto_cases ht pte.frame v p with ⟨k₁, hm, hs⟩ | ⟨k₁, hm, hs⟩ <;> rw [hm]
    · rw [decide_eq_true hs]
      rfl
    · rw [decide_eq_false (by omega)]
      rfl
  · show (pageMap k c a).1 = _
    rw [pageMap, he]

theorem pageUnmap_reports : Reports k c a w .pageUnmap := by
  have hargs := makes_pageUnmapArgs (a := a) hc
  rw [ha 0 (by decide), ha 1 (by decide)] at hargs
  refine hargs.report [] (fun (t, v) hx _ => ?_) fun err he => ?_
  · show Report.ofDispatch (pageUnmap k c a).1 = _
    rw [pageUnmap, hx]
    rfl
  · show (pageUnmap k c a).1 = _
    rw [pageUnmap, he]

theorem envSetStatus_reports : Reports k c a w .envSetStatus := by
  have hargs := makes_envSetStatusArgs (a := a) hc
  rw [ha 0 (by decide), ha 1 (by decide)] at hargs
  refine hargs.report [] (fun (t, st) hx _ => ?_) fun err he => ?_
  · show Report.ofDispatch (envSetStatus k c a).1 = _
    rw [envSetStatus, hx]
    rfl
  · show (envSetStatus k c a).1 = _
    rw [envSetStatus, he]

theorem envSetTrapframe_reports : Reports k c a w .envSetTrapframe := by
  have hargs := makes_envSetTrapframeArgs (a := a) hc
  rw [ha 0 (by decide), ha 1 (by decide)] at hargs
  refine hargs.report [] (fun (t, bytes) hx _ => ?_) fun err he => ?_
  · show Report.ofDispatch (envSetTrapframe k c a).1 = _
    rw [envSetTrapframe, hx]
    rfl
  · show (envSetTrapframe k c a).1 = _
    rw [envSetTrapframe, he]

theorem envSetPgfaultUpcall_reports : Reports k c a w .envSetPgfaultUpcall := by
  have hargs := makes_authorizeWord hc (a.word 0)
  rw [ha 0 (by decide)] at hargs
  refine hargs.report [] (fun t hx _ => ?_) fun err he => ?_
  · show Report.ofDispatch (envSetPgfaultUpcall k c a).1 = _
    rw [envSetPgfaultUpcall, ha 0 (by decide), hx]
    rfl
  · show (envSetPgfaultUpcall k c a).1 = _
    rw [envSetPgfaultUpcall, ha 0 (by decide), he]

omit ha in
theorem exofork_reports (hk : k.Sound []) : Reports k c a w .exofork := by
  show Report.ofDispatch (exofork k c a).1 = _
  simp only [Service.checks, Service.success, Report.after]
  obtain ⟨parent, hp⟩ := callerEnv_of_live hc
  rw [exofork, hp]
  dsimp only
  rcases k.createEnv_outcome (some c) with ⟨hn, k₁, hcr⟩ | ⟨n, hn, ⟨hs, k₁, hcr⟩ | ⟨hs, k₁, hcr⟩⟩ <;> rw [hcr, hn]
  · rfl
  · rw [hs]
    rfl
  · obtain ⟨-, f, hf⟩ := Kernel.env?_createEnv hk hcr
    have hchild := (hf _).trans (if_pos rfl)
    dsimp only
    rw [hchild, decide_eq_true hs]
    exact congrArg Report.result (EnvId.decode_toWord _)

theorem ipcTrySend_reports : Reports k c a w .ipcTrySend := by
  have hargs := makes_sendArgs (a := a) hc
  rw [ha 0 (by decide), ha 2 (by decide), ha 3 (by decide)] at hargs
  refine hargs.report [_] (fun (req, t, offered) hx ⟨ht, hn, hm⟩ => ?_) fun err he => ?_
  · show Report.ofDispatch (ipcTrySend k c a).1 = _
    obtain ⟨hreq, hsend⟩ := sendArgs_ok hx
    rw [hn, Option.any_some, ← hm, ipcTrySend, hreq]
    unfold Kernel.send Kernel.canTake
    dsimp only
    rw [hsend, ht, Option.bind_some]
    dsimp only
    unfold Kernel.transfer
    cases offered with
    | none => rfl
    | some o =>
      obtain ⟨f, p⟩ := o
      cases t.mailbox.target with
      | none => rfl
      | some v =>
        dsimp only
        rcases Kernel.mapInto_cases ht f v p with ⟨k₁, hmap, hs⟩ | ⟨k₁, hmap, hs⟩ <;> rw [hmap, Option.all_some]
        · rw [decide_eq_true hs]
          rfl
        · rw [decide_eq_false (by omega)]
          rfl
  · exact congrArg Prod.fst (ipcTrySend_of_sendArgs he)

theorem ipcRecv_reports : Reports k c a w .ipcRecv := by
  have hargs := makes_decodeOptionalPage (a.word 0)
  rw [ha 0 (by decide)] at hargs
  refine hargs.report [] (fun target hx _ => ?_) fun err he => ?_
  · show Report.ofDispatch (ipcRecv k c a).1 = _
    obtain ⟨e, he⟩ := Option.ne_none_iff_exists'.1 hc
    rw [ipcRecv, ha 0 (by decide), hx]
    unfold Kernel.receive
    dsimp only
    rw [he]
    rfl
  · show (ipcRecv k c a).1 = _
    rw [ipcRecv, ha 0 (by decide), he]

omit ha in
theorem yield_reports : Reports k c a w .yield := by
  show Report.ofDispatch (yield k c a).1 = .result (.ok 0)
  rw [yield_ok hc]
  rfl

/-- **Every service reports what its checks say.** -/
theorem reports (hk : k.Sound []) (s : Service) : Reports k c a w s := by
  cases s with
  | getEnvId => exact congrArg Report.result (EnvId.decode_toWord c)
  | envDestroy => exact envDestroy_reports hc ha
  | pageAlloc => exact pageAlloc_reports hc ha
  | pageMap => exact pageMap_reports hc ha
  | pageUnmap => exact pageUnmap_reports hc ha
  | exofork => exact exofork_reports hc hk
  | envSetStatus => exact envSetStatus_reports hc ha
  | envSetTrapframe => exact envSetTrapframe_reports hc ha
  | envSetPgfaultUpcall => exact envSetPgfaultUpcall_reports hc ha
  | yield => exact yield_reports hc
  | ipcTrySend => exact ipcTrySend_reports hc ha
  | ipcRecv => exact ipcRecv_reports hc ha

end services

end Syscall

/-! ## Calls -/

namespace Kernel

section entered
variable (k : Kernel) (i : EnvId) (r : Registers)

/-- What does not ask for registers is not changed by them. -/
theorem bind_env?_setRegisters {α : Type} (t : EnvId) {f : Env → Option α} (hf : ∀ e, f { e with regs := r } = f e) :
    ((k.setRegisters i r).env? t).bind f = (k.env? t).bind f := by
  rw [env?_setRegisters]
  cases k.env? t with
  | none => rfl
  | some e =>
    rw [Option.map_some, Option.bind_some, Option.bind_some]
    split
    · exact hf e
    · rfl

theorem any_env?_setRegisters (t : EnvId) {f : Env → Bool} (hf : ∀ e, f { e with regs := r } = f e) :
    ((k.setRegisters i r).env? t).any f = (k.env? t).any f := by
  rw [env?_setRegisters]
  cases k.env? t with
  | none => rfl
  | some e =>
    rw [Option.map_some, Option.any_some, Option.any_some]
    split
    · exact hf e
    · rfl

theorem named_setRegisters (c : EnvId) (w : Word) : (k.setRegisters i r).named c w = k.named c w := by
  unfold named
  rw [env?_setRegisters, Option.isSome_map]

theorem inReach_setRegisters (c : EnvId) (w : Word) : (k.setRegisters i r).inReach c w = k.inReach c w := by
  unfold inReach
  rw [named_setRegisters]
  congr 1
  funext t
  rw [bind_env?_setRegisters k i r t fun _ => rfl]

theorem lends_setRegisters (t : EnvId) (va perm : Word) : (k.setRegisters i r).lends t va perm = k.lends t va perm := by
  unfold lends
  rw [mappings_setRegisters]

theorem room_setRegisters (t : EnvId) (a : Nat) : (k.setRegisters i r).room t a = k.room t a := by
  unfold room
  rw [any_env?_setRegisters k i r t fun _ => rfl]

theorem supply_setRegisters : (k.setRegisters i r).supply = k.supply := rfl

theorem isReceiving_setRegisters : (k.setRegisters i r).isReceiving = k.isReceiving := by
  funext t
  exact any_env?_setRegisters k i r t fun _ => rfl

theorem canTake_setRegisters : (k.setRegisters i r).canTake = k.canTake := by
  funext t
  unfold canTake
  rw [bind_env?_setRegisters k i r t fun _ => rfl, supply_setRegisters]
  simp only [room_setRegisters]

theorem readable_setRegisters (t : EnvId) (a len : Nat) :
    (k.setRegisters i r).readable t a len = k.readable t a len := by
  unfold readable
  rw [mappings_setRegisters]

theorem firstFree?_setRegisters : (k.setRegisters i r).envs.firstFree? = k.envs.firstFree? :=
  EnvTable.firstFree?_of_sameTags (SameTags.setRegisters k i r)

theorem nextGeneration_setRegisters (n : Nat) :
    (k.setRegisters i r).envs.nextGeneration n = k.envs.nextGeneration n :=
  EnvTable.nextGeneration_of_sameTags (SameTags.setRegisters k i r) n

theorem checks_setRegisters (c : EnvId) (w : Nat → Word) (s : Service) :
    s.checks (k.setRegisters i r) c w = s.checks k c w := by
  cases s <;>
    simp only [Service.checks, named_setRegisters, inReach_setRegisters, lends_setRegisters, room_setRegisters,
      supply_setRegisters, isReceiving_setRegisters, canTake_setRegisters, readable_setRegisters, firstFree?_setRegisters]
  rfl

theorem success_setRegisters (c : EnvId) (w : Nat → Word) (s : Service) :
    s.success (k.setRegisters i r) c w = s.success k c w := by
  cases s <;>
    simp only [Service.success, named_setRegisters, firstFree?_setRegisters, nextGeneration_setRegisters]

end entered

variable {k k' : Kernel} {c : EnvId} {e : Env}

/-- What the program learns of a dispatch. -/
theorem report_conclude {number : Word} {r : Except SysError Word × Kernel}
    (h : r.1 ≠ .error .envExit → r.2.env? c ≠ none) : (conclude c number r).1.report = .ofDispatch r.1 := by
  obtain ⟨err | ret, k⟩ := r
  · unfold conclude
    dsimp only
    by_cases hb : err = .blocked
    · rw [if_pos hb, hb]
      rfl
    · rw [if_neg hb]
      by_cases hx : err = .envExit
      · rw [if_pos hx, hx]
        rfl
      · have hc : (k.log (.callFailed c number err)).env? c ≠ none := h fun he => hx (Except.error.inj he)
        rw [if_neg hx, answer_of_env? hc, Syscall.report_of_plain ⟨hb, hx⟩]
        exact congrArg Report.result (Errno.decode_toWord _)
  · have hc : k.env? c ≠ none := h fun he => by cases he
    rw [conclude, answer_of_env? hc]
    rfl

/-- **The first check that fails is reported.**  Whatever the number and the arguments, a call of a live program reports
what the list of its checks says of the state before it. -/
theorem first_failing_check_reported (hk : k.Reachable) (hc : k.env? c ≠ none) (number : Word) (args : Vector Word 5) :
    (k.ecall c number args).1.report = k.verdict c number args := by
  obtain ⟨e, he⟩ := Option.ne_none_iff_exists'.1 hc
  have hk₀ := hk.sound.setRegisters c (e.regs.called number args)
  have hc₀ : (k.setRegisters c (e.regs.called number args)).env? c ≠ none :=
    env?_of_sameTags (.setRegisters k c (e.regs.called number args)) hc
  rw [ecall_eq he, SyscallTable.dispatch, SyscallTable.standard_handler, verdict]
  cases Service.all.find? fun s => s.number == number.toNat with
  | none => exact report_conclude fun _ => hc₀
  | some s =>
    have hargs (x : Nat) (hx : x < 5) : (argsOf (e.regs.called number args)).word x = argument args x := by
      rw [word_argsOf_called _ _ _ hx, argument_eq_getElem hx]
    have hr := Syscall.reports hc₀ hargs hk₀ s
    rw [Syscall.Reports, checks_setRegisters, success_setRegisters] at hr
    show _ = (s.success k c (argument args)).after (s.checks k c (argument args))
    rw [← hr]
    exact report_conclude fun hx => env?_of_effect (Syscall.effect _ c _ hk₀ s) hk₀ hc₀ hx

/-- A program that is short of memory shares its stack: a wide id, an address off a page boundary and unknown permission
bits at once; then one cause after the other is removed. -/
theorem first_failing_check_reported_pageMap : ∃ k c, Reachable k ∧ k.env? c ≠ none ∧
    (k.ecall c 4 #v[0x100000000, 0xEEBFD000, 0, 0x400001, 0xFFFFF007]).1.report = .result (.error .inval) ∧
    (k.ecall c 4 #v[0x100000000, 0xEEBFC000, 0, 0x400000, 7]).1.report = .result (.error .badEnv) ∧
    (k.ecall c 4 #v[0, 0xEEBFC000, 0, 0x400000, 7]).1.report = .result (.error .inval) ∧
    (k.ecall c 4 #v[0, 0xEEBFD000, 0, 0x400000, 7]).1.report = .result (.error .noMem) ∧
    (k.ecall c 4 #v[0, 0xEEBFD000, 0, 0xEEBFC000, 7]).1.report = .result (.ok 0) := by
  let k := ((ofConfig ⟨3, 1⟩).log (.booted ⟨3, 1⟩)).step (.spawn {})
  have hk : k.Reachable := .step (.boot (c := ⟨3, 1⟩) rfl) _
  have hc : k.env? ⟨0x1000⟩ ≠ none := by
    rw [← Option.isSome_iff_ne_none]
    decide +kernel
  have reports {args : Vector Word 5} {r : Report} (h : k.verdict ⟨0x1000⟩ 4 args = r) :
      (k.ecall ⟨0x1000⟩ 4 args).1.report = r := (first_failing_check_reported hk hc 4 args).trans h
  exact ⟨k, ⟨0x1000⟩, hk, hc, reports (by decide +kernel), reports (by decide +kernel), reports (by decide +kernel),
    reports (by decide +kernel), reports (by decide +kernel)⟩

end Kernel
end Exokernel
