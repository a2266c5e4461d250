import Exokernel.Proofs.Kernel.Sound
/-!
# What a call can do

Every service is split once: either it is refused and leaves no trace but in the budget and the console, or its
arguments and its steps are those of its success.  What holds of calls is derived from these cases
(`Service.effect`).
-/
namespace Exokernel

namespace Kernel

/-- The caller may act on the environment: it is itself or its child. -/
def Authorized (k : Kernel) (c : EnvId) (t : Env) : Prop := k.env? t.id = some t ∧ (t.id = c ∨ t.parent = some c)

end Kernel

namespace Syscall

variable {k : Kernel} {c : EnvId} {a : CallArgs} {t : Env} {v : VirtAddr} {p : Perm} {s : EnvStatus} {H : List Frame}

/-! ## Arguments -/

theorem env?_of_resolve {t : EnvTable} {i c : EnvId} {perm : Bool} {e : Env} (h : t.resolve i (.env c) perm = .ok e) :
    t.get? e.id = some e := by
  have get {j : EnvId} (h : t.get j = .ok e) : t.get? e.id = some e := by
    unfold EnvTable.get at h
    split at h
    · cases h
    next e' he => cases h; rwa [EnvTable.id_of_get? he]
  unfold EnvTable.resolve at h
  split at h
  · cases h
  · exact get h
  next hq => cases hq
  next hq =>
    cases hq
    split at h
    · cases h
    next hg =>
      split at h
      · cases h
      · cases h; exact get hg

theorem authorize_ok {i : EnvId} (h : authorize k c i = .ok t) : k.Authorized c t := by
  unfold authorize at h
  cases hr : k.envs.resolve i (.env c) true with
  | error e => rw [hr] at h; cases h
  | ok e =>
    rw [hr] at h
    cases h
    refine ⟨env?_of_resolve hr, ?_⟩
    unfold EnvTable.resolve at hr
    split at hr
    next hq => cases hq
    next hq =>
      cases hq
      unfold EnvTable.get at hr
      split at hr
      · cases hr
      next he => cases hr; exact Or.inl (EnvTable.id_of_get? he)
    next hq => cases hq
    next hq =>
      cases hq
      split at hr
      · cases hr
      · split at hr
        · cases hr
        next hn =>
          cases hr
          by_cases hc : t.id = c
          · exact Or.inl hc
          · right
            simpa [hc, Env.isChildOf] using hn

theorem authorizeWord_ok {w : Word} (h : authorizeWord k c w = .ok t) : k.Authorized c t := by
  unfold authorizeWord at h
  split at h
  · cases h
  · exact authorize_ok h

theorem callerEnv_ok (h : callerEnv k c = .ok t) : k.env? c = some t := by
  unfold callerEnv EnvTable.get at h
  cases hg : k.envs.get? c with
  | none => rw [hg] at h; cases h
  | some e => rw [hg] at h; cases h; exact hg

theorem bind_ok {ε α β : Type} {x : Except ε α} {f : α → Except ε β} {r : β} (h : x >>= f = .ok r) :
    ∃ y, x = .ok y ∧ f y = .ok r := by
  cases x with
  | error e => cases h
  | ok y => exact ⟨y, rfl, h⟩

theorem settable_of_checkPerm {u : Unit} (h : checkPerm p = .ok u) : p.settable := by
  unfold checkPerm at h
  split at h
  next hp => exact hp
  next => cases h

theorem pageAllocArgs_ok (h : pageAllocArgs k c a = .ok (t, v, p)) :
    decodePage (a.word 1) = .ok v ∧ decodePerm (a.word 2) = .ok p ∧ authorizeWord k c (a.word 0) = .ok t := by
  obtain ⟨v', hv, h⟩ := bind_ok h
  obtain ⟨p', hp, h⟩ := bind_ok h
  obtain ⟨u, -, h⟩ := bind_ok h
  obtain ⟨t', ht, h⟩ := bind_ok h
  cases h
  exact ⟨hv, hp, ht⟩

theorem settable_of_pageAllocArgs (h : pageAllocArgs k c a = .ok (t, v, p)) : p.settable := by
  obtain ⟨v', -, h⟩ := bind_ok h
  obtain ⟨p', -, h⟩ := bind_ok h
  obtain ⟨u, hp, h⟩ := bind_ok h
  obtain ⟨t', -, h⟩ := bind_ok h
  cases h
  exact settable_of_checkPerm hp

theorem pageUnmapArgs_ok (h : pageUnmapArgs k c a = .ok (t, v)) :
    decodePage (a.word 1) = .ok v ∧ authorizeWord k c (a.word 0) = .ok t := by
  obtain ⟨v', hv, h⟩ := bind_ok h
  obtain ⟨t', ht, h⟩ := bind_ok h
  cases h
  exact ⟨hv, ht⟩

theorem pageMapArgs_ok {pte : Pte} (h : pageMapArgs k c a = .ok (pte, t, v, p)) : ∃ sv src si di,
    decodePage (a.word 1) = .ok sv ∧ decodePage (a.word 3) = .ok v ∧ decodePerm (a.word 4) = .ok p ∧ decodeEnv (a.word 0) = .ok si ∧
    decodeEnv (a.word 2) = .ok di ∧ authorize k c si = .ok src ∧ authorize k c di = .ok t ∧
    src.space.lookup sv = some pte ∧ (p.contains .writable → pte.perm.contains .writable) := by
  obtain ⟨sv, hsv, h⟩ := bind_ok h
  obtain ⟨dv, hdv, h⟩ := bind_ok h
  obtain ⟨p', hp, h⟩ := bind_ok h
  obtain ⟨u, -, h⟩ := bind_ok h
  obtain ⟨si, hsi, h⟩ := bind_ok h
  obtain ⟨di, hdi, h⟩ := bind_ok h
  obtain ⟨src, hsrc, h⟩ := bind_ok h
  obtain ⟨dst, hdst, h⟩ := bind_ok h
  split at h
  · cases h
  next pte' hl =>
    split at h
    · cases h
    next hw =>
      cases h
      exact ⟨sv, src, si, di, hsv, hdv, hp, hsi, hdi, hsrc, hdst, hl, by simpa using hw⟩

theorem settable_of_pageMapArgs {pte : Pte} (h : pageMapArgs k c a = .ok (pte, t, v, p)) : p.settable := by
  obtain ⟨sv, -, h⟩ := bind_ok h
  obtain ⟨dv, -, h⟩ := bind_ok h
  obtain ⟨p', -, h⟩ := bind_ok h
  obtain ⟨u, hp, h⟩ := bind_ok h
  obtain ⟨si, -, h⟩ := bind_ok h
  obtain ⟨di, -, h⟩ := bind_ok h
  obtain ⟨src, -, h⟩ := bind_ok h
  obtain ⟨dst, -, h⟩ := bind_ok h
  split at h
  · cases h
  · split at h
    · cases h
    · cases h
      exact settable_of_checkPerm hp

theorem settable_of_ipcTrySendArgs {req : SendRequest} (h : ipcTrySendArgs a = .ok req) (hv : req.page = some (v, p)) :
    p.settable := by
  obtain ⟨o, -, h⟩ := bind_ok h
  cases o with
  | none =>
    obtain ⟨page, hp, h⟩ := bind_ok h
    obtain ⟨receiver, -, h⟩ := bind_ok h
    cases hp
    cases h
    cases hv
  | some w =>
    dsimp only at h
    obtain ⟨q, -, h⟩ := bind_ok h
    obtain ⟨u, hq, h⟩ := bind_ok h
    obtain ⟨page, hp, h⟩ := bind_ok h
    obtain ⟨receiver, -, h⟩ := bind_ok h
    cases hp
    cases h
    cases hv
    exact settable_of_checkPerm hq

theorem envSetStatusArgs_ok (h : envSetStatusArgs k c a = .ok (t, s)) :
    EnvStatus.ofCode? (a.word 1).toNat = some s ∧ authorizeWord k c (a.word 0) = .ok t ∧ (s = .runnable ∨ s = .notRunnable) := by
  unfold envSetStatusArgs at h
  split at h
  · cases h
  next hc =>
    split at h
    next hs =>
      cases ht : authorizeWord k c (a.word 0) with
      | error e => rw [ht] at h; cases h
      | ok t' =>
        rw [ht] at h
        cases h
        exact ⟨hc, rfl, hs⟩
    · cases h

theorem authorizeWord_of_envSetTrapframeArgs {bytes : Bytes} (h : envSetTrapframeArgs k c a = .ok (t, bytes)) :
    authorizeWord k c (a.word 0) = .ok t := by
  obtain ⟨t', ht, h⟩ := bind_ok h
  obtain ⟨me, -, h⟩ := bind_ok h
  split at h
  · cases h
  · cases h
    exact ht

theorem envSetTrapframeArgs_ok {bytes : Bytes} (h : envSetTrapframeArgs k c a = .ok (t, bytes)) :
    k.Authorized c t :=
  authorizeWord_ok (authorizeWord_of_envSetTrapframeArgs h)

/-! ## Sending -/

theorem offer_some {f : Frame} {page : Option (VirtAddr × Perm)} (h : k.offer c page = .ok (some (f, p))) :
    ∃ e v pte, k.env? c = some e ∧ page = some (v, p) ∧ e.space.lookup v = some pte ∧
      (p.contains .writable → pte.perm.contains .writable) ∧ pte.frame = f := by
  unfold Kernel.offer at h
  split at h
  · cases h
  next v p' =>
    split at h
    · cases h
    next e he =>
      split at h
      · cases h
      next pte hl =>
        split at h
        · cases h
        next hw =>
          cases h
          exact ⟨e, v, pte, he, rfl, hl, by simpa using hw, rfl⟩

theorem offer_none {page : Option (VirtAddr × Perm)} (h : k.offer c page = .ok none) : page = none := by
  unfold Kernel.offer at h
  split at h
  · rfl
  · split at h
    · cases h
    · split at h
      · cases h
      · split at h <;> cases h

theorem checkSend_ok {req : SendRequest} {offered : Option (Frame × Perm)} (h : k.checkSend c req = .ok (t, offered)) :
    k.env? t.id = some t ∧ t.mailbox.receiving ∧ k.offer c req.page = .ok offered := by
  unfold Kernel.checkSend at h
  split at h
  · cases h
  next r hr =>
    split at h
    · cases h
    next o ho =>
      split at h
      next hrec =>
        cases h
        exact ⟨env?_of_resolve hr, hrec, ho⟩
      · cases h

theorem transfer_ok {k' : Kernel} {offered : Option (Frame × Perm)} (h : k.transfer t offered = (.ok p, k')) :
    (k' = k ∧ p = .empty ∧ (offered = none ∨ t.mailbox.target = none)) ∨
    ∃ f v, offered = some (f, p) ∧ t.mailbox.target = some v ∧ k.mapInto t f v p = (.ok (), k') := by
  unfold Kernel.transfer at h
  cases offered with
  | none => cases h; exact Or.inl ⟨rfl, rfl, Or.inl rfl⟩
  | some o =>
    cases ht : t.mailbox.target with
    | none => rw [ht] at h; cases h; exact Or.inl ⟨rfl, rfl, Or.inr rfl⟩
    | some v =>
      simp only [ht] at h
      split at h
      · cases h
      next hm => cases h; exact Or.inr ⟨o.1, v, rfl, rfl, hm⟩

theorem bare_transfer_error {k' : Kernel} {offered : Option (Frame × Perm)} {err : MapError}
    (hf : ∀ f p, offered = some (f, p) → 0 < k.machine.refs f) (h : k.transfer t offered = (.error err, k')) :
    k'.bare = k.bare := by
  unfold Kernel.transfer at h
  split at h
  next f q v ht =>
    split at h
    next hm => cases h; exact Kernel.bare_mapInto_error (hf f q rfl) hm
    · cases h
  next => cases h

/-! ## Refusals -/

/-- A call can fail so and return: the caller is neither blocked nor gone. -/
def Plain (err : SysError) : Prop := err ≠ .blocked ∧ err ≠ .envExit

/-- Whatever fails here fails so that the call returns. -/
def Refuses {α : Type} (x : Except SysError α) : Prop := ∀ err, x = .error err → Plain err

theorem refuses_ok {α : Type} (r : α) : Refuses (.ok r) := fun _ h => by cases h

theorem refuses_error {α : Type} {err : SysError} (h : Plain err) : Refuses (.error err : Except SysError α) :=
  fun _ e => by cases e; exact h

theorem refuses_bind {α β : Type} {x : Except SysError α} {f : α → Except SysError β} (hx : Refuses x)
    (hf : ∀ r, Refuses (f r)) : Refuses (x >>= f) := by
  intro err h
  cases x with
  | error e => cases h; exact hx _ rfl
  | ok r => exact hf r err h

theorem refuses_decodeEnv (w : Word) : Refuses (decodeEnv w) := by
  unfold decodeEnv
  split
  · exact refuses_error (by simp [Plain])
  · exact refuses_ok _

theorem refuses_decodePage (w : Word) : Refuses (decodePage w) := by
  unfold decodePage
  split
  · exact refuses_error (by simp [Plain])
  · exact refuses_ok _

theorem refuses_decodeOptionalPage (w : Word) : Refuses (decodeOptionalPage w) := by
  unfold decodeOptionalPage
  split
  · exact refuses_ok _
  · intro err h
    cases hd : decodePage w with
    | error e => rw [hd] at h; cases h; exact refuses_decodePage w _ hd
    | ok v => rw [hd] at h; cases h

theorem refuses_decodePerm (w : Word) : Refuses (decodePerm w) := by
  unfold decodePerm
  split
  · exact refuses_error (by simp [Plain])
  · exact refuses_ok _

theorem refuses_checkPerm (p : Perm) : Refuses (checkPerm p) := by
  unfold checkPerm
  split
  · exact refuses_ok _
  · exact refuses_error (by simp [Plain])

theorem refuses_mapError {α : Type} (x : Except EnvError α) : Refuses (x.mapError .env) := by
  intro err h
  cases x with
  | error e => cases h; simp [Plain]
  | ok r => cases h

theorem refuses_authorizeWord (k : Kernel) (c : EnvId) (w : Word) : Refuses (authorizeWord k c w) := by
  unfold authorizeWord
  cases hi : decodeEnv w with
  | error e => exact refuses_error (refuses_decodeEnv w e hi)
  | ok i => exact refuses_mapError _

theorem refuses_pageAllocArgs (k : Kernel) (c : EnvId) (a : CallArgs) : Refuses (pageAllocArgs k c a) :=
  refuses_bind (refuses_decodePage _) fun _ => refuses_bind (refuses_decodePerm _) fun _ =>
    refuses_bind (refuses_checkPerm _) fun _ => refuses_bind (refuses_authorizeWord _ _ _) fun _ => refuses_ok _

theorem refuses_pageMapArgs (k : Kernel) (c : EnvId) (a : CallArgs) : Refuses (pageMapArgs k c a) := by
  refine refuses_bind (refuses_decodePage _) fun _ => refuses_bind (refuses_decodePage _) fun _ =>
    refuses_bind (refuses_decodePerm _) fun _ => refuses_bind (refuses_checkPerm _) fun _ =>
    refuses_bind (refuses_decodeEnv _) fun _ => refuses_bind (refuses_decodeEnv _) fun _ =>
    refuses_bind (refuses_mapError _) fun _ => refuses_bind (refuses_mapError _) fun _ => ?_
  split
  · exact refuses_error (by simp [Plain])
  · split
    · exact refuses_error (by simp [Plain])
    · exact refuses_ok _

theorem refuses_pageUnmapArgs (k : Kernel) (c : EnvId) (a : CallArgs) : Refuses (pageUnmapArgs k c a) :=
  refuses_bind (refuses_decodePage _) fun _ => refuses_bind (refuses_authorizeWord _ _ _) fun _ => refuses_ok _

theorem refuses_envSetStatusArgs (k : Kernel) (c : EnvId) (a : CallArgs) : Refuses (envSetStatusArgs k c a) := by
  unfold envSetStatusArgs
  split
  · exact refuses_error (by simp [Plain])
  · split
    · intro err h
      cases ht : authorizeWord k c (a.word 0) with
      | error e => rw [ht] at h; cases h; exact refuses_authorizeWord _ _ _ _ ht
      | ok t => rw [ht] at h; cases h
    · exact refuses_error (by simp [Plain])

theorem refuses_envSetTrapframeArgs (k : Kernel) (c : EnvId) (a : CallArgs) : Refuses (envSetTrapframeArgs k c a) := by
  refine refuses_bind (refuses_authorizeWord _ _ _) fun _ => refuses_bind (refuses_mapError _) fun _ => ?_
  split
  · exact refuses_error (by simp [Plain])
  · exact refuses_ok _

theorem refuses_ipcTrySendArgs (a : CallArgs) : Refuses (ipcTrySendArgs a) := by
  refine refuses_bind (refuses_decodeOptionalPage _) fun o => ?_
  cases o with
  | none => exact refuses_bind (refuses_ok _) fun _ => refuses_bind (refuses_decodeEnv _) fun _ => refuses_ok _
  | some v =>
    exact refuses_bind (refuses_decodePerm _) fun _ => refuses_bind (refuses_checkPerm _) fun _ =>
      refuses_bind (refuses_ok _) fun _ => refuses_bind (refuses_decodeEnv _) fun _ => refuses_ok _

/-! ## Cases -/

/-- **What a call of a service can do**, with its answer and the state after it. -/
inductive Effect (k : Kernel) (c : EnvId) (a : CallArgs) : Service → Except SysError Word → Kernel → Prop where
  | refused {s : Service} {err : SysError} {k' : Kernel} (h : k'.bare = k.bare) (hp : Plain err) :
      Effect k c a s (.error err) k'
  | named : Effect k c a .getEnvId (.ok c.toWord) k
  | destroyed {t : Env} {k₁ : Kernel} (ht : authorizeWord k c (a.word 0) = .ok t) (h : k.destroyEnv t.id = (.ok (), k₁)) :
      Effect k c a .envDestroy (if t.id = c then .error .envExit else .ok 0)
        (k₁.log (if t.id = c then .exiting t.id else .destroying c t.id))
  | allocated {t : Env} {v : VirtAddr} {p : Perm} {f : Frame} {k₁ k₂ : Kernel}
      (ha : pageAllocArgs k c a = .ok (t, v, p)) (hf : k.allocFrame = (some f, k₁))
      (hm : k₁.mapInto t f v p = (.ok (), k₂)) : Effect k c a .pageAlloc (.ok 0) (k₂.releaseFrame f)
  | mapped {pte : Pte} {t : Env} {v : VirtAddr} {p : Perm} {k₁ : Kernel} (ha : pageMapArgs k c a = .ok (pte, t, v, p))
      (hm : k.mapInto t pte.frame v p = (.ok (), k₁)) : Effect k c a .pageMap (.ok 0) k₁
  | unmapped {t : Env} {v : VirtAddr} (ha : pageUnmapArgs k c a = .ok (t, v)) :
      Effect k c a .pageUnmap (.ok 0) (k.unmapFrom t v)
  | forked {parent : Env} {child : EnvId} {k₁ : Kernel} (hp : k.env? c = some parent)
      (h : k.createEnv (some c) = (.ok child, k₁)) :
      Effect k c a .exofork (.ok child.toWord)
        ((k₁.setRegisters child (parent.regs.setA0 0)).log (.exoforked c child))
  | statusSet {t : Env} {s : EnvStatus} (ha : envSetStatusArgs k c a = .ok (t, s)) :
      Effect k c a .envSetStatus (.ok 0) { k.setStatus t.id s with
        scheduler := if s = .runnable then k.scheduler.enqueue t.id else k.scheduler.remove t.id }
  | registersSet {t : Env} {bytes : Bytes} (ha : envSetTrapframeArgs k c a = .ok (t, bytes)) :
      Effect k c a .envSetTrapframe (.ok 0) (k.setRegisters t.id (registersOf bytes).forUser)
  | upcallSet {t : Env} (ha : authorizeWord k c (a.word 0) = .ok t) :
      Effect k c a .envSetPgfaultUpcall (.ok 0) (k.modifyEnv t.id fun e => { e with upcall := some (a.word 1) })
  | passed {e : Env} (he : k.env? c = some e) (hq : k.scheduler.yieldCurrent.queue = []) :
      Effect k c a .yield (.ok 0) { k.setStatus c .runnable with scheduler := k.scheduler.yieldCurrent }
  | yielded {e : Env} {next : EnvId} {rest : List EnvId} (he : k.env? c = some e)
      (hq : k.scheduler.yieldCurrent.queue = next :: rest) :
      Effect k c a .yield (.ok 0)
        (Kernel.setStatus { k.setStatus c .runnable with scheduler := { queue := rest, current := some next } } next
          .running)
  | sent {req : SendRequest} {t : Env} {offered : Option (Frame × Perm)} {p : Perm} {k₁ : Kernel}
      (ha : ipcTrySendArgs a = .ok req) (hs : k.checkSend c req = .ok (t, offered))
      (ht : k.transfer t offered = (.ok p, k₁)) :
      Effect k c a .ipcTrySend (.ok 0) ((k₁.wake t.id c req.value p).log (.delivered c t.id req.value p))
  | waiting {e : Env} {target : Option VirtAddr} (ha : decodeOptionalPage (a.word 0) = .ok target) (he : k.env? c = some e) :
      Effect k c a .ipcRecv (.error .blocked)
        { k.modifyEnv c fun e => { e with mailbox := e.mailbox.await target, status := .notRunnable } with
          scheduler := k.scheduler.remove c }

section effect
variable (k : Kernel) (c : EnvId) (a : CallArgs)

theorem envDestroy_effect : Effect k c a .envDestroy (envDestroy k c a).1 (envDestroy k c a).2 := by
  unfold envDestroy
  cases ha : authorizeWord k c (a.word 0) with
  | error e => exact .refused rfl (refuses_authorizeWord _ _ _ _ ha)
  | ok t =>
    have ht := (authorizeWord_ok ha).1
    have h := Effect.destroyed ha (Kernel.destroyEnv_of_env? ht)
    simp only [Kernel.destroyEnv_of_env? ht]
    split
    next e => simpa only [if_pos e] using h
    next e => simpa only [if_neg e] using h

theorem pageAlloc_effect (hk : k.Sound H) : Effect k c a .pageAlloc (pageAlloc k c a).1 (pageAlloc k c a).2 := by
  unfold pageAlloc
  cases ha : pageAllocArgs k c a with
  | error e => exact .refused rfl (refuses_pageAllocArgs _ _ _ _ ha)
  | ok r =>
    obtain ⟨t, v, p⟩ := r
    cases hf : k.allocFrame with
    | mk o k₁ =>
      cases o with
      | none => exact .refused (Kernel.bare_allocFrame_none hf) (by simp [Plain])
      | some f =>
        cases hm : k₁.mapInto t f v p with
        | mk r k₂ =>
          cases r with
          | error e =>
            simp only [hm]
            refine .refused (Kernel.bare_releaseFrame_allocFrame hk hf (Kernel.bare_mapInto_error ?_ hm)) (by simp [Plain])
            exact (hk.allocFrame hf).refs_pos (List.mem_append_right _ List.mem_cons_self)
          | ok u =>
            simp only [hm]
            exact .allocated ha hf hm

theorem pageMap_effect (hk : k.Sound H) : Effect k c a .pageMap (pageMap k c a).1 (pageMap k c a).2 := by
  unfold pageMap
  cases ha : pageMapArgs k c a with
  | error e => exact .refused rfl (refuses_pageMapArgs _ _ _ _ ha)
  | ok r =>
    obtain ⟨pte, t, v, p⟩ := r
    cases hm : k.mapInto t pte.frame v p with
    | mk r k₁ =>
      cases r with
      | error e =>
        obtain ⟨sv, src, si, -, -, -, -, -, -, hsrc, -, hl, -⟩ := pageMapArgs_ok ha
        simp only [hm]
        exact .refused (Kernel.bare_mapInto_error (hk.refs_pos_of_lookup (authorize_ok hsrc).1 hl) hm) (by simp [Plain])
      | ok u =>
        simp only [hm]
        exact .mapped ha hm

theorem pageUnmap_effect : Effect k c a .pageUnmap (pageUnmap k c a).1 (pageUnmap k c a).2 := by
  unfold pageUnmap
  cases ha : pageUnmapArgs k c a with
  | error e => exact .refused rfl (refuses_pageUnmapArgs _ _ _ _ ha)
  | ok r => exact .unmapped ha

theorem exofork_effect (hk : k.Sound H) : Effect k c a .exofork (exofork k c a).1 (exofork k c a).2 := by
  unfold exofork
  cases hp : callerEnv k c with
  | error e => exact .refused rfl (refuses_mapError _ _ hp)
  | ok parent =>
    cases h : k.createEnv (some c) with
    | mk r k₁ =>
      cases r with
      | error e => exact .refused (Kernel.bare_createEnv_error h) (by simp [Plain])
      | ok child =>
        obtain ⟨-, f, hf⟩ := Kernel.env?_createEnv hk h
        have hc := hf child
        rw [if_pos rfl] at hc
        simp only [hc]
        exact .forked (callerEnv_ok hp) h

theorem envSetStatus_effect : Effect k c a .envSetStatus (envSetStatus k c a).1 (envSetStatus k c a).2 := by
  unfold envSetStatus
  cases ha : envSetStatusArgs k c a with
  | error e => exact .refused rfl (refuses_envSetStatusArgs _ _ _ _ ha)
  | ok r => exact .statusSet ha

theorem envSetTrapframe_effect :
    Effect k c a .envSetTrapframe (envSetTrapframe k c a).1 (envSetTrapframe k c a).2 := by
  unfold envSetTrapframe
  cases ha : envSetTrapframeArgs k c a with
  | error e => exact .refused rfl (refuses_envSetTrapframeArgs _ _ _ _ ha)
  | ok r => exact .registersSet ha

theorem envSetPgfaultUpcall_effect :
    Effect k c a .envSetPgfaultUpcall (envSetPgfaultUpcall k c a).1 (envSetPgfaultUpcall k c a).2 := by
  unfold envSetPgfaultUpcall
  cases ha : authorizeWord k c (a.word 0) with
  | error e => exact .refused rfl (refuses_authorizeWord _ _ _ _ ha)
  | ok t => exact .upcallSet ha

theorem yield_effect : Effect k c a .yield (yield k c a).1 (yield k c a).2 := by
  unfold yield
  cases he : callerEnv k c with
  | error e => exact .refused rfl (refuses_mapError _ _ he)
  | ok e =>
    have he := callerEnv_ok he
    have hs : (k.setStatus c .runnable).scheduler = k.scheduler := rfl
    simp only [hs, Scheduler.scheduleNext]
    cases hq : k.scheduler.yieldCurrent.queue with
    | nil => exact .passed he hq
    | cons next rest => exact .yielded he hq

theorem ipcTrySend_effect (hk : k.Sound H) : Effect k c a .ipcTrySend (ipcTrySend k c a).1 (ipcTrySend k c a).2 := by
  unfold ipcTrySend
  cases ha : ipcTrySendArgs a with
  | error e => exact .refused rfl (refuses_ipcTrySendArgs _ _ ha)
  | ok req =>
    cases hs : k.checkSend c req with
    | error e =>
      have h : k.send c req = (.error e, k) := by rw [Kernel.send, hs]
      simp only [h]
      exact .refused rfl (by simp [Plain])
    | ok r =>
      obtain ⟨t, offered⟩ := r
      obtain ⟨-, -, ho⟩ := checkSend_ok hs
      cases ht : k.transfer t offered with
      | mk r k₁ =>
        cases r with
        | error e =>
          have h : k.send c req = (.error (.map e), k₁) := by simp only [Kernel.send, hs, ht]
          simp only [h]
          refine .refused (bare_transfer_error (fun f p hfp => ?_) ht) (by simp [Plain])
          subst hfp
          obtain ⟨e, v, pte, he, -, hl, -, rfl⟩ := offer_some ho
          exact hk.refs_pos_of_lookup he hl
        | ok p =>
          have h : k.send c req = (.ok (), (k₁.wake t.id c req.value p).log (.delivered c t.id req.value p)) := by
            simp only [Kernel.send, hs, ht]
          simp only [h]
          exact .sent ha hs ht

theorem ipcRecv_effect : Effect k c a .ipcRecv (ipcRecv k c a).1 (ipcRecv k c a).2 := by
  unfold ipcRecv
  cases ha : decodeOptionalPage (a.word 0) with
  | error e => exact .refused rfl (refuses_decodeOptionalPage _ _ ha)
  | ok target =>
    unfold Kernel.receive
    cases he : k.env? c with
    | none => exact .refused rfl (by simp [Plain])
    | some e => exact .waiting ha he

/-- **A call of a service does what its cases say.** -/
theorem effect (hk : k.Sound H) (s : Service) : Effect k c a s (s.handler k c a).1 (s.handler k c a).2 := by
  cases s with
  | getEnvId => exact .named
  | envDestroy => exact envDestroy_effect k c a
  | pageAlloc => exact pageAlloc_effect k c a hk
  | pageMap => exact pageMap_effect k c a hk
  | pageUnmap => exact pageUnmap_effect k c a
  | exofork => exact exofork_effect k c a hk
  | envSetStatus => exact envSetStatus_effect k c a
  | envSetTrapframe => exact envSetTrapframe_effect k c a
  | envSetPgfaultUpcall => exact envSetPgfaultUpcall_effect k c a
  | yield => exact yield_effect k c a
  | ipcTrySend => exact ipcTrySend_effect k c a hk
  | ipcRecv => exact ipcRecv_effect k c a

end effect

end Syscall

/-! ## Dispatch -/

namespace SyscallTable

theorem standard_handler (n : Nat) :
    standard.handlers[n]?.bind id = (Service.all.find? fun s => s.number == n).map Service.handler := by
  match n with
  | 0 | 1 | 2 | 3 | 4 | 5 | 6 | 7 | 8 | 9 | 10 | 11 | 12 | 13 | 14 | 15 | 16 | 17 | 18 | 19 | 20 | 21 | 22 | 23 | 24 | 25
  | 26 | 27 | 28 | 29 | 30 | 31 => rfl
  | n + 32 =>
    have hf : (Service.all.find? fun s => s.number == n + 32) = none := by
      rw [List.find?_eq_none]
      intro s _
      cases s <;> simp [Service.number]
    rw [hf, Vector.getElem?_eq_none (by omega)]
    rfl

theorem dispatch_standard (n : Nat) (k : Kernel) (c : EnvId) (a : CallArgs) :
    standard.dispatch n k c a = (.error .invalidSyscall, k) ∨
    ∃ s : Service, s.number = n ∧ standard.dispatch n k c a = s.handler k c a := by
  unfold dispatch
  rw [standard_handler]
  cases hf : Service.all.find? fun s => s.number == n with
  | none => exact Or.inl rfl
  | some s => exact Or.inr ⟨s, by simpa using List.find?_some hf, rfl⟩

theorem dispatch_number (s : Service) : standard.dispatch s.number = s.handler := by cases s <;> rfl

end SyscallTable
end Exokernel
