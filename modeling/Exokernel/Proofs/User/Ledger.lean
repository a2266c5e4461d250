import Exokernel.Proofs.Kernel.Ledger
import Exokernel.Proofs.Syscall.Verdict
import Exokernel.Proofs.User.Works
/-!
# What calls need and what they leave

The calls by which a program maps its own pages fail for the lack of a frame only, and what they need is known beforehand.
A call that succeeds changes the holds of the frame that it maps and of the one that gives way, and nobody but the caller
has other registers then.
-/
namespace Exokernel

/-- Nobody is ended by the service, nor told where to go on. -/
def Service.spares : Service → Bool
  | .pageAlloc | .pageMap | .pageUnmap | .exofork | .envSetStatus | .getEnvId => true
  | _ => false

theorem Report.after_result_ne_blocked {r : Except Errno Word} (checks : List Check) :
    (Report.result r).after checks ≠ .blocked ∧ (Report.result r).after checks ≠ .exited := by
  induction checks with
  | nil => exact ⟨by rintro ⟨⟩, by rintro ⟨⟩⟩
  | cons c rest ih =>
    rw [Report.after]
    split
    · exact ih
    · exact ⟨by rintro ⟨⟩, by rintro ⟨⟩⟩

namespace Kernel

variable {k k' k₁ : Kernel} {i j t s : EnvId} {x : Call} {sp w va sva : Word} {v sv : VirtAddr} {p : Perm} {g : Frame} {q : Pte}
  {r : Except Errno Word}

/-! ## Whether a call succeeds -/

/-- **The result of a call** is the one that its checks say, if it is one that returns. -/
theorem result_of_call (hk : k.Sound []) (hc : k.env? i ≠ none) (x : Call) {r : Except Errno Word}
    (hx : x.service.success k i (argument x.args) = .result r) :
    Report.result (k.call i x).1 = (Report.result r).after (x.service.checks k i (argument x.args)) := by
  obtain ⟨e, he⟩ := Option.ne_none_iff_exists'.1 hc
  have hn : x.service.number.toUInt64.toNat = x.service.number := by cases x <;> rfl
  have hk₀ := hk.setRegisters i (e.regs.called x.service.number.toUInt64 x.args)
  have hc₀ : (k.setRegisters i (e.regs.called x.service.number.toUInt64 x.args)).env? i ≠ none :=
    env?_of_sameTags (.setRegisters k i _) hc
  have hargs (n : Nat) (h : n < 5) :
      (argsOf (e.regs.called x.service.number.toUInt64 x.args)).word n = argument x.args n := by
    rw [word_argsOf_called _ _ _ h, argument_eq_getElem h]
  have hreports := Syscall.reports hc₀ hargs hk₀ x.service
  rw [Syscall.Reports, checks_setRegisters, success_setRegisters, hx] at hreports
  have heff := Syscall.effect _ i (argsOf (e.regs.called x.service.number.toUInt64 x.args)) hk₀ x.service
  have hreport : (conclude i x.service.number.toUInt64 _).1.report = _ :=
    report_conclude fun hx => env?_of_effect heff hk₀ hc₀ hx
  rw [hreports] at hreport
  obtain ⟨hblocked, hexited⟩ := Report.after_result_ne_blocked (r := r) (x.service.checks k i (argument x.args))
  rw [call_eq, ecall_eq he, hn, SyscallTable.dispatch_number]
  rw [← hreport] at hblocked hexited ⊢
  generalize conclude i _ _ = y at hblocked hexited ⊢
  obtain ⟨⟨ret⟩ | _ | _, k₁⟩ := y
  · rfl
  · exact absurd rfl hblocked
  · exact absurd rfl hexited

theorem inReach_self (i : EnvId) : k.inReach i EnvId.self.toWord = some i := by
  have h : EnvId.self.toWord = 0 := by decide
  rw [h, inReach, named, if_pos rfl, Option.filter_some, if_pos (by simp)]

theorem isPage_of_pageOfNat? (h : VirtAddr.pageOfNat? va.toNat = some v) : va.isPage = true := by
  obtain ⟨hr, ha⟩ := VirtAddr.pageOfNat?_eq_some_iff.1 h
  have hlt := v.raw_lt
  rw [hr] at hlt
  simp [Word.isPage, hlt, ha]

section self
variable (hk : k.Sound []) (hc : k.env? i ≠ none)
include hk hc

/-- **A page of zeros for oneself**: there has to be a frame for it, and one for its page-table page if there is none. -/
theorem result_pageAlloc_self (hv : VirtAddr.pageOfNat? va.toNat = some v) :
    (k.call i (.pageAlloc .self va .userWritable)).1 =
      if 1 + k.room i va.toNat ≤ k.supply then .ok 0 else .error .noMem := by
  have hres := result_of_call hk hc (.pageAlloc .self va .userWritable) rfl
  have h₀ : argument (Call.pageAlloc .self va .userWritable).args 0 = EnvId.self.toWord := rfl
  have h₁ : argument (Call.pageAlloc .self va .userWritable).args 1 = va := rfl
  have h₂ : argument (Call.pageAlloc .self va .userWritable).args 2 = Perm.userWritable.toWord := rfl
  have hset : Perm.userWritable.toWord.isSettable = true := by decide
  refine Report.result.inj (hres.trans ?_)
  simp only [Call.service, Service.checks, Report.after, h₀, h₁, h₂, inReach_self, isPage_of_pageOfNat? hv, hset, if_true,
    Option.isSome_some, Option.any_some, decide_eq_true_eq]
  split <;> rfl

/-- **A page of one's own at another address**: it has to be writable where it is, and there has to be a frame for the
page-table page that it needs. -/
theorem result_pageMap_self (hsv : VirtAddr.pageOfNat? sva.toNat = some sv) (hv : VirtAddr.pageOfNat? va.toNat = some v)
    (hq : k.mappings i sv = some q) (hw : q.perm.contains .writable) :
    (k.call i (.pageMap .self sva .self va .userWritable)).1 =
      if k.room i va.toNat ≤ k.supply then .ok 0 else .error .noMem := by
  have hres := result_of_call hk hc (.pageMap .self sva .self va .userWritable) rfl
  have h₀ : argument (Call.pageMap .self sva .self va .userWritable).args 0 = EnvId.self.toWord := rfl
  have h₁ : argument (Call.pageMap .self sva .self va .userWritable).args 1 = sva := rfl
  have h₂ : argument (Call.pageMap .self sva .self va .userWritable).args 2 = EnvId.self.toWord := rfl
  have h₃ : argument (Call.pageMap .self sva .self va .userWritable).args 3 = va := rfl
  have h₄ : argument (Call.pageMap .self sva .self va .userWritable).args 4 = Perm.userWritable.toWord := rfl
  have hset : Perm.userWritable.toWord.isSettable = true := by decide
  have hlends : k.lends i sva Perm.userWritable.toWord = true := by
    obtain ⟨hraw, -⟩ := VirtAddr.pageOfNat?_eq_some_iff.1 hsv
    rw [lends, Mappings.entryAt, VirtAddr.ofNat?_eq_some_iff.2 hraw, Option.bind_some, hq, Option.any_some, hw,
      Bool.or_true]
  refine Report.result.inj (hres.trans ?_)
  simp only [Call.service, Service.checks, Report.after, h₀, h₁, h₂, h₃, h₄, inReach_self, isPage_of_pageOfNat? hsv,
    isPage_of_pageOfNat? hv, hset, hlends, if_true, Option.isSome_some, Option.any_some, decide_eq_true_eq]
  split <;> rfl

/-- **Nothing keeps a program from unmapping a page.** -/
theorem result_pageUnmap_self (hv : VirtAddr.pageOfNat? va.toNat = some v) :
    (k.call i (.pageUnmap .self va)).1 = .ok 0 := by
  have hres := result_of_call hk hc (.pageUnmap .self va) rfl
  have h₀ : argument (Call.pageUnmap .self va).args 0 = EnvId.self.toWord := rfl
  have h₁ : argument (Call.pageUnmap .self va).args 1 = va := rfl
  refine Report.result.inj (hres.trans ?_)
  simp only [Call.service, Service.checks, Report.after, h₀, h₁, inReach_self, isPage_of_pageOfNat? hv, if_true,
    Option.isSome_some]

end self

/-- A page that is mapped has its page-table page. -/
theorem room_of_mappings (hv : VirtAddr.pageOfNat? va.toNat = some v) (h : k.mappings t v = some q) :
    k.room t va.toNat = 0 := by
  obtain ⟨e, he, hl⟩ := Option.bind_eq_some_iff.1 h
  obtain ⟨hraw, -⟩ := VirtAddr.pageOfNat?_eq_some_iff.1 hv
  rw [room, he, Option.any_some, VirtAddr.ofNat?_eq_some_iff.2 hraw, Option.any_some, if_pos]
  have hl : e.space.table.lookup v = some q := hl
  unfold PageTable.lookup at hl
  split at hl
  · cases hl
  next page hp =>
    rw [show e.space.table.dir.get v.dirIndex = some page from hp]
    rfl

/-! ## What a call leaves -/

/-- **Only the caller has other registers after its call.** -/
theorem call_selfSame (hk : k.Sound []) (hx : Service.spares x.service) (h : k.call i x = (r, k')) :
    k.SelfSame k' i := by
  have hq : k.SelfSame (k.call i x).2 i := by
    refine call_induction (Q := fun k' => k.SelfSame k' i) hk i x (.refl k i) (fun e out k₁ _ heff _ => ?_)
      (fun _ _ hs => hs.trans (.of_eq rfl i)) fun _ ret hs => hs.trans (.answered _ i ret)
    refine (SelfSame.setRegisters k i (e.regs.called x.service.number.toUInt64 x.args)).trans ?_
    have hk₀ := hk.setRegisters i (e.regs.called x.service.number.toUInt64 x.args)
    generalize k.setRegisters i (e.regs.called x.service.number.toUInt64 x.args) = k₀ at heff hk₀ ⊢
    generalize argsOf (e.regs.called x.service.number.toUInt64 x.args) = a at heff
    generalize x.service = s at heff hx
    cases heff with
    | refused hb => exact .of_eq (envs_of_bare hb) i
    | named => exact .refl _ i
    | @allocated te v p f k₂ k₃ ha hf hm =>
      obtain ⟨m, -, rfl⟩ := allocFrame_some hf
      exact (SelfSame.of_eq rfl i).trans ((SelfSame.mapInto hm i).trans (.of_eq rfl i))
    | mapped ha hm => exact .mapInto hm i
    | unmapped ha => exact .unmapFrom k₀ _ _ i
    | @forked parent child k₂ hp hc =>
      obtain ⟨hnone, f, henv⟩ := env?_createEnv hk₀ hc
      intro l e₂ he₂
      have hl : child ≠ l := by
        rintro rfl
        rw [hnone] at he₂
        cases he₂
      exact ⟨e₂, by rw [env?_log, env?_setRegisters_of_ne _ _ hl, henv, if_neg hl, he₂], rfl, rfl, fun _ => rfl⟩
    | statusSet ha => exact (SelfSame.setStatus k₀ _ _ i).trans (.of_eq rfl i)
    | _ => cases hx
  rwa [h] at hq

theorem callAll_selfSame {calls : List Call} (hk : k.Sound []) (hc : ∀ x ∈ calls, Service.spares x.service)
    {r : Except Errno Unit} (h : k.callAll i calls = (r, k')) : k.SelfSame k' i := by
  induction calls generalizing k with
  | nil =>
    cases h
    exact .refl _ i
  | cons x rest ih =>
    rcases callAll_cons_cases h with ⟨err, hx, -⟩ | ⟨w, k₁, hx, h⟩
    all_goals have hs := call_selfSame hk (hc x List.mem_cons_self) hx
    · exact hs
    · exact hs.trans (ih (sound_of_call hk hx) (fun y hy => hc y (List.mem_cons_of_mem _ hy)) h)

theorem sharePageCalls_spares (child : EnvId) (va : Word) (p : Perm) :
    ∀ x ∈ sharePageCalls child va p, Service.spares x.service := by
  unfold sharePageCalls
  split <;> simp [Call.service, Service.spares]

/-- **A call that succeeds is its service**, between the registers that are set before and after. -/
theorem effect_of_call_ok (hk : k.Sound []) (haw : x.awaited = none) (h : k.call i x = (.ok w, k')) :
    ∃ e ret k₁, k.env? i = some e ∧
      Syscall.Effect (k.setRegisters i (e.regs.called x.service.number.toUInt64 x.args)) i
        (argsOf (e.regs.called x.service.number.toUInt64 x.args)) x.service (.ok ret) k₁ ∧
      Errno.decode ret = .ok w ∧ k' = k₁.modifyEnv i fun e => { e with regs := e.regs.setA0 ret } := by
  obtain ⟨-, hend | ⟨e, r, k₁, he, heff, ⟨ret, rfl, hret, hk'⟩ | ⟨rfl, -⟩⟩⟩ := call_ok hk h
  · rw [haw] at hend
    cases hend
  · exact ⟨e, ret, k₁, he, heff, hret, hk'⟩
  · obtain ⟨hs, -⟩ := heff.waits rfl
    obtain ⟨o, rfl⟩ : ∃ o, x = .recv o := by cases x <;> first | exact ⟨_, rfl⟩ | cases hs
    cases haw

/-- The same pages are mapped in the same frames of the same machine. -/
structure SamePages (k k' : Kernel) : Prop where
  machine : k'.machine = k.machine
  mappings : k'.mappings = k.mappings
  loose (g : Frame) : k'.Loose g ↔ k.Loose g

theorem SamePages.modifyEnv {f : Env → Env} (hid : ∀ e, (f e).id = e.id) (hs : ∀ e, (f e).space = e.space) :
    k.SamePages (k.modifyEnv i f) :=
  ⟨rfl, mappings_modifyEnv hid hs, fun _ => loose_modifyEnv hs⟩

theorem SamePages.trans (h : k.SamePages k₁) (h' : k₁.SamePages k') : k.SamePages k' :=
  ⟨h'.machine.trans h.machine, h'.mappings.trans h.mappings, fun g => (h'.loose g).trans (h.loose g)⟩

theorem SamePages.dispatch (h : k.dispatch j = .ok k') : k.SamePages k' :=
  dispatch_induction (Q := fun k' => k.SamePages k') h ⟨rfl, rfl, fun _ => Iff.rfl⟩
    (fun _ _ f hs => hs.trans (.modifyEnv (f := fun e => { e with status := f e.status }) (fun _ => rfl) fun _ => rfl))
    fun _ _ hs => hs.trans ⟨rfl, rfl, fun _ => Iff.rfl⟩

/-- As far as pages go, a call that succeeds is its service. -/
theorem pages_of_call_ok (hk : k.Sound []) (haw : x.awaited = none) (h : k.call i x = (.ok w, k')) :
    ∃ k₀ a ret k₁, k.SamePages k₀ ∧ k₀.Sound [] ∧ (∀ n (h : n < 5), a.word n = x.args[n]) ∧
      Syscall.Effect k₀ i a x.service (.ok ret) k₁ ∧ k₁.SamePages k' := by
  obtain ⟨e, ret, k₁, -, heff, -, rfl⟩ := effect_of_call_ok hk haw h
  exact ⟨_, _, ret, k₁, .modifyEnv (f := fun e' => { e' with regs := e.regs.called x.service.number.toUInt64 x.args })
    (fun _ => rfl) fun _ => rfl, hk.setRegisters i _, fun n hn => word_argsOf_called _ _ _ hn, heff,
    .modifyEnv (f := fun e => { e with regs := e.regs.setA0 ret }) (fun _ => rfl) fun _ => rfl⟩

theorem capacity_of_call (hk : k.Sound []) (haw : x.awaited = none)
    (hx : x.service = .pageAlloc ∨ x.service = .pageMap ∨ x.service = .pageUnmap) (h : k.call i x = (.ok w, k')) :
    k'.machine.capacity pool = k.machine.capacity pool := by
  obtain ⟨k₀, a, ret, k₁, hsame, hk₀, -, heff, hsame'⟩ := pages_of_call_ok hk haw h
  rw [hsame'.machine, ← hsame.machine]
  rcases hx with hx | hx | hx
  all_goals
    rw [hx] at heff
    cases heff
  next te v p f k₂ k₃ hargs hf hm =>
    obtain ⟨m, hal, rfl⟩ := allocFrame_some hf
    obtain ⟨s, m₁, hmap, rfl⟩ := mapInto_ok hm
    have halloc := k₀.machine.capacity_alloc pool pool
    rw [hal] at halloc
    exact ((Machine.capacity_release _ _ _).trans (AddressSpace.capacity_map hmap pool)).trans halloc
  next hargs hm =>
    obtain ⟨s, m₁, hmap, rfl⟩ := mapInto_ok hm
    exact AddressSpace.capacity_map hmap pool
  next te v hargs =>
    unfold unmapFrom
    cases hu : te.space.unmap k₀.machine v with
    | mk s m => exact AddressSpace.capacity_unmap hu pool

/-- **The holds after a page has been mapped otherwise**: a frame that was in use has those that it had, but for the entry
that has come and the one that has gone, and it is no part of a page table if it was none. -/
structure Holds (k k' : Kernel) (t : EnvId) (v : VirtAddr) (o : Option Pte) (g : Frame) : Prop where
  refs : k'.machine.refs g + holdsOf (k.mappings t v) g = k.machine.refs g + holdsOf o g
  loose (h : k.Loose g) : k'.Loose g

theorem Holds.congr {k₀ k₁ : Kernel} {o : Option Pte} (h : k.SamePages k₀) (hh : k₀.Holds k₁ t v o g)
    (h' : k₁.SamePages k') : k.Holds k' t v o g :=
  ⟨by rw [h'.machine, ← h.mappings, hh.refs, h.machine], fun hl => (h'.loose g).2 (hh.loose ((h.loose g).2 hl))⟩

section holds
variable (hk : k.Sound [])
include hk

/-- **A fresh page has one hold**, that of its entry. -/
theorem holds_of_pageAlloc (h : k.call i (.pageAlloc t va p) = (.ok w, k'))
    (hv : VirtAddr.pageOfNat? va.toNat = some v) : ∃ f, k'.mappings (t.meant i) v = some ⟨f, p⟩ ∧
      k.machine.refs f = 0 ∧ k'.machine.refs f = 1 ∧
      ∀ g, 0 < k.machine.refs g → k.Holds k' (t.meant i) v none g := by
  obtain ⟨k₀, a, ret, k₁, hsame, hk₀, ha, heff, hsame'⟩ := pages_of_call_ok hk rfl h
  have hk₁ := hk₀.effect heff
  cases heff with
  | @allocated te v' q f k₂ k₃ hargs hf hm =>
    obtain ⟨hv', hq, ht⟩ := Syscall.pageAllocArgs_ok hargs
    have hte := (Syscall.authorizeWord_ok ht).1
    rw [ha 0 (by decide)] at ht
    rw [ha 1 (by decide)] at hv'
    rw [ha 2 (by decide)] at hq
    obtain rfl := Syscall.perm_of_decodePerm hq
    obtain rfl : v = v' := Option.some.inj (hv.symm.trans (Syscall.pageOfNat?_of_decodePage hv'))
    rw [← Syscall.id_of_authorizeWord ht]
    have hk₂ := hk₀.allocFrame hf
    have hlookup : k₀.mappings te.id v = te.space.lookup v := mappings_of_env? hte v
    have hte₂ : k₂.env? te.id = some te := by rw [env?_allocFrame hf, hte]
    have hmap₃ : k₃.mappings te.id v = some ⟨f, q⟩ := by rw [mappings_mapInto hte₂ hm, Mappings.put_self]
    obtain ⟨m, hal, rfl⟩ := allocFrame_some hf
    have hfree : k₀.machine.refs f = 0 := Machine.refs_of_alloc hk₀.balanced.tidy hal
    have halloc (g : Frame) : m.refs g = k₀.machine.refs g + if f = g then 1 else 0 :=
      Machine.refs_alloc hk₀.balanced.tidy hal g
    have hfpos : 0 < m.refs f := by
      rw [halloc, if_pos rfl]
      omega
    have hstep {g : Frame} (hg : 0 < m.refs g) := hk₂.refs_mapInto hte₂ hfpos hm hg
    have hrel (g : Frame) : (k₃.releaseFrame f).machine.refs g = k₃.machine.refs g - if f = g then 1 else 0 :=
      Machine.refs_release _ _ _
    refine ⟨f, ?_, by rw [← hsame.machine, hfree], ?_, fun g hg => .congr hsame ?_ hsame'⟩
    · rw [hsame'.mappings]
      exact hmap₃
    · -- the frame is held in hand and by its entry, and then by its entry alone
      have hold : holdsOf (te.space.lookup v) f = 0 := holdsOf_of_ne fun x hx hxf => by
        have hpos := hk₀.refs_pos_of_lookup hte hx
        rw [hxf, hfree] at hpos
        omega
      have hself : holdsOf (some ⟨f, q⟩) f = 1 := holdsOf_self ⟨f, q⟩
      have hrefs : k₃.machine.refs f + holdsOf (te.space.lookup v) f = m.refs f + holdsOf (some ⟨f, q⟩) f := (hstep hfpos).1
      rw [hsame'.machine, hrel, if_pos rfl]
      rw [halloc, if_pos rfl] at hrefs
      omega
    · rw [← hsame.machine] at hg
      have hfg : f ≠ g := by
        rintro rfl
        omega
      have hgpos : 0 < m.refs g := by
        rw [halloc]
        omega
      obtain ⟨hrefs, hloose⟩ := hstep hgpos
      have hnew : holdsOf (some ⟨f, q⟩) g = 0 := (holdsOf_some ⟨f, q⟩ g).trans (if_neg hfg)
      refine ⟨?_, hloose⟩
      rw [hlookup, hrel, if_neg hfg, holdsOf_none]
      have hm : m.refs g = k₀.machine.refs g := by rw [halloc, if_neg hfg, Nat.add_zero]
      have hrefs : k₃.machine.refs g + holdsOf (te.space.lookup v) g = m.refs g + holdsOf (some ⟨f, q⟩) g := hrefs
      omega

/-- **A page at another address has a hold more.** -/
theorem holds_of_pageMap (h : k.call i (.pageMap s sva t va p) = (.ok w, k'))
    (hsv : VirtAddr.pageOfNat? sva.toNat = some sv) (hv : VirtAddr.pageOfNat? va.toNat = some v)
    (hq : k.mappings (s.meant i) sv = some q) (hg : 0 < k.machine.refs g) :
    k.Holds k' (t.meant i) v (some q) g := by
  obtain ⟨k₀, a, ret, k₁, hsame, hk₀, ha, heff, hsame'⟩ := pages_of_call_ok hk rfl h
  cases heff with
  | @mapped pte te v' p' k₁ hargs hm =>
    obtain ⟨sv', src, si, di, hsv', hv', -, hsi, hdi, hsrc, hdst, hlook, -⟩ := Syscall.pageMapArgs_ok hargs
    rw [ha 0 (by decide)] at hsi
    rw [ha 1 (by decide)] at hsv'
    rw [ha 2 (by decide)] at hdi
    rw [ha 3 (by decide)] at hv'
    obtain rfl : s = si := Except.ok.inj ((Syscall.decodeEnv_toWord s).symm.trans hsi)
    obtain rfl : t = di := Except.ok.inj ((Syscall.decodeEnv_toWord t).symm.trans hdi)
    obtain rfl : v = v' := Option.some.inj (hv.symm.trans (Syscall.pageOfNat?_of_decodePage hv'))
    obtain rfl : sv = sv' := Option.some.inj (hsv.symm.trans (Syscall.pageOfNat?_of_decodePage hsv'))
    have hpte : k₀.mappings (s.meant i) sv = some pte := by
      rw [← id_of_authorize hsrc, mappings_of_env? (Syscall.authorize_ok hsrc).1, hlook]
    obtain rfl : pte = q := by
      rw [hsame.mappings, hq] at hpte
      exact (Option.some.inj hpte).symm
    refine .congr hsame ?_ hsame'
    rw [← id_of_authorize hdst]
    obtain ⟨hrefs, hloose⟩ := hk₀.refs_mapInto (Syscall.authorize_ok hdst).1 (hk₀.refs_pos_of_mappings hpte) hm
      (g := g) (by rwa [hsame.machine])
    refine ⟨?_, hloose⟩
    rw [mappings_of_env? (Syscall.authorize_ok hdst).1, hrefs, holdsOf_some, holdsOf_some]

/-- **A page that is unmapped has a hold less.** -/
theorem holds_of_pageUnmap (h : k.call i (.pageUnmap t va) = (.ok w, k'))
    (hv : VirtAddr.pageOfNat? va.toNat = some v) (hl : k.Loose g) : k.Holds k' (t.meant i) v none g := by
  obtain ⟨k₀, a, ret, k₁, hsame, hk₀, ha, heff, hsame'⟩ := pages_of_call_ok hk rfl h
  cases heff with
  | @unmapped te v' hargs =>
    obtain ⟨hv', ht⟩ := Syscall.pageUnmapArgs_ok hargs
    have hte := (Syscall.authorizeWord_ok ht).1
    rw [ha 0 (by decide)] at ht
    rw [ha 1 (by decide)] at hv'
    obtain rfl : v = v' := Option.some.inj (hv.symm.trans (Syscall.pageOfNat?_of_decodePage hv'))
    refine .congr hsame ?_ hsame'
    rw [← Syscall.id_of_authorizeWord ht]
    obtain ⟨hrefs, hloose⟩ := hk₀.refs_unmapFrom hte v ((hsame.loose g).2 hl)
    exact ⟨by rw [mappings_of_env? hte, hrefs, holdsOf_none, Nat.add_zero], fun _ => hloose⟩

end holds

end Kernel
end Exokernel
