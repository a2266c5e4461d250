import Exokernel.Proofs.User.Fault
import Exokernel.User.Fork
/-!
# Copying a page

A page is copied by way of a scratch page, for the program itself when it writes to a page that is marked, or for its
child when it forks.  Either way the copy shows what the original showed, and nobody else notices.
-/
namespace Exokernel

namespace Kernel

variable {k k' : Kernel} {i t : EnvId} {sp s va : Word} {r : Except Errno Unit}

theorem sound_of_call {x : Call} {r : Except Errno Word} (hk : k.Sound []) (h : k.call i x = (r, k')) :
    k'.Sound [] := by
  have := hk.call i x
  rwa [h] at this

/-- Calls in a row end with the first that fails, or go on with the rest. -/
theorem callAll_cons_cases {x : Call} {rest : List Call} (h : k.callAll i (x :: rest) = (r, k')) :
    (∃ err, k.call i x = (.error err, k') ∧ r = .error err) ∨
    ∃ w k₁, k.call i x = (.ok w, k₁) ∧ k₁.callAll i rest = (r, k') := by
  unfold callAll at h
  rcases hx : k.call i x with ⟨err | w, k₁⟩ <;> rw [hx] at h
  · cases h
    exact Or.inl ⟨err, rfl, rfl⟩
  · exact Or.inr ⟨w, k₁, rfl, h⟩

theorem callAll_cons_ok {x : Call} {rest : List Call} (h : k.callAll i (x :: rest) = (.ok (), k')) :
    ∃ w k₁, k.call i x = (.ok w, k₁) ∧ k₁.callAll i rest = (.ok (), k') := by
  obtain ⟨_, -, ⟨⟩⟩ | h := callAll_cons_cases h
  exact h

/-- Copy a page to the same page of an environment, by way of a scratch page. -/
def copyVia (k : Kernel) (i : EnvId) (s va : Word) (t : EnvId) : Except Errno Unit × Kernel :=
  match k.call i (.pageAlloc .self s .userWritable) with
  | (.error e, k) => (.error e, k)
  | (.ok _, k) =>
    match k.load i va pageSize with
    | (.error _, k) => (.error .fault, k)
    | (.ok bytes, k) =>
      match k.store i s bytes with
      | (.error _, k) => (.error .fault, k)
      | (.ok (), k) => k.callAll i [.pageMap .self s t va .userWritable, .pageUnmap .self s]

theorem copyToChild_eq (k : Kernel) (i child : EnvId) (va : Word) :
    k.copyToChild i child va = k.copyVia i scratchBase.toUInt64 va child := rfl

/-- **How far a copy comes**: it gets no scratch page, it faults where it reads or where it writes, or it is left to the
two calls that move the page. -/
theorem copyVia_steps (h : k.copyVia i s va t = (r, k')) :
    (∃ err, k.call i (.pageAlloc .self s .userWritable) = (.error err, k') ∧ r = .error err) ∨
    ∃ w k₁, k.call i (.pageAlloc .self s .userWritable) = (.ok w, k₁) ∧
      ((∃ tr, k₁.load i va pageSize = (.error tr, k') ∧ r = .error .fault) ∨
        ∃ bytes k₂, k₁.load i va pageSize = (.ok bytes, k₂) ∧
          ((∃ tr, k₂.store i s bytes = (.error tr, k') ∧ r = .error .fault) ∨
            ∃ k₃, k₂.store i s bytes = (.ok (), k₃) ∧
              k₃.callAll i [.pageMap .self s t va .userWritable, .pageUnmap .self s] = (r, k'))) := by
  unfold copyVia at h
  rcases h₁ : k.call i (.pageAlloc .self s .userWritable) with ⟨err | w, k₁⟩ <;> rw [h₁] at h
  · cases h
    exact Or.inl ⟨err, rfl, rfl⟩
  refine Or.inr ⟨w, k₁, rfl, ?_⟩
  dsimp only at h
  rcases h₂ : k₁.load i va pageSize with ⟨tr | bytes, k₂⟩ <;> rw [h₂] at h
  · cases h
    exact Or.inl ⟨tr, rfl, rfl⟩
  refine Or.inr ⟨bytes, k₂, rfl, ?_⟩
  dsimp only at h
  rcases h₃ : k₂.store i s bytes with ⟨tr | _, k₃⟩ <;> rw [h₃] at h
  · cases h
    exact Or.inl ⟨tr, rfl, rfl⟩
  · exact Or.inr ⟨k₃, rfl, h⟩

theorem copyVia_steps_ok (h : k.copyVia i s va t = (.ok (), k')) :
    ∃ w k₁ bytes k₂ k₃, k.call i (.pageAlloc .self s .userWritable) = (.ok w, k₁) ∧
      k₁.load i va pageSize = (.ok bytes, k₂) ∧ k₂.store i s bytes = (.ok (), k₃) ∧
      k₃.callAll i [.pageMap .self s t va .userWritable, .pageUnmap .self s] = (.ok (), k') := by
  rcases copyVia_steps h with ⟨err, -, hr⟩ | ⟨w, k₁, h₁, ⟨tr, -, hr⟩ | ⟨bytes, k₂, h₂, ⟨tr, -, hr⟩ | ⟨k₃, h₃, hrest⟩⟩⟩
  · cases hr
  · cases hr
  · cases hr
  · exact ⟨w, k₁, bytes, k₂, k₃, h₁, h₂, h₃, hrest⟩

/-- Past its scratch page, what it reads and what it writes, a copy is the two calls that move the page. -/
theorem copyVia_of_stored {w : Word} {bytes : Bytes} {k₁ k₂ k₃ : Kernel}
    (h₁ : k.call i (.pageAlloc .self s .userWritable) = (.ok w, k₁)) (h₂ : k₁.load i va pageSize = (.ok bytes, k₂))
    (h₃ : k₂.store i s bytes = (.ok (), k₃)) :
    k.copyVia i s va t = k₃.callAll i [.pageMap .self s t va .userWritable, .pageUnmap .self s] := by
  simp only [copyVia, h₁, h₂, h₃]

/-- What a copy of some addresses leaves behind: the program goes on, and its target shows what the program showed. -/
structure Copies (k k' : Kernel) (i j : EnvId) (P : Nat → Prop) (sp : Word) : Prop where
  calm : k'.Calm i sp
  shows (a : Nat) (b : UInt8) (ha : InProgram a) (h : k.Shows i a b) : k'.Shows i a b
  copied (a : Nat) (b : UInt8) (ha : InProgram a) (hp : P a) (h : k.Shows i a b) : k'.Shows j a b
  other (a : Nat) (b : UInt8) (ha : InProgram a) (hp : ¬ P a) (h : k.Shows j a b) : k'.Shows j a b
  keeps (l : EnvId) (hl : l ≠ i) : k.Keeps k' l
  spares (l : EnvId) (hl : l ≠ i) (hj : l ≠ j) : k.Spares k' l

/-- The scratch page is filled: it holds a fresh frame with what the program shows at `va`. -/
structure Filled (k k' : Kernel) (i : EnvId) (s : VirtAddr) (f : Frame) (va sp : Word) : Prop where
  calm : k'.Calm i sp
  fresh : k.mappings.Fresh f
  mappings : k'.mappings = k.mappings.put i s (some ⟨f, .userWritable⟩)
  filled (o : Nat) (b : UInt8) (ho : o < pageSize) (ha : InProgram (va.toNat + o)) (h : k.Shows i (va.toNat + o) b) :
    k'.machine.byte (f, o) = some b
  shows (j : EnvId) (a : Nat) (b : UInt8) (ha : InProgram a) (h : k.Shows j a b) : k'.Shows j a b
  spares (j : EnvId) (hj : j ≠ i) : k.Spares k' j

/-- **A scratch page is filled with a copy, or the program falters.** -/
theorem fill_cases (hc : k.Calm i sp) (hs : ∀ a, InProgram a → pageDown a ≠ s.toNat) (h : k.copyVia i s va t = (r, k')) :
    (∃ err, r = .error err ∧ k.Falters k' i (t.meant i)) ∨
    ∃ v f k₁, VirtAddr.pageOfNat? s.toNat = some v ∧ k.Filled k₁ i v f va sp ∧
      k₁.callAll i [.pageMap .self s t va .userWritable, .pageUnmap .self s] = (r, k') := by
  rcases copyVia_steps h with ⟨err, h₁, rfl⟩ | ⟨w, k₁, h₁, h⟩
  all_goals have hk₁ := sound_of_call hc.sound h₁
  · obtain ⟨-, hq⟩ | ⟨⟨⟩, -⟩ := call_pageAlloc hc.sound hc.runs h₁
    exact Or.inl ⟨err, rfl, (hc.quiet hq hk₁).calm.falters fun j _ _ => hq.spares j⟩
  obtain ⟨⟨_, ⟨⟩⟩, -⟩ | ⟨-, v, f, hv, hfresh, -, hm₁⟩ := call_pageAlloc hc.sound hc.runs h₁
  have hself : EnvId.self.meant i = i := rfl
  rw [hself] at hm₁
  have hc₁ : k₁.Calm i sp :=
    ⟨hk₁, by rw [hm₁.mappings]; exact hc.exclusive.put_fresh hfresh _ _ _, hm₁.runs hc.runs⟩
  have hshow₁ (j : EnvId) (a : Nat) (b : UInt8) (ha : InProgram a) (hsh : k.Shows j a b) : k₁.Shows j a b :=
    hm₁.shows hk₁ hsh fun hn => hs a ha (by rw [← hn.2, VirtAddr.raw_pageDown hv])
  have hraised {tr : Trap} {fault : PageFault} {k₂ : Kernel} (hraise : k₁.raise i fault = (tr, k₂)) :
      k.Falters k₂ i (t.meant i) := by
    have hf := hc₁.raise_falters hraise (t.meant i)
    exact ⟨hf.sound, hf.apart, hf.alive, fun j hj hjc => (hm₁.spares j hj).trans (hf.spares j hj hjc)⟩
  rcases h with ⟨tr, h₂, rfl⟩ | ⟨bytes, k₂, h₂, h⟩
  · obtain ⟨_, ⟨⟩, -⟩ | ⟨_, _, -, hraise⟩ := hc₁.load h₂
    exact Or.inl ⟨_, rfl, hraised hraise⟩
  obtain ⟨_, ⟨⟩, rfl, hsize, hbytes⟩ | ⟨_, _, ⟨⟩, -⟩ := hc₁.load h₂
  rcases h with ⟨tr, h₃, rfl⟩ | ⟨k₃, h₃, h⟩
  · obtain ⟨⟨⟩, -⟩ | ⟨_, _, -, hraise⟩ := hc₁.store h₃
    exact Or.inl ⟨_, rfl, hraised hraise⟩
  obtain ⟨-, hc₃, hm₃, hsp₃, hne₃, hin₃⟩ | ⟨_, _, ⟨⟩, -⟩ := hc₁.store h₃
  have hmap : k₃.mappings = k.mappings.put i v (some ⟨f, .userWritable⟩) := hm₃.trans hm₁.mappings
  refine Or.inr ⟨v, f, k₃, hv, ⟨hc₃, hfresh, hmap, fun o b ho ha hsh => ?_, fun j a b ha hsh => ?_, fun j hj => ?_⟩, h⟩
  · -- what was stored lies in the frame of the scratch page
    obtain ⟨q, hq, -, hb⟩ := hin₃ o (by omega)
    have hal : s.toNat % 4096 = 0 := (VirtAddr.pageOfNat?_eq_some_iff.1 hv).2
    have ho' : o < 4096 := ho
    have hdown : pageDown (s.toNat + o) = s.toNat := by simp only [pageDown, pageSize]; omega
    have hoff : pageOffset (s.toNat + o) = o := by simp only [pageOffset, pageSize]; omega
    rw [hmap, Mappings.entryAt_put, if_pos ⟨rfl, by rw [VirtAddr.raw_pageDown hv, hdown]⟩] at hq
    cases hq
    rw [hoff] at hb
    rw [hb, ← Array.getElem?_eq_getElem, hbytes o b ho (hshow₁ i _ b ha hsh)]
  · by_cases hj : j = i
    · subst hj
      refine hne₃ a b (fun hr => hs a ha ?_) (hshow₁ j a b ha hsh)
      have := (VirtAddr.pageOfNat?_eq_some_iff.1 hv).2
      simp only [pageDown, pageSize] at *
      omega
    · exact (hsp₃ j hj).shows (hshow₁ j a b ha hsh)
  · exact (hm₁.spares j hj).trans (hsp₃ j hj)

/-- **A filled page is moved to where the copy belongs, or the program falters.** -/
theorem Filled.move {k₁ : Kernel} {v : VirtAddr} {f : Frame} (hf : k.Filled k₁ i v f va sp)
    (hx : k.mappings.Exclusive) (hv : VirtAddr.pageOfNat? s.toNat = some v) (hs : ∀ a, InProgram a → pageDown a ≠ s.toNat)
    (h : k₁.callAll i [.pageMap .self s t va .userWritable, .pageUnmap .self s] = (r, k')) :
    (r = .ok () ∧ k.Copies k' i (t.meant i) (pageDown · = va.toNat) sp) ∨ (∃ err, r = .error err ∧ k.Falters k' i (t.meant i)) := by
  have hself : EnvId.self.meant i = i := rfl
  rcases callAll_cons_cases h with ⟨err, h₂, rfl⟩ | ⟨_, k₂, h₂, h⟩
  all_goals have hk₂ := sound_of_call hf.calm.sound h₂
  · obtain ⟨-, hq⟩ | ⟨⟨⟩, -⟩ := call_pageMap hf.calm.sound hf.calm.runs h₂
    exact Or.inr ⟨err, rfl, (hf.calm.quiet hq hk₂).calm.falters fun j hj _ => (hf.spares j hj).trans (hq.spares j)⟩
  obtain ⟨⟨_, ⟨⟩⟩, -⟩ | ⟨-, sv, w, pte, hsv, hw, hpte, hm₂⟩ := call_pageMap hf.calm.sound hf.calm.runs h₂
  obtain rfl : v = sv := Option.some.inj (hv.symm.trans hsv)
  rw [hself, hf.mappings, Mappings.put_self] at hpte
  cases hpte
  have hmap₂ := hm₂.mappings
  rw [hf.mappings] at hmap₂
  have hspares₂ (j : EnvId) (hj : j ≠ i) (hjt : j ≠ t.meant i) : k.Spares k₂ j :=
    (hf.spares j hj).trans (hm₂.spares j hjt)
  rcases callAll_cons_cases h with ⟨err, h₃, rfl⟩ | ⟨_, k₃, h₃, h⟩
  all_goals have hk₃ := sound_of_call hk₂ h₃
  · obtain ⟨-, hq⟩ | ⟨⟨⟩, -⟩ := call_pageUnmap hk₂ (hm₂.runs hf.calm.runs) h₃
    refine Or.inr ⟨err, rfl, hk₃, ?_, Or.inr ⟨sp, hq.runs (hm₂.runs hf.calm.runs)⟩, fun j hj hjt => ?_⟩
    · rw [hq.mappings, hmap₂]
      exact hx.put_moving hf.fresh _ _ _ _ _ _
    · exact (hspares₂ j hj hjt).trans (hq.spares j)
  obtain ⟨⟨_, ⟨⟩⟩, -⟩ | ⟨-, sv, hsv, hm₃⟩ := call_pageUnmap hk₂ (hm₂.runs hf.calm.runs) h₃
  obtain rfl : v = sv := Option.some.inj (hv.symm.trans hsv)
  rw [hself] at hm₃
  have hmap₃ := hm₃.mappings
  rw [hmap₂] at hmap₃
  cases h
  have hc₃ : k'.Calm i sp :=
    ⟨hk₃, by rw [hmap₃]; exact hx.put_moved hf.fresh _ _ _ _ _ _, hm₃.runs (hm₂.runs hf.calm.runs)⟩
  -- a page that is neither of the two shows what it showed
  have hkept (j : EnvId) (a : Nat) (b : UInt8) (ha : InProgram a) (hn : ¬ (t.meant i = j ∧ pageDown a = va.toNat))
      (hsh : k.Shows j a b) : k'.Shows j a b := by
    refine hm₃.shows hk₃ (hm₂.shows hk₂ (hf.shows j a b ha hsh) fun hc => hn ⟨hc.1, ?_⟩) fun hc => hs a ha ?_
    · rw [← hc.2, VirtAddr.raw_pageDown hw]
    · rw [← hc.2, VirtAddr.raw_pageDown hv]
  have hcopied (a : Nat) (b : UInt8) (ha : InProgram a) (hp : pageDown a = va.toNat) (hsh : k.Shows i a b) :
      k'.Shows (t.meant i) a b := by
    have hoff : va.toNat + pageOffset a = a := by rw [← hp, pageDown_add_pageOffset]
    have hb := hf.filled (pageOffset a) b (pageOffset_lt a) (by rw [hoff]; exact ha) (by rw [hoff]; exact hsh)
    have hentry : k'.mappings.entryAt (t.meant i) a = some ⟨f, .userWritable⟩ := by
      rw [hmap₃, Mappings.entryAt_put, if_neg, Mappings.entryAt_put, if_pos ⟨rfl, by rw [VirtAddr.raw_pageDown hw, hp]⟩]
      rintro ⟨-, hc⟩
      exact hs a ha (by rw [← hc, VirtAddr.raw_pageDown hv])
    obtain ⟨x, -, hx₃⟩ := Option.bind_eq_some_iff.1 hentry
    have hx₂ : k₂.mappings (t.meant i) w = some ⟨f, .userWritable⟩ := by rw [hmap₂, Mappings.put_self]
    refine ⟨⟨f, .userWritable⟩, hentry, Pte.allows_read_of (show Perm.userWritable.contains .present by decide)
      (show Perm.userWritable.contains .user by decide), ?_⟩
    rw [Machine.byte_congr (hm₃.page f (hk₃.refs_pos_of_mappings hx₃)),
      Machine.byte_congr (hm₂.page f (hk₂.refs_pos_of_mappings hx₂)), hb]
  refine Or.inl ⟨rfl, hc₃, fun a b ha hsh => ?_, hcopied, fun a b ha hp hsh => ?_, fun l hl => ?_,
    fun l hl hlt => ?_⟩
  · by_cases hcp : t.meant i = i ∧ pageDown a = va.toNat
    · have := hcopied a b ha hcp.2 hsh
      rwa [hcp.1] at this
    · exact hkept i a b ha hcp hsh
  · exact hkept _ a b ha (fun hc => hp hc.2) hsh
  · exact ((hf.spares l hl).keeps.trans (hm₂.keeps l)).trans (hm₃.keeps l)
  · exact (hspares₂ l hl hlt).trans (hm₃.spares l hl)

/-- **A copy is made, or the program falters.** -/
theorem copyVia_cases (hc : k.Calm i sp) (hs : ∀ a, InProgram a → pageDown a ≠ s.toNat)
    (h : k.copyVia i s va t = (r, k')) :
    (r = .ok () ∧ k.Copies k' i (t.meant i) (pageDown · = va.toNat) sp) ∨ (∃ err, r = .error err ∧ k.Falters k' i (t.meant i)) := by
  rcases fill_cases hc hs h with hf | ⟨v, f, k₁, hv, hf, hrest⟩
  · exact Or.inr hf
  · exact hf.move hc.exclusive hv hs hrest

/-! ## The handler -/

theorem InProgram.le_pageDown {a : Nat} (ha : InProgram a) : textBase ≤ pageDown a := by
  have := ha.1
  simp only [textBase, pageDown, pageSize] at *
  omega

theorem InProgram.pageDown_ne_copyScratch {a : Nat} (ha : InProgram a) : pageDown a ≠ copyScratch.toUInt64.toNat := by
  have hlow := ha.le_pageDown
  have hs : copyScratch.toUInt64.toNat < textBase := by decide
  omega

end Kernel

namespace UserProcess

open Kernel

variable {p : UserProcess} {k k' : Kernel} {sp va : Word} {access : Kernel → Access → Served Bytes}
  {r : Except UserPanic Unit} {record : FaultRecord}

/-- **What the handler does is a copy by way of its scratch page**, and a panic if that fails. -/
theorem run_copyPage_cases (p : UserProcess) (access : Kernel → Access → Served Bytes) (va : Word) (k : Kernel) :
    (∃ k₁, k.copyVia p.env copyScratch.toUInt64 va .self = (.ok (), k₁) ∧
      p.run access (Routine.copyPage va) k = some (.ok (), k₁)) ∨
    ∃ err cause k₁, k.copyVia p.env copyScratch.toUInt64 va .self = (.error err, k₁) ∧
      p.run access (Routine.copyPage va) k = some (.error cause, p.fatal k₁ cause) := by
  unfold Routine.copyPage copyVia
  simp only [run]
  rcases k.call p.env (.pageAlloc .self copyScratch.toUInt64 .userWritable) with ⟨err | w, k₁⟩
  · exact Or.inr ⟨_, _, _, rfl, rfl⟩
  simp only [run]
  rcases k₁.load p.env va pageSize with ⟨t | bytes, k₂⟩
  · exact Or.inr ⟨_, _, _, rfl, rfl⟩
  simp only [run]
  rcases k₂.store p.env copyScratch.toUInt64 bytes with ⟨t | _, k₃⟩
  · exact Or.inr ⟨_, _, _, rfl, rfl⟩
  simp only [run, callAll]
  rcases k₃.call p.env (.pageMap .self copyScratch.toUInt64 .self va .userWritable) with ⟨err | w, k₄⟩
  · exact Or.inr ⟨_, _, _, rfl, rfl⟩
  simp only [run]
  rcases k₄.call p.env (.pageUnmap .self copyScratch.toUInt64) with ⟨err | w, k₅⟩
  · exact Or.inr ⟨_, _, _, rfl, rfl⟩
  · exact Or.inl ⟨_, rfl, rfl⟩

theorem run_copyPage (h : p.run access (Routine.copyPage va) k = some (r, k')) :
    ∃ res k₁, k.copyVia p.env copyScratch.toUInt64 va .self = (res, k₁) ∧
      ((res = .ok () ∧ r = .ok () ∧ k' = k₁) ∨
        ∃ err cause, res = .error err ∧ r = .error cause ∧ k' = p.fatal k₁ cause) := by
  rcases run_copyPage_cases p access va k with ⟨k₁, hc, hr⟩ | ⟨err, cause, k₁, hc, hr⟩
  all_goals
    rw [hr] at h
    cases h
  · exact ⟨_, _, hc, Or.inl ⟨rfl, rfl, rfl⟩⟩
  · exact ⟨_, _, hc, Or.inr ⟨err, cause, rfl, rfl, rfl⟩⟩

/-- **A copy that goes well is what the handler is there for.** -/
theorem run_copyPage_of_copyVia (h : k.copyVia p.env copyScratch.toUInt64 va .self = (.ok (), k')) :
    p.run access (Routine.copyPage va) k = some (.ok (), k') := by
  rcases run_copyPage_cases p access va k with ⟨k₁, hc, hr⟩ | ⟨err, cause, k₁, hc, hr⟩
  all_goals
    rw [h] at hc
    cases hc
  exact hr

/-- **The handler repairs the fault or ends the program.** -/
theorem run_copyOnWrite (hc : k.Calm p.env sp) (h : p.run access (Routine.copyOnWrite record) k = some (r, k')) :
    (r = .ok () ∧ k.Serves k' p.env sp) ∨ ∃ cause, r = .error cause ∧ k.Perishes k' p.env := by
  unfold Routine.copyOnWrite at h
  simp only [run] at h
  obtain ⟨k₁, he, hq, hk₁⟩ := enter_ok (p := p) hc.sound hc.runs
  have hs₁ := hc.quiet hq hk₁
  rw [he] at h
  dsimp only at h
  simp only [run] at h
  unfold Routine.copyIfMarked at h
  split at h
  swap
  · simp only [run] at h
    cases h
    exact Or.inr ⟨_, rfl, hs₁.perishes (fatal_perishes hs₁.calm _)⟩
  simp only [run] at h
  obtain ⟨k₂, he₂, hq₂, hk₂⟩ := enter_ok (p := p) hk₁ hs₁.calm.runs
  have hs₂ := hs₁.trans (hs₁.calm.quiet hq₂ hk₂)
  rw [he₂] at h
  dsimp only at h
  obtain ⟨res, k₃, hcopy, hend⟩ := run_copyPage h
  rcases copyVia_cases hs₂.calm (fun a ha => ha.pageDown_ne_copyScratch) hcopy with ⟨rfl, hcp⟩ | ⟨err, rfl, hf⟩
  · rcases hend with ⟨-, rfl, rfl⟩ | ⟨_, _, hres, -⟩
    · exact Or.inl ⟨rfl, hs₂.trans ⟨hcp.calm, hcp.shows, fun j hj => hcp.spares j hj hj⟩⟩
    · cases hres
  · rcases hend with ⟨hres, -⟩ | ⟨_, cause, -, rfl, rfl⟩
    · cases hres
    · exact Or.inr ⟨cause, rfl, hs₂.perishes (fatal_of_falters hf (Or.inr rfl) cause)⟩

end UserProcess
end Exokernel
