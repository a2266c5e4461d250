import Exokernel.Proofs.Registers
import Exokernel.Proofs.User.Calm
/-!
# Faults and the way back

A fault in good order ends the program or puts a record on its exception stack.  The record is read back as it was
written, so that a program whose handler returns goes on with the registers that it had.
-/
namespace Exokernel

namespace Kernel

variable {k k' k₁ : Kernel} {i j : EnvId} {e : Env} {a : Word} {sp : Word} {f : PageFault} {t : Trap} {len : Nat}

/-- **A fault in good order**: the end, or a record on the exception stack. -/
theorem Calm.raise (hc : k.Calm i sp) (h : k.raise i f = (t, k')) :
    (t = .killed ∧ k.Perishes k' i) ∨
    ∃ (entry record : Word) (r : FaultRecord), t = .upcall entry record ∧ k.Serves k' i record ∧ r.regs.sp = sp ∧
      ∀ x (hx : x < FaultRecord.size), k'.Shows i (record.toNat + x) r.encode[x] := by
  obtain ⟨e, he, hst, hsp⟩ := hc.runs
  rcases raise_cases he h with ⟨rfl, k₁, hb, rfl⟩ | ⟨entry, record, k₁, m, -, hr, hb, hw, rfl, rfl⟩
  · have hq := Quiet.of_bare hb
    have hk₁ := hc.sound.of_bare hb
    have he₁ := (env?_congr (envs_of_bare hb) i).trans he
    have hends := hq.ends (ends_of_destroyEnv hk₁ (destroyEnv_of_env? he₁))
    have hk' := hk₁.destroyEnv i
    rw [destroyEnv_of_env? he₁] at hk' ⊢
    exact Or.inl ⟨rfl, hk', by rw [hends.mappings]; exact hc.exclusive.without i, hends.gone, hends.spares⟩
  · have hs₁ := hc.quiet (Quiet.of_bare hb) (hc.sound.of_bare hb)
    have he₁ := (env?_congr (envs_of_bare hb) i).trans he
    have hx₁ := hs₁.calm.exclusive
    obtain ⟨hlow, hhigh⟩ := recordAddress?_bounds hr
    have hsize : (FaultRecord.encode ⟨f.address.toUInt64, f.code, e.regs⟩).toArray.size = FaultRecord.size :=
      Vector.size_toArray _
    have hs₂ : k₁.Serves { k₁ with machine := m } i sp := by
      refine ⟨⟨hs₁.calm.sound.write he₁ hw, hx₁, hs₁.calm.runs⟩, fun x b hxp hs => ?_, fun j hj => ?_⟩
      · refine shows_write_of_ne hs₁.calm.sound hx₁ he₁ hw ?_ hs
        have := hxp.2
        simp only [stackTop, exceptionStackBase, exceptionStackTop, pageSize, userTop] at *
        omega
      · exact spares_write hs₁.calm.sound hx₁ he₁ hw hj
    have hs₃ := hs₂.calm.setRegisters { e.regs.setSp record.toUInt64 with sepc := entry }
    have hs₄ := hs₃.calm.quiet (Quiet.log _ (.upcalled i entry record)) (hs₃.calm.sound.log _)
    have hsp' : Registers.sp { e.regs.setSp record.toUInt64 with sepc := entry } = record.toUInt64 :=
      Vector.getElem_set_self _
    refine Or.inr ⟨entry, record.toUInt64, ⟨f.address.toUInt64, f.code, e.regs⟩, rfl, ?_, hsp, fun x hxs => ?_⟩
    · have hs := ((hs₁.trans hs₂).trans hs₃).trans hs₄
      rwa [hsp'] at hs
    · have hin : x < (FaultRecord.encode ⟨f.address.toUInt64, f.code, e.regs⟩).toArray.size := by rwa [hsize]
      rw [toNat_record hr]
      refine (Quiet.log _ _).shows (shows_setRegisters _ (shows_write hs₁.calm.sound hx₁ he₁ hw (Nat.le_add_right _ _) ?_))
      rw [Nat.add_sub_cancel_left, Array.getElem?_eq_getElem hin]
      rfl

/-! ## Reading and writing -/

theorem Calm.load (hc : k.Calm i sp) {r : Except Trap Bytes} (h : k.load i a len = (r, k')) :
    (∃ bytes, r = .ok bytes ∧ k' = k ∧ bytes.size = len ∧
      ∀ x b, x < len → k.Shows i (a.toNat + x) b → bytes[x]? = some b) ∨
    ∃ t f, r = .error t ∧ k.raise i f = (t, k') := by
  obtain ⟨e, he, -, -⟩ := hc.runs
  unfold Kernel.load at h
  rw [he] at h
  dsimp only at h
  split at h
  · rename_i bytes hb
    cases h
    exact Or.inl ⟨bytes, rfl, rfl, (AddressSpace.getElem?_of_read hb).1, fun x b hx hs => getElem?_of_shows he hb hx hs⟩
  · rename_i f _
    cases h
    exact Or.inr ⟨_, f, rfl, rfl⟩

theorem Calm.store (hc : k.Calm i sp) {data : Bytes} {r : Except Trap Unit} (h : k.store i a data = (r, k')) :
    (r = .ok () ∧ k'.Calm i sp ∧ k'.mappings = k.mappings ∧ (∀ j, j ≠ i → k.Spares k' j) ∧
      (∀ x b, ¬ (a.toNat ≤ x ∧ x < a.toNat + data.size) → k.Shows i x b → k'.Shows i x b) ∧
      ∀ x (hx : x < data.size), k'.Shows i (a.toNat + x) data[x]) ∨
    ∃ t f, r = .error t ∧ k.raise i f = (t, k') := by
  obtain ⟨e, he, -, -⟩ := hc.runs
  unfold Kernel.store at h
  rw [he] at h
  dsimp only at h
  split at h
  · rename_i m hw
    cases h
    refine Or.inl ⟨rfl, ⟨hc.sound.write he hw, hc.exclusive, hc.runs⟩, rfl,
      fun j hj => spares_write hc.sound hc.exclusive he hw hj,
      fun x b hn hs => shows_write_of_ne hc.sound hc.exclusive he hw hn hs, fun x hx => ?_⟩
    refine shows_write hc.sound hc.exclusive he hw (Nat.le_add_right _ _) ?_
    rw [Nat.add_sub_cancel_left, Array.getElem?_eq_getElem hx]
  · rename_i f _
    cases h
    exact Or.inr ⟨_, f, rfl, rfl⟩

theorem Calm.raise_falters (hc : k.Calm i sp) (h : k.raise i f = (t, k')) (c : EnvId) : k.Falters k' i c := by
  rcases hc.raise h with ⟨-, hp⟩ | ⟨-, record, -, -, hs, -⟩
  · exact hp.falters c
  · exact hs.calm.falters fun j hj _ => hs.spares j hj

end Kernel

namespace UserProcess

open Kernel

variable {p : UserProcess} {k k' : Kernel} {sp sp' record : Word}

/-- **The record of a fault is there to be read.** -/
theorem readRecord_ok (hc : k.Calm p.env sp) {r : FaultRecord}
    (hs : ∀ x (hx : x < FaultRecord.size), k.Shows p.env (record.toNat + x) r.encode[x]) :
    ∃ r' k', p.readRecord k record = (.ok r', k') ∧ r'.regs = r.regs ∧ k.Serves k' p.env sp := by
  obtain ⟨k', he, hq, hk'⟩ := enter_ok (p := p) hc.sound hc.runs
  have hserves := hc.quiet hq hk'
  obtain ⟨e, hpe, -, -⟩ := hserves.calm.runs
  have hshows (x : Nat) (hx : x < FaultRecord.size) :
      k'.Shows p.env (record.toNat + x) (if hx : x < FaultRecord.size then r.encode[x] else 0) := by
    rw [dif_pos hx]
    exact hq.shows (hs x hx)
  obtain ⟨bytes, hb, hsize, hget⟩ := read_of_shows hpe hshows
  have hload : k'.load p.env record FaultRecord.size = (.ok bytes, k') := by
    unfold Kernel.load
    rw [hpe]
    dsimp only
    rw [hb]
  have hrec : (Vector.ofFn fun i => bytes.getD i.val 0) = r.encode := by
    apply Vector.ext
    intro x hx
    have hx' := hget x hx
    rw [dif_pos (show x < FaultRecord.size from hx)] at hx'
    rw [Vector.getElem_ofFn, Array.getD_eq_getD_getElem?, hx']
    rfl
  refine ⟨.decode r.encode, k', ?_, r.regs_decode_encode, hserves⟩
  unfold readRecord
  rw [he]
  dsimp only
  rw [hload, ← hrec]

/-- **The program goes on with the registers of the fault.** -/
theorem returnFrom_ok (hc : k.Calm p.env sp) (r : FaultRecord) :
    ∃ k', p.returnFrom k r = (.ok r.address, k') ∧ k.Serves k' p.env r.regs.sp := by
  obtain ⟨k₁, he, hq, hk₁⟩ := enter_ok (p := p) hc.sound hc.runs
  have hserves := hc.quiet hq hk₁
  obtain ⟨e, hpe, -, -⟩ := hserves.calm.runs
  refine ⟨k₁.setRegisters p.env r.regs.forUser, ?_, hserves.trans (hserves.calm.setRegisters r.regs.forUser)⟩
  unfold returnFrom Kernel.resumeWith
  rw [he]
  dsimp only
  rw [hpe]

end UserProcess
end Exokernel
