import Exokernel.Proofs.Kernel.Sound
/-!
# Where a fault leads

A fault of a live environment has one of two ends: the environment is gone, or the record of the fault lies on its
exception stack and it goes on at its upcall.  Nothing else is changed.
-/
namespace Exokernel.Kernel

variable {k k' : Kernel} {i : EnvId} {e : Env} {f : PageFault} {t : Trap} {H : List Frame}

theorem kill_of_env? (h : k.env? i = some e) : k.kill i = (k.destroyEnv i).2 := by
  rw [kill, destroyEnv_of_env? h]

theorem recordAddress?_bounds {sp : Word} {record : Nat} (h : recordAddress? sp = some record) :
    exceptionStackBase ≤ record ∧ record + FaultRecord.size ≤ exceptionStackTop := by
  unfold recordAddress? at h
  simp only [Option.ite_none_right_eq_some, Option.some.injEq] at h
  obtain ⟨hr, rfl⟩ := h
  split at hr
  next hs => rw [if_pos hs]; omega
  next hs => rw [if_neg hs]; omega

theorem toNat_record {sp : Word} {record : Nat} (h : recordAddress? sp = some record) :
    record.toUInt64.toNat = record := by
  obtain ⟨-, hr⟩ := recordAddress?_bounds h
  simp only [exceptionStackTop, userTop] at hr
  rw [Nat.toUInt64_eq, UInt64.toNat_ofNat', Nat.mod_eq_of_lt (by omega)]

/-- **A fault ends the environment or is handed over to it.** -/
theorem raise_cases (he : k.env? i = some e) (h : k.raise i f = (t, k')) :
    (t = .killed ∧ ∃ k₁ : Kernel, k₁.bare = k.bare ∧ k' = (k₁.destroyEnv i).2) ∨
    ∃ (entry : Word) (record : Nat) (k₁ : Kernel) (m : Machine), e.upcall = some entry ∧
      recordAddress? e.regs.sp = some record ∧ k₁.bare = k.bare ∧
      e.space.write k₁.machine record (FaultRecord.encode ⟨f.address.toUInt64, f.code, e.regs⟩).toArray = .ok m ∧
      t = .upcall entry record.toUInt64 ∧
      k' = (setRegisters { k₁ with machine := m } i { e.regs.setSp record.toUInt64 with sepc := entry }).log
        (.upcalled i entry record) := by
  have gone (l : Line) : ((k.log (.faulted i f)).log l).kill i = (((k.log (.faulted i f)).log l).destroyEnv i).2 :=
    kill_of_env? (e := e) he
  unfold raise deliverFault at h
  have he' : (k.log (.faulted i f)).env? i = some e := he
  rw [he'] at h
  dsimp only at h
  split at h
  · cases h
    exact Or.inl ⟨rfl, (k.log (.faulted i f)).log (.unhandledFault i f e.regs.sepc), rfl, gone _⟩
  next entry hup =>
    split at h
    · cases h
      exact Or.inl ⟨rfl, (k.log (.faulted i f)).log (.exceptionStackOverflow i), rfl, gone _⟩
    next record hr =>
      split at h
      · cases h
        exact Or.inl ⟨rfl, (k.log (.faulted i f)).log (.exceptionStackUnmapped i record), rfl, gone _⟩
      next m hw =>
        cases h
        exact Or.inr ⟨entry, record, k.log (.faulted i f), m, hup, hr, rfl, hw, rfl, rfl⟩

end Exokernel.Kernel
