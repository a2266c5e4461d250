import Exokernel.Proofs.Memory.Tidy
/-!
# What is shown of a memory

Some frames are shown, and the pages of all others are blanked.  What hands frames out, holds them and takes them back
works alike on the memory and on what is shown of it, and so does a write to a frame that is shown: none of them can
tell what was on a blanked page.
-/
namespace Exokernel

/-! ## Pools -/

namespace Pool

/-- The pool with the pages of all frames blanked but those that are shown. -/
def showing (p : Pool) (S : Nat → Prop) [DecidablePred S] : Pool :=
  { p with slots := p.slots.mapIdx fun n s => if S n then s else { s with page := Page.zero } }

variable (p : Pool) (S : Nat → Prop) [DecidablePred S]

theorem slot_showing (n : Nat) : (p.showing S).slots[n]? =
    p.slots[n]?.map fun s => if S n then s else { s with page := Page.zero } := by
  simp only [showing, Array.getElem?_mapIdx]

theorem page_showing (n : Nat) : (p.showing S).page n = if S n then p.page n else Page.zero := by
  unfold page
  rw [slot_showing]
  cases p.slots[n]? with
  | none => simp
  | some s => by_cases h : S n <;> simp [h]

theorem refs_showing (n : Nat) : (p.showing S).refs n = p.refs n := by
  unfold refs
  rw [slot_showing]
  cases p.slots[n]? with
  | none => rfl
  | some s => by_cases h : S n <;> simp [h]

theorem retain_showing (n : Nat) : (p.showing S).retain n = (p.retain n).showing S := by
  refine ext_slots (fun i => ?_) rfl rfl
  rw [slot_retain, slot_showing, slot_showing, slot_retain, Option.map_map, Option.map_map]
  congr 1
  funext s
  by_cases e : n = i <;> by_cases h : S i <;> simp [e, h]

theorem release_showing (n : Nat) : (p.showing S).release n = (p.release n).showing S := by
  refine ext_slots (fun i => ?_) ?_ ?_
  · rw [slot_release, slot_showing, slot_showing, slot_release, Option.map_map, Option.map_map]
    congr 1
    funext s
    by_cases e : n = i <;> by_cases h : S i <;> by_cases hr : s.refs = 1 <;> simp [e, h, hr]
  · rw [free_release, refs_showing]
    exact (free_release p n).symm
  · unfold release
    split <;> split <;> rfl

/-- A frame is handed out blank, whatever was on it. -/
theorem alloc_showing : (p.showing S).alloc = Prod.map id (·.showing S) p.alloc := by
  have hset (n : Nat) (rest : List Nat) (b : Option Nat) :
      (⟨(p.showing S).slots.setIfInBounds n { refs := 1 }, rest, b⟩ : Pool) =
        showing ⟨p.slots.setIfInBounds n { refs := 1 }, rest, b⟩ S := by
    refine ext_slots (fun i => ?_) rfl rfl
    rw [slot_showing, Array.getElem?_setIfInBounds, Array.getElem?_setIfInBounds, slot_showing]
    by_cases e : n = i
    · by_cases h : i < p.slots.size <;> simp [e, h, showing]
    · simp [e]
  unfold alloc
  rw [show (p.showing S).budget = p.budget from rfl, show (p.showing S).free = p.free from rfl]
  split
  · rfl
  · cases p.free with
    | nil => rfl
    | cons n rest => simp only [hset, Prod.map, id]

theorem write_showing {n : Nat} (h : S n) (offset : Nat) (data : Bytes) :
    (p.showing S).write n offset data = (p.write n offset data).showing S := by
  refine ext_slots (fun i => ?_) rfl rfl
  rw [slot_write, slot_showing, slot_showing, slot_write, Option.map_map, Option.map_map]
  congr 1
  funext s
  by_cases e : n = i
  · subst e
    simp [h]
  · by_cases h : S i <;> simp [e, h]

/-- Blanking more pages leaves no trace of what was blanked before. -/
theorem showing_showing {T : Nat → Prop} [DecidablePred T] (h : ∀ n, T n → S n) :
    (p.showing S).showing T = p.showing T := by
  refine ext_slots (fun i => ?_) rfl rfl
  rw [slot_showing, slot_showing, slot_showing, Option.map_map]
  congr 1
  funext s
  by_cases hT : T i
  · simp [hT, h i hT]
  · by_cases hS : S i <;> simp [hT, hS]

/-- Pools that are the same but for their pages are shown alike if the pages that are shown are the same. -/
theorem showing_eq {q : Pool} (hb : q.showing (fun _ => False) = p.showing fun _ => False)
    (hp : ∀ n, S n → q.page n = p.page n) : q.showing S = p.showing S := by
  refine ext_slots (fun i => ?_) (Pool.mk.inj hb).2.1 (Pool.mk.inj hb).2.2
  have hslot : (q.showing fun _ => False).slots[i]? = (p.showing fun _ => False).slots[i]? := by rw [hb]
  have hpage := hp i
  simp only [page] at hpage
  rw [slot_showing, slot_showing] at hslot ⊢
  cases hq : q.slots[i]? with
  | none =>
    rw [hq] at hslot
    rw [Option.map_eq_none_iff.1 hslot.symm]
  | some s =>
    rw [hq] at hslot hpage
    obtain ⟨s', hs', he⟩ := Option.map_eq_some_iff.1 hslot.symm
    rw [hs'] at hpage ⊢
    obtain ⟨r, b⟩ := s
    obtain ⟨r', b'⟩ := s'
    by_cases h : S i <;> simp_all

/-- A write to a blanked frame is not seen. -/
theorem showing_write {n : Nat} (h : ¬ S n) (offset : Nat) (data : Bytes) :
    (p.write n offset data).showing S = p.showing S := by
  refine ext_slots (fun i => ?_) rfl rfl
  rw [slot_showing, slot_showing, slot_write, Option.map_map]
  congr 1
  funext s
  by_cases e : n = i
  · subst e
    simp [h]
  · simp [e]

end Pool

/-! ## Machines -/

namespace Machine

theorem ext_pools {m m' : Machine} (h : ∀ i : Nat, m.pools[i]? = m'.pools[i]?) (hc : m.console = m'.console) : m = m' := by
  obtain ⟨pools, console⟩ := m
  obtain ⟨pools', console'⟩ := m'
  obtain rfl : pools = pools' := Array.ext_getElem? h
  obtain rfl : console = console' := hc
  rfl

/-- The machine with the pages of all frames blanked but those that are shown. -/
def showing (m : Machine) (S : Frame → Prop) [DecidablePred S] : Machine :=
  { m with pools := m.pools.mapIdx fun i p => p.showing fun n => S ⟨i, n⟩ }

variable (m : Machine) (S : Frame → Prop) [DecidablePred S]

theorem pool_showing (i : Nat) : (m.showing S).pools[i]? = m.pools[i]?.map fun p => p.showing fun n => S ⟨i, n⟩ := by
  simp only [showing, Array.getElem?_mapIdx]

/-- **What is on a page, as it is shown.** -/
theorem page_showing (f : Frame) : (m.showing S).page f = if S f then m.page f else Page.zero := by
  unfold page
  rw [pool_showing]
  cases m.pools[f.pool]? with
  | none => simp
  | some p => exact Pool.page_showing p _ f.number

/-- Blanking more pages leaves no trace of what was blanked before. -/
theorem showing_showing {T : Frame → Prop} [DecidablePred T] (h : ∀ f, T f → S f) :
    (m.showing S).showing T = m.showing T := by
  refine ext_pools (fun i => ?_) rfl
  rw [pool_showing, pool_showing, pool_showing, Option.map_map]
  congr 1
  funext p
  exact Pool.showing_showing p (fun n => S ⟨i, n⟩) fun n => h ⟨i, n⟩

/-- **Machines that are the same but for their pages are shown alike** if the pages that are shown are the same. -/
theorem showing_eq {m' : Machine} (hb : m'.showing (fun _ => False) = m.showing fun _ => False)
    (hp : ∀ f, S f → m'.page f = m.page f) : m'.showing S = m.showing S := by
  refine ext_pools (fun i => ?_) (Machine.mk.inj hb).2
  have hpool : (m'.showing fun _ => False).pools[i]? = (m.showing fun _ => False).pools[i]? := by rw [hb]
  have hpage := fun n hn => hp ⟨i, n⟩ hn
  simp only [page] at hpage
  rw [pool_showing, pool_showing] at hpool ⊢
  cases hq : m'.pools[i]? with
  | none =>
    rw [hq] at hpool
    rw [Option.map_eq_none_iff.1 hpool.symm]
  | some q =>
    rw [hq] at hpool hpage
    obtain ⟨p, hs, he⟩ := Option.map_eq_some_iff.1 hpool.symm
    rw [hs] at hpage ⊢
    exact congrArg some (Pool.showing_eq p (fun n => S ⟨i, n⟩) he.symm hpage)

theorem log_showing (l : Line) : (m.showing S).log l = (m.log l).showing S := rfl

theorem modifyPool_showing (i : Nat) {f : Pool → Pool}
    (hf : ∀ p : Pool, f (p.showing fun n => S ⟨i, n⟩) = (f p).showing fun n => S ⟨i, n⟩) :
    (m.showing S).modifyPool i f = (m.modifyPool i f).showing S := by
  refine ext_pools (fun j => ?_) rfl
  rw [pool_modifyPool, pool_showing, pool_showing, pool_modifyPool, Option.map_map, Option.map_map]
  congr 1
  funext p
  by_cases e : i = j
  · subst e
    simp [hf]
  · simp [e]

theorem retain_showing (f : Frame) : (m.showing S).retain f = (m.retain f).showing S :=
  modifyPool_showing m S f.pool fun p => Pool.retain_showing p _ f.number

theorem release_showing (f : Frame) : (m.showing S).release f = (m.release f).showing S :=
  modifyPool_showing m S f.pool fun p => Pool.release_showing p _ f.number

theorem releaseAll_showing (fs : List Frame) : (m.showing S).releaseAll fs = (m.releaseAll fs).showing S := by
  induction fs generalizing m with
  | nil => rfl
  | cons f fs ih =>
    rw [releaseAll, List.foldl_cons, release_showing]
    exact ih (m.release f)

/-- **A frame is handed out alike, whatever is shown.** -/
theorem alloc_showing (pool : Nat) : (m.showing S).alloc pool = Prod.map id (·.showing S) (m.alloc pool) := by
  unfold alloc
  rw [pool_showing]
  cases hp : m.pools[pool]? with
  | none => rfl
  | some p =>
    have hset (q : Pool) : ({ m.showing S with
        pools := (m.showing S).pools.setIfInBounds pool (q.showing fun n => S ⟨pool, n⟩) } : Machine) =
        showing { m with pools := m.pools.setIfInBounds pool q } S := by
      refine ext_pools (fun j => ?_) rfl
      rw [pools_setIfInBounds (p := p.showing fun n => S ⟨pool, n⟩) (by rw [pool_showing, hp]; rfl), pool_showing,
        pool_showing, pools_setIfInBounds hp, Option.map_map, Option.map_map]
      congr 1
      funext r
      by_cases e : pool = j
      · subst e
        simp
      · simp [e]
    simp only [Option.map_some, Pool.alloc_showing, Prod.map, id, hset]
    rcases p.alloc with ⟨grant, q⟩
    cases grant <;> rfl

theorem write_showing {f : Frame} (h : S f) (offset : Nat) (data : Bytes) :
    (m.showing S).write f offset data = (m.write f offset data).showing S :=
  modifyPool_showing m S f.pool fun p => Pool.write_showing p (fun n => S ⟨f.pool, n⟩) h offset data

/-- A write to a blanked frame is not seen. -/
theorem showing_write {f : Frame} (h : ¬ S f) (offset : Nat) (data : Bytes) :
    (m.write f offset data).showing S = m.showing S := by
  refine ext_pools (fun i => ?_) rfl
  rw [pool_showing, pool_showing, write, pool_modifyPool, Option.map_map]
  congr 1
  funext p
  by_cases e : f.pool = i
  · subst e
    simp only [Function.comp_apply, if_pos]
    exact Pool.showing_write p (fun n => S ⟨f.pool, n⟩) h offset data
  · simp [e]

end Machine
end Exokernel
