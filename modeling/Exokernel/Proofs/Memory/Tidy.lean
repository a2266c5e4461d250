import Exokernel.Memory.Machine
/-!
# Tidy pools

A pool is tidy if its free list names each frame that nobody holds, once, and such a frame is blank.  Every operation
keeps a pool tidy, as long as nobody takes hold of a frame that is free or writes into it.
-/
namespace Exokernel

/-! ## Pools -/

namespace Pool

/-- **The free list is right.** -/
structure Tidy (p : Pool) : Prop where
  nodup : p.free.Nodup
  mem_free (n : Nat) : n ∈ p.free ↔ n < p.capacity ∧ p.refs n = 0
  blank (n : Nat) (h : n ∈ p.free) : p.page n = Page.zero

/-- A pool but for its budget. -/
def bare (p : Pool) : Pool := { p with budget := none }

theorem lt_capacity_of_refs_pos {p : Pool} {n : Nat} (h : 0 < p.refs n) : n < p.capacity := by
  unfold refs at h
  cases hs : p.slots[n]? with
  | none => rw [hs] at h; simp at h
  | some s => exact (Array.getElem?_eq_some_iff.1 hs).1

theorem Tidy.of_bare {p q : Pool} (h : p.Tidy) (e : q.bare = p.bare) : q.Tidy := by
  obtain ⟨slots, free, budget⟩ := p
  obtain ⟨slots', free', budget'⟩ := q
  obtain ⟨rfl, rfl⟩ : slots' = slots ∧ free' = free := by simpa [bare] using e
  exact ⟨h.nodup, h.mem_free, h.blank⟩

theorem refs_ofSize (n i : Nat) : (ofSize n).refs i = 0 := by
  by_cases h : i < n <;> simp [ofSize, refs, h]

theorem tidy_ofSize (n : Nat) : (ofSize n).Tidy := by
  have hp (i : Nat) : (ofSize n).page i = Page.zero := by
    by_cases h : i < n <;> simp [ofSize, page, h]
  refine ⟨List.nodup_range, fun i => ?_, fun i _ => hp i⟩
  rw [refs_ofSize]
  simp [ofSize, capacity]

theorem alloc_granted {p p' : Pool} {n : Nat} (h : p.alloc = (.granted n, p')) :
    ∃ rest budget, p.free = n :: rest ∧ p' = ⟨p.slots.setIfInBounds n { refs := 1 }, rest, budget⟩ := by
  unfold alloc at h
  split at h
  · simp at h
  · split at h
    · simp at h
    next m rest hf =>
      obtain ⟨h₁, h₂⟩ := Prod.mk.inj h
      obtain rfl := Grant.granted.inj h₁
      exact ⟨rest, _, hf, h₂.symm⟩

theorem bare_alloc {p p' : Pool} {g : Grant} (h : p.alloc = (g, p')) (hg : ∀ n, g ≠ .granted n) :
    p'.bare = p.bare := by
  unfold alloc at h
  split at h
  · obtain ⟨-, rfl⟩ := Prod.mk.inj h; rfl
  · split at h
    · obtain ⟨-, rfl⟩ := Prod.mk.inj h; rfl
    · exact absurd (Prod.mk.inj h).1.symm (hg _)

theorem slot_of_mem_free {p : Pool} (hp : p.Tidy) {n : Nat} (h : n ∈ p.free) : p.slots[n]? = some {} := by
  obtain ⟨hlt, hr⟩ := (hp.mem_free n).1 h
  have hb := hp.blank n h
  have hs : p.slots[n]? = some p.slots[n] := Array.getElem?_eq_getElem hlt
  simp only [refs, page, hs, Option.map_some, Option.getD_some] at hr hb
  rw [hs]
  congr 1
  cases hn : p.slots[n] with
  | mk r g => rw [hn] at hr hb; simp_all

/-- **A granted frame was free, and nothing is in it.** -/
theorem slot_alloc {p p' : Pool} (hp : p.Tidy) {n : Nat} (h : p.alloc = (.granted n, p')) (i : Nat) :
    p'.slots[i]? = p.slots[i]?.map fun s => if n = i then { s with refs := s.refs + 1 } else s := by
  obtain ⟨rest, b, hf, rfl⟩ := alloc_granted h
  have hn := slot_of_mem_free hp (n := n) (by rw [hf]; exact List.mem_cons_self)
  simp only [Array.getElem?_setIfInBounds]
  split
  next e =>
    subst e
    rw [if_pos (Array.getElem?_eq_some_iff.1 hn).1, hn]
    simp
  next => simp

theorem mem_free_of_alloc {p p' : Pool} {n : Nat} (h : p.alloc = (.granted n, p')) : n ∈ p.free := by
  obtain ⟨rest, b, hf, -⟩ := alloc_granted h
  rw [hf]
  exact List.mem_cons_self

theorem capacity_alloc (p : Pool) : p.alloc.2.capacity = p.capacity := by
  unfold alloc
  split
  · rfl
  · split <;> simp [capacity]

@[simp] theorem capacity_retain (p : Pool) (n : Nat) : (p.retain n).capacity = p.capacity := by
  simp [retain, capacity]

@[simp] theorem capacity_release (p : Pool) (n : Nat) : (p.release n).capacity = p.capacity := by
  unfold release capacity; split <;> simp

@[simp] theorem capacity_write (p : Pool) (n o : Nat) (d : Bytes) : (p.write n o d).capacity = p.capacity := by
  simp [write, capacity]

theorem refs_alloc {p p' : Pool} (hp : p.Tidy) {n : Nat} (h : p.alloc = (.granted n, p')) (i : Nat) :
    p'.refs i = p.refs i + if n = i then 1 else 0 := by
  have hn := slot_of_mem_free hp (mem_free_of_alloc h)
  simp only [refs, slot_alloc hp h]
  by_cases e : n = i
  · subst e; simp [hn]
  · simp [e]

theorem page_alloc {p p' : Pool} (hp : p.Tidy) {n : Nat} (h : p.alloc = (.granted n, p')) (i : Nat) :
    p'.page i = p.page i := by
  simp only [page, slot_alloc hp h, Option.map_map]
  congr 2
  funext s
  by_cases e : n = i <;> simp [e]

theorem Tidy.alloc {p p' : Pool} (hp : p.Tidy) {n : Nat} (h : p.alloc = (.granted n, p')) : p'.Tidy := by
  have hc : p'.capacity = p.capacity := by have := capacity_alloc p; rwa [h] at this
  have hr := refs_alloc hp h
  have hpg := page_alloc hp h
  obtain ⟨rest, b, hf, rfl⟩ := alloc_granted h
  have hnd := hp.nodup
  rw [hf] at hnd
  have mem (i : Nat) : i ∈ p.free ↔ i = n ∨ i ∈ rest := by rw [hf]; exact List.mem_cons
  refine ⟨(List.nodup_cons.1 hnd).2, fun i => ?_, fun i hi => ?_⟩
  · have hi := hp.mem_free i
    rw [mem] at hi
    rw [hc, hr]
    show i ∈ rest ↔ _
    by_cases e : n = i
    · subst e
      simpa using (List.nodup_cons.1 hnd).1
    · rw [if_neg e, Nat.add_zero, ← hi]
      simp [Ne.symm e]
  · rw [hpg]
    exact hp.blank i ((mem i).2 (Or.inr hi))

theorem Tidy.retain {p : Pool} (hp : p.Tidy) {n : Nat} (h : 0 < p.refs n) : (p.retain n).Tidy := by
  refine ⟨hp.nodup, fun i => ?_, fun i hi => ?_⟩
  · rw [show (p.retain n).free = p.free from rfl, hp.mem_free, capacity_retain]
    refine and_congr_right fun hi => ?_
    rw [refs_retain _ _ _ hi]
    by_cases e : n = i
    · subst e; simp; omega
    · simp [e]
  · rw [page_retain]
    exact hp.blank i hi

theorem Tidy.release {p : Pool} (hp : p.Tidy) (n : Nat) : (p.release n).Tidy := by
  by_cases h1 : p.refs n = 1
  · have hlt : n < p.capacity := lt_capacity_of_refs_pos (by omega)
    have hn : n ∉ p.free := fun hm => by have := ((hp.mem_free n).1 hm).2; omega
    have hf : (p.release n).free = n :: p.free := by rw [free_release, if_pos h1]
    refine ⟨?_, fun i => ?_, fun i hi => ?_⟩
    · rw [hf]; exact List.nodup_cons.2 ⟨hn, hp.nodup⟩
    · rw [hf, List.mem_cons, hp.mem_free, capacity_release, refs_release]
      by_cases e : n = i
      · subst e; simp [hlt, h1]
      · simp [e, Ne.symm e]
    · rw [hf, List.mem_cons] at hi
      rw [page_release]
      split
      · rfl
      next hne =>
        rcases hi with rfl | hi
        · exact absurd ⟨rfl, h1⟩ hne
        · exact hp.blank i hi
  · have hf : (p.release n).free = p.free := by rw [free_release, if_neg h1]
    refine ⟨?_, fun i => ?_, fun i hi => ?_⟩
    · rw [hf]; exact hp.nodup
    · rw [hf, hp.mem_free, capacity_release, refs_release]
      by_cases e : n = i
      · subst e; simp; omega
      · simp [e]
    · rw [hf] at hi
      rw [page_release, if_neg (by rintro ⟨rfl, h⟩; exact h1 h)]
      exact hp.blank i hi

theorem Tidy.write {p : Pool} (hp : p.Tidy) {n : Nat} (h : 0 < p.refs n) (o : Nat) (d : Bytes) :
    (p.write n o d).Tidy := by
  refine ⟨hp.nodup, fun i => ?_, fun i hi => ?_⟩
  · rw [refs_write, capacity_write]
    exact hp.mem_free i
  · have hi' : i ∈ p.free := hi
    obtain ⟨hlt, hr⟩ := (hp.mem_free i).1 hi'
    rw [page_write _ _ _ _ _ hlt, if_neg (by rintro rfl; omega)]
    exact hp.blank i hi'

/-! ### But for the budget -/

theorem bare_release (p : Pool) (n : Nat) : (p.release n).bare = p.bare.release n := by
  unfold release bare
  dsimp only
  split <;> rfl

theorem ext_slots {p q : Pool} (hs : ∀ i : Nat, p.slots[i]? = q.slots[i]?) (hf : p.free = q.free)
    (hb : p.budget = q.budget) : p = q := by
  obtain ⟨s, f, b⟩ := p
  obtain ⟨s', f', b'⟩ := q
  obtain rfl : s = s' := Array.ext_getElem? hs
  simp_all

/-- **A hold that is given up at once leaves no trace.** -/
theorem release_retain (p : Pool) {n : Nat} (h : 0 < p.refs n) : (p.retain n).release n = p := by
  have hlt := lt_capacity_of_refs_pos h
  refine ext_slots (fun i => ?_) ?_ ?_
  · rw [slot_release, slot_retain, Option.map_map]
    by_cases e : n = i
    · subst e
      have hs : p.slots[n]? = some p.slots[n] := Array.getElem?_eq_getElem hlt
      simp only [refs, hs, Option.map_some, Option.getD_some] at h
      rw [hs]
      simp [Nat.ne_of_gt h]
    · simp [e, Function.comp_def]
  · rw [free_release, refs_retain _ _ _ hlt, if_pos rfl, if_neg (by omega)]
    rfl
  · unfold release; split <;> rfl

/-- **A frame that is given back at once leaves no trace**, also not in the order of the free list. -/
theorem bare_release_alloc {p p' : Pool} (hp : p.Tidy) {n : Nat} (h : p.alloc = (.granted n, p')) :
    (p'.release n).bare = p.bare := by
  have hn := mem_free_of_alloc h
  have hr : p'.refs n = 1 := by
    rw [refs_alloc hp h, ((hp.mem_free n).1 hn).2]; simp
  refine ext_slots (fun i => ?_) ?_ rfl
  · show (p'.release n).slots[i]? = p.slots[i]?
    rw [slot_release, slot_alloc hp h, Option.map_map]
    by_cases e : n = i
    · subst e
      rw [slot_of_mem_free hp hn]
      simp
    · simp [e, Function.comp_def]
  · show (p'.release n).free = p.free
    rw [free_release, if_pos hr]
    obtain ⟨rest, b, hf, rfl⟩ := alloc_granted h
    exact hf.symm

end Pool

/-! ## Machines -/

namespace Machine

/-- A machine but for the budgets of its pools and for its console. -/
def bare (m : Machine) : Machine := { pools := m.pools.map Pool.bare }

/-- **There is one pool, and it is tidy.** -/
structure Tidy (m : Machine) : Prop where
  size : m.pools.size = 1
  pool (i : Nat) (p : Pool) (h : m.pools[i]? = some p) : p.Tidy

/-- The free frames of a pool, the next one to hand out first. -/
def free (m : Machine) (pool : Nat) : List Frame := ((m.pools[pool]?.map Pool.free).getD []).map (Frame.mk pool)

def capacity (m : Machine) (pool : Nat) : Nat := (m.pools[pool]?.map Pool.capacity).getD 0

theorem pool_bare (m : Machine) (i : Nat) : m.bare.pools[i]? = m.pools[i]?.map Pool.bare := by simp [bare]

@[simp] theorem refs_bare (m : Machine) (f : Frame) : m.bare.refs f = m.refs f := by
  simp only [refs, pool_bare, Option.map_map]
  rfl

@[simp] theorem page_bare (m : Machine) (f : Frame) : m.bare.page f = m.page f := by
  simp only [page, pool_bare, Option.map_map]
  rfl

theorem refs_congr {m m' : Machine} (h : m'.bare = m.bare) (f : Frame) : m'.refs f = m.refs f := by
  rw [← refs_bare, h, refs_bare]

theorem page_congr {m m' : Machine} (h : m'.bare = m.bare) (f : Frame) : m'.page f = m.page f := by
  rw [← page_bare, h, page_bare]

theorem Tidy.of_bare {m m' : Machine} (hm : m.Tidy) (h : m'.bare = m.bare) : m'.Tidy := by
  refine ⟨?_, fun i p hp => ?_⟩
  · have e : m'.bare.pools.size = m.bare.pools.size := by rw [h]
    simpa [bare, hm.size] using e
  · have e : m'.bare.pools[i]? = m.bare.pools[i]? := by rw [h]
    rw [pool_bare, pool_bare, hp, Option.map_some, eq_comm, Option.map_eq_some_iff] at e
    obtain ⟨q, hq, hb⟩ := e
    exact (hm.pool i q hq).of_bare hb.symm

theorem bare_modifyPool (m : Machine) (i : Nat) (f : Pool → Pool) (h : ∀ p, (f p).bare = p.bare) :
    (m.modifyPool i f).bare = m.bare := by
  unfold bare
  congr 1
  apply Array.ext_getElem?
  intro j
  rw [Array.getElem?_map, Array.getElem?_map, pool_modifyPool, Option.map_map]
  congr 1
  funext p
  simp only [Function.comp_apply]
  split
  · exact h p
  · rfl

@[simp] theorem bare_log (m : Machine) (l : Line) : (m.log l).bare = m.bare := rfl

/-! ### Taking a frame -/

theorem alloc_some {m m' : Machine} {i : Nat} {f : Frame} (h : m.alloc i = (some f, m')) :
    f.pool = i ∧ ∃ p p', m.pools[i]? = some p ∧ p.alloc = (.granted f.number, p') ∧
      m' = { m with pools := m.pools.setIfInBounds i p' } := by
  unfold alloc at h
  split at h
  · simp at h
  next p hp =>
    cases hg : p.alloc with
    | mk g p' =>
      rw [hg] at h
      cases g with
      | granted n =>
        obtain ⟨h₁, h₂⟩ := Prod.mk.inj h
        obtain rfl := Option.some.inj h₁
        exact ⟨rfl, p, p', hp, hg, h₂.symm⟩
      | denied => simp at h
      | exhausted => simp at h

theorem pools_setIfInBounds {m : Machine} {i : Nat} {p q : Pool} (h : m.pools[i]? = some p) (j : Nat) :
    (m.pools.setIfInBounds i q)[j]? = m.pools[j]?.map fun r => if i = j then q else r := by
  rw [Array.getElem?_setIfInBounds]
  split
  next e =>
    subst e
    rw [if_pos (Array.getElem?_eq_some_iff.1 h).1, h]
    rfl
  next => simp

/-- **An allocation that fails costs the budget only.** -/
theorem bare_alloc_none {m m' : Machine} {i : Nat} (h : m.alloc i = (none, m')) : m'.bare = m.bare := by
  unfold alloc at h
  split at h
  · obtain ⟨-, rfl⟩ := Prod.mk.inj h; rfl
  next p hp =>
    cases hg : p.alloc with
    | mk g p' =>
      have set (hn : ∀ n, g ≠ .granted n) :
          ({ m with pools := m.pools.setIfInBounds i p' } : Machine).bare = m.bare := by
        unfold bare
        congr 1
        apply Array.ext_getElem?
        intro j
        rw [Array.getElem?_map, Array.getElem?_map, pools_setIfInBounds hp, Option.map_map]
        by_cases e : i = j
        · subst e
          rw [hp]
          simp [Pool.bare_alloc hg hn]
        · simp [e, Function.comp_def]
      rw [hg] at h
      cases g with
      | granted n => simp at h
      | denied => obtain ⟨-, rfl⟩ := Prod.mk.inj h; exact set (by simp)
      | exhausted => obtain ⟨-, rfl⟩ := Prod.mk.inj h; exact set (by simp)

section alloc
variable {m m' : Machine} {i : Nat} {f : Frame}

theorem refs_of_alloc (hm : m.Tidy) (h : m.alloc i = (some f, m')) : m.refs f = 0 := by
  obtain ⟨rfl, p, p', hp, hg, -⟩ := alloc_some h
  simp only [refs, hp, Option.map_some, Option.getD_some]
  exact (((hm.pool _ p hp).mem_free _).1 (Pool.mem_free_of_alloc hg)).2

theorem refs_alloc (hm : m.Tidy) (h : m.alloc i = (some f, m')) (g : Frame) :
    m'.refs g = m.refs g + if f = g then 1 else 0 := by
  obtain ⟨rfl, p, p', hp, hg, rfl⟩ := alloc_some h
  obtain ⟨i, n⟩ := f
  obtain ⟨j, k⟩ := g
  simp only [refs, pools_setIfInBounds hp, Frame.mk.injEq]
  by_cases e : i = j
  · subst e
    simp [hp, Pool.refs_alloc (hm.pool _ p hp) hg]
  · simp [e]

theorem page_alloc (hm : m.Tidy) (h : m.alloc i = (some f, m')) (g : Frame) : m'.page g = m.page g := by
  obtain ⟨rfl, p, p', hp, hg, rfl⟩ := alloc_some h
  simp only [page, pools_setIfInBounds hp, Option.map_map]
  by_cases e : f.pool = g.pool
  · rw [← e, hp]
    simp [Pool.page_alloc (hm.pool _ p hp) hg]
  · simp [e, Function.comp_def]

theorem page_of_alloc (hm : m.Tidy) (h : m.alloc i = (some f, m')) : m'.page f = Page.zero := by
  rw [page_alloc hm h]
  obtain ⟨rfl, p, p', hp, hg, -⟩ := alloc_some h
  simp only [page, hp, Option.map_some, Option.getD_some]
  exact (hm.pool _ p hp).blank _ (Pool.mem_free_of_alloc hg)

theorem Tidy.alloc (hm : m.Tidy) (h : m.alloc i = (some f, m')) : m'.Tidy := by
  obtain ⟨rfl, p, p', hp, hg, rfl⟩ := alloc_some h
  refine ⟨by simpa using hm.size, fun j q hq => ?_⟩
  rw [pools_setIfInBounds hp, Option.map_eq_some_iff] at hq
  obtain ⟨r, hr, rfl⟩ := hq
  split
  next e =>
    subst e
    exact (hm.pool _ p hp).alloc hg
  next => exact hm.pool j r hr

theorem bare_release_alloc (hm : m.Tidy) (h : m.alloc i = (some f, m')) : (m'.release f).bare = m.bare := by
  obtain ⟨rfl, p, p', hp, hg, rfl⟩ := alloc_some h
  unfold bare
  congr 1
  apply Array.ext_getElem?
  intro j
  rw [Array.getElem?_map, Array.getElem?_map, release, pool_modifyPool, pools_setIfInBounds hp, Option.map_map,
    Option.map_map]
  by_cases e : f.pool = j
  · subst e
    rw [hp]
    simp [Pool.bare_release_alloc (hm.pool _ p hp) hg]
  · simp [e, Function.comp_def]

end alloc

/-! ### Holding, giving back and writing -/

theorem exists_of_refs_pos {m : Machine} {f : Frame} (h : 0 < m.refs f) :
    ∃ p, m.pools[f.pool]? = some p ∧ 0 < p.refs f.number := by
  unfold refs at h
  cases hp : m.pools[f.pool]? with
  | none => rw [hp] at h; simp at h
  | some p => rw [hp] at h; exact ⟨p, rfl, h⟩

theorem Tidy.modifyPool {m : Machine} (hm : m.Tidy) (i : Nat) (f : Pool → Pool)
    (hf : ∀ p, m.pools[i]? = some p → p.Tidy → (f p).Tidy) : (m.modifyPool i f).Tidy := by
  refine ⟨by simpa [Machine.modifyPool] using hm.size, fun j q hq => ?_⟩
  rw [pool_modifyPool, Option.map_eq_some_iff] at hq
  obtain ⟨p, hp, rfl⟩ := hq
  split
  next e =>
    subst e
    exact hf p hp (hm.pool _ p hp)
  next => exact hm.pool j p hp

theorem Tidy.retain {m : Machine} (hm : m.Tidy) {f : Frame} (h : 0 < m.refs f) : (m.retain f).Tidy := by
  obtain ⟨p, hp, hr⟩ := exists_of_refs_pos h
  refine hm.modifyPool _ _ fun q hq ht => ht.retain ?_
  obtain rfl : p = q := by simpa [hp] using hq
  exact hr

theorem Tidy.release {m : Machine} (hm : m.Tidy) (f : Frame) : (m.release f).Tidy :=
  hm.modifyPool _ _ fun _ _ ht => ht.release _

theorem Tidy.write {m : Machine} (hm : m.Tidy) {f : Frame} (h : 0 < m.refs f) (o : Nat) (d : Bytes) :
    (m.write f o d).Tidy := by
  obtain ⟨p, hp, hr⟩ := exists_of_refs_pos h
  refine hm.modifyPool _ _ fun q hq ht => ht.write ?_ o d
  obtain rfl : p = q := by simpa [hp] using hq
  exact hr

theorem refs_retain {m : Machine} {f : Frame} (h : 0 < m.refs f) (g : Frame) :
    (m.retain f).refs g = m.refs g + if f = g then 1 else 0 := by
  obtain ⟨p, hp, hr⟩ := exists_of_refs_pos h
  obtain ⟨i, n⟩ := f
  obtain ⟨j, k⟩ := g
  simp only [refs, retain, pool_modifyPool, Frame.mk.injEq]
  by_cases e : i = j
  · subst e
    rw [hp]
    by_cases hk : n = k
    · subst hk; simp [Pool.refs_retain _ _ _ (Pool.lt_capacity_of_refs_pos hr)]
    · simp [hk, Pool.refs, Pool.slot_retain]
  · simp [e]

theorem page_release (m : Machine) (f g : Frame) :
    (m.release f).page g = if f = g ∧ m.refs g = 1 then Page.zero else m.page g := by
  obtain ⟨i, n⟩ := f
  obtain ⟨j, k⟩ := g
  simp only [page, refs, release, pool_modifyPool, Frame.mk.injEq]
  cases m.pools[j]? with
  | none => simp
  | some p => by_cases e : i = j <;> simp [e, Pool.page_release]

theorem page_write {m : Machine} {f : Frame} (h : 0 < m.refs f) (o : Nat) (d : Bytes) (g : Frame) :
    (m.write f o d).page g = if f = g then (m.page g).write o d else m.page g := by
  obtain ⟨p, hp, hr⟩ := exists_of_refs_pos h
  obtain ⟨i, n⟩ := f
  obtain ⟨j, k⟩ := g
  simp only [page, write, pool_modifyPool, Frame.mk.injEq]
  by_cases e : i = j
  · subst e
    rw [hp]
    by_cases hk : n = k
    · subst hk; simp [Pool.page_write _ _ _ _ _ (Pool.lt_capacity_of_refs_pos hr)]
    · simp [hk, Pool.page, Pool.slot_write]
  · simp [e]

theorem bare_release (m : Machine) (f : Frame) : (m.release f).bare = m.bare.release f := by
  unfold bare release modifyPool
  simp only [mk.injEq, and_true]
  apply Array.ext_getElem?
  intro j
  simp only [Array.getElem?_map, Array.getElem?_modify]
  split
  · cases m.pools[j]? with
    | none => rfl
    | some p => simp [Pool.bare_release]
  · rfl

/-- **A hold that is given up at once leaves no trace.** -/
theorem release_retain {m : Machine} {f : Frame} (h : 0 < m.refs f) : (m.retain f).release f = m := by
  obtain ⟨p, hp, hr⟩ := exists_of_refs_pos h
  obtain ⟨pools, console⟩ := m
  simp only [retain, release, modifyPool, mk.injEq, and_true]
  apply Array.ext_getElem?
  intro j
  simp only [Array.getElem?_modify]
  split
  next e =>
    subst e
    rw [hp]
    simp [Pool.release_retain p hr]
  next => rfl

/-! ### Giving back many frames -/

theorem refs_releaseAll (fs : List Frame) (m : Machine) (g : Frame) :
    (m.releaseAll fs).refs g = m.refs g - fs.count g := by
  induction fs generalizing m with
  | nil => rfl
  | cons f fs ih =>
    rw [releaseAll, List.foldl_cons, ← releaseAll, ih, refs_release, List.count_cons]
    by_cases e : f = g
    · subst e; simp; omega
    · simp [e]

theorem page_releaseAll (fs : List Frame) {m : Machine} {g : Frame} (h : 0 < (m.releaseAll fs).refs g) :
    (m.releaseAll fs).page g = m.page g := by
  induction fs generalizing m with
  | nil => rfl
  | cons f fs ih =>
    rw [releaseAll, List.foldl_cons, ← releaseAll] at h ⊢
    rw [ih h, page_release, if_neg]
    rintro ⟨rfl, hr⟩
    rw [refs_releaseAll, refs_release] at h
    simp [hr] at h

theorem Tidy.releaseAll {m : Machine} (hm : m.Tidy) (fs : List Frame) : (m.releaseAll fs).Tidy := by
  induction fs generalizing m with
  | nil => exact hm
  | cons f fs ih => exact ih (hm.release f)

end Machine
end Exokernel
