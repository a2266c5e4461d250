import Exokernel.Env.Id
/-!
# Something for some environments

What is known of environments by their ids, of some of them and not of others.
-/
namespace Exokernel

/-- Something for some environments. -/
abbrev EnvMap (α : Type) := EnvId → Option α

namespace EnvMap

variable {α : Type} {m : EnvMap α} {i j : EnvId} {o : Option α} {x : α} {f : α → α}

def set (m : EnvMap α) (i : EnvId) (o : Option α) : EnvMap α := fun j => if i = j then o else m j

@[simp] theorem set_self : m.set i o i = o := if_pos rfl

theorem set_of_ne (h : i ≠ j) : m.set i o j = m j := if_neg h

theorem set_eq_self (h : m i = o) : m.set i o = m := by
  funext j
  by_cases hj : i = j
  · subst hj
    rw [set_self, h]
  · exact set_of_ne hj

theorem set_set (m : EnvMap α) (i : EnvId) (o o' : Option α) : (m.set i o).set i o' = m.set i o' := by
  funext j
  by_cases hj : i = j
  · subst hj
    rw [set_self, set_self]
  · rw [set_of_ne hj, set_of_ne hj, set_of_ne hj]

/-- Change what there is for an environment, if there is something. -/
def modify (m : EnvMap α) (i : EnvId) (f : α → α) : EnvMap α := m.set i ((m i).map f)

theorem modify_of_eq_some (h : m i = some x) (f : α → α) : m.modify i f = m.set i (some (f x)) := by
  rw [modify, h, Option.map_some]

theorem modify_apply (m : EnvMap α) (i j : EnvId) (f : α → α) :
    m.modify i f j = (m j).map fun x => if i = j then f x else x := by
  by_cases hj : i = j
  · subst hj
    simp only [modify, set_self, if_pos]
  · rw [modify, set_of_ne hj]
    simp only [if_neg hj, Option.map_id']

end EnvMap
end Exokernel
