/-
**`sync.Pool`.**

A pool holds the objects that were put and not taken since, and `Get` returns any of them or nothing. Objects
the runtime drops are never returned, so they may as well stay.
-/

import Mathlib

namespace Strike

variable {α : Type}

/-- `Get` of a `sync.Pool`: nothing, or the object at an index. -/
def takeOut (pool : List α) : Option Nat → Option (Option α × List α)
  | none => some (none, pool)
  | some i => pool[i]?.map fun object => (some object, pool.eraseIdx i)

/-- Everything `Get` can do. -/
inductive Got (pool : List α) : Option α × List α → Prop
  | nothing : Got pool (none, pool)
  | object {object : α} {rest : List α} (split : pool.Perm (object :: rest)) : Got pool (some object, rest)

theorem got_of_takeOut {pool : List α} {choice : Option Nat} {result : Option α × List α}
    (took : takeOut pool choice = some result) : Got pool result := by
  cases choice with
  | none =>
    obtain rfl := Option.some.inj took
    exact .nothing
  | some i =>
    obtain ⟨object, at_, rfl⟩ := Option.map_eq_some_iff.mp took
    obtain ⟨bound, rfl⟩ := List.getElem?_eq_some_iff.mp at_
    exact .object (List.getElem_cons_eraseIdx_perm bound).symm

/-! ### Objects by their numbers -/

theorem getElem?_set_cases {objects : List α} {r r' : Nat} {changed object : α}
    (found : (objects.set r changed)[r']? = some object) :
    (r' = r ∧ object = changed) ∨ (r' ≠ r ∧ objects[r']? = some object) := by
  rw [List.getElem?_set] at found
  split_ifs at found with same
  · exact .inl ⟨same.symm, (Option.some.inj found).symm⟩
  · exact .inr ⟨Ne.symm same, found⟩

theorem getElem?_concat_cases {objects : List α} {r : Nat} {new object : α}
    (found : (objects ++ [new])[r]? = some object) :
    objects[r]? = some object ∨ (r = objects.length ∧ object = new) := by
  by_cases inside : r < objects.length
  · exact .inl (by rwa [List.getElem?_append_left inside] at found)
  · rw [List.getElem?_append_right (by omega)] at found
    obtain ⟨bound, rfl⟩ := List.getElem?_eq_some_iff.mp found
    rw [List.length_singleton] at bound
    exact .inr ⟨by omega, List.getElem_singleton bound⟩

end Strike
