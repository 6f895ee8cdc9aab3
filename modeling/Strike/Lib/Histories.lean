/-
**What happened to each of many things.**

The things are numbered, and a log says what happened to which of them. `Tells` says that the log is true of
every single one: read alone, it leads from where the thing began to where it is.

* `Follows.refines`: a history of one kind is one of another kind.
-/

import Mathlib

namespace Strike.Lib

variable {Index View Event : Type}

/-- What a log says of one thing. -/
def own [DecidableEq Index] (i : Index) (log : List (Index × Event)) : List Event :=
  log.filterMap fun entry => if entry.1 = i then some entry.2 else none

/-- **Events that lead from one view to another**, one move each. -/
inductive Follows (moves : View → Event → View → Prop) : View → List Event → View → Prop
  | nil (v : View) : Follows moves v [] v
  | cons {v w u : View} {event : Event} {events : List Event} (move : moves v event w)
      (rest : Follows moves w events u) : Follows moves v (event :: events) u

variable {moves : View → Event → View → Prop}

theorem Follows.append {v w u : View} {first second : List Event} (before : Follows moves v first w)
    (behind : Follows moves w second u) : Follows moves v (first ++ second) u := by
  induction before with
  | nil v => exact behind
  | cons move _ ih => exact .cons move (ih behind)

/-- **A history is one of another kind**, if each move is one. -/
theorem Follows.refines {Abstract : Type} {spec : Abstract → Event → Abstract → Prop} {R : View → Abstract → Prop}
    {fine : Event → Prop} (single : ∀ {v event v' a}, R v a → fine event → moves v event v' →
      ∃ a', spec a event a' ∧ R v' a') {v v' : View} {events : List Event} (follows : Follows moves v events v')
    {a : Abstract} (start : R v a) (all : ∀ event ∈ events, fine event) :
    ∃ a', Follows spec a events a' ∧ R v' a' := by
  induction follows generalizing a with
  | nil v => exact ⟨a, .nil a, start⟩
  | cons move _ ih =>
    obtain ⟨here, later⟩ := List.forall_mem_cons.mp all
    obtain ⟨b, stepped, related⟩ := single start here move
    obtain ⟨c, rest, end_⟩ := ih related later
    exact ⟨c, .cons stepped rest, end_⟩

variable [DecidableEq Index]

theorem own_append (i : Index) (log more : List (Index × Event)) : own i (log ++ more) = own i log ++ own i more :=
  List.filterMap_append

theorem own_self (i : Index) (event : Event) : own i [(i, event)] = [event] := by
  simp only [own, List.filterMap_cons, if_true, List.filterMap_nil]

theorem own_other {i j : Index} (other : j ≠ i) (event : Event) : own i [(j, event)] = [] := by
  simp only [own, List.filterMap_cons, if_neg other, List.filterMap_nil]

/-- **The log is true of each thing.** -/
def Tells (moves : View → Event → View → Prop) (start : View) (view : Index → View) (log : List (Index × Event)) : Prop :=
  ∀ i, Follows moves start (own i log) (view i)

namespace Tells

variable {start : View} {view view' : Index → View} {log : List (Index × Event)}

theorem silent (tells : Tells moves start view log) (same : ∀ i, view' i = view i) : Tells moves start view' log :=
  fun i => same i ▸ tells i

theorem note (tells : Tells moves start view log) {i : Index} {event : Event} (move : moves (view i) event (view' i))
    (others : ∀ j ≠ i, view' j = view j) : Tells moves start view' (log ++ [(i, event)]) := by
  intro j
  rw [own_append]
  by_cases same : j = i
  · subst same
    rw [own_self]
    exact (tells j).append (.cons move (.nil _))
  · rw [own_other (Ne.symm same), List.append_nil, others j same]
    exact tells j

end Tells

end Strike.Lib
