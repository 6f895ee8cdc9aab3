/-
**Loops that every round makes smaller.**

A `Loop` is the body of a loop, which says when it is left, with a size that falls in every round. So it can
be run to its end (`run`), and what holds of the state it is left in follows from what one round does:

* `run_done`: the loop has been left, not cut off.
* `run_keeps`: what a round keeps, the loop keeps.
-/

import Mathlib

namespace Strike.Lib

/-- A loop. -/
structure Loop (State : Type) where
  /-- One round, unless the loop is left. -/
  round : State → Option State
  size : State → Nat
  falls : ∀ {s s' : State}, round s = some s' → size s' < size s

namespace Loop

variable {State : Type} (l : Loop State) {s s' : State}

/-- At most `n` rounds. -/
def rounds : Nat → State → State
  | 0, s => s
  | n + 1, s =>
    match l.round s with
    | none => s
    | some s' => rounds n s'

/-- **The state the loop is left in.** -/
def run (s : State) : State := l.rounds (l.size s) s

/-- As many rounds as the size says are enough. -/
theorem rounds_done (n : Nat) : ∀ {s : State}, l.size s ≤ n → l.round (l.rounds n s) = none := by
  induction n with
  | zero =>
    intro s small
    rw [rounds, Option.eq_none_iff_forall_ne_some]
    intro s' stepped
    have := l.falls stepped
    omega
  | succ n ih =>
    intro s small
    unfold rounds
    cases stepped : l.round s with
    | none => exact stepped
    | some s' =>
      have := l.falls stepped
      exact ih (by omega)

/-- **The loop is left.** -/
theorem run_done (s : State) : l.round (l.run s) = none := l.rounds_done _ le_rfl

theorem rounds_of_done (left : l.round s = none) (n : Nat) : l.rounds n s = s := by
  cases n with
  | zero => rfl
  | succ n => rw [rounds, left]

theorem run_of_done (left : l.round s = none) : l.run s = s := l.rounds_of_done left _

theorem rounds_enough (n : Nat) :
    ∀ {m : Nat} {s : State}, l.size s ≤ n → l.size s ≤ m → l.rounds n s = l.rounds m s := by
  induction n with
  | zero =>
    intro m s small _
    have left : l.round s = none := l.rounds_done 0 small
    rw [l.rounds_of_done left, l.rounds_of_done left]
  | succ n ih =>
    intro m s small small'
    cases stepped : l.round s with
    | none => rw [l.rounds_of_done stepped, l.rounds_of_done stepped]
    | some s' =>
      have fell := l.falls stepped
      obtain ⟨m, rfl⟩ : ∃ less, m = less + 1 := ⟨m - 1, by omega⟩
      rw [rounds, rounds, stepped]
      exact ih (by omega) (by omega)

theorem run_of_round (stepped : l.round s = some s') : l.run s = l.run s' := by
  have fell := l.falls stepped
  obtain ⟨n, size⟩ : ∃ n, l.size s = n + 1 := ⟨l.size s - 1, by omega⟩
  rw [run, size, rounds, stepped]
  exact l.rounds_enough n (by omega) le_rfl

/-- **What a round keeps, the loop keeps.** -/
theorem run_keeps {P : State → Prop} (keeps : ∀ {s s' : State}, P s → l.round s = some s' → P s')
    (holds : P s) : P (l.run s) := by
  suffices all : ∀ (n : Nat) {s : State}, P s → P (l.rounds n s) from all _ holds
  intro n
  induction n with
  | zero => exact fun holds => holds
  | succ n ih =>
    intro s holds
    unfold rounds
    cases stepped : l.round s with
    | none => exact holds
    | some s' => exact ih (keeps holds stepped)

end Loop

end Strike.Lib
