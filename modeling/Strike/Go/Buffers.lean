/-
**Vectored writes** (`net.Buffers` of Go 1.12).

`WriteTo` shortens the slice of buffers it is called on: buffers written whole are cut off its front,
and the first one that is not is shortened in the array itself. Another slice of the same array sees
only the latter.
-/

import Mathlib

namespace Strike.Go

variable {α : Type}

/-- `Buffers.consume`: the slice behind a write of `n` bytes. -/
def consume (n : Nat) : List (List α) → List (List α)
  | [] => []
  | b :: bs => if n < b.length then b.drop n :: bs else consume (n - b.length) bs

/-- The buffers that a write of `n` bytes completes. -/
def whole (n : Nat) : List (List α) → List (List α)
  | [] => []
  | b :: bs => if n < b.length then [] else b :: whole (n - b.length) bs

/-- The array behind a write of `n` bytes. -/
def inPlace (n : Nat) : List (List α) → List (List α)
  | [] => []
  | b :: bs => if n < b.length then b.drop n :: bs else b :: inPlace (n - b.length) bs

theorem flatten_consume (bs : List (List α)) : ∀ n, (consume n bs).flatten = bs.flatten.drop n := by
  induction bs with
  | nil => exact fun n => List.drop_nil.symm
  | cons b bs ih =>
    intro n
    unfold consume
    rw [List.flatten_cons, List.drop_append]
    split
    · next inside => rw [List.flatten_cons, Nat.sub_eq_zero_of_le inside.le, List.drop_zero]
    · next completed => rw [ih, List.drop_eq_nil_of_le (Nat.le_of_not_lt completed), List.nil_append]

theorem inPlace_eq (bs : List (List α)) : ∀ n, inPlace n bs = whole n bs ++ consume n bs := by
  induction bs with
  | nil => exact fun _ => rfl
  | cons b bs ih =>
    intro n
    unfold inPlace whole consume
    split
    · rfl
    · rw [ih, List.cons_append]

/-- Where no buffer with bytes is completed, the array has lost what was written. -/
theorem flatten_inPlace {n : Nat} {bs : List (List α)} (none : ∀ b ∈ whole n bs, b = []) :
    (inPlace n bs).flatten = bs.flatten.drop n := by
  rw [inPlace_eq, List.flatten_append, List.flatten_eq_nil_iff.mpr none, List.nil_append, flatten_consume]

/-- Nothing is lost: a byte was written or is still in the array. -/
theorem mem_inPlace {n : Nat} {bs : List (List α)} {x : α} (there : x ∈ bs.flatten) :
    x ∈ bs.flatten.take n ∨ x ∈ (inPlace n bs).flatten := by
  rw [← List.take_append_drop n bs.flatten, ← flatten_consume] at there
  rw [inPlace_eq, List.flatten_append]
  exact (List.mem_append.mp there).imp_right (List.mem_append_right _)

theorem inPlace_subset {n : Nat} {bs : List (List α)} {x : α} (there : x ∈ (inPlace n bs).flatten) :
    x ∈ bs.flatten := by
  induction bs generalizing n with
  | nil => exact there
  | cons b bs ih =>
    unfold inPlace at there
    rw [List.flatten_cons]
    split at there
    · rw [List.flatten_cons] at there
      exact (List.mem_append.mp there).elim (fun inside => List.mem_append_left _ (List.mem_of_mem_drop inside))
        (List.mem_append_right _)
    · rw [List.flatten_cons] at there
      exact (List.mem_append.mp there).elim (List.mem_append_left _) fun later => List.mem_append_right _ (ih later)

end Strike.Go
