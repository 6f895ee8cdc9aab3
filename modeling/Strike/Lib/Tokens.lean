/-
**Counting tokens.**

Where things move between lists and none is copied, their number is kept. A weight says how many tokens an
entry carries; the total changes by what the changed entries carry.

* `tokens_set`, `tokens_perm`: the total after an entry changed, was added or taken out.
* `eq_of_tokens_le_one`: one token is in one entry.
* `one_token`: things that move, and new ones, have one token each.
-/

import Mathlib

namespace Strike.Lib

variable {α : Type}

/-- One token for one entry. -/
def mark [DecidableEq α] (a x : α) : Nat := if x = a then 1 else 0

@[simp] theorem mark_self [DecidableEq α] (a : α) : mark a a = 1 := if_pos rfl

theorem mark_of_ne [DecidableEq α] {a x : α} (other : x ≠ a) : mark a x = 0 := if_neg other

@[simp] theorem mark_some [DecidableEq α] (a x : α) : mark (some a) (some x) = mark a x := by
  simp only [mark, Option.some.injEq]

theorem mark_pos [DecidableEq α] {a x : α} : 0 < mark a x ↔ x = a := by
  unfold mark
  split <;> simp [*]

/-- The tokens in a list. -/
def tokens (weight : α → Nat) (l : List α) : Nat := (l.map weight).sum

variable (weight : α → Nat)

@[simp] theorem tokens_nil : tokens weight [] = 0 := rfl

@[simp] theorem tokens_cons (a : α) (l : List α) : tokens weight (a :: l) = weight a + tokens weight l :=
  List.sum_cons

@[simp] theorem tokens_append (l₁ l₂ : List α) : tokens weight (l₁ ++ l₂) = tokens weight l₁ + tokens weight l₂ := by
  rw [tokens, List.map_append, List.sum_append, tokens, tokens]

theorem tokens_perm {l₁ l₂ : List α} (same : l₁.Perm l₂) : tokens weight l₁ = tokens weight l₂ :=
  (same.map weight).sum_eq

theorem tokens_set {l : List α} {i : Nat} {a : α} (at_ : l[i]? = some a) (b : α) :
    tokens weight (l.set i b) + weight a = tokens weight l + weight b := by
  induction l generalizing i with
  | nil => cases at_
  | cons x l ih =>
    cases i with
    | zero =>
      cases at_
      simp only [List.set_cons_zero, tokens_cons]
      omega
    | succ i =>
      have rest := ih (show l[i]? = some a from at_)
      simp only [List.set_cons_succ, tokens_cons]
      omega

theorem tokens_set_le (l : List α) (i : Nat) (b : α) : tokens weight (l.set i b) ≤ tokens weight l + weight b := by
  cases at_ : l[i]? with
  | none =>
    rw [List.set_eq_of_length_le (List.getElem?_eq_none_iff.mp at_)]
    omega
  | some a =>
    have := tokens_set weight at_ b
    omega

theorem weight_le_tokens {l : List α} {a : α} (member : a ∈ l) : weight a ≤ tokens weight l :=
  List.single_le_sum (fun _ _ => Nat.zero_le _) _ (List.mem_map_of_mem member)

theorem tokens_add (f g : α → Nat) (l : List α) : tokens (fun a => f a + g a) l = tokens f l + tokens g l :=
  List.sum_map_add

theorem tokens_mono {f g : α → Nat} (le : ∀ a, f a ≤ g a) (l : List α) : tokens f l ≤ tokens g l :=
  List.sum_le_sum fun a _ => le a

variable {weight} in
theorem tokens_eq_zero {l : List α} (none_ : ∀ a ∈ l, weight a = 0) : tokens weight l = 0 :=
  List.sum_eq_zero (by simpa using none_)

variable {weight} in
/-- **One token is in one entry.** -/
theorem eq_of_tokens_le_one {l : List α} (one : tokens weight l ≤ 1) {i j : Nat} {a b : α} (at_i : l[i]? = some a)
    (at_j : l[j]? = some b) (first : 0 < weight a) (second : 0 < weight b) : i = j := by
  induction l generalizing i j with
  | nil => cases at_i
  | cons x l ih =>
    rw [tokens_cons] at one
    -- the token of the first entry leaves none for the others
    have others : ∀ {k : Nat} {c : α}, l[k]? = some c → 0 < weight c → weight x = 0 := by
      intro k c at_k carries
      have := weight_le_tokens weight (List.mem_of_getElem? at_k)
      omega
    cases i with
    | zero =>
      cases j with
      | zero => rfl
      | succ j =>
        cases at_i
        exact absurd (others at_j second) first.ne'
    | succ i =>
      cases j with
      | zero =>
        cases at_j
        exact absurd (others at_i first) second.ne'
      | succ j => exact congrArg Nat.succ (ih (by omega) at_i at_j)

/-- **Things that move, and new ones.** They are numbered, `n` of them so far; a step moves the tokens of some and
may add one for the next thing. -/
theorem one_token {total total' : Nat → Nat} {n n' : Nat} (one : ∀ x, total x ≤ 1) (fresh : ∀ x, n ≤ x → total x = 0)
    (more : n ≤ n') (moves : ∀ x, total' x ≤ total x ∨ (x = n ∧ n < n' ∧ total' x ≤ total x + 1)) :
    (∀ x, total' x ≤ 1) ∧ ∀ x, n' ≤ x → total' x = 0 := by
  constructor
  · intro x
    have before := one x
    rcases moves x with moved | ⟨rfl, -, added⟩
    · omega
    · have none_ := fresh x le_rfl
      omega
  · intro x later
    have none_ := fresh x (more.trans later)
    rcases moves x with moved | ⟨rfl, new, -⟩
    · omega
    · omega

end Strike.Lib
