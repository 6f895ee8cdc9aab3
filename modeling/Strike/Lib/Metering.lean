/-
**Machines that grant or refuse calls, against the clock.**

A call is granted when the machine answers it with `true`. `Machine.granted` are the granted calls of a
run, `within` those of a list of times that lie in a closed window.

* `Meter`: what a machine has at a time is a credit that grows with the time up to a cap, and that every
  granted call has to find and to pay from.
* `Meter.consecutive`, `Meter.stretch`: so the times of granted calls that follow each other are apart.
* `Meter.within_le`: and a window holds only so many of them.
-/

import Strike.Lib.Machine

namespace Strike.Lib

/-! ### Windows -/

/-- The times in a closed window. -/
def within (a b : Int) (times : List Int) : List Int := times.filter fun t => a ≤ t ∧ t ≤ b

theorem mem_within {a b t : Int} {times : List Int} : t ∈ within a b times ↔ t ∈ times ∧ a ≤ t ∧ t ≤ b := by
  rw [within, List.mem_filter, decide_eq_true_iff]

/-- **Times in order** are before a window, in it, and behind it. -/
theorem filter_append_within (a b : Int) {times : List Int} (ordered : times.Pairwise (· ≤ ·)) :
    times.filter (· < a) ++ (within a b times ++ times.filter fun t => a ≤ t ∧ b < t) = times := by
  induction times with
  | nil => rfl
  | cons t times ih =>
    obtain ⟨later, ordered⟩ := List.pairwise_cons.mp ordered
    have rest := ih ordered
    by_cases before : t < a
    · rw [within, List.filter_cons_of_pos (by simpa using before),
        List.filter_cons_of_neg (by simpa using fun low => absurd before (not_lt.mpr low)),
        List.filter_cons_of_neg (by simpa using fun low => absurd before (not_lt.mpr low))]
      exact congrArg (t :: ·) rest
    · -- Nothing behind `t` is before the window either.
      have low : a ≤ t := not_lt.mp before
      have none : times.filter (· < a) = [] := by
        rw [List.filter_eq_nil_iff]
        intro t' there
        simpa using low.trans (later t' there)
      rw [none, List.nil_append] at rest
      rw [List.filter_cons_of_neg (by simpa using low), none, List.nil_append]
      by_cases inside : t ≤ b
      · rw [within, List.filter_cons_of_pos (by simpa using ⟨low, inside⟩),
          List.filter_cons_of_neg (by simpa using fun _ => inside)]
        exact congrArg (t :: ·) rest
      · have behind : b < t := not_le.mp inside
        have none : within a b times = [] := by
          rw [within, List.filter_eq_nil_iff]
          intro t' there
          simpa using fun _ => behind.trans_le (later t' there)
        rw [none, List.nil_append] at rest
        rw [show within a b (t :: times) = [] from
            (List.filter_cons_of_neg (by simpa using fun _ => behind)).trans none,
          List.filter_cons_of_pos (by simpa using ⟨low, behind⟩), List.nil_append, rest]

theorem pairwise_again {t : Int} {times : List Int} (ordered : (t :: times).Pairwise (· ≤ ·)) :
    (t :: t :: times).Pairwise (· ≤ ·) := by
  refine List.pairwise_cons.mpr ⟨fun c there => ?_, ordered⟩
  rcases List.mem_cons.mp there with rfl | there
  · exact le_rfl
  · exact (List.pairwise_cons.mp ordered).1 c there

/-! ### Granted calls -/

namespace Machine

variable {State Op : Type}

/-- The calls of a run that are answered with `true`. -/
def granted (m : Machine State Op Bool) : State → List Op → List Op
  | _, [] => []
  | s, op :: ops =>
    if (m.step s op).1 then op :: m.granted (m.step s op).2 ops else m.granted (m.step s op).2 ops

variable {m : Machine State Op Bool}

theorem granted_of_true {s : State} {op : Op} (ops : List Op) (ok : (m.step s op).1 = true) :
    m.granted s (op :: ops) = op :: m.granted (m.step s op).2 ops :=
  if_pos ok

theorem granted_of_false {s : State} {op : Op} (ops : List Op) (refused : (m.step s op).1 = false) :
    m.granted s (op :: ops) = m.granted (m.step s op).2 ops :=
  if_neg (ne_true_of_eq_false refused)

theorem granted_append (first second : List Op) :
    ∀ s, m.granted s (first ++ second) = m.granted s first ++ m.granted (m.run s first).2 second := by
  induction first with
  | nil => exact fun s => rfl
  | cons op first ih =>
    intro s
    rw [List.cons_append, run_cons]
    cases answer : (m.step s op).1 with
    | true => rw [granted_of_true _ answer, granted_of_true _ answer, ih, List.cons_append]
    | false => rw [granted_of_false _ answer, granted_of_false _ answer, ih]

/-- The first call, and the others behind it. -/
theorem granted_cons (s : State) (op : Op) (ops : List Op) :
    m.granted s (op :: ops) = m.granted s [op] ++ m.granted (m.step s op).2 ops :=
  granted_append [op] ops s

theorem admits_true (ops : List Op) : ∀ s : State, m.Admits (fun _ _ => True) s ops := by
  induction ops with
  | nil => exact fun _ => trivial
  | cons op ops ih => exact fun s => ⟨trivial, ih _⟩

theorem granted_sublist (ops : List Op) : ∀ s, (m.granted s ops).Sublist ops := by
  induction ops with
  | nil => exact fun s => .slnil
  | cons op ops ih =>
    intro s
    cases answer : (m.step s op).1 with
    | true => exact (granted_of_true ops answer) ▸ (ih _).cons_cons op
    | false => exact (granted_of_false ops answer) ▸ (ih _).cons op

end Machine

/-! ### Credit -/

section Meter

variable {State : Type} {m : Machine State Int Bool} {cond valid : State → Int → Prop} {credit : State → Int → ℚ}
  {cap rate need cost : ℚ}

/-- **A machine with a credit.** `valid s t` says that the machine can be in state `s` at time `t`, and
`cond s t` that a call is admitted then. -/
structure Meter (m : Machine State Int Bool) (cond valid : State → Int → Prop) (credit : State → Int → ℚ)
    (cap rate need cost : ℚ) : Prop where
  later : ∀ {s t t'}, valid s t → t ≤ t' → valid s t'
  keeps : ∀ {s t}, valid s t → cond s t → valid (m.step s t).2 t
  bounded : ∀ {s t}, valid s t → credit s t ≤ cap
  grows : ∀ {s t t'}, valid s t → t ≤ t' → credit s t' ≤ credit s t + rate * (t' - t)
  finds : ∀ {s t}, valid s t → cond s t → (m.step s t).1 = true → need ≤ credit s t
  pays : ∀ {s t}, valid s t → cond s t → (m.step s t).1 = true → credit (m.step s t).2 t ≤ credit s t - cost
  spares : ∀ {s t}, valid s t → cond s t → (m.step s t).1 = false → credit (m.step s t).2 t ≤ credit s t

namespace Meter

/-- What the calls up to a granted one have paid was there at the beginning or came with the time. -/
theorem paid (meter : Meter m cond valid credit cap rate need cost) (calls : List Int) :
    ∀ {s : State} {t : Int}, valid s t → (t :: calls).Pairwise (· ≤ ·) → m.Admits cond s calls →
      ∀ {i : Nat} {b : Int}, (m.granted s calls)[i]? = some b → need + i * cost ≤ credit s t + rate * (b - t) := by
  induction calls with
  | nil =>
    intro s t _ _ _ i b there
    cases there
  | cons t' calls ih =>
    intro s t valid ordered admitted i b there
    obtain ⟨here, rest⟩ := admitted
    obtain ⟨below, ordered⟩ := List.pairwise_cons.mp ordered
    have soon : t ≤ t' := below t' List.mem_cons_self
    have then_ := meter.later valid soon
    have grown := meter.grows valid soon
    have next := @ih _ _ (meter.keeps then_ here) ordered rest
    cases answer : (m.step s t').1 with
    | false =>
      rw [Machine.granted_of_false calls answer] at there
      have later := next there
      have spared := meter.spares then_ here answer
      linarith
    | true =>
      rw [Machine.granted_of_true calls answer] at there
      cases i with
      | zero =>
        obtain rfl : t' = b := Option.some.inj there
        have found := meter.finds then_ here answer
        rw [Nat.cast_zero, zero_mul, add_zero]
        linarith
      | succ i =>
        have later := next there
        have paid := meter.pays then_ here answer
        rw [Nat.cast_succ, add_mul, one_mul]
        linarith

/-- **Granted calls that follow each other are apart.** -/
theorem consecutive (meter : Meter m cond valid credit cap rate need cost) (calls : List Int) :
    ∀ {s : State} {t : Int}, valid s t → (t :: calls).Pairwise (· ≤ ·) → m.Admits cond s calls →
      ∀ {i n : Nat} {a b : Int}, (m.granted s calls)[i]? = some a → (m.granted s calls)[i + n]? = some b →
        need + n * cost ≤ cap + rate * (b - a) := by
  induction calls with
  | nil =>
    intro s t _ _ _ i n a b there
    cases there
  | cons t' calls ih =>
    intro s t valid ordered admitted i n a b first last
    have inner := (List.pairwise_cons.mp ordered).2
    have then_ := meter.later valid ((List.pairwise_cons.mp ordered).1 t' List.mem_cons_self)
    have next := @ih _ _ (meter.keeps then_ admitted.1) inner admitted.2
    cases answer : (m.step s t').1 with
    | false =>
      rw [Machine.granted_of_false calls answer] at first last
      exact next first last
    | true =>
      cases i with
      | zero =>
        rw [Machine.granted_of_true calls answer] at first
        obtain rfl : t' = a := Option.some.inj first
        rw [Nat.zero_add] at last
        have paid := meter.paid _ then_ (pairwise_again inner) admitted last
        have bounded := meter.bounded then_
        linarith
      | succ i =>
        rw [Machine.granted_of_true calls answer] at first last
        rw [Nat.succ_add] at last
        exact next first last

/-- **So many granted calls follow each other** from time `a` to time `b`. -/
theorem stretch (meter : Meter m cond valid credit cap rate need cost) {calls : List Int} {s : State} {t a b : Int}
    (start : valid s t) (ordered : (t :: calls).Pairwise (· ≤ ·)) (admitted : m.Admits cond s calls)
    {front run back : List Int} (split : front ++ (run ++ back) = m.granted s calls) (first : run.head? = some a)
    (last : run.getLast? = some b) : need + (run.length - 1) * cost ≤ cap + rate * (b - a) := by
  have place : ∀ {k c}, run[k]? = some c → (m.granted s calls)[front.length + k]? = some c := by
    intro k c there
    rw [← split, List.getElem?_append_right (Nat.le_add_right _ _), Nat.add_sub_cancel_left,
      List.getElem?_append_left (List.getElem?_eq_some_iff.mp there).1, there]
  rw [List.head?_eq_getElem?] at first
  rw [List.getLast?_eq_getElem?] at last
  have apart := meter.consecutive calls start ordered admitted (place first) (place last)
  have some_ : 1 ≤ run.length := (List.getElem?_eq_some_iff.mp first).1
  rwa [Nat.cast_sub some_, Nat.cast_one] at apart

/-- **A window holds only so many granted calls.** -/
theorem within_le (meter : Meter m cond valid credit cap rate need cost) {calls : List Int} {s : State} {t a b : Int}
    (start : valid s t) (ordered : (t :: calls).Pairwise (· ≤ ·)) (admitted : m.Admits cond s calls)
    (grows : 0 ≤ rate) (some_ : within a b (m.granted s calls) ≠ []) :
    need + ((within a b (m.granted s calls)).length - 1) * cost ≤ cap + rate * (b - a) := by
  have sorted : (m.granted s calls).Pairwise (· ≤ ·) :=
    (List.pairwise_cons.mp ordered).2.sublist (m.granted_sublist calls s)
  have apart := meter.stretch start ordered admitted (filter_append_within a b sorted)
    (List.head?_eq_some_head some_) (List.getLast?_eq_some_getLast some_)
  have low : a ≤ (within a b (m.granted s calls)).head some_ := (mem_within.mp (List.head_mem some_)).2.1
  have high : (within a b (m.granted s calls)).getLast some_ ≤ b := (mem_within.mp (List.getLast_mem some_)).2.2
  refine apart.trans (add_le_add_right (mul_le_mul_of_nonneg_left (sub_le_sub ?_ ?_) grows) cap)
  · exact_mod_cast high
  · exact_mod_cast low

end Meter

end Meter

end Strike.Lib
