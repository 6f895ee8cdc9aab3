/-
**A machine as seen by one of its users.**

`mine` picks the operations of one user and says what they are for a smaller machine. If those are
answered as the smaller machine answers them, and the others leave no trace, the user cannot tell the
two machines apart, whatever the others do.

* `View.answers`: the answers to the user's operations are those of the smaller machine.
-/

import Strike.Lib.Metering

namespace Strike.Lib

namespace Machine

variable {State Part Op Act Out : Type}

/-- The answers to the operations of one user. -/
def answers (m : Machine State Op Out) (mine : Op → Option Act) : State → List Op → List Out
  | _, [] => []
  | s, op :: ops =>
    if (mine op).isSome then (m.step s op).1 :: m.answers mine (m.step s op).2 ops
    else m.answers mine (m.step s op).2 ops

/-- **The user sees the smaller machine.** The relation may look at the operations that are to come. -/
structure View (m : Machine State Op Out) (a : Machine Part Act Out) (mine : Op → Option Act)
    (rel : List Op → State → Part → Prop) : Prop where
  out : ∀ {op ops act s p}, rel (op :: ops) s p → mine op = some act → (m.step s op).1 = (a.step p act).1
  next : ∀ {op ops act s p}, rel (op :: ops) s p → mine op = some act → rel ops (m.step s op).2 (a.step p act).2
  other : ∀ {op ops s p}, rel (op :: ops) s p → mine op = none → rel ops (m.step s op).2 p

namespace View

variable {m : Machine State Op Out} {a : Machine Part Act Out} {mine : Op → Option Act}
  {rel : List Op → State → Part → Prop}

theorem answers (view : View m a mine rel) (ops : List Op) :
    ∀ {s : State} {p : Part}, rel ops s p → m.answers mine s ops = (a.run p (ops.filterMap mine)).1 := by
  induction ops with
  | nil => exact fun _ => rfl
  | cons op ops ih =>
    intro s p related
    unfold Machine.answers
    cases act : mine op with
    | none =>
      rw [List.filterMap_cons_none act]
      exact ih (view.other related act)
    | some act' =>
      rw [List.filterMap_cons_some act, run_cons, view.out related act, ← ih (view.next related act)]
      rfl

theorem admits (view : View m a mine rel) {cond : State → Op → Prop} {cond' : Part → Act → Prop}
    (carries : ∀ {op ops act s p}, rel (op :: ops) s p → mine op = some act → cond s op → cond' p act)
    (ops : List Op) :
    ∀ {s : State} {p : Part}, rel ops s p → m.Admits cond s ops → a.Admits cond' p (ops.filterMap mine) := by
  induction ops with
  | nil => exact fun _ _ => trivial
  | cons op ops ih =>
    intro s p related admitted
    cases act : mine op with
    | none =>
      rw [List.filterMap_cons_none act]
      exact ih (view.other related act) admitted.2
    | some act' =>
      rw [List.filterMap_cons_some act]
      exact ⟨carries related act admitted.1, ih (view.next related act) admitted.2⟩

end View

theorem View.granted {m : Machine State Op Bool} {a : Machine Part Act Bool} {mine : Op → Option Act}
    {rel : List Op → State → Part → Prop} (view : View m a mine rel) (ops : List Op) :
    ∀ {s : State} {p : Part}, rel ops s p →
      (m.granted s ops).filterMap mine = a.granted p (ops.filterMap mine) := by
  induction ops with
  | nil => exact fun _ => rfl
  | cons op ops ih =>
    intro s p related
    cases act : mine op with
    | none =>
      have rest := ih (view.other related act)
      rw [List.filterMap_cons_none act]
      cases answer : (m.step s op).1 with
      | true => rw [granted_of_true ops answer, List.filterMap_cons_none act, rest]
      | false => rw [granted_of_false ops answer, rest]
    | some act' =>
      have rest := ih (view.next related act)
      have same := view.out related act
      rw [List.filterMap_cons_some act]
      cases answer : (m.step s op).1 with
      | true =>
        rw [granted_of_true ops answer, List.filterMap_cons_some act, rest,
          granted_of_true _ (same.symm.trans answer)]
      | false => rw [granted_of_false ops answer, rest, granted_of_false _ (same.symm.trans answer)]

end Machine

end Strike.Lib
