/-
**Deterministic machines and their refinement.**

A `Machine` answers each operation with an output and a next state. `run` feeds it a list of
operations, `Admits` says that every operation of a run meets a condition in the state it is
applied to, and `Refines` relates a machine to a more abstract one: related states answer alike and
stay related.

* `Refines.run`: a run whose operations are admitted answers like the abstract machine, and ends in
  related states.
* `run_dichotomy`: where an admitted operation keeps a relation and any other breaks it for good, the
  relation holds at the end of a run exactly when the run was admitted.
-/

import Mathlib

namespace Strike.Lib

/-- A machine with outputs. -/
structure Machine (State Op Out : Type) where
  step : State → Op → Out × State

namespace Machine

variable {State Abstract Op Out : Type}

/-- The outputs of a list of operations and the state they end in. -/
def run (m : Machine State Op Out) : State → List Op → List Out × State
  | s, [] => ([], s)
  | s, op :: ops =>
    let (out, s') := m.step s op
    let (outs, last) := m.run s' ops
    (out :: outs, last)

@[simp] theorem run_nil (m : Machine State Op Out) (s : State) : m.run s [] = ([], s) := rfl

theorem run_cons (m : Machine State Op Out) (s : State) (op : Op) (ops : List Op) : m.run s (op :: ops) =
      ((m.step s op).1 :: (m.run (m.step s op).2 ops).1, (m.run (m.step s op).2 ops).2) := rfl

theorem run_append (m : Machine State Op Out) (first second : List Op) : ∀ s, m.run s (first ++ second) =
      ((m.run s first).1 ++ (m.run (m.run s first).2 second).1,
        (m.run (m.run s first).2 second).2) := by
  induction first with
  | nil => exact fun s => rfl
  | cons op first ih =>
    intro s
    rw [List.cons_append, run_cons, ih, run_cons]
    rfl

variable {m : Machine State Op Out} {cond : State → Op → Prop}

theorem run_keeps {P : State → Prop} (keeps : ∀ {s op}, P s → P (m.step s op).2)
    (ops : List Op) : ∀ {s}, P s → P (m.run s ops).2 := by
  induction ops with
  | nil => exact fun holds => holds
  | cons op ops ih => exact fun holds => ih (keeps holds)

/-- Every operation of the run meets `cond` in the state it is applied to. -/
def Admits (m : Machine State Op Out) (cond : State → Op → Prop) : State → List Op → Prop
  | _, [] => True
  | s, op :: ops => cond s op ∧ m.Admits cond (m.step s op).2 ops

theorem Admits.front {first second : List Op} :
    ∀ {s}, m.Admits cond s (first ++ second) → m.Admits cond s first := by
  induction first with
  | nil => exact fun _ => trivial
  | cons op first ih => exact fun admitted => ⟨admitted.1, ih admitted.2⟩

theorem Admits.behind {first second : List Op} :
    ∀ {s}, m.Admits cond s (first ++ second) → m.Admits cond (m.run s first).2 second := by
  induction first with
  | nil => exact fun admitted => admitted
  | cons op first ih => exact fun admitted => ih admitted.2

/-- **Admitted runs keep what admitted operations keep.** -/
theorem Admits.keeps {P : State → Prop} (keeps : ∀ {s op}, P s → cond s op → P (m.step s op).2) {ops : List Op} :
    ∀ {s}, P s → m.Admits cond s ops → P (m.run s ops).2 := by
  induction ops with
  | nil => exact fun holds _ => holds
  | cons op ops ih => exact fun holds admitted => ih (keeps holds admitted.1) admitted.2

/-- **One machine refines another** on the operations that meet `cond`. -/
structure Refines (m : Machine State Op Out) (a : Machine Abstract Op Out)
    (rel : State → Abstract → Prop) (cond : State → Op → Prop) : Prop where
  out : ∀ {s t op}, rel s t → cond s op → (m.step s op).1 = (a.step t op).1
  next : ∀ {s t op}, rel s t → cond s op → rel (m.step s op).2 (a.step t op).2

/-- **Whole runs refine.** -/
theorem Refines.run {a : Machine Abstract Op Out} {rel : State → Abstract → Prop} (refines : m.Refines a rel cond)
    (ops : List Op) :
    ∀ {s t}, rel s t → m.Admits cond s ops →
      (m.run s ops).1 = (a.run t ops).1 ∧ rel (m.run s ops).2 (a.run t ops).2 := by
  induction ops with
  | nil => exact fun related _ => ⟨rfl, related⟩
  | cons op ops ih =>
    intro s t related admitted
    obtain ⟨outs, last⟩ := ih (refines.next related admitted.1) admitted.2
    rw [run_cons, run_cons]
    exact ⟨by rw [refines.out related admitted.1, outs], last⟩

/-- **Kept or broken for good.** Admitted operations keep `good`, any other operation breaks it,
and what is broken stays broken. -/
theorem run_dichotomy {Out' : Type} (m : Machine State Op Out) (a : Machine Abstract Op Out')
    (good bad : State → Abstract → Prop) (cond : State → Op → Prop)
    (keeps : ∀ {s t op}, good s t → cond s op → good (m.step s op).2 (a.step t op).2)
    (breaks : ∀ {s t op}, good s t → ¬ cond s op → bad (m.step s op).2 (a.step t op).2)
    (stays : ∀ {s t op}, bad s t → bad (m.step s op).2 (a.step t op).2) (ops : List Op) :
    ∀ {s t}, good s t → (m.Admits cond s ops → good (m.run s ops).2 (a.run t ops).2) ∧
      (¬ m.Admits cond s ops → bad (m.run s ops).2 (a.run t ops).2) := by
  have broken : ∀ (ops : List Op) {s t}, bad s t → bad (m.run s ops).2 (a.run t ops).2 := by
    intro ops
    induction ops with
    | nil => exact fun isBad => isBad
    | cons op ops ih => exact fun isBad => ih (stays isBad)
  induction ops with
  | nil => exact fun isGood => ⟨fun _ => isGood, fun refused => absurd trivial refused⟩
  | cons op ops ih =>
    intro s t isGood
    by_cases here : cond s op
    · obtain ⟨kept, lost⟩ := ih (keeps isGood here)
      exact ⟨fun admitted => kept admitted.2, fun refused => lost fun rest => refused ⟨here, rest⟩⟩
    · exact ⟨fun admitted => absurd admitted.1 here, fun _ => broken ops (breaks isGood here)⟩

end Machine

end Strike.Lib
