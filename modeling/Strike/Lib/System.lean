/-
**Systems that are scheduled from outside.**

A `System` takes a step when the schedule names one that is possible. A run is a list of labels; it
resolves every choice, of the scheduler and of the environment alike.

* `run_keeps`: what every step that meets a condition keeps holds at the end of every run whose steps
  meet it.
* `run_invariant`: what every step keeps holds at the end of every run.
* `acc_of_falls`: steps along which a measure falls come to an end.
-/

import Mathlib

namespace Strike.Lib

/-- A system with labelled steps; `none` where the step is not possible. -/
structure System (State Label : Type) where
  step : State → Label → Option State

namespace System

variable {State Label : Type}

/-- The state behind a run. -/
def run (m : System State Label) : State → List Label → Option State
  | s, [] => some s
  | s, l :: ls => (m.step s l).bind fun s' => m.run s' ls

@[simp] theorem run_nil (m : System State Label) (s : State) : m.run s [] = some s := rfl

variable {m : System State Label} {ls : List Label}

theorem run_cons {s t : State} {l : Label} :
    m.run s (l :: ls) = some t ↔ ∃ s', m.step s l = some s' ∧ m.run s' ls = some t :=
  Option.bind_eq_some_iff

/-- Every step of the run meets `cond` in the state it is taken in. -/
def Meets (m : System State Label) (cond : State → Label → Prop) : State → List Label → Prop
  | _, [] => True
  | s, l :: ls => cond s l ∧ ∀ s' ∈ m.step s l, m.Meets cond s' ls

instance decidableMeets (m : System State Label) (cond : State → Label → Prop)
    [decides : ∀ s l, Decidable (cond s l)] : ∀ s ls, Decidable (m.Meets cond s ls)
  | _, [] => isTrue trivial
  | s, l :: ls =>
    match decides s l with
    | isFalse refused => isFalse fun meets => refused meets.1
    | isTrue here =>
      match next : m.step s l with
      | none => isTrue ⟨here, fun s' no => by rw [next] at no; cases no⟩
      | some s' =>
        match decidableMeets m cond s' ls with
        | isTrue later => isTrue ⟨here, fun t same => by rw [next] at same; cases same; exact later⟩
        | isFalse refused => isFalse fun meets => refused (meets.2 s' next)

theorem meets_run_cons {cond : State → Label → Prop} {s s' t : State} {l : Label} (here : cond s l) (stepped : m.step s l = some s')
    (rest : m.Meets cond s' ls ∧ m.run s' ls = some t) :
    m.Meets cond s (l :: ls) ∧ m.run s (l :: ls) = some t := by
  refine ⟨⟨here, fun r same => ?_⟩, run_cons.mpr ⟨s', stepped, rest.2⟩⟩
  obtain rfl : s' = r := Option.some.inj (stepped.symm.trans same)
  exact rest.1

theorem meets_of_forall {cond : Label → Prop} (all : ∀ l ∈ ls, cond l) : ∀ s, m.Meets (fun _ => cond) s ls := by
  induction ls with
  | nil => exact fun _ => trivial
  | cons l ls ih =>
    obtain ⟨here, later⟩ := List.forall_mem_cons.mp all
    exact fun s => ⟨here, fun s' _ => ih later s'⟩

/-- **Whole runs keep what steps keep.** -/
theorem run_keeps {cond : State → Label → Prop} {P : State → Prop}
    (keeps : ∀ {s l s'}, P s → cond s l → m.step s l = some s' → P s') :
    ∀ {s t}, P s → m.Meets cond s ls → m.run s ls = some t → P t := by
  induction ls with
  | nil =>
    intro s t holds _ ran
    exact (Option.some.inj ran) ▸ holds
  | cons l ls ih =>
    intro s t holds meets ran
    obtain ⟨s', stepped, rest⟩ := run_cons.mp ran
    exact ih (keeps holds meets.1 stepped) (meets.2 s' stepped) rest

theorem meets_true (m : System State Label) (s : State) (ls : List Label) : m.Meets (fun _ _ => True) s ls :=
  meets_of_forall (fun _ _ => trivial) s

/-- **Whole runs keep what every step keeps.** -/
theorem run_invariant {P : State → Prop}
    (keeps : ∀ {s l s'}, P s → m.step s l = some s' → P s') {s t : State} (start : P s)
    (ran : m.run s ls = some t) : P t :=
  run_keeps (fun holds _ stepped => keeps holds stepped) start (meets_true m s ls) ran

/-- **Steps along which a measure falls come to an end.** -/
theorem acc_of_falls {cond : Label → Prop} {inv : State → Prop}
    (size : State → Nat) (keeps : ∀ {s l s'}, inv s → cond l → m.step s l = some s' → inv s')
    (falls : ∀ {s l s'}, inv s → cond l → m.step s l = some s' → size s' < size s) {s : State}
    (holds : inv s) : Acc (fun t s => ∃ l, cond l ∧ m.step s l = some t) s := by
  generalize bound : size s = n
  induction n using Nat.strong_induction_on generalizing s with
  | _ n ih =>
    refine ⟨s, fun t => ?_⟩
    rintro ⟨l, quiet, stepped⟩
    exact ih (size t) (bound ▸ falls holds quiet stepped) (keeps holds quiet stepped) rfl

end System

end Strike.Lib
