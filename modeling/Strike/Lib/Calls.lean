/-
**Programs that work on a shared state and call out.**

A `Prog` makes atomic accesses to a state, may give the object behind it back to a pool, and calls
code it does not know; that code may enter other programs before it answers.

* `Reactor`: entries run one inside the other, and each runs to its next call. The stack holds the
  programs that wait for an answer.
* `Contract`: what holds while nothing runs and during a call, what may change during a call, and
  which answers may come. `Contract.wp` is the weakest precondition under it.
* `step_holds`: entries that meet their contract keep it along every run.
-/

import Strike.Lib.System

namespace Strike.Lib

/-- A program: the rest of an access sees the state before it. -/
inductive Prog (State Site Answer α : Type) : Type where
  | done (value : α)
  | panic
  | act (f : State → State) (next : State → Prog State Site Answer α)
  | give (f : State → State) (next : Prog State Site Answer α)
  | call (site : Site) (next : Answer → Prog State Site Answer α)

/-- Where a program stops. -/
inductive Pause (State Site Answer α : Type) : Type where
  | done (value : α)
  | panic
  | call (site : Site) (next : Answer → Prog State Site Answer α)

namespace Prog

variable {State Site Answer α β : Type}

/-- One program after another. -/
def bind : Prog State Site Answer α → (α → Prog State Site Answer β) → Prog State Site Answer β
  | .done value, k => k value
  | .panic, _ => .panic
  | .act f next, k => .act f fun s => (next s).bind k
  | .give f next, k => .give f (next.bind k)
  | .call site next, k => .call site fun a => (next a).bind k

instance : Monad (Prog State Site Answer) where
  pure := .done
  bind := bind

/-- An access that reads `g` and writes `f`. -/
def access (g : State → α) (f : State → State) : Prog State Site Answer α := .act f fun s => .done (g s)

/-- A read. -/
def get (g : State → α) : Prog State Site Answer α := access g id

/-- A write. -/
def set (f : State → State) : Prog State Site Answer Unit := access (fun _ => ()) f

/-- The object goes back to its pool. -/
def giveBack (f : State → State) : Prog State Site Answer Unit := .give f (.done ())

/-- A program under a condition. -/
def when (c : Bool) (p : Prog State Site Answer Unit) : Prog State Site Answer Unit := if c then p else pure ()

/-- A call. -/
def ask (site : Site) : Prog State Site Answer Answer := .call site .done

/-- A program up to its next call. -/
def exec : Prog State Site Answer α → State → Pause State Site Answer α × State
  | .done value, s => (.done value, s)
  | .panic, s => (.panic, s)
  | .act f next, s => (next s).exec (f s)
  | .give f next, s => next.exec (f s)
  | .call site next, s => (.call site next, s)

/-- Every access of a program keeps `P`. -/
def Within (P : State → Prop) : Prog State Site Answer α → Prop
  | .done _ => True
  | .panic => True
  | .act f next => ∀ s, P s → P (f s) ∧ (next s).Within P
  | .give f next => (∀ s, P s → P (f s)) ∧ next.Within P
  | .call _ next => ∀ a, (next a).Within P

namespace Within

variable {P : State → Prop}

theorem pure {value : α} : (Pure.pure value : Prog State Site Answer α).Within P := trivial

theorem panic : (.panic : Prog State Site Answer α).Within P := trivial

theorem access {g : State → α} {f : State → State} (kept : ∀ {s}, P s → P (f s)) :
    (.access g f : Prog State Site Answer α).Within P := fun _ holds => ⟨kept holds, trivial⟩

theorem get {g : State → α} : (.get g : Prog State Site Answer α).Within P := fun _ holds => ⟨holds, trivial⟩

theorem set {f : State → State} (kept : ∀ {s}, P s → P (f s)) :
    (.set f : Prog State Site Answer Unit).Within P := fun _ holds => ⟨kept holds, trivial⟩

theorem ask {site : Site} : (.ask site : Prog State Site Answer Answer).Within P := fun _ => trivial

theorem bind {p : Prog State Site Answer β} {k : β → Prog State Site Answer α} (first : p.Within P)
    (second : ∀ value, (k value).Within P) : (p >>= k).Within P := by
  show (p.bind k).Within P
  induction p with
  | done value => exact second value
  | panic => trivial
  | act f next ih => exact fun s holds => ⟨(first s holds).1, ih s (first s holds).2⟩
  | give f next ih => exact ⟨first.1, ih first.2⟩
  | call site next ih => exact fun a => ih a (first a)

theorem ite {c : Prop} [Decidable c] {p q : Prog State Site Answer α} (yes : p.Within P)
    (no : q.Within P) : (if c then p else q).Within P := by
  split
  · exact yes
  · exact no

theorem when {c : Bool} {p : Prog State Site Answer Unit} (yes : p.Within P) :
    (Prog.when c p).Within P := ite yes pure

end Within

end Prog

/-! ### Contracts -/

/-- What the programs of a reactor rely on and keep. -/
structure Contract (State Site Answer : Type) where
  /-- Holds while nothing runs. -/
  rest : State → Prop
  /-- Holds during a call. -/
  inv : State → Prop
  /-- What may happen during a call. -/
  change : State → State → Prop
  refl : ∀ s, change s s
  trans : ∀ {s t u}, change s t → change t u → change s u
  /-- The answers that may come. -/
  answers : State → Site → Answer → Prop

namespace Contract

variable {State Site Answer α β : Type} (K : Contract State Site Answer)

/-- **The weakest precondition**, with the contract at every call and at a panic. -/
def wp : Prog State Site Answer α → (α → State → Prop) → State → Prop
  | .done value, post, s => post value s
  | .panic, _, s => K.rest s
  | .act f next, post, s => wp (next s) post (f s)
  | .give f next, post, s => wp next post (f s)
  | .call site next, post, s =>
    K.inv s ∧ ∀ t a, K.inv t → K.change s t → K.answers t site a → wp (next a) post t

variable {K} {s : State} {post post' : α → State → Prop}

@[simp] theorem wp_pure {value : α} : K.wp (pure value) post s ↔ post value s := Iff.rfl

variable {g : State → α} {f : State → State} {p : Prog State Site Answer β} {k : β → Prog State Site Answer α}

@[simp] theorem wp_access : K.wp (.access g f) post s ↔ post (g s) (f s) := Iff.rfl

@[simp] theorem wp_get : K.wp (.get g) post s ↔ post (g s) s := Iff.rfl

@[simp] theorem wp_set {post : Unit → State → Prop} : K.wp (.set f) post s ↔ post () (f s) := Iff.rfl

theorem wp_ask {site : Site} {post : Answer → State → Prop} : K.wp (.ask site) post s ↔
      K.inv s ∧ ∀ t a, K.inv t → K.change s t → K.answers t site a → post a t := Iff.rfl

@[simp] theorem wp_bind : K.wp (p >>= k) post s ↔ K.wp p (fun value t => K.wp (k value) post t) s := by
  show K.wp (p.bind k) post s ↔ _
  induction p generalizing s with
  | done value => exact Iff.rfl
  | panic => exact Iff.rfl
  | act f next ih => exact ih s
  | give f next ih => exact ih
  | call site next ih =>
    exact and_congr_right fun _ => forall_congr' fun t => forall_congr' fun a =>
      imp_congr_right fun _ => imp_congr_right fun _ => imp_congr_right fun _ => ih a

@[simp] theorem wp_ite {c : Prop} [Decidable c] {p q : Prog State Site Answer α} :
    K.wp (if c then p else q) post s ↔ if c then K.wp p post s else K.wp q post s := by
  split <;> exact Iff.rfl

theorem wp_when {c : Bool} {p : Prog State Site Answer Unit} {post : Unit → State → Prop} :
    K.wp (.when c p) post s ↔ (c = true → K.wp p post s) ∧ (c = false → post () s) := by
  cases c with
  | false => exact ⟨fun holds => ⟨nofun, fun _ => holds⟩, fun holds => holds.2 rfl⟩
  | true => exact ⟨fun holds => ⟨fun _ => holds, nofun⟩, fun holds => holds.1 rfl⟩

theorem wp_mono {p : Prog State Site Answer α} (weaker : ∀ value t, post value t → post' value t) :
    ∀ {s}, K.wp p post s → K.wp p post' s := by
  induction p with
  | done value => exact fun holds => weaker _ _ holds
  | panic => exact fun holds => holds
  | act f next ih => exact fun holds => ih _ holds
  | give f next ih => exact fun holds => ih holds
  | call site next ih =>
    exact fun holds => ⟨holds.1, fun t a inv change answers => ih a (holds.2 t a inv change answers)⟩

/-- `p` keeps `P`, whatever comes back from its calls. -/
def Keeps (K : Contract State Site Answer) (P : State → Prop) (p : Prog State Site Answer α) : Prop :=
  ∀ s, P s → K.wp p (fun _ => P) s

namespace Keeps

variable {P : State → Prop}

theorem pure {value : α} : K.Keeps P (Pure.pure value) := fun _ holds => holds

theorem get : K.Keeps P (.get g) := fun _ holds => holds

theorem access (kept : ∀ {s}, P s → P (f s)) : K.Keeps P (.access g f) := fun _ holds => kept holds

theorem set (kept : ∀ {s}, P s → P (f s)) : K.Keeps P (.set f) := fun _ holds => kept holds

theorem giveBack (kept : ∀ {s}, P s → P (f s)) : K.Keeps P (.giveBack f) := fun _ holds => kept holds

theorem panic (rests : ∀ {s}, P s → K.rest s) : K.Keeps P (.panic : Prog State Site Answer α) :=
  fun _ holds => rests holds

theorem bind (first : K.Keeps P p) (second : ∀ value, K.Keeps P (k value)) : K.Keeps P (p >>= k) :=
  fun _ holds => wp_bind.mpr (wp_mono (fun value _ kept => second value _ kept) (first _ holds))

theorem ite {c : Prop} [Decidable c] {p q : Prog State Site Answer α} (yes : K.Keeps P p) (no : K.Keeps P q) :
    K.Keeps P (if c then p else q) := by
  split
  · exact yes
  · exact no

theorem when {c : Bool} {p : Prog State Site Answer Unit} (yes : K.Keeps P p) : K.Keeps P (.when c p) := ite yes pure

/-- What every access keeps, and every call leaves, is kept. -/
theorem of_within {p : Prog State Site Answer α} (rests : ∀ {s}, P s → K.rest s)
    (calls : ∀ {s}, P s → K.inv s) (left : ∀ {s t}, P s → K.change s t → P t) (within : p.Within P) :
    K.Keeps P p := by
  induction p with
  | done value => exact fun _ holds => holds
  | panic => exact fun _ holds => rests holds
  | act f next ih => exact fun s holds => ih s (within s holds).2 _ (within s holds).1
  | give f next ih => exact fun s holds => ih within.2 _ (within.1 s holds)
  | call site next ih =>
    exact fun s holds => ⟨calls holds, fun t a _ change _ => ih a (within a) t (left holds change)⟩

theorem andThen (first : K.Keeps P p)
    (holds : P s) (second : ∀ value t, P t → K.wp (k value) post t) : K.wp (p >>= k) post s :=
  wp_bind.mpr (wp_mono second (first s holds))

end Keeps

end Contract

/-! ### Reactors -/

/-- Entries, their programs, and when they are possible. -/
structure Reactor (State Site Answer Entry : Type) where
  program : Entry → Prog State Site Answer Unit
  allows : State → Bool → Entry → Bool

namespace Reactor

variable {State Site Answer Entry : Type}

/-- The state between two moves: `stack` holds the programs that wait, the innermost first. -/
structure Config (State Site Answer : Type) where
  world : State
  stack : List (Site × (Answer → Prog State Site Answer Unit)) := []

/-- A move: an entry, or the answer to the innermost call. -/
inductive Move (Entry Answer : Type) where
  | enter (e : Entry)
  | answer (a : Answer)

/-- Where a program leaves the reactor; a panic unwinds the stack. -/
def land (stack : List (Site × (Answer → Prog State Site Answer Unit))) :
    Pause State Site Answer Unit × State → Config State Site Answer
  | (.done _, s) => ⟨s, stack⟩
  | (.panic, s) => ⟨s, []⟩
  | (.call site next, s) => ⟨s, (site, next) :: stack⟩

/-- One move. -/
def step (m : Reactor State Site Answer Entry) (c : Config State Site Answer) :
    Move Entry Answer → Option (Config State Site Answer)
  | .enter e =>
    if m.allows c.world c.stack.isEmpty e then some (land c.stack ((m.program e).exec c.world)) else none
  | .answer a =>
    match c.stack with
    | [] => none
    | (_, next) :: stack => some (land stack ((next a).exec c.world))

variable {m : Reactor State Site Answer Entry}

theorem step_enter {c c' : Config State Site Answer} {e : Entry} : m.step c (.enter e) = some c' ↔
      m.allows c.world c.stack.isEmpty e = true ∧ land c.stack ((m.program e).exec c.world) = c' := by
  show (if _ then _ else _) = _ ↔ _
  rw [Option.ite_none_right_eq_some, Option.some.injEq]

/-- The reactor as a system. -/
def system (m : Reactor State Site Answer Entry) : System (Config State Site Answer) (Move Entry Answer) := ⟨m.step⟩

/-- The contract holds here and will hold behind every answer that may come. -/
def Holds (K : Contract State Site Answer) : List (Site × (Answer → Prog State Site Answer Unit)) → State → Prop
  | [], s => K.rest s
  | (site, next) :: stack, s =>
    K.inv s ∧ ∀ t a, K.inv t → K.change s t → K.answers t site a → K.wp (next a) (fun _ => Holds K stack) t

variable {K : Contract State Site Answer} {stack : List (Site × (Answer → Prog State Site Answer Unit))}

theorem Holds.change {s t : State} (nested : stack ≠ []) (holds : Holds K stack s) (inv : K.inv t)
    (change : K.change s t) : Holds K stack t := by
  cases stack with
  | nil => exact absurd rfl nested
  | cons frame stack => exact ⟨inv, fun u a inv later => holds.2 u a inv (K.trans change later)⟩

/-- A program that meets its contract lands where it holds. -/
theorem holds_land {p : Prog State Site Answer Unit} : ∀ {s : State}, K.wp p (fun _ => Holds K stack) s →
      Holds K (land stack (p.exec s)).stack (land stack (p.exec s)).world := by
  induction p with
  | done value => exact fun holds => holds
  | panic => exact fun holds => holds
  | act f next ih => exact fun holds => ih _ holds
  | give f next ih => exact fun holds => ih holds
  | call site next ih => exact fun holds => holds

section

variable {cond : Config State Site Answer → Move Entry Answer → Prop}
  (outside : ∀ {s e}, K.rest s → m.allows s true e = true → cond ⟨s, []⟩ (.enter e) →
    K.wp (m.program e) (fun _ => K.rest) s)
  (inside : ∀ {s e stack}, K.inv s → m.allows s false e = true → stack ≠ [] → cond ⟨s, stack⟩ (.enter e) →
    K.wp (m.program e) (fun _ t => K.inv t ∧ K.change s t) s)
  (answers : ∀ {s site next stack a}, cond ⟨s, (site, next) :: stack⟩ (.answer a) → K.answers s site a)

include outside inside answers

/-- **One move keeps the contract.** -/
theorem step_holds {c c' : Config State Site Answer} {move : Move Entry Answer} (holds : Holds K c.stack c.world)
    (meets : cond c move) (stepped : m.step c move = some c') : Holds K c'.stack c'.world := by
  obtain ⟨s, stack⟩ := c
  cases move with
  | enter e =>
    obtain ⟨allowed, rfl⟩ := step_enter.mp stepped
    cases stack with
    | nil => exact holds_land (outside holds allowed meets)
    | cons frame stack =>
      exact holds_land (Contract.wp_mono (fun _ t kept => holds.change (List.cons_ne_nil _ _) kept.1 kept.2)
        (inside holds.1 allowed (List.cons_ne_nil _ _) meets))
  | answer a =>
    cases stack with
    | nil => cases stepped
    | cons frame stack =>
      obtain rfl := Option.some.inj stepped
      exact holds_land (holds.2 s a holds.1 (K.refl s) (answers meets))

/-- **Every run keeps the contract.** -/
theorem run_holds {s : State} {moves : List (Move Entry Answer)} {c : Config State Site Answer} (starts : K.rest s)
    (meets : m.system.Meets cond ⟨s, []⟩ moves) (ran : m.system.run ⟨s, []⟩ moves = some c) :
    Holds K c.stack c.world := by
  refine System.run_keeps (P := fun c : Config State Site Answer => Holds K c.stack c.world) ?_ ?_ meets ran
  · exact fun holds meets stepped => step_holds outside inside answers holds meets stepped
  · exact starts

end

/-- What holds while nothing runs and during calls holds throughout. -/
theorem Holds.of {P : State → Prop} {s : State} (holds : Holds K stack s) (rest : K.rest s → P s)
    (inv : K.inv s → P s) : P s := by
  cases stack with
  | nil => exact rest holds
  | cons frame stack => exact inv holds.1

end Reactor

end Strike.Lib
