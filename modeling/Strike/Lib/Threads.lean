/-
**Programs that run at the same time.**

The entries of a reactor as threads: every access is a turn of its own, and so are the answer to a call and
the end of a program. A call may also never come back, because the code that was called panicked.

* `Touches`: a turn makes an access although the object was given back.
* `Rely`: what a program relies on between its accesses, and what it does itself.
  `Rely.Safe`: a program keeps to it, and makes no access behind its `give`, whatever others do.
* `turn_sound`: where each program only does what those beside it rely on, and the object is given back only
  where no other program can still be in progress and none can be entered, every turn keeps `Sound`.
  `Sound.untouched`: then no turn touches an object that was given back.
-/

import Strike.Lib.Calls

namespace Strike.Lib

variable {State Site Answer Entry α β : Type}

/-! ### Threads -/

namespace Prog

/-- The next thing the program does is an access to the object. -/
def accesses : Prog State Site Answer α → Bool
  | .act _ _ => true
  | .give _ _ => true
  | _ => false

/-- The program has come to its end. -/
def Ended : Prog State Site Answer α → Prop
  | .done _ => True
  | .panic => True
  | _ => False

instance : DecidablePred (Ended : Prog State Site Answer α → Prop)
  | .done _ => isTrue trivial
  | .panic => isTrue trivial
  | .act _ _ => isFalse id
  | .give _ _ => isFalse id
  | .call _ _ => isFalse id

/-- The state behind the next access. -/
def after : Prog State Site Answer α → State → State
  | .act f _, s => f s
  | .give f _, s => f s
  | _, s => s

end Prog

namespace Reactor

/-- The threads in progress, with what they entered by. -/
structure Running (State Site Answer Entry : Type) where
  world : State
  given : Bool := false
  threads : List (Entry × Prog State Site Answer Unit) := []

/-- A turn: an entry, an access or the end of a thread, the answer to its call, or a panic of the code that
it called. -/
inductive Turn (Entry Answer : Type) where
  | enter (e : Entry)
  | step (i : Nat)
  | answer (i : Nat) (a : Answer)
  | unwind (i : Nat)
  deriving Repr, DecidableEq

/-- One turn. An entry is idle if it is not in progress. -/
def turn [DecidableEq Entry] (m : Reactor State Site Answer Entry) (c : Running State Site Answer Entry) :
    Turn Entry Answer → Option (Running State Site Answer Entry)
  | .enter e =>
    if m.allows c.world (!c.threads.any (·.1 = e)) e then
      some { c with threads := c.threads ++ [(e, m.program e)] }
    else none
  | .step i =>
    match c.threads[i]? with
    | some (_, .done _) => some { c with threads := c.threads.eraseIdx i }
    | some (_, .panic) => some { c with threads := c.threads.eraseIdx i }
    | some (e, .act f next) =>
      some { c with world := f c.world, threads := c.threads.set i (e, next c.world) }
    | some (e, .give f next) =>
      some { world := f c.world, given := true, threads := c.threads.set i (e, next) }
    | _ => none
  | .answer i a =>
    match c.threads[i]? with
    | some (e, .call _ next) => some { c with threads := c.threads.set i (e, next a) }
    | _ => none
  | .unwind i =>
    match c.threads[i]? with
    | some (_, .call _ _) => some { c with threads := c.threads.eraseIdx i }
    | _ => none

/-- **A turn touches an object that was given back.** -/
def Running.Touches (c : Running State Site Answer Entry) : Turn Entry Answer → Prop
  | .step i => c.given = true ∧ ∃ thread ∈ c.threads[i]?, thread.2.accesses = true
  | _ => False

instance (c : Running State Site Answer Entry) : ∀ t, Decidable (c.Touches t)
  | .step i => inferInstanceAs (Decidable (_ ∧ ∃ thread ∈ c.threads[i]?, _))
  | .enter _ => isFalse id
  | .answer _ _ => isFalse id
  | .unwind _ => isFalse id

/-- **Everything a turn can do.** -/
inductive Turns (m : Reactor State Site Answer Entry) (c : Running State Site Answer Entry) :
    Turn Entry Answer → Running State Site Answer Entry → Prop where
  | enter {e : Entry} {idle : Bool} (allowed : m.allows c.world idle e = true) :
      Turns m c (.enter e) { c with threads := c.threads ++ [(e, m.program e)] }
  | ends {front back : List (Entry × Prog State Site Answer Unit)} {e : Entry} {p : Prog State Site Answer Unit}
      (at_ : c.threads = front ++ (e, p) :: back) (ended : p.Ended) :
      Turns m c (.step front.length) { c with threads := front ++ back }
  | acts {front back : List (Entry × Prog State Site Answer Unit)} {e : Entry} {f : State → State}
      {next : State → Prog State Site Answer Unit} (at_ : c.threads = front ++ (e, .act f next) :: back) :
      Turns m c (.step front.length) { c with world := f c.world, threads := front ++ (e, next c.world) :: back }
  | gives {front back : List (Entry × Prog State Site Answer Unit)} {e : Entry} {f : State → State}
      {next : Prog State Site Answer Unit} (at_ : c.threads = front ++ (e, .give f next) :: back) :
      Turns m c (.step front.length) ⟨f c.world, true, front ++ (e, next) :: back⟩
  | answers {front back : List (Entry × Prog State Site Answer Unit)} {e : Entry} {site : Site}
      {next : Answer → Prog State Site Answer Unit} (a : Answer)
      (at_ : c.threads = front ++ (e, .call site next) :: back) :
      Turns m c (.answer front.length a) { c with threads := front ++ (e, next a) :: back }
  | unwinds {front back : List (Entry × Prog State Site Answer Unit)} {e : Entry} {site : Site}
      {next : Answer → Prog State Site Answer Unit} (at_ : c.threads = front ++ (e, .call site next) :: back) :
      Turns m c (.unwind front.length) { c with threads := front ++ back }

theorem split_at {threads : List α} {i : Nat} {thread : α} (at_ : threads[i]? = some thread) :
    ∃ front back, threads = front ++ thread :: back ∧ i = front.length ∧ threads.eraseIdx i = front ++ back ∧
      ∀ other, threads.set i other = front ++ other :: back := by
  obtain ⟨bound, rfl⟩ := List.getElem?_eq_some_iff.mp at_
  have length : (threads.take i).length = i := List.length_take_of_le bound.le
  have split : threads = threads.take i ++ threads[i] :: threads.drop (i + 1) := by
    rw [← List.drop_eq_getElem_cons bound, List.take_append_drop]
  refine ⟨_, _, split, length.symm, List.eraseIdx_eq_take_drop_succ threads i, fun other => ?_⟩
  exact List.set_eq_take_append_cons_drop.trans (if_pos bound)

theorem turns_of_turn [DecidableEq Entry] {m : Reactor State Site Answer Entry}
    {c c' : Running State Site Answer Entry} {t : Turn Entry Answer} (turned : m.turn c t = some c') : Turns m c t c' := by
  cases t with
  | enter e =>
    obtain ⟨allowed, same⟩ := Option.ite_none_right_eq_some.mp turned
    obtain rfl := Option.some.inj same
    exact .enter allowed
  | step i =>
    cases at_ : c.threads[i]? with
    | none => simp [turn, at_] at turned
    | some thread =>
      obtain ⟨e, p⟩ := thread
      obtain ⟨front, back, split, rfl, erased, replaced⟩ := split_at at_
      cases p <;> simp only [turn, at_, erased, replaced, Option.some.injEq, reduceCtorEq] at turned
      · exact turned ▸ .ends split trivial
      · exact turned ▸ .ends split trivial
      · exact turned ▸ .acts split
      · exact turned ▸ .gives split
  | answer i a =>
    cases at_ : c.threads[i]? with
    | none => simp [turn, at_] at turned
    | some thread =>
      obtain ⟨e, p⟩ := thread
      obtain ⟨front, back, split, rfl, -, replaced⟩ := split_at at_
      cases p <;> simp only [turn, at_, replaced, Option.some.injEq, reduceCtorEq] at turned
      exact turned ▸ .answers a split
  | unwind i =>
    cases at_ : c.threads[i]? with
    | none => simp [turn, at_] at turned
    | some thread =>
      obtain ⟨e, p⟩ := thread
      obtain ⟨front, back, split, rfl, erased, -⟩ := split_at at_
      cases p <;> simp only [turn, at_, erased, Option.some.injEq, reduceCtorEq] at turned
      exact turned ▸ .unwinds split

end Reactor

/-! ### Programs beside others -/

/-- What a program relies on, and what it does. -/
structure Rely (State Site Answer : Type) where
  /-- What others may do between two accesses. -/
  may : State → State → Prop
  refl : ∀ s, may s s
  trans : ∀ {s t u}, may s t → may t u → may s u
  /-- Holds while the program is in progress. -/
  holds : State → Prop
  lasts : ∀ {s t}, holds s → may s t → holds t
  /-- Holds between programs and during calls. -/
  rest : State → Prop
  stays : ∀ {s t}, rest s → may s t → rest t
  /-- What is known of its accesses. -/
  acts : State → State → Prop
  /-- What its accesses do. -/
  does : State → State → Prop
  /-- Where it gives the object back. -/
  quits : State → State → Prop
  /-- The answers that may come. -/
  answers : State → Site → Answer → Prop

namespace Rely

variable (K : Rely State Site Answer)

/-- **A program keeps to what it does, and makes no access behind a `give`.** The flag says whether the object
was given back; what comes behind it is the end of the program. -/
def Safe : Prog State Site Answer α → (α → Bool → State → Prop) → Bool → State → Prop
  | .done value, post, given, s => post value given s
  | .panic, _, given, s => given = false → K.rest s
  | .act f next, post, given, s => given = false ∧ K.holds s ∧
      ∀ t, K.may s t → K.acts t (f t) → K.does t (f t) ∧ Safe (next t) post false (f t)
  | .give f next, post, given, s => given = false ∧ K.holds s ∧
      ∀ t, K.may s t → K.quits t (f t) ∧ Safe next post true (f t)
  | .call site next, post, given, s => given = false ∧ K.holds s ∧ K.rest s ∧
      ∀ t a, K.may s t → K.answers t site a → Safe (next a) post false t

variable {K} {s t : State} {given : Bool} {post post' : α → Bool → State → Prop}

theorem safe_bind {p : Prog State Site Answer β} {k : β → Prog State Site Answer α} :
    K.Safe (p >>= k) post given s ↔ K.Safe p (fun value given t => K.Safe (k value) post given t) given s := by
  show K.Safe (p.bind k) post given s ↔ _
  induction p generalizing s given with
  | done value => exact Iff.rfl
  | panic => exact Iff.rfl
  | act f next ih =>
    exact and_congr_right fun _ => and_congr_right fun _ => forall_congr' fun t => imp_congr_right fun _ =>
      imp_congr_right fun _ => and_congr_right fun _ => ih t
  | give f next ih =>
    exact and_congr_right fun _ => and_congr_right fun _ => forall_congr' fun t => imp_congr_right fun _ =>
      and_congr_right fun _ => ih
  | call site next ih =>
    exact and_congr_right fun _ => and_congr_right fun _ => and_congr_right fun _ => forall_congr' fun t =>
      forall_congr' fun a => imp_congr_right fun _ => imp_congr_right fun _ => ih a

theorem safe_mono {p : Prog State Site Answer α} (weaker : ∀ value given t, post value given t → post' value given t) :
    ∀ {given s}, K.Safe p post given s → K.Safe p post' given s := by
  induction p with
  | done value => exact fun safe => weaker _ _ _ safe
  | panic => exact fun safe => safe
  | act f next ih =>
    exact fun ⟨here, holds, each⟩ => ⟨here, holds, fun t may acts => ⟨(each t may acts).1, ih t (each t may acts).2⟩⟩
  | give f next ih => exact fun ⟨here, holds, each⟩ => ⟨here, holds, fun t may => ⟨(each t may).1, ih (each t may).2⟩⟩
  | call site next ih =>
    exact fun ⟨here, holds, rest, each⟩ => ⟨here, holds, rest, fun t a may answers => ih a (each t a may answers)⟩

theorem safe_access {g : State → α} {f : State → State} (holds : K.holds s)
    (each : ∀ t, K.may s t → K.acts t (f t) → K.does t (f t) ∧ post (g t) false (f t)) :
    K.Safe (.access g f) post false s := ⟨rfl, holds, each⟩

theorem safe_giveBack {f : State → State} {post : Unit → Bool → State → Prop} (holds : K.holds s)
    (each : ∀ t, K.may s t → K.quits t (f t) ∧ post () true (f t)) : K.Safe (.giveBack f) post false s :=
  ⟨rfl, holds, each⟩

theorem Safe.ended {p : Prog State Site Answer α} (safe : K.Safe p post true s) : p.Ended := by
  cases p with
  | done value => trivial
  | panic => trivial
  | act f next => exact absurd safe.1 (by decide)
  | give f next => exact absurd safe.1 (by decide)
  | call site next => exact absurd safe.1 (by decide)

theorem Safe.holds {p : Prog State Site Answer α} (safe : K.Safe p post given s) (goes : ¬ p.Ended) : K.holds s := by
  cases p with
  | done value => exact absurd trivial goes
  | panic => exact absurd trivial goes
  | act f next => exact safe.2.1
  | give f next => exact safe.2.1
  | call site next => exact safe.2.1

/-- What others do leaves a safe program safe. -/
theorem Safe.stays {p : Prog State Site Answer α} (safe : K.Safe p post false s) (may : K.may s t)
    (later : ∀ {value s t}, post value false s → K.may s t → post value false t) : K.Safe p post false t := by
  cases p with
  | done value => exact later safe may
  | panic => exact fun _ => K.stays (safe rfl) may
  | act f next => exact ⟨rfl, K.lasts safe.2.1 may, fun u more => safe.2.2 u (K.trans may more)⟩
  | give f next => exact ⟨rfl, K.lasts safe.2.1 may, fun u more => safe.2.2 u (K.trans may more)⟩
  | call site next =>
    exact ⟨rfl, K.lasts safe.2.1 may, K.stays safe.2.2.1 may,
      fun u a more answers => safe.2.2.2 u a (K.trans may more) answers⟩

/-! ### Programs that keep the object -/

variable (K) in
/-- A property that others leave, and that is enough in a program and between programs. -/
structure Steady (P : State → Prop) : Prop where
  stays : ∀ {s t}, P s → K.may s t → P t
  holds : ∀ {s}, P s → K.holds s
  rests : ∀ {s}, P s → K.rest s
  idle : ∀ {s}, P s → K.does s s

variable (K) in
/-- `p` keeps `P`, and does not give the object back. -/
def Keeps (P : State → Prop) (p : Prog State Site Answer α) : Prop :=
  ∀ s, P s → K.Safe p (fun _ given t => given = false ∧ P t) false s

namespace Keeps

variable {P : State → Prop}

theorem pure {value : α} : K.Keeps P (Pure.pure value) := fun _ holds => ⟨rfl, holds⟩

theorem panic (steady : K.Steady P) : K.Keeps P (.panic : Prog State Site Answer α) :=
  fun _ holds _ => steady.rests holds

theorem access (steady : K.Steady P) {g : State → α} {f : State → State} (does : ∀ {s}, P s → K.does s (f s))
    (kept : ∀ {s}, P s → P (f s)) : K.Keeps P (.access g f) := fun _ holds =>
  safe_access (steady.holds holds) fun _ may _ =>
    ⟨does (steady.stays holds may), rfl, kept (steady.stays holds may)⟩

theorem get (steady : K.Steady P) {g : State → α} : K.Keeps P (.get g) := access steady steady.idle fun holds => holds

theorem set (steady : K.Steady P) {f : State → State} (does : ∀ {s}, P s → K.does s (f s))
    (kept : ∀ {s}, P s → P (f s)) : K.Keeps P (.set f) := access steady does kept

theorem ask (steady : K.Steady P) {site : Site} : K.Keeps P (.ask site) := fun _ holds =>
  ⟨rfl, steady.holds holds, steady.rests holds, fun _ _ may _ => ⟨rfl, steady.stays holds may⟩⟩

theorem andThen {p : Prog State Site Answer β} {k : β → Prog State Site Answer α} (first : K.Keeps P p) (holds : P s)
    (second : ∀ value t, P t → K.Safe (k value) post false t) : K.Safe (p >>= k) post false s := by
  refine safe_bind.mpr (safe_mono ?_ (first s holds))
  rintro value given t ⟨rfl, kept⟩
  exact second value t kept

theorem bind {p : Prog State Site Answer β} {k : β → Prog State Site Answer α} (first : K.Keeps P p)
    (second : ∀ value, K.Keeps P (k value)) : K.Keeps P (p >>= k) :=
  fun _ holds => first.andThen holds fun value t kept => second value t kept

theorem ite {c : Prop} [Decidable c] {p q : Prog State Site Answer α} (yes : K.Keeps P p) (no : K.Keeps P q) :
    K.Keeps P (if c then p else q) := by
  split
  · exact yes
  · exact no

theorem when {c : Bool} {p : Prog State Site Answer Unit} (yes : K.Keeps P p) : K.Keeps P (.when c p) := ite yes pure

end Keeps

end Rely

/-! ### Runs -/

namespace Reactor

/-- What a safe program leaves. -/
def Leaves (K : Rely State Site Answer) (_ : Unit) (given : Bool) (s : State) : Prop := given = false → K.rest s

theorem leaves_of_keeps {K : Rely State Site Answer} {P : State → Prop} {p : Prog State Site Answer Unit} {s : State}
    (steady : K.Steady P) (keeps : K.Keeps P p) (holds : P s) : K.Safe p (Leaves K) false s :=
  Rely.safe_mono (fun _ _ _ kept _ => steady.rests kept.2) (keeps s holds)

/-- **The terms on which entries run beside each other**: what each relies on, and which of them clash. The main
ones clash with each other, and rely on the same. -/
structure Terms (State Site Answer Entry : Type) where
  main : Entry → Bool
  own : Rely State Site Answer
  rely : Entry → Rely State Site Answer
  rely_main : ∀ {e}, main e = true → rely e = own
  clash : Entry → Entry → Prop
  symm : ∀ {e e'}, clash e e' → clash e' e
  clash_main : ∀ {e e'}, main e = true → main e' = true → clash e e'
  /-- What the others do is what the main ones rely on. -/
  beside : ∀ {e s t}, main e = false → (rely e).does s t → own.may s t
  /-- The object is given back, and nothing is entered any more. -/
  gone : State → Prop
  /-- Where the object is given back, it is over, and nothing else can be in progress. -/
  quits : ∀ {e s t}, (rely e).quits s t → gone t ∧ ∀ {e'}, ¬ clash e e' → ¬ (rely e').holds s

variable (T : Terms State Site Answer Entry)

/-- **What holds between turns.** No two threads clash, and each is safe. Once the object is given back every
thread has come to its end. -/
structure Sound (c : Running State Site Answer Entry) : Prop where
  apart : (c.threads.map Prod.fst).Pairwise fun e e' => ¬ T.clash e e'
  safe : c.given = false → ∀ thread ∈ c.threads,
    (T.rely thread.1).Safe thread.2 (Leaves (T.rely thread.1)) false c.world
  rest : c.given = false → (∀ thread ∈ c.threads, T.main thread.1 = false) → T.own.rest c.world
  ended : c.given = true → T.gone c.world ∧ ∀ thread ∈ c.threads, thread.2.Ended

variable {T}

/-- **No turn touches an object that was given back.** -/
theorem Sound.untouched {c : Running State Site Answer Entry} (sound : Sound T c) (t : Turn Entry Answer) :
    ¬ c.Touches t := by
  cases t with
  | step i =>
    rintro ⟨given, thread, at_, accesses⟩
    have ended := (sound.ended given).2 thread (List.mem_of_getElem? at_)
    cases next : thread.2 <;> rw [next] at ended accesses
    · cases accesses
    · cases accesses
    · exact ended
    · exact ended
    · cases accesses
  | enter e => exact id
  | answer i a => exact id
  | unwind i => exact id

section

variable {c : Running State Site Answer Entry} {front back : List (Entry × Prog State Site Answer Unit)} {e : Entry}
  {p q : Prog State Site Answer Unit}

theorem Sound.beside (sound : Sound T c) (at_ : c.threads = front ++ (e, p) :: back) :
    ∀ thread ∈ front ++ back, ¬ T.clash e thread.1 := by
  have apart := sound.apart
  rw [at_, List.map_append, List.map_cons] at apart
  obtain ⟨-, behind, across⟩ := List.pairwise_append.mp apart
  intro thread there
  rcases List.mem_append.mp there with before | after
  · exact fun clash => across _ (List.mem_map_of_mem before) _ List.mem_cons_self (T.symm clash)
  · exact (List.pairwise_cons.mp behind).1 _ (List.mem_map_of_mem after)

theorem mem_beside (at_ : c.threads = front ++ (e, p) :: back) {thread} (there : thread ∈ front ++ back) :
    thread ∈ c.threads := by
  rw [at_]
  exact (List.sublist_cons_self _ _).append_left front |>.subset there

theorem mem_replaced {thread} (there : thread ∈ front ++ (e, q) :: back) : thread = (e, q) ∨ thread ∈ front ++ back := by
  rw [List.mem_append, List.mem_cons] at there
  rw [List.mem_append]
  tauto

theorem mem_here (at_ : c.threads = front ++ (e, p) :: back) : (e, p) ∈ c.threads :=
  at_ ▸ List.mem_append_right _ List.mem_cons_self

theorem getElem?_here (at_ : c.threads = front ++ (e, p) :: back) : c.threads[front.length]? = some (e, p) := by
  rw [at_, List.getElem?_append_right le_rfl, Nat.sub_self, List.getElem?_cons_zero]

theorem eraseIdx_here (at_ : c.threads = front ++ (e, p) :: back) : c.threads.eraseIdx front.length = front ++ back := by
  rw [at_, List.eraseIdx_append_of_length_le le_rfl, Nat.sub_self, List.eraseIdx_cons_zero]

theorem Sound.here (sound : Sound T c) (at_ : c.threads = front ++ (e, p) :: back) (goes : ¬ p.Ended) :
    c.given = false := by
  rw [← Bool.not_eq_true]
  exact fun given => goes ((sound.ended given).2 (e, p) (mem_here at_))

theorem Sound.apart_replace (sound : Sound T c) (at_ : c.threads = front ++ (e, p) :: back) :
    ((front ++ (e, q) :: back).map Prod.fst).Pairwise fun e e' => ¬ T.clash e e' := by
  have apart := sound.apart
  rw [at_, List.map_append, List.map_cons] at apart
  rw [List.map_append, List.map_cons]
  exact apart

/-- A main thread that has come to its end is not beside another one. -/
theorem Sound.rested (sound : Sound T c) (at_ : c.threads = front ++ (e, p) :: back) {s : State}
    (idle : ∀ {e s t}, T.main e = false → (T.rely e).rest s → (T.rely e).rest t)
    (does : T.main e = false → T.own.may c.world s) :
    ∀ thread ∈ front ++ back, thread.2.Ended → (T.rely thread.1).rest c.world → (T.rely thread.1).rest s := by
  intro thread beside _ rest
  cases is : T.main thread.1 with
  | false => exact idle is rest
  | true =>
    rw [T.rely_main is] at rest ⊢
    refine T.own.stays rest (does ?_)
    rw [← Bool.not_eq_true]
    exact fun also => sound.beside at_ thread beside (T.clash_main also is)

theorem Sound.replace (sound : Sound T c) (at_ : c.threads = front ++ (e, p) :: back) (here : c.given = false)
    {s : State} (safe : (T.rely e).Safe q (Leaves (T.rely e)) false s)
    (does : T.main e = false → T.own.may c.world s)
    (others : ∀ thread ∈ front ++ back, ¬ thread.2.Ended → (T.rely thread.1).holds c.world →
      (T.rely thread.1).may c.world s)
    (idle : ∀ thread ∈ front ++ back, thread.2.Ended → (T.rely thread.1).rest c.world → (T.rely thread.1).rest s) :
    Sound T ⟨s, false, front ++ (e, q) :: back⟩ := by
  refine ⟨sound.apart_replace at_, fun _ thread there => ?_, fun _ none_ => ?_, nofun⟩
  · rcases mem_replaced there with rfl | there
    · exact safe
    · have was := sound.safe here thread (mem_beside at_ there)
      by_cases ended : thread.2.Ended
      · have later := idle thread there ended
        obtain ⟨e', p'⟩ := thread
        cases p' with
        | done value => exact fun _ => later (was rfl)
        | panic => exact fun _ => later (was rfl)
        | _ => exact absurd ended id
      · refine was.stays (others thread there ended (was.holds ended)) fun leaves may _ => ?_
        exact (T.rely thread.1).stays (leaves rfl) may
  · have other : T.main e = false := none_ (e, q) (List.mem_append_right _ List.mem_cons_self)
    refine T.own.stays (sound.rest here fun thread there => ?_) (does other)
    rw [at_] at there
    rcases mem_replaced there with rfl | there
    · exact other
    · exact none_ thread (mem_beside rfl there)

theorem Sound.remove (sound : Sound T c) (at_ : c.threads = front ++ (e, p) :: back)
    (leaves : c.given = false → T.main e = true → T.own.rest c.world) : Sound T { c with threads := front ++ back } := by
  have within : (front ++ back).Sublist c.threads := by
    rw [at_]
    exact (List.sublist_cons_self _ _).append_left front
  refine ⟨sound.apart.sublist (within.map _), fun here thread there => sound.safe here thread (within.subset there),
    fun here none_ => ?_, fun given => ⟨(sound.ended given).1, fun thread there =>
      (sound.ended given).2 thread (within.subset there)⟩⟩
  cases is : T.main e with
  | true => exact leaves here is
  | false =>
    refine sound.rest here fun thread there => ?_
    rw [at_] at there
    rcases mem_replaced there with rfl | there
    · exact is
    · exact none_ thread there

theorem Sound.enter (sound : Sound T c) (here : c.given = false) (apart : ∀ thread ∈ c.threads, ¬ T.clash thread.1 e)
    (safe : (T.main e = true → T.own.rest c.world) → (T.rely e).Safe p (Leaves (T.rely e)) false c.world) :
    Sound T { c with threads := c.threads ++ [(e, p)] } := by
  refine ⟨?_, fun _ thread there => ?_, fun _ none_ => ?_, fun given => ?_⟩
  · show ((c.threads ++ [(e, p)]).map Prod.fst).Pairwise _
    rw [List.map_append, List.pairwise_append]
    refine ⟨sound.apart, List.pairwise_singleton _ _, fun e' there e'' same => ?_⟩
    obtain ⟨thread, member, rfl⟩ := List.mem_map.mp there
    obtain rfl := List.mem_singleton.mp same
    exact apart thread member
  · rcases List.mem_append.mp there with there | there
    · exact sound.safe here thread there
    · obtain rfl := List.mem_singleton.mp there
      refine safe fun is => sound.rest here fun thread there => ?_
      rw [← Bool.not_eq_true]
      exact fun also => apart thread there (T.clash_main also is)
  · exact sound.rest here fun thread there => none_ thread (List.mem_append_left _ there)
  · rw [show c.given = true from given] at here
    cases here

end

/-- **One turn.** Nothing is entered where it is over, or beside what it clashes with; and an access does what
those beside it rely on. -/
theorem turn_sound [DecidableEq Entry] {m : Reactor State Site Answer Entry}
    (cond : Running State Site Answer Entry → Turn Entry Answer → Prop)
    (before : ∀ {c e idle}, cond c (.enter e) → m.allows c.world idle e = true → ¬ T.gone c.world)
    (apart : ∀ {c e}, cond c (.enter e) → ∀ thread ∈ c.threads, ¬ T.clash thread.1 e)
    (safe : ∀ {c e idle}, cond c (.enter e) → m.allows c.world idle e = true → (T.main e = true → T.own.rest c.world) →
      (T.rely e).Safe (m.program e) (Leaves (T.rely e)) false c.world)
    (acts : ∀ {c i e f next}, cond c (.step i) → c.threads[i]? = some (e, .act f next) →
      (T.rely e).acts c.world (f c.world))
    (others : ∀ {c i e f next}, cond c (.step i) → c.threads[i]? = some (e, .act f next) →
      (T.rely e).does c.world (f c.world) → ∀ thread ∈ c.threads.eraseIdx i, ¬ T.clash e thread.1 → ¬ thread.2.Ended →
      (T.rely thread.1).holds c.world → (T.rely thread.1).may c.world (f c.world))
    (idle : ∀ {e s t}, T.main e = false → (T.rely e).rest s → (T.rely e).rest t)
    (answers : ∀ {c i a e site next}, cond c (.answer i a) → c.threads[i]? = some (e, .call site next) →
      (T.rely e).answers c.world site a)
    {c c' : Running State Site Answer Entry} {t : Turn Entry Answer} (sound : Sound T c) (meets : cond c t)
    (turned : m.turn c t = some c') : Sound T c' := by
  have leaves {e} (is : T.main e = true) (rest : (T.rely e).rest c.world) : T.own.rest c.world := T.rely_main is ▸ rest
  cases turns_of_turn turned with
  | enter allowed =>
    refine sound.enter ?_ (apart meets) (safe meets allowed)
    rw [← Bool.not_eq_true]
    exact fun given => before meets allowed (sound.ended given).1
  | @ends front back e p at_ ended =>
    refine sound.remove at_ fun here is => leaves is ?_
    have safe := sound.safe here (e, p) (mem_here at_)
    cases p with
    | done value => exact safe rfl
    | panic => exact safe rfl
    | _ => exact absurd ended id
  | @acts front back e f next at_ =>
    have here := sound.here at_ id
    have safe := sound.safe here _ (mem_here at_)
    obtain ⟨does, later⟩ := safe.2.2 c.world ((T.rely e).refl _) (acts meets (getElem?_here at_))
    have may (other : T.main e = false) : T.own.may c.world (f c.world) := T.beside other does
    rw [here]
    refine sound.replace at_ here later may (fun thread beside goes holds => ?_) (sound.rested at_ idle may)
    exact others meets (getElem?_here at_) does thread (eraseIdx_here at_ ▸ beside) (sound.beside at_ thread beside)
      goes holds
  | @gives front back e f next at_ =>
    have here := sound.here at_ id
    obtain ⟨quits, later⟩ := (sound.safe here _ (mem_here at_)).2.2 c.world ((T.rely e).refl _)
    obtain ⟨gone, alone⟩ := T.quits quits
    refine ⟨sound.apart_replace at_, nofun, nofun, fun _ => ⟨gone, fun thread member => ?_⟩⟩
    rcases mem_replaced member with rfl | beside
    · exact later.ended
    · by_contra goes
      exact alone (sound.beside at_ thread beside) ((sound.safe here thread (mem_beside at_ beside)).holds goes)
  | @answers front back e site next a at_ =>
    have here := sound.here at_ id
    have safe := sound.safe here _ (mem_here at_)
    rw [here]
    exact sound.replace at_ here (safe.2.2.2 c.world a ((T.rely e).refl _) (answers meets (getElem?_here at_)))
      (fun _ => T.own.refl _) (fun thread _ _ _ => (T.rely thread.1).refl _) fun _ _ _ rest => rest
  | @unwinds front back e site next at_ =>
    exact sound.remove at_ fun here is => leaves is (sound.safe here _ (mem_here at_)).2.2.1

end Reactor

end Strike.Lib
