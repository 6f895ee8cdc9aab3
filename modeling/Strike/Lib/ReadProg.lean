/-
**Programs that read from a buffer.**

A `ReadProg` asks a buffer for its length, for some bytes or for one byte, and ends with a value or
a panic. The same program runs on anything with the operations of `ReadBuffer`.

* `MarkedQueue` is the plainest such buffer: the unread bytes, and the bytes read since the mark. A
  read at the end forgets the mark.
* `Simulation.run`: a program behaves alike on buffers that answer alike.
* `run_reaches`: whatever a program does to a queue, it takes bytes off the front, or runs into the
  end and forgets the mark.
* `Ensures post p`: every value `p` can return satisfies `post`, on any buffer.
* `Takes low high p`: whenever `p` returns, it has taken between `low` and `high` bytes.
* `Reads p taken value`: in front of any other bytes, `p` takes exactly `taken` and returns `value`.
  Closed under `bind` (`Reads.bind`) and under counting (`Reads.counted`).
-/

import Strike.Go.Slice

namespace Strike.Lib

/-- A program that reads from a buffer. -/
inductive ReadProg (α : Type) : Type where
  | done (value : α)
  | raise (cause : Panic)
  | len (next : Int → ReadProg α)
  | read (n : Nat) (next : Bytes × Option GoError → ReadProg α)
  | readByte (next : UInt8 × Option GoError → ReadProg α)

/-- A buffer such programs run on. -/
class ReadBuffer (B : Type) where
  len : B → Int
  read : Nat → EStateM Panic B (Bytes × Option GoError)
  readByte : EStateM Panic B (UInt8 × Option GoError)
  mark : B → B
  restore : B → B

namespace ReadProg

variable {α β : Type}

/-- One program after another. -/
def bind : ReadProg α → (α → ReadProg β) → ReadProg β
  | .done value, f => f value
  | .raise cause, _ => .raise cause
  | .len next, f => .len fun n => (next n).bind f
  | .read n next, f => .read n fun answer => (next answer).bind f
  | .readByte next, f => .readByte fun answer => (next answer).bind f

instance : Monad ReadProg where
  pure := .done
  bind := bind

/-- `buf.Len()`. -/
def getLen : ReadProg Int := .len .done

/-- `buf.Read(p)` for a `p` of length `n`. -/
def getBytes (n : Nat) : ReadProg (Bytes × Option GoError) := .read n .done

/-- `buf.ReadByte()`. -/
def getByte : ReadProg (UInt8 × Option GoError) := .readByte .done

/-- A program, with the length before it less the length after it. -/
def counted (p : ReadProg α) : ReadProg (α × Int) := do
  let before ← getLen
  let value ← p
  let after ← getLen
  return (value, before - after)

/-- The program on a buffer. -/
def run {B : Type} [ReadBuffer B] : ReadProg α → EStateM Panic B α
  | .done value, b => .ok value b
  | .raise cause, b => .error cause b
  | .len next, b => (next (ReadBuffer.len b)).run b
  | .read n next, b => match ReadBuffer.read n b with
      | .ok answer b' => (next answer).run b'
      | .error cause b' => .error cause b'
  | .readByte next, b => match ReadBuffer.readByte b with
      | .ok answer b' => (next answer).run b'
      | .error cause b' => .error cause b'

section Run

variable {B : Type} [ReadBuffer B] (b : B)

@[simp] theorem run_pure (value : α) : (pure value : ReadProg α).run b = .ok value b := rfl

@[simp] theorem run_raise (cause : Panic) : (raise cause : ReadProg α).run b = .error cause b := rfl

@[simp] theorem run_getLen : getLen.run b = .ok (ReadBuffer.len b) b := rfl

@[simp] theorem run_getBytes (n : Nat) : (getBytes n).run b = ReadBuffer.read n b := by
  simp only [getBytes, run]
  cases (ReadBuffer.read n b : EStateM.Result Panic B (Bytes × Option GoError)) <;> rfl

@[simp] theorem run_getByte : getByte.run b = ReadBuffer.readByte b := by
  simp only [getByte, run]
  cases (ReadBuffer.readByte b : EStateM.Result Panic B (UInt8 × Option GoError)) <;> rfl

/-- **Running one program after another.** -/
@[simp] theorem run_bind (p : ReadProg α) (f : α → ReadProg β) : ∀ b : B, (p >>= f).run b = match p.run b with
      | .ok value b' => (f value).run b'
      | .error cause b' => .error cause b' := by
  show ∀ b : B, (p.bind f).run b = _
  induction p with
  | done value => exact fun b => rfl
  | raise cause => exact fun b => rfl
  | len next ih => exact fun b => ih _ b
  | read n next ih =>
    intro b
    simp only [bind, run]
    cases (ReadBuffer.read n b : EStateM.Result Panic B (Bytes × Option GoError)) with
    | ok answer b' => exact ih answer b'
    | error cause b' => rfl
  | readByte next ih =>
    intro b
    simp only [bind, run]
    cases (ReadBuffer.readByte b : EStateM.Result Panic B (UInt8 × Option GoError)) with
    | ok answer b' => exact ih answer b'
    | error cause b' => rfl

theorem of_run_bind {p : ReadProg α} {f : α → ReadProg β} {b b' : B} {value : β}
    (ran : (p >>= f).run b = .ok value b') :
    ∃ middle b₁, p.run b = .ok middle b₁ ∧ (f middle).run b₁ = .ok value b' := by
  rw [run_bind] at ran
  split at ran
  · next middle b₁ first => exact ⟨middle, b₁, first, ran⟩
  · cases ran

@[simp] theorem run_ite (c : Prop) [Decidable c] (p q : ReadProg α) :
    (if c then p else q).run b = if c then p.run b else q.run b := by
  split <;> rfl

end Run

end ReadProg

/-! ### Buffers that answer alike -/

section Simulation

variable {B C : Type} [ReadBuffer B] [ReadBuffer C] {α : Type}

/-- Two results with the same value or the same panic, and related buffers. -/
def SameResult (rel : B → C → Prop) : EStateM.Result Panic B α → EStateM.Result Panic C α → Prop
  | .ok value b, .ok value' c => value = value' ∧ rel b c
  | .error cause b, .error cause' c => cause = cause' ∧ rel b c
  | _, _ => False

/-- **Buffers that answer alike.** `same` says that two buffers hold the same unread bytes, `marked`
that they would also restore the same bytes; `Mark` leads from one to the other. -/
structure Simulation (same marked : B → C → Prop) : Prop where
  len : ∀ {b c}, same b c → ReadBuffer.len b = ReadBuffer.len c
  read : ∀ {b c} (n : Nat), marked b c → SameResult marked (ReadBuffer.read n b) (ReadBuffer.read n c)
  readByte : ∀ {b c}, marked b c → SameResult marked (ReadBuffer.readByte b) (ReadBuffer.readByte c)
  mark : ∀ {b c}, same b c → marked (ReadBuffer.mark b) (ReadBuffer.mark c)
  restore : ∀ {b c}, marked b c → same (ReadBuffer.restore b) (ReadBuffer.restore c)
  forget : ∀ {b c}, marked b c → same b c

variable {same marked : B → C → Prop}

/-- **A program behaves alike on such buffers.** By induction on the program. -/
theorem Simulation.run (sim : Simulation same marked)
    (p : ReadProg α) : ∀ {b c}, marked b c → SameResult marked (p.run b) (p.run c) := by
  induction p with
  | done value => exact fun related => ⟨rfl, related⟩
  | raise cause => exact fun related => ⟨rfl, related⟩
  | len next ih =>
    intro b c related
    simp only [ReadProg.run, sim.len (sim.forget related)]
    exact ih _ related
  | read n next ih =>
    intro b c related
    have answers := sim.read n related
    simp only [ReadProg.run]
    cases left : (ReadBuffer.read n b : EStateM.Result Panic B (Bytes × Option GoError)) <;>
      cases right : (ReadBuffer.read n c : EStateM.Result Panic C (Bytes × Option GoError)) <;>
      rw [left, right] at answers
    · obtain ⟨rfl, related⟩ := answers
      exact ih _ related
    · exact answers.elim
    · exact answers.elim
    · exact answers
  | readByte next ih =>
    intro b c related
    have answers := sim.readByte related
    simp only [ReadProg.run]
    cases left : (ReadBuffer.readByte b : EStateM.Result Panic B (UInt8 × Option GoError)) <;>
      cases right : (ReadBuffer.readByte c : EStateM.Result Panic C (UInt8 × Option GoError)) <;>
      rw [left, right] at answers
    · obtain ⟨rfl, related⟩ := answers
      exact ih _ related
    · exact answers.elim
    · exact answers.elim
    · exact answers

/-- A run that returns on the second buffer returns the same on the first. -/
theorem Simulation.ok_left (sim : Simulation same marked) {p : ReadProg α} {b : B}
    {c c' : C} {value : α} (related : marked b c) (ran : p.run c = .ok value c') :
    ∃ b', p.run b = .ok value b' ∧ marked b' c' := by
  have answers := sim.run p related
  rw [ran] at answers
  cases left : p.run b with
  | ok value' b' =>
    rw [left] at answers
    obtain ⟨rfl, related'⟩ := answers
    exact ⟨b', rfl, related'⟩
  | error cause b' =>
    rw [left] at answers
    exact answers.elim

theorem Simulation.ok_right (sim : Simulation same marked) {p : ReadProg α} {b b' : B}
    {c : C} {value : α} (related : marked b c) (ran : p.run b = .ok value b') :
    ∃ c', p.run c = .ok value c' ∧ marked b' c' := by
  have answers := sim.run p related
  rw [ran] at answers
  cases right : p.run c with
  | ok value' c' =>
    rw [right] at answers
    obtain ⟨rfl, related'⟩ := answers
    exact ⟨c', rfl, related'⟩
  | error cause c' =>
    rw [right] at answers
    exact answers.elim

end Simulation

/-! ### The marked queue -/

/-- The unread bytes of a buffer, and those read since its mark. -/
structure MarkedQueue where
  rest : Bytes
  undo : Option Bytes
  deriving DecidableEq, Repr

namespace MarkedQueue

/-- The queue after `k` bytes were taken off. -/
def advance (q : MarkedQueue) (k : Nat) : MarkedQueue := ⟨q.rest.drop k, q.undo.map (· ++ q.rest.take k)⟩

/-- The queue after a read found nothing: empty, and the mark is gone. -/
def drained : MarkedQueue := ⟨[], none⟩

instance : ReadBuffer MarkedQueue where
  len q := q.rest.length
  read n q :=
    if q.rest = [] then .ok ([], if n = 0 then none else some .eof) drained
    else .ok (q.rest.take n, none) (q.advance n)
  readByte q := match q.rest with
    | [] => .ok (0, some .eof) drained
    | value :: _ => .ok (value, none) (q.advance 1)
  mark q := ⟨q.rest, some []⟩
  restore q := match q.undo with
    | none => q
    | some bytes => ⟨bytes ++ q.rest, none⟩

@[simp] theorem len_eq (q : MarkedQueue) : ReadBuffer.len q = q.rest.length := rfl

theorem read_eq (n : Nat) (q : MarkedQueue) : ReadBuffer.read n q =
      if q.rest = [] then .ok ([], if n = 0 then none else some .eof) drained
      else .ok (q.rest.take n, none) (q.advance n) := rfl

@[simp] theorem readByte_cons (value : UInt8) (rest : Bytes) (undo : Option Bytes) :
    ReadBuffer.readByte (⟨value :: rest, undo⟩ : MarkedQueue) =
      .ok (value, none) ⟨rest, undo.map (· ++ [value])⟩ := rfl

@[simp] theorem mark_eq (q : MarkedQueue) : ReadBuffer.mark q = ⟨q.rest, some []⟩ := rfl

theorem advance_zero (q : MarkedQueue) : q.advance 0 = q := by
  obtain ⟨rest, undo⟩ := q
  cases undo <;> simp [advance]

theorem advance_advance (q : MarkedQueue) (k l : Nat) : (q.advance k).advance l = q.advance (k + l) := by
  obtain ⟨rest, undo⟩ := q
  cases undo <;> simp [advance, List.drop_drop, List.take_add]

/-- Where a program can leave a queue: some bytes further on, or drained. -/
inductive Reaches (q : MarkedQueue) : MarkedQueue → Prop
  | advance (k : Nat) (le : k ≤ q.rest.length) : Reaches q (q.advance k)
  | drained : Reaches q drained

theorem Reaches.rest {q q' : MarkedQueue} (reaches : q.Reaches q') :
    ∃ k ≤ q.rest.length, q'.rest = q.rest.drop k := by
  cases reaches with
  | advance k le => exact ⟨k, le, rfl⟩
  | drained => exact ⟨q.rest.length, le_rfl, (List.drop_length).symm⟩

theorem Reaches.trans {q q' q'' : MarkedQueue} (first : q.Reaches q') (second : q'.Reaches q'') : q.Reaches q'' := by
  cases second with
  | drained => exact .drained
  | advance l le =>
    cases first with
    | drained =>
      obtain rfl : l = 0 := Nat.le_zero.mp le
      exact .drained
    | advance k le' =>
      rw [advance_advance]
      refine .advance _ ?_
      simp only [MarkedQueue.advance, List.length_drop] at le
      omega

theorem read_reaches (n : Nat) (q : MarkedQueue) :
    ∃ answer q', ReadBuffer.read n q = .ok answer q' ∧ q.Reaches q' := by
  rw [read_eq]
  split
  · exact ⟨_, _, rfl, .drained⟩
  · refine ⟨_, _, rfl, ?_⟩
    by_cases short : n ≤ q.rest.length
    · exact .advance n short
    · have whole : q.advance n = q.advance q.rest.length := by
        simp only [MarkedQueue.advance, List.drop_length, List.take_length]
        rw [List.drop_eq_nil_of_le (by omega), List.take_of_length_le (by omega)]
      rw [whole]
      exact .advance _ le_rfl

theorem readByte_reaches (q : MarkedQueue) : ∃ answer q', ReadBuffer.readByte q = .ok answer q' ∧ q.Reaches q' := by
  obtain ⟨rest, undo⟩ := q
  cases rest with
  | nil => exact ⟨_, _, rfl, .drained⟩
  | cons value rest => exact ⟨_, _, rfl, .advance 1 (by simp)⟩

end MarkedQueue

/-- The buffer a program left behind. -/
def bufferOf {B α : Type} : EStateM.Result Panic B α → B
  | .ok _ b => b
  | .error _ b => b

namespace ReadProg

variable {α β : Type}

/-- **A program only takes bytes off the front.** -/
theorem run_reaches (p : ReadProg α) : ∀ q : MarkedQueue, q.Reaches (bufferOf (p.run q)) := by
  induction p with
  | done value =>
    intro q
    have here : q.Reaches (q.advance 0) := .advance 0 (Nat.zero_le _)
    rwa [q.advance_zero] at here
  | raise cause =>
    intro q
    have here : q.Reaches (q.advance 0) := .advance 0 (Nat.zero_le _)
    rwa [q.advance_zero] at here
  | len next ih => exact fun q => ih _ q
  | read n next ih =>
    intro q
    obtain ⟨answer, q', run, reaches⟩ := q.read_reaches n
    simp only [ReadProg.run, run]
    exact reaches.trans (ih answer q')
  | readByte next ih =>
    intro q
    obtain ⟨answer, q', run, reaches⟩ := q.readByte_reaches
    simp only [ReadProg.run, run]
    exact reaches.trans (ih answer q')

variable {p : ReadProg α} {post : α → Prop} {f : α → ReadProg β}

theorem run_rest {q : MarkedQueue} {r : EStateM.Result Panic MarkedQueue α}
    (result : p.run q = r) : ∃ k ≤ q.rest.length, (bufferOf r).rest = q.rest.drop k :=
  result ▸ (p.run_reaches q).rest

/-! ### What a program returns -/

/-- **Every value the program can return satisfies `post`.** -/
def Ensures (post : α → Prop) : ReadProg α → Prop
  | .done value => post value
  | .raise _ => True
  | .len next => ∀ n, (next n).Ensures post
  | .read _ next => ∀ answer, (next answer).Ensures post
  | .readByte next => ∀ answer, (next answer).Ensures post

theorem Ensures.of_run {B : Type} [ReadBuffer B] :
    ∀ {b b' : B} {value : α}, p.Ensures post → p.run b = .ok value b' → post value := by
  induction p with
  | done value =>
    intro b b' value' ensures ran
    cases ran
    exact ensures
  | raise cause => exact fun _ ran => nomatch ran
  | len next ih => exact fun ensures ran => ih _ (ensures _) ran
  | read n next ih =>
    intro b b' value ensures ran
    simp only [run] at ran
    split at ran
    · exact ih _ (ensures _) ran
    · cases ran
  | readByte next ih =>
    intro b b' value ensures ran
    simp only [run] at ran
    split at ran
    · exact ih _ (ensures _) ran
    · cases ran

theorem ensures_trivial (p : ReadProg α) : p.Ensures fun _ => True := by
  induction p with
  | done value => trivial
  | raise cause => trivial
  | len next ih => exact ih
  | read n next ih => exact ih
  | readByte next ih => exact ih

theorem Ensures.bind {pre : α → Prop} {post : β → Prop}
    (first : p.Ensures pre) (second : ∀ value, pre value → (f value).Ensures post) :
    (p >>= f).Ensures post := by
  show (p.bind f).Ensures post
  induction p with
  | done value => exact second value first
  | raise cause => trivial
  | len next ih => exact fun n => ih n (first n)
  | read n next ih => exact fun answer => ih answer (first answer)
  | readByte next ih => exact fun answer => ih answer (first answer)

theorem Ensures.after {post : β → Prop} (p : ReadProg α)
    (ensures : ∀ value, (f value).Ensures post) : (p >>= f).Ensures post :=
  p.ensures_trivial.bind fun value _ => ensures value

theorem Ensures.counted (ensures : p.Ensures post) : (counted p).Ensures fun result => post result.1 :=
  .after _ fun _ => ensures.bind fun _ holds => .after _ fun _ => holds

theorem Ensures.ite {c : Prop} [Decidable c] {p q : ReadProg α}
    (yes : c → p.Ensures post) (no : ¬ c → q.Ensures post) : (if c then p else q).Ensures post := by
  split
  · next holds => exact yes holds
  · next fails => exact no fails

/-! ### How much a program takes -/

/-- **Whenever the program returns, it has taken between `low` and `high` bytes.** -/
def Takes (low high : Nat) (p : ReadProg α) : Prop :=
  ∀ (q : MarkedQueue) (value : α) (q' : MarkedQueue), p.run q = .ok value q' →
    ∃ k, low ≤ k ∧ k ≤ high ∧ k ≤ q.rest.length ∧ q'.rest = q.rest.drop k

theorem Takes.pure (value : α) : Takes 0 0 (pure value) := by
  intro q value' q' ran
  cases ran
  exact ⟨0, le_rfl, le_rfl, Nat.zero_le _, rfl⟩

theorem Takes.raise (low high : Nat) (cause : Panic) : Takes low high (raise cause : ReadProg α) :=
  fun _ _ _ ran => nomatch ran

theorem Takes.mono {low low' high high' : Nat} (takes : p.Takes low high)
    (less : low' ≤ low) (more : high ≤ high') : p.Takes low' high' := by
  intro q value q' ran
  obtain ⟨k, above, below, inside, rest⟩ := takes q value q' ran
  exact ⟨k, less.trans above, below.trans more, inside, rest⟩

theorem Takes.bind {low low' high high' : Nat}
    (first : p.Takes low high) (second : ∀ value, (f value).Takes low' high') :
    (p >>= f).Takes (low + low') (high + high') := by
  intro q value q' ran
  obtain ⟨middle, q₁, ran₁, ran₂⟩ := of_run_bind ran
  obtain ⟨k, above, below, inside, rest⟩ := first _ _ _ ran₁
  obtain ⟨l, above', below', inside', rest'⟩ := second middle _ _ _ ran₂
  rw [rest, List.length_drop] at inside'
  exact ⟨k + l, by omega, by omega, by omega, by rw [rest', rest, List.drop_drop]⟩

theorem Takes.ite {low high : Nat} {c : Prop} [Decidable c] {p q : ReadProg α}
    (yes : p.Takes low high) (no : q.Takes low high) : (if c then p else q).Takes low high := by
  split
  · exact yes
  · exact no

theorem Takes.counted {low high : Nat} (takes : p.Takes low high)
    {q q' : MarkedQueue} {value : α} {count : Int} (ran : (counted p).run q = .ok (value, count) q') :
    ∃ k : Nat, low ≤ k ∧ k ≤ high ∧ k ≤ q.rest.length ∧ q'.rest = q.rest.drop k ∧ count = k := by
  obtain ⟨before, _, asked, ran⟩ := of_run_bind ran
  cases asked
  obtain ⟨middle, q₁, read, ran⟩ := of_run_bind ran
  cases ran
  obtain ⟨k, above, below, inside, rest⟩ := takes _ _ _ read
  refine ⟨k, above, below, inside, rest, ?_⟩
  rw [MarkedQueue.len_eq, MarkedQueue.len_eq, rest, List.length_drop]
  omega

/-! ### Taking exactly some bytes -/

/-- **In front of any other bytes the program takes exactly `taken` and returns `value`.** -/
def Reads (p : ReadProg α) (taken : Bytes) (value : α) : Prop :=
  ∀ rest undo, ∃ undo', p.run (⟨taken ++ rest, undo⟩ : MarkedQueue) = .ok value ⟨rest, undo'⟩

theorem Reads.pure (value : α) : Reads (pure value) [] value := fun _ undo => ⟨undo, rfl⟩

theorem Reads.bind {taken taken' : Bytes} {value : α}
    {value' : β} (first : p.Reads taken value) (second : (f value).Reads taken' value') :
    (p >>= f).Reads (taken ++ taken') value' := by
  intro rest undo
  obtain ⟨undo₁, run₁⟩ := first (taken' ++ rest) undo
  obtain ⟨undo₂, run₂⟩ := second rest undo₁
  refine ⟨undo₂, ?_⟩
  rw [List.append_assoc, run_bind, run₁]
  exact run₂

theorem Reads.map {taken : Bytes} {value : α} (reads : p.Reads taken value)
    (f : α → β) : (p >>= fun value => Pure.pure (f value)).Reads taken (f value) := by
  have both := reads.bind (f := fun value => (Pure.pure (f value) : ReadProg β)) (Reads.pure (f value))
  rwa [List.append_nil] at both

theorem Reads.counted {taken : Bytes} {value : α} (reads : p.Reads taken value) :
    (counted p).Reads taken (value, taken.length) := by
  intro rest undo
  obtain ⟨undo', run⟩ := reads rest undo
  refine ⟨undo', ?_⟩
  simp only [ReadProg.counted, run_bind, run_getLen, MarkedQueue.len_eq, run, run_pure,
    List.length_append]
  congr 2
  omega

end ReadProg

end Strike.Lib
