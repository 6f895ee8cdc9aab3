/-
**`ReadOnce`** (`iobuffer.go`).

It reads until the reader has less than there is room for, or more than `MaxRead` bytes were read, and it stops
at every error: the error that it asks for a timeout is its own result, which is nil until then.

* `readOnceLoop_more`: the rounds are enough.
* `readOnce_holds`: what was read is behind what the buffer held, whatever the buffer had to move.
-/

import Strike.Buffer.Fifo

namespace Strike

/-- `MaxRead`. -/
def maxRead : Nat := 1 <<< 17

/-- What a reader will answer, with errors of any type. -/
abbrev Answers (ε : Type) := List (Bytes × Option ε)

namespace Answers

variable {ε : Type}

/-- `r.Read(p)` for a `p` of length `room`. Behind its answers a reader has an error, at a connection that of
the deadline. -/
def read (last : ε) (r : Answers ε) (room : Nat) : Bytes × Option ε × Answers ε :=
  match r with
  | [] => ([], some last, [])
  | (data, err) :: rest =>
    if data.length ≤ room then (data, err, rest) else (data.take room, none, (data.drop room, err) :: rest)

/-- The bytes to come. -/
def bytes (r : Answers ε) : Bytes := (r.map Prod.fst).flatten

theorem read_spec {last : ε} {r r' : Answers ε} {room : Nat} {data : Bytes} {e : Option ε}
    (answered : r.read last room = (data, e, r')) : data.length ≤ room ∧ r.bytes = data ++ r'.bytes := by
  match r with
  | [] =>
    cases answered
    exact ⟨Nat.zero_le _, rfl⟩
  | (all, err) :: rest =>
    by_cases fits : all.length ≤ room
    · rw [read, if_pos fits] at answered
      cases answered
      exact ⟨fits, rfl⟩
    · rw [read, if_neg fits] at answered
      cases answered
      refine ⟨by rw [List.length_take]; omega, ?_⟩
      simp only [bytes, List.map_cons, List.flatten_cons]
      rw [← List.append_assoc, List.take_append_drop]

end Answers

namespace IoBuffer

variable {ε : Type}

/-- Before each read but the first there is room for `MinRead` bytes. -/
def roomBefore (pool : Pool) (first : Bool) : BufM Unit := if first = false then makeRoom pool minRead else pure ()

/-- The loop of `ReadOnce`, with the rounds left. `loop` is whether the reader is a connection. -/
def readOnceLoop (pool : Pool) (last : ε) :
    (rounds : Nat) → (first loop : Bool) → Answers ε → Nat → BufM (Nat × Option ε × Answers ε)
  | 0, _, _, r, n => return (n, none, r)
  | rounds + 1, first, loop, r, n => do
    roomBefore pool first
    let b ← get
    let l := b.buf.cap - b.buf.len
    let (data, e, r) := r.read last l
    extend data
    let n := n + data.length
    if e.isSome then return (n, e, r)
    if loop = true ∧ l = data.length ∧ n ≤ maxRead then readOnceLoop pool last rounds false loop r n
    else return (n, none, r)

/-- A round behind the first reads `MinRead` bytes or is the last. -/
def readOnceRounds : Nat := maxRead / minRead + 2

/-- A short rest moves to the front first. -/
def slide (pool : Pool) : BufM Unit := do
  let b ← get
  if b.off > 0 ∧ b.buf.len - b.off < 4 * minRead then copy pool 0 else pure ()

/-- `ReadOnce`. The deadlines are those of the connection; that a read came too late is its answer. -/
def readOnce (pool : Pool) (last : ε) (conn : Bool) (r : Answers ε) : BufM (Nat × Option ε × Answers ε) := do
  resetIf fun b => b.off ≥ b.buf.len
  slide pool
  readOnceLoop pool last readOnceRounds true conn r 0

/-! ### One round -/

variable {b : IoBuffer} {q : Bytes}

theorem makeRoom_holds (pool : Pool) (n : Nat) (holds : Holds b q) :
    ∃ b', makeRoom pool n b = .ok () b' ∧ Holds b' q ∧ b'.buf.len + n ≤ b'.buf.cap := by
  obtain ⟨b', made, lands, room⟩ := makeRoom_spec pool (n := n) holds.1
  exact ⟨b', made, by simpa using holds.lands lands, room⟩

theorem roomBefore_holds (pool : Pool) (first : Bool) (holds : Holds b q) :
    ∃ b', roomBefore pool first b = .ok () b' ∧ Holds b' q ∧
      (first = false → minRead ≤ b'.buf.cap - b'.buf.len) := by
  cases first with
  | true => exact ⟨b, rfl, holds, fun later => by cases later⟩
  | false =>
    obtain ⟨b', made, holds', room⟩ := makeRoom_holds pool minRead holds
    exact ⟨b', made, holds', fun _ => by omega⟩

theorem slide_holds (pool : Pool) (holds : Holds b q) : ∃ b', slide pool b = .ok () b' ∧ Holds b' q := by
  by_cases slides : b.off > 0 ∧ b.buf.len - b.off < 4 * minRead
  · obtain ⟨b', ran, lands, -⟩ := copy_spec pool 0 holds.1
    refine ⟨b', ?_, by simpa using holds.lands lands⟩
    simp only [slide, BufM.bind_apply, BufM.get_apply, if_pos slides, ran]
  · refine ⟨b, ?_, holds⟩
    simp only [slide, BufM.bind_apply, BufM.get_apply, if_neg slides, BufM.pure_apply]

/-- **One round**: the data is behind what the buffer held, and the loop goes on only behind a read that filled
the room. -/
theorem readOnceLoop_round (pool : Pool) (last : ε) (first loop : Bool) (r : Answers ε) (n : Nat) (holds : Holds b q) :
    ∃ b' data e r', Holds b' (q ++ data) ∧ r.bytes = data ++ r'.bytes ∧
      ((∀ rounds, readOnceLoop pool last (rounds + 1) first loop r n b = .ok (n + data.length, e, r') b') ∨
        (e = none ∧ n + data.length ≤ maxRead ∧ (first = false → minRead ≤ data.length) ∧
          ∀ rounds, readOnceLoop pool last (rounds + 1) first loop r n b =
            readOnceLoop pool last rounds false loop r' (n + data.length) b')) := by
  obtain ⟨middle, made, holdsMiddle, room⟩ := roomBefore_holds pool first holds
  obtain ⟨data, e, r', answered⟩ : ∃ data e r',
      r.read last (middle.buf.cap - middle.buf.len) = (data, e, r') := ⟨_, _, _, rfl⟩
  obtain ⟨fits, rest⟩ := Answers.read_spec answered
  have inside := middle.buf.len_le_cap
  obtain ⟨after, wrote, kept, -⟩ := extend_spec data (b := middle) (by omega)
  have unfolded : ∀ rounds, readOnceLoop pool last (rounds + 1) first loop r n b =
      (if e.isSome then pure (n + data.length, e, r')
        else if loop = true ∧ middle.buf.cap - middle.buf.len = data.length ∧ n + data.length ≤ maxRead then
          readOnceLoop pool last rounds false loop r' (n + data.length)
        else pure (n + data.length, none, r') : BufM _) after := by
    intro rounds
    simp only [readOnceLoop, BufM.bind_apply, made, BufM.get_apply, answered, wrote]
  refine ⟨after, data, e, r', holdsMiddle.lands kept, rest, ?_⟩
  by_cases failed : e.isSome
  · refine .inl fun rounds => ?_
    rw [unfolded, if_pos failed, BufM.pure_apply]
  · obtain rfl : e = none := by simpa using failed
    by_cases more : loop = true ∧ middle.buf.cap - middle.buf.len = data.length ∧ n + data.length ≤ maxRead
    · refine .inr ⟨rfl, more.2.2, fun later => more.2.1 ▸ room later, fun rounds => ?_⟩
      rw [unfolded, if_neg failed, if_pos more]
    · refine .inl fun rounds => ?_
      rw [unfolded, if_neg failed, if_neg more, BufM.pure_apply]

/-! ### The whole loop -/

/-- **More rounds change nothing.** By induction on the rounds: one that is not the last has read `MinRead`
bytes, of which only so many fit below `MaxRead`. -/
theorem readOnceLoop_more (pool : Pool) (last : ε) (loop : Bool) :
    ∀ (rounds more n : Nat) (r : Answers ε) {b : IoBuffer} {q : Bytes}, Holds b q → n ≤ maxRead →
      maxRead < n + minRead * rounds →
      readOnceLoop pool last (rounds + more) false loop r n b = readOnceLoop pool last rounds false loop r n b
  | 0, _, n, _, _, _, _, below, enough => absurd below (by omega)
  | rounds + 1, more, n, r, b, q, holds, below, enough => by
    obtain ⟨b', data, e, r', holds', -, ended | ⟨-, below', large, goesOn⟩⟩ :=
      readOnceLoop_round pool last false loop r n holds
    · rw [Nat.add_right_comm, ended, ended]
    · have large := large rfl
      rw [Nat.add_right_comm, goesOn, goesOn]
      exact readOnceLoop_more pool last loop rounds more (n + data.length) r' holds' below'
        (by rw [Nat.mul_succ] at enough; omega)

theorem readOnceLoop_holds (pool : Pool) (last : ε) (loop : Bool) :
    ∀ (rounds : Nat) (first : Bool) (n : Nat) (r : Answers ε) {b : IoBuffer} {q : Bytes}, Holds b q →
      ∃ b' data e r', readOnceLoop pool last rounds first loop r n b = .ok (n + data.length, e, r') b' ∧
        Holds b' (q ++ data) ∧ r.bytes = data ++ r'.bytes
  | 0, _, n, r, b, q, holds => ⟨b, [], none, r, rfl, by rwa [List.append_nil], rfl⟩
  | rounds + 1, first, n, r, b, q, holds => by
    obtain ⟨b', data, e, r', holds', rest, ended | ⟨-, -, -, goesOn⟩⟩ :=
      readOnceLoop_round pool last first loop r n holds
    · exact ⟨b', data, e, r', ended rounds, holds', rest⟩
    · obtain ⟨b'', data', e', r'', ran, holds'', rest'⟩ :=
        readOnceLoop_holds pool last loop rounds false (n + data.length) r' holds'
      refine ⟨b'', data ++ data', e', r'', ?_, ?_, ?_⟩
      · rw [goesOn, ran, List.length_append, Nat.add_assoc]
      · rwa [List.append_assoc] at holds''
      · rw [rest, rest', List.append_assoc]

/-- **`ReadOnce` adds what it read.** The count is that of the bytes, which come off the front of what the reader
has; nothing is out of range. -/
theorem readOnce_holds (pool : Pool) (last : ε) (conn : Bool) (r : Answers ε) (holds : Holds b q) :
    ∃ b' data e r', readOnce pool last conn r b = .ok (data.length, e, r') b' ∧ Holds b' (q ++ data) ∧
      r.bytes = data ++ r'.bytes := by
  -- the reset and the slide keep the unread bytes
  obtain ⟨fresh, reset, holdsFresh⟩ : ∃ fresh, resetIf (fun b => b.off ≥ b.buf.len) b = .ok () fresh ∧
      Holds fresh q := by
    by_cases drained : b.off ≥ b.buf.len
    · refine ⟨b.reset, by simp [resetIf, drained], ?_⟩
      rw [← holds.2, (contents_eq_nil_iff holds.1).mpr drained]
      exact Holds.reset b
    · exact ⟨b, by simp [resetIf, drained], holds⟩
  obtain ⟨front, slid, holdsFront⟩ := slide_holds pool holdsFresh
  obtain ⟨b', data, e, r', ran, holds', rest⟩ :=
    readOnceLoop_holds pool last conn readOnceRounds true 0 r holdsFront
  refine ⟨b', data, e, r', ?_, holds', rest⟩
  simp only [readOnce, BufM.bind_apply, reset, slid, ran, Nat.zero_add]

/-- **The rounds of `ReadOnce` are enough**: it returns the same with any more of them. -/
theorem readOnce_rounds (pool : Pool) (last : ε) (conn : Bool) (r : Answers ε) (more : Nat) (holds : Holds b q) :
    readOnceLoop pool last (readOnceRounds + more) true conn r 0 b =
      readOnceLoop pool last readOnceRounds true conn r 0 b := by
  have split : readOnceRounds + more = (maxRead / minRead + 1 + more) + 1 := by
    unfold readOnceRounds
    omega
  obtain ⟨b', data, e, r', holds', -, ended | ⟨-, below, -, goesOn⟩⟩ :=
    readOnceLoop_round pool last true conn r 0 holds
  · rw [split, ended]
    exact (ended (maxRead / minRead + 1)).symm
  · rw [split, goesOn]
    refine (readOnceLoop_more pool last conn (maxRead / minRead + 1) more _ r' holds' below ?_).trans
      (goesOn (maxRead / minRead + 1)).symm
    have large : maxRead < minRead * (maxRead / minRead + 1) := by decide
    omega

end IoBuffer

end Strike
