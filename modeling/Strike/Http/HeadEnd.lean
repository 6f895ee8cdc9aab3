/-
**Where a head ends, for the two readers of header fields.**

`readRawHeaders`, for `GET` and `HEAD`, looks for the first empty line (`EndsAt`). `parseHeaders` looks for colons:
the name of a field reaches to the next one, over line ends and empty lines too. So the two part where a line
without a colon is the last one in front of the empty line.

* `readers_agree_iff`: the readers agree exactly where there is a colon in the line ahead of the first empty line
  (`ColonAhead`).
-/

import Strike.Http.Entries

namespace Strike.Http

/-! ### The first empty line -/

/-- **The first empty line**: the lines in front of it, and the length up to behind it. -/
inductive EndsAt : List Bytes → Nat → Bytes → Prop
  | here {eol : Bytes} (empty : IsEmptyLine eol) (rest : Bytes) : EndsAt [] eol.length (eol ++ rest)
  | line {line : Bytes} (noEnd : lf ∉ line) (given : ¬ IsEmptyLine (line ++ [lf])) {lines : List Bytes} {n : Nat}
      {rest : Bytes} (later : EndsAt lines n rest) : EndsAt (line :: lines) (line.length + 1 + n) (line ++ lf :: rest)

theorem isEmptyLine_iff {line : Bytes} : IsEmptyLine (line ++ [lf]) ↔ line = [] ∨ line = [cr] := by
  constructor
  · rintro (windows | unix)
    · exact .inr ((List.append_left_inj [lf]).mp (windows : line ++ [lf] = [cr] ++ [lf]))
    · exact .inl ((List.append_left_inj [lf]).mp (unix : line ++ [lf] = [] ++ [lf]))
  · rintro (rfl | rfl)
    · exact .inr rfl
    · exact .inl rfl

theorem IsEmptyLine.front {eol : Bytes} (empty : IsEmptyLine eol) : ∃ line, eol = line ++ [lf] ∧ lf ∉ line := by
  rcases empty with rfl | rfl
  · exact ⟨[cr], rfl, by decide⟩
  · exact ⟨[], rfl, by decide⟩

theorem split_unique {c : UInt8} {front front' back back' : Bytes} (absent : c ∉ front) (absent' : c ∉ front')
    (same : front ++ c :: back = front' ++ c :: back') : front = front' ∧ back = back' := by
  have lengths : some front.length = some front'.length := by
    rw [← show indexByte (front ++ c :: back) c = some front.length from indexByte_append absent, same,
      indexByte_append absent']
  obtain ⟨fronts, backs⟩ := List.append_inj same (Option.some.inj lengths)
  exact ⟨fronts, (List.cons.inj backs).2⟩

section EndsAt

variable {line rest b : Bytes} {lines : List Bytes} {n : Nat}

theorem endsAt_line (noEnd : lf ∉ line) : EndsAt lines n (line ++ lf :: rest) ↔
    (IsEmptyLine (line ++ [lf]) ∧ lines = [] ∧ n = line.length + 1) ∨
      (¬ IsEmptyLine (line ++ [lf]) ∧
        ∃ lines' n', lines = line :: lines' ∧ n = line.length + 1 + n' ∧ EndsAt lines' n' rest) := by
  constructor
  · intro ended
    generalize whole : line ++ lf :: rest = b at ended
    cases ended with
    | @here eol empty behind =>
      obtain ⟨line', rfl, noEnd'⟩ := empty.front
      rw [List.append_assoc] at whole
      obtain ⟨rfl, -⟩ := split_unique noEnd noEnd' whole
      exact .inl ⟨empty, rfl, by rw [List.length_append]; rfl⟩
    | @line line' noEnd' given lines' n' rest' later =>
      obtain ⟨rfl, rfl⟩ := split_unique noEnd noEnd' whole
      exact .inr ⟨given, lines', n', rfl, rfl, later⟩
  · rintro (⟨empty, rfl, rfl⟩ | ⟨given, lines', n', rfl, rfl, later⟩)
    · have ended := EndsAt.here empty rest
      rw [List.append_assoc, List.length_append] at ended
      exact ended
    · exact .line noEnd given later

theorem EndsAt.append (ended : EndsAt lines n b) (tail : Bytes) : EndsAt lines n (b ++ tail) := by
  induction ended with
  | here empty rest =>
    rw [List.append_assoc]
    exact .here empty (rest ++ tail)
  | line noEnd given later ih =>
    rw [List.append_assoc, List.cons_append]
    exact .line noEnd given ih

theorem EndsAt.bounds (ended : EndsAt lines n b) : 0 < n ∧ n ≤ b.length := by
  induction ended with
  | here empty rest => rcases empty with rfl | rfl <;> simp
  | line noEnd given later ih =>
    rw [List.length_append, List.length_cons]
    omega

theorem EndsAt.unique {lines' : List Bytes} {n' : Nat} (ended : EndsAt lines n b) (ended' : EndsAt lines' n' b) :
    lines' = lines ∧ n' = n := by
  induction ended generalizing lines' n' with
  | @here eol empty rest =>
    obtain ⟨line, rfl, noEnd⟩ := empty.front
    rw [List.append_assoc] at ended'
    rcases (endsAt_line noEnd).mp ended' with ⟨-, lines, n⟩ | ⟨given, -⟩
    · exact ⟨lines, by rw [n, List.length_append]; rfl⟩
    · exact absurd empty given
  | line noEnd given later ih =>
    rcases (endsAt_line noEnd).mp ended' with ⟨empty, -⟩ | ⟨-, lines', n', rfl, rfl, later'⟩
    · exact absurd empty given
    · obtain ⟨rfl, rfl⟩ := ih later'
      exact ⟨rfl, rfl⟩

end EndsAt

/-! ### The raw reader -/

theorem isEmptyLine_test (line rest : Bytes) :
    (line.length = 1 ∧ (line ++ lf :: rest).head? = some cr ∨ line.length = 0) ↔ IsEmptyLine (line ++ [lf]) := by
  rw [isEmptyLine_iff]
  match line with
  | [] => simp
  | [c] => simp
  | c :: d :: line => simp

namespace RequestHeader

section Raw

variable {line rest b : Bytes} {lines : List Bytes} {n : Nat}

theorem rawHeadersEnd_line (noEnd : lf ∉ line) (fuel k : Nat) :
    (IsEmptyLine (line ++ [lf]) → rawHeadersEnd (fuel + 1) (line ++ lf :: rest) k = some (k + (line.length + 1))) ∧
      (¬ IsEmptyLine (line ++ [lf]) →
        rawHeadersEnd (fuel + 1) (line ++ lf :: rest) k = rawHeadersEnd fuel rest (k + (line.length + 1))) := by
  have behind : (line ++ lf :: rest).drop (line.length + 1) = rest := by
    rw [List.drop_length_add_append, List.drop_succ_cons, List.drop_zero]
  rw [rawHeadersEnd, indexByte_append noEnd]
  dsimp only
  rw [behind, ← isEmptyLine_test line rest]
  exact ⟨fun empty => if_pos empty, fun given => if_neg given⟩

theorem readRawHeaders_line (noEnd : lf ∉ line) :
    (IsEmptyLine (line ++ [lf]) → readRawHeaders (line ++ lf :: rest) = .ok ([], line.length + 1)) ∧
      (¬ IsEmptyLine (line ++ [lf]) → readRawHeaders (line ++ lf :: rest) =
        match rawHeadersEnd (line ++ lf :: rest).length rest (line.length + 1) with
        | none => .error errNeedMore
        | some n => .ok ((line ++ lf :: rest).take n, n)) := by
  have behind : (line ++ lf :: rest).drop (line.length + 1) = rest := by
    rw [List.drop_length_add_append, List.drop_succ_cons, List.drop_zero]
  rw [readRawHeaders, indexByte_append noEnd]
  dsimp only
  rw [behind, ← isEmptyLine_test line rest]
  exact ⟨fun empty => if_pos empty, fun given => if_neg given⟩

theorem rawHeadersEnd_endsAt (ended : EndsAt lines n b) :
    ∀ (fuel k : Nat), b.length < fuel → rawHeadersEnd fuel b k = some (k + n) := by
  induction ended with
  | here empty rest =>
    intro fuel k enough
    obtain ⟨fuel, rfl⟩ : ∃ less, fuel = less + 1 := ⟨fuel - 1, by omega⟩
    obtain ⟨line, rfl, noEnd⟩ := empty.front
    rw [List.append_assoc, List.singleton_append, (rawHeadersEnd_line noEnd fuel k).1 empty, List.length_append]
    rfl
  | line noEnd given later ih =>
    intro fuel k enough
    obtain ⟨fuel, rfl⟩ : ∃ less, fuel = less + 1 := ⟨fuel - 1, by omega⟩
    rw [List.length_append, List.length_cons] at enough
    rw [(rawHeadersEnd_line noEnd fuel k).2 given, ih fuel _ (by omega), Nat.add_assoc]

theorem rawHeadersEnd_found (fuel : Nat) :
    ∀ {b : Bytes} {k total : Nat}, rawHeadersEnd fuel b k = some total → ∃ lines n, EndsAt lines n b := by
  induction fuel with
  | zero => exact fun found => nomatch found
  | succ fuel ih =>
    intro b k total found
    by_cases there : lf ∈ b
    · obtain ⟨line, rest, rfl, noEnd⟩ := List.eq_append_cons_of_mem there
      by_cases empty : IsEmptyLine (line ++ [lf])
      · exact ⟨[], line.length + 1, (endsAt_line noEnd).mpr (.inl ⟨empty, rfl, rfl⟩)⟩
      · rw [(rawHeadersEnd_line noEnd fuel k).2 empty] at found
        obtain ⟨lines, n, later⟩ := ih found
        exact ⟨line :: lines, _, .line noEnd empty later⟩
    · rw [rawHeadersEnd, indexByte_eq_none.mpr there] at found
      cases found

/-- **The raw reader reads up to the first empty line.** -/
theorem readRawHeaders_endsAt (ended : EndsAt lines n b) :
    readRawHeaders b = .ok (if lines = [] then [] else b.take n, n) := by
  cases ended with
  | here empty rest =>
    obtain ⟨line, rfl, noEnd⟩ := empty.front
    rw [List.append_assoc, List.singleton_append, (readRawHeaders_line noEnd).1 empty, List.length_append]
    rfl
  | @line line noEnd given lines n rest later =>
    have enough : rest.length < (line ++ lf :: rest).length := by
      rw [List.length_append, List.length_cons]
      omega
    rw [(readRawHeaders_line noEnd).2 given, rawHeadersEnd_endsAt later _ _ enough,
      if_neg (List.cons_ne_nil line lines)]

/-- **Without an empty line it needs more.** -/
theorem readRawHeaders_never (never : ∀ lines n, ¬ EndsAt lines n b) : readRawHeaders b = .error errNeedMore := by
  by_cases there : lf ∈ b
  · obtain ⟨line, rest, rfl, noEnd⟩ := List.eq_append_cons_of_mem there
    by_cases empty : IsEmptyLine (line ++ [lf])
    · exact absurd ((endsAt_line noEnd).mpr (.inl ⟨empty, rfl, rfl⟩)) (never [] _)
    · rw [(readRawHeaders_line noEnd).2 empty]
      cases found : rawHeadersEnd (line ++ lf :: rest).length rest (line.length + 1) with
      | none => rfl
      | some total =>
        obtain ⟨lines, n, later⟩ := rawHeadersEnd_found _ found
        exact absurd (.line noEnd empty later) (never _ _)
  · rw [readRawHeaders, indexByte_eq_none.mpr there]

end Raw

end RequestHeader

/-! ### The lines of an entry -/

/-- **An entry is a run of lines of which only the last has a colon**, unless there is an empty line in its name. By
induction on the lines of the name. -/
theorem entry_lines {raw : Bytes} (noEnd : lf ∉ raw) (rest : Bytes) (name : Bytes) (noColon : colon ∉ name) :
    (∃ lines n, EndsAt lines n (name ++ colon :: (raw ++ lf :: rest)) ∧ n ≤ name.length ∧
        ∀ line ∈ lines, colon ∉ line) ∨
      ∃ front last, colon ∈ last ∧ ∀ lines n, EndsAt lines n (name ++ colon :: (raw ++ lf :: rest)) ↔
        ∃ lines' n', lines = front ++ last :: lines' ∧ n = name.length + raw.length + 2 + n' ∧
          EndsAt lines' n' rest := by
  induction size : name.length using Nat.strongRecOn generalizing name with
  | ind k ih =>
    subst size
    by_cases there : lf ∈ name
    · obtain ⟨line, name, rfl, noEnd'⟩ := List.eq_append_cons_of_mem there
      rw [List.mem_append, List.mem_cons, not_or, not_or] at noColon
      have length : (line ++ lf :: name).length = line.length + 1 + name.length := by
        rw [List.length_append, List.length_cons]
        omega
      rw [List.append_assoc, List.cons_append, length]
      by_cases empty : IsEmptyLine (line ++ [lf])
      · refine .inl ⟨[], line.length + 1, (endsAt_line noEnd').mpr (.inl ⟨empty, rfl, rfl⟩), by omega, ?_⟩
        exact fun line there => absurd there List.not_mem_nil
      · rcases ih name.length (by omega) name noColon.2.2 rfl with
          ⟨lines, n, ended, low, none⟩ | ⟨front, last, has, same⟩
        · refine .inl ⟨line :: lines, _, .line noEnd' empty ended, by omega, ?_⟩
          exact List.forall_mem_cons.mpr ⟨noColon.1, none⟩
        · refine .inr ⟨line :: front, last, has, fun lines n => ?_⟩
          rw [endsAt_line noEnd']
          constructor
          · rintro (⟨empty', -⟩ | ⟨-, lines', n', rfl, rfl, later⟩)
            · exact absurd empty' empty
            · obtain ⟨lines'', n'', rfl, rfl, later'⟩ := (same lines' n').mp later
              exact ⟨lines'', n'', rfl, by omega, later'⟩
          · rintro ⟨lines'', n'', rfl, rfl, later⟩
            exact .inr ⟨empty, _, name.length + raw.length + 2 + n'', rfl, by omega,
              (same _ _).mpr ⟨lines'', n'', rfl, rfl, later⟩⟩
    · -- the last line of the name goes on to the end of the entry
      have oneLine : lf ∉ name ++ colon :: raw := by
        rw [List.mem_append, List.mem_cons, not_or, not_or]
        exact ⟨there, by decide, noEnd⟩
      have has : colon ∈ name ++ colon :: raw := List.mem_append_right _ List.mem_cons_self
      have given : ¬ IsEmptyLine (name ++ colon :: raw ++ [lf]) := by
        rw [isEmptyLine_iff]
        rintro (none | onlyCR)
        · rw [none] at has
          cases has
        · rw [onlyCR] at has
          exact absurd has (by decide)
      have whole : name ++ colon :: (raw ++ lf :: rest) = name ++ colon :: raw ++ lf :: rest := by simp
      have length : (name ++ colon :: raw).length + 1 = name.length + raw.length + 2 := by
        rw [List.length_append, List.length_cons]
        omega
      refine .inr ⟨[], name ++ colon :: raw, has, fun lines n => ?_⟩
      rw [whole, endsAt_line oneLine, length]
      constructor
      · rintro (⟨empty, -⟩ | ⟨-, later⟩)
        · exact absurd empty given
        · exact later
      · exact fun later => .inr ⟨given, later⟩

theorem bare_lines {tail : Bytes} (noEnd : lf ∉ tail) {name b : Bytes} {lines : List Bytes} {n : Nat}
    (ended : EndsAt lines n b) (noColon : colon ∉ name) (whole : b = name ++ tail) : ∀ line ∈ lines, colon ∉ line := by
  induction ended generalizing name with
  | here => exact fun line there => absurd there List.not_mem_nil
  | @line line noEnd' given lines n rest later ih =>
    rcases List.append_eq_append_iff.mp whole with ⟨more, rfl, split⟩ | ⟨more, -, split⟩
    · cases more with
      | nil =>
        refine absurd ?_ noEnd
        rw [List.nil_append] at split
        rw [← split]
        exact List.mem_cons_self
      | cons c more =>
        rw [List.mem_append, List.mem_cons, not_or, not_or] at noColon
        exact List.forall_mem_cons.mpr ⟨noColon.1, ih noColon.2.2 (List.cons.inj split).2⟩
    · refine absurd ?_ noEnd
      rw [split]
      exact List.mem_append_right _ List.mem_cons_self

theorem not_endsAt_nil {b : Bytes} (starts : Starts b) (n : Nat) : ¬ EndsAt [] n b := by
  intro ended
  cases ended with
  | here empty rest =>
    rcases empty with rfl | rfl
    · exact Bool.eq_false_iff.mp starts.1 (hasPrefix_iff.mpr (List.prefix_append ..))
    · exact Bool.eq_false_iff.mp starts.2 (hasPrefix_iff.mpr (List.prefix_append ..))

/-! ### The readers -/

/-- **There is a colon in the line ahead of the first empty line**, if there is such a line. -/
def ColonAhead (buf : Bytes) : Prop :=
  ∀ lines n, EndsAt lines n buf → ∀ last, lines.getLast? = some last → colon ∈ last

theorem not_colonAhead {b : Bytes} {lines : List Bytes} {n : Nat} (starts : Starts b) (ended : EndsAt lines n b)
    (none : ∀ line ∈ lines, colon ∉ line) : ¬ ColonAhead b := by
  intro ahead
  cases last : lines.getLast? with
  | none =>
    rw [List.getLast?_eq_none_iff] at last
    subst last
    exact not_endsAt_nil starts n ended
  | some line => exact none line (List.mem_of_getLast? last) (ahead lines n ended line last)

/-- Where the scanner ends. -/
def scanEnd (entries : List Entry) (stop : Stop) : Option Nat := stop.length?.map ((bytesOf entries).length + ·)

/-- The scanner ends where the first empty line does. -/
def EndsTogether (b : Bytes) (scanned : Option Nat) : Prop := ∀ n, (∃ lines, EndsAt lines n b) ↔ scanned = some n

/-- Without a line end behind a colon the scanner never ends. -/
theorem never_ends (name tail : Bytes) (starts : Starts (name ++ tail)) (noColon : colon ∉ name) (noEnd : lf ∉ tail) :
    EndsTogether (name ++ tail) none ↔ ColonAhead (name ++ tail) := by
  constructor
  · intro together lines n ended
    cases (together n).mp ⟨lines, ended⟩
  · intro ahead n
    refine iff_of_false ?_ nofun
    rintro ⟨lines, ended⟩
    exact not_colonAhead starts ended (bare_lines noEnd ended noColon rfl) ahead

/-- An entry in front of which no empty line comes leaves the question to the rest. -/
theorem endsTogether_shift {b rest : Bytes} {front : List Bytes} {last : Bytes} {size : Nat} (has : colon ∈ last)
    (same : ∀ lines n, EndsAt lines n b ↔
      ∃ lines' n', lines = front ++ last :: lines' ∧ n = size + n' ∧ EndsAt lines' n' rest) :
    (∀ scanned, EndsTogether b (scanned.map (size + ·)) ↔ EndsTogether rest scanned) ∧
      (ColonAhead b ↔ ColonAhead rest) := by
  refine ⟨fun scanned => ⟨fun together n => ?_, fun together n => ?_⟩, fun ahead => ?_, fun ahead => ?_⟩
  · have here := together (size + n)
    constructor
    · rintro ⟨lines, ended⟩
      have found := here.mp ⟨_, (same _ _).mpr ⟨lines, n, rfl, rfl, ended⟩⟩
      obtain ⟨m, scanned, equal⟩ := Option.map_eq_some_iff.mp found
      rw [scanned, Nat.add_left_cancel equal]
    · rintro rfl
      obtain ⟨lines, ended⟩ := here.mpr rfl
      obtain ⟨lines', n', rfl, equal, ended'⟩ := (same _ _).mp ended
      exact ⟨lines', Nat.add_left_cancel equal ▸ ended'⟩
  · constructor
    · rintro ⟨lines, ended⟩
      obtain ⟨lines', n', rfl, rfl, ended'⟩ := (same _ _).mp ended
      rw [(together n').mp ⟨lines', ended'⟩, Option.map_some]
    · intro found
      obtain ⟨m, scanned, rfl⟩ := Option.map_eq_some_iff.mp found
      obtain ⟨lines, ended⟩ := (together m).mpr scanned
      exact ⟨_, (same _ _).mpr ⟨lines, m, rfl, rfl, ended⟩⟩
  · intro lines n ended line atEnd
    refine ahead (front ++ last :: lines) (size + n) ((same _ _).mpr ⟨lines, n, rfl, rfl, ended⟩) line ?_
    rw [List.getLast?_append, List.getLast?_cons, atEnd]
    rfl
  · intro lines n ended line atEnd
    obtain ⟨lines', n', rfl, rfl, ended'⟩ := (same _ _).mp ended
    rw [List.getLast?_append, List.getLast?_cons] at atEnd
    cases atEnd' : lines'.getLast? with
    | none =>
      rw [atEnd'] at atEnd
      cases atEnd
      exact has
    | some line' =>
      rw [atEnd'] at atEnd
      cases atEnd
      exact ahead lines' n' ended' line' atEnd'

/-- **The scanner ends at the first empty line exactly if there is a colon ahead of it.** By induction on the
entries: each either runs over the first empty line, or leaves the question to the rest. -/
theorem scanEnd_iff (entries : List Entry) (stop : Stop) :
    EndsTogether (bytesOf entries ++ stop.bytes) (scanEnd entries stop) ↔
      ColonAhead (bytesOf entries ++ stop.bytes) := by
  induction entries with
  | nil =>
    cases stop with
    | ends eol rest empty =>
      have ended := EndsAt.here empty rest
      refine iff_of_true (fun n => ⟨?_, ?_⟩) ?_
      · rintro ⟨lines, ended'⟩
        rw [(ended.unique ended').2, scanEnd, Stop.length?, Option.map_some]
        exact congrArg some (Nat.zero_add _)
      · intro found
        have same : 0 + eol.length = n := Option.some.inj found
        rw [Nat.zero_add] at same
        exact ⟨[], same ▸ ended⟩
      · intro lines n ended' last atEnd
        rw [(ended.unique ended').1] at atEnd
        cases atEnd
    | open_ name raw starts noColon noEnd =>
      have noEnd' : lf ∉ colon :: raw := by
        rw [List.mem_cons, not_or]
        exact ⟨by decide, noEnd⟩
      exact never_ends name (colon :: raw) ((starts_append raw).mpr starts) noColon noEnd'
    | bare b starts noColon =>
      have never := never_ends b [] (by rwa [List.append_nil]) noColon List.not_mem_nil
      rw [List.append_nil] at never
      exact never
  | cons e entries ih =>
    have size : scanEnd (e :: entries) stop = (scanEnd entries stop).map (e.name.length + e.raw.length + 2 + ·) := by
      unfold scanEnd
      rw [Option.map_map, bytesOf_cons, List.length_append, e.bytes_length]
      congr 1
      funext n
      exact Nat.add_assoc ..
    rw [bytesOf_cons, List.append_assoc, e.bytes_append, size]
    rcases entry_lines e.noEnd (bytesOf entries ++ stop.bytes) e.name e.noColon with
      ⟨lines, n, ended, low, none⟩ | ⟨front, last, has, same⟩
    · refine iff_of_false (fun together => ?_) (not_colonAhead ((starts_append _).mpr e.starts) ended none)
      obtain ⟨m, -, equal⟩ := Option.map_eq_some_iff.mp ((together n).mp ⟨lines, ended⟩)
      omega
    · obtain ⟨shift, ahead⟩ := endsTogether_shift has same
      rw [shift, ahead]
      exact ih

namespace RequestHeader

/-- **The two readers agree**: they both succeed, with the same length, or both fail. -/
def Agree (h : RequestHeader) (buf : Bytes) : Prop :=
  match readRawHeaders buf, (h.parseHeaders buf).2.2 with
  | .ok (_, n), .ok m => n = m
  | .error _, .error _ => True
  | _, _ => False

theorem agree_iff_together (h : RequestHeader) (entries : List Entry) (stop : Stop) :
    h.Agree (bytesOf entries ++ stop.bytes) ↔
      EndsTogether (bytesOf entries ++ stop.bytes) (scanEnd entries stop) := by
  unfold Agree scanEnd
  rw [parseHeaders_entries]
  dsimp only
  by_cases ends : ∃ lines n, EndsAt lines n (bytesOf entries ++ stop.bytes)
  · obtain ⟨lines, n, ended⟩ := ends
    rw [readRawHeaders_endsAt ended]
    cases stop.length? with
    | none =>
      refine iff_of_false id fun together => ?_
      cases (together n).mp ⟨lines, ended⟩
    | some m =>
      dsimp only [Option.map_some]
      constructor
      · rintro rfl k
        constructor
        · rintro ⟨lines', ended'⟩
          rw [(ended.unique ended').2]
        · intro same
          cases same
          exact ⟨lines, ended⟩
      · intro together
        exact (Option.some.inj ((together n).mp ⟨lines, ended⟩)).symm
  · rw [readRawHeaders_never fun lines n ended => ends ⟨lines, n, ended⟩]
    cases stop.length? with
    | none =>
      refine iff_of_true trivial fun n => iff_of_false ?_ nofun
      rintro ⟨lines, ended⟩
      exact ends ⟨lines, n, ended⟩
    | some m =>
      refine iff_of_false id fun together => ?_
      obtain ⟨lines, ended⟩ := (together _).mpr rfl
      exact ends ⟨lines, _, ended⟩

/-- **The readers agree exactly where a colon is in the line ahead of the first empty line.** -/
theorem readers_agree_iff (h : RequestHeader) (buf : Bytes) : h.Agree buf ↔ ColonAhead buf := by
  obtain ⟨entries, stop, rfl⟩ := exists_entries buf
  rw [agree_iff_together]
  exact scanEnd_iff entries stop

/-- A line without a colon: the raw reader takes the head as complete, the scanner asks for more. -/
theorem foo_apart : readRawHeaders (ascii "foo\r\n\r\n") = .ok (ascii "foo\r\n\r\n", 7) ∧
    (({} : RequestHeader).parseHeaders (ascii "foo\r\n\r\n")).2.2 = .error errNeedMore ∧
    ¬ ({} : RequestHeader).Agree (ascii "foo\r\n\r\n") :=
  ⟨rfl, rfl, id⟩

end RequestHeader

end Strike.Http
