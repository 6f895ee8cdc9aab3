/-
**Normalising a path** (`normalizePath` of `pkg/protocol/http/v1/uri.go`, `addLeadingSlash` of `uri_unix.go`).

The path is decoded, and then three loops take out `//`, `/./` and `/foo/../`, one after the other, in place.
Each removal joins a front that ends at a slash to a back that begins with one. What begins and ends with a slash
and has none in between cannot span such a joint, so no removal makes a new `//`, `/./` or `/../`
(`free_cut`), and what one loop removed stays removed in the next.

* `normalizePath_normal`: the result is rooted and free of all three, and does not end in `/..`.
* `normalizePath_quoted`: such a path is a fixed point, once quoted.
-/

import Strike.Http.Header
import Strike.Lib.Loop
import Strike.Utils.Quoting

namespace Strike.Http

def slash : UInt8 := 47

def strSlashSlash : Bytes := ascii "//"

def strSlashDotDot : Bytes := ascii "/.."

def strSlashDotSlash : Bytes := ascii "/./"

def strSlashDotDotSlash : Bytes := ascii "/../"

/-! ### The loops -/

/-- One round of the loop that removes duplicate slashes, on the bytes behind it and the window `b`. -/
def slashRound (s : Bytes × Bytes) : Option (Bytes × Bytes) :=
  match indexOf strSlashSlash s.2 with
  | none => none
  | some n => some (s.1 ++ s.2.take n, (s.2.drop n).drop 1)

/-- One round of the loop that removes `/./`. -/
def dotRound (b : Bytes) : Option Bytes :=
  match indexOf strSlashDotSlash b with
  | none => none
  | some n =>
    let nn := n + strSlashDotSlash.length - 1
    some (b.take n ++ b.drop nn)

/-- One round of the loop that removes `/foo/../`. -/
def dotDotRound (b : Bytes) : Option Bytes :=
  match indexOf strSlashDotDotSlash b with
  | none => none
  | some n =>
    let nn := (lastIndexByte (b.take n) slash).getD 0
    let n := n + strSlashDotDotSlash.length - 1
    some (b.take nn ++ b.drop n)

section Rounds

variable {b b' front front' : Bytes}

/-- **A round on duplicate slashes.** -/
theorem slashRound_cases (went : slashRound (front, b) = some (front', b')) :
    ∃ f back, b = f ++ slash :: slash :: back ∧ front' = front ++ f ∧ b' = slash :: back ∧
      ¬ strSlashSlash <:+: f ++ [slash] := by
  unfold slashRound at went
  split at went
  · cases went
  · next n found =>
      obtain ⟨f, back, rfl, rfl, first⟩ := indexOf_split (by decide) found
      cases went
      refine ⟨f, back, rfl, by rw [List.take_left], ?_, first⟩
      rw [List.drop_left]
      rfl

/-- **A round on `/./`.** -/
theorem dotRound_cases (went : dotRound b = some b') :
    ∃ front back, b = front ++ strSlashDotSlash ++ back ∧ b' = front ++ slash :: back := by
  unfold dotRound at went
  split at went
  · cases went
  · next n found =>
      obtain ⟨front, back, rfl, rfl⟩ := indexOf_there found
      cases went
      refine ⟨front, back, (List.append_assoc ..).symm, ?_⟩
      rw [List.take_left, Nat.add_sub_assoc (by decide), List.drop_length_add_append]
      rfl

/-- **A round on `/foo/../`**: the segment in front goes too, unless there is none. -/
theorem dotDotRound_cases (went : dotDotRound b = some b') :
    (∃ front segment back, b = front ++ slash :: segment ++ strSlashDotDotSlash ++ back ∧ b' = front ++ slash :: back) ∨
      ∃ segment back, b = segment ++ strSlashDotDotSlash ++ back ∧ b' = slash :: back := by
  unfold dotDotRound at went
  split at went
  · cases went
  · next n found =>
      obtain ⟨whole, back, rfl, rfl⟩ := indexOf_there found
      cases went
      rw [List.take_left, Nat.add_sub_assoc (by decide), List.drop_length_add_append]
      cases earlier : lastIndexByte whole slash with
      | none => exact .inr ⟨whole, back, (List.append_assoc ..).symm, rfl⟩
      | some nn =>
        obtain ⟨front, segment, rfl, -, rfl⟩ := lastIndexByte_split earlier
        refine .inl ⟨front, segment, back, (List.append_assoc ..).symm, ?_⟩
        rw [Option.getD_some, List.append_assoc, List.take_left]
        rfl

theorem slashRound_eq_none {s : Bytes × Bytes} : slashRound s = none ↔ ¬ strSlashSlash <:+: s.2 := by
  rw [← indexOf_eq_none]
  unfold slashRound
  cases indexOf strSlashSlash s.2 with
  | none => exact iff_of_true rfl rfl
  | some n => exact iff_of_false nofun nofun

theorem dotRound_eq_none : dotRound b = none ↔ ¬ strSlashDotSlash <:+: b := by
  rw [← indexOf_eq_none]
  unfold dotRound
  cases indexOf strSlashDotSlash b with
  | none => exact iff_of_true rfl rfl
  | some n => exact iff_of_false nofun nofun

theorem dotDotRound_eq_none : dotDotRound b = none ↔ ¬ strSlashDotDotSlash <:+: b := by
  rw [← indexOf_eq_none]
  unfold dotDotRound
  cases indexOf strSlashDotDotSlash b with
  | none => exact iff_of_true rfl rfl
  | some n => exact iff_of_false nofun nofun

end Rounds

/-- Removing duplicate slashes. -/
def slashLoop : Lib.Loop (Bytes × Bytes) where
  round := slashRound
  size s := s.2.length
  falls {s s'} went := by
    obtain ⟨f, back, split, -, rest, -⟩ := slashRound_cases went
    rw [split, rest]
    simp
    omega

/-- Removing `/./`. -/
def dotLoop : Lib.Loop Bytes where
  round := dotRound
  size := List.length
  falls {b b'} went := by
    obtain ⟨front, back, rfl, rfl⟩ := dotRound_cases went
    simp [strSlashDotSlash, ascii]

/-- Removing `/foo/../`. -/
def dotDotLoop : Lib.Loop Bytes where
  round := dotDotRound
  size := List.length
  falls {b b'} went := by
    rcases dotDotRound_cases went with ⟨front, segment, back, rfl, rfl⟩ | ⟨segment, back, rfl, rfl⟩ <;>
      simp [strSlashDotDotSlash, ascii] <;> omega

/-- `addLeadingSlash` to an empty string. -/
def addLeadingSlash (src : Bytes) : Bytes := if src.length = 0 ∨ src.head? ≠ some slash then [slash] else []

/-- The end of `normalizePath`: a trailing `/foo/..` is removed. -/
def trimDotDot (b : Bytes) : Bytes :=
  match lastIndexOf strSlashDotDot b with
  | none => b
  | some n =>
    if n + strSlashDotDot.length = b.length then
      match lastIndexByte (b.take n) slash with
      | none => strSlash
      | some nn => b.take (nn + 1)
    else b

/-- `normalizePath`. -/
def normalizePath (src : Bytes) : Bytes :=
  let dst := decodeArgAppendNoPlus (addLeadingSlash src) src
  let s := slashLoop.run ([], dst)
  trimDotDot (dotDotLoop.run (dotLoop.run (s.1 ++ s.2)))

/-! ### What stands between two slashes -/

section Free

variable {b front back segment : Bytes}

/-- **No such segment**: nowhere between two slashes. -/
def Free (segment b : Bytes) : Prop := ¬ (slash :: (segment ++ [slash])) <:+: b

theorem Free.of_part {b' : Bytes} (free : Free segment b) (part : b' <:+: b) : Free segment b' :=
  fun there => free (there.trans part)

/-- **A segment does not span a slash.** -/
theorem free_joint (one : slash ∉ segment) (early : Free segment (front ++ [slash]))
    (late : Free segment (slash :: back)) : Free segment (front ++ slash :: back) := by
  rintro ⟨before, behind, whole⟩
  rw [List.append_assoc, List.append_eq_append_iff] at whole
  rcases whole with ⟨middle, rfl, rest⟩ | ⟨middle, rfl, rest⟩
  · rw [List.append_eq_append_iff] at rest
    rcases rest with ⟨more, rfl, rest⟩ | ⟨more, split, rest⟩
    · -- all of it in front
      exact early ⟨before, more ++ [slash], by simp⟩
    · cases more with
      | nil =>
        rw [List.append_nil] at split
        exact early ⟨before, [slash], by rw [split]⟩
      | cons c more =>
        obtain ⟨rfl, rfl⟩ := List.cons.inj rest
        cases middle with
        | nil => exact late ⟨[], behind, by rw [split]; rfl⟩
        | cons d middle =>
          -- the slash at the joint is inside or at the end of it
          rcases List.eq_nil_or_concat more with rfl | ⟨inner, last, rfl⟩
          · exact early ⟨before, [], by rw [split, List.append_nil, List.append_assoc]⟩
          · have inside : segment ++ [slash] = middle ++ slash :: inner ++ [last] := by
              rw [(List.cons.inj split).2]
              simp
            refine one ?_
            rw [(List.append_inj' inside rfl).1]
            exact List.mem_append_right _ List.mem_cons_self
  · -- all of it behind
    exact late ⟨middle, behind, by rw [rest, List.append_assoc]⟩

/-- **A removal makes no new segment**: it joins a front and a back that were there. -/
theorem free_cut (one : slash ∉ segment) (free : Free segment b) (early : front ++ [slash] <:+: b)
    (late : slash :: back <:+: b) : Free segment (front ++ slash :: back) :=
  free_joint one (free.of_part early) (free.of_part late)

theorem dotRound_free (one : slash ∉ segment) {b b' : Bytes} (free : Free segment b) (went : dotRound b = some b') :
    Free segment b' := by
  obtain ⟨front, back, rfl, rfl⟩ := dotRound_cases went
  refine free_cut one free ?_ ?_
  · exact ⟨[], [46, slash] ++ back, by simp [strSlashDotSlash, ascii, slash]⟩
  · exact ⟨front ++ [slash, 46], [], by simp [strSlashDotSlash, ascii, slash]⟩

theorem dotDotRound_free (one : slash ∉ segment) {b b' : Bytes} (free : Free segment b)
    (went : dotDotRound b = some b') : Free segment b' := by
  rcases dotDotRound_cases went with ⟨front, gone, back, rfl, rfl⟩ | ⟨gone, back, rfl, rfl⟩
  · refine free_cut one free ?_ ?_
    · exact ⟨[], gone ++ strSlashDotDotSlash ++ back, by simp⟩
    · exact ⟨front ++ slash :: gone ++ [slash, 46, 46], [], by simp [strSlashDotDotSlash, ascii, slash]⟩
  · exact free.of_part ⟨gone ++ [slash, 46, 46], [], by simp [strSlashDotDotSlash, ascii, slash]⟩

end Free

/-! ### Rooted paths -/

/-- A path begins with a slash. -/
def Rooted (b : Bytes) : Prop := ∃ rest, b = slash :: rest

theorem rooted_front {front rest more : Bytes} (rooted : Rooted (front ++ slash :: rest)) :
    Rooted (front ++ slash :: more) := by
  cases front with
  | nil => exact ⟨more, rfl⟩
  | cons c front =>
    obtain ⟨rest', split⟩ := rooted
    rw [List.cons_append] at split
    exact ⟨front ++ slash :: more, by rw [List.cons_append, (List.cons.inj split).1]⟩

theorem dotRound_rooted {b b' : Bytes} (rooted : Rooted b) (went : dotRound b = some b') : Rooted b' := by
  obtain ⟨front, back, rfl, rfl⟩ := dotRound_cases went
  rw [List.append_assoc] at rooted
  exact rooted_front (show Rooted (front ++ slash :: ([46, slash] ++ back)) from rooted)

theorem dotDotRound_rooted {b b' : Bytes} (rooted : Rooted b) (went : dotDotRound b = some b') : Rooted b' := by
  rcases dotDotRound_cases went with ⟨front, gone, back, rfl, rfl⟩ | ⟨gone, back, rfl, rfl⟩
  · rw [List.append_assoc, List.append_assoc, List.cons_append] at rooted
    exact rooted_front rooted
  · exact ⟨back, rfl⟩

theorem decode_rooted (src : Bytes) : Rooted (decodeArgAppendNoPlus (addLeadingSlash src) src) := by
  unfold decodeArgAppendNoPlus addLeadingSlash
  rw [decodeAppend_eq]
  split_ifs with lacks
  · exact ⟨_, rfl⟩
  · rw [not_or, not_not] at lacks
    obtain ⟨rest, rfl⟩ := List.head?_eq_some_iff.mp lacks.2
    exact ⟨_, decodeLoop_plain (by decide) (by decide) rest⟩

/-! ### The result -/

/-- What the loop over duplicate slashes keeps: in what is behind it none are left, and its window begins with
the slash it stopped at. -/
structure Deduped (s : Bytes × Bytes) : Prop where
  rooted : Rooted (s.1 ++ s.2)
  behind : s.1 = [] ∨ Rooted s.2 ∧ Free [] (s.1 ++ [slash])

theorem deduped_step {s s' : Bytes × Bytes} (deduped : Deduped s) (went : slashRound s = some s') : Deduped s' := by
  obtain ⟨front, b⟩ := s
  obtain ⟨front', b'⟩ := s'
  obtain ⟨f, back, rfl, rfl, rfl, first⟩ := slashRound_cases went
  refine ⟨?_, .inr ⟨⟨back, rfl⟩, ?_⟩⟩
  · have rooted := deduped.rooted
    dsimp only at rooted ⊢
    rw [← List.append_assoc] at rooted
    exact rooted_front rooted
  · dsimp only
    rcases deduped.behind with rfl | ⟨⟨rest, split⟩, free⟩
    · exact first
    · cases f with
      | nil => rw [List.append_nil]; exact free
      | cons c f =>
        rw [(List.cons.inj split).1, List.append_assoc, List.cons_append]
        refine free_joint List.not_mem_nil free ?_
        rw [(List.cons.inj split).1] at first
        exact first

/-- The first loop leaves no duplicate slashes. -/
theorem slashLoop_free (dst : Bytes) (rooted : Rooted dst) :
    Rooted ((slashLoop.run ([], dst)).1 ++ (slashLoop.run ([], dst)).2) ∧
      Free [] ((slashLoop.run ([], dst)).1 ++ (slashLoop.run ([], dst)).2) := by
  have deduped : Deduped (slashLoop.run ([], dst)) :=
    slashLoop.run_keeps (fun deduped went => deduped_step deduped went) ⟨rooted, .inl rfl⟩
  have done : Free [] (slashLoop.run ([], dst)).2 := slashRound_eq_none.mp (slashLoop.run_done ([], dst))
  refine ⟨deduped.rooted, ?_⟩
  rcases deduped.behind with empty | ⟨⟨rest, split⟩, free⟩
  · rw [empty, List.nil_append]
    exact done
  · rw [split] at done ⊢
    exact free_joint List.not_mem_nil free done

/-- **A normalised path.** -/
structure Normal (path : Bytes) : Prop where
  rooted : Rooted path
  noSlashSlash : ¬ strSlashSlash <:+: path
  noSlashDotSlash : ¬ strSlashDotSlash <:+: path
  noSlashDotDotSlash : ¬ strSlashDotDotSlash <:+: path
  noSlashDotDot : ¬ strSlashDotDot <:+ path

/-- What does not end in `/..` is not trimmed. -/
theorem trimDotDot_of_not_suffix {b : Bytes} (ends : ¬ strSlashDotDot <:+ b) : trimDotDot b = b := by
  unfold trimDotDot
  cases found : lastIndexOf strSlashDotDot b with
  | none => rfl
  | some n =>
    obtain ⟨front, back, rfl, rfl⟩ := lastIndexOf_there found
    refine if_neg fun last => ends ?_
    have none : back = [] := List.eq_nil_of_length_eq_zero (by simp only [List.length_append] at last; omega)
    rw [none, List.append_nil]
    exact List.suffix_append front _

/-- What ends in `/..` is cut behind a slash. -/
theorem trimDotDot_suffix (b : Bytes) : trimDotDot (b ++ strSlashDotDot) = strSlash ∨
    ∃ front, front ++ [slash] <+: b ∧ trimDotDot (b ++ strSlashDotDot) = front ++ [slash] := by
  unfold trimDotDot
  rw [lastIndexOf_append (by decide)]
  dsimp only
  rw [if_pos (List.length_append ..).symm, List.take_left]
  cases earlier : lastIndexByte b slash with
  | none => exact .inl rfl
  | some nn =>
    obtain ⟨front, segment, rfl, -, rfl⟩ := lastIndexByte_split earlier
    refine .inr ⟨front, ⟨segment, by simp⟩, ?_⟩
    dsimp only
    rw [List.append_assoc, List.take_length_add_append]
    rfl

/-- What ends in a slash does not end in `/..`. -/
theorem not_suffix_slash (front : Bytes) : ¬ strSlashDotDot <:+ front ++ [slash] := by
  intro ends
  have last := ends.getLast (by decide)
  rw [List.getLast_append_singleton] at last
  exact absurd last (by decide)

/-- **Trimming the end** keeps what the loops have achieved. -/
theorem trimDotDot_normal {b : Bytes} (rooted : Rooted b) (noEmpty : Free [] b) (noDot : Free [46] b)
    (noDotDot : Free [46, 46] b) : Normal (trimDotDot b) := by
  by_cases ends : strSlashDotDot <:+ b
  · obtain ⟨path, rfl⟩ := ends
    rcases trimDotDot_suffix path with same | ⟨front, part, same⟩
    · rw [same]
      exact ⟨⟨[], rfl⟩, by decide, by decide, by decide, by decide⟩
    · have inside : front ++ [slash] <:+: path ++ strSlashDotDot := (part.trans (List.prefix_append ..)).isInfix
      rw [same]
      refine ⟨?_, noEmpty.of_part inside, noDot.of_part inside, noDotDot.of_part inside, not_suffix_slash front⟩
      obtain ⟨rest, rfl⟩ := part
      rw [List.append_assoc, List.append_assoc, List.singleton_append] at rooted
      exact rooted_front rooted
  · rw [trimDotDot_of_not_suffix ends]
    exact ⟨rooted, noEmpty, noDot, noDotDot, ends⟩

/-- **Normalising makes a path normal.** -/
theorem normalizePath_normal (src : Bytes) : Normal (normalizePath src) := by
  obtain ⟨rooted₁, noSlashSlash₁⟩ := slashLoop_free _ (decode_rooted src)
  unfold normalizePath
  dsimp only
  generalize (slashLoop.run ([], decodeArgAppendNoPlus (addLeadingSlash src) src)).1 ++
    (slashLoop.run ([], decodeArgAppendNoPlus (addLeadingSlash src) src)).2 = b₁ at *
  have rooted₂ : Rooted (dotLoop.run b₁) := dotLoop.run_keeps (fun rooted => dotRound_rooted rooted) rooted₁
  have noSlashSlash₂ : Free [] (dotLoop.run b₁) :=
    dotLoop.run_keeps (fun free => dotRound_free List.not_mem_nil free) noSlashSlash₁
  have noDot₂ : Free [46] (dotLoop.run b₁) := dotRound_eq_none.mp (dotLoop.run_done b₁)
  generalize dotLoop.run b₁ = b₂ at *
  have rooted₃ : Rooted (dotDotLoop.run b₂) := dotDotLoop.run_keeps (fun rooted => dotDotRound_rooted rooted) rooted₂
  have noSlashSlash₃ : Free [] (dotDotLoop.run b₂) :=
    dotDotLoop.run_keeps (fun free => dotDotRound_free List.not_mem_nil free) noSlashSlash₂
  have noDot₃ : Free [46] (dotDotLoop.run b₂) :=
    dotDotLoop.run_keeps (fun free => dotDotRound_free (by decide) free) noDot₂
  have noDotDot₃ : Free [46, 46] (dotDotLoop.run b₂) := dotDotRound_eq_none.mp (dotDotLoop.run_done b₂)
  generalize dotDotLoop.run b₂ = b₃ at *
  exact trimDotDot_normal rooted₃ noSlashSlash₃ noDot₃ noDotDot₃

/-- **A normal path is a fixed point**, once what decoding changes is quoted. -/
theorem normalizePath_quoted {plain : UInt8 → Bool} (percent : plain 37 = false) (slashes : plain slash = true)
    {path : Bytes} (normal : Normal path) : normalizePath (quoted plain path) = path := by
  have start : addLeadingSlash (quoted plain path) = [] := by
    obtain ⟨rest, rfl⟩ := normal.rooted
    rw [quoted_cons, quoteByte, if_pos slashes]
    exact if_neg (by simp)
  have first : slashLoop.run ([], path) = ([], path) :=
    slashLoop.run_of_done (slashRound_eq_none.mpr normal.noSlashSlash)
  have second : dotLoop.run path = path := dotLoop.run_of_done (dotRound_eq_none.mpr normal.noSlashDotSlash)
  have third : dotDotLoop.run path = path :=
    dotDotLoop.run_of_done (dotDotRound_eq_none.mpr normal.noSlashDotDotSlash)
  have decoded : decodeArgAppendNoPlus [] (quoted plain path) = path :=
    decodeAppend_quoted percent (fun plus => absurd plus Bool.false_ne_true) [] path
  unfold normalizePath
  rw [start, decoded]
  dsimp only
  rw [first, List.nil_append, second, third, trimDotDot_of_not_suffix normal.noSlashDotDot]

/-- A path with its percent signs escaped. -/
def escapePercent (path : Bytes) : Bytes := path.flatMap fun c => if c = 37 then ascii "%25" else [c]

theorem escapePercent_eq (path : Bytes) : escapePercent path = quoted (· ≠ 37) path := by
  unfold escapePercent quoted
  congr 1
  funext c
  unfold quoteByte
  by_cases isPercent : c = 37
  · subst isPercent
    rfl
  · rw [if_neg isPercent, if_pos (by simpa using isPercent)]

/-- **Path normalisation is safe**, and safe to repeat. -/
theorem normalizePath_safe (src : Bytes) :
    Normal (normalizePath src) ∧ normalizePath (escapePercent (normalizePath src)) = normalizePath src := by
  have normal := normalizePath_normal src
  refine ⟨normal, ?_⟩
  rw [escapePercent_eq]
  exact normalizePath_quoted (by decide) (by decide) normal

end Strike.Http
