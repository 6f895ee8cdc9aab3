/-
**Searching byte strings** (the functions of Go's `bytes` package the parsers use).

A found index is used to split the string, so each search comes with the split it stands for:
`indexByte_split` and `indexByte_append` say that `indexByte b c` is the length of the part in front
of the first `c`, and `indexOf_split` and `lastIndexOf_append` say the same of strings.
-/

import Strike.Go.Slice

namespace Strike

/-- The bytes of an ASCII text. -/
def ascii (text : String) : Bytes := text.toList.map fun c => c.toNat.toUInt8

/-- `bytes.IndexByte`; `none` stands for `-1`. -/
def indexByte : Bytes → UInt8 → Option Nat
  | [], _ => none
  | b :: rest, c => if b = c then some 0 else (indexByte rest c).map (· + 1)

/-- `bytes.LastIndexByte`. -/
def lastIndexByte : Bytes → UInt8 → Option Nat
  | [], _ => none
  | b :: rest, c =>
    match lastIndexByte rest c with
    | some n => some (n + 1)
    | none => if b = c then some 0 else none

/-- `bytes.HasPrefix`. -/
def hasPrefix (b start : Bytes) : Bool := start.isPrefixOf b

/-- `bytes.Index`. -/
def indexOf (key : Bytes) : Bytes → Option Nat
  | [] => if key = [] then some 0 else none
  | b :: rest => if hasPrefix (b :: rest) key then some 0 else (indexOf key rest).map (· + 1)

/-- `bytes.LastIndex`. -/
def lastIndexOf (key : Bytes) : Bytes → Option Nat
  | [] => if key = [] then some 0 else none
  | b :: rest =>
    match lastIndexOf key rest with
    | some n => some (n + 1)
    | none => if hasPrefix (b :: rest) key then some 0 else none

section Search

variable {b front back key : Bytes} {c : UInt8} {n : Nat}

theorem indexByte_eq_none : indexByte b c = none ↔ c ∉ b := by
  induction b with
  | nil => exact iff_of_true rfl List.not_mem_nil
  | cons d rest ih =>
    unfold indexByte
    by_cases same : d = c
    · rw [if_pos same]
      exact iff_of_false (nomatch ·) (fun absent => absent (same ▸ List.mem_cons_self))
    · rw [if_neg same, Option.map_eq_none_iff, ih, List.mem_cons, not_or]
      exact ⟨fun absent => ⟨Ne.symm same, absent⟩, And.right⟩

/-- The first `c` of a string is where it says. -/
theorem indexByte_append (absent : c ∉ front) : indexByte (front ++ c :: back) c = some front.length := by
  induction front with
  | nil => exact if_pos rfl
  | cons d rest ih =>
    rw [List.mem_cons, not_or] at absent
    rw [List.cons_append, indexByte, if_neg (Ne.symm absent.1), ih absent.2]
    rfl

theorem indexByte_split (found : indexByte b c = some n) :
    ∃ front back, b = front ++ c :: back ∧ c ∉ front ∧ front.length = n := by
  induction b generalizing n with
  | nil => cases found
  | cons d rest ih =>
    unfold indexByte at found
    by_cases same : d = c
    · rw [if_pos same] at found
      cases found
      exact ⟨[], rest, by rw [same, List.nil_append], List.not_mem_nil, rfl⟩
    · rw [if_neg same] at found
      obtain ⟨m, there, rfl⟩ := Option.map_eq_some_iff.mp found
      obtain ⟨front, back, rfl, absent, rfl⟩ := ih there
      refine ⟨d :: front, back, rfl, ?_, rfl⟩
      rw [List.mem_cons, not_or]
      exact ⟨Ne.symm same, absent⟩

theorem lastIndexByte_eq_none (absent : c ∉ b) : lastIndexByte b c = none := by
  induction b with
  | nil => rfl
  | cons d rest ih =>
    rw [List.mem_cons, not_or] at absent
    rw [lastIndexByte, ih absent.2]
    exact if_neg (Ne.symm absent.1)

theorem lastIndexByte_append (absent : c ∉ back) : lastIndexByte (front ++ c :: back) c = some front.length := by
  induction front with
  | nil =>
    rw [List.nil_append, lastIndexByte, lastIndexByte_eq_none absent]
    exact if_pos rfl
  | cons d rest ih =>
    rw [List.cons_append, lastIndexByte, ih]
    rfl

theorem split_last (there : c ∈ b) : ∃ front back, b = front ++ c :: back ∧ c ∉ back := by
  obtain ⟨front, back, turned, absent⟩ := List.eq_append_cons_of_mem (List.mem_reverse.mpr there)
  refine ⟨back.reverse, front.reverse, ?_, by simpa using absent⟩
  rw [← List.reverse_reverse b, turned]
  simp

theorem lastIndexByte_split (found : lastIndexByte b c = some n) :
    ∃ front back, b = front ++ c :: back ∧ c ∉ back ∧ front.length = n := by
  by_cases there : c ∈ b
  · obtain ⟨front, back, rfl, absent⟩ := split_last there
    rw [lastIndexByte_append absent] at found
    exact ⟨front, back, rfl, absent, Option.some.inj found⟩
  · rw [lastIndexByte_eq_none there] at found
    cases found

theorem hasPrefix_iff : hasPrefix b key = true ↔ key <+: b := List.isPrefixOf_iff_prefix

theorem indexOf_le (key front back : Bytes) : ∃ n, indexOf key (front ++ (key ++ back)) = some n ∧ n ≤ front.length := by
  induction front with
  | nil =>
    refine ⟨0, ?_, Nat.le_refl 0⟩
    rw [List.nil_append]
    cases whole : key ++ back with
    | nil =>
      rw [indexOf, if_pos (List.append_eq_nil_iff.mp whole).1]
    | cons c rest =>
      rw [indexOf, if_pos]
      rw [hasPrefix_iff, ← whole]
      exact List.prefix_append key back
  | cons c front ih =>
    obtain ⟨n, found, early⟩ := ih
    rw [List.cons_append, indexOf]
    split
    · exact ⟨0, rfl, Nat.zero_le _⟩
    · rw [found]
      exact ⟨n + 1, rfl, Nat.succ_le_succ early⟩

theorem indexOf_there (found : indexOf key b = some n) :
    ∃ front back, b = front ++ (key ++ back) ∧ front.length = n := by
  induction b generalizing n with
  | nil =>
    unfold indexOf at found
    split at found
    · next empty =>
        cases found
        exact ⟨[], [], by rw [empty]; rfl, rfl⟩
    · cases found
  | cons c rest ih =>
    unfold indexOf at found
    split at found
    · next here =>
        cases found
        obtain ⟨back, whole⟩ := hasPrefix_iff.mp here
        exact ⟨[], back, whole.symm, rfl⟩
    · obtain ⟨m, there, rfl⟩ := Option.map_eq_some_iff.mp found
      obtain ⟨front, back, rfl, rfl⟩ := ih there
      exact ⟨c :: front, back, rfl, rfl⟩

theorem indexOf_eq_none : indexOf key b = none ↔ ¬ key <:+: b := by
  constructor
  · rintro none ⟨front, back, rfl⟩
    obtain ⟨n, found, -⟩ := indexOf_le key front back
    rw [List.append_assoc, found] at none
    cases none
  · intro absent
    cases found : indexOf key b with
    | none => rfl
    | some n =>
      obtain ⟨front, back, rfl, -⟩ := indexOf_there found
      exact absurd ⟨front, back, List.append_assoc ..⟩ absent

/-- **The first occurrence**: it does not occur any earlier, not even in part. -/
theorem indexOf_split (given : key ≠ []) (found : indexOf key b = some n) :
    ∃ front back, b = front ++ (key ++ back) ∧ front.length = n ∧ ¬ key <:+: front ++ key.dropLast := by
  obtain ⟨front, back, rfl, rfl⟩ := indexOf_there found
  refine ⟨front, back, rfl, rfl, ?_⟩
  rintro ⟨front', back', earlier⟩
  have whole : front ++ (key ++ back) = front' ++ (key ++ (back' ++ key.getLast given :: back)) := by
    have parts : front ++ key = front' ++ (key ++ (back' ++ [key.getLast given])) := by
      rw [← List.append_assoc key, ← List.append_assoc front', ← List.append_assoc front', earlier, List.append_assoc,
        List.dropLast_append_getLast]
    rw [← List.append_assoc, parts]
    simp
  obtain ⟨n, first, early⟩ := indexOf_le key front' (back' ++ key.getLast given :: back)
  rw [← whole, found] at first
  cases first
  have lengths := congrArg List.length earlier
  have := List.length_pos_of_ne_nil given
  simp only [List.length_append, List.length_dropLast] at lengths
  omega

theorem indexOf_first (given : key ≠ []) (absent : ¬ key <:+: front ++ key.dropLast) (back : Bytes) :
    indexOf key (front ++ (key ++ back)) = some front.length := by
  obtain ⟨n, found, early⟩ := indexOf_le key front back
  obtain ⟨front', back', whole, rfl⟩ := indexOf_there found
  rw [found, Option.some.injEq]
  by_contra other
  have length := List.length_pos_of_ne_nil given
  have here : front' ++ key <+: front ++ (key ++ back) := ⟨back', by rw [whole, List.append_assoc]⟩
  have later : front ++ key.dropLast <+: front ++ (key ++ back) :=
    (List.prefix_append_right_inj front).mpr ((List.dropLast_prefix key).trans (List.prefix_append key back))
  obtain ⟨rest, within⟩ := List.prefix_of_prefix_length_le here later (by
    rw [List.length_append, List.length_append, List.length_dropLast]
    omega)
  exact absent ⟨front', rest, within⟩

theorem infix_of_last {last : UInt8} (absent : last ∉ back) (there : key ++ [last] <:+: front ++ back) :
    key ++ [last] <:+: front := by
  obtain ⟨before, behind, whole⟩ := there
  rcases List.append_eq_append_iff.mp whole with ⟨more, rfl, -⟩ | ⟨more, split, rfl⟩
  · exact ⟨before, more, rfl⟩
  · rcases List.eq_nil_or_concat more with rfl | ⟨more, c, rfl⟩
    · rw [List.append_nil] at split
      exact ⟨before, [], by rw [List.append_nil, split]⟩
    · rw [List.concat_eq_append] at split absent
      rw [← List.append_assoc, ← List.append_assoc] at split
      obtain rfl : last = c := (List.append_inj' split rfl).2 |> List.singleton_inj.mp
      exact absurd (List.mem_append_left _ (List.mem_append_right _ List.mem_cons_self)) absent

theorem lastIndexOf_there (found : lastIndexOf key b = some n) :
    ∃ front back, b = front ++ (key ++ back) ∧ front.length = n := by
  induction b generalizing n with
  | nil =>
    unfold lastIndexOf at found
    split at found
    · next empty =>
        cases found
        exact ⟨[], [], by rw [empty]; rfl, rfl⟩
    · cases found
  | cons c rest ih =>
    unfold lastIndexOf at found
    split at found
    · next m there =>
        cases found
        obtain ⟨front, back, rfl, rfl⟩ := ih there
        exact ⟨c :: front, back, rfl, rfl⟩
    · split at found
      · next here =>
          cases found
          obtain ⟨back, whole⟩ := hasPrefix_iff.mp here
          exact ⟨[], back, whole.symm, rfl⟩
      · cases found

theorem lastIndexOf_append (given : key ≠ []) (front : Bytes) : lastIndexOf key (front ++ key) = some front.length := by
  induction front with
  | nil =>
    cases key with
    | nil => exact absurd rfl given
    | cons c rest =>
      have none : lastIndexOf (c :: rest) rest = none := by
        cases found : lastIndexOf (c :: rest) rest with
        | none => rfl
        | some n =>
          obtain ⟨front, back, whole, -⟩ := lastIndexOf_there found
          have lengths := congrArg List.length whole
          simp only [List.length_append, List.length_cons] at lengths
          omega
      rw [List.nil_append, lastIndexOf, none]
      exact if_pos (hasPrefix_iff.mpr List.prefix_rfl)
  | cons c front ih =>
    rw [List.cons_append, lastIndexOf, ih]
    rfl

end Search

end Strike
