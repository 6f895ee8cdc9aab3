/-
**Percent-encoding** (`utils/bytesconv.go`, `utils/args.go`).

`AppendQuotedArg` and `AppendQuotedPath` differ in the bytes they leave as they are, `decodeArgAppend` and
`DecodeArgAppendNoPlus` in whether they read `+` as a space.

* `decodeAppend_quoted`: decoding undoes quoting, byte for byte.
-/

import Strike.Go.Bytes

namespace Strike

/-! ### Hexadecimal digits -/

/-- `hexCharUpper`. -/
def hexCharUpper (c : UInt8) : UInt8 := if c < 10 then 48 + c else c - 10 + 65

/-- `hex2intTable`; 16 stands for a byte that is no digit. -/
def hex2int (i : UInt8) : UInt8 :=
  if 48 ≤ i ∧ i ≤ 57 then i - 48
  else if 97 ≤ i ∧ i ≤ 102 then i - 97 + 10
  else if 65 ≤ i ∧ i ≤ 70 then i - 65 + 10
  else 16

/-- The digits that are written: figures and capital letters. -/
def isHexCharUpper (d : UInt8) : Bool := 48 ≤ d && d ≤ 57 || 65 ≤ d && d ≤ 70

theorem hexCharUpper_spec {d : UInt8} (small : d < 16) :
    hex2int (hexCharUpper d) = d ∧ isHexCharUpper (hexCharUpper d) = true := by
  have all : ∀ n < 16, hex2int (hexCharUpper (UInt8.ofNat n)) = UInt8.ofNat n ∧
      isHexCharUpper (hexCharUpper (UInt8.ofNat n)) = true := by decide
  have read := all d.toNat (UInt8.lt_iff_toNat_lt.mp small)
  rwa [UInt8.ofNat_toNat] at read

theorem nibbles (c : UInt8) : c >>> 4 < 16 ∧ c &&& 15 < 16 ∧ (c >>> 4) <<< 4 ||| (c &&& 15) = c := by
  revert c
  decide +kernel

theorem hex2int_high (c : UInt8) : hex2int (hexCharUpper (c >>> 4)) = c >>> 4 := (hexCharUpper_spec (nibbles c).1).1

theorem hex2int_low (c : UInt8) : hex2int (hexCharUpper (c &&& 15)) = c &&& 15 := (hexCharUpper_spec (nibbles c).2.1).1

theorem isHexCharUpper_digits (c : UInt8) :
    isHexCharUpper (hexCharUpper (c >>> 4)) = true ∧ isHexCharUpper (hexCharUpper (c &&& 15)) = true :=
  ⟨(hexCharUpper_spec (nibbles c).1).2, (hexCharUpper_spec (nibbles c).2.1).2⟩

/-! ### Quoting -/

/-- One byte of `AppendQuotedArg` or `AppendQuotedPath`; `plain` says which are left as they are. -/
def quoteByte (plain : UInt8 → Bool) (c : UInt8) : Bytes :=
  if plain c then [c] else [37, hexCharUpper (c >>> 4), hexCharUpper (c &&& 15)]

/-- What is appended for a string. -/
def quoted (plain : UInt8 → Bool) (src : Bytes) : Bytes := src.flatMap (quoteByte plain)

/-- A letter or a figure. -/
def isAlphanumeric (c : UInt8) : Bool := 97 ≤ c && c ≤ 122 || 65 ≤ c && c ≤ 90 || 48 ≤ c && c ≤ 57

/-- The bytes `AppendQuotedArg` leaves: letters, figures and `*-._`. -/
def plainArg (c : UInt8) : Bool := isAlphanumeric c || c = 42 || c = 45 || c = 46 || c = 95

/-- The bytes `AppendQuotedPath` leaves: letters, figures and `/.,=:&~-_`. -/
def plainPath (c : UInt8) : Bool :=
  isAlphanumeric c || c = 47 || c = 46 || c = 44 || c = 61 || c = 58 || c = 38 || c = 126 || c = 45 || c = 95

/-- `AppendQuotedArg`. -/
def appendQuotedArg (dst src : Bytes) : Bytes := dst ++ quoted plainArg src

/-- `AppendQuotedPath`. -/
def appendQuotedPath (dst src : Bytes) : Bytes := dst ++ quoted plainPath src

/-! ### Decoding -/

/-- The loop of the two decoders: what they append for the rest of a string. A `%` with less than two bytes
behind it ends the loop, and one in front of other bytes than digits stays. -/
def decodeLoop (plus : Bool) : Bytes → Bytes
  | 37 :: d :: e :: rest =>
    if hex2int d = 16 ∨ hex2int e = 16 then 37 :: decodeLoop plus (d :: e :: rest)
    else (hex2int d <<< 4 ||| hex2int e) :: decodeLoop plus rest
  | 37 :: rest => 37 :: rest
  | c :: rest => (if plus ∧ c = 43 then 32 else c) :: decodeLoop plus rest
  | [] => []

/-- A decoder, with its fast path for a string that has nothing to decode. -/
def decodeAppend (plus : Bool) (dst src : Bytes) : Bytes :=
  if 37 ∉ src ∧ (plus = true → 43 ∉ src) then dst ++ src else dst ++ decodeLoop plus src

/-- `decodeArgAppend`. -/
def decodeArgAppend (dst src : Bytes) : Bytes := decodeAppend true dst src

/-- `DecodeArgAppendNoPlus`. -/
def decodeArgAppendNoPlus (dst src : Bytes) : Bytes := decodeAppend false dst src

section RoundTrip

variable {plain : UInt8 → Bool} {plus : Bool}

theorem quoted_cons (c : UInt8) (src : Bytes) : quoted plain (c :: src) = quoteByte plain c ++ quoted plain src :=
  List.flatMap_cons

theorem decodeLoop_plain {c : UInt8} (other : c ≠ 37) (noPlus : plus = true → c ≠ 43) (rest : Bytes) :
    decodeLoop plus (c :: rest) = c :: decodeLoop plus rest := by
  rw [decodeLoop, if_neg fun both => noPlus both.1 both.2]
  · exact fun d e rest' same => absurd same other
  · exact other

/-- **One quoted byte is read back.** -/
theorem decodeLoop_quoteByte (percent : plain 37 = false) (noPlus : plus = true → plain 43 = false) (c : UInt8)
    (rest : Bytes) : decodeLoop plus (quoteByte plain c ++ rest) = c :: decodeLoop plus rest := by
  unfold quoteByte
  cases kept : plain c with
  | true =>
    rw [if_pos rfl, List.singleton_append]
    refine decodeLoop_plain ?_ ?_ rest
    · rintro rfl
      exact absurd (kept.symm.trans percent) (by decide)
    · rintro isPlus rfl
      exact absurd (kept.symm.trans (noPlus isPlus)) (by decide)
  | false =>
    obtain ⟨high, low, whole⟩ := nibbles c
    have digits : ∀ {d : UInt8}, d < 16 → d ≠ 16 := by
      rintro d small rfl
      exact absurd small (by decide)
    rw [if_neg (by decide), List.cons_append, List.cons_append, List.singleton_append, decodeLoop,
      hex2int_high, hex2int_low, if_neg (not_or.mpr ⟨digits high, digits low⟩), whole]

/-- **Quoting is undone.** By induction on the string. -/
theorem decodeLoop_quoted (percent : plain 37 = false) (noPlus : plus = true → plain 43 = false) (src : Bytes) :
    decodeLoop plus (quoted plain src) = src := by
  induction src with
  | nil => rw [quoted, List.flatMap_nil, decodeLoop]
  | cons c src ih => rw [quoted_cons, decodeLoop_quoteByte percent noPlus, ih]

theorem decodeLoop_of_absent {src : Bytes} (percent : 37 ∉ src) (noPlus : plus = true → 43 ∉ src) :
    decodeLoop plus src = src := by
  induction src with
  | nil => rw [decodeLoop]
  | cons c src ih =>
    rw [List.mem_cons, not_or] at percent
    have noPlus' : plus = true → c ≠ 43 ∧ 43 ∉ src := fun isPlus => by
      have absent := noPlus isPlus
      rw [List.mem_cons, not_or] at absent
      exact ⟨Ne.symm absent.1, absent.2⟩
    rw [decodeLoop_plain (Ne.symm percent.1) fun isPlus => (noPlus' isPlus).1, ih percent.2 fun isPlus =>
      (noPlus' isPlus).2]

theorem decodeAppend_eq (plus : Bool) (dst src : Bytes) : decodeAppend plus dst src = dst ++ decodeLoop plus src := by
  unfold decodeAppend
  split
  · next nothing => rw [decodeLoop_of_absent nothing.1 nothing.2]
  · rfl

/-- **A decoder undoes quoting.** -/
theorem decodeAppend_quoted (percent : plain 37 = false) (noPlus : plus = true → plain 43 = false)
    (dst src : Bytes) : decodeAppend plus dst (quoted plain src) = dst ++ src := by
  rw [decodeAppend_eq, decodeLoop_quoted percent noPlus]

/-- **A byte that is always quoted does not occur**, unless it takes part in the quoting. -/
theorem not_mem_quoted {d : UInt8} (always : plain d = false) (other : d ≠ 37)
    (noDigit : isHexCharUpper d = false) (src : Bytes) : d ∉ quoted plain src := by
  intro there
  obtain ⟨c, -, here⟩ := List.mem_flatMap.mp there
  unfold quoteByte at here
  split at here
  · next kept =>
      rw [List.mem_singleton] at here
      rw [← here, always] at kept
      cases kept
  · simp only [List.mem_cons, List.not_mem_nil, or_false] at here
    obtain ⟨high, low⟩ := isHexCharUpper_digits c
    rcases here with same | same | same
    · exact other same
    · rw [← same, noDigit] at high
      cases high
    · rw [← same, noDigit] at low
      cases low

end RoundTrip

end Strike
