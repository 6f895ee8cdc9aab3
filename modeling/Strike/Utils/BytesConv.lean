/-
**Numbers and letters in byte strings** (`utils/bytesconv.go`).
-/

import Strike.Go.Bytes

namespace Strike

/-- `maxIntChars` of a 64-bit target. -/
def maxIntChars : Nat := 18

def errEmptyInt : GoError := .new "empty integer"

def errUnexpectedFirstChar : GoError := .new "unexpected first char found. Expecting 0-9"

def errTooLongInt : GoError := .new "too long int"

/-- The loop of `ParseUintBuf` from index `i` on, with the value `v` so far. -/
def parseUintLoop : Bytes → Nat → Int → Int × Nat × Option GoError
  | [], i, v => (v, i, none)
  | c :: rest, i, v =>
    let k := c - 48
    if k > 9 then
      if i = 0 then (-1, i, some errUnexpectedFirstChar) else (v, i, none)
    else if i ≥ maxIntChars then (-1, i, some errTooLongInt)
    else parseUintLoop rest (i + 1) (int64 (10 * v + k.toNat))

/-- `ParseUintBuf`: the value, the number of digits and the error. -/
def parseUintBuf (b : Bytes) : Int × Nat × Option GoError :=
  if b = [] then (-1, 0, some errEmptyInt) else parseUintLoop b 0 0

/-- A string of decimal digits. -/
def IsDecimal (b : Bytes) : Prop := b ≠ [] ∧ ∀ c ∈ b, 48 ≤ c ∧ c ≤ 57

/-- The number a string of digits stands for, behind the digits of `v`. -/
def decimalFrom (v : Nat) (b : Bytes) : Nat := b.foldl (fun v c => 10 * v + (c - 48).toNat) v

theorem digit_iff (c : UInt8) : ¬ c - 48 > 9 ↔ 48 ≤ c ∧ c ≤ 57 := by
  have bound := c.toNat_lt
  rw [gt_iff_lt, UInt8.not_lt]
  simp only [UInt8.le_iff_toNat_le, UInt8.toNat_sub, UInt8.toNat_ofNat]
  omega

/-- **One more digit.** Up to eighteen digits stay far below the sign bit, so that neither the product nor the sum
wraps. -/
theorem addDigit_spec {i v : Nat} {c : UInt8} (below : v < 10 ^ i) (digit : ¬ c - 48 > 9) (room : ¬ i ≥ maxIntChars) :
    10 * v + (c - 48).toNat < 10 ^ (i + 1) ∧ int64 (10 * ↑v) = 10 * ↑v ∧
      int64 (10 * ↑v + ↑(c - 48).toNat) = ↑(10 * v + (c - 48).toNat) := by
  have low : (c - 48).toNat ≤ 9 := by
    rw [gt_iff_lt, UInt8.not_lt, UInt8.le_iff_toNat_le] at digit
    exact digit
  have grown : 10 * v + (c - 48).toNat < 10 ^ (i + 1) := by
    rw [pow_succ]
    omega
  have most : (10 : Nat) ^ (i + 1) ≤ 10 ^ 18 :=
    Nat.pow_le_pow_right (by decide) (by unfold maxIntChars at room; omega)
  refine ⟨grown, int64_of_fits (by omega) (by omega), ?_⟩
  rw [int64_of_fits (by omega) (by omega)]
  push_cast
  rfl

theorem parseUintLoop_digits (b : Bytes) :
    ∀ (i v : Nat), (∀ c ∈ b, 48 ≤ c ∧ c ≤ 57) → i + b.length ≤ maxIntChars → v < 10 ^ i →
      parseUintLoop b i v = (↑(decimalFrom v b), i + b.length, none) := by
  induction b with
  | nil => exact fun i v _ _ _ => rfl
  | cons c rest ih =>
    intro i v digits short below
    rw [List.length_cons] at short
    have low : ¬ c - 48 > 9 := (digit_iff c).mpr (digits c List.mem_cons_self)
    have room : ¬ i ≥ maxIntChars := by omega
    obtain ⟨grown, -, fits⟩ := addDigit_spec below low room
    rw [parseUintLoop]
    simp only [if_neg low, if_neg room, fits]
    rw [ih (i + 1) _ (fun d there => digits d (List.mem_cons_of_mem _ there)) (by omega) grown,
      List.length_cons, Nat.add_assoc, Nat.add_comm 1]
    rfl

/-- **A decimal number of at most `maxIntChars` digits is read as such.** -/
theorem parseUintBuf_digits {b : Bytes} (digits : IsDecimal b) (short : b.length ≤ maxIntChars) :
    parseUintBuf b = (↑(decimalFrom 0 b), b.length, none) := by
  have read := parseUintLoop_digits b 0 0 digits.2 (by omega) (by decide)
  rw [Nat.zero_add] at read
  rw [parseUintBuf, if_neg digits.1]
  exact read

/-- The digits `AppendUint` writes from the end of its array of `room` bytes. -/
def uintDigits : Nat → Nat → Bytes → Bytes
  | 0, _, written => written
  | room + 1, n, written =>
    if n ≥ 10 then uintDigits room (n / 10) ((48 + (n % 10).toUInt8) :: written)
    else (48 + n.toUInt8) :: written

/-- `AppendUint` for a number that is not negative. -/
def appendUint (dst : Bytes) (n : Nat) : Bytes := dst ++ uintDigits 20 n []

theorem digit_spec {n : Nat} (low : n < 10) :
    48 ≤ 48 + n.toUInt8 ∧ 48 + n.toUInt8 ≤ 57 ∧ (48 + n.toUInt8 - 48).toNat = n := by
  interval_cases n <;> decide

theorem singleDigit_spec {n : Nat} (low : n < 10) :
    IsDecimal [48 + n.toUInt8] ∧ decimalFrom 0 [48 + n.toUInt8] = n := by
  obtain ⟨least, most, value⟩ := digit_spec low
  refine ⟨⟨List.cons_ne_nil _ _, List.forall_mem_singleton.mpr ⟨least, most⟩⟩, ?_⟩
  show 10 * 0 + (48 + n.toUInt8 - 48).toNat = n
  rw [value, Nat.mul_zero, Nat.zero_add]

/-- **The digits that are written** stand for the number, and are no more than it needs. -/
theorem uintDigits_spec (room : Nat) : ∀ {n : Nat} (written : Bytes), n < 10 ^ (room + 1) →
    ∃ digits, uintDigits (room + 1) n written = digits ++ written ∧ IsDecimal digits ∧ decimalFrom 0 digits = n ∧
      ∀ k, n < 10 ^ (k + 1) → digits.length ≤ k + 1 := by
  induction room with
  | zero =>
    intro n written low
    obtain ⟨decimal, number⟩ := singleDigit_spec low
    refine ⟨[48 + n.toUInt8], ?_, decimal, number, fun k _ => Nat.succ_le_succ (Nat.zero_le k)⟩
    rw [uintDigits, if_neg (show ¬ n ≥ 10 by omega)]
    rfl
  | succ room ih =>
    intro n written low
    by_cases more : n ≥ 10
    · have fits : n / 10 < 10 ^ (room + 1) := by
        rw [pow_succ] at low
        omega
      obtain ⟨least, most, value⟩ := digit_spec (Nat.mod_lt n (by decide))
      obtain ⟨digits, wrote, ⟨given, decimal⟩, number, short⟩ := ih ((48 + (n % 10).toUInt8) :: written) fits
      refine ⟨digits ++ [48 + (n % 10).toUInt8], ?_, ⟨by simp, ?_⟩, ?_, fun k small => ?_⟩
      · rw [uintDigits, if_pos more, wrote, List.append_assoc, List.singleton_append]
      · intro c there
        rcases List.mem_append.mp there with before | last
        · exact decimal c before
        · rw [List.mem_singleton.mp last]
          exact ⟨least, most⟩
      · unfold decimalFrom at number ⊢
        rw [List.foldl_append, number]
        show 10 * (n / 10) + (48 + (n % 10).toUInt8 - 48).toNat = n
        rw [value]
        omega
      · cases k with
        | zero => omega
        | succ k =>
          have fewer := short k (by rw [pow_succ] at small; omega)
          rw [List.length_append, List.length_singleton]
          omega
    · obtain ⟨decimal, number⟩ := singleDigit_spec (show n < 10 by omega)
      refine ⟨[48 + n.toUInt8], ?_, decimal, number, fun k _ => Nat.succ_le_succ (Nat.zero_le k)⟩
      rw [uintDigits, if_neg more]
      rfl

/-- **What `AppendUint` writes `ParseUintBuf` reads.** -/
theorem appendUint_spec {n : Nat} (low : n < 10 ^ maxIntChars) :
    IsDecimal (appendUint [] n) ∧ decimalFrom 0 (appendUint [] n) = n ∧ (appendUint [] n).length ≤ maxIntChars := by
  obtain ⟨digits, wrote, decimal, number, short⟩ := uintDigits_spec 19 (n := n) []
    (lt_trans low (by decide))
  have whole : appendUint [] n = digits := by
    rw [appendUint, List.nil_append, wrote, List.append_nil]
  rw [whole]
  exact ⟨decimal, number, short 17 low⟩

/-- `ToUpperTable`. -/
def toUpper (c : UInt8) : UInt8 := if 97 ≤ c ∧ c ≤ 122 then c - 32 else c

/-- `ToLowerTable`. -/
def toLower (c : UInt8) : UInt8 := if 65 ≤ c ∧ c ≤ 90 then c + 32 else c

theorem toUpper_toUpper (c : UInt8) : toUpper (toUpper c) = toUpper c := by
  unfold toUpper
  split
  · rename_i lower
    rw [if_neg]
    simp only [UInt8.le_iff_toNat_le, UInt8.toNat_sub, UInt8.toNat_ofNat] at lower ⊢
    omega
  · rfl

theorem toLower_toLower (c : UInt8) : toLower (toLower c) = toLower c := by
  unfold toLower
  split
  · rename_i upper
    rw [if_neg]
    simp only [UInt8.le_iff_toNat_le, UInt8.toNat_add, UInt8.toNat_ofNat] at upper ⊢
    omega
  · rfl

theorem toLower_toUpper (c : UInt8) : toLower (toUpper c) = toLower c := by
  unfold toUpper
  split
  · rename_i lower
    unfold toLower
    have small : ¬ (65 ≤ c ∧ c ≤ 90) := by
      simp only [UInt8.le_iff_toNat_le, UInt8.toNat_ofNat] at lower ⊢
      omega
    have letter : 65 ≤ c - 32 ∧ c - 32 ≤ 90 := by
      simp only [UInt8.le_iff_toNat_le, UInt8.toNat_sub, UInt8.toNat_ofNat] at lower ⊢
      omega
    rw [if_pos letter, if_neg small, UInt8.sub_add_cancel]
  · rfl

theorem eq_of_toLower {c d : UInt8} (other : ¬ (97 ≤ d ∧ d ≤ 122)) (same : toLower c = d) : c = d := by
  unfold toLower at same
  split at same
  · rename_i upper
    refine absurd ?_ other
    rw [← same]
    simp only [UInt8.le_iff_toNat_le, UInt8.toNat_add, UInt8.toNat_ofNat] at upper ⊢
    omega
  · exact same

end Strike
