/-
**The content length** (`parseContentLength` of `header.go`, `ParseUintBuf` and `AppendUint` of
`utils/bytesconv.go`).

* `denoted`: the number that a string of digits denotes.
* `parseContentLength_ok_iff`: what is accepted, and as which number.
* `parseUintSteps`: the loop of `ParseUintBuf` with the exact result of each product and sum;
  `parseUintSteps_exact`: all of them are below the sign bit.
* `contentLength_exact`: both, and that `AppendUint` writes what is parsed.
-/

import Strike.Http.Header
import Mathlib.Data.Nat.Digits.Lemmas

namespace Strike.Http

/-- The number that decimal digits denote, the last one of weight one. -/
def denoted (b : Bytes) : Nat := Nat.ofDigits 10 (b.map fun c => c.toNat - 48).reverse

theorem toNat_digit {c : UInt8} (digit : 48 ≤ c ∧ c ≤ 57) : (c - 48).toNat = c.toNat - 48 := by
  simp only [UInt8.le_iff_toNat_le, UInt8.toNat_sub, UInt8.toNat_ofNat] at digit ⊢
  omega

/-- The accumulator of the loop runs through the digits from the front. -/
theorem decimalFrom_eq_denoted {b : Bytes} (digits : ∀ c ∈ b, 48 ≤ c ∧ c ≤ 57) : decimalFrom 0 b = denoted b := by
  have values : b.map (fun c => (c - 48).toNat) = b.map fun c => c.toNat - 48 :=
    List.map_congr_left fun c there => toNat_digit (digits c there)
  rw [denoted, ← values, Nat.ofDigits_eq_foldr, List.foldr_reverse, List.foldl_map, decimalFrom]
  congr 1
  funext v c
  exact Nat.add_comm _ _

/-! ### What is accepted -/

/-- **A loop that has read everything has read digits only**, and no more of them than fit. -/
theorem parseUintLoop_inv (b : Bytes) : ∀ {i : Nat} {v w : Int}, parseUintLoop b i v = (w, i + b.length, none) →
      (∀ c ∈ b, 48 ≤ c ∧ c ≤ 57) ∧ (b ≠ [] → i + b.length ≤ maxIntChars) := by
  induction b with
  | nil => exact fun _ => ⟨fun c there => absurd there List.not_mem_nil, fun given => absurd rfl given⟩
  | cons c rest ih =>
    intro i v w ran
    rw [parseUintLoop] at ran
    simp only [List.length_cons] at ran ⊢
    split at ran
    · -- The loop stops at a byte that is no digit.
      split at ran
      · cases ran
      · simp only [Prod.mk.injEq] at ran
        omega
    · next digit =>
        split at ran
        · cases ran
        · next room =>
            rw [show i + (rest.length + 1) = i + 1 + rest.length by omega] at ran ⊢
            obtain ⟨digits, short⟩ := ih ran
            refine ⟨List.forall_mem_cons.mpr ⟨(digit_iff c).mp digit, digits⟩, fun _ => ?_⟩
            by_cases last : rest = []
            · subst last
              simp only [List.length_nil]
              omega
            · exact short last

/-- **What `parseContentLength` accepts**: one to `maxIntChars` digits, for the number they denote. -/
theorem parseContentLength_ok_iff (b : Bytes) (v : Int) :
    parseContentLength b = .ok v ↔ IsDecimal b ∧ b.length ≤ maxIntChars ∧ v = denoted b := by
  constructor
  · intro parsed
    have read : parseUintBuf b = (v, b.length, none) := by
      unfold parseContentLength at parsed
      rcases result : parseUintBuf b with ⟨w, n, err⟩
      rw [result] at parsed
      cases err with
      | some err => cases parsed
      | none =>
        simp only [ne_eq, ite_not] at parsed
        split at parsed
        · next whole =>
            cases parsed
            rw [whole]
        · cases parsed
    have given : b ≠ [] := by
      rintro rfl
      cases read
    have ran : parseUintLoop b 0 0 = (v, 0 + b.length, none) := by
      rw [parseUintBuf, if_neg given] at read
      rw [read, Nat.zero_add]
    obtain ⟨digits, short⟩ := parseUintLoop_inv b ran
    have few : b.length ≤ maxIntChars := by
      have := short given
      omega
    refine ⟨⟨given, digits⟩, few, ?_⟩
    rw [parseUintBuf_digits ⟨given, digits⟩ few, decimalFrom_eq_denoted digits] at read
    injection read with value
    exact value.symm
  · rintro ⟨decimal, short, rfl⟩
    rw [parseContentLength, parseUintBuf_digits decimal short, decimalFrom_eq_denoted decimal.2]
    simp only [ne_eq, not_true_eq_false, if_false]

/-! ### The arithmetic of the loop -/

/-- The loop of `ParseUintBuf`, each operation cut to 64 bits on its own, together with the exact results of its
products and sums. -/
def parseUintSteps : Bytes → Nat → Int → List Int × Int × Nat × Option GoError
  | [], i, v => ([], v, i, none)
  | c :: rest, i, v =>
    let k := c - 48
    if k > 9 then
      if i = 0 then ([], -1, i, some errUnexpectedFirstChar) else ([], v, i, none)
    else if i ≥ maxIntChars then ([], -1, i, some errTooLongInt)
    else
      let product := 10 * v
      let sum := int64 product + k.toNat
      let later := parseUintSteps rest (i + 1) (int64 sum)
      (product :: sum :: later.1, later.2)

theorem parseUintSteps_result (b : Bytes) : ∀ (i : Nat) (v : Int), (parseUintSteps b i v).2 = parseUintLoop b i v := by
  induction b with
  | nil => exact fun _ _ => rfl
  | cons c rest ih =>
    intro i v
    have same : int64 (int64 (10 * v) + (c - 48).toNat) = int64 (10 * v + (c - 48).toNat) := Int.bmod_add_bmod
    rw [parseUintSteps, parseUintLoop]
    split
    · split <;> rfl
    · split
      · rfl
      · rw [← same]
        exact ih (i + 1) _

/-- **Nothing wraps.** At index `i` the value is below `10 ^ i`, and `i` is below `maxIntChars` when the next
digit is added. -/
theorem parseUintSteps_exact (b : Bytes) :
    ∀ (i v : Nat), v < 10 ^ i → ∀ x ∈ (parseUintSteps b i v).1, int64 x = x := by
  induction b with
  | nil => exact fun _ _ _ x there => absurd there List.not_mem_nil
  | cons c rest ih =>
    intro i v below x there
    rw [parseUintSteps] at there
    split at there
    · split at there <;> exact absurd there List.not_mem_nil
    · next digit =>
        split at there
        · exact absurd there List.not_mem_nil
        · next room =>
            obtain ⟨grown, product, sum⟩ := addDigit_spec below digit room
            simp only [product, sum, List.mem_cons] at there
            rcases there with rfl | rfl | later
            · exact product
            · rw [sum]
              push_cast
              rfl
            · exact ih (i + 1) (10 * v + (c - 48).toNat) grown x later

/-! ### The result -/

theorem parseContentLength_appendUint {n : Nat} (low : n < 10 ^ maxIntChars) (dst : Bytes) :
    ∃ digits, appendUint dst n = dst ++ digits ∧ parseContentLength digits = .ok n := by
  obtain ⟨decimal, number, short⟩ := appendUint_spec low
  refine ⟨appendUint [] n, rfl, ?_⟩
  rw [parseContentLength_ok_iff, ← decimalFrom_eq_denoted decimal.2, number]
  exact ⟨decimal, short, rfl⟩

/-- **Content lengths are exact.** A string is accepted exactly when it has 1 to 18 bytes, all of them digits, and
then as the number it denotes; no product or sum of the loop wraps, whatever the string; and what `AppendUint`
writes for a number below `10 ^ 18` is parsed as that number. -/
theorem contentLength_exact : (∀ (b : Bytes) (v : Int), parseContentLength b = .ok v ↔
      (1 ≤ b.length ∧ b.length ≤ 18 ∧ ∀ c ∈ b, 48 ≤ c ∧ c ≤ 57) ∧ v = denoted b) ∧
    (∀ (b : Bytes), (parseUintSteps b 0 0).2 = parseUintLoop b 0 0 ∧ ∀ x ∈ (parseUintSteps b 0 0).1, int64 x = x) ∧
    ∀ (n : Nat), n < 10 ^ 18 → ∀ dst, ∃ digits, appendUint dst n = dst ++ digits ∧
      parseContentLength digits = .ok n := by
  refine ⟨fun b v => ?_, fun b => ?_, fun n low dst => parseContentLength_appendUint low dst⟩
  · rw [parseContentLength_ok_iff, IsDecimal, ← List.length_pos_iff, maxIntChars]
    tauto
  · exact ⟨parseUintSteps_result b 0 0, parseUintSteps_exact b 0 0 (by decide)⟩

/-- The theorem at the largest number, and at one digit more. -/
theorem contentLength_exact_largest : appendUint [] 999999999999999999 = List.replicate 18 57 ∧
      parseContentLength (List.replicate 18 57) = .ok 999999999999999999 ∧
      ¬ parseContentLength (List.replicate 19 57) = .ok 9999999999999999999 := by
  have written : appendUint [] 999999999999999999 = List.replicate 18 57 := by decide
  refine ⟨written, ?_, fun parsed => ?_⟩
  · obtain ⟨digits, added, parsed⟩ := contentLength_exact.2.2 999999999999999999 (by decide) []
    rw [written, List.nil_append] at added
    rw [added]
    exact parsed
  · obtain ⟨⟨-, short, -⟩, -⟩ := (contentLength_exact.1 _ _).mp parsed
    exact absurd short (by decide)

end Strike.Http
