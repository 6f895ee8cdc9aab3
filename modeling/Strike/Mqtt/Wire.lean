/-
**The wire format of MQTT: single values.**

What the readers of `message.go` do on a queue of bytes, and that they undo the writers.

* `getUint16_reads`, `getString_reads`: they read back what `putUint16` and `putString` wrote, a string
  only while its length has sixteen bits (`getString_textBytes`).
* `header_reads`: `Header.decode` reads a type, four flag bits and a length off the first bytes of any
  packet (`HeadOf`); `headOf_encode`: the encoded header is such a head.
-/

import Strike.Mqtt.Encode

namespace Strike.Mqtt

open Lib ReadProg

/-! ### Single bytes and words -/

section Values

variable (undo : Option Bytes)

@[simp] theorem getUint8_cons (value : UInt8) (rest : Bytes) : getUint8.run (⟨value :: rest, undo⟩ : MarkedQueue) =
      .ok value ⟨rest, undo.map (· ++ [value])⟩ := rfl

theorem getUint16_short {rest : Bytes} (short : rest.length < 2) : getUint16.run (⟨rest, undo⟩ : MarkedQueue) =
      .error (.error errorInvalidRemainingLength) ⟨rest, undo⟩ := by
  have few : (rest.length : Int) < 2 := by omega
  simp only [getUint16, run_bind, run_getLen, MarkedQueue.len_eq, if_pos few, run_raise]

@[simp] theorem getUint16_cons (high low : UInt8) (rest : Bytes) :
    getUint16.run (⟨high :: low :: rest, undo⟩ : MarkedQueue) =
      .ok (bigEndianUint16 high low) ⟨rest, undo.map (· ++ [high, low])⟩ := by
  have enough : ¬ ((high :: low :: rest).length : Int) < 2 := by
    simp only [List.length_cons]
    omega
  simp only [getUint16, run_bind, run_getLen, MarkedQueue.len_eq, if_neg enough, run_getBytes]
  rfl

theorem getString_of_word {high low : UInt8} {rest : Bytes} :
    getString.run (⟨high :: low :: rest, undo⟩ : MarkedQueue) =
      if rest.length < (bigEndianUint16 high low).toNat then
        .error (.error errorInvalidRemainingLength) ⟨rest, undo.map (· ++ [high, low])⟩
      else if rest = [] then .ok [] .drained
      else .ok (rest.take (bigEndianUint16 high low).toNat)
        ((⟨rest, undo.map (· ++ [high, low])⟩ : MarkedQueue).advance
          (bigEndianUint16 high low).toNat) := by
  simp only [getString, run_bind, getUint16_cons, run_getLen, MarkedQueue.len_eq, run_ite, Nat.cast_lt,
    run_raise]
  by_cases short : rest.length < (bigEndianUint16 high low).toNat
  · rw [if_pos short, if_pos short]
  · rw [if_neg short, if_neg short, run_getBytes, MarkedQueue.read_eq]
    by_cases empty : rest = []
    · subst empty
      have zero : (bigEndianUint16 high low).toNat = 0 := by
        simp only [List.length_nil] at short
        omega
      simp [zero]
    · simp only [if_neg empty]
      have full : (rest.take (bigEndianUint16 high low).toNat).length =
          (bigEndianUint16 high low).toNat := by
        rw [List.length_take]
        omega
      simp only [full, ne_eq, not_true_eq_false, if_false, run_pure]

theorem getString_short {rest : Bytes} (short : rest.length < 2) : getString.run (⟨rest, undo⟩ : MarkedQueue) =
      .error (.error errorInvalidRemainingLength) ⟨rest, undo⟩ := by
  simp only [getString, run_bind, getUint16_short undo short]

end Values

theorem getUint8_takes : getUint8.Takes 1 1 := by
  rintro ⟨rest, undo⟩ value q' ran
  cases rest with
  | nil => cases ran
  | cons first rest =>
    cases ran
    exact ⟨1, le_rfl, le_rfl, by simp, rfl⟩

theorem getUint16_takes : getUint16.Takes 2 2 := by
  rintro ⟨rest, undo⟩ value q' ran
  match rest with
  | [] =>
    rw [getUint16_short undo (by simp)] at ran
    cases ran
  | [first] =>
    rw [getUint16_short undo (by simp)] at ran
    cases ran
  | high :: low :: rest =>
    rw [getUint16_cons] at ran
    cases ran
    exact ⟨2, le_rfl, le_rfl, by simp, rfl⟩

theorem getString_takes : getString.Takes 2 65537 := by
  rintro ⟨rest, undo⟩ value q' ran
  match rest with
  | [] =>
    rw [getString_short undo (by simp)] at ran
    cases ran
  | [first] =>
    rw [getString_short undo (by simp)] at ran
    cases ran
  | high :: low :: rest =>
    have bound := (bigEndianUint16 high low).toNat_lt
    rw [getString_of_word] at ran
    split at ran
    · cases ran
    · next enough =>
        have inside : 2 + (bigEndianUint16 high low).toNat ≤ (high :: low :: rest).length := by
          simp only [List.length_cons]
          omega
        refine ⟨2 + (bigEndianUint16 high low).toNat, by omega, by omega, inside, ?_⟩
        split at ran
        · next empty =>
            cases ran
            subst empty
            exact (List.drop_eq_nil_of_le (by simp)).symm
        · cases ran
          show rest.drop _ = (high :: low :: rest).drop _
          rw [Nat.add_comm]
          rfl

/-! ### Reading back what was written -/

theorem bigEndianUint16_toNat (high low : UInt8) :
    (bigEndianUint16 high low).toNat = high.toNat * 256 + low.toNat := by
  have small : low.toNat < 2 ^ 8 := low.toNat_lt
  have fits : high.toNat < 2 ^ 8 := high.toNat_lt
  have shift : (8 : UInt16).toNat % 16 = 8 := rfl
  rw [bigEndianUint16, UInt16.toNat_or, UInt16.toNat_shiftLeft, UInt8.toNat_toUInt16,
    UInt8.toNat_toUInt16, shift, Nat.mod_eq_of_lt (by rw [Nat.shiftLeft_eq]; omega), Nat.or_comm,
    ← Nat.shiftLeft_add_eq_or_of_lt small, Nat.shiftLeft_eq]

theorem bigEndianUint16_putUint16 (i : UInt16) : bigEndianUint16 (i >>> 8).toUInt8 i.toUInt8 = i := by
  have bound := i.toNat_lt
  apply UInt16.toNat_inj.mp
  rw [bigEndianUint16_toNat]
  simp only [UInt16.toNat_toUInt8, UInt16.toNat_shiftRight, UInt16.toNat_ofNat, Nat.reducePow,
    Nat.reduceMod, Nat.shiftRight_eq_div_pow]
  omega

theorem getUint8_reads (value : UInt8) : getUint8.Reads [value] value := fun _ _ => ⟨_, rfl⟩

theorem getUint16_reads (i : UInt16) : getUint16.Reads (putUint16 i) i := by
  intro rest undo
  refine ⟨undo.map (· ++ putUint16 i), ?_⟩
  show getUint16.run (⟨(i >>> 8).toUInt8 :: i.toUInt8 :: rest, undo⟩ : MarkedQueue) = _
  rw [getUint16_cons, bigEndianUint16_putUint16]
  rfl

/-- A string that can be written: one to 65535 bytes. -/
def IsText (s : Bytes) : Prop := s ≠ [] ∧ s.length ≤ 65535

/-- The bytes of a string on the wire. -/
def textBytes (s : Bytes) : Bytes := putUint16 (UInt16.ofNat s.length) ++ s

theorem putString_given {s : Bytes} (given : s ≠ []) : putString s = .ok (textBytes s) := if_neg given

theorem putString_eq {s : Bytes} (text : IsText s) : putString s = .ok (textBytes s) := putString_given text.1

/-- **What comes back of a string of any length**: as many bytes as its length has in sixteen bits. -/
theorem getString_textBytes {s : Bytes} (given : s ≠ []) (rest : Bytes) (undo : Option Bytes) :
    ∃ undo', getString.run (⟨textBytes s ++ rest, undo⟩ : MarkedQueue) =
      .ok (s.take (s.length % 65536)) ⟨s.drop (s.length % 65536) ++ rest, undo'⟩ := by
  have size : (UInt16.ofNat s.length).toNat = s.length % 65536 := UInt16.toNat_ofNat
  have inside : s.length % 65536 ≤ s.length := Nat.mod_le _ _
  have filled : s ++ rest ≠ [] := fun empty => given (List.append_eq_nil_iff.mp empty).1
  show ∃ undo', getString.run (⟨(UInt16.ofNat s.length >>> 8).toUInt8 ::
    (UInt16.ofNat s.length).toUInt8 :: (s ++ rest), undo⟩ : MarkedQueue) = .ok _ ⟨_, undo'⟩
  rw [getString_of_word, bigEndianUint16_putUint16, size,
    if_neg (by rw [List.length_append]; omega), if_neg filled, MarkedQueue.advance,
    List.take_append_of_le_length inside, List.drop_append_of_le_length inside]
  exact ⟨_, rfl⟩

theorem getString_reads {s : Bytes} (text : IsText s) : getString.Reads (textBytes s) s := by
  intro rest undo
  have short := text.2
  obtain ⟨undo', ran⟩ := getString_textBytes text.1 rest undo
  rw [Nat.mod_eq_of_lt (by omega), List.take_length, List.drop_length] at ran
  exact ⟨undo', ran⟩

theorem getBytes_reads (data : Bytes) : (getBytes data.length).Reads data (data, none) := by
  intro rest undo
  rw [run_getBytes, MarkedQueue.read_eq]
  by_cases empty : data ++ rest = []
  · obtain ⟨rfl, rfl⟩ := List.append_eq_nil_iff.mp empty
    exact ⟨none, rfl⟩
  · rw [if_neg empty, MarkedQueue.advance]
    refine ⟨undo.map (· ++ data), ?_⟩
    simp only [List.take_left, List.drop_left]

/-! ### Base-128 lengths -/

/-- **The value of a length**: groups of seven bits, the lowest first, of which all but the last have
the continuation bit. -/
def lengthOf : Bytes → Option Nat
  | [] => none
  | b :: rest =>
    if b &&& 0x80 = 0 then (if rest = [] then some (b &&& 0x7f).toNat else none)
    else (lengthOf rest).map fun v => (b &&& 0x7f).toNat + 128 * v

theorem low_bits_lt : ∀ b : UInt8, (b &&& 0x7f).toNat < 128 := by
  intro b
  rw [UInt8.toNat_and]
  exact Nat.lt_of_le_of_lt Nat.and_le_right (by decide)

theorem or_group {v shift : Nat} (below : v < 2 ^ shift) (b : UInt8) :
    v ||| (b &&& 0x7f).toNat <<< shift = v + 2 ^ shift * (b &&& 0x7f).toNat ∧
      v + 2 ^ shift * (b &&& 0x7f).toNat < 2 ^ (shift + 7) := by
  have bound := low_bits_lt b
  refine ⟨?_, ?_⟩
  · rw [Nat.or_comm, ← Nat.shiftLeft_add_eq_or_of_lt below, Nat.shiftLeft_eq]
    ring
  · calc v + 2 ^ shift * (b &&& 0x7f).toNat < 2 ^ shift + 2 ^ shift * (b &&& 0x7f).toNat := by omega
      _ = 2 ^ shift * ((b &&& 0x7f).toNat + 1) := by ring
      _ ≤ 2 ^ shift * 2 ^ 7 := Nat.mul_le_mul_left _ (by omega)
      _ = 2 ^ (shift + 7) := (Nat.pow_add 2 shift 7).symm

/-- **The loop of `decodeLength` reads a length.** By induction on the bytes: each round adds one
group above those read before. -/
theorem decodeLengthLoop_reads (groups : Bytes) :
    ∀ (rounds shift v : Nat) {value : Nat}, lengthOf groups = some value → groups.length ≤ rounds →
      v < 2 ^ shift →
      (decodeLengthLoop rounds shift v).Reads groups ((v + 2 ^ shift * value : Nat) : Int) := by
  induction groups with
  | nil => exact fun _ _ _ _ found => nomatch found
  | cons b groups ih =>
    intro rounds shift v value found few below rest undo
    obtain ⟨rounds, rfl⟩ : ∃ left, rounds = left + 1 := ⟨rounds - 1, by simp at few; omega⟩
    obtain ⟨joined, above⟩ := or_group below b
    have start : (decodeLengthLoop (rounds + 1) shift v).run
        (⟨b :: groups ++ rest, undo⟩ : MarkedQueue) =
        if b &&& 0x80 = 0 then
          .ok ((v + 2 ^ shift * (b &&& 0x7f).toNat : Nat) : Int)
            ⟨groups ++ rest, undo.map (· ++ [b])⟩
        else (decodeLengthLoop rounds (shift + 7) (v + 2 ^ shift * (b &&& 0x7f).toNat)).run
          (⟨groups ++ rest, undo.map (· ++ [b])⟩ : MarkedQueue) := by
      rw [← joined]
      simp only [decodeLengthLoop, run_bind, run_getByte, List.cons_append,
        MarkedQueue.readByte_cons, run_ite, run_pure]
    rw [start]
    rw [lengthOf] at found
    by_cases last : b &&& 0x80 = 0
    · rw [if_pos last] at found ⊢
      split at found
      · next empty =>
          cases found
          subst empty
          exact ⟨_, rfl⟩
      · cases found
    · rw [if_neg last] at found ⊢
      obtain ⟨value', found', rfl⟩ := Option.map_eq_some_iff.mp found
      obtain ⟨undo', ran⟩ := ih _ _ _ found' (by simpa using few) above rest (undo.map (· ++ [b]))
      refine ⟨undo', ?_⟩
      rw [ran, pow_add]
      congr 2
      ring

theorem decodeLength_reads {groups : Bytes} {value : Nat} (found : lengthOf groups = some value)
    (few : groups.length ≤ 4) : decodeLength.Reads groups value := by
  intro rest undo
  obtain ⟨undo', ran⟩ := decodeLengthLoop_reads groups 4 0 0 found few (by decide) rest undo
  have filled : groups ≠ [] := fun empty => by
    subst empty
    cases found
  have more : ((groups ++ rest).length : Int) > 0 := by
    have := List.length_pos_iff.mpr filled
    rw [List.length_append]
    omega
  refine ⟨undo', ?_⟩
  simp only [decodeLength, run_bind, run_getLen, MarkedQueue.len_eq, if_pos more]
  rw [ran]
  congr 2
  omega

theorem digit_bits : ∀ d < 128, UInt8.ofNat d &&& 0x80 = 0 ∧ (UInt8.ofNat d &&& 0x7f).toNat = d ∧
      UInt8.ofNat (d ||| 0x80) &&& 0x80 ≠ 0 ∧ (UInt8.ofNat (d ||| 0x80) &&& 0x7f).toNat = d := by
  decide

theorem lengthOf_encodeLengthLoop (rounds : Nat) : ∀ {len : Nat}, 0 < len → len < 128 ^ rounds →
      lengthOf (encodeLengthLoop rounds len) = some len ∧ (encodeLengthLoop rounds len).length ≤ rounds := by
  induction rounds with
  | zero =>
    intro len positive bound
    omega
  | succ rounds ih =>
    intro len positive bound
    have digit : len &&& 0x7f = len % 128 := Nat.and_two_pow_sub_one_eq_mod len 7
    have shift : len >>> 7 = len / 128 := Nat.shiftRight_eq_div_pow len 7
    have small : len % 128 < 128 := Nat.mod_lt _ (by decide)
    obtain ⟨low, value, high, value'⟩ := digit_bits (len % 128) small
    rw [encodeLengthLoop, if_pos positive]
    simp only [digit, shift]
    by_cases more : len / 128 > 0
    · rw [pow_succ] at bound
      obtain ⟨found, length⟩ := ih more (by omega)
      rw [if_pos more, lengthOf, if_neg high, found, Option.map_some, value', List.length_cons]
      refine ⟨?_, by omega⟩
      congr 1
      omega
    · have done : encodeLengthLoop rounds (len / 128) = [] := by
        cases rounds with
        | zero => rfl
        | succ rounds => rw [encodeLengthLoop, if_neg more]
      rw [if_neg more, done, lengthOf, if_pos low, if_pos rfl, value, List.length_singleton]
      refine ⟨?_, by omega⟩
      congr 1
      omega

theorem encodeLengthLoop_spare {rounds len : Nat} : ∀ (spare : Nat), len < 128 ^ rounds →
      encodeLengthLoop (rounds + spare) len = encodeLengthLoop rounds len := by
  induction rounds generalizing len with
  | zero =>
    intro spare bound
    have zero : ¬ len > 0 := by omega
    cases spare with
    | zero => rfl
    | succ spare =>
      rw [Nat.zero_add, encodeLengthLoop.eq_def (spare + 1)]
      exact if_neg zero
  | succ rounds ih =>
    intro spare bound
    have shift : len >>> 7 = len / 128 := Nat.shiftRight_eq_div_pow len 7
    rw [pow_succ] at bound
    rw [Nat.add_right_comm, encodeLengthLoop, encodeLengthLoop]
    simp only [shift]
    rw [ih spare (by omega)]

/-- **The encoded length is read back.** -/
theorem lengthOf_encodeLength (len : Nat) (bound : len ≤ 268435455) :
    lengthOf (encodeLength len) = some len ∧ (encodeLength len).length ≤ 4 := by
  by_cases zero : len = 0
  · subst zero
    decide
  · have fits : len < 128 ^ 4 := by omega
    have same : encodeLength len = encodeLengthLoop 4 len := by
      rw [encodeLength, if_neg (by omega), Int.toNat_natCast]
      exact encodeLengthLoop_spare 1 fits
    rw [same]
    exact lengthOf_encodeLengthLoop 4 (by omega) fits

/-! ### Fixed headers -/

/-- **The first bytes of a packet declare a header**: a byte with a valid type and four flag bits, and
a length of at most four bytes. -/
structure HeadOf (head : Bytes) (header : Header) : Prop where
  valid : typeIsValid header.msgType
  split : ∃ byte1 groups value, head = byte1 :: groups ∧ header.msgType = (byte1 &&& 0xf0) >>> 4 ∧
    header.msgFlag = byte1 &&& 0x0f ∧ lengthOf groups = some value ∧ groups.length ≤ 4 ∧
    header.remainingLength = value

theorem header_reads {head : Bytes} {header : Header} (declares : HeadOf head header) :
    Header.decode.Reads head header := by
  obtain ⟨valid, byte1, groups, value, rfl, type, flag, found, few, length⟩ := declares
  obtain ⟨msgType, msgFlag, remainingLength⟩ := header
  simp only at valid type flag length
  subst type flag length
  have rest : (decodeLength >>= fun remainingLength =>
      (pure ⟨(byte1 &&& 0xf0) >>> 4, byte1 &&& 0x0f, remainingLength⟩ : ReadProg Header)).Reads groups
        ⟨(byte1 &&& 0xf0) >>> 4, byte1 &&& 0x0f, value⟩ :=
    (decodeLength_reads found few).map fun remainingLength =>
      (⟨(byte1 &&& 0xf0) >>> 4, byte1 &&& 0x0f, remainingLength⟩ : Header)
  refine (getUint8_reads byte1).bind (?_ : ReadProg.Reads _ groups _)
  simp only [valid, Bool.not_true, Bool.false_eq_true, if_false]
  exact rest

theorem first_byte : ∀ type < 16, ∀ flag < 16,
    ((UInt8.ofNat type <<< 4 ||| UInt8.ofNat flag) &&& 0xf0) >>> 4 = UInt8.ofNat type ∧
      (UInt8.ofNat type <<< 4 ||| UInt8.ofNat flag) &&& 0x0f = UInt8.ofNat flag := by
  decide

/-- **An encoded header declares itself.** -/
theorem headOf_encode {header : Header} (valid : typeIsValid header.msgType)
    (flag : header.msgFlag < 16) (nonneg : 0 ≤ header.remainingLength)
    (bound : header.remainingLength ≤ 268435455) : HeadOf header.encode header := by
  obtain ⟨len, natural⟩ := Int.eq_ofNat_of_zero_le nonneg
  obtain ⟨found, few⟩ := lengthOf_encodeLength len (by omega)
  have small : header.msgType.toNat < 16 := by
    have := valid
    simp only [typeIsValid, Bool.and_eq_true, decide_eq_true_eq] at this
    have below := UInt8.lt_iff_toNat_lt.mp this.2
    have : (15 : UInt8).toNat = 15 := rfl
    omega
  obtain ⟨type, bits⟩ := first_byte header.msgType.toNat small header.msgFlag.toNat
    (UInt8.lt_iff_toNat_lt.mp flag)
  rw [UInt8.ofNat_toNat, UInt8.ofNat_toNat] at type bits
  refine ⟨valid, _, encodeLength len, len, ?_, type.symm, bits.symm, found, few, natural⟩
  rw [Header.encode, natural]

end Strike.Mqtt
