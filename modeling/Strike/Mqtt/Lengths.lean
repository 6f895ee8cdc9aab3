/-
**The remaining length** (`message.go`).

`encodeLength` writes a length in groups of seven bits, and `decodeLength` reads one.

* `decodeLength_inv`: whatever `decodeLength` returns, it has taken one to four groups with that value.
* `encodeLength_least`: no groups with the value are fewer than those written.
* `length_coding`: both are inverse on 28 bits, also on the I/O buffer, and nothing else is accepted.
-/

import Strike.Buffer.Reading
import Strike.Mqtt.Wire

namespace Strike.Mqtt

open Lib ReadProg

theorem lengthOf_lt (groups : Bytes) : ∀ {value : Nat}, lengthOf groups = some value → value < 128 ^ groups.length := by
  induction groups with
  | nil => exact fun found => by cases found
  | cons b groups ih =>
    intro value found
    have low := low_bits_lt b
    have some_ : 0 < 128 ^ groups.length := Nat.pow_pos (by decide)
    rw [lengthOf] at found
    rw [List.length_cons, pow_succ]
    split at found
    · split at found
      · cases found
        omega
      · cases found
    · obtain ⟨rest, found', rfl⟩ := Option.map_eq_some_iff.mp found
      have below := ih found'
      omega

/-- **What the loop of `decodeLength` has read.** By induction on the rounds; the value so far is `v`. -/
theorem decodeLengthLoop_inv (rounds : Nat) : ∀ {shift v : Nat} {q q' : MarkedQueue} {value : Int}, v < 2 ^ shift →
      (decodeLengthLoop rounds shift v).run q = .ok value q' →
      ∃ groups n, lengthOf groups = some n ∧ groups.length ≤ rounds ∧ q.rest = groups ++ q'.rest ∧
        value = ((v + 2 ^ shift * n : Nat) : Int) := by
  induction rounds with
  | zero => exact fun _ ran => by cases ran
  | succ rounds ih =>
    intro shift v q q' value below ran
    obtain ⟨rest, undo⟩ := q
    cases rest with
    | nil => cases ran
    | cons b rest =>
      obtain ⟨joined, above⟩ := or_group below b
      simp only [decodeLengthLoop, run_bind, run_getByte, MarkedQueue.readByte_cons, run_ite, run_pure, joined] at ran
      split at ran
      · next last =>
          cases ran
          exact ⟨[b], _, by rw [lengthOf, if_pos last, if_pos rfl], by simp, rfl, rfl⟩
      · next more =>
          obtain ⟨groups, n, found, few, split, rfl⟩ := ih above ran
          refine ⟨b :: groups, (b &&& 0x7f).toNat + 128 * n, ?_, by simpa using few, ?_, ?_⟩
          · rw [lengthOf, if_neg more, found, Option.map_some]
          · exact congrArg (b :: ·) split
          · rw [pow_add]
            congr 1
            ring

theorem decodeLength_inv {q q' : MarkedQueue} {value : Int} (ran : decodeLength.run q = .ok value q') :
    ∃ groups n, lengthOf groups = some n ∧ groups.length ≤ 4 ∧ q.rest = groups ++ q'.rest ∧ value = (n : Int) := by
  obtain ⟨len, _, asked, ran⟩ := of_run_bind ran
  cases asked
  rw [run_ite] at ran
  split at ran
  · obtain ⟨groups, n, found, few, split, rfl⟩ := decodeLengthLoop_inv 4 (by decide) ran
    exact ⟨groups, n, found, few, split, by simp⟩
  · cases ran

/-- **As few groups as possible.** -/
theorem encodeLength_least {v : Nat} {groups : Bytes} (found : lengthOf groups = some v) (few : groups.length ≤ 4) :
    (encodeLength v).length ≤ groups.length := by
  have below := lengthOf_lt groups found
  by_cases zero : v = 0
  · subst zero
    cases groups with
    | nil => cases found
    | cons b groups => exact Nat.succ_le_succ (Nat.zero_le _)
  · have same : encodeLength v = encodeLengthLoop groups.length v := by
      rw [encodeLength, if_neg (by omega), Int.toNat_natCast, ← encodeLengthLoop_spare (5 - groups.length) below]
      congr 1
      omega
    rw [same]
    exact (lengthOf_encodeLengthLoop groups.length (Nat.pos_of_ne_zero zero) below).2

/-- **The remaining length.** Up to 28 bits, `encodeLength` writes one to four bytes, which `decodeLength`
takes off any tail again, and no fewer would do; and whatever `decodeLength` accepts, it takes at most four
bytes and returns a length of 28 bits. -/
theorem length_coding (v : Nat) (fits : v ≤ 268435455) (tail : Bytes) :
    1 ≤ (encodeLength v).length ∧ (encodeLength v).length ≤ 4 ∧
      (∀ b undo, Marked b ⟨encodeLength v ++ tail, undo⟩ →
        ∃ b' undo', decodeLength.run b = .ok (v : Int) b' ∧ Marked b' ⟨tail, undo'⟩) ∧
      ∀ b bytes undo, Marked b ⟨bytes, undo⟩ → ∀ value b', decodeLength.run b = .ok value b' →
        0 ≤ value ∧ value ≤ 268435455 ∧
          ∃ k undo', k ≤ 4 ∧ k ≤ bytes.length ∧ Marked b' ⟨bytes.drop k, undo'⟩ ∧
            (value = v → (encodeLength v).length ≤ k) := by
  obtain ⟨found, few⟩ := lengthOf_encodeLength v fits
  refine ⟨?_, few, ?_, ?_⟩
  · rw [Nat.one_le_iff_ne_zero, Ne, List.length_eq_zero_iff]
    intro empty
    rw [empty] at found
    cases found
  · intro b undo marked
    obtain ⟨undo', ran⟩ := decodeLength_reads found few tail undo
    obtain ⟨b', ran', marked'⟩ := reading_simulation.ok_left marked ran
    exact ⟨b', undo', ran', marked'⟩
  · intro b bytes undo marked value b' result
    obtain ⟨q', ran, marked'⟩ := reading_simulation.ok_right marked result
    obtain ⟨groups, n, found', few', split, rfl⟩ := decodeLength_inv ran
    have below : n < 128 ^ 4 := (lengthOf_lt groups found').trans_le (Nat.pow_le_pow_right (by decide) few')
    obtain rfl : bytes = groups ++ q'.rest := split
    refine ⟨Int.natCast_nonneg n, by omega, groups.length, q'.undo, few', ?_, ?_, fun same => ?_⟩
    · rw [List.length_append]
      exact Nat.le_add_right _ _
    · rwa [List.drop_left]
    · obtain rfl : n = v := Int.ofNat_inj.mp same
      exact encodeLength_least found' few'

/-- The theorem at a length of two bytes. -/
theorem length_coding_321 : (321 : Nat) ≤ 268435455 ∧ encodeLength 321 = [0xc1, 0x02] ∧
    ∃ b' undo', decodeLength.run (IoBuffer.newBytes [0xc1, 0x02, 7]) = .ok 321 b' ∧ Marked b' ⟨[7], undo'⟩ := by
  have written : encodeLength 321 = [0xc1, 0x02] := by decide
  have marked : Marked (IoBuffer.newBytes [0xc1, 0x02, 7]) ⟨encodeLength 321 ++ [7], none⟩ := by
    rw [written]
    exact ⟨newBytes_holds _, rfl⟩
  exact ⟨by decide, written, (length_coding 321 (by decide) [7]).2.2.1 _ none marked⟩

end Strike.Mqtt
