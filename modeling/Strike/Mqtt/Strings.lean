/-
**Strings on the I/O buffer** (`message.go`).

`putString` writes the length of a string in two bytes and then all of the string; `getString` reads as many
bytes as the two say.

* `putStringTo_ok`, `putStringTo_error`: the writers on an I/O buffer add what `putString` returns, and panic
  when it does.
* `lossFree_of_short`: strings of at most 65535 bytes are refused or come back, with any tail.
* `short_of_lossFree`: a longer one loses its end, since its length is cut to sixteen bits.
-/

import Strike.Buffer.Reading
import Strike.Mqtt.Wire

namespace Strike.Mqtt

open Lib ReadProg

/-! ### The writers -/

/-- `putUint16` on an I/O buffer. -/
def putUint16To (pool : Pool) (i : UInt16) : BufM Unit := do
  IoBuffer.writeByte pool (i >>> 8).toUInt8
  IoBuffer.writeByte pool i.toUInt8

/-- `putString` on an I/O buffer. The length is written before the string is looked at. -/
def putStringTo (pool : Pool) (s : Bytes) : BufM Unit := do
  putUint16To pool (UInt16.ofNat s.length)
  if s = [] then throw (.error (.new "Nil utf8 string "))
  else
    let _ ← IoBuffer.write pool s
    pure ()

section Writers

variable (pool : Pool) {b : IoBuffer} {q : Bytes}

theorem putUint16To_ok (i : UInt16) (holds : Holds b q) :
    ∃ b', putUint16To pool i b = .ok () b' ∧ Holds b' (q ++ putUint16 i) := by
  obtain ⟨b₁, first, landed⟩ := IoBuffer.writeByte_lands pool (i >>> 8).toUInt8 holds.1
  have holds₁ := holds.lands landed
  obtain ⟨b₂, second, landed⟩ := IoBuffer.writeByte_lands pool i.toUInt8 holds₁.1
  have holds₂ := holds₁.lands landed
  rw [List.append_assoc] at holds₂
  refine ⟨b₂, ?_, holds₂⟩
  simp only [putUint16To, BufM.bind_apply, first, second]

theorem putStringTo_ok {s bytes : Bytes} (written : putString s = .ok bytes) (holds : Holds b q) :
    ∃ b', putStringTo pool s b = .ok () b' ∧ Holds b' (q ++ bytes) := by
  unfold putString at written
  split at written
  · cases written
  · next given =>
      cases written
      obtain ⟨b₁, word, holds₁⟩ := putUint16To_ok pool (UInt16.ofNat s.length) holds
      obtain ⟨b₂, text, landed⟩ := IoBuffer.write_lands pool s holds₁.1
      have holds₂ := holds₁.lands landed
      rw [List.append_assoc] at holds₂
      refine ⟨b₂, ?_, holds₂⟩
      simp only [putStringTo, BufM.bind_apply, word, if_neg given, text, BufM.pure_apply]

theorem putStringTo_error {s : Bytes} {cause : Panic} (refused : putString s = .error cause) (holds : Holds b q) :
    ∃ b', putStringTo pool s b = .error cause b' ∧ Holds b' (q ++ [0, 0]) := by
  unfold putString at refused
  split at refused
  · next empty =>
      cases refused
      subst empty
      obtain ⟨b₁, word, holds₁⟩ := putUint16To_ok pool (UInt16.ofNat ([] : Bytes).length) holds
      refine ⟨b₁, ?_, holds₁⟩
      simp only [putStringTo, BufM.bind_apply, word, if_true, BufM.throw_apply]
  · cases refused

end Writers

/-! ### Writing and reading back -/

/-- `getString` on an I/O buffer that holds a string of any length. -/
theorem getString_cut {s tail : Bytes} (given : s ≠ []) {c : IoBuffer} {undo : Option Bytes}
    (marked : Marked c ⟨textBytes s ++ tail, undo⟩) :
    ∃ c' undo', getString.run c = .ok (s.take (s.length % 65536)) c' ∧
      Marked c' ⟨s.drop (s.length % 65536) ++ tail, undo'⟩ := by
  obtain ⟨undo', ran⟩ := getString_textBytes given tail undo
  obtain ⟨c', ran', marked'⟩ := reading_simulation.ok_left marked ran
  exact ⟨c', undo', ran', marked'⟩

/-- **A string is refused or comes back.** Into whatever buffer it is written, `putString` panics or writes
bytes that `getString` turns into `s`, from whatever buffer holds them and `tail`, leaving `tail`. -/
def LossFree (pool : Pool) (s tail : Bytes) : Prop :=
  ∀ b q, Holds b q →
    (∃ cause b', putStringTo pool s b = .error cause b') ∨
      ∃ b' bytes, putStringTo pool s b = .ok () b' ∧ Holds b' (q ++ bytes) ∧
        ∀ c undo, Marked c ⟨bytes ++ tail, undo⟩ →
          ∃ c' undo', getString.run c = .ok s c' ∧ Marked c' ⟨tail, undo'⟩

theorem lossFree_of_short (pool : Pool) {s : Bytes} (tail : Bytes) (short : s.length ≤ 65535) :
    LossFree pool s tail := by
  intro b q holds
  by_cases empty : s = []
  · obtain ⟨b', refused, -⟩ := putStringTo_error pool (if_pos empty : putString s = .error _) holds
    exact .inl ⟨_, b', refused⟩
  · obtain ⟨b', ran, holds'⟩ := putStringTo_ok pool (putString_given empty) holds
    refine .inr ⟨b', textBytes s, ran, holds', fun c undo marked => ?_⟩
    obtain ⟨c', undo', read, marked'⟩ := getString_cut empty marked
    rw [Nat.mod_eq_of_lt (by omega)] at read marked'
    rw [List.take_length] at read
    rw [List.drop_length] at marked'
    exact ⟨c', undo', read, marked'⟩

/-- The two bytes of the length are the only ones the reader has: beyond sixteen bits they name a front of the
string. -/
theorem short_of_lossFree {pool : Pool} {s tail : Bytes} (free : LossFree pool s tail) : s.length ≤ 65535 := by
  by_contra long
  have given : s ≠ [] := by
    rintro rfl
    exact long (Nat.zero_le _)
  obtain ⟨b₁, ran, holds₁⟩ := putStringTo_ok pool (putString_given given) (newBytes_holds [])
  rcases free _ _ (newBytes_holds []) with ⟨cause, b', refused⟩ | ⟨b', bytes, ran', holds', reads⟩
  · rw [ran] at refused
    cases refused
  · rw [ran] at ran'
    cases ran'
    obtain rfl : textBytes s = bytes := holds₁.2.symm.trans holds'.2
    have marked : Marked (.newBytes (textBytes s ++ tail)) ⟨textBytes s ++ tail, none⟩ := ⟨newBytes_holds _, rfl⟩
    obtain ⟨c', undo', whole, -⟩ := reads _ _ marked
    obtain ⟨c'', undo'', front, -⟩ := getString_cut given marked
    rw [front] at whole
    have same : s.take (s.length % 65536) = s := by
      injection whole
    have size := congrArg List.length same
    rw [List.length_take] at size
    omega

/-- **Strings survive exactly up to 65535 bytes.** -/
theorem lossFree_iff (pool : Pool) (s tail : Bytes) : LossFree pool s tail ↔ s.length ≤ 65535 :=
  ⟨short_of_lossFree, lossFree_of_short pool tail⟩

/-- A string whose length is zero in sixteen bits, written and read: the empty string comes back, and all of the
bytes are left. -/
theorem lost_of_length {s : Bytes} (size : s.length = 65536) : ¬ LossFree .fresh s [] ∧
      (∃ b, putStringTo .fresh s (.newBytes []) = .ok () b ∧ Holds b ([0, 0] ++ s)) ∧
      ∃ c undo, getString.run (IoBuffer.newBytes ([0, 0] ++ s)) = .ok [] c ∧ Marked c ⟨s, undo⟩ := by
  have given : s ≠ [] := by
    rintro rfl
    cases size
  have bytes : textBytes s = [0, 0] ++ s := by
    rw [textBytes, size]
    rfl
  have marked : Marked (.newBytes (textBytes s)) ⟨textBytes s ++ [], none⟩ := by
    rw [List.append_nil]
    exact ⟨newBytes_holds _, rfl⟩
  obtain ⟨c, undo, read, marked'⟩ := getString_cut given marked
  rw [size, Nat.mod_self] at read marked'
  rw [List.drop_zero, List.append_nil] at marked'
  rw [← bytes]
  obtain ⟨b, ran, holds⟩ := putStringTo_ok .fresh (putString_given given) (newBytes_holds [])
  refine ⟨fun free => ?_, ⟨b, ran, holds⟩, c, undo, read, marked'⟩
  have short := short_of_lossFree free
  omega

/-- A text of 65536 letters `a` is lost. -/
theorem longText_lost : ¬ LossFree .fresh (List.replicate 65536 97) [] ∧
      (∃ b, putStringTo .fresh (List.replicate 65536 97) (.newBytes []) = .ok () b ∧
        Holds b ([0, 0] ++ List.replicate 65536 97)) ∧
      ∃ c undo, getString.run (IoBuffer.newBytes ([0, 0] ++ List.replicate 65536 97)) = .ok [] c ∧
        Marked c ⟨List.replicate 65536 97, undo⟩ :=
  lost_of_length List.length_replicate

end Strike.Mqtt
