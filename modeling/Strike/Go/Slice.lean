/-
**Go values: fixed-width integers, errors, panics and byte slices.**

The part of the Go runtime the models below rest on.

* `int64`, `int32`: two's complement wrap-around of an exact integer.
* `GoError`, `Panic`: error values and the values a `panic` carries, with their texts.
* `Slice`: a byte slice that starts at the first byte of its backing array. The length never
  exceeds the capacity, and the bytes past the length are whatever the array held before.
* `splice`: the array after `copy` wrote at an index, with its length and its three parts.
-/

import Mathlib

namespace Strike

/-- A Go `string` or the contents of a `[]byte`. -/
abbrev Bytes := List UInt8

/-! ### Integers -/

/-- The `int` (64 bit) with the bits of an exact integer. -/
def int64 (value : Int) : Int := Int.bmod value (2 ^ 64)

/-- The `int32` with the bits of an exact integer. -/
def int32 (value : Int) : Int := Int.bmod value (2 ^ 32)

theorem int64_of_fits {value : Int} (low : -2 ^ 63 ≤ value) (high : value < 2 ^ 63) : int64 value = value := by
  unfold int64
  rw [Int.bmod_def]
  split <;> omega

theorem int32_of_fits {value : Int} (low : -2 ^ 31 ≤ value) (high : value < 2 ^ 31) : int32 value = value := by
  unfold int32
  rw [Int.bmod_def]
  split <;> omega

theorem int32_le {value : Int} (nonneg : 0 ≤ value) : int32 value ≤ value := by
  unfold int32
  rw [Int.bmod_def]
  split <;> omega

/-! ### Errors and panics -/

/-- An `error` value. -/
inductive GoError where
  | eof
  | unexpectedEOF
  | new (text : String)
  deriving DecidableEq, Repr

/-- What `Error()` prints. -/
def GoError.text : GoError → String
  | .eof => "EOF"
  | .unexpectedEOF => "unexpected EOF"
  | .new text => text

/-- The value of a running panic: `panic(err)`, `panic("text")`, or an error of the runtime. -/
inductive Panic where
  | error (cause : GoError)
  | message (text : String)
  | runtime (text : String)
  deriving DecidableEq, Repr

/-- The type assertion `value.(error)` on a recovered value: runtime errors are errors too. -/
def Panic.asError : Panic → Option GoError
  | .error cause => some cause
  | .message _ => none
  | .runtime text => some (.new text)

/-- Slicing outside the capacity. -/
def sliceBounds : Panic := .runtime "runtime error: slice bounds out of range"

/-- `make` with a length no array can have. -/
def makeSliceLen : Panic := .runtime "runtime error: makeslice: len out of range"

/-- A method call through a nil pointer or interface. -/
def nilDereference : Panic := .runtime "runtime error: invalid memory address or nil pointer dereference"

/-- The largest allocation of a 64-bit target. -/
def maxAlloc : Int := 2 ^ 48

/-! ### Writing into an array -/

/-- The array after `copy` wrote `data` at `index`. -/
def splice (array : Bytes) (index : Nat) (data : Bytes) : Bytes :=
  array.take index ++ data ++ array.drop (index + data.length)

theorem length_splice {array data : Bytes} {index : Nat} (fits : index + data.length ≤ array.length) :
    (splice array index data).length = array.length := by
  simp only [splice, List.length_append, List.length_take, List.length_drop]
  omega

theorem take_splice {array data : Bytes} {index : Nat} (fits : index + data.length ≤ array.length) :
    (splice array index data).take (index + data.length) = array.take index ++ data := by
  have head : (array.take index ++ data).length = index + data.length := by
    simp only [List.length_append, List.length_take]
    omega
  rw [splice, ← head, List.take_left]

/-! ### Slices -/

/-- A `[]byte` whose first element is the first byte of its array; the capacity is the length of
the array. -/
structure Slice where
  array : Bytes
  len : Nat
  len_le : len ≤ array.length
  deriving DecidableEq, Repr

namespace Slice

/-- `cap(s)`. -/
def cap (s : Slice) : Nat := s.array.length

/-- The elements of the slice. -/
def val (s : Slice) : Bytes := s.array.take s.len

/-- A slice that fills its array. -/
def ofBytes (data : Bytes) : Slice := ⟨data, data.length, le_rfl⟩

/-- `s[:0]`. -/
def truncate (s : Slice) : Slice := ⟨s.array, 0, Nat.zero_le _⟩

/-- `s[:n]`, which may reach into the spare capacity but not past it. -/
def upTo (s : Slice) (n : Nat) : Except Panic Slice :=
  if inside : n ≤ s.array.length then .ok ⟨s.array, n, inside⟩ else .error sliceBounds

/-- `copy(s[index:], data)`: what does not fit is dropped. -/
def copyAt (s : Slice) (index : Nat) (data : Bytes) : Except Panic Slice :=
  if inside : index ≤ s.len then
    .ok ⟨splice s.array index (data.take (s.len - index)), s.len, by
      have fits : index + (data.take (s.len - index)).length ≤ s.array.length := by
        have := s.len_le
        rw [List.length_take]
        omega
      rw [length_splice fits]
      exact s.len_le⟩
  else .error sliceBounds

@[simp] theorem length_val (s : Slice) : s.val.length = s.len := by
  rw [val, List.length_take, Nat.min_eq_left s.len_le]

theorem len_le_cap (s : Slice) : s.len ≤ s.cap := s.len_le

@[simp] theorem ofBytes_val (data : Bytes) : (ofBytes data).val = data := List.take_length

theorem upTo_ok (s : Slice) {n : Nat} (inside : n ≤ s.cap) : s.upTo n = .ok ⟨s.array, n, inside⟩ := dif_pos inside

@[simp] theorem mk_cap (array : Bytes) (len : Nat) (inside : len ≤ array.length) :
    (⟨array, len, inside⟩ : Slice).cap = array.length := rfl

/-- **Writing at the end of a slice that was just extended** keeps what it held and adds the
data. -/
theorem copyAt_end (s : Slice) (index : Nat) (data : Bytes) (total : index + data.length = s.len) :
    ∃ t, s.copyAt index data = .ok t ∧ t.cap = s.cap ∧ t.len = s.len ∧
      t.val = s.array.take index ++ data := by
  have inside : index ≤ s.len := by omega
  have whole : data.take (s.len - index) = data := List.take_of_length_le (by omega)
  have fits : index + data.length ≤ s.array.length := total ▸ s.len_le
  refine ⟨_, dif_pos inside, ?_, rfl, ?_⟩
  · simp only [mk_cap, whole]
    rw [length_splice fits]
    rfl
  · simp only [val, whole]
    rw [← total]
    exact take_splice fits

/-- **Writing at the front**: the first bytes are the data. -/
theorem copyAt_zero (s : Slice) (data : Bytes) (fits : data.length ≤ s.len) :
    ∃ t, s.copyAt 0 data = .ok t ∧ t.cap = s.cap ∧ t.len = s.len ∧
      t.array.take data.length = data := by
  have whole : data.take (s.len - 0) = data := List.take_of_length_le (by omega)
  have room : 0 + data.length ≤ s.array.length := by
    have := s.len_le
    omega
  refine ⟨_, dif_pos (Nat.zero_le _), ?_, rfl, ?_⟩
  · simp only [mk_cap, whole]
    rw [length_splice room]
    rfl
  · have front := take_splice room
    simp only [Nat.zero_add, List.take_zero, List.nil_append] at front
    simp only [whole]
    exact front

end Slice

end Strike
