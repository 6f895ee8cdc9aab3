/-
**Who owns which array.**

`Apart`: every array has one owner at most, among the buffers and the slots of the pool of byte slices. What a
change of the memory has to do to keep this is said once for each kind of change:

* `Apart.replace`: a buffer changes, with its own array (`Apart.store`, `Apart.fill`), or gets another array that
  belongs to nobody.

In all of them no other buffer changes (`Frame`).
-/

import Strike.Buffer.Memory
import Strike.Lib.Tokens

namespace Strike.Shared

open Lib ByteBuffer

/-! ### The pool of byte slices -/

/-- How often a pointer is in the slots. -/
def slotted (p : ByteBufferPool) (c : Nat) : Nat := tokens (fun slot : BufferSlot => slot.pool.count c) p.pool

theorem slotted_set {p : ByteBufferPool} {i : Nat} {bufferSlot : BufferSlot} (at_ : p.pool[i]? = some bufferSlot)
    (pool : List Nat) (slices : List Slice) (c : Nat) :
    slotted { pool := p.pool.set i { bufferSlot with pool := pool }, slices := slices } c + bufferSlot.pool.count c =
      slotted p c + pool.count c :=
  tokens_set (fun slot : BufferSlot => slot.pool.count c) at_ { bufferSlot with pool := pool }

/-- **What `take` returns**: a pointer that is new, or one that was in a slot, to a slice of the size. No other
slice changes. -/
structure Took (p : ByteBufferPool) (size b : Nat) (p' : ByteBufferPool) : Prop where
  sound : p'.Sound
  sized : ∃ s, p'.slices[b]? = some s ∧ s.len = size
  others : ∀ c ≠ b, p'.slices[c]? = p.slices[c]?
  source : (b = p.slices.length ∧ p'.slices.length = p.slices.length + 1 ∧ ∀ c, slotted p' c = slotted p c) ∨
    (b < p.slices.length ∧ p'.slices.length = p.slices.length ∧ ∀ c, slotted p' c + mark c b = slotted p c)

namespace Took

variable {p p' : ByteBufferPool} {size b : Nat}

theorem length_le (took : Took p size b p') : p.slices.length ≤ p'.slices.length := by
  rcases took.source with ⟨-, length, -⟩ | ⟨-, length, -⟩ <;> omega

theorem slotted_le (took : Took p size b p') (c : Nat) : slotted p' c ≤ slotted p c := by
  rcases took.source with ⟨-, -, counts⟩ | ⟨-, -, counts⟩
  · exact (counts c).le
  · exact (counts c) ▸ Nat.le_add_right _ _

end Took

theorem took_point {p : ByteBufferPool} (sound : p.Sound) (s : Slice) : Took p s.len (p.point s).1 (p.point s).2 where
  sound := sound.point s
  sized := ⟨s, List.getElem?_concat_length, rfl⟩
  others c other := by
    show (p.slices ++ [s])[c]? = p.slices[c]?
    rcases lt_or_gt_of_ne (show c ≠ p.slices.length from other) with inside | outside
    · exact List.getElem?_append_left inside
    · rw [List.getElem?_eq_none (by simpa using outside), List.getElem?_eq_none outside.le]
  source := .inl ⟨rfl, List.length_append, fun _ => rfl⟩

theorem took_of_take {p p' : ByteBufferPool} (sound : p.Sound) {size b : Nat} {choice : Option Nat}
    (took : p.take size choice = some (.ok (b, p'))) : Took p size b p' := by
  have sound' := sound.take took
  rcases take_cases took with ⟨s, len, pointed⟩ | ⟨i, bufferSlot, rest, s, s', at_, split, there, short, rfl⟩
  · cases pointed
    have len : s.len = size := len
    exact len ▸ took_point sound s
  · obtain ⟨bound, -⟩ := List.getElem?_eq_some_iff.mp there
    refine ⟨sound', ⟨s', List.getElem?_set_self bound, (of_upTo short).2⟩,
      fun c other => List.getElem?_set_ne (Ne.symm other), .inr ⟨bound, List.length_set, fun c => ?_⟩⟩
    have counts := slotted_set at_ rest (p.slices.set b s') c
    have split := split.count_eq c
    rw [List.count_cons] at split
    simp only [mark, beq_iff_eq] at split ⊢
    omega

theorem give_spec {p p' : ByteBufferPool} {buf : Option Nat} (gave : p.give buf = some (.ok p')) :
    p'.slices = p.slices ∧ ∀ c, slotted p' c ≤ slotted p c + mark (some c) buf := by
  rcases give_cases gave with rfl | ⟨i, bufferSlot, b, s, rfl, at_, there, -, rfl⟩
  · exact ⟨rfl, fun c => Nat.le_add_right _ _⟩
  · refine ⟨rfl, fun c => ?_⟩
    have counts := slotted_set at_ (bufferSlot.pool ++ [b]) p.slices c
    rw [List.count_append, List.count_singleton] at counts
    simp only [mark, Option.some.injEq, beq_iff_eq] at counts ⊢
    omega

/-! ### Owners -/

namespace Memory

variable (m : Memory)

/-- The owners of an array. -/
def owners (c : Nat) : Nat := tokens (fun o : Object => mark (some c) o.buf.array) m.buffers + slotted m.bytes c

/-- **Every array has one owner at most**, slices lie in their arrays, and `b` leads to the array of `buf`. -/
structure Apart : Prop where
  sound : m.bytes.Sound
  fits : ∀ (r : Nat) (o : Object), m.buffers[r]? = some o → o.buf.len ≤ (m.array o.buf.array).length
  own : ∀ (r : Nat) (o : Object), m.buffers[r]? = some o → ∀ p, o.b = some p → o.buf.array = some p
  one : ∀ c, m.owners c ≤ 1
  known : ∀ c, m.bytes.slices.length ≤ c → m.owners c = 0

end Memory

/-- **Everything but the buffer `r`** is as before: the other buffers and their arrays, and the log. -/
structure Frame (r : Nat) (m m' : Memory) : Prop where
  objects : ∀ r' ≠ r, m'.buffers[r']? = m.buffers[r']?
  arrays : ∀ r' ≠ r, ∀ o, m.buffers[r']? = some o → m'.array o.buf.array = m.array o.buf.array
  log : m'.log = m.log

namespace Frame

variable {r : Nat} {m m' m'' : Memory}

theorem refl (r : Nat) (m : Memory) : Frame r m m := ⟨fun _ _ => rfl, fun _ _ _ _ => rfl, rfl⟩

theorem trans (first : Frame r m m') (second : Frame r m' m'') : Frame r m m'' where
  objects r' other := (second.objects r' other).trans (first.objects r' other)
  arrays r' other o at_ :=
    (second.arrays r' other o ((first.objects r' other).trans at_)).trans (first.arrays r' other o at_)
  log := second.log.trans first.log

theorem view (frame : Frame r m m') {r' : Nat} (other : r' ≠ r) : m'.view r' = m.view r' := by
  unfold Memory.view
  rw [frame.objects r' other]
  cases at_ : m.buffers[r']? with
  | none => rfl
  | some o => simp only [Option.map_some, Memory.value, Memory.sliceValue, frame.arrays r' other o at_]

end Frame

/-- **The buffer `r` becomes `v`**, and nothing else changes. -/
abbrev Becomes (r : Nat) (m m' : Memory) (v : IoBuffer) : Prop := m'.Apart ∧ Frame r m m' ∧ m'.view r = some v

/-! ### What a change of the memory keeps -/

section Changes

variable {r : Nat} {m m' : Memory} {o o' : Object}

theorem array_length (m : Memory) (c : Nat) :
    (m.array (some c)).length = ((m.bytes.slices[c]?).map Slice.cap).getD 0 := by
  simp only [Memory.array]
  cases m.bytes.slices[c]? <;> rfl

variable {c : Nat}

theorem array_setArray (m : Memory) (there : c < m.bytes.slices.length) (array : Bytes) :
    (m.setArray (some c) array).array (some c) = array := by
  simp only [Memory.setArray, Memory.array, List.getElem?_modify_eq, List.getElem?_eq_getElem there]
  rfl

theorem array_setArray_ne (m : Memory) {c c' : Option Nat} (other : c' ≠ c) (array : Bytes) :
    (m.setArray c array).array c' = m.array c' := by
  cases c with
  | none => rfl
  | some c =>
    cases c' with
    | none => rfl
    | some c' =>
      have apart : c ≠ c' := fun same => other (by rw [same])
      simp only [Memory.setArray, Memory.array, List.getElem?_modify_ne _ _ apart]

theorem owners_of_object (at_ : m.buffers[r]? = some o) (mine : o.buf.array = some c) : 1 ≤ m.owners c := by
  have carries := weight_le_tokens (fun o : Object => mark (some c) o.buf.array) (List.mem_of_getElem? at_)
  simp only [mine, mark_self] at carries
  unfold Memory.owners
  omega

theorem Memory.Apart.not_slotted (apart : m.Apart) (at_ : m.buffers[r]? = some o)
    (mine : o.buf.array = some c) : slotted m.bytes c = 0 := by
  have carries := weight_le_tokens (fun o : Object => mark (some c) o.buf.array) (List.mem_of_getElem? at_)
  have one := apart.one c
  simp only [mine, mark_self] at carries
  unfold Memory.owners at one
  omega

theorem Memory.Apart.ne_of_ne (apart : m.Apart) {r' : Nat} (at_ : m.buffers[r]? = some o)
    (at' : m.buffers[r']? = some o') (other : r' ≠ r) (theirs : o'.buf.array = some c) :
    o.buf.array ≠ some c := by
  intro mine
  have one : tokens (fun o : Object => mark (some c) o.buf.array) m.buffers ≤ 1 := by
    have := apart.one c
    unfold Memory.owners at this
    omega
  exact other (eq_of_tokens_le_one one at' at_ (mark_pos.mpr theirs) (mark_pos.mpr mine))

theorem Memory.Apart.inside (apart : m.Apart) (at_ : m.buffers[r]? = some o) (mine : o.buf.array = some c) :
    c < m.bytes.slices.length := by
  by_contra outside
  have none_ := apart.known c (not_lt.mp outside)
  have one := owners_of_object at_ mine
  omega

theorem Memory.Apart.array_own (apart : m.Apart) (at_ : m.buffers[r]? = some o) {a : Bytes}
    (length : a.length = (m.array o.buf.array).length) : (m.setArray o.buf.array a).array o.buf.array = a := by
  cases mine : o.buf.array with
  | none =>
    rw [mine] at length
    exact (List.length_eq_zero_iff.mp length).symm
  | some c => exact array_setArray m (apart.inside at_ mine) a

theorem setObject_self (at_ : m.buffers[r]? = some o) : m.setObject r o = m := by
  obtain ⟨bound, rfl⟩ := List.getElem?_eq_some_iff.mp at_
  simp only [Memory.setObject, List.set_getElem_self]

/-- **A buffer and its array change**, or it gives the array away and gets another, which belongs to nobody. -/
theorem Memory.Apart.replace {v : IoBuffer} (apart : m.Apart) (at_ : m.buffers[r]? = some o)
    (buffers : m'.buffers = m.buffers.set r o') (log : m'.log = m.log) (sound : m'.bytes.Sound)
    (length : m.bytes.slices.length ≤ m'.bytes.slices.length)
    (counts : ∀ c, slotted m'.bytes c + mark (some c) o'.buf.array ≤ slotted m.bytes c + mark (some c) o.buf.array ∨
      (c = m.bytes.slices.length ∧ m.bytes.slices.length < m'.bytes.slices.length ∧
        slotted m'.bytes c + mark (some c) o'.buf.array ≤ slotted m.bytes c + mark (some c) o.buf.array + 1))
    (elsewhere : ∀ c, o.buf.array ≠ some c → 1 ≤ m.owners c → slotted m.bytes c = 0 → m'.array (some c) = m.array (some c))
    (fits : o'.buf.len ≤ (m'.array o'.buf.array).length) (own : ∀ p, o'.b = some p → o'.buf.array = some p)
    (value : m'.value o' = v) : Becomes r m m' v := by
  obtain ⟨bound, -⟩ := List.getElem?_eq_some_iff.mp at_
  -- what another buffer owns is in no slot, so it has not changed
  have kept : ∀ (r' : Nat) (o'' : Object), r' ≠ r → m.buffers[r']? = some o'' →
      m'.array o''.buf.array = m.array o''.buf.array := by
    intro r' o'' other at'
    cases theirs : o''.buf.array with
    | none => rfl
    | some c =>
      exact elsewhere c (apart.ne_of_ne at_ at' other theirs) (owners_of_object at' theirs) (apart.not_slotted at' theirs)
  have owners : (∀ c, m'.owners c ≤ 1) ∧ ∀ c, m'.bytes.slices.length ≤ c → m'.owners c = 0 := by
    refine one_token apart.one apart.known length fun c => ?_
    have moved := tokens_set (fun o : Object => mark (some c) o.buf.array) at_ o'
    simp only [Memory.owners, buffers]
    rcases counts c with less | ⟨same, more, less⟩
    · exact .inl (by omega)
    · exact .inr ⟨same, more, by omega⟩
  refine ⟨⟨sound, fun r' o'' found => ?_, fun r' o'' found p mine => ?_, owners.1, owners.2⟩,
    ⟨fun r' other => ?_, fun r' other o'' => kept r' o'' other, log⟩, ?_⟩
  · rw [buffers] at found
    rcases getElem?_set_cases found with ⟨rfl, rfl⟩ | ⟨other, found⟩
    · exact fits
    · rw [kept r' o'' other found]
      exact apart.fits r' o'' found
  · rw [buffers] at found
    rcases getElem?_set_cases found with ⟨rfl, rfl⟩ | ⟨-, found⟩
    · exact own p mine
    · exact apart.own r' o'' found p mine
  · rw [buffers, List.getElem?_set_ne (Ne.symm other)]
  · rw [Memory.view, buffers, List.getElem?_set_self bound, Option.map_some, value]

theorem sound_setArray (sound : m.bytes.Sound) {a : Bytes} (length : a.length = (m.array (some c)).length) :
    (m.setArray (some c) a).bytes.Sound := by
  refine sound.withSlices fun slot _ b _ s at_ => ?_
  by_cases same : c = b
  · subst same
    refine ⟨⟨a, min s.len a.length, Nat.min_le_right _ _⟩, by rw [List.getElem?_modify_eq, at_]; rfl, ?_⟩
    rw [array_length, at_] at length
    exact length
  · exact ⟨s, by rw [List.getElem?_modify_ne _ _ same, at_], rfl⟩

/-- **A buffer writes its fields**, and stays in its array. -/
theorem Memory.Apart.store (apart : m.Apart) (at_ : m.buffers[r]? = some o) (array : o'.buf.array = o.buf.array)
    (b : o'.b = o.b) (fits : o'.buf.len ≤ (m.array o.buf.array).length) : Becomes r m (m.setObject r o') (m.value o') :=
  apart.replace at_ rfl rfl apart.sound le_rfl (fun _ => .inl (array ▸ le_rfl)) (fun _ _ _ _ => rfl)
    (array ▸ fits) (fun p mine => array ▸ apart.own r o at_ p (b ▸ mine)) rfl

/-- **New bytes in the array of one buffer.** -/
theorem Memory.Apart.fill (apart : m.Apart) (at_ : m.buffers[r]? = some o) (o' : Object) {a : Bytes}
    (length : a.length = (m.array o.buf.array).length) (array : o'.buf.array = o.buf.array) (b : o'.b = o.b)
    (fits : o'.buf.len ≤ a.length) :
    Becomes r m ((m.setArray o.buf.array a).setObject r o')
      ⟨⟨a, o'.buf.len, fits⟩, o'.off, o'.offMark, o'.count, o'.eof, o'.b.isSome⟩ := by
  have own := apart.array_own at_ length
  refine apart.replace at_ rfl rfl ?_ ?_ (fun _ => .inl (array ▸ le_rfl)) (fun c other _ _ => ?_) ?_
    (fun p mine => array ▸ apart.own r o at_ p (b ▸ mine)) ?_
  · cases mine : o.buf.array with
    | none => exact apart.sound
    | some c => exact sound_setArray apart.sound (mine ▸ length)
  · cases mine : o.buf.array with
    | none => exact le_rfl
    | some c => exact (List.length_modify ..).ge
  · exact array_setArray_ne m (Ne.symm other) a
  · rw [array]
    exact fits.trans (congrArg List.length own).ge
  · show (m.setArray o.buf.array a).value o' = _
    simp only [Memory.value, Memory.sliceValue, array, own, Nat.min_eq_left fits]

variable {bytes : ByteBufferPool}

theorem Took.ne {size p : Nat} (took : Took m.bytes size p bytes) (apart : m.Apart)
    (owned : 1 ≤ m.owners c) (slots : slotted m.bytes c = 0) : c ≠ p := by
  rintro rfl
  rcases took.source with ⟨new, -, -⟩ | ⟨-, -, counts⟩
  · have none_ := apart.known c new.ge
    omega
  · have counts := counts c
    rw [mark_self] at counts
    omega

theorem array_of_others {size p c : Nat} (took : Took m.bytes size p bytes)
    (choices : List (Option Nat)) (other : c ≠ p) : (m.withBytes bytes choices).array (some c) = m.array (some c) := by
  simp only [Memory.array, Memory.withBytes, took.others c other]

/-- **A slice is taken from the pool.** Nothing else changes. -/
theorem Memory.Apart.take (apart : m.Apart) (at_ : m.buffers[r]? = some o) {size p : Nat}
    (took : Took m.bytes size p bytes) (choices : List (Option Nat)) :
    Becomes r m (m.withBytes bytes choices) (m.value o) ∧
      (m.withBytes bytes choices).array o.buf.array = m.array o.buf.array := by
  have elsewhere : ∀ c, 1 ≤ m.owners c → slotted m.bytes c = 0 →
      (m.withBytes bytes choices).array (some c) = m.array (some c) :=
    fun c owned slots => array_of_others took choices (took.ne apart owned slots)
  have mine : (m.withBytes bytes choices).array o.buf.array = m.array o.buf.array := by
    cases mine : o.buf.array with
    | none => rfl
    | some c => exact elsewhere c (owners_of_object at_ mine) (apart.not_slotted at_ mine)
  refine ⟨apart.replace at_ (congrArg Memory.buffers (setObject_self at_)).symm rfl took.sound took.length_le
    (fun c => .inl (Nat.add_le_add_right (took.slotted_le c) _)) (fun c _ => elsewhere c) (mine ▸ apart.fits r o at_)
    (apart.own r o at_) ?_, mine⟩
  simp only [Memory.value, Memory.sliceValue, mine]

end Changes

end Strike.Shared
