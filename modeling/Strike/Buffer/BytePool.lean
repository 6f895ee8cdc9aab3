/-
**The pool of byte slices** (`bytebufferpool.go`).

Slices between 65 bytes and 32 KiB come from slots, one for each power of two. A slot keeps pointers to slices,
so `take` shortens the slice behind the pointer it hands out.

* `slot_spec`: the slot of a size is there, and its slices are large enough and less than twice as large.
* `slots_sound`: the results, for every sequence of calls.
-/

import Strike.Go.Pools
import Strike.Go.Slice
import Strike.Lib.System

namespace Strike.ByteBuffer

open Lib

/-- `minShift`. -/
def minShift : Nat := 6

/-- `maxShift`. -/
def maxShift : Nat := 15

/-- `errSlot`. -/
def errSlot : Int := -1

/-- `minSize`. -/
def minSize : Int := 1 <<< minShift

/-- `maxSize`. -/
def maxSize : Int := 1 <<< maxShift

/-- `bufferSlot`. The pool holds pointers, by their numbers. -/
structure BufferSlot where
  defaultSize : Nat
  pool : List Nat := []
  deriving Repr, DecidableEq

/-- `byteBufferPool`, and the slices behind all pointers. -/
structure ByteBufferPool where
  pool : List BufferSlot
  slices : List Slice := []
  deriving Repr, DecidableEq

/-- `newByteBufferPool`. -/
def newByteBufferPool : ByteBufferPool where
  pool := (List.range (maxShift - minShift + 1)).map fun i => { defaultSize := 1 <<< (i + minShift) }

/-- The loop of `slot`, with the rounds left. An `int` has 63 bits above its sign. -/
def shiftLoop : (rounds size shift : Nat) → Nat
  | 0, _, shift => shift
  | rounds + 1, size, shift => if size > 0 then shiftLoop rounds (size >>> 1) (shift + 1) else shift

/-- `slot`. -/
def slot (size : Int) : Int :=
  if size > maxSize ∨ size ≤ minSize then errSlot
  else if size > minSize then shiftLoop 63 (size - 1).toNat 0 - minShift
  else 0

/-- `newBytes`. -/
def newBytes (size : Int) : Except Panic Slice :=
  if 0 ≤ size ∧ size ≤ maxAlloc then .ok (.ofBytes (List.replicate size.toNat 0)) else .error makeSliceLen

/-- An index that is not there. -/
def indexOutOfRange : Panic := .runtime "runtime error: index out of range"

namespace ByteBufferPool

variable (p : ByteBufferPool)

/-- A new pointer. -/
def point (s : Slice) : Nat × ByteBufferPool := (p.slices.length, { p with slices := p.slices ++ [s] })

/-- `take`, with what the `sync.Pool` returns: the pointer. -/
def take (size : Int) (choice : Option Nat) : Option (Except Panic (Nat × ByteBufferPool)) :=
  if slot size = errSlot then some do return p.point (← newBytes size)
  else
    match p.pool[(slot size).toNat]? with
    | none => some (.error indexOutOfRange)
    | some bufferSlot => do
      let (v, rest) ← takeOut bufferSlot.pool choice
      match v with
      | none => return do return p.point (← (← newBytes bufferSlot.defaultSize).upTo size.toNat)
      | some b =>
        let s ← p.slices[b]?
        return do
          let s ← s.upTo size.toNat
          return (b, { p with
            pool := p.pool.set (slot size).toNat { bufferSlot with pool := rest }
            slices := p.slices.set b s })

/-- `give`. -/
def give (buf : Option Nat) : Option (Except Panic ByteBufferPool) :=
  match buf with
  | none => some (.ok p)
  | some b => do
    let s ← p.slices[b]?
    if slot s.cap = errSlot then return .ok p
    else
      match p.pool[(slot s.cap).toNat]? with
      | none => return .error indexOutOfRange
      | some bufferSlot =>
        if s.cap ≠ bufferSlot.defaultSize then return .ok p
        else return .ok { p with
          pool := p.pool.set (slot s.cap).toNat { bufferSlot with pool := bufferSlot.pool ++ [b] } }

end ByteBufferPool

/-- A call, or what others do: a slice is made elsewhere, or assigned to a pointer that is in no slot. -/
inductive Call where
  | take (size : Int) (choice : Option Nat)
  | give (buf : Option Nat)
  | make (s : Slice)
  | assign (b : Nat) (s : Slice)
  deriving Repr, DecidableEq

/-- One call. A panic comes before any change. -/
def ByteBufferPool.step (p : ByteBufferPool) : Call → Option ByteBufferPool
  | .take size choice => (p.take size choice).map fun result => (result.map Prod.snd).toOption.getD p
  | .give buf => (p.give buf).map fun result => result.toOption.getD p
  | .make s => some (p.point s).2
  | .assign b s => if p.pool.any (·.pool.contains b) then none else some { p with slices := p.slices.set b s }

/-- The calls as a system. -/
def system : System ByteBufferPool Call := ⟨ByteBufferPool.step⟩

/-! ### Slots -/

/-- **The loop counts bits.** -/
theorem shiftLoop_spec (rounds : Nat) :
    ∀ {size : Nat} (shift : Nat), size < 2 ^ rounds → ∃ bits, shiftLoop rounds size shift = shift + bits ∧
      size < 2 ^ bits ∧ (size = 0 ∧ bits = 0 ∨ 2 ^ bits ≤ 2 * size) := by
  induction rounds with
  | zero =>
    intro size shift small
    exact ⟨0, rfl, small, .inl ⟨by omega, rfl⟩⟩
  | succ rounds ih =>
    intro size shift small
    rw [shiftLoop]
    by_cases more : size > 0
    · rw [if_pos more, Nat.shiftRight_one]
      rw [pow_succ] at small
      -- the bits of the half, which is zero only for a size of one
      obtain ⟨bits, counted, above, below⟩ := ih (shift + 1) (show size / 2 < 2 ^ rounds by omega)
      refine ⟨bits + 1, by rw [counted]; omega, by rw [pow_succ]; omega, .inr ?_⟩
      rcases below with ⟨none_, rfl⟩ | below
      · omega
      · rw [pow_succ]
        omega
    · rw [if_neg more]
      exact ⟨0, rfl, by omega, .inl ⟨by omega, rfl⟩⟩

variable {size : Int}

/-- **The slot of a size** is there; its slices are large enough, and less than twice as large. -/
theorem slot_spec (low : 64 < size) (high : size ≤ 32768) :
    ∃ i : Nat, slot size = i ∧ i ≤ maxShift - minShift ∧ size ≤ (2 ^ (i + minShift) : Nat) ∧
      (2 ^ (i + minShift) : Nat) < 2 * size := by
  have outside : ¬(size > maxSize ∨ size ≤ minSize) := by
    rintro (large | small)
    · exact absurd high (not_le.mpr large)
    · exact absurd low (not_lt.mpr small)
  obtain ⟨bits, counted, above, below⟩ :=
    shiftLoop_spec 63 0 (show (size - 1).toNat < 2 ^ 63 by omega)
  have many : 6 < bits := by
    by_contra few
    have := Nat.pow_le_pow_right (show 0 < 2 by decide) (not_lt.mp few)
    omega
  have few : bits ≤ 15 := by
    by_contra many
    have := Nat.pow_le_pow_right (show 0 < 2 by decide) (show 16 ≤ bits by omega)
    omega
  have slots : slot size = (bits - minShift : Nat) := by
    rw [slot, if_neg outside, if_pos (show size > minSize from low), counted, Nat.zero_add]
    exact (Int.ofNat_sub (show minShift ≤ bits from many.le)).symm
  refine ⟨bits - minShift, slots, Nat.sub_le_sub_right few _, ?_⟩
  rw [Nat.sub_add_cancel (show minShift ≤ bits from many.le)]
  omega

theorem slot_eq_errSlot (outside : size ≤ 64 ∨ 32768 < size) : slot size = errSlot := if_pos (outside.symm.imp id id)

/-! ### What a call keeps -/

theorem exists_of_bind_ok {α β : Type} {x : Except Panic α} {f : α → Except Panic β} {y : β} (ran : x >>= f = .ok y) :
    ∃ a, x = .ok a ∧ f a = .ok y := by
  cases x with
  | error panic => cases ran
  | ok a => exact ⟨a, rfl, ran⟩

theorem newBytes_ok {size : Nat} (fits : (size : Int) ≤ maxAlloc) : ∃ s, newBytes size = .ok s ∧ s.cap = size :=
  ⟨_, if_pos ⟨Int.natCast_nonneg size, fits⟩, List.length_replicate⟩

theorem of_upTo {s s' : Slice} {n : Nat} (short : s.upTo n = .ok s') : s'.cap = s.cap ∧ s'.len = n := by
  unfold Slice.upTo at short
  split at short
  · cases short
    exact ⟨rfl, rfl⟩
  · cases short

theorem newBytes_len {s : Slice} (made : newBytes size = .ok s) : s.len = size.toNat := by
  unfold newBytes at made
  split at made
  · cases made
    exact List.length_replicate
  · cases made

section Calls

variable {p p' : ByteBufferPool}

/-- `take` returns a pointer to a new slice, or one from a slot, and shortens the slice behind that. -/
theorem take_cases {choice : Option Nat} {b : Nat} (took : p.take size choice = some (.ok (b, p'))) :
    (∃ s : Slice, s.len = size.toNat ∧ p.point s = (b, p')) ∨
      ∃ i bufferSlot rest s s', p.pool[i]? = some bufferSlot ∧ bufferSlot.pool.Perm (b :: rest) ∧
        p.slices[b]? = some s ∧ s.upTo size.toNat = .ok s' ∧
        p' = { pool := p.pool.set i { bufferSlot with pool := rest }, slices := p.slices.set b s' } := by
  unfold ByteBufferPool.take at took
  split at took
  · obtain ⟨s, made, pointed⟩ := exists_of_bind_ok (Option.some.inj took)
    exact .inl ⟨s, newBytes_len made, Except.ok.inj pointed⟩
  · split at took
    · cases took
    · next bufferSlot at_ =>
        obtain ⟨⟨v, rest⟩, got, took⟩ := Option.bind_eq_some_iff.mp took
        cases got_of_takeOut got with
        | nothing =>
          obtain ⟨_, -, took⟩ := exists_of_bind_ok (Option.some.inj took)
          obtain ⟨s, short, pointed⟩ := exists_of_bind_ok took
          exact .inl ⟨s, (of_upTo short).2, Except.ok.inj pointed⟩
        | object split =>
          obtain ⟨s, there, took⟩ := Option.bind_eq_some_iff.mp took
          obtain ⟨s', short, took⟩ := exists_of_bind_ok (Option.some.inj took)
          cases took
          exact .inr ⟨_, bufferSlot, rest, s, s', at_, split, there, short, rfl⟩

/-- `give` does nothing, or puts the pointer into the slot of its size. -/
theorem give_cases {buf : Option Nat} (gave : p.give buf = some (.ok p')) :
    p' = p ∨ ∃ i bufferSlot b s, buf = some b ∧ p.pool[i]? = some bufferSlot ∧ p.slices[b]? = some s ∧
      s.cap = bufferSlot.defaultSize ∧
      p' = { p with pool := p.pool.set i { bufferSlot with pool := bufferSlot.pool ++ [b] } } := by
  unfold ByteBufferPool.give at gave
  split at gave
  · cases gave
    exact .inl rfl
  · next b =>
      obtain ⟨s, there, gave⟩ := Option.bind_eq_some_iff.mp gave
      split at gave
      · cases gave
        exact .inl rfl
      · split at gave
        · cases gave
        · next bufferSlot at_ =>
            split at gave
            · cases gave
              exact .inl rfl
            · next same =>
                cases gave
                exact .inr ⟨_, bufferSlot, b, s, rfl, at_, there, not_not.mp same, rfl⟩

end Calls

/-- **The slices of a slot have its size.** -/
structure ByteBufferPool.Sound (p : ByteBufferPool) : Prop where
  sizes : p.pool.map BufferSlot.defaultSize = (List.range (maxShift - minShift + 1)).map fun i => 2 ^ (i + minShift)
  stored : ∀ (i : Nat) (bufferSlot : BufferSlot), p.pool[i]? = some bufferSlot →
    ∀ b ∈ bufferSlot.pool, ∃ s, p.slices[b]? = some s ∧ s.cap = bufferSlot.defaultSize

namespace ByteBufferPool.Sound

variable {p : ByteBufferPool} (sound : p.Sound)

include sound

theorem length_pool : p.pool.length = maxShift - minShift + 1 := by
  have lengths := congrArg List.length sound.sizes
  rwa [List.length_map, List.length_map, List.length_range] at lengths

theorem exists_slot {i : Nat} (inside : i ≤ maxShift - minShift) :
    ∃ bufferSlot, p.pool[i]? = some bufferSlot ∧ bufferSlot.defaultSize = 2 ^ (i + minShift) := by
  have bound : i < p.pool.length := sound.length_pool ▸ Nat.lt_succ_of_le inside
  refine ⟨p.pool[i], List.getElem?_eq_getElem bound, ?_⟩
  have sized := congrArg (·[i]?) sound.sizes
  simp only [List.getElem?_map, List.getElem?_eq_getElem bound, List.getElem?_range (Nat.lt_succ_of_le inside)] at sized
  exact Option.some.inj sized

theorem set {i : Nat} {bufferSlot : BufferSlot} {pool : List Nat} {slices : List Slice} (at_ : p.pool[i]? = some bufferSlot)
    (caps : ∀ (b : Nat) (s : Slice), p.slices[b]? = some s → ∃ s', slices[b]? = some s' ∧ s'.cap = s.cap)
    (own : ∀ b ∈ pool, ∃ s, p.slices[b]? = some s ∧ s.cap = bufferSlot.defaultSize) :
    ({ p with pool := p.pool.set i { bufferSlot with pool := pool }, slices := slices } : ByteBufferPool).Sound := by
  obtain ⟨bound, rfl⟩ := List.getElem?_eq_some_iff.mp at_
  have kept : ∀ (b size : Nat), (∃ s, p.slices[b]? = some s ∧ s.cap = size) → ∃ s, slices[b]? = some s ∧ s.cap = size := by
    rintro b size ⟨s, there, sized⟩
    obtain ⟨s', there, same⟩ := caps b s there
    exact ⟨s', there, same.trans sized⟩
  constructor
  · have same : (p.pool.map BufferSlot.defaultSize).set i p.pool[i].defaultSize = p.pool.map BufferSlot.defaultSize := by
      rw [← List.map_set, List.set_getElem_self]
    rw [List.map_set, same]
    exact sound.sizes
  · intro j changed found b there
    rcases getElem?_set_cases found with ⟨rfl, rfl⟩ | ⟨-, found⟩
    · exact kept b _ (own b there)
    · exact kept b _ (sound.stored j changed found b there)

theorem withSlices {slices : List Slice} (caps : ∀ bufferSlot ∈ p.pool, ∀ b ∈ bufferSlot.pool, ∀ s,
      p.slices[b]? = some s → ∃ s', slices[b]? = some s' ∧ s'.cap = s.cap) :
    ({ p with slices := slices } : ByteBufferPool).Sound := by
  refine ⟨sound.sizes, fun i bufferSlot found b there => ?_⟩
  obtain ⟨s, at_, sized⟩ := sound.stored i bufferSlot found b there
  obtain ⟨s', at_, same⟩ := caps bufferSlot (List.mem_of_getElem? found) b there s at_
  exact ⟨s', at_, same.trans sized⟩

theorem point (s : Slice) : (p.point s).2.Sound := by
  refine sound.withSlices fun _ _ b _ s at_ => ⟨s, ?_, rfl⟩
  obtain ⟨bound, -⟩ := List.getElem?_eq_some_iff.mp at_
  rwa [List.getElem?_append_left bound]

theorem shorten {i : Nat} {bufferSlot : BufferSlot} {b : Nat} {rest : List Nat} {s s' : Slice}
    (at_ : p.pool[i]? = some bufferSlot) (split : bufferSlot.pool.Perm (b :: rest)) (there : p.slices[b]? = some s)
    (same : s'.cap = s.cap) :
    ({ pool := p.pool.set i { bufferSlot with pool := rest }, slices := p.slices.set b s' } : ByteBufferPool).Sound := by
  refine sound.set at_ (fun b' t found => ?_) fun b' member =>
    sound.stored i bufferSlot at_ b' (split.mem_iff.mpr (List.mem_cons_of_mem _ member))
  obtain ⟨bound, -⟩ := List.getElem?_eq_some_iff.mp there
  by_cases own : b' = b
  · subst own
    obtain rfl := Option.some.inj (there.symm.trans found)
    exact ⟨s', List.getElem?_set_self bound, same⟩
  · exact ⟨t, by rwa [List.getElem?_set_ne (Ne.symm own)], rfl⟩

variable {p' : ByteBufferPool}

theorem take {choice : Option Nat} {b : Nat} (took : p.take size choice = some (.ok (b, p'))) : p'.Sound := by
  rcases take_cases took with ⟨s, -, pointed⟩ | ⟨i, bufferSlot, rest, s, s', at_, split, there, short, rfl⟩
  · cases pointed
    exact sound.point s
  · exact sound.shorten at_ split there (of_upTo short).1

theorem give {buf : Option Nat} (gave : p.give buf = some (.ok p')) : p'.Sound := by
  rcases give_cases gave with rfl | ⟨i, bufferSlot, b, s, -, at_, there, sized, rfl⟩
  · exact sound
  · refine sound.set at_ (fun _ t found => ⟨t, found, rfl⟩) fun b' member => ?_
    rcases List.mem_append.mp member with member | new
    · exact sound.stored _ bufferSlot at_ b' member
    · exact ⟨s, List.mem_singleton.mp new ▸ there, sized⟩

/-- **`take` of a size the slots are for.** Whatever the pool returns, the slice fits. -/
theorem take_fits (low : 64 < size) (high : size ≤ 32768) :
    ∃ i bufferSlot, slot size = (i : Nat) ∧ p.pool[i]? = some bufferSlot ∧
      ∀ choice result, takeOut bufferSlot.pool choice = some result →
        ∃ b p' s, p.take size choice = some (.ok (b, p')) ∧ p'.slices[b]? = some s ∧ s.len = size ∧ size ≤ s.cap ∧
          s.cap < 2 * size := by
  obtain ⟨i, slots, inside, large, near⟩ := slot_spec low high
  obtain ⟨bufferSlot, at_, sized⟩ := sound.exists_slot inside
  rw [← sized] at large near
  have found : slot size ≠ errSlot := by
    rw [slots]
    unfold errSlot
    omega
  have index : (slot size).toNat = i := by rw [slots, Int.toNat_natCast]
  have length : ((size.toNat : Nat) : Int) = size := Int.toNat_of_nonneg (by omega)
  refine ⟨i, bufferSlot, slots, at_, fun choice result took => ?_⟩
  -- a slice of the slot's size has room for the size that was asked for
  have room : ∀ {s : Slice}, s.cap = bufferSlot.defaultSize → size.toNat ≤ s.cap := by
    intro s same
    omega
  simp only [ByteBufferPool.take, if_neg found, index, at_, took]
  cases got_of_takeOut took with
  | nothing =>
    obtain ⟨s, made, same⟩ := newBytes_ok (show (bufferSlot.defaultSize : Int) ≤ maxAlloc by unfold maxAlloc; omega)
    let short : Slice := ⟨s.array, size.toNat, room same⟩
    refine ⟨(p.point short).1, (p.point short).2, short, ?_, List.getElem?_concat_length, length, ?_, ?_⟩
    · simp only [made, bind, Except.bind, s.upTo_ok (room same)]
      rfl
    · exact same ▸ large
    · exact same ▸ near
  | @object b rest split =>
    obtain ⟨s, there, same⟩ := sound.stored i bufferSlot at_ b (split.mem_iff.mpr List.mem_cons_self)
    let short : Slice := ⟨s.array, size.toNat, room same⟩
    obtain ⟨bound, -⟩ := List.getElem?_eq_some_iff.mp there
    refine ⟨b, ⟨p.pool.set i { bufferSlot with pool := rest }, p.slices.set b short⟩, short, ?_,
      List.getElem?_set_self bound, length, ?_, ?_⟩
    · simp only [there, bind, Option.bind, Except.bind, s.upTo_ok (room same)]
      rfl
    · exact same ▸ large
    · exact same ▸ near

/-- **One call.** -/
theorem step {call : Call} (stepped : p.step call = some p') : p'.Sound := by
  cases call with
  | take size choice =>
    obtain ⟨result, took, rfl⟩ := Option.map_eq_some_iff.mp stepped
    cases result with
    | error panic => exact sound
    | ok taken => exact sound.take took
  | give buf =>
    obtain ⟨result, gave, rfl⟩ := Option.map_eq_some_iff.mp stepped
    cases result with
    | error panic => exact sound
    | ok p' => exact sound.give gave
  | make s =>
    cases stepped
    exact sound.point s
  | assign b s =>
    obtain ⟨free, stepped⟩ := Option.ite_none_left_eq_some.mp stepped
    cases stepped
    refine sound.withSlices fun bufferSlot slots b' member t there => ⟨t, ?_, rfl⟩
    rwa [List.getElem?_set_ne]
    rintro rfl
    exact free (List.any_eq_true.mpr ⟨bufferSlot, slots, List.contains_iff_mem.mpr member⟩)

end ByteBufferPool.Sound

/-- **The index of a size** is that of a slot, or no index. -/
theorem slot_inside (size : Int) : slot size = errSlot ∨ ∃ i ≤ maxShift - minShift, slot size = (i : Nat) := by
  by_cases inside : 64 < size ∧ size ≤ 32768
  · obtain ⟨i, slots, inside, -⟩ := slot_spec inside.1 inside.2
    exact .inr ⟨i, inside, slots⟩
  · exact .inl (slot_eq_errSlot (by omega))

theorem sound_newByteBufferPool : newByteBufferPool.Sound := by
  refine ⟨by decide, fun i bufferSlot found b there => ?_⟩
  obtain ⟨j, -, rfl⟩ := List.mem_map.mp (List.mem_of_getElem? found)
  cases there

/-- **Every slice of a slot has the slot's size.** After any calls, the index of every size is that of a slot or
no index at all, and `take` of more than 64 and at most 32768 bytes returns, whatever the pool returns, a slice
of that length and less than twice that capacity. -/
theorem slots_sound {calls : List Call} {p : ByteBufferPool} (ran : system.run newByteBufferPool calls = some p) :
    (∀ (i : Nat) (bufferSlot : BufferSlot), p.pool[i]? = some bufferSlot →
      ∀ b ∈ bufferSlot.pool, ∃ s, p.slices[b]? = some s ∧ s.cap = bufferSlot.defaultSize) ∧
      (∀ size, slot size = errSlot ∨ ∃ i < p.pool.length, slot size = (i : Nat)) ∧
      ∀ size : Int, 64 < size → size ≤ 32768 →
        ∃ i bufferSlot, slot size = (i : Nat) ∧ p.pool[i]? = some bufferSlot ∧
          ∀ choice result, takeOut bufferSlot.pool choice = some result →
            ∃ b p' s, p.take size choice = some (.ok (b, p')) ∧ p'.slices[b]? = some s ∧ s.len = size ∧
              size ≤ s.cap ∧ s.cap < 2 * size := by
  have sound : p.Sound := System.run_invariant (fun sound stepped => sound.step stepped) sound_newByteBufferPool ran
  refine ⟨sound.stored, fun size => ?_, fun size low high => sound.take_fits low high⟩
  rw [sound.length_pool]
  exact (slot_inside size).imp id fun ⟨i, inside, slots⟩ => ⟨i, Nat.lt_succ_of_le inside, slots⟩

/-- A slice from elsewhere is given, taken and given again. -/
def foreign : List Call :=
  [.make (.ofBytes (List.replicate 128 0)), .give (some 0), .take 65 (some 0), .give (some 0)]

/-- The theorem at a slice from elsewhere. -/
theorem slots_sound_foreign : ∃ p, system.run newByteBufferPool foreign = some p ∧
      ∃ bufferSlot, p.pool[1]? = some bufferSlot ∧ bufferSlot.pool = [0] ∧
        ∀ b ∈ bufferSlot.pool, ∃ s, p.slices[b]? = some s ∧ s.cap = bufferSlot.defaultSize := by
  have there : (system.run newByteBufferPool foreign).map (fun p => p.pool[1]?.map BufferSlot.pool) =
      some (some [0]) := by
    decide +kernel
  obtain ⟨p, ran, there⟩ := Option.map_eq_some_iff.mp there
  obtain ⟨bufferSlot, at_, kept⟩ := Option.map_eq_some_iff.mp there
  exact ⟨p, ran, bufferSlot, at_, kept, (slots_sound ran).1 1 bufferSlot at_⟩

end Strike.ByteBuffer
