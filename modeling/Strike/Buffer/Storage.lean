/-
**Where the bytes of an I/O buffer are.**

`WF`: the offset lies within the slice. `contents`: the unread bytes `buf[off:]`.

Every writing operation does one of three things to the storage (`Motion`): it writes behind the
stored bytes and moves nothing (`kept`), it moves the unread bytes to the front first (`moved`), or
it finds nothing unread and starts the slice over, which drops the mark (`reset`). Which of the
three happens is a function of the buffer before the call and of the size (`writeMotion`,
`appendMotion`, `readFromMotion`); `write_lands`, `append_lands` and `readFrom_lands` say that
this is what the operation does, and that it never slices out of range.
-/

import Strike.Buffer.IoBuffer

namespace Strike

/-! ### Running `BufM` -/

section Run

variable {α β : Type} (b : IoBuffer)

@[simp] theorem BufM.bind_apply (first : BufM α) (next : α → BufM β) : (first >>= next) b = match first b with
      | .ok value b' => next value b'
      | .error cause b' => .error cause b' := by
  show EStateM.bind first next b = _
  unfold EStateM.bind
  cases first b <;> rfl

@[simp] theorem BufM.pure_apply (value : α) : (pure value : BufM α) b = .ok value b := rfl

@[simp] theorem BufM.get_apply : (get : BufM IoBuffer) b = .ok b b := rfl

@[simp] theorem BufM.set_apply (b' : IoBuffer) : (set b' : BufM PUnit) b = .ok ⟨⟩ b' := rfl

@[simp] theorem BufM.throw_apply (cause : Panic) : (throw cause : BufM α) b = .error cause b := rfl

@[simp] theorem BufM.modify_apply (f : IoBuffer → IoBuffer) : (modify f : BufM PUnit) b = .ok ⟨⟩ (f b) := rfl

@[simp] theorem BufM.lift_ok (value : α) : (BufM.lift (.ok value) : BufM α) = pure value := rfl

@[simp] theorem BufM.lift_error (cause : Panic) : (BufM.lift (.error cause) : BufM α) = throw cause := rfl

@[simp] theorem BufM.ite_apply (c : Prop) [Decidable c] (first second : BufM α) :
    (if c then first else second) b = if c then first b else second b := by
  split <;> rfl

end Run

/-! ### Readers -/

/-- **Everything a reader hands to `ReadFrom`**, and the error `ReadFrom` returns: it stops at an
error, at the end, and at an answer without data. -/
def Reader.delivers : Reader → Bytes × Option GoError
  | [] => ([], none)
  | (data, err) :: rest =>
    if err = some .eof then (data, none)
    else if data.length = 0 then (data, none)
    else if err.isSome then (data, err)
    else (data ++ (Reader.delivers rest).1, (Reader.delivers rest).2)

variable {data : Bytes}

/-- One read into some room: it fits, and it ends the delivery or leaves a lighter reader with the
rest of it. -/
theorem Reader.read_spec {r r' : Reader} {room : Nat} {e : Option GoError}
    (positive : 0 < room) (answered : r.read room = (data, e, r')) :
    data.length ≤ room ∧
      (if e = some .eof ∨ data.length = 0 then r.delivers = (data, none)
        else if e.isSome then r.delivers = (data, e)
        else r.delivers = (data ++ r'.delivers.1, r'.delivers.2) ∧ r'.weight < r.weight) := by
  match r with
  | [] =>
    cases answered
    simp [Reader.delivers]
  | (data, err) :: rest =>
    by_cases fits : data.length ≤ room
    · rw [Reader.read, if_pos fits] at answered
      cases answered
      simp only [Reader.delivers]
      refine ⟨fits, ?_⟩
      by_cases ended : e = some .eof
      · simp [ended]
      · by_cases empty : data.length = 0
        · simp [ended, empty]
        · by_cases failed : e.isSome
          · simp [ended, empty, failed]
          · simp only [ended, empty, failed, or_self, if_false, Bool.false_eq_true]
            refine ⟨trivial, ?_⟩
            simp [Reader.weight]
    · have taken : (data.take room).length = room := by
        rw [List.length_take]
        omega
      have left : (data.drop room).length ≠ 0 := by
        rw [List.length_drop]
        omega
      rw [Reader.read, if_neg fits] at answered
      cases answered
      refine ⟨by omega, ?_⟩
      have more : data.length ≠ 0 := by omega
      have start : ¬ (none = some GoError.eof ∨ (data.take room).length = 0) := by
        rw [taken]
        simp only [reduceCtorEq, false_or]
        omega
      rw [if_neg start]
      simp only [Option.isSome_none, Bool.false_eq_true, if_false, Reader.delivers, if_neg left,
        if_neg more]
      refine ⟨?_, ?_⟩
      · split
        · rw [List.take_append_drop]
        · split
          · rw [List.take_append_drop]
          · rw [← List.append_assoc, List.take_append_drop]
      · simp only [Reader.weight, List.map_cons, List.sum_cons, List.length_drop]
        omega

namespace IoBuffer

/-- **The offset lies within the slice.** With the slice's own bound this is
`0 ≤ off ≤ len ≤ cap`. -/
structure WF (b : IoBuffer) : Prop where
  off_nonneg : 0 ≤ b.off
  off_le : b.off ≤ b.buf.len

instance (b : IoBuffer) : Decidable b.WF :=
  decidable_of_iff (0 ≤ b.off ∧ b.off ≤ b.buf.len) ⟨fun h => ⟨h.1, h.2⟩, fun h => ⟨h.1, h.2⟩⟩

/-- The unread bytes. -/
def contents (b : IoBuffer) : Bytes := b.buf.val.drop b.off.toNat

variable {b : IoBuffer}

theorem length_contents (wf : b.WF) : (b.contents.length : Int) = b.len := by
  have := wf.off_nonneg
  have := wf.off_le
  rw [contents, List.length_drop, Slice.length_val, len]
  omega

theorem length_contents_eq (b : IoBuffer) : b.contents.length = b.buf.len - b.off.toNat := by
  rw [contents, List.length_drop, Slice.length_val]

theorem contents_eq_nil_iff (wf : b.WF) : b.contents = [] ↔ b.off ≥ b.buf.len := by
  have nonneg := wf.off_nonneg
  rw [← List.length_eq_zero_iff, length_contents_eq]
  omega

theorem len_eq_zero_iff (wf : b.WF) : b.len = 0 ↔ b.contents = [] := by
  rw [← length_contents wf, Int.natCast_eq_zero, List.length_eq_zero_iff]

theorem slice_ok {low high : Int} (nonneg : 0 ≤ low) (le : low ≤ high)
    (inside : high ≤ b.buf.len) : b.slice low high = .ok ((b.buf.val.take high.toNat).drop low.toNat) := by
  have cap : high ≤ b.buf.cap := by
    have := b.buf.len_le_cap
    omega
  rw [slice, if_pos ⟨nonneg, le, cap⟩, Slice.val, List.take_take, Nat.min_eq_left (by omega)]

@[simp] theorem bytes_ok (wf : b.WF) : b.bytes = .ok b.contents := by
  rw [bytes, slice_ok wf.off_nonneg wf.off_le le_rfl]
  simp only [Int.toNat_natCast]
  rw [List.take_of_length_le (by simp), contents]

theorem wf_of_bytes (ok : b.bytes = .ok data) : b.WF := by
  rw [bytes, slice] at ok
  split at ok
  · next bounds => exact ⟨bounds.1, bounds.2.1⟩
  · cases ok

theorem reset_wf (b : IoBuffer) : b.reset.WF := ⟨le_rfl, le_rfl⟩

@[simp] theorem reset_contents (b : IoBuffer) : b.reset.contents = [] := rfl

@[simp] theorem reset_len (b : IoBuffer) : b.reset.buf.len = 0 := rfl

theorem contents_of_off_zero (zero : b.off = 0) : b.contents = b.buf.val := by
  rw [contents, zero]
  rfl

/-! ### What a write does to the storage -/

/-- How an operation places the bytes it adds. -/
inductive Motion where
  | kept
  | moved
  | reset
  deriving DecidableEq, Repr

/-- **The buffer after `data` was added** in one of the three ways. -/
def Motion.Lands (motion : Motion) (b : IoBuffer) (data : Bytes) (b' : IoBuffer) : Prop :=
  match motion with
  | .kept => b'.buf.val = b.buf.val ++ data ∧ b'.off = b.off ∧ b'.offMark = b.offMark
  | .moved => b'.buf.val = b.contents ++ data ∧ b'.off = 0 ∧ b'.offMark = b.offMark
  | .reset => b.contents = [] ∧ b'.buf.val = data ∧ b'.off = 0 ∧ b'.offMark = resetOffMark

variable {motion : Motion}

/-- However the bytes land, the buffer stays well formed and the unread bytes grow by them. -/
theorem Motion.Lands.grows {b b' : IoBuffer}
    (lands : motion.Lands b data b') (wf : b.WF) : b'.WF ∧ b'.contents = b.contents ++ data := by
  have nonneg := wf.off_nonneg
  have le := wf.off_le
  cases motion with
  | kept =>
    obtain ⟨val, off, -⟩ := lands
    have total : b'.buf.len = b.buf.len + data.length := by
      rw [← Slice.length_val, val, List.length_append, Slice.length_val]
    refine ⟨⟨by omega, by omega⟩, ?_⟩
    rw [contents, val, off, List.drop_append_of_le_length (by rw [Slice.length_val]; omega)]
    rfl
  | moved =>
    obtain ⟨val, off, -⟩ := lands
    exact ⟨⟨by omega, by omega⟩, by rw [contents_of_off_zero off, val]⟩
  | reset =>
    obtain ⟨empty, val, off, -⟩ := lands
    exact ⟨⟨by omega, by omega⟩, by rw [contents_of_off_zero off, val, empty, List.nil_append]⟩

/-- `copy` moves the unread bytes to the front and leaves at least the room asked for. -/
theorem copy_spec (pool : Pool) (expand : Nat) (wf : b.WF) :
    ∃ b', copy pool expand b = .ok () b' ∧ Motion.moved.Lands b [] b' ∧
      b'.buf.len = b.contents.length ∧
      (if expand = 0 then b'.buf.cap = b.buf.cap else 2 * b.buf.cap + expand ≤ b'.buf.cap) := by
  have short := length_contents_eq b
  have capBound := b.buf.len_le_cap
  by_cases zero : expand = 0
  · obtain ⟨t, run, cap, -, front⟩ := b.buf.copyAt_zero b.contents (by omega)
    have inside : b.contents.length ≤ t.cap := by omega
    refine ⟨{ b with buf := ⟨t.array, b.contents.length, inside⟩, off := 0 }, ?_, ⟨?_, rfl, rfl⟩, ?_, ?_⟩
    · simp only [copy, zero, gt_iff_lt, lt_irrefl, if_false, BufM.bind_apply, BufM.get_apply,
        bytes_ok wf, BufM.lift_ok, BufM.pure_apply, run, t.upTo_ok inside, BufM.set_apply, decide_false,
        Bool.or_false]
    · simp only [Slice.val, List.append_nil]
      exact front
    · rfl
    · rw [if_pos zero]
      exact cap
  · have lenNew := pool.getBytes_len (2 * b.buf.cap + expand)
    obtain ⟨t, run, cap, len, front⟩ :=
      (pool.getBytes (2 * b.buf.cap + expand)).copyAt_zero b.contents (by omega)
    have inside : b.contents.length ≤ t.cap := by
      have := t.len_le_cap
      omega
    refine ⟨{ b with buf := ⟨t.array, b.contents.length, inside⟩, off := 0, pooled := true }, ?_,
      ⟨?_, rfl, rfl⟩, ?_, ?_⟩
    · simp only [copy, gt_iff_lt, Nat.pos_of_ne_zero zero, if_true, BufM.bind_apply, BufM.get_apply,
        bytes_ok wf, BufM.lift_ok, BufM.pure_apply, run, t.upTo_ok inside, BufM.set_apply, decide_true,
        Bool.or_true]
    · simp only [Slice.val, List.append_nil]
      exact front
    · rfl
    · rw [if_neg zero]
      have := t.len_le_cap
      show 2 * b.buf.cap + expand ≤ t.cap
      omega

/-! ### `Write` and `WriteByte` -/

/-- **The buffer with `n` bytes reserved at index `i`**: once they are written it has landed. -/
def Motion.Reserves (motion : Motion) (b : IoBuffer) (n i : Nat) (b' : IoBuffer) : Prop :=
  i + n = b'.buf.len ∧ match motion with
  | .kept => b'.buf.array.take i = b.buf.val ∧ b'.off = b.off ∧ b'.offMark = b.offMark
  | .moved => b'.buf.array.take i = b.contents ∧ b'.off = 0 ∧ b'.offMark = b.offMark
  | .reset => b.contents = [] ∧ i = 0 ∧ b'.off = 0 ∧ b'.offMark = resetOffMark

theorem Motion.Reserves.store {b b' : IoBuffer} {i : Nat} {p : Bytes} (reserved : motion.Reserves b p.length i b') :
    ∃ b'', store i p b' = .ok () b'' ∧ motion.Lands b p b'' := by
  obtain ⟨total, where_⟩ := reserved
  obtain ⟨t, run, -, -, val⟩ := b'.buf.copyAt_end _ _ total
  refine ⟨{ b' with buf := t }, ?_, ?_⟩
  · simp only [IoBuffer.store, BufM.bind_apply, BufM.get_apply, run, BufM.lift_ok, BufM.pure_apply,
      BufM.set_apply]
  · cases motion with
    | kept => exact ⟨by rw [val, where_.1], where_.2⟩
    | moved => exact ⟨by rw [val, where_.1], where_.2⟩
    | reset =>
      obtain ⟨empty, rfl, off, offMark⟩ := where_
      exact ⟨empty, by rw [val]; rfl, off, offMark⟩

variable {n : Nat}

theorem tryGrowByReslice_fits (fits : b.buf.len + n ≤ b.buf.cap) :
    ∃ b', tryGrowByReslice n b = .ok (b.buf.len, true) b' ∧ Motion.kept.Reserves b n b.buf.len b' := by
  refine ⟨{ b with buf := ⟨b.buf.array, b.buf.len + n, fits⟩ }, ?_, rfl, rfl, rfl, rfl⟩
  simp only [tryGrowByReslice, BufM.bind_apply, BufM.get_apply, BufM.ite_apply, if_pos fits,
    b.buf.upTo_ok fits, BufM.lift_ok, BufM.pure_apply, BufM.set_apply]

theorem tryGrowByReslice_full (full : ¬ b.buf.len + n ≤ b.buf.cap) : tryGrowByReslice n b = .ok (0, false) b := by
  simp only [tryGrowByReslice, BufM.bind_apply, BufM.get_apply, BufM.ite_apply, if_neg full,
    BufM.pure_apply]

/-- What `Write` of `n` bytes does to the storage. -/
def writeMotion (b : IoBuffer) (n : Nat) : Motion :=
  if b.buf.len + n ≤ b.buf.cap then .kept else if b.len = 0 ∧ b.off ≠ 0 then .reset else .moved

/-- `growByCopy` moves the bytes and reserves behind them. -/
theorem growByCopy_spec (pool : Pool) (wf : b.WF) (full : ¬ b.buf.len + n ≤ b.buf.cap) :
    ∃ b', growByCopy pool b.contents.length n b = .ok b.contents.length b' ∧
      Motion.moved.Reserves b n b.contents.length b' := by
  have small := length_contents_eq b
  have capBound := b.buf.len_le_cap
  have positive : n ≠ 0 := by omega
  obtain ⟨middle, run, ⟨val, off, offMark⟩, len, room⟩ := copy_spec pool
    (if b.contents.length + n ≤ b.buf.cap / 2 then 0 else n) wf
  have fits : b.contents.length + n ≤ middle.buf.cap := by
    by_cases half : b.contents.length + n ≤ b.buf.cap / 2
    · rw [if_pos half, if_pos rfl] at room
      omega
    · rw [if_neg half, if_neg positive] at room
      omega
  refine ⟨{ middle with off := 0, buf := ⟨middle.buf.array, b.contents.length + n, fits⟩ }, ?_, rfl, ?_,
    rfl, offMark⟩
  · simp only [growByCopy, BufM.bind_apply, BufM.get_apply, run, middle.buf.upTo_ok fits,
      BufM.lift_ok, BufM.pure_apply, BufM.set_apply]
  · rw [Slice.val, len, List.append_nil] at val
    exact val

theorem toNat_len (wf : b.WF) : b.len.toNat = b.contents.length := by
  rw [← length_contents wf, Int.toNat_natCast]

theorem grow_spec (pool : Pool) (wf : b.WF) (full : ¬ b.buf.len + n ≤ b.buf.cap) :
    ∃ i b', grow pool n b = .ok i b' ∧ (writeMotion b n).Reserves b n i b' := by
  rw [writeMotion, if_neg full]
  by_cases empty : b.len = 0 ∧ b.off ≠ 0
  · have nothing : b.contents = [] := (len_eq_zero_iff wf).mp empty.1
    have started : (b.len = 0 && b.off ≠ 0) = true := by simpa using empty
    rw [if_pos empty]
    by_cases fits : b.reset.buf.len + n ≤ b.reset.buf.cap
    · obtain ⟨b', run, total, val, off, offMark⟩ := tryGrowByReslice_fits fits
      refine ⟨0, b', ?_, total, nothing, rfl, off, offMark⟩
      simp only [grow, resetIf, BufM.bind_apply, BufM.get_apply, BufM.modify_apply, started, if_true,
        run, BufM.ite_apply, BufM.pure_apply, reset_len]
    · obtain ⟨b', run, total, val, off, offMark⟩ := growByCopy_spec pool (reset_wf b) fits
      refine ⟨0, b', ?_, total, nothing, rfl, off, offMark⟩
      simp only [grow, resetIf, BufM.bind_apply, BufM.get_apply, BufM.modify_apply, started, if_true,
        tryGrowByReslice_full fits, Bool.false_eq_true, if_false, toNat_len wf, nothing]
      exact run
  · have started : (b.len = 0 && b.off ≠ 0) = false := by simpa using empty
    rw [if_neg empty]
    obtain ⟨b', run, reserved⟩ := growByCopy_spec pool wf full
    refine ⟨_, b', ?_, reserved⟩
    simp only [grow, resetIf, BufM.bind_apply, BufM.get_apply, BufM.modify_apply, started,
      tryGrowByReslice_full full, Bool.false_eq_true, if_false, toNat_len wf]
    exact run

theorem reserve_spec (pool : Pool) (wf : b.WF) :
    ∃ i b', reserve pool n b = .ok i b' ∧ (writeMotion b n).Reserves b n i b' := by
  by_cases fits : b.buf.len + n ≤ b.buf.cap
  · obtain ⟨b', run, reserved⟩ := tryGrowByReslice_fits fits
    refine ⟨b.buf.len, b', ?_, ?_⟩
    · simp only [reserve, BufM.bind_apply, run, if_true, BufM.pure_apply]
    · rw [writeMotion, if_pos fits]
      exact reserved
  · obtain ⟨i, b', run, reserved⟩ := grow_spec pool wf fits
    refine ⟨i, b', ?_, reserved⟩
    simp only [reserve, BufM.bind_apply, tryGrowByReslice_full fits, Bool.false_eq_true, if_false, run]

/-- **`Write` lands its bytes.** -/
theorem write_lands (pool : Pool) (p : Bytes) (wf : b.WF) :
    ∃ b', write pool p b = .ok p.length b' ∧ (writeMotion b p.length).Lands b p b' := by
  obtain ⟨i, middle, run, reserved⟩ := reserve_spec pool (n := p.length) wf
  obtain ⟨b', stored, lands⟩ := reserved.store
  refine ⟨b', ?_, lands⟩
  simp only [write, BufM.bind_apply, run, stored, BufM.pure_apply]

/-- **`WriteByte` lands its byte.** -/
theorem writeByte_lands (pool : Pool) (p : UInt8) (wf : b.WF) :
    ∃ b', writeByte pool p b = .ok () b' ∧ (writeMotion b 1).Lands b [p] b' := by
  obtain ⟨i, middle, run, reserved⟩ := reserve_spec pool (n := 1) wf
  obtain ⟨b', stored, lands⟩ := Motion.Reserves.store (p := [p]) reserved
  refine ⟨b', ?_, lands⟩
  simp only [writeByte, BufM.bind_apply, run, stored]

/-! ### `Append` and `ReadFrom` -/

theorem extend_spec (data : Bytes) (fits : b.buf.len + data.length ≤ b.buf.cap) :
    ∃ b', extend data b = .ok () b' ∧ Motion.kept.Lands b data b' ∧ b'.buf.cap = b.buf.cap := by
  obtain ⟨t, run, cap, -, val⟩ :=
    (⟨b.buf.array, b.buf.len + data.length, fits⟩ : Slice).copyAt_end b.buf.len data rfl
  refine ⟨{ b with buf := t }, ?_, ⟨val, rfl, rfl⟩, cap⟩
  simp only [extend, BufM.bind_apply, BufM.get_apply, b.buf.upTo_ok fits, BufM.lift_ok,
    BufM.pure_apply, run, BufM.set_apply]

theorem makeRoom_ample (pool : Pool) (ample : ¬ b.buf.cap - b.buf.len < n) : makeRoom pool n b = .ok () b := by
  simp only [makeRoom, BufM.bind_apply, BufM.get_apply, BufM.ite_apply, if_neg ample, BufM.pure_apply]

theorem makeRoom_tight (pool : Pool) (wf : b.WF) (tight : b.buf.cap - b.buf.len < n) :
    ∃ b', makeRoom pool n b = .ok () b' ∧ Motion.moved.Lands b [] b' ∧ b'.buf.len + n ≤ b'.buf.cap := by
  have nonneg := wf.off_nonneg
  have le := wf.off_le
  have capBound := b.buf.len_le_cap
  have small := length_contents_eq b
  obtain ⟨b', run, lands, len, room⟩ := copy_spec pool
    (if b.off + (b.buf.cap - b.buf.len : Nat) < n then n else 0) wf
  refine ⟨b', ?_, lands, ?_⟩
  · simp only [makeRoom, BufM.bind_apply, BufM.get_apply, BufM.ite_apply, if_pos tight, run]
  · by_cases far : b.off + (b.buf.cap - b.buf.len : Nat) < n
    · rw [if_pos far, if_neg (by omega)] at room
      omega
    · rw [if_neg far, if_pos rfl] at room
      omega

/-- `makeRoom` moves the bytes exactly when there is too little space behind them. -/
theorem makeRoom_spec (pool : Pool) (wf : b.WF) : ∃ b', makeRoom pool n b = .ok () b' ∧
      (if b.buf.cap - b.buf.len < n then Motion.moved else .kept).Lands b [] b' ∧
      b'.buf.len + n ≤ b'.buf.cap := by
  by_cases tight : b.buf.cap - b.buf.len < n
  · rw [if_pos tight]
    exact makeRoom_tight pool wf tight
  · rw [if_neg tight]
    have capBound := b.buf.len_le_cap
    exact ⟨b, makeRoom_ample pool tight, ⟨(List.append_nil _).symm, rfl, rfl⟩, by omega⟩

/-- Landing, then writing behind what landed. -/
theorem Motion.Lands.keep {b b' b'' : IoBuffer} {data more : Bytes}
    (first : motion.Lands b data b') (second : Motion.kept.Lands b' more b'') :
    motion.Lands b (data ++ more) b'' := by
  obtain ⟨val, off, offMark⟩ := second
  cases motion with
  | kept =>
    exact ⟨by rw [val, first.1, List.append_assoc], off.trans first.2.1, offMark.trans first.2.2⟩
  | moved =>
    exact ⟨by rw [val, first.1, List.append_assoc], off.trans first.2.1, offMark.trans first.2.2⟩
  | reset =>
    exact ⟨first.1, by rw [val, first.2.1], off.trans first.2.2.1, offMark.trans first.2.2.2⟩

/-- Writing behind the stored bytes, then moving all that is unread. -/
theorem Motion.Lands.move {b b' b'' : IoBuffer} {data more : Bytes} (wf : b.WF)
    (first : motion.Lands b data b') (still : motion ≠ .reset)
    (second : Motion.moved.Lands b' more b'') : Motion.moved.Lands b (data ++ more) b'' := by
  obtain ⟨val, off, offMark⟩ := second
  have grown := (first.grows wf).2
  refine ⟨by rw [val, grown, List.append_assoc], off, ?_⟩
  cases motion with
  | kept => exact offMark.trans first.2.2
  | moved => exact offMark.trans first.2.2
  | reset => exact absurd rfl still

theorem Motion.Lands.after_reset {b b' : IoBuffer}
    (empty : b.contents = []) (lands : motion.Lands b.reset data b') : Motion.reset.Lands b data b' := by
  cases motion with
  | kept => exact ⟨empty, lands⟩
  | moved => exact ⟨empty, lands⟩
  | reset => exact ⟨empty, lands.2⟩

/-- What `Append` of `n` bytes does to the storage. -/
def appendMotion (b : IoBuffer) (n : Nat) : Motion :=
  if b.off ≥ b.buf.len then .reset else if b.buf.cap - b.buf.len < n then .moved else .kept

/-- `makeRoom` and `extend`, the rest of `Append` after its reset. -/
theorem makeRoom_extend (pool : Pool) (data : Bytes) (wf : b.WF) :
    ∃ b', (makeRoom pool data.length >>= fun _ => extend data) b = .ok () b' ∧
      (if b.buf.cap - b.buf.len < data.length then Motion.moved else .kept).Lands b data b' := by
  obtain ⟨middle, made, lands, room⟩ := makeRoom_spec pool (n := data.length) wf
  obtain ⟨b', run, kept, -⟩ := extend_spec data room
  refine ⟨b', ?_, ?_⟩
  · simp only [BufM.bind_apply, made, run]
  · have joined := lands.keep kept
    rwa [List.nil_append] at joined

/-- **`Append` lands its bytes.** -/
theorem append_lands (pool : Pool) (data : Bytes) (wf : b.WF) :
    ∃ b', append pool data b = .ok () b' ∧ (appendMotion b data.length).Lands b data b' := by
  rw [appendMotion]
  by_cases drained : b.off ≥ b.buf.len
  · obtain ⟨b', run, lands⟩ := makeRoom_extend pool data (reset_wf b)
    rw [if_pos drained]
    refine ⟨b', ?_, lands.after_reset ((contents_eq_nil_iff wf).mpr drained)⟩
    simp only [append, resetIf, BufM.bind_apply, BufM.modify_apply, drained, decide_true, if_true]
      at run ⊢
    exact run
  · obtain ⟨b', run, lands⟩ := makeRoom_extend pool data wf
    rw [if_neg drained]
    refine ⟨b', ?_, lands⟩
    simp only [append, resetIf, BufM.bind_apply, BufM.modify_apply, drained, decide_false,
      Bool.false_eq_true, if_false] at run ⊢
    exact run

/-- Whether the loop of `ReadFrom` finds too little room before one of its reads. -/
def fillMoves (cap : Nat) : Nat → Nat → Reader → Bool
  | 0, _, _ => false
  | fuel + 1, len, r =>
    if cap - len < minRead then true
    else
      let (data, e, r) := r.read (cap - len)
      if e.isSome ∨ data.length = 0 then false else fillMoves cap fuel (len + data.length) r

/-- **The loop of `ReadFrom`** lands all that the reader delivers. By induction on the rounds: each
one makes room, writes behind the stored bytes, and goes on with a lighter reader. -/
theorem readFromLoop_lands (pool : Pool) :
    ∀ (fuel : Nat) (r : Reader) (n : Nat) {b : IoBuffer}, b.WF → r.weight < fuel →
      ∃ b', readFromLoop pool fuel r n b =
          .ok (n + r.delivers.1.length, r.delivers.2) b' ∧
        (if fillMoves b.buf.cap fuel b.buf.len r then Motion.moved else .kept).Lands b
          r.delivers.1 b'
  | 0, _, _, _, _, light => absurd light (Nat.not_lt_zero _)
  | fuel + 1, r, n, b, wf, light => by
    obtain ⟨middle, made, lands, room⟩ := makeRoom_spec pool (n := minRead) wf
    have positive : 0 < middle.buf.cap - middle.buf.len := by
      have : 0 < minRead := by decide
      omega
    obtain ⟨wfMiddle, -⟩ := lands.grows wf
    obtain ⟨data, e, r', answered⟩ : ∃ data e r',
        r.read (middle.buf.cap - middle.buf.len) = (data, e, r') := ⟨_, _, _, rfl⟩
    obtain ⟨fits, rest⟩ := Reader.read_spec positive answered
    obtain ⟨after, wrote, kept, cap⟩ := extend_spec data (b := middle) (by omega)
    have landed := lands.keep kept
    rw [List.nil_append] at landed
    have unfolded : readFromLoop pool (fuel + 1) r n b =
        (if e = some .eof then pure (n + data.length, none)
          else if data.length = 0 then pure (n + data.length, none)
          else if e.isSome then pure (n + data.length, e)
          else readFromLoop pool fuel r' (n + data.length) : BufM _) after := by
      simp only [readFromLoop, BufM.bind_apply, made, BufM.get_apply, answered, wrote]
    rw [unfolded]
    -- Without a move the loop reads into the very space `fillMoves` computes with.
    have same : ¬ b.buf.cap - b.buf.len < minRead → middle = b := fun ample => by
      rw [makeRoom_ample pool ample] at made
      cases made
      rfl
    by_cases stops : e.isSome ∨ data.length = 0
    · have result : r.delivers.1 = data ∧ (if e = some .eof then pure (n + data.length, none)
          else if data.length = 0 then pure (n + data.length, none)
          else if e.isSome then pure (n + data.length, e)
          else readFromLoop pool fuel r' (n + data.length) : BufM _) after =
            .ok (n + data.length, r.delivers.2) after := by
        by_cases ended : e = some .eof ∨ data.length = 0
        · rw [if_pos ended] at rest
          rw [rest]
          refine ⟨rfl, ?_⟩
          rcases ended with ended | ended
          · rw [if_pos ended, BufM.pure_apply]
          · rw [if_pos ended, ite_self, BufM.pure_apply]
        · have failed : e.isSome := stops.resolve_right fun empty => ended (.inr empty)
          rw [if_neg ended, if_pos failed] at rest
          rw [not_or] at ended
          rw [rest, if_neg ended.1, if_neg ended.2, if_pos failed, BufM.pure_apply]
          exact ⟨rfl, rfl⟩
      rw [result.2, result.1]
      refine ⟨after, rfl, ?_⟩
      rw [fillMoves]
      by_cases tight : b.buf.cap - b.buf.len < minRead
      · rw [if_pos tight] at landed ⊢
        exact landed
      · rw [if_neg tight] at landed ⊢
        rw [same tight] at answered
        simp only [answered, if_pos stops]
        exact landed
    · rw [not_or] at stops
      have running : ¬ (e = some .eof ∨ data.length = 0) := by
        rintro (ended | empty)
        · exact stops.1 (by rw [ended]; rfl)
        · exact stops.2 empty
      rw [if_neg running, if_neg stops.1] at rest
      obtain ⟨delivered, lighter⟩ := rest
      rw [not_or] at running
      rw [if_neg running.1, if_neg running.2, if_neg stops.1]
      obtain ⟨b', run, landsRest⟩ := readFromLoop_lands pool fuel r' (n + data.length)
        (landed.grows wf).1 (by omega)
      refine ⟨b', ?_, ?_⟩
      · rw [run, delivered, List.length_append, Nat.add_assoc]
      · rw [delivered, fillMoves]
        by_cases tight : b.buf.cap - b.buf.len < minRead
        · rw [if_pos tight] at landed ⊢
          split at landsRest
          · exact landed.move wf (by decide) landsRest
          · exact landed.keep landsRest
        · rw [if_neg tight] at landed ⊢
          rw [same tight] at answered cap
          have length : after.buf.len = b.buf.len + data.length := by
            rw [← Slice.length_val, landed.1, List.length_append, Slice.length_val]
          simp only [answered, not_or.mpr stops, if_false]
          rw [cap, length] at landsRest
          split at landsRest
          · next moves =>
              rw [if_pos moves]
              exact landed.move wf (by decide) landsRest
          · next keeps =>
              rw [if_neg keeps]
              exact landed.keep landsRest

/-- What `ReadFrom` does to the storage. -/
def readFromMotion (b : IoBuffer) (r : Reader) : Motion :=
  if b.off ≥ b.buf.len then .reset
  else if fillMoves b.buf.cap (r.weight + 1) b.buf.len r then .moved else .kept

/-- **`ReadFrom` lands all that the reader delivers.** -/
theorem readFrom_lands (pool : Pool) (r : Reader) (wf : b.WF) :
    ∃ b', readFrom pool r b = .ok (r.delivers.1.length, r.delivers.2) b' ∧
      (readFromMotion b r).Lands b r.delivers.1 b' := by
  rw [readFromMotion]
  by_cases drained : b.off ≥ b.buf.len
  · obtain ⟨b', run, lands⟩ := readFromLoop_lands pool (r.weight + 1) r 0 (reset_wf b) (by omega)
    rw [if_pos drained]
    refine ⟨b', ?_, lands.after_reset ((contents_eq_nil_iff wf).mpr drained)⟩
    simp only [readFrom, resetIf, BufM.bind_apply, BufM.modify_apply, drained, decide_true, if_true,
      run, Nat.zero_add]
  · obtain ⟨b', run, lands⟩ := readFromLoop_lands pool (r.weight + 1) r 0 wf (by omega)
    rw [if_neg drained]
    refine ⟨b', ?_, lands⟩
    simp only [readFrom, resetIf, BufM.bind_apply, BufM.modify_apply, drained, decide_false,
      Bool.false_eq_true, if_false, run, Nat.zero_add]

end IoBuffer

end Strike
