/-
**The methods of a buffer in memory are those of its value.**

`Acts r p q`: what the call `p` does to the buffer `r` is what `q` does to its value, with a pool that returns
what the pool of byte slices returned; and nothing else changes. The rules `ActsAt.bind`, `ActsAt.load`,
`ActsAt.look`, `ActsAt.ite` and `ActsAt.store` follow the programs step by step.

* `acts_copy`: the one place where a buffer changes its array.
-/

import Strike.Buffer.Apart

namespace Strike.Shared

open Lib ByteBuffer MemM

/-! ### Programs against programs -/

section Programs

variable {α β : Type}

/-- The same result, of a buffer. -/
def resultOf (b : IoBuffer) : Result α → EStateM.Result Panic IoBuffer α
  | .ok value _ => .ok value b
  | .error cause _ => .error cause b

/-- **From here on the call `p` does to the buffer `r` what `q` does to its value**, with a pool that returns
what was taken, which are sizes above the capacity before and up to the capacity behind. -/
def ActsAt (r : Nat) (m : Memory) (v : IoBuffer) (p : MemM α) (q : Pool → BufM α) : Prop :=
  ∀ result, p m = some result →
    ∃ v', (memoryOf result).Apart ∧ (memoryOf result).view r = some v' ∧ Frame r m (memoryOf result) ∧
      v.buf.cap ≤ v'.buf.cap ∧ ∃ taken : Pool, ∀ pool : Pool,
        (∀ n, v.buf.cap < n → n ≤ v'.buf.cap → pool.getBytes n = taken.getBytes n) →
          q pool v = resultOf v' result

/-- The same from every memory. -/
def Acts (r : Nat) (p : MemM α) (q : Pool → BufM α) : Prop :=
  ∀ ⦃m : Memory⦄ ⦃v : IoBuffer⦄, m.Apart → m.view r = some v → ActsAt r m v p q

variable {r : Nat} {m : Memory} {v : IoBuffer}

variable {p : MemM α} {f : α → MemM β} {h : Memory → Except Panic α} {cause : Panic}

theorem bind_some {result : Result β} (ran : (p >>= f) m = some result) :
    (∃ value m', p m = some (.ok value m') ∧ f value m' = some result) ∨
      ∃ cause m', p m = some (.error cause m') ∧ result = .error cause m' := by
  change MemM.bind p f m = some result at ran
  unfold MemM.bind at ran
  rcases first : p m with _ | ⟨value, m'⟩ | ⟨cause, m'⟩
  · simp only [first] at ran
    cases ran
  · simp only [first] at ran
    exact .inl ⟨value, m', rfl, ran⟩
  · simp only [first, Option.some.injEq] at ran
    exact .inr ⟨cause, m', rfl, ran.symm⟩

theorem load_of_some {o : Object} (at_ : m.buffers[r]? = some o) : MemM.load r m = some (.ok o m) := by
  rw [MemM.load, at_, Option.map_some]

theorem look_of_ok {x : α} (same : h m = .ok x) : MemM.look h m = some (.ok x m) := by
  simp only [MemM.look, same]

theorem look_of_error (same : h m = .error cause) : MemM.look h m = some (.error cause m) := by
  simp only [MemM.look, same]

theorem bind_of_error {m' : Memory} (stopped : p m = some (.error cause m')) :
    (p >>= f) m = some (.error cause m') := by
  show MemM.bind p f m = _
  simp only [MemM.bind, stopped]

theorem bind_of_ok {value : α} {m' : Memory} (began : p m = some (.ok value m')) : (p >>= f) m = f value m' := by
  show MemM.bind p f m = f value m'
  simp only [MemM.bind, began]

/-- Two pools: one for sizes up to a bound, one above. -/
def joinPools (bound : Nat) (low high : Pool) : Pool :=
  ⟨fun n => if n ≤ bound then low.getBytes n else high.getBytes n, fun n => by
    split
    · exact low.getBytes_len n
    · exact high.getBytes_len n⟩

variable {q : Pool → BufM α} {g : Pool → α → BufM β}

/-- **One call behind the other.** The second takes larger slices than the first. -/
theorem ActsAt.bind (first : ActsAt r m v p q)
    (second : ∀ value m' v', p m = some (.ok value m') → m'.Apart → m'.view r = some v' →
      ActsAt r m' v' (f value) fun pool => g pool value) :
    ActsAt r m v (p >>= f) fun pool => q pool >>= g pool := by
  intro result ran
  rcases bind_some ran with ⟨value, m', began, rest⟩ | ⟨cause, m', stopped, rfl⟩
  · obtain ⟨v', apart, seen, frame, larger, taken, same⟩ := first _ began
    obtain ⟨v'', apart', seen', frame', larger', taken', same'⟩ := second value m' v' began apart seen result rest
    refine ⟨v'', apart', seen', frame.trans frame', larger.trans larger', joinPools v'.buf.cap taken taken',
      fun pool agrees => ?_⟩
    have low : q pool v = .ok value v' := same pool fun n above below => by
      rw [agrees n above (below.trans larger')]
      exact if_pos below
    have high : g pool value v' = resultOf v'' result := same' pool fun n above below => by
      rw [agrees n (larger.trans_lt above) below]
      exact if_neg (not_le.mpr above)
    show (q pool >>= g pool) v = _
    rw [BufM.bind_apply, low]
    exact high
  · obtain ⟨v', apart, seen, frame, larger, taken, same⟩ := first _ stopped
    refine ⟨v', apart, seen, frame, larger, taken, fun pool agrees => ?_⟩
    show (q pool >>= g pool) v = _
    rw [BufM.bind_apply, same pool agrees]
    rfl

/-! ### Rules -/

theorem ActsAt.of_ok {value : α} {m' : Memory} {v' : IoBuffer}
    (ran : p m = some (.ok value m')) (changed : Becomes r m m' v')
    (cap : v.buf.cap ≤ v'.buf.cap) (same : ∀ pool, q pool v = .ok value v') : ActsAt r m v p q := by
  intro result ran'
  cases ran.symm.trans ran'
  obtain ⟨apart', frame, seen'⟩ := changed
  exact ⟨v', apart', seen', frame, cap, .fresh, fun pool _ => same pool⟩

theorem Acts.pure (value : α) : Acts r (pure value : MemM α) fun _ => (Pure.pure value : BufM α) := by
  intro m v apart seen result ran
  cases ran
  exact ⟨v, apart, seen, Frame.refl r m, le_rfl, .fresh, fun _ _ => rfl⟩

theorem Acts.panic (cause : Panic) : Acts r (MemM.panic cause : MemM α) fun _ => (throw cause : BufM α) := by
  intro m v apart seen result ran
  cases ran
  exact ⟨v, apart, seen, Frame.refl r m, le_rfl, .fresh, fun _ _ => rfl⟩

theorem ActsAt.next (first : ActsAt r m v p q)
    (second : ∀ value, Acts r (f value) fun pool => g pool value) : ActsAt r m v (p >>= f) fun pool => q pool >>= g pool :=
  first.bind fun value _ _ _ apart' seen' => second value apart' seen'

theorem Acts.bind (first : Acts r p q)
    (second : ∀ value, Acts r (f value) fun pool => g pool value) : Acts r (p >>= f) fun pool => q pool >>= g pool :=
  fun _ _ apart seen => (first apart seen).next second

theorem ActsAt.of_panic (apart : m.Apart) (seen : m.view r = some v)
    (ran : p m = some (.error cause m)) (same : ∀ pool, q pool v = .error cause v) : ActsAt r m v p q := by
  intro result ran'
  cases ran.symm.trans ran'
  exact ⟨v, apart, seen, Frame.refl r m, le_rfl, .fresh, fun pool _ => same pool⟩

/-- The object is loaded, and the value read. -/
theorem Acts.load {f : Object → MemM β} {g : Pool → IoBuffer → BufM β}
    (next : ∀ ⦃m : Memory⦄ ⦃o : Object⦄, m.Apart → m.buffers[r]? = some o → m.view r = some (m.value o) →
      ActsAt r m (m.value o) (f o) fun pool => g pool (m.value o)) :
    Acts r (MemM.load r >>= f) fun pool => get >>= g pool := by
  intro m v apart seen result ran
  obtain ⟨o, at_, same⟩ := Option.map_eq_some_iff.mp seen
  subst same
  exact next apart at_ seen result ((bind_of_ok (load_of_some at_)).symm.trans ran)

theorem ActsAt.look_ok {x : α} {q : Pool → BufM β} (same : h m = .ok x)
    (next : ActsAt r m v (f x) q) : ActsAt r m v (MemM.look h >>= f) q := by
  intro result ran
  exact next result ((bind_of_ok (look_of_ok same)).symm.trans ran)

theorem ActsAt.look_panic {q : Pool → BufM β}
    (apart : m.Apart) (seen : m.view r = some v) (same : h m = .error cause)
    (panics : ∀ pool, q pool v = .error cause v) : ActsAt r m v (MemM.look h >>= f) q := by
  exact .of_panic apart seen (bind_of_error (look_of_error same)) panics

theorem ActsAt.look {x : Except Panic α} (apart : m.Apart) (seen : m.view r = some v) (same : h m = x)
    (next : ∀ value, x = .ok value → ActsAt r m v (f value) fun pool => g pool value) :
    ActsAt r m v (MemM.look h >>= f) fun pool => BufM.lift x >>= g pool := by
  cases x with
  | error cause => exact ActsAt.look_panic apart seen same fun _ => rfl
  | ok value => exact ActsAt.look_ok same (next value rfl)

theorem ActsAt.ite {c c' : Prop} [Decidable c] [Decidable c'] {p p' : MemM α} {q q' : Pool → BufM α} (same : c ↔ c')
    (yes : c → ActsAt r m v p q) (no : ¬c → ActsAt r m v p' q') :
    ActsAt r m v (if c then p else p') fun pool => if c' then q pool else q' pool := by
  by_cases holds : c
  · rw [if_pos holds]
    have holds' := same.mp holds
    simp only [if_pos holds']
    exact yes holds
  · rw [if_neg holds]
    have holds' := fun yes => holds (same.mpr yes)
    simp only [if_neg holds']
    exact no holds

theorem Acts.ite {c : Prop} [Decidable c] {p p' : MemM α} {q q' : Pool → BufM α} (yes : Acts r p q) (no : Acts r p' q') :
    Acts r (if c then p else p') fun pool => if c then q pool else q' pool :=
  fun _ _ apart seen => .ite Iff.rfl (fun _ => yes apart seen) fun _ => no apart seen

/-! ### Fields -/

variable {o o' : Object}

theorem sliceValue_eq {h : Header} (fits : h.len ≤ (m.array h.array).length) :
    m.sliceValue h = ⟨m.array h.array, h.len, fits⟩ := by
  simp only [Memory.sliceValue, Nat.min_eq_left fits]

theorem value_len (fits : o.buf.len ≤ (m.array o.buf.array).length) : (m.value o).buf.len = o.buf.len :=
  Nat.min_eq_left fits

theorem ActsAt.store (apart : m.Apart) (at_ : m.buffers[r]? = some o)
    (array : o'.buf.array = o.buf.array) (b : o'.b = o.b) (fits : o'.buf.len ≤ (m.array o.buf.array).length)
    {v' : IoBuffer} (same : m.value o' = v') : ActsAt r m (m.value o) (MemM.store r o') fun _ => set v' := by
  intro result ran
  cases ran
  obtain ⟨apart', frame, seen⟩ := apart.store at_ array b fits
  subst same
  exact ⟨_, apart', seen, frame, (congrArg (fun c => (m.array c).length) array).ge, .fresh, fun _ _ => rfl⟩

end Programs

/-! ### Methods that set fields -/

section Methods

variable {r : Nat}

/-- What a method may set: the slice stays in its array, and gets no longer. -/
structure Sets (f : Object → Object) (g : IoBuffer → IoBuffer) (m : Memory) (o : Object) : Prop where
  array : (f o).buf.array = o.buf.array
  b : (f o).b = o.b
  len : (f o).buf.len ≤ o.buf.len
  same : m.value (f o) = g (m.value o)

theorem acts_setFields {f : Object → Object} {g : IoBuffer → IoBuffer}
    (sets : ∀ (m : Memory) (o : Object), o.buf.len ≤ (m.array o.buf.array).length → Sets f g m o) :
    Acts r (setFields r f) fun _ => modify g := by
  refine Acts.load (g := fun _ v => set (g v)) fun m o apart at_ _ => ?_
  have fits := apart.fits r o at_
  obtain ⟨array, b, len, same⟩ := sets m o fits
  exact ActsAt.store apart at_ array b (len.trans fits) same

theorem value_reset (m : Memory) (o : Object) : m.value o.reset = (m.value o).reset := by
  simp only [Memory.value, Object.reset, IoBuffer.reset, sliceValue_eq (h := { o.buf with len := 0 }) (Nat.zero_le _)]
  rfl

variable {o : Object} {m : Memory}

theorem ActsAt.storeReset (apart : m.Apart) (at_ : m.buffers[r]? = some o) :
    ActsAt r m (m.value o) (MemM.store r o.reset) fun _ => set (m.value o).reset := by
  refine ActsAt.store apart at_ ?_ ?_ (Nat.zero_le _) (value_reset m o)
  · rfl
  · rfl

/-- Only the offset and the mark are written. -/
theorem ActsAt.storeOff (apart : m.Apart) (at_ : m.buffers[r]? = some o) (off offMark : Int) :
    ActsAt r m (m.value o) (MemM.store r { o with off, offMark }) fun _ => set { m.value o with off, offMark } := by
  refine ActsAt.store apart at_ ?_ ?_ ?_ ?_
  · rfl
  · rfl
  · exact apart.fits r o at_
  · rfl

theorem acts_resetIf {drained : Object → Bool} {drained' : IoBuffer → Bool}
    (same : ∀ (m : Memory) (o : Object), o.buf.len ≤ (m.array o.buf.array).length → drained o = drained' (m.value o)) :
    Acts r (resetIf r drained) fun _ => IoBuffer.resetIf drained' := by
  refine acts_setFields fun m o fits => ?_
  by_cases empty : drained o
  · constructor <;> simp only [if_pos empty, if_pos (same m o fits ▸ empty)]
    exacts [rfl, rfl, Nat.zero_le _, value_reset m o]
  · constructor <;> simp only [if_neg empty, if_neg (same m o fits ▸ empty)]
    exact le_rfl

/-! ### Methods that read -/

theorem bytes_value (fits : o.buf.len ≤ (m.array o.buf.array).length) :
    m.slice o.buf o.off o.buf.len = (m.value o).bytes := by
  rw [IoBuffer.bytes, value_len fits]
  rfl

theorem acts_read (n : Nat) : Acts r (read r n) fun _ => IoBuffer.read n := by
  refine Acts.load fun m o apart at_ seen => ?_
  have fits := apart.fits r o at_
  refine ActsAt.ite ?_ (fun _ => ?_) fun _ => ?_
  · rw [value_len fits]
    rfl
  · exact (ActsAt.storeReset apart at_).next fun _ => .ite (.pure _) (.pure _)
  · refine ActsAt.look apart seen (bytes_value fits) fun data _ => ?_
    exact (ActsAt.storeOff apart at_ _ _).next fun _ => .pure _

theorem acts_readByte : Acts r (readByte r) fun _ => IoBuffer.readByte := by
  refine Acts.load fun m o apart at_ seen => ?_
  have fits := apart.fits r o at_
  refine ActsAt.ite ?_ (fun _ => ?_) fun _ => ?_
  · rw [value_len fits]
    rfl
  · exact (ActsAt.storeReset apart at_).next fun _ => .pure _
  · refine ActsAt.look apart seen (bytes_value fits) fun data _ => ?_
    cases data with
    | nil => exact Acts.panic _ apart seen
    | cons value rest => exact (ActsAt.storeOff apart at_ _ _).next fun _ => .pure _

theorem acts_cut (offset : Nat) : Acts r (cut r offset) fun _ => IoBuffer.cut offset := by
  refine Acts.load fun m o apart at_ seen => ?_
  refine ActsAt.ite ?_ (fun _ => Acts.pure _ apart seen) fun _ => ?_
  · rw [value_len (apart.fits r o at_)]
    rfl
  · refine ActsAt.ite Iff.rfl (fun _ => Acts.panic _ apart seen) fun _ => ?_
    refine ActsAt.look apart seen rfl fun data _ => ?_
    exact (ActsAt.storeOff apart at_ _ _).next fun _ => .pure _

theorem acts_writeTo (w : Writer) : Acts r (writeTo r w) fun _ => IoBuffer.writeTo w := by
  induction w with
  | nil => exact .pure _
  | cons answer rest ih =>
    obtain ⟨n, err⟩ := answer
    refine Acts.load fun m o apart at_ seen => ?_
    have fits := apart.fits r o at_
    refine ActsAt.ite ?_ (fun _ => ?_) fun _ => Acts.pure _ apart seen
    · rw [value_len fits]
      rfl
    · refine ActsAt.look apart seen (bytes_value fits) fun data _ => ?_
      refine ActsAt.ite Iff.rfl (fun _ => Acts.panic _ apart seen) fun _ => ?_
      refine (ActsAt.storeOff apart at_ _ _).next fun _ => .ite (.pure _) (.ite (.pure _) ?_)
      exact ih.bind fun _ => .pure _

/-! ### Methods that move the end of the slice -/

theorem cap_value (m : Memory) (o : Object) : (m.array o.buf.array).length = (m.value o).buf.cap := rfl

theorem ActsAt.cap {v : IoBuffer} {β : Type} {f : Nat → MemM β} {q : Pool → BufM β}
    (next : ActsAt r m v (f (m.value o).buf.cap) q) : ActsAt r m v (capOf o >>= f) q := next

theorem upTo_value (n : Nat) : (m.upTo o.buf n).map m.sliceValue = (m.value o).buf.upTo n := by
  unfold Memory.upTo Slice.upTo
  by_cases inside : n ≤ (m.array o.buf.array).length
  · rw [if_pos inside]
    refine Eq.trans ?_ (dif_pos inside).symm
    exact congrArg Except.ok (sliceValue_eq (m := m) (h := { o.buf with len := n }) inside)
  · rw [if_neg inside]
    rw [dif_neg (show ¬ n ≤ (m.value o).buf.array.length from inside)]
    rfl

/-- **The slice gets a new end.** -/
theorem ActsAt.reslice {β : Type} {k : MemM β} {g : Pool → BufM β}
    (apart : m.Apart) (at_ : m.buffers[r]? = some o) (seen : m.view r = some (m.value o)) (n : Nat) (off : Int)
    (next : Acts r k g) :
    ActsAt r m (m.value o) (MemM.look (fun m => m.upTo o.buf n) >>= fun buf => MemM.store r { o with buf, off } >>= fun _ => k)
      fun pool => BufM.lift ((m.value o).buf.upTo n) >>= fun buf => set { m.value o with buf, off } >>= fun _ => g pool := by
  by_cases inside : n ≤ (m.array o.buf.array).length
  · have value : (m.value o).buf.upTo n = .ok (m.sliceValue { o.buf with len := n }) := by
      rw [← upTo_value, Memory.upTo, if_pos inside]
      rfl
    refine ActsAt.look_ok (if_pos inside) ?_
    simp only [value, BufM.lift_ok, pure_bind]
    refine ActsAt.next ?_ fun _ => next
    refine ActsAt.store apart at_ ?_ ?_ ?_ ?_
    · rfl
    · rfl
    · exact inside
    · rfl
  · have value : (m.value o).buf.upTo n = .error sliceBounds := by
      rw [← upTo_value, Memory.upTo, if_neg inside]
      rfl
    refine ActsAt.look_panic apart seen (if_neg inside) fun pool => ?_
    simp only [value, BufM.lift_error]
    rfl

theorem acts_tryGrowByReslice (n : Nat) : Acts r (tryGrowByReslice r n) fun _ => IoBuffer.tryGrowByReslice n := by
  refine Acts.load fun m o apart at_ seen => ActsAt.cap ?_
  simp only [← value_len (apart.fits r o at_)]
  refine ActsAt.ite Iff.rfl (fun _ => ?_) fun _ => Acts.pure _ apart seen
  exact ActsAt.reslice apart at_ seen _ _ (.pure _)

/-! ### Methods that write -/

theorem length_copyAt {array : Bytes} (data : Bytes) {len index : Nat} (fits : len ≤ array.length) (inside : index ≤ len) :
    (splice array index (data.take (len - index))).length = array.length := by
  refine length_splice ?_
  rw [List.length_take]
  omega

theorem acts_put (i : Nat) (p : Bytes) : Acts r (put r i p) fun _ => IoBuffer.store i p := by
  refine Acts.load fun m o apart at_ seen => ?_
  have fits := apart.fits r o at_
  simp only [Memory.value, sliceValue_eq fits, Slice.copyAt]
  by_cases inside : i ≤ o.buf.len
  · have length := length_copyAt p fits inside
    have changed := apart.fill at_ o length rfl rfl (length ▸ fits)
    rw [setObject_self (m := m.setArray o.buf.array _) at_] at changed
    refine ActsAt.of_ok (if_pos inside) changed (by rw [Slice.cap, Slice.cap, length]) fun pool => ?_
    simp only [dif_pos inside]
    rfl
  · refine ActsAt.of_panic apart (by rw [Memory.view, at_, Option.map_some, Memory.value, sliceValue_eq fits])
      (if_neg inside) fun pool => ?_
    simp only [dif_neg inside]
    rfl

theorem upTo_sliceValue {h : Header} (fits : h.len ≤ (m.array h.array).length) (n : Nat) :
    (⟨m.array h.array, h.len, fits⟩ : Slice).upTo n =
      if inside : n ≤ (m.array h.array).length then .ok ⟨m.array h.array, n, inside⟩ else .error sliceBounds := rfl

theorem acts_extend (data : Bytes) : Acts r (extend r data) fun _ => IoBuffer.extend data := by
  refine Acts.load fun m o apart at_ seen => ?_
  have fits := apart.fits r o at_
  by_cases inside : o.buf.len + data.length ≤ (m.array o.buf.array).length
  · have length := length_copyAt data inside (Nat.le_add_right _ _)
    refine ActsAt.look_ok (if_pos inside) ?_
    have changed := apart.fill at_ { o with buf := { o.buf with len := o.buf.len + data.length } } length rfl rfl
      (length ▸ inside)
    refine ActsAt.of_ok ((bind_of_ok (if_pos (Nat.le_add_right _ _))).trans rfl) changed length.ge fun pool => ?_
    simp only [Memory.value, sliceValue_eq fits, upTo_sliceValue, dif_pos inside, BufM.lift_ok, pure_bind,
      Slice.copyAt, dif_pos (Nat.le_add_right o.buf.len data.length)]
    rfl
  · refine ActsAt.look_panic apart seen (if_neg inside) fun pool => ?_
    simp only [Memory.value, sliceValue_eq fits, upTo_sliceValue, dif_neg inside, BufM.lift_error]
    rfl

theorem length_of_bytes {b : IoBuffer} {data : Bytes} (ok : b.bytes = .ok data) : data.length ≤ b.buf.len := by
  have formed := IoBuffer.wf_of_bytes ok
  rw [IoBuffer.bytes_ok formed] at ok
  cases ok
  rw [IoBuffer.length_contents_eq]
  exact Nat.sub_le _ _

/-- `copy(0)`: the unread bytes move to the front of their array. -/
theorem acts_copy_zero : Acts r (copy r 0) fun pool => IoBuffer.copy pool 0 := by
  refine Acts.load fun m o apart at_ seen => ?_
  have fits := apart.fits r o at_
  rw [if_neg (lt_irrefl 0)]
  simp only [gt_iff_lt, lt_irrefl, if_false, decide_false, Bool.or_false]
  refine ActsAt.look apart seen (bytes_value fits) fun data read => ?_
  have short : data.length ≤ o.buf.len := value_len fits ▸ length_of_bytes read
  have length := length_copyAt data fits (Nat.zero_le _)
  have inside := short.trans fits
  have changed := apart.fill at_ { o with buf := { o.buf with len := data.length }, off := 0 } length rfl rfl
    (length ▸ inside)
  have looked : ∀ m', m' = m.setArray o.buf.array (splice (m.array o.buf.array) 0 (data.take (o.buf.len - 0))) →
      MemM.look (fun m => m.upTo o.buf data.length) m' = some (.ok { o.buf with len := data.length } m') := by
    rintro _ rfl
    have room : data.length ≤
        ((m.setArray o.buf.array (splice (m.array o.buf.array) 0 (data.take (o.buf.len - 0)))).array o.buf.array).length := by
      rw [apart.array_own at_ length]
      exact length ▸ inside
    simp only [MemM.look, Memory.upTo, if_pos room]
  refine ActsAt.of_ok ((bind_of_ok (if_pos (Nat.zero_le _))).trans ((bind_of_ok (looked _ rfl)).trans rfl)) changed
    length.ge fun pool => ?_
  simp only [Memory.value, sliceValue_eq fits, Slice.copyAt, dif_pos (Nat.zero_le o.buf.len), BufM.lift_ok, pure_bind,
    Slice.upTo, length, dif_pos inside]
  rfl

/-! ### Another array -/

section Bytes

variable {α : Type} {m : Memory} {o : Object} {size p : Nat} {bytes : ByteBufferPool} {s : Slice}

theorem getBytes_some {result : Result Nat} (apart : m.Apart) (ran : MemM.getBytes size m = some result) :
    ∃ p bytes, Took m.bytes size p bytes ∧ result = .ok p (m.withBytes bytes m.choices.tail) := by
  unfold MemM.getBytes at ran
  split at ran
  · next p bytes took => exact ⟨p, bytes, took_of_take apart.sound took, (Option.some.inj ran).symm⟩
  · cases ran

theorem getBytes_bind {f : Nat → MemM α} {result : Result α} (apart : m.Apart)
    (ran : (MemM.getBytes size >>= f) m = some result) :
    ∃ p bytes s, Took m.bytes size p bytes ∧ bytes.slices[p]? = some s ∧ s.len = size ∧
      f p (m.withBytes bytes m.choices.tail) = some result := by
  rcases bind_some ran with ⟨p, m₁, taking, rest⟩ | ⟨cause, m₁, stopped, -⟩
  · obtain ⟨p', bytes, took, here⟩ := getBytes_some apart taking
    cases here
    obtain ⟨s, there, len⟩ := took.sized
    exact ⟨p, bytes, s, took, there, len, rest⟩
  · obtain ⟨p', bytes, -, no⟩ := getBytes_some apart stopped
    cases no

theorem putBytes_bind {b : Option Nat} {f : Unit → MemM α} {result : Result α}
    (ran : (MemM.putBytes b >>= f) m = some result) :
    ∃ given, m.bytes.give b = some (.ok given) ∧ f () (m.withBytes given m.choices) = some result := by
  rcases bind_some ran with ⟨_, m', began, rest⟩ | ⟨_, m', stopped, -⟩
  · unfold MemM.putBytes at began
    split at began
    · next given gave =>
        cases began
        exact ⟨given, gave, rest⟩
    · cases began
  · unfold MemM.putBytes at stopped
    split at stopped <;> cases stopped

/-- A pool that returns this slice for its size. -/
def poolOf (s : Slice) : Pool :=
  ⟨fun n => if n = s.len then s else Pool.fresh.getBytes n, fun n => by
    split
    · next same => exact same.symm
    · exact Pool.fresh.getBytes_len n⟩

theorem poolOf_len (s : Slice) : (poolOf s).getBytes s.len = s := if_pos rfl

theorem Memory.Apart.mark_b_le (apart : m.Apart) (at_ : m.buffers[r]? = some o) (c : Nat) :
    mark (some c) o.b ≤ mark (some c) o.buf.array := by
  by_cases mine : o.b = some c
  · rw [apart.own r o at_ c mine, mine]
  · rw [mark_of_ne mine]
    exact Nat.zero_le _

theorem Took.counts {given : ByteBufferPool} (took : Took m.bytes size p bytes) {old b : Option Nat}
    (length : bytes.slices.length ≤ given.slices.length)
    (le : ∀ c, mark (some c) b ≤ mark (some c) old) (gave : ∀ c, slotted given c ≤ slotted bytes c + mark (some c) b)
    (c : Nat) :
    slotted given c + mark (some c) (some p) ≤ slotted m.bytes c + mark (some c) old ∨
      (c = m.bytes.slices.length ∧ m.bytes.slices.length < given.slices.length ∧
        slotted given c + mark (some c) (some p) ≤ slotted m.bytes c + mark (some c) old + 1) := by
  have le := le c
  have gave := gave c
  rw [mark_some]
  rcases took.source with ⟨new, more, counts⟩ | ⟨-, -, counts⟩
  · have counts := counts c
    by_cases same : p = c
    · subst same
      rw [mark_self]
      exact .inr ⟨new, by omega, by omega⟩
    · rw [mark_of_ne same]
      exact .inl (by omega)
  · have counts := counts c
    exact .inl (by omega)

theorem length_setArray (m : Memory) (p : Nat) (a : Bytes) :
    (m.setArray (some p) a).bytes.slices.length = m.bytes.slices.length := List.length_modify ..

theorem Took.inside (took : Took m.bytes size p bytes) : p < bytes.slices.length := by
  obtain ⟨s, at_, -⟩ := took.sized
  exact (List.getElem?_eq_some_iff.mp at_).1

theorem array_of_took (choices : List (Option Nat)) (at_ : bytes.slices[p]? = some s) :
    (m.withBytes bytes choices).array (some p) = s.array := by
  simp only [Memory.array, Memory.withBytes, at_, Option.map_some, Option.getD_some]

theorem bytesOf_took (apart : m.Apart) (at_ : m.buffers[r]? = some o) {choices : List (Option Nat)}
    (took : Took m.bytes size p bytes) :
    (m.withBytes bytes choices).slice o.buf o.off o.buf.len = (m.value o).bytes := by
  rw [← bytes_value (apart.fits r o at_)]
  simp only [Memory.slice, (apart.take at_ took choices).2]

theorem look_pointee (choices : List (Option Nat)) (there : bytes.slices[p]? = some s) :
    MemM.look (fun m => .ok (m.pointee p)) (m.withBytes bytes choices) =
      some (.ok ⟨some p, s.len⟩ (m.withBytes bytes choices)) := by
  refine look_of_ok ?_
  simp only [Memory.pointee, Memory.withBytes, there, Option.map_some, Option.getD_some]

/-- **The bytes move to another array**, and the old one may be in the pool then. -/
theorem moveTo_some (apart : m.Apart) (at_ : m.buffers[r]? = some o) {choices : List (Option Nat)}
    (took : Took m.bytes size p bytes) (there : bytes.slices[p]? = some s) {data : Bytes} (read : (m.value o).bytes = .ok data)
    (inside : data.length ≤ (splice s.array 0 (data.take (s.len - 0))).length)
    {result : Result Unit} (ran : moveTo r o p (m.withBytes bytes choices) = some result) :
    ∃ m', result = .ok () m' ∧ Becomes r m m' { m.value o with
      buf := ⟨splice s.array 0 (data.take (s.len - 0)), data.length, inside⟩, off := 0, pooled := true } := by
  have array := array_of_took (m := m) choices there
  have length := length_copyAt data s.len_le (Nat.zero_le _)
  have read' : bytesOf o (m.withBytes bytes choices) = some (.ok data (m.withBytes bytes choices)) :=
    look_of_ok (h := fun m => m.slice o.buf o.off o.buf.len) ((bytesOf_took apart at_ took).trans read)
  have copied : MemM.copyAt ⟨some p, s.len⟩ 0 data (m.withBytes bytes choices) =
      some (.ok () ((m.withBytes bytes choices).setArray (some p) (splice s.array 0 (data.take (s.len - 0))))) := by
    rw [← array]
    exact if_pos (Nat.zero_le _)
  have ran := (bind_of_ok (look_pointee choices there)).symm.trans ran
  have ran := (bind_of_ok copied).symm.trans ((bind_of_ok read').symm.trans ran)
  obtain ⟨given, gave, ran⟩ := putBytes_bind ran
  obtain ⟨slices, counts⟩ := give_spec gave
  have sound := (sound_setArray took.sound (length.trans (congrArg List.length array).symm)).give gave
  have own := array_setArray (m.withBytes bytes choices) took.inside (splice s.array 0 (data.take (s.len - 0)))
  have longer : bytes.slices.length ≤ given.slices.length := by rw [slices, length_setArray]; exact le_rfl
  set m₁ := (m.withBytes bytes choices).setArray (some p) (splice s.array 0 (data.take (s.len - 0)))
  have arrays : ∀ c, (m₁.withBytes given choices).array c = m₁.array c := by
    intro c
    cases c with
    | none => rfl
    | some c => simp only [Memory.array, Memory.withBytes, slices]
  have room : data.length ≤ ((m₁.withBytes given choices).array (some p)).length := by rwa [arrays, own]
  have resliced := look_of_ok (h := fun m => m.upTo ⟨some p, s.len⟩ data.length) (if_pos room)
  cases (bind_of_ok resliced).symm.trans ran
  refine ⟨_, rfl, apart.replace at_ rfl rfl sound (took.length_le.trans longer)
    (took.counts longer (apart.mark_b_le at_) counts) (fun c _ owned slots => ?_) room (fun q mine => mine) ?_⟩
  · have other := took.ne apart owned slots
    refine (arrays _).trans ((array_setArray_ne _ (fun same => other (Option.some.inj same)) _).trans ?_)
    exact array_of_others took choices other
  · show (m₁.withBytes given choices).value ⟨⟨some p, data.length⟩, 0, _, _, _, some p⟩ = _
    simp only [Memory.value, Memory.sliceValue, arrays, own, Nat.min_eq_left inside, Option.isSome_some]

end Bytes

/-- `copy(expand)`: the unread bytes move to the front of another array. -/
theorem acts_copy_expand {expand : Nat} (positive : 0 < expand) : Acts r (copy r expand) fun pool =>
    IoBuffer.copy pool expand := by
  refine Acts.load fun m o apart at_ seen => ?_
  rw [if_pos positive]
  refine ActsAt.cap fun result ran => ?_
  obtain ⟨p, bytes, s, took, there, len, rest⟩ := getBytes_bind apart ran
  cases read : (m.value o).bytes with
  | error cause =>
    obtain ⟨⟨apart₁, frame₁, seen₁⟩, -⟩ := apart.take at_ took m.choices.tail
    have read' : bytesOf o (m.withBytes bytes m.choices.tail) = some (.error cause (m.withBytes bytes m.choices.tail)) :=
      look_of_error (h := fun m => m.slice o.buf o.off o.buf.len) ((bytesOf_took apart at_ took).trans read)
    have rest := (bind_of_ok (look_pointee m.choices.tail there)).symm.trans rest
    cases (bind_of_error read').symm.trans rest
    exact ⟨_, apart₁, seen₁, frame₁, le_rfl, .fresh, fun pool _ => rfl⟩
  | ok data =>
    have short := length_of_bytes read
    have within := (m.value o).buf.len_le_cap
    have cap := s.len_le
    have length := length_copyAt data cap (Nat.zero_le _)
    have inside : data.length ≤ (splice s.array 0 (data.take (s.len - 0))).length := by omega
    obtain ⟨m', rfl, apart', frame, seen'⟩ := moveTo_some apart at_ took there read inside rest
    have larger : s.len ≤ (splice s.array 0 (data.take (s.len - 0))).length := length ▸ cap
    refine ⟨_, apart', seen', frame, ?_, poolOf s, fun pool agrees => ?_⟩
    · exact (show (m.value o).buf.cap ≤ s.len by omega).trans larger
    · have taken : pool.getBytes (2 * (m.value o).buf.cap + expand) = s := by
        rw [← len]
        exact (agrees s.len (by omega) larger).trans (poolOf_len s)
      simp only [gt_iff_lt, positive, if_true, taken, BufM.lift_ok, pure_bind, Slice.copyAt, Slice.upTo,
        dif_pos (Nat.zero_le s.len), dif_pos inside, decide_true, Bool.or_true]
      rfl

theorem acts_copy (expand : Nat) : Acts r (copy r expand) fun pool => IoBuffer.copy pool expand := by
  cases expand with
  | zero => exact acts_copy_zero
  | succ expand => exact acts_copy_expand (Nat.succ_pos expand)

/-! ### Methods that make room -/

theorem acts_growByCopy (l n : Nat) : Acts r (growByCopy r l n) fun pool => IoBuffer.growByCopy pool l n := by
  refine Acts.load fun m o apart at_ seen => ActsAt.cap ?_
  refine (acts_copy _ apart seen).next fun _ => Acts.load fun m' o' apart' at' seen' => ?_
  exact ActsAt.reslice apart' at' seen' _ _ (.pure _)

theorem len_value (fits : o.buf.len ≤ (m.array o.buf.array).length) : o.len = (m.value o).len := by
  rw [Object.len, IoBuffer.len, value_len fits]
  rfl

theorem acts_grow (n : Nat) : Acts r (grow r n) fun pool => IoBuffer.grow pool n := by
  refine Acts.load fun m o apart at_ seen => ?_
  rw [len_value (apart.fits r o at_)]
  refine (acts_resetIf (fun m o fits => ?_) apart seen).next fun _ => (acts_tryGrowByReslice n).bind fun _ => ?_
  · rw [len_value fits]
    rfl
  · exact .ite (.pure _) (acts_growByCopy _ n)

theorem acts_reserve (n : Nat) : Acts r (reserve r n) fun pool => IoBuffer.reserve pool n :=
  (acts_tryGrowByReslice n).bind fun _ => .ite (.pure _) (acts_grow n)

theorem acts_write (p : Bytes) : Acts r (write r p) fun pool => IoBuffer.write pool p :=
  (acts_reserve p.length).bind fun i => (acts_put i p).bind fun _ => .pure _

theorem acts_writeByte (p : UInt8) : Acts r (writeByte r p) fun pool => IoBuffer.writeByte pool p :=
  (acts_reserve 1).bind fun i => acts_put i [p]

theorem acts_makeRoom (n : Nat) : Acts r (makeRoom r n) fun pool => IoBuffer.makeRoom pool n := by
  refine Acts.load fun m o apart at_ seen => ActsAt.cap ?_
  simp only [← value_len (apart.fits r o at_)]
  exact ActsAt.ite Iff.rfl (fun _ => acts_copy _ apart seen) fun _ => Acts.pure _ apart seen

theorem acts_drained : Acts r (resetIf r fun b => b.off ≥ b.buf.len) fun _ => IoBuffer.resetIf fun b => b.off ≥ b.buf.len :=
  acts_resetIf fun m o fits => by
    rw [value_len fits]
    rfl

theorem acts_append (data : Bytes) : Acts r (append r data) fun pool => IoBuffer.append pool data :=
  acts_drained.bind fun _ => (acts_makeRoom data.length).bind fun _ => acts_extend data

/-- By induction on the rounds. Both loops have the same answer of the reader. -/
theorem acts_readFromLoop (fuel : Nat) : ∀ (reader : Reader) (n : Nat),
    Acts r (readFromLoop r fuel reader n) fun pool => IoBuffer.readFromLoop pool fuel reader n := by
  induction fuel with
  | zero => exact fun _ _ => .pure _
  | succ fuel ih =>
    intro reader n
    refine (acts_makeRoom minRead).bind fun _ => Acts.load fun m o apart at_ seen => ActsAt.cap ?_
    simp only [← value_len (apart.fits r o at_)]
    obtain ⟨data, e, reader', answered⟩ : ∃ data e reader',
        reader.read ((m.value o).buf.cap - (m.value o).buf.len) = (data, e, reader') := ⟨_, _, _, rfl⟩
    simp only [answered]
    exact (acts_extend data apart seen).next fun _ => .ite (.pure _) (.ite (.pure _) (.ite (.pure _) (ih reader' _)))

theorem acts_readFrom (reader : Reader) : Acts r (readFrom r reader) fun pool => IoBuffer.readFrom pool reader :=
  acts_drained.bind fun _ => acts_readFromLoop _ reader 0

theorem acts_readOnceLoop (last : GoError) (loop : Bool) (rounds : Nat) : ∀ (first : Bool) (answers : Answers GoError)
    (n : Nat), Acts r (readOnceLoop r last rounds first loop answers n) fun pool =>
      IoBuffer.readOnceLoop pool last rounds first loop answers n := by
  induction rounds with
  | zero => exact fun _ _ _ => .pure _
  | succ rounds ih =>
    intro first answers n
    have room : Acts r (roomBefore r first) fun pool => IoBuffer.roomBefore pool first :=
      .ite (acts_makeRoom minRead) (.pure _)
    refine room.bind fun _ => Acts.load fun m o apart at_ seen => ActsAt.cap ?_
    simp only [← value_len (apart.fits r o at_)]
    obtain ⟨data, e, answers', answered⟩ : ∃ data e answers',
        answers.read last ((m.value o).buf.cap - (m.value o).buf.len) = (data, e, answers') := ⟨_, _, _, rfl⟩
    simp only [answered]
    exact (acts_extend data apart seen).next fun _ => .ite (.pure _) (.ite (ih false answers' _) (.pure _))

theorem acts_slide : Acts r (slide r) IoBuffer.slide := by
  refine Acts.load fun m o apart at_ seen => ?_
  refine ActsAt.ite ?_ (fun _ => acts_copy 0 apart seen) fun _ => Acts.pure _ apart seen
  rw [value_len (apart.fits r o at_)]
  rfl

theorem acts_readOnce (last : GoError) (conn : Bool) (answers : Answers GoError) :
    Acts r (readOnce r last conn answers) fun pool => IoBuffer.readOnce pool last conn answers :=
  acts_drained.bind fun _ => acts_slide.bind fun _ => acts_readOnceLoop last conn _ true answers 0

theorem acts_peek (n : Nat) : Acts r (peek r n) fun _ => get >>= fun b => BufM.lift (b.peek n) := by
  refine Acts.load fun m o apart at_ seen => ?_
  rw [len_value (apart.fits r o at_), IoBuffer.peek]
  by_cases short : (m.value o).len < n
  · rw [if_pos short, if_pos short]
    exact Acts.pure _ apart seen
  · rw [if_neg short, if_neg short]
    have slice : m.slice o.buf o.off (o.off + n) = (m.value o).slice (m.value o).off ((m.value o).off + n) := rfl
    cases read : (m.value o).slice (m.value o).off ((m.value o).off + n) with
    | error cause => exact ActsAt.look_panic apart seen (slice.trans read) fun _ => rfl
    | ok data => exact ActsAt.look_ok (slice.trans read) (Acts.pure _ apart seen)

/-! ### The other methods -/

theorem acts_drain (offset : Nat) : Acts r (setFields r (Object.drain offset)) fun _ => modify (IoBuffer.drain offset) := by
  refine acts_setFields fun m o fits => ?_
  have len := value_len fits
  by_cases past : int64 (o.off + offset) > o.buf.len
  · have past' : int64 ((m.value o).off + offset) > (m.value o).buf.len := len ▸ past
    constructor <;> simp only [Object.drain, IoBuffer.drain, if_pos past, if_pos past', le_rfl]
  · have past' : ¬ int64 ((m.value o).off + offset) > (m.value o).buf.len := len ▸ past
    constructor <;> simp only [Object.drain, IoBuffer.drain, if_neg past, if_neg past', le_rfl]
    rfl

theorem acts_restore : Acts r (setFields r Object.restore) fun _ => modify IoBuffer.restore := by
  refine acts_setFields fun m o _ => ?_
  by_cases marked : o.offMark ≠ resetOffMark
  · have marked' : (m.value o).offMark ≠ resetOffMark := marked
    constructor <;> simp only [Object.restore, IoBuffer.restore, if_pos marked, if_pos marked', le_rfl]
    rfl
  · have marked' : ¬ (m.value o).offMark ≠ resetOffMark := marked
    constructor <;> simp only [Object.restore, IoBuffer.restore, if_neg marked, if_neg marked', le_rfl]

theorem Acts.map {α β : Type} {p : MemM α} {q : Pool → BufM α} (acts : Acts r p q) (f : α → β) :
    Acts r (do return f (← p)) fun pool => do return f (← q pool) := acts.bind fun _ => .pure _

/-- The methods that do not give the array away. -/
def Op.Stays : Op → Prop
  | .free | .fill _ => False
  | _ => True

/-- **Every such method is that of the value.** -/
theorem acts_exec {op : Op} (stays : op.Stays) : Acts r (exec r op) fun pool => body pool op := by
  cases op with
  | write p => exact (acts_write p).map _
  | writeByte p => exact (acts_writeByte p).map _
  | append data => exact (acts_append data).map _
  | appendByte data => exact (acts_append [data]).map _
  | readFrom reader => exact (acts_readFrom reader).map _
  | readOnce last conn answers => exact (acts_readOnce last conn answers).map _
  | read n => exact (acts_read n).map _
  | readByte => exact acts_readByte.map _
  | peek n => exact (acts_peek n).map _
  | cut offset => exact (acts_cut offset).map _
  | drain offset => exact (acts_drain offset).map _
  | writeTo w => exact (acts_writeTo w).map _
  | reset =>
    refine Acts.map (acts_setFields fun m o _ => ?_) _
    exact ⟨rfl, rfl, Nat.zero_le _, value_reset m o⟩
  | mark =>
    refine Acts.map (acts_setFields fun _ _ _ => ?_) _
    exact ⟨rfl, rfl, le_rfl, rfl⟩
  | restore => exact acts_restore.map _
  | setEOF eof =>
    refine Acts.map (acts_setFields fun _ _ _ => ?_) _
    exact ⟨rfl, rfl, le_rfl, rfl⟩
  | count n =>
    exact Acts.bind (acts_setFields fun _ _ _ => ⟨rfl, rfl, le_rfl, rfl⟩) fun _ =>
      Acts.load fun m o apart at_ seen => Acts.pure _ apart seen
  | free => exact stays.elim
  | fill size => exact stays.elim

end Methods

end Strike.Shared
