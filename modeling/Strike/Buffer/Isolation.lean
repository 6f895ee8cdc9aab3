/-
**Buffers do not share memory.**

`Isolated`: every array has one owner at most, and what the log says of a buffer, read alone, leads from nothing
to the buffer there is, by the methods of `IoBuffer`. Every call keeps this: `Keeps` is closed under sequencing,
and `keeps_record` is the rule for a method.

* `run_isolated`: so it holds in every run, with any calls in any order, and but for `Clone` also on buffers that are
  in the pool. A slice given to `NewIoBufferBytes` is one that nothing else uses.
-/

import Strike.Buffer.Acts
import Strike.Lib.Histories

namespace Strike.Shared

open Lib ByteBuffer MemM

/-- **Nobody shares an array, and the log is true of each buffer alone.** -/
structure Memory.Isolated (m : Memory) : Prop where
  apart : m.Apart
  tells : Tells Moves none m.view m.log

/-- What a method returned. -/
def outOf : Result Out → Out
  | .ok out _ => out
  | .error cause _ => .plain (.panicked cause)

/-- **A call does to a buffer what the method does to its value.** -/
def Does (r : Nat) (op : Op) (p : MemM Out) (m : Memory) : Prop :=
  ∀ ⦃v result⦄, m.view r = some v → p m = some result →
    ∃ v', Becomes r m (memoryOf result) v' ∧ ∃ pool, outcome pool op v = (outOf result, v')

section Methods

variable {r : Nat}

theorem does_of_acts {op : Op} {p : MemM Out} {m : Memory}
    (acts : ∀ v, m.view r = some v → ActsAt r m v p fun pool => body pool op) : Does r op p m := by
  intro v result seen ran
  obtain ⟨v', apart', seen', frame, -, taken, same⟩ := acts v seen result ran
  refine ⟨v', ⟨apart', frame, seen'⟩, taken, ?_⟩
  have ran' := same taken fun _ _ _ => rfl
  cases result with
  | ok out m' =>
    simp only [outcome, ran']
    rfl
  | error cause m' =>
    simp only [outcome, ran']
    rfl

/-! ### `Free` and `Alloc` -/

/-- `giveSlice`: the array goes to the pool, or stays if it never came from there. -/
theorem giveSlice_some {m : Memory} {o : Object} {result : Result Unit} (apart : m.Apart)
    (at_ : m.buffers[r]? = some o) (ran : giveSlice r m = some result) :
    ∃ m', result = .ok () m' ∧ Becomes r m m' (m.value o).giveSlice := by
  have ran := (bind_of_ok (load_of_some at_)).symm.trans ran
  cases own : o.b with
  | none =>
    have kept : (pure () : MemM Unit) m = some result := by
      rw [← ran, own]
      rfl
    cases kept
    refine ⟨m, rfl, apart, Frame.refl r m, ?_⟩
    rw [Memory.view, at_, Option.map_some, IoBuffer.giveSlice, if_neg]
    show ¬ o.b.isSome
    rw [own]
    decide
  | some p =>
    have ran : (putBytes (some p) >>= fun _ => store r { o with b := none, buf := {} }) m = some result := by
      rw [← ran, own]
      rfl
    obtain ⟨given, gave, rest⟩ := putBytes_bind ran
    cases rest
    obtain ⟨slices, counts⟩ := give_spec gave
    refine ⟨_, rfl, apart.replace at_ rfl rfl (apart.sound.give gave) (congrArg List.length slices).ge
      (fun c => .inl ?_) (fun c _ _ _ => ?_) (Nat.zero_le _) (fun p no => by cases no) ?_⟩
    · have le := apart.mark_b_le at_ c
      rw [own] at le
      have counts := counts c
      show slotted given c + mark (some c) none ≤ _
      rw [mark_of_ne (by exact fun no => by cases no)]
      omega
    · simp only [Memory.array, Memory.withBytes, Memory.setObject, slices]
    · rw [IoBuffer.giveSlice, if_pos (show (m.value o).pooled from by rw [Memory.value, own]; rfl)]
      rfl

theorem does_of_some {op : Op} {p : MemM Unit} {m : Memory} (does : ∀ ⦃o result⦄, m.buffers[r]? = some o →
    p m = some result → ∃ m' v', result = .ok () m' ∧ Becomes r m m' v' ∧
      ∃ pool, outcome pool op (m.value o) = (.plain .done, v')) :
    Does r op (do p; return .plain .done) m := by
  intro v result seen ran
  obtain ⟨o, at_, rfl⟩ := Option.map_eq_some_iff.mp seen
  rcases bind_some ran with ⟨_, m₁, began, rest⟩ | ⟨cause, m₁, stopped, -⟩
  · obtain ⟨m', v', here, changed, same⟩ := does at_ began
    cases here
    cases rest
    exact ⟨v', changed, same⟩
  · obtain ⟨m', v', no, -⟩ := does at_ stopped
    cases no

theorem does_free {m : Memory} (apart : m.Apart) : Does r .free (exec r .free) m := by
  refine does_of_some fun o result at_ ran => ?_
  obtain ⟨bound, -⟩ := List.getElem?_eq_some_iff.mp at_
  have reset : Becomes r m (m.setObject r o.reset) (m.value o.reset) := by
    refine apart.store at_ ?_ ?_ (Nat.zero_le _) <;> rfl
  have ran := (bind_of_ok ((bind_of_ok (load_of_some at_)).trans rfl)).symm.trans ran
  obtain ⟨m', rfl, apart', frame, seen⟩ :=
    giveSlice_some reset.1 (show (m.buffers.set r o.reset)[r]? = some o.reset from List.getElem?_set_self bound) ran
  refine ⟨m', _, rfl, ⟨apart', reset.2.1.trans frame, seen⟩, .fresh, ?_⟩
  rw [show (m.setObject r o.reset).value o.reset = (m.value o).reset from value_reset m o]
  rfl

theorem does_fill {m : Memory} (apart : m.Apart) (size : Int) : Does r (.fill size) (exec r (.fill size)) m := by
  refine does_of_some fun o result at_ ran => ?_
  obtain ⟨p, bytes, s, took, there, len, rest⟩ := getBytes_bind apart ran
  have loaded := load_of_some (m := m.withBytes bytes m.choices.tail) at_
  have rest := (bind_of_ok loaded).symm.trans ((bind_of_ok (look_pointee m.choices.tail there)).symm.trans rest)
  cases rest
  have array := array_of_took (m := m) m.choices.tail there
  have nothing : ∀ c, mark (some c) none ≤ mark (some c) o.buf.array := fun c => Nat.zero_le _
  have counts := took.counts le_rfl nothing fun c => Nat.le_add_right _ _
  refine ⟨_, _, rfl, apart.replace at_ rfl rfl took.sound took.length_le counts (fun c _ owned slots =>
    array_of_others took m.choices (took.ne apart owned slots)) (Nat.zero_le _) (fun q same => same) rfl, poolOf s, ?_⟩
  have taken : (poolOf s).getBytes (sized size) = s := len ▸ poolOf_len s
  show _ = (Out.plain .done, (m.withBytes bytes m.choices.tail).value { o with b := some p, buf := ⟨some p, 0⟩ })
  simp only [outcome, body, BufM.bind_apply, BufM.modify_apply, BufM.pure_apply, taken, Memory.value,
    sliceValue_eq (h := ⟨some p, 0⟩) (Nat.zero_le _), array]
  rfl

end Methods

/-! ### What a call keeps -/

section Keeping

variable {α β : Type} {m m' : Memory}

/-- **The call keeps the memory isolated.** -/
def KeepsAt (m : Memory) (p : MemM α) : Prop := ∀ result, p m = some result → (memoryOf result).Isolated

/-- The same from every memory. -/
def Keeps (p : MemM α) : Prop := ∀ ⦃m : Memory⦄, m.Isolated → KeepsAt m p

theorem KeepsAt.bind {p : MemM α} {f : α → MemM β} (first : KeepsAt m p)
    (second : ∀ value m', p m = some (.ok value m') → m'.Isolated → KeepsAt m' (f value)) : KeepsAt m (p >>= f) := by
  intro result ran
  rcases bind_some ran with ⟨value, m', began, rest⟩ | ⟨cause, m', stopped, rfl⟩
  · exact second value m' began (first _ began) result rest
  · exact first _ stopped

theorem Keeps.bind {p : MemM α} {f : α → MemM β} (first : Keeps p) (second : ∀ value, Keeps (f value)) : Keeps (p >>= f) :=
  fun _ isolated => (first isolated).bind fun value _ _ isolated' => second value isolated'

theorem keeps_pure (value : α) : Keeps (pure value : MemM α) := by
  intro m isolated result ran
  cases ran
  exact isolated

theorem keeps_look (h : Memory → Except Panic α) : Keeps (look h) := by
  intro m isolated result ran
  unfold look at ran
  split at ran
  all_goals
    cases ran
    exact isolated

theorem look_some {h : Memory → Except Panic α} {value : α} (looked : look h m = some (.ok value m')) :
    h m = .ok value ∧ m' = m := by
  unfold look at looked
  split at looked
  · next found =>
      cases looked
      exact ⟨found, rfl⟩
  · cases looked

theorem keeps_load (r : Nat) : Keeps (load r) := by
  intro m isolated result ran
  obtain ⟨o, -, rfl⟩ := Option.map_eq_some_iff.mp ran
  exact isolated

theorem Keeps.ite {c : Prop} [Decidable c] {p q : MemM α} (yes : Keeps p) (no : Keeps q) : Keeps (if c then p else q) := by
  split
  · exact yes
  · exact no

theorem Memory.Apart.note (apart : m.Apart) (r : Nat) (event : Event) : (m.note r event).Apart :=
  ⟨apart.sound, apart.fits, apart.own, apart.one, apart.known⟩

theorem record_some {r : Nat} {op : Op} {p : MemM Out} {result : Result Out}
    (ran : record r op p m = some result) : ∃ o before, m.buffers[r]? = some o ∧ p m = some before ∧
      memoryOf result = (memoryOf before).note r (.did o.off op (outOf before)) := by
  unfold record at ran
  split at ran
  · next at_ did =>
      cases ran
      exact ⟨_, _, at_, did, rfl⟩
  · next at_ did =>
      cases ran
      exact ⟨_, _, at_, did, rfl⟩
  · cases ran

/-- **A method that is written down.** -/
theorem keeps_record {r : Nat} (op : Op) {p : MemM Out} (isolated : m.Isolated)
    (fits : ∀ v, m.view r = some v → op.Fits v) (does : Does r op p m) : KeepsAt m (record r op p) := by
  intro result ran
  obtain ⟨o, before, at_, did, same⟩ := record_some ran
  have seen : m.view r = some (m.value o) := by rw [Memory.view, at_, Option.map_some]
  obtain ⟨v', ⟨apart, frame, seen'⟩, moved⟩ := does seen did
  rw [same]
  refine ⟨apart.note r _, ?_⟩
  show Tells Moves none (memoryOf before).view ((memoryOf before).log ++ [(r, _)])
  rw [frame.log]
  refine isolated.tells.note ?_ fun r' other => frame.view other
  rw [seen, seen']
  exact ⟨rfl, fits _ seen, moved⟩

/-- **A change in the pools**, which no buffer sees. -/
theorem Memory.Apart.elsewhere (apart : m.Apart) (buffers : m'.buffers = m.buffers) (sound : m'.bytes.Sound)
    (length : m.bytes.slices.length ≤ m'.bytes.slices.length) (counts : ∀ c, slotted m'.bytes c ≤ slotted m.bytes c)
    (arrays : ∀ (r : Nat) (o : Object), m.buffers[r]? = some o → m'.array o.buf.array = m.array o.buf.array) :
    m'.Apart ∧ ∀ r, m'.view r = m.view r := by
  have owners : (∀ c, m'.owners c ≤ 1) ∧ ∀ c, m'.bytes.slices.length ≤ c → m'.owners c = 0 := by
    refine one_token apart.one apart.known length fun c => .inl ?_
    simp only [Memory.owners, buffers]
    exact Nat.add_le_add_left (counts c) _
  refine ⟨⟨sound, fun r o at_ => ?_, fun r o at_ => apart.own r o (buffers ▸ at_), owners.1, owners.2⟩, fun r => ?_⟩
  · rw [buffers] at at_
    rw [arrays r o at_]
    exact apart.fits r o at_
  · unfold Memory.view
    rw [buffers]
    cases at_ : m.buffers[r]? with
    | none => rfl
    | some o => simp only [Option.map_some, Memory.value, Memory.sliceValue, arrays r o at_]

theorem Memory.Isolated.elsewhere (isolated : m.Isolated) (log : m'.log = m.log)
    (changed : m'.Apart ∧ ∀ r, m'.view r = m.view r) : m'.Isolated :=
  ⟨changed.1, log ▸ isolated.tells.silent changed.2⟩

theorem Memory.Isolated.pooled (isolated : m.Isolated) (ibPool : List Nat) (choices : List (Option Nat)) :
    ({ m with ibPool, choices } : Memory).Isolated :=
  isolated.elsewhere rfl (isolated.apart.elsewhere rfl isolated.apart.sound le_rfl (fun _ => le_rfl) fun _ _ _ => rfl)

/-! ### Slices that are taken -/

theorem Took.isolated {size p : Nat} {bytes : ByteBufferPool} (took : Took m.bytes size p bytes)
    (isolated : m.Isolated) (choices : List (Option Nat)) :
    (m.withBytes bytes choices).Isolated ∧ (m.withBytes bytes choices).owners p = 0 := by
  have apart := isolated.apart
  refine ⟨isolated.elsewhere rfl (apart.elsewhere rfl took.sound took.length_le
    took.slotted_le fun r o at_ => (apart.take at_ took choices).2), ?_⟩
  have one := apart.one p
  show tokens _ m.buffers + slotted bytes p = 0
  unfold Memory.owners at one
  rcases took.source with ⟨new, -, counts⟩ | ⟨-, -, counts⟩
  · have none_ := apart.known p new.ge
    have counts := counts p
    unfold Memory.owners at none_
    omega
  · have counts := counts p
    rw [mark_self] at counts
    omega

theorem Memory.Apart.newObject (apart : m.Apart) {o : Object} {p : Nat} (array : o.buf.array = some p)
    (inside : p < m.bytes.slices.length) (fresh : m.owners p = 0) (own : ∀ q, o.b = some q → o.buf.array = some q)
    (fits : o.buf.len ≤ (m.array o.buf.array).length) : ({ m with buffers := m.buffers ++ [o] } : Memory).Apart := by
  refine ⟨apart.sound, fun r o' at_ => ?_, fun r o' at_ => ?_, fun c => ?_, fun c large => ?_⟩
  · rcases getElem?_concat_cases at_ with at_ | ⟨-, rfl⟩
    · exact apart.fits r o' at_
    · exact fits
  · rcases getElem?_concat_cases at_ with at_ | ⟨-, rfl⟩
    · exact apart.own r o' at_
    · exact own
  · have one := apart.one c
    simp only [Memory.owners, tokens_append, tokens_cons, tokens_nil, array, mark_some] at one fresh ⊢
    by_cases same : p = c
    · subst same
      rw [mark_self]
      omega
    · rw [mark_of_ne same]
      omega
  · have none_ := apart.known c large
    have other : p ≠ c := by
      rintro rfl
      exact absurd inside (not_lt.mpr large)
    simp only [Memory.owners, tokens_append, tokens_cons, tokens_nil, array, mark_some, mark_of_ne other] at none_ ⊢
    omega

theorem view_length (m : Memory) : m.view m.buffers.length = none := by
  rw [Memory.view, List.getElem?_eq_none le_rfl, Option.map_none]

theorem view_newObject (o : Object) :
    ({ m with buffers := m.buffers ++ [o] } : Memory).view m.buffers.length = some (m.value o) ∧
      ∀ r ≠ m.buffers.length, ({ m with buffers := m.buffers ++ [o] } : Memory).view r = m.view r := by
  refine ⟨?_, fun r other => ?_⟩
  · show (m.buffers ++ [o])[m.buffers.length]?.map m.value = _
    rw [List.getElem?_concat_length, Option.map_some]
  · show (m.buffers ++ [o])[r]?.map m.value = m.buffers[r]?.map m.value
    rcases lt_or_gt_of_ne other with inside | outside
    · rw [List.getElem?_append_left inside]
    · rw [List.getElem?_eq_none (by simpa using outside), List.getElem?_eq_none outside.le]

theorem keeps_newObject (isolated : m.Isolated) {o : Object} {p : Nat} (array : o.buf.array = some p)
    (inside : p < m.bytes.slices.length) (fresh : m.owners p = 0) (own : ∀ q, o.b = some q → o.buf.array = some q)
    (fits : o.buf.len ≤ (m.array o.buf.array).length) (start : o.off = 0) : KeepsAt m (newObject o) := by
  intro result ran
  cases ran
  obtain ⟨new, others⟩ := view_newObject (m := m) o
  refine ⟨(isolated.apart.newObject array inside fresh own fits).note _ _, isolated.tells.note ?_ others⟩
  rw [view_length]
  show Moves none _ (Memory.view { m with buffers := m.buffers ++ [o] } _)
  rw [new]
  exact ⟨rfl, start⟩

theorem keeps_newIoBuffer (capacity : Int) : Keeps (newIoBuffer capacity) := by
  intro m isolated result ran
  obtain ⟨p, bytes, s, took, there, -, rest⟩ := getBytes_bind isolated.apart ran
  obtain ⟨isolated', fresh⟩ := took.isolated isolated m.choices.tail
  refine keeps_newObject isolated' ?_ took.inside fresh (fun q mine => ?_) (Nat.zero_le _) ?_ result
    ((bind_of_ok (look_pointee m.choices.tail there)).symm.trans rest)
  · rfl
  · exact mine
  · rfl

theorem keeps_newOver (s : Slice) (offMark count : Int) : Keeps (newOver s offMark count) := by
  intro m isolated result ran
  have took := took_point isolated.apart.sound s
  obtain ⟨isolated', fresh⟩ := took.isolated isolated m.choices
  refine keeps_newObject isolated' ?_ took.inside fresh (fun q no => ?_) ?_ ?_ result ran
  · rfl
  · cases no
  · show s.len ≤ ((m.withBytes (m.bytes.point s).2 m.choices).array (some (m.bytes.point s).1)).length
    rw [array_of_took (s := s) m.choices List.getElem?_concat_length]
    exact s.len_le
  · rfl

theorem keeps_keepPiece (out : Out) : Keeps (keepPiece out) := by
  unfold keepPiece
  split
  · exact (keeps_newOver _ 0 0).bind fun _ => keeps_pure ()
  · exact keeps_pure ()

/-! ### Calls -/

/-- The methods that are called by themselves. -/
def Op.Whole : Op → Prop
  | .fill _ => False
  | _ => True

/-- **A method.** -/
theorem keeps_method (r : Nat) (op : Op) (whole : op.Whole) : Keeps (method r op) := by
  intro m isolated
  have stays : op.Stays → KeepsAt m (method r op) := fun stays => by
    refine keeps_record _ isolated (fun v _ => ?_) (does_of_acts fun _ seen => acts_exec stays isolated.apart seen)
    cases op <;> trivial
  cases op with
  | free => exact keeps_record _ isolated (fun _ _ => trivial) (does_free isolated.apart)
  | fill size => exact whole.elim
  | _ => exact stays trivial

/-- The buffer behind `Free` has nothing read. -/
theorem off_of_free {r : Nat} {out : Out} (apart : m.Apart) (freed : method r .free m = some (.ok out m')) {v : IoBuffer}
    (seen : m'.view r = some v) : v.off = 0 := by
  obtain ⟨o, before, at_, did, same⟩ := record_some freed
  obtain ⟨v', ⟨-, -, seen'⟩, pool, moved⟩ := does_free apart (by rw [Memory.view, at_, Option.map_some]) did
  have same : m' = _ := same
  have seen : (memoryOf before).view r = some v := by
    rw [same] at seen
    exact seen
  obtain rfl : v = v' := Option.some.inj (seen.symm.trans seen')
  have free : (m.value o).free = v := congrArg Prod.snd moved
  rw [← free, IoBuffer.free, IoBuffer.giveSlice]
  split <;> rfl

theorem keeps_alloc (r : Nat) (size : Int) : Keeps (alloc r size) := by
  intro m isolated
  refine (keeps_load r isolated).bind fun b m₁ loaded isolated₁ => ?_
  obtain ⟨o, at_, same⟩ := Option.map_eq_some_iff.mp loaded
  cases same
  by_cases memory : b.buf.array.isSome
  · rw [if_pos memory]
    refine (keeps_method r .free trivial isolated).bind fun out m₂ freed isolated₂ => ?_
    refine (keeps_record (.fill size) isolated₂ (fun v seen => Or.inl (off_of_free isolated.apart freed seen))
      (does_fill isolated₂.apart size)).bind fun _ m₃ _ isolated₃ => keeps_pure () isolated₃
  · rw [if_neg memory]
    have empty : b.buf.array = none := Option.not_isSome_iff_eq_none.mp memory
    refine (keeps_record (.fill size) isolated (fun v seen => Or.inr ?_) (does_fill isolated.apart size)).bind
      fun _ m₂ _ isolated₂ => keeps_pure () isolated₂
    rw [Memory.view, at_, Option.map_some, Option.some.injEq] at seen
    rw [← seen, ← cap_value, empty]
    rfl

theorem fromPool_some {result : Result (Option Nat)} (ran : fromPool m = some result) :
    ∃ v rest, Got m.ibPool (v, rest) ∧ result = .ok v { m with ibPool := rest, choices := m.choices.tail } := by
  unfold fromPool at ran
  split at ran
  · cases ran
  · next v rest took => exact ⟨v, rest, got_of_takeOut took, (Option.some.inj ran).symm⟩

theorem keeps_fromPool : Keeps fromPool := by
  intro m isolated result ran
  obtain ⟨v, rest, -, rfl⟩ := fromPool_some ran
  exact isolated.pooled rest _

theorem keeps_getIoBuffer (size : Int) : Keeps (getIoBuffer size) := by
  refine keeps_fromPool.bind fun v => ?_
  cases v with
  | none => exact keeps_newIoBuffer size
  | some r =>
    refine (keeps_alloc r size).bind fun _ => ?_
    exact (keeps_method r (.count 1) trivial).bind fun _ => keeps_pure r

theorem keeps_putIoBuffer (r : Nat) : Keeps (putIoBuffer r) := by
  refine (keeps_method r (.count (-1)) trivial).bind fun _ => (keeps_load r).bind fun b => ?_
  refine Keeps.ite (keeps_pure _) (Keeps.ite (keeps_pure _) ?_)
  refine (keeps_method r .free trivial).bind fun _ => Keeps.bind (fun m isolated result ran => ?_) fun _ => keeps_pure _
  cases ran
  exact isolated.pooled _ m.choices

theorem getIoBuffer_source {size : Int} {c : Nat} (isolated : m.Isolated) (got : getIoBuffer size m = some (.ok c m')) :
    c ∈ m.ibPool ∨ c = m.buffers.length := by
  rcases bind_some got with ⟨v, m₁, began, rest⟩ | ⟨cause, m₁, -, no⟩
  · obtain ⟨v', pool, took, here⟩ := fromPool_some began
    cases here
    cases took with
    | nothing =>
      have isolated' := isolated.pooled m.ibPool m.choices.tail
      obtain ⟨p, bytes, s, -, -, -, rest⟩ := getBytes_bind isolated'.apart rest
      cases rest
      exact .inr rfl
    | object split =>
      rcases bind_some rest with ⟨_, m₂, -, rest⟩ | ⟨cause, m₂, -, no⟩
      · rcases bind_some rest with ⟨_, m₃, -, rest⟩ | ⟨cause, m₃, -, no⟩
        · cases rest
          exact .inl (split.mem_iff.mpr List.mem_cons_self)
        · cases no
      · cases no
  · cases no

/-- **`Write` of what another buffer has**, read while it is copied: the other one is not changed by making room. -/
theorem acts_writeFrom {r c : Nat} {b : Object} {p : Bytes} {v : IoBuffer} (other : r ≠ c) (apart : m.Apart)
    (at_ : m.buffers[r]? = some b) (seen : m.view c = some v) (read : m.slice b.buf b.off b.buf.len = .ok p) :
    ActsAt c m v (writeFrom c b.buf b.off b.buf.len) fun pool => body pool (.write p) := by
  have length : ((b.buf.len : Int) - b.off).toNat = p.length := by
    have fits := apart.fits r b at_
    rw [bytes_value fits] at read
    have wf := IoBuffer.wf_of_bytes read
    have size := IoBuffer.length_contents wf
    rw [IoBuffer.bytes_ok wf] at read
    cases read
    rw [IoBuffer.len, value_len fits] at size
    exact (congrArg Int.toNat size).symm.trans (Int.toNat_natCast _)
  have bodies : ∀ pool, body pool (.write p) = IoBuffer.reserve pool p.length >>= fun i => IoBuffer.store i p >>= fun _ =>
      pure (.plain (.count p.length none)) := fun pool => by
    simp only [body, IoBuffer.write, bind_assoc, pure_bind]
  simp only [bodies, writeFrom, length]
  have room := acts_reserve p.length apart seen
  refine room.bind fun i m' v' began apart' seen' => ?_
  obtain ⟨_, -, -, frame, -⟩ := room _ began
  have kept : m'.array b.buf.array = m.array b.buf.array := frame.arrays r other b at_
  refine ActsAt.look_ok (x := p) ?_ ?_
  · rw [← read]
    simp only [Memory.slice, kept]
  · exact (acts_put i p apart' seen').next fun _ => .pure _

theorem keeps_clone {r : Nat} (isolated : m.Isolated) (taken : r ∉ m.ibPool) : KeepsAt m (clone r) := by
  refine (keeps_load r isolated).bind fun b m₁ loaded isolated₁ => ?_
  obtain ⟨o, at_, same⟩ := Option.map_eq_some_iff.mp loaded
  cases same
  refine (keeps_getIoBuffer b.len isolated).bind fun c m₂ got isolated₂ => ?_
  have other : r ≠ c := by
    rintro rfl
    obtain ⟨bound, -⟩ := List.getElem?_eq_some_iff.mp at_
    rcases getIoBuffer_source isolated got with pooled | new
    · exact taken pooled
    · exact bound.ne new
  refine (keeps_load r isolated₂).bind fun b' m₃ loaded' isolated₃ => ?_
  obtain ⟨o', at', same⟩ := Option.map_eq_some_iff.mp loaded'
  cases same
  refine (keeps_look _ isolated₂).bind fun p m₄ looked isolated₄ => ?_
  obtain ⟨read, rfl⟩ := look_some looked
  refine (keeps_record (.write p) isolated₄ (fun _ _ => trivial) (does_of_acts fun v seen =>
    acts_writeFrom other isolated₄.apart at' seen read)).bind fun _ m₅ _ isolated₅ => ?_
  exact Keeps.bind (keeps_load r) (fun b => (keeps_method c (.setEOF b.eof) trivial).bind fun _ => keeps_pure c) isolated₅

end Keeping

/-! ### Whole runs -/

theorem program_method (r : Nat) {op : Op} (whole : op.Whole) :
    program (Call.method r op) = (method r op >>= keepPiece) := by
  cases op with
  | fill size => exact whole.elim
  | _ => rfl

/-- **Every call.** -/
theorem keeps_program (call : Call) : Keeps (program call) := by
  cases call with
  | method r op =>
    by_cases whole : op.Whole
    · rw [program_method r whole]
      exact (keeps_method r op whole).bind keeps_keepPiece
    · cases op with
      | fill size => exact fun _ _ _ no => by cases no
      | _ => exact absurd trivial whole
  | alloc r size => exact keeps_alloc r size
  | clone r =>
    intro m isolated result ran
    obtain ⟨taken, ran⟩ := Option.ite_none_left_eq_some.mp ran
    exact (keeps_clone isolated taken).bind (fun _ _ _ isolated' => keeps_pure () isolated') result ran
  | newIoBuffer capacity => exact (keeps_newIoBuffer capacity).bind fun _ => keeps_pure ()
  | newIoBufferBytes s => exact (keeps_newOver s resetOffMark 1).bind fun _ => keeps_pure ()
  | getIoBuffer size => exact (keeps_getIoBuffer size).bind fun _ => keeps_pure ()
  | putIoBuffer r => exact (keeps_putIoBuffer r).bind fun _ => keeps_pure ()

theorem isolated_empty : ({} : Memory).Isolated := by
  have owners : ∀ c, ({} : Memory).owners c = 0 := by
    intro c
    have slots : slotted newByteBufferPool c = 0 := by
      refine tokens_eq_zero fun slot member => ?_
      obtain ⟨j, -, rfl⟩ := List.mem_map.mp member
      rfl
    exact congrArg (0 + ·) slots
  refine ⟨⟨sound_newByteBufferPool, fun r o no => ?_, fun r o no => ?_, fun c => (owners c).le.trans (Nat.zero_le 1),
    fun c _ => owners c⟩, fun r => .nil none⟩
  · cases no
  · cases no

theorem run_keeps_isolated {m : Memory} {labels : List Label} (ran : system.run {} labels = some m) : m.Isolated := by
  refine System.run_invariant (P := Memory.Isolated) (fun {s l s'} isolated stepped => ?_) isolated_empty ran
  obtain ⟨result, called, rfl⟩ := Option.map_eq_some_iff.mp stepped
  exact keeps_program l.1 (isolated.pooled s.ibPool l.2) result called

/-- **Buffers do not share memory.** After any calls, in any order and on any buffers, but for `Clone` also on those
in the pool, whatever the pools return: what the log says of a buffer alone leads from nothing to the buffer there is, by the
methods of `IoBuffer`; and its array is that of no other buffer, and in no slot of the pool. -/
theorem run_isolated {m : Memory} {labels : List Label} (ran : system.run {} labels = some m) :
    (∀ r, Follows Moves none (own r m.log) (m.view r)) ∧
      ∀ (r : Nat) (o : Object) (c : Nat), m.buffers[r]? = some o → o.buf.array = some c →
        (∀ (r' : Nat) (o' : Object), m.buffers[r']? = some o' → o'.buf.array = some c → r' = r) ∧
          ∀ slot ∈ m.bytes.pool, c ∉ slot.pool := by
  have isolated := run_keeps_isolated ran
  refine ⟨isolated.tells, fun r o c at_ mine => ⟨fun r' o' at' theirs => ?_, fun slot member there => ?_⟩⟩
  · by_contra other
    exact isolated.apart.ne_of_ne at_ at' other theirs mine
  · have none_ := isolated.apart.not_slotted at_ mine
    have counted := weight_le_tokens (fun slot : BufferSlot => slot.pool.count c) member
    have positive := List.count_pos_iff.mpr there
    unfold slotted at none_
    omega

/-- A buffer goes back to the pool, with its slice, and both are used again, next to other buffers. -/
def reuse : List Label :=
  [(.getIoBuffer 100, [none, none]), (.method 0 (.write [1, 2, 3]), []), (.putIoBuffer 0, []), (.newIoBuffer 100, [some 0]),
    (.method 1 (.write [9]), []), (.getIoBuffer 100, [some 0, none]), (.method 0 (.write [4, 5]), []),
    (.clone 0, [none, none]), (.method 0 (.drain 1), []), (.method 2 (.read 1), []), (.method 2 (.cut 1), [])]

theorem run_isolated_reuse : ∃ m, system.run {} reuse = some m ∧ m.buffers.length = 4 ∧
    Follows Moves none (own 0 m.log) (m.view 0) := by
  have ends : ((system.run {} reuse).map fun m => m.buffers.length) = some 4 := by decide +kernel
  obtain ⟨m, ran, four⟩ := Option.map_eq_some_iff.mp ends
  exact ⟨m, ran, four, (run_isolated ran).1 0⟩

end Strike.Shared
