/-
**The fields of an MQTT packet.**

Behind the fixed header a packet is a row of bytes, words and length-prefixed texts. `walk` measures
how far such a row reaches into given bytes, and `Follows p fields` says that a program reads exactly
that row: it returns where the row ends, and panics where the row breaks off.

* `connectFields`, `readPayload_follows`: the payload of a `Connect`, which depends on its flags, and
  the single entry of the list packets.
-/

import Strike.Mqtt.Rounds

namespace Strike.Mqtt

open Lib ReadProg

/-! ### Rows of fields -/

/-- A field on the wire. -/
inductive Field where
  | byte
  | word
  | text
  deriving DecidableEq, Repr

/-- How far a row of fields reaches: it ends, or it breaks off for lack of bytes. -/
inductive Reach where
  | ends (k : Nat)
  | breaks (k : Nat)
  deriving DecidableEq, Repr

/-- The same row, `n` bytes further on. -/
def Reach.shift (n : Nat) : Reach → Reach
  | .ends k => .ends (n + k)
  | .breaks k => .breaks (n + k)

/-- The bytes one field takes. A text whose length was read but whose bytes are not there breaks off
behind its length. -/
def Field.reach : Field → Bytes → Reach
  | .byte, [] => .breaks 0
  | .byte, _ :: _ => .ends 1
  | .word, _ :: _ :: _ => .ends 2
  | .word, _ => .breaks 0
  | .text, high :: low :: rest =>
    if rest.length < (bigEndianUint16 high low).toNat then .breaks 2
    else .ends (2 + (bigEndianUint16 high low).toNat)
  | .text, _ => .breaks 0

/-- **How far a row of fields reaches into the bytes.** -/
def walk : List Field → Bytes → Reach
  | [], _ => .ends 0
  | field :: fields, bytes => match field.reach bytes with
      | .ends k => (walk fields (bytes.drop k)).shift k
      | .breaks k => .breaks k

theorem walk_cons (field : Field) (fields : List Field) (bytes : Bytes) :
    walk (field :: fields) bytes = match field.reach bytes with
      | .ends k => (walk fields (bytes.drop k)).shift k
      | .breaks k => .breaks k := rfl

theorem walk_single (field : Field) (bytes : Bytes) : walk [field] bytes = field.reach bytes := by
  rw [walk_cons]
  cases field.reach bytes <;> rfl

@[simp] theorem shift_shift (m n : Nat) (reach : Reach) : (reach.shift n).shift m = reach.shift (m + n) := by
  cases reach <;> simp only [Reach.shift, Nat.add_assoc]

theorem shift_zero (reach : Reach) : reach.shift 0 = reach := by
  cases reach <;> simp only [Reach.shift, Nat.zero_add]

theorem walk_append (first second : List Field) : ∀ bytes, walk (first ++ second) bytes = match walk first bytes with
      | .ends k => (walk second (bytes.drop k)).shift k
      | .breaks k => .breaks k := by
  induction first with
  | nil => exact fun bytes => (shift_zero _).symm
  | cons field first ih =>
    intro bytes
    rw [List.cons_append, walk_cons, walk_cons]
    cases field.reach bytes with
    | breaks k => rfl
    | ends k =>
      simp only [ih]
      cases walk first (bytes.drop k) with
      | ends l =>
        rw [shift_shift, List.drop_drop]
        rfl
      | breaks l => rfl

/-- The row does not reach past `n` bytes. -/
def Reach.Within (n : Nat) : Reach → Prop
  | .ends k => k ≤ n
  | .breaks k => k ≤ n

theorem Reach.Within.shift {n k : Nat} {reach : Reach} (within : reach.Within (n - k)) (le : k ≤ n) :
    (reach.shift k).Within n := by
  cases reach with
  | ends l => exact (Nat.add_le_add_left within k).trans (Nat.add_sub_cancel' le).le
  | breaks l => exact (Nat.add_le_add_left within k).trans (Nat.add_sub_cancel' le).le

theorem Field.reach_within (field : Field) (bytes : Bytes) : (field.reach bytes).Within bytes.length := by
  unfold Field.reach
  split
  · exact Nat.zero_le _
  · exact Nat.succ_le_succ (Nat.zero_le _)
  · exact Nat.succ_le_succ (Nat.succ_le_succ (Nat.zero_le _))
  · exact Nat.zero_le _
  · next high low rest =>
      split
      · exact Nat.succ_le_succ (Nat.succ_le_succ (Nat.zero_le _))
      · show 2 + _ ≤ rest.length + 2
        omega
  · exact Nat.zero_le _

theorem walk_within (fields : List Field) : ∀ bytes, (walk fields bytes).Within bytes.length := by
  induction fields with
  | nil => exact fun bytes => Nat.zero_le _
  | cons field fields ih =>
    intro bytes
    have first := field.reach_within bytes
    rw [walk_cons]
    cases reach : field.reach bytes with
    | breaks k =>
      rw [reach] at first
      exact first
    | ends k =>
      rw [reach] at first
      have rest := ih (bytes.drop k)
      rw [List.length_drop] at rest
      exact rest.shift first

/-! ### Programs that read a row -/

/-- The result of a program that reads a row with this reach: it returns where the row ends, with a
value that satisfies `post` of the bytes taken, and panics where the row breaks off. -/
def Reach.Shows {α : Type} (bytes : Bytes) (post : Bytes → α → Prop)
    (result : EStateM.Result Panic MarkedQueue α) : Reach → Prop
  | .ends k => ∃ value undo, result = .ok value ⟨bytes.drop k, undo⟩ ∧ post (bytes.take k) value
  | .breaks k => ∃ cause undo, result = .error cause ⟨bytes.drop k, undo⟩

/-- **The program reads the row.** -/
def Follows {α : Type} (fields : List Field) (post : Bytes → α → Prop) (p : ReadProg α) : Prop :=
  ∀ bytes undo, (walk fields bytes).Shows bytes post (p.run (⟨bytes, undo⟩ : MarkedQueue))

section Follows

variable {α β : Type}

theorem Follows.pure {post : Bytes → α → Prop} {value : α} (holds : post [] value) : Follows [] post (pure value) :=
  fun _ undo => ⟨value, undo, rfl, holds⟩

variable {pre : Bytes → α → Prop} {post : Bytes → β → Prop} {p : ReadProg α}

theorem Follows.bind {first second : List Field} {f : α → ReadProg β} (reads : Follows first pre p)
    (goes : ∀ value taken, pre taken value →
      Follows second (fun more value' => post (taken ++ more) value') (f value)) :
    Follows (first ++ second) post (p >>= f) := by
  intro bytes undo
  have start := reads bytes undo
  rw [walk_append, run_bind]
  generalize walk first bytes = reach at start ⊢
  rcases reach with k | k
  · obtain ⟨value, undo₁, ran, holds⟩ := start
    have rest := goes value _ holds (bytes.drop k) undo₁
    rw [ran]
    simp only
    generalize walk second (bytes.drop k) = reach at rest ⊢
    rcases reach with l | l
    · obtain ⟨value', undo', ran', holds'⟩ := rest
      refine ⟨value', undo', ?_, ?_⟩
      · rw [ran', List.drop_drop]
      · rwa [List.take_add]
    · obtain ⟨cause, undo', ran'⟩ := rest
      refine ⟨cause, undo', ?_⟩
      rw [ran', List.drop_drop]
  · obtain ⟨cause, undo', ran⟩ := start
    refine ⟨cause, undo', ?_⟩
    rw [ran]

/-- A value that is put away after it was read. -/
theorem Reach.Shows.map {reach : Reach} {bytes : Bytes} {q : MarkedQueue} (shown : reach.Shows bytes pre (p.run q)) (f : α → β)
    (holds : ∀ taken value, pre taken value → post taken (f value)) :
    reach.Shows bytes post ((p >>= fun value => Pure.pure (f value)).run q) := by
  rw [run_bind]
  rcases reach with k | k
  · obtain ⟨value, undo', ran, read⟩ := shown
    refine ⟨f value, undo', ?_, holds _ value read⟩
    rw [ran]
    rfl
  · obtain ⟨cause, undo', ran⟩ := shown
    refine ⟨cause, undo', ?_⟩
    rw [ran]

theorem Reach.Shows.counted {reach : Reach} {bytes : Bytes} {undo : Option Bytes}
    {post : Bytes → α → Prop} (within : reach.Within bytes.length)
    (shown : reach.Shows bytes post (p.run (⟨bytes, undo⟩ : MarkedQueue))) :
    reach.Shows bytes (fun taken result => post taken result.1 ∧ result.2 = (taken.length : Int))
      ((ReadProg.counted p).run (⟨bytes, undo⟩ : MarkedQueue)) := by
  unfold ReadProg.counted
  rw [run_bind, run_getLen]
  simp only [run_bind]
  rcases reach with k | k
  · obtain ⟨value, undo', ran, read⟩ := shown
    refine ⟨(value, bytes.length - (bytes.drop k).length), undo', ?_, read, ?_⟩
    · rw [ran]
      rfl
    · have le : k ≤ bytes.length := within
      simp only [List.length_drop, List.length_take]
      omega
  · obtain ⟨cause, undo', ran⟩ := shown
    refine ⟨cause, undo', ?_⟩
    rw [ran]

theorem Follows.map {fields : List Field} (reads : Follows fields pre p) (f : α → β)
    (holds : ∀ taken value, pre taken value → post taken (f value)) :
    Follows fields post (p >>= fun value => Pure.pure (f value)) :=
  fun bytes undo => (reads bytes undo).map f holds

end Follows

theorem getUint8_follows : Follows [.byte] (fun taken value => taken = [value]) getUint8 := by
  intro bytes undo
  cases bytes with
  | nil => exact ⟨_, none, rfl⟩
  | cons value rest => exact ⟨value, _, rfl, rfl⟩

theorem getUint16_follows : Follows [.word] (fun taken _ => taken.length = 2) getUint16 := by
  intro bytes undo
  match bytes with
  | [] => exact ⟨_, undo, getUint16_short undo (by decide)⟩
  | [value] => exact ⟨_, undo, getUint16_short undo (Nat.lt_succ_self 1)⟩
  | high :: low :: rest => exact ⟨_, _, getUint16_cons undo high low rest, rfl⟩

theorem getString_follows : Follows [.text] (fun _ _ => True) getString := by
  intro bytes undo
  rw [walk_single]
  match bytes with
  | [] => exact ⟨_, undo, getString_short undo (by decide)⟩
  | [value] => exact ⟨_, undo, getString_short undo (Nat.lt_succ_self 1)⟩
  | high :: low :: rest =>
    have advanced : (high :: low :: rest).drop (2 + (bigEndianUint16 high low).toNat) =
        rest.drop (bigEndianUint16 high low).toNat := by
      rw [Nat.add_comm]
      rfl
    unfold Field.reach
    rw [getString_of_word]
    by_cases short : rest.length < (bigEndianUint16 high low).toNat
    · simp only [if_pos short]
      exact ⟨_, _, rfl⟩
    · simp only [if_neg short]
      by_cases empty : rest = []
      · subst empty
        rw [if_pos rfl]
        refine ⟨[], none, ?_, trivial⟩
        rw [advanced, List.drop_nil]
        rfl
      · rw [if_neg empty]
        refine ⟨rest.take (bigEndianUint16 high low).toNat, (undo.map (· ++ [high, low])).map
          (· ++ rest.take (bigEndianUint16 high low).toNat), ?_, trivial⟩
        rw [advanced]
        rfl

/-! ### The rows of the packets -/

/-- The flags byte of a `Connect` stands third from the end of its variable header. -/
def connectFlags (header : Bytes) : UInt8 := header.getD (header.length - 3) 0

/-- The flags that a `Connect` payload depends on. -/
structure Connect.Flagged (flags : UInt8) (c : Connect) : Prop where
  will : c.willFlag = decide (flags &&& 0x04 > 0)
  userName : c.userNameFlag = decide (flags &&& 0x80 > 0)
  password : c.passwordFlag = decide (flags &&& 0x40 > 0)

theorem Connect.readVariableHeader_follows (c : Connect) :
    Follows [.text, .byte, .byte, .word] (fun taken c' => c'.Flagged (connectFlags taken))
      c.readVariableHeader := by
  refine getString_follows.bind (fun protocolName name _ => ?_)
  refine getUint8_follows.bind (fun protocolLevel level is_level => ?_)
  refine getUint8_follows.bind (fun flags bits is_flags => ?_)
  refine getUint16_follows.map _ (fun alive keepAlive two => ?_)
  obtain rfl := is_level
  obtain rfl := is_flags
  have here : connectFlags (name ++ ([protocolLevel] ++ ([flags] ++ alive))) = flags := by
    have index : (name ++ ([protocolLevel] ++ ([flags] ++ alive))).length - 3 = name.length + 1 := by
      simp only [List.length_append, List.length_singleton, two]
      omega
    unfold connectFlags
    rw [index, List.getD_append_right _ _ _ _ (Nat.le_add_right _ _), Nat.add_sub_cancel_left]
    rfl
  show Connect.Flagged (connectFlags (name ++ ([protocolLevel] ++ ([flags] ++ alive)))) _
  rw [here]
  exact ⟨rfl, rfl, rfl⟩

theorem getStringIf_follows (flag : Bool) (old : Bytes) :
    Follows (if flag then [.text] else []) (fun _ _ => True) (getStringIf flag old) := by
  cases flag with
  | true => exact getString_follows
  | false => exact .pure trivial

/-- The fields of a `Connect` payload. -/
def connectFields (flags : UInt8) : List Field :=
  [.text] ++ ((if flags &&& 0x04 > 0 then [.text] else []) ++
    ((if flags &&& 0x04 > 0 then [.text] else []) ++
      ((if flags &&& 0x80 > 0 then [.text] else []) ++ (if flags &&& 0x40 > 0 then [.text] else []))))

theorem Connect.readPayload_follows {flags : UInt8} {c : Connect} (flagged : c.Flagged flags) :
    Follows (connectFields flags) (fun _ _ => True) c.readPayload := by
  have optional {flag : Bool} {bit : Prop} [Decidable bit] (is : flag = decide bit) (old : Bytes) :
      Follows (if bit then [.text] else []) (fun _ _ => True) (getStringIf flag old) := by
    have reads := getStringIf_follows flag old
    simp only [is, decide_eq_true_eq] at reads
    rwa [is]
  refine getString_follows.bind fun _ _ _ => ?_
  refine (optional flagged.will _).bind fun _ _ _ => ?_
  refine (optional flagged.will _).bind fun _ _ _ => ?_
  refine (optional flagged.userName _).bind fun _ _ _ => ?_
  exact (optional flagged.password _).map _ fun _ _ _ => trivial

theorem TopicFilter.read_follows : Follows [.text, .byte] (fun _ _ => True) TopicFilter.read :=
  getString_follows.bind fun _ _ _ => getUint8_follows.map _ fun _ _ _ => trivial

theorem Publish.readVariableHeader_follows (p : Publish) :
    Follows (if p.qos.hasId then [.text, .word] else [.text]) (fun _ _ => True)
      p.readVariableHeader := by
  unfold Publish.readVariableHeader
  cases has : p.qos.hasId with
  | true => exact getString_follows.bind fun _ _ _ => getUint16_follows.map _ fun _ _ _ => trivial
  | false => exact getString_follows.map _ fun _ _ _ => trivial

end Strike.Mqtt
