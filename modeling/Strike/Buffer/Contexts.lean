/-
**Pools by context** (`buffer.go`).

A context carries a record with two rows of slots, one slot for each registered kind: `value` for the objects
that were found through it, `transmit` for those it received from another context. `Give` resets them all and
puts them back, and the record goes to a pool of its own.

* `one_owner`: an object is in one place at most, and one that comes from the pool was reset since it was last
  handed out.
-/

import Strike.Go.Pools
import Strike.Go.Slice
import Strike.Lib.System
import Strike.Lib.Tokens

namespace Strike.PoolContexts

open Lib

/-- `maxBufferPool`. -/
def maxBufferPool : Nat := 16

/-- `nullBufferValue`. Objects are known by their numbers. -/
def nullBufferValue : List (Option Nat) := List.replicate maxBufferPool none

/-- `bufferValue`. -/
structure BufferValue where
  value : List (Option Nat) := nullBufferValue
  transmit : List (Option Nat) := nullBufferValue
  deriving Repr, DecidableEq

/-- `bufferPool`: whether `New` of its kind makes an object, and the objects put. -/
structure BufferPool where
  makes : Bool
  pool : List Nat := []
  deriving Repr, DecidableEq

/-- The pools of this package and the contexts. `bPool` starts at index one, with the kinds that are
registered. A record is known by its number, and `objects` says of each object whether it was reset since it
was last handed out. A context whose record was given has none. -/
structure State where
  bPool : List BufferPool := []
  vPool : List Nat := []
  records : List BufferValue := []
  objects : List Bool := []
  contexts : List (Option Nat) := []
  deriving Repr, DecidableEq

/-- The panics of this file. -/
def errOverFull : Panic := .message "bufferSize over full"

@[inherit_doc errOverFull]
def errRegister : Panic := .message "buffer should call buffer.RegisterBuffer()"

namespace State

variable (s : State)

/-- `index`. -/
def index : Nat := s.bPool.length

/-- `RegisterBuffer`. -/
def registerBuffer (makes : Bool) : Except Panic State :=
  if s.index + 1 ≥ maxBufferPool then .error errOverFull else .ok { s with bPool := s.bPool ++ [{ makes }] }

/-- `newBufferValue`, with what the pool of records returns. -/
def newBufferValue (fetch : Option Nat) : Option (Nat × State) := do
  let (v, rest) ← takeOut s.vPool fetch
  match v with
  | none => return (s.records.length, { s with records := s.records ++ [{}] })
  | some r => return (r, { s with vPool := rest })

/-- `NewBufferPoolContext`. -/
def newBufferPoolContext (fetch : Option Nat) : Option State := do
  let (r, s) ← s.newBufferValue fetch
  return { s with contexts := s.contexts ++ [some r] }

/-- `PoolContext`. A context that carries no record gets one for this call. -/
def poolContext (ctx fetch : Option Nat) : Option (Nat × State) :=
  match ctx with
  | none => s.newBufferValue fetch
  | some c => do
    let r ← (← s.contexts[c]?)
    return (r, s)

/-- The object is handed out. -/
def handOut (o : Nat) : State := { s with objects := s.objects.set o false }

/-- `Take` of the record `r`, with what the pool returns. -/
def take (r : Nat) (bv : BufferValue) (i : Nat) (choice : Option Nat) : Option (Option Nat × State) := do
  let bufferPool ← s.bPool[i - 1]?
  let (v, rest) ← takeOut bufferPool.pool choice
  match v with
  | some o =>
    let s : State := { s with
      bPool := s.bPool.set (i - 1) { bufferPool with pool := rest }
      records := s.records.set r { bv with value := bv.value.set i (some o) } }
    return (some o, s.handOut o)
  | none =>
    let o := if bufferPool.makes then some s.objects.length else none
    return (o, { s with
      objects := if bufferPool.makes then s.objects ++ [false] else s.objects
      records := s.records.set r { bv with value := bv.value.set i o } })

/-- `PoolContext(ctx).Find`, of the kind with index `i`. -/
def find (ctx : Option Nat) (i : Int) (fetch choice : Option Nat) : Option (Except Panic (Option Nat) × State) := do
  let (r, s) ← s.poolContext ctx fetch
  let bv ← s.records[r]?
  if i ≤ 0 ∨ i > s.index then return (.error errRegister, s)
  else
    match bv.value[i.toNat]?.join with
    | some o => return (.ok (some o), s.handOut o)
    | none => do
      let (o, s) ← s.take r bv i.toNat choice
      return (.ok o, s)

/-- `TransmitBufferPoolContext`. -/
def transmitBufferPoolContext (dst src fetchDst fetchSrc : Option Nat) : Option State := do
  let (r, s) ← s.poolContext src fetchSrc
  let sValue ← s.records[r]?
  if sValue.value = nullBufferValue then return s
  else
    let (d, s) ← s.poolContext dst fetchDst
    let dValue ← s.records[d]?
    let records := s.records.set d { dValue with transmit := sValue.value }
    -- the two may be one record
    let sValue ← records[r]?
    return { s with records := records.set r { sValue with value := nullBufferValue } }

/-- `give` of the pool of a kind, for the object in a slot. -/
def giveSlot (i : Nat) : (slot : Option Nat) → State
  | none => s
  | some o =>
    match s.bPool[i - 1]? with
    | none => s
    | some bufferPool =>
      { s with
        objects := s.objects.set o true
        bPool := s.bPool.set (i - 1) { bufferPool with pool := bufferPool.pool ++ [o] } }

/-- The loop of `Give`, with the rounds left. -/
def giveLoop (bv : BufferValue) : (rounds i : Nat) → State → State
  | 0, _, s => s
  | rounds + 1, i, s => giveLoop bv rounds (i + 1) ((s.giveSlot i bv.value[i]?.join).giveSlot i bv.transmit[i]?.join)

/-- The contexts after one of them gave its record. -/
def without (ctx : Option Nat) : List (Option Nat) :=
  match ctx with
  | none => s.contexts
  | some c => s.contexts.set c none

/-- `PoolContext(ctx).Give`. -/
def give (ctx fetch : Option Nat) : Option State := do
  let (r, s) ← s.poolContext ctx fetch
  let bv ← s.records[r]?
  if s.index = 0 then return { s with contexts := s.without ctx }
  else
    let s := giveLoop bv s.index 1 s
    return { s with records := s.records.set r {}, vPool := s.vPool ++ [r], contexts := s.without ctx }

end State

/-- A call. A context that carries no record is `none`. -/
inductive Call where
  | registerBuffer (makes : Bool)
  | newBufferPoolContext (fetch : Option Nat)
  | find (ctx : Option Nat) (i : Int) (fetch choice : Option Nat)
  | transmit (dst src fetchDst fetchSrc : Option Nat)
  | give (ctx fetch : Option Nat)
  deriving Repr, DecidableEq

/-- One call. A program whose registration panics does not start. -/
def State.step (s : State) : Call → Option State
  | .registerBuffer makes => (s.registerBuffer makes).toOption
  | .newBufferPoolContext fetch => s.newBufferPoolContext fetch
  | .find ctx i fetch choice => (s.find ctx i fetch choice).map Prod.snd
  | .transmit dst src fetchDst fetchSrc => s.transmitBufferPoolContext dst src fetchDst fetchSrc
  | .give ctx fetch => s.give ctx fetch

/-- The calls as a system. -/
def system : System State Call := ⟨State.step⟩

/-- A place for an object: the `k`-th of the pool of a kind, or a slot of a context. -/
inductive Place where
  | pool (i k : Nat)
  | value (c i : Nat)
  | transmit (c i : Nat)
  deriving Repr, DecidableEq

/-- The record of a context. -/
def State.recordOf (s : State) (c : Nat) : Option BufferValue := do
  let r ← (← s.contexts[c]?)
  s.records[r]?

/-- The object in a place. -/
def State.atPlace (s : State) : Place → Option Nat
  | .pool i k => do (← s.bPool[i]?).pool[k]?
  | .value c i => do (← (← s.recordOf c).value[i]?)
  | .transmit c i => do (← (← s.recordOf c).transmit[i]?)

/-! ### Tokens -/

/-- The slots of a record with the object. -/
def BufferValue.holds (o : Nat) (bv : BufferValue) : Nat :=
  tokens (mark (some o)) bv.value + tokens (mark (some o)) bv.transmit

/-- How often the object is in a pool. -/
def BufferPool.holds (o : Nat) (bufferPool : BufferPool) : Nat := tokens (mark o) bufferPool.pool

namespace State

/-- How often the object is in pools. -/
def pooled (o : Nat) (s : State) : Nat := tokens (BufferPool.holds o) s.bPool

/-- How often the object is in slots. -/
def slotted (o : Nat) (s : State) : Nat := tokens (BufferValue.holds o) s.records

/-- How often the record is in the pool of records or belongs to a context. -/
def claims (r : Nat) (s : State) : Nat := tokens (mark r) s.vPool + tokens (mark (some r)) s.contexts

/-- Every object in a pool was reset. -/
def Clean (s : State) : Prop := ∀ o, 0 < s.pooled o → s.objects[o]? = some true

/-- **Objects and records have one place.** -/
structure Owned (s : State) : Prop where
  one : ∀ o, s.pooled o + s.slotted o ≤ 1
  made : ∀ o, 0 < s.pooled o + s.slotted o → o < s.objects.length
  record : ∀ r, s.claims r ≤ 1
  known : ∀ r, 0 < s.claims r → r < s.records.length
  clean : s.Clean

@[simp] theorem holds_null (o : Nat) : BufferValue.holds o {} = 0 := by
  have none_ : tokens (mark (some o)) nullBufferValue = 0 := tokens_eq_zero fun slot member => by
    rw [List.eq_of_mem_replicate member]
    exact mark_of_ne (Option.some_ne_none o).symm
  rw [BufferValue.holds, none_]

variable {s s' : State} {r : Nat}

theorem Owned.of_le (owned : s.Owned) (holds : ∀ o, s'.pooled o + s'.slotted o ≤ s.pooled o + s.slotted o)
    (claims : ∀ r, s'.claims r ≤ s.claims r) (objects : s.objects.length ≤ s'.objects.length)
    (records : s.records.length ≤ s'.records.length) (clean : s'.Clean) :
    s'.Owned where
  one o := (holds o).trans (owned.one o)
  made o there := (owned.made o (there.trans_le (holds o))).trans_le objects
  record r := (claims r).trans (owned.record r)
  known r there := (owned.known r (there.trans_le (claims r))).trans_le records
  clean := clean

/-! ### Records -/

/-- A record was fetched for a call: nothing else has it, and no object moved. -/
structure Fetched (s : State) (ctx : Option Nat) (r : Nat) (s' : State) : Prop where
  owned : s'.Owned
  bPool : s'.bPool = s.bPool
  objects : s'.objects = s.objects
  contexts : s'.contexts = s.contexts
  records : ∀ (r' : Nat) (bv : BufferValue), s.records[r']? = some bv → s'.records[r']? = some bv
  known : r < s'.records.length
  own : (ctx = none ∧ s'.claims r = 0) ∨ ∃ c, ctx = some c ∧ s'.contexts[c]? = some (some r)

theorem Owned.newBufferValue (owned : s.Owned) {fetch : Option Nat}
    (got : s.newBufferValue fetch = some (r, s')) : Fetched s none r s' := by
  obtain ⟨⟨v, rest⟩, took, got⟩ := Option.bind_eq_some_iff.mp got
  cases got_of_takeOut took with
  | nothing =>
    cases got
    refine ⟨owned.of_le (fun o => ?_) (fun r => le_rfl) le_rfl ?_ owned.clean, rfl, rfl, rfl, fun r' bv found => ?_, ?_,
      .inl ⟨rfl, ?_⟩⟩
    · simp [pooled, slotted]
    · simp
    · obtain ⟨bound, -⟩ := List.getElem?_eq_some_iff.mp found
      rwa [List.getElem?_append_left bound]
    · simp
    · by_contra there
      exact (owned.known _ (Nat.pos_of_ne_zero there)).false
  | object split =>
    cases got
    have moved : ∀ x, tokens (mark x) rest + mark x r = tokens (mark x) s.vPool := by
      intro x
      rw [tokens_perm _ split, tokens_cons, Nat.add_comm]
    have one := owned.record r
    have self := moved r
    rw [mark_self] at self
    refine ⟨owned.of_le (fun o => le_rfl) (fun x => ?_) le_rfl le_rfl owned.clean, rfl, rfl, rfl, fun _ _ found => found, ?_,
      .inl ⟨rfl, ?_⟩⟩
    · have := moved x
      simp only [claims]
      omega
    · refine owned.known r ?_
      simp only [claims]
      omega
    · simp only [claims] at one ⊢
      omega

theorem Owned.poolContext (owned : s.Owned) {ctx fetch : Option Nat}
    (got : s.poolContext ctx fetch = some (r, s')) : Fetched s ctx r s' := by
  cases ctx with
  | none => exact owned.newBufferValue got
  | some c =>
    obtain ⟨slot, at_, got⟩ := Option.bind_eq_some_iff.mp got
    obtain ⟨r', rfl, got⟩ := Option.bind_eq_some_iff.mp got
    cases got
    refine ⟨owned, rfl, rfl, rfl, fun _ _ found => found, owned.known r ?_, .inr ⟨c, rfl, at_⟩⟩
    have := weight_le_tokens (mark (some r)) (List.mem_of_getElem? at_)
    rw [mark_self] at this
    exact this.trans (Nat.le_add_left _ _)

/-! ### Objects -/

variable {s : State} {bv : BufferValue}

theorem slotted_setValue (at_ : s.records[r]? = some bv) (i : Nat) (slot : Option Nat) (x : Nat) :
    tokens (BufferValue.holds x) (s.records.set r { bv with value := bv.value.set i slot }) ≤
      s.slotted x + mark (some x) slot := by
  have records := tokens_set (BufferValue.holds x) at_ { bv with value := bv.value.set i slot }
  have slots := tokens_set_le (mark (some x)) bv.value i slot
  simp only [slotted, BufferValue.holds] at *
  omega

theorem holds_pos {i o : Nat}
    (slot : bv.value[i]?.join = some o ∨ bv.transmit[i]?.join = some o) : 0 < bv.holds o := by
  have held : ∀ {row : List (Option Nat)}, row[i]?.join = some o → 0 < tokens (mark (some o)) row := by
    intro row there
    have member : some o ∈ row := List.mem_of_getElem? (Option.join_eq_some_iff.mp there)
    have one := weight_le_tokens (mark (some o)) member
    rwa [mark_self] at one
  unfold BufferValue.holds
  rcases slot with there | there
  · exact Nat.add_pos_left (held there) _
  · exact Nat.add_pos_right _ (held there)

theorem holds_le_slotted (at_ : s.records[r]? = some bv) (o : Nat) :
    bv.holds o ≤ s.slotted o := weight_le_tokens _ (List.mem_of_getElem? at_)

theorem Owned.place (owned : s.Owned) (at_ : s.records[r]? = some bv) (i : Nat)
    {o : Nat} (made : o < s.objects.length) (free : s.pooled o + s.slotted o = 0) :
    Owned { s with records := s.records.set r { bv with value := bv.value.set i (some o) } } := by
  have slots : ∀ x, tokens (BufferValue.holds x) (s.records.set r { bv with value := bv.value.set i (some o) }) ≤
      s.slotted x + mark x o := fun x => mark_some x o ▸ slotted_setValue at_ i (some o) x
  refine ⟨fun x => ?_, fun x there => ?_, owned.record, fun x there => ?_, owned.clean⟩
  · refine (Nat.add_le_add_left (slots x) _).trans ?_
    by_cases same : o = x
    · subst same
      rw [mark_self]
      show s.pooled o + (s.slotted o + 1) ≤ 1
      omega
    · rw [mark_of_ne same]
      exact owned.one x
  · by_cases same : o = x
    · exact same ▸ made
    · refine owned.made x (there.trans_le ((Nat.add_le_add_left (slots x) _).trans ?_))
      rw [mark_of_ne same]
      exact le_rfl
  · rw [List.length_set]
    exact owned.known x there

theorem Owned.clear (owned : s.Owned) (at_ : s.records[r]? = some bv) (i : Nat) :
    Owned { s with records := s.records.set r { bv with value := bv.value.set i none } } := by
  refine owned.of_le (fun x => Nat.add_le_add_left ?_ _) (fun _ => le_rfl) le_rfl ?_ owned.clean
  · have slots := slotted_setValue at_ i none x
    rwa [mark_of_ne (Option.some_ne_none x).symm] at slots
  · rw [List.length_set]

/-- An object that is in no pool is handed out. -/
theorem Owned.handOut (owned : s.Owned) {o : Nat} (free : s.pooled o = 0) : (s.handOut o).Owned := by
  refine owned.of_le (fun _ => le_rfl) (fun _ => le_rfl) ?_ le_rfl fun x there => ?_
  · exact (List.length_set).ge
  · have other : o ≠ x := by
      rintro rfl
      exact there.ne' free
    exact (List.getElem?_set_ne other).trans (owned.clean x there)

theorem Owned.takeOut (owned : s.Owned) {i o : Nat} {bufferPool : BufferPool} {rest : List Nat}
    (found : s.bPool[i]? = some bufferPool) (split : bufferPool.pool.Perm (o :: rest)) :
    let t : State := { s with bPool := s.bPool.set i { bufferPool with pool := rest } }
    t.Owned ∧ t.pooled o + t.slotted o = 0 ∧ o < t.objects.length := by
  intro t
  have moved : ∀ x, t.pooled x + mark x o = s.pooled x := by
    intro x
    have pools := tokens_set (BufferPool.holds x) found { bufferPool with pool := rest }
    have pool : bufferPool.holds x = mark x o + tokens (mark x) rest := by
      rw [BufferPool.holds, tokens_perm _ split, tokens_cons]
    have rest : BufferPool.holds x { bufferPool with pool := rest } = tokens (mark x) rest := rfl
    simp only [pooled, t]
    omega
  have here := moved o
  have one := owned.one o
  rw [mark_self] at here
  refine ⟨owned.of_le (fun x => ?_) (fun _ => le_rfl) le_rfl le_rfl fun x there => ?_, ?_, ?_⟩
  · have := moved x
    exact Nat.add_le_add_right (by omega) _
  · have := moved x
    exact owned.clean x (by omega)
  · show t.pooled o + s.slotted o = 0
    omega
  · exact owned.made o (by omega)

theorem Owned.make (owned : s.Owned) : let t : State := { s with objects := s.objects ++ [false] }
    t.Owned ∧ t.pooled s.objects.length + t.slotted s.objects.length = 0 ∧ s.objects.length < t.objects.length := by
  intro t
  have more : t.objects.length = s.objects.length + 1 := List.length_append
  refine ⟨owned.of_le (fun _ => le_rfl) (fun _ => le_rfl) (by omega) le_rfl fun x there => ?_, ?_, by omega⟩
  · have bound : x < s.objects.length := owned.made x (Nat.lt_add_right _ there)
    exact (List.getElem?_append_left bound).trans (owned.clean x there)
  · by_contra there
    exact (owned.made _ (Nat.pos_of_ne_zero there)).false

theorem Owned.take (owned : s.Owned) (at_ : s.records[r]? = some bv)
    {i : Nat} {choice o : Option Nat} (took : s.take r bv i choice = some (o, s')) : s'.Owned := by
  obtain ⟨bufferPool, found, took⟩ := Option.bind_eq_some_iff.mp took
  obtain ⟨⟨v, rest⟩, got, took⟩ := Option.bind_eq_some_iff.mp took
  cases got_of_takeOut got with
  | @object o rest split =>
    cases took
    obtain ⟨owned, free, made⟩ := owned.takeOut found split
    exact (owned.place at_ i made free).handOut (Nat.eq_zero_of_add_eq_zero_right free)
  | nothing =>
    cases took
    cases makes : bufferPool.makes with
    | false => exact owned.clear at_ i
    | true =>
      obtain ⟨owned, free, made⟩ := owned.make
      exact owned.place at_ i made free

theorem Owned.find (owned : s.Owned) {ctx fetch choice : Option Nat} {i : Int}
    {found : Except Panic (Option Nat)} (ran : s.find ctx i fetch choice = some (found, s')) : s'.Owned := by
  obtain ⟨⟨r, t⟩, got, ran⟩ := Option.bind_eq_some_iff.mp ran
  have fetched := owned.poolContext got
  obtain ⟨bv, at_, ran⟩ := Option.bind_eq_some_iff.mp ran
  split at ran
  · cases ran
    exact fetched.owned
  · split at ran
    · next o slot =>
        cases ran
        have held : 0 < bv.holds o := holds_pos (.inl slot)
        have record := holds_le_slotted at_ o
        have one := fetched.owned.one o
        exact fetched.owned.handOut (by omega)
    · obtain ⟨⟨o, t'⟩, took, ran⟩ := Option.bind_eq_some_iff.mp ran
      cases ran
      exact fetched.owned.take at_ took

/-! ### Transmitting and giving -/

theorem Owned.transmitBufferPoolContext (owned : s.Owned) {dst src fetchDst fetchSrc : Option Nat}
    (ran : s.transmitBufferPoolContext dst src fetchDst fetchSrc = some s') : s'.Owned := by
  obtain ⟨⟨r, t⟩, got, ran⟩ := Option.bind_eq_some_iff.mp ran
  have source := owned.poolContext got
  obtain ⟨sValue, at_r, ran⟩ := Option.bind_eq_some_iff.mp ran
  split at ran
  · cases ran
    exact source.owned
  · obtain ⟨⟨d, u⟩, got, ran⟩ := Option.bind_eq_some_iff.mp ran
    have destination := source.owned.poolContext got
    obtain ⟨dValue, at_d, ran⟩ := Option.bind_eq_some_iff.mp ran
    obtain ⟨again, reread, ran⟩ := Option.bind_eq_some_iff.mp ran
    cases ran
    have at_r := destination.records r sValue at_r
    refine destination.owned.of_le (fun x => Nat.add_le_add_left ?_ _) (fun _ => le_rfl) le_rfl ?_ destination.owned.clean
    · have null : tokens (mark (some x)) nullBufferValue = 0 := (Nat.add_eq_zero_iff.mp (holds_null x)).1
      have first := tokens_set (BufferValue.holds x) at_d { dValue with transmit := sValue.value }
      have second := tokens_set (BufferValue.holds x) reread { again with value := nullBufferValue }
      rcases getElem?_set_cases reread with ⟨rfl, rfl⟩ | ⟨other, same⟩
      · obtain rfl := Option.some.inj (at_r.symm.trans at_d)
        simp only [slotted, BufferValue.holds] at *
        omega
      · obtain rfl := Option.some.inj (at_r.symm.trans same)
        simp only [slotted, BufferValue.holds] at *
        omega
    · rw [List.length_set, List.length_set]

/-- Objects go back to pools, and nothing else changes. -/
structure Gave (s s' : State) : Prop where
  records : s'.records = s.records
  vPool : s'.vPool = s.vPool
  contexts : s'.contexts = s.contexts
  objects : s'.objects.length = s.objects.length

theorem gave_giveSlot (s : State) (i : Nat) (slot : Option Nat) : Gave s (s.giveSlot i slot) := by
  cases slot with
  | none => exact ⟨rfl, rfl, rfl, rfl⟩
  | some o =>
    cases found : s.bPool[i - 1]? with
    | none =>
      simp only [giveSlot, found]
      exact ⟨rfl, rfl, rfl, rfl⟩
    | some bufferPool =>
      simp only [giveSlot, found]
      exact ⟨rfl, rfl, rfl, List.length_set⟩

theorem pooled_giveSlot (s : State) (i : Nat) (slot : Option Nat) (x : Nat) :
    (s.giveSlot i slot).pooled x ≤ s.pooled x + mark (some x) slot := by
  cases slot with
  | none => exact Nat.le_add_right _ _
  | some o =>
    cases found : s.bPool[i - 1]? with
    | none =>
      simp only [giveSlot, found]
      exact Nat.le_add_right _ _
    | some bufferPool =>
      have pools := tokens_set (BufferPool.holds x) found { bufferPool with pool := bufferPool.pool ++ [o] }
      have pool : BufferPool.holds x { bufferPool with pool := bufferPool.pool ++ [o] } = bufferPool.holds x + mark x o := by
        simp [BufferPool.holds]
      simp only [giveSlot, found, mark_some, pooled]
      omega

theorem Clean.giveSlot (clean : s.Clean) (i : Nat) {slot : Option Nat}
    (made : ∀ o ∈ slot, o < s.objects.length) : (s.giveSlot i slot).Clean := by
  cases slot with
  | none => exact clean
  | some o =>
    intro x there
    have moved := pooled_giveSlot s i (some o) x
    rw [mark_some] at moved
    cases found : s.bPool[i - 1]? with
    | none =>
      simp only [State.giveSlot, found] at there ⊢
      exact clean x there
    | some bufferPool =>
      have objects : (s.giveSlot i (some o)).objects = s.objects.set o true := by simp only [State.giveSlot, found]
      rw [objects]
      by_cases same : o = x
      · exact same ▸ List.getElem?_set_self (made o rfl)
      · rw [mark_of_ne same] at moved
        exact (List.getElem?_set_ne same).trans (clean x (by omega))

theorem Gave.trans {s t u : State} (first : Gave s t) (second : Gave t u) : Gave s u :=
  ⟨second.records.trans first.records, second.vPool.trans first.vPool, second.contexts.trans first.contexts,
    second.objects.trans first.objects⟩

theorem tokens_drop (row : List (Option Nat)) (i x : Nat) : tokens (mark (some x)) (row.drop i) =
      mark (some x) row[i]?.join + tokens (mark (some x)) (row.drop (i + 1)) := by
  by_cases inside : i < row.length
  · rw [List.drop_eq_getElem_cons inside, tokens_cons, List.getElem?_eq_getElem inside, Option.join_some]
  · have none_ : mark (some x) (none : Option Nat) = 0 := mark_of_ne (Option.some_ne_none x).symm
    rw [List.drop_of_length_le (by omega), List.drop_of_length_le (by omega), List.getElem?_eq_none (by omega), tokens_nil,
      Option.join_none, none_]

/-- **The loop of `Give`.** It puts what the slots from `i` on hold, each once. -/
theorem giveLoop_spec (bv : BufferValue) (rounds : Nat) :
    ∀ (i : Nat) {s : State}, s.Clean → (∀ o, 0 < bv.holds o → o < s.objects.length) →
      Gave s (giveLoop bv rounds i s) ∧ (giveLoop bv rounds i s).Clean ∧
        ∀ x, (giveLoop bv rounds i s).pooled x ≤
          s.pooled x + tokens (mark (some x)) (bv.value.drop i) + tokens (mark (some x)) (bv.transmit.drop i) := by
  induction rounds with
  | zero =>
    intro i s clean _
    exact ⟨⟨rfl, rfl, rfl, rfl⟩, clean, fun x => by rw [giveLoop]; omega⟩
  | succ rounds ih =>
    intro i s clean made
    have first := gave_giveSlot s i bv.value[i]?.join
    have value : ∀ o ∈ bv.value[i]?.join, o < s.objects.length := fun o there => made o (holds_pos (.inl there))
    have transmit : ∀ o ∈ bv.transmit[i]?.join, o < (s.giveSlot i bv.value[i]?.join).objects.length :=
      fun o there => first.objects.symm ▸ made o (holds_pos (.inr there))
    have second := gave_giveSlot (s.giveSlot i bv.value[i]?.join) i bv.transmit[i]?.join
    have both := first.trans second
    obtain ⟨gave, kept, bound⟩ := ih (i + 1) ((clean.giveSlot i value).giveSlot i transmit) (both.objects.symm ▸ made)
    refine ⟨both.trans gave, kept, fun x => ?_⟩
    have := bound x
    have := pooled_giveSlot s i bv.value[i]?.join x
    have := pooled_giveSlot (s.giveSlot i bv.value[i]?.join) i bv.transmit[i]?.join x
    rw [giveLoop, tokens_drop bv.value i, tokens_drop bv.transmit i]
    omega

theorem tokens_drop_le (row : List (Option Nat)) (i x : Nat) :
    tokens (mark (some x)) (row.drop i) ≤ tokens (mark (some x)) row := by
  have parts : tokens (mark (some x)) (row.take i ++ row.drop i) = tokens (mark (some x)) row := by
    rw [List.take_append_drop]
  rw [tokens_append] at parts
  omega

theorem Fetched.without {s t : State} {ctx : Option Nat} (fetched : Fetched s ctx r t) (x : Nat) :
    tokens (mark (some x)) (t.without ctx) ≤ tokens (mark (some x)) t.contexts ∧
      (t.claims x = tokens (mark x) t.vPool + tokens (mark (some x)) (t.without ctx) + mark x r ∨
        x = r ∧ tokens (mark x) t.vPool + tokens (mark (some x)) (t.without ctx) = 0) := by
  rcases fetched.own with ⟨rfl, free⟩ | ⟨c, rfl, at_⟩
  · refine ⟨le_rfl, ?_⟩
    by_cases same : r = x
    · exact .inr ⟨same.symm, same ▸ free⟩
    · exact .inl (by rw [mark_of_ne same]; rfl)
  · have moved := tokens_set (mark (some x)) at_ none
    rw [mark_some, mark_of_ne (Option.some_ne_none x).symm] at moved
    simp only [State.without, claims]
    exact ⟨by omega, .inl (by omega)⟩

theorem Owned.claimed (owned : s.Owned) {r x n : Nat} (known : r < s.records.length)
    (moved : s.claims x = n + mark x r ∨ x = r ∧ n = 0) : n + mark x r ≤ 1 ∧ (0 < n + mark x r → x < s.records.length) := by
  rcases moved with same | ⟨rfl, rfl⟩
  · exact ⟨same ▸ owned.record x, fun there => owned.known x (same ▸ there)⟩
  · exact ⟨by rw [mark_self], fun _ => known⟩

theorem Owned.give (owned : s.Owned) {ctx fetch : Option Nat} (gave : s.give ctx fetch = some s') : s'.Owned := by
  obtain ⟨⟨r, t⟩, got, gave⟩ := Option.bind_eq_some_iff.mp gave
  have fetched := owned.poolContext got
  have owned := fetched.owned
  obtain ⟨bv, at_, gave⟩ := Option.bind_eq_some_iff.mp gave
  have held : ∀ o, bv.holds o ≤ t.slotted o := holds_le_slotted at_
  split at gave
  · cases gave
    refine owned.of_le (fun _ => le_rfl) (fun x => ?_) le_rfl le_rfl owned.clean
    exact Nat.add_le_add_left (fetched.without x).1 _
  · obtain ⟨loop, clean, put⟩ :=
      giveLoop_spec bv t.index 1 owned.clean fun o there => owned.made o (Nat.lt_add_left _ (there.trans_le (held o)))
    cases gave
    -- what the pools gain is what the record held
    have moved : ∀ x, (giveLoop bv t.index 1 t).pooled x + tokens (BufferValue.holds x) (t.records.set r {}) ≤
        t.pooled x + t.slotted x := by
      intro x
      have bound := put x
      have value := tokens_drop_le bv.value 1 x
      have transmit := tokens_drop_le bv.transmit 1 x
      have records := tokens_set (BufferValue.holds x) at_ {}
      rw [holds_null] at records
      simp only [slotted, BufferValue.holds] at *
      omega
    generalize giveLoop bv t.index 1 t = u at *
    obtain ⟨bPool, vPool, records, objects, contexts⟩ := u
    obtain ⟨rfl, rfl, rfl, lengths⟩ := loop
    have add_put : ∀ x, tokens (mark x) (t.vPool ++ [r]) + tokens (mark (some x)) (t.without ctx) =
        tokens (mark x) t.vPool + tokens (mark (some x)) (t.without ctx) + mark x r := by
      intro x
      rw [tokens_append, tokens_cons, tokens_nil]
      omega
    refine ⟨fun x => (moved x).trans (owned.one x), fun x there => ?_, fun x => ?_, fun x there => ?_, clean⟩
    · exact lengths ▸ owned.made x (there.trans_le (moved x))
    · refine le_of_eq_of_le ?_ (owned.claimed fetched.known (fetched.without x).2).1
      exact add_put x
    · rw [List.length_set]
      exact (owned.claimed fetched.known (fetched.without x).2).2 (there.trans_eq (add_put x))

/-! ### Calls -/

theorem Owned.newBufferPoolContext (owned : s.Owned) {fetch : Option Nat}
    (made : s.newBufferPoolContext fetch = some s') : s'.Owned := by
  obtain ⟨⟨r, t⟩, got, made⟩ := Option.bind_eq_some_iff.mp made
  obtain ⟨owned, -, -, -, -, known, ⟨-, free⟩ | ⟨c, no, -⟩⟩ := owned.newBufferValue got
  · cases made
    have claimed : ∀ x, t.claims x + mark x r ≤ 1 ∧ (0 < t.claims x + mark x r → x < t.records.length) := by
      intro x
      refine owned.claimed known ?_
      by_cases same : r = x
      · exact .inr ⟨same.symm, same ▸ free⟩
      · exact .inl (by rw [mark_of_ne same, Nat.add_zero])
    have add_new : ∀ x, claims x { t with contexts := t.contexts ++ [some r] } = t.claims x + mark x r := by
      intro x
      simp [claims, Nat.add_assoc]
    exact ⟨owned.one, owned.made, fun x => (add_new x).trans_le (claimed x).1,
      fun x there => (claimed x).2 (there.trans_eq (add_new x)), owned.clean⟩
  · cases no

theorem Owned.registerBuffer (owned : s.Owned) {makes : Bool} (registered : s.registerBuffer makes = .ok s') :
    s'.Owned := by
  unfold State.registerBuffer at registered
  split at registered
  · cases registered
  · cases registered
    have same : ∀ x, tokens (BufferPool.holds x) (s.bPool ++ [⟨makes, []⟩]) = s.pooled x := by
      intro x
      simp [pooled, BufferPool.holds]
    exact owned.of_le (fun x => Nat.add_le_add_right (same x).le _) (fun _ => le_rfl) le_rfl le_rfl
      fun x there => owned.clean x (there.trans_eq (same x))

/-- **One call.** -/
theorem step_owned {call : Call} (owned : s.Owned) (stepped : s.step call = some s') : s'.Owned := by
  cases call with
  | registerBuffer makes =>
    cases registered : s.registerBuffer makes with
    | error panic =>
      rw [State.step, registered] at stepped
      cases stepped
    | ok t =>
      rw [State.step, registered] at stepped
      cases stepped
      exact owned.registerBuffer registered
  | newBufferPoolContext fetch => exact owned.newBufferPoolContext stepped
  | find ctx i fetch choice =>
    obtain ⟨⟨found, t⟩, ran, rfl⟩ := Option.map_eq_some_iff.mp stepped
    exact owned.find ran
  | transmit dst src fetchDst fetchSrc => exact owned.transmitBufferPoolContext stepped
  | give ctx fetch => exact owned.give stepped

/-! ### Places -/

theorem Owned.same_record (owned : s.Owned) {o c c' : Nat} {bv bv' : BufferValue} (first : s.recordOf c = some bv)
    (second : s.recordOf c' = some bv') (holds : 0 < bv.holds o) (holds' : 0 < bv'.holds o) : c = c' ∧ bv = bv' := by
  obtain ⟨slot, at_c, first⟩ := Option.bind_eq_some_iff.mp first
  obtain ⟨r, rfl, at_r⟩ := Option.bind_eq_some_iff.mp first
  obtain ⟨slot', at_c', second⟩ := Option.bind_eq_some_iff.mp second
  obtain ⟨r', rfl, at_r'⟩ := Option.bind_eq_some_iff.mp second
  have one : s.slotted o ≤ 1 := (Nat.le_add_left _ _).trans (owned.one o)
  obtain rfl := eq_of_tokens_le_one one at_r at_r' holds holds'
  have claims : tokens (mark (some r)) s.contexts ≤ 1 := (Nat.le_add_left _ _).trans (owned.record r)
  have marked : 0 < mark (some r) (some r) := mark_pos.mpr rfl
  exact ⟨eq_of_tokens_le_one claims at_c at_c' marked marked, Option.some.inj (at_r.symm.trans at_r')⟩

theorem Owned.record_le_one (owned : s.Owned) {c : Nat} (found : s.recordOf c = some bv)
    (o : Nat) : bv.holds o ≤ 1 := by
  obtain ⟨slot, -, found⟩ := Option.bind_eq_some_iff.mp found
  obtain ⟨r, -, at_r⟩ := Option.bind_eq_some_iff.mp found
  exact (holds_le_slotted at_r o).trans ((Nat.le_add_left _ _).trans (owned.one o))

theorem row_unique {row : List (Option Nat)} {o i j : Nat} (one : tokens (mark (some o)) row ≤ 1)
    (first : row[i]? = some (some o)) (second : row[j]? = some (some o)) : i = j :=
  have marked : 0 < mark (some o) (some o) := mark_pos.mpr rfl
  eq_of_tokens_le_one one first second marked marked

/-- What is known about an object in a place. -/
inductive Found (s : State) (o : Nat) : Place → Prop
  | pool {i k : Nat} {bufferPool : BufferPool} (at_ : s.bPool[i]? = some bufferPool)
      (there : bufferPool.pool[k]? = some o) (holds : 0 < bufferPool.holds o) : Found s o (.pool i k)
  | value {c i : Nat} {bv : BufferValue} (at_ : s.recordOf c = some bv) (there : bv.value[i]? = some (some o))
      (holds : 0 < bv.holds o) : Found s o (.value c i)
  | transmit {c i : Nat} {bv : BufferValue} (at_ : s.recordOf c = some bv) (there : bv.transmit[i]? = some (some o))
      (holds : 0 < bv.holds o) : Found s o (.transmit c i)

theorem found_of_atPlace {o : Nat} {place : Place} (at_ : s.atPlace place = some o) : Found s o place := by
  cases place with
  | pool i k =>
    obtain ⟨bufferPool, found, there⟩ := Option.bind_eq_some_iff.mp at_
    refine .pool found there ?_
    exact (mark_pos.mpr rfl).trans_le (weight_le_tokens (mark o) (List.mem_of_getElem? there))
  | value c i =>
    obtain ⟨bv, found, at_⟩ := Option.bind_eq_some_iff.mp at_
    obtain ⟨slot, there, rfl⟩ := Option.bind_eq_some_iff.mp at_
    exact .value found there (holds_pos (i := i) (.inl (by rw [there]; rfl)))
  | transmit c i =>
    obtain ⟨bv, found, at_⟩ := Option.bind_eq_some_iff.mp at_
    obtain ⟨slot, there, rfl⟩ := Option.bind_eq_some_iff.mp at_
    exact .transmit found there (holds_pos (i := i) (.inr (by rw [there]; rfl)))

/-- An object is not in a pool and in a slot. -/
theorem Owned.not_both (owned : s.Owned) {o i c : Nat} {bufferPool : BufferPool}
    (at_ : s.bPool[i]? = some bufferPool) (holds : 0 < bufferPool.holds o) (found : s.recordOf c = some bv)
    (holds' : 0 < bv.holds o) : False := by
  obtain ⟨slot, -, found⟩ := Option.bind_eq_some_iff.mp found
  obtain ⟨r, -, at_r⟩ := Option.bind_eq_some_iff.mp found
  have pool : bufferPool.holds o ≤ s.pooled o := weight_le_tokens _ (List.mem_of_getElem? at_)
  have record := holds_le_slotted at_r o
  have one := owned.one o
  omega

/-- **An object is in one place.** -/
theorem Owned.unique (owned : s.Owned) {o : Nat} {p q : Place} (first : Found s o p) (second : Found s o q) :
    p = q := by
  -- both rows of one record would hold two
  have rows : ∀ {bv : BufferValue} {i j : Nat}, bv.holds o ≤ 1 → bv.value[i]? = some (some o) →
      bv.transmit[j]? = some (some o) → False := by
    intro bv i j one value transmit
    have left := weight_le_tokens (mark (some o)) (List.mem_of_getElem? value)
    have right := weight_le_tokens (mark (some o)) (List.mem_of_getElem? transmit)
    rw [mark_self] at left right
    unfold BufferValue.holds at one
    omega
  cases first with
  | @pool i k bufferPool at_ there holds =>
    cases second with
    | @pool j l other at_' there' holds' =>
      have one : s.pooled o ≤ 1 := (Nat.le_add_right _ _).trans (owned.one o)
      obtain rfl := eq_of_tokens_le_one one at_ at_' holds holds'
      obtain rfl := Option.some.inj (at_.symm.trans at_')
      have marked : 0 < mark o o := mark_pos.mpr rfl
      have here : bufferPool.holds o ≤ 1 := (weight_le_tokens _ (List.mem_of_getElem? at_)).trans one
      rw [eq_of_tokens_le_one here there there' marked marked]
    | value at_' _ holds' => exact (owned.not_both at_ holds at_' holds').elim
    | transmit at_' _ holds' => exact (owned.not_both at_ holds at_' holds').elim
  | @value c i bv at_ there holds =>
    have one := owned.record_le_one at_ o
    cases second with
    | pool at_' _ holds' => exact (owned.not_both at_' holds' at_ holds).elim
    | value at_' there' holds' =>
      obtain ⟨rfl, rfl⟩ := owned.same_record at_ at_' holds holds'
      rw [row_unique ((Nat.le_add_right _ _).trans one) there there']
    | transmit at_' there' holds' =>
      obtain ⟨rfl, rfl⟩ := owned.same_record at_ at_' holds holds'
      exact (rows one there there').elim
  | @transmit c i bv at_ there holds =>
    have one := owned.record_le_one at_ o
    cases second with
    | pool at_' _ holds' => exact (owned.not_both at_' holds' at_ holds).elim
    | value at_' there' holds' =>
      obtain ⟨rfl, rfl⟩ := owned.same_record at_ at_' holds holds'
      exact (rows one there' there).elim
    | transmit at_' there' holds' =>
      obtain ⟨rfl, rfl⟩ := owned.same_record at_ at_' holds holds'
      rw [row_unique ((Nat.le_add_left _ _).trans one) there there']

/-- **Where `Find` has an object from**: the slot of the record, the pool, or `New`. -/
theorem find_cases (owned : s.Owned) {ctx fetch choice : Option Nat} {i : Int} {o : Nat}
    (ran : s.find ctx i fetch choice = some (.ok (some o), s')) :
    (∃ r t bv, s.poolContext ctx fetch = some (r, t) ∧ t.records[r]? = some bv ∧ bv.value[i.toNat]? = some (some o)) ∨
      (∃ bufferPool, s.bPool[i.toNat - 1]? = some bufferPool ∧ o ∈ bufferPool.pool) ∨ o = s.objects.length := by
  obtain ⟨⟨r, t⟩, got, ran⟩ := Option.bind_eq_some_iff.mp ran
  have fetched := owned.poolContext got
  obtain ⟨bv, at_, ran⟩ := Option.bind_eq_some_iff.mp ran
  split at ran
  · cases ran
  · split at ran
    · next slot =>
        cases ran
        exact .inl ⟨r, t, bv, got, at_, Option.join_eq_some_iff.mp slot⟩
    · obtain ⟨⟨o', t'⟩, took, ran⟩ := Option.bind_eq_some_iff.mp ran
      cases ran
      obtain ⟨bufferPool, found, took⟩ := Option.bind_eq_some_iff.mp took
      obtain ⟨⟨v, rest⟩, got, took⟩ := Option.bind_eq_some_iff.mp took
      rw [fetched.bPool] at found
      cases got_of_takeOut got with
      | object split =>
        cases took
        exact .inr (.inl ⟨bufferPool, found, split.mem_iff.mpr List.mem_cons_self⟩)
      | nothing =>
        cases makes : bufferPool.makes with
        | false =>
          rw [makes] at took
          cases took
        | true =>
          rw [makes] at took
          cases took
          exact .inr (.inr (congrArg List.length fetched.objects))

end State

open State

/-- **Pooled objects have one owner.** After any calls no object is in two places, and an object `Find` returns
is the one in the slot, a new one, or one of the pool that was reset since it was last handed out. -/
theorem one_owner {calls : List Call} {s : State} (ran : system.run {} calls = some s) :
    (∀ (p q : Place) (o : Nat), s.atPlace p = some o → s.atPlace q = some o → p = q) ∧
      ∀ ctx i fetch choice o s', s.find ctx i fetch choice = some (.ok (some o), s') →
        (∃ r t bv, s.poolContext ctx fetch = some (r, t) ∧ t.records[r]? = some bv ∧ bv.value[i.toNat]? = some (some o)) ∨
          (∃ bufferPool, s.bPool[i.toNat - 1]? = some bufferPool ∧ o ∈ bufferPool.pool ∧ s.objects[o]? = some true) ∨
          o = s.objects.length := by
  have start : Owned {} :=
    ⟨fun _ => Nat.zero_le _, fun _ no => absurd no (lt_irrefl 0), fun _ => Nat.zero_le _, fun _ no => absurd no (lt_irrefl 0),
      fun _ no => absurd no (lt_irrefl 0)⟩
  have owned : s.Owned := System.run_invariant (P := Owned) step_owned start ran
  refine ⟨fun p q o first second => owned.unique (found_of_atPlace first) (found_of_atPlace second), ?_⟩
  intro ctx i fetch choice o s' found
  refine (find_cases owned found).imp id (Or.imp ?_ id)
  rintro ⟨bufferPool, at_, there⟩
  refine ⟨bufferPool, at_, there, owned.clean o ?_⟩
  have holds : 0 < bufferPool.holds o := (mark_pos.mpr rfl).trans_le (weight_le_tokens (mark o) there)
  exact holds.trans_le (weight_le_tokens _ (List.mem_of_getElem? at_))

/-- Two contexts: an object is found, transmitted and given, and found again by the other. -/
def handedOn : List Call :=
  [.registerBuffer true, .newBufferPoolContext none, .newBufferPoolContext none, .find (some 0) 1 none none,
    .transmit (some 1) (some 0) none none, .give (some 1) none]

/-- The theorem at an object that was handed on. -/
theorem one_owner_handedOn : ∃ s, system.run {} handedOn = some s ∧ s.atPlace (.pool 0 0) = some 0 ∧
      ∀ q, s.atPlace q = some 0 → Place.pool 0 0 = q := by
  obtain ⟨s, ran, there⟩ : ∃ s, system.run {} handedOn = some s ∧ s.atPlace (.pool 0 0) = some 0 := ⟨_, rfl, rfl⟩
  exact ⟨s, ran, there, fun q => (one_owner ran).1 _ q 0 there⟩

end Strike.PoolContexts
