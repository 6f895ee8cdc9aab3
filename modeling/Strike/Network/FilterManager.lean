/-
**The chain of read filters** (`filtermanager.go`).

`onContinueReading` walks the chain from the filter behind the one that continues, and calls into each filter
on its way. A filter may continue reading from inside its own callbacks, so walks run inside walks.

* `walk_wp`: a walk that starts behind an initialised filter keeps the invariant.
* `initialised_once`: `OnNewConnection` comes once, before any `OnData` of the filter and after that of the
  filter before it.
-/

import Strike.Lib.Calls

namespace Strike.FilterManager

open Lib

/-- `FilterStatus`. -/
inductive FilterStatus where
  | continue_
  | stop
  deriving Repr, DecidableEq

/-- `activeReadFilter`. Its filter is known by its place in the chain. -/
structure ActiveReadFilter where
  index : Nat := 0
  initialized : Bool := false
  deriving Repr, DecidableEq

/-- A call of a filter. -/
inductive Callback where
  | onNewConnection (i : Nat)
  | onData (i : Nat)
  deriving Repr, DecidableEq

/-- `filterManager`, the length of the read buffer of its connection unless that is nil, and the calls so
far. -/
structure World where
  downstreamFilters : List ActiveReadFilter := []
  readBuffer : Option Nat := none
  trace : List Callback := []
  deriving Repr, DecidableEq

/-- `AddReadFilter`. -/
def World.addReadFilter (w : World) : World := { w with downstreamFilters := w.downstreamFilters ++ [{}] }

/-- A connection with a chain of `n` filters. -/
def newFilterManager (n : Nat) : World := World.addReadFilter^[n] {}

/-- The programs of this file: they call filters, which answer with a status. -/
abbrev Walk := Prog World Callback FilterStatus

/-- The filter at a place of the chain is changed. -/
def World.modify (w : World) (i : Nat) (f : ActiveReadFilter → ActiveReadFilter) : World :=
  { w with downstreamFilters := w.downstreamFilters.modify i f }

/-- A filter is called. -/
def callFilter (callback : Callback) : Walk FilterStatus := do
  .set fun w => { w with trace := w.trace ++ [callback] }
  .ask callback

/-- `uf.initialized`. -/
def World.initialized (w : World) (i : Nat) : Bool := w.downstreamFilters[i]?.any (·.initialized)

/-- The first half of a round: the filter is reached, and called unless it is initialised. -/
def reach (index : Nat) : Walk FilterStatus := do
  .set fun w => w.modify index ({ · with index })
  if (← .get (·.initialized index)) then return .continue_
  else
    .set fun w => w.modify index ({ · with initialized := true })
    callFilter (.onNewConnection index)

/-- The second half: the filter gets the data there is. -/
def deliver (index : Nat) : Walk FilterStatus := do
  let buf ← .get (·.readBuffer)
  if buf.any (0 < ·) then callFilter (.onData index) else return .continue_

/-- The loop of `onContinueReading`, with the filters left. -/
def walk : (rounds index : Nat) → Walk Unit
  | 0, _ => pure ()
  | rounds + 1, index => do
    let status ← reach index
    if status = .stop then return ()
    else
      let status ← deliver index
      if status = .stop then return () else walk rounds (index + 1)

/-- `onContinueReading`, for the filter at a place of the chain. -/
def onContinueReading (filter : Option Nat) : Walk Unit := do
  let index ← match filter with
    | none => pure 0
    | some i => .get fun w => (w.downstreamFilters[i]?.getD {}).index + 1
  let length ← .get (·.downstreamFilters.length)
  walk (length - index) index

/-- `InitializeReadFilters`. -/
def initializeReadFilters : Walk Bool := do
  if (← .get (·.downstreamFilters.length)) = 0 then return false
  else
    onContinueReading none
    return true

/-- An entry. `receive` is whatever changes the read buffer. -/
inductive Entry where
  | initializeReadFilters
  | onRead
  | continueReading (i : Nat)
  | receive (buf : Option Nat)
  deriving Repr, DecidableEq

/-- The program of an entry. -/
def program : Entry → Walk Unit
  | .initializeReadFilters => do let _ ← initializeReadFilters
  | .onRead => onContinueReading none
  | .continueReading i => onContinueReading (some i)
  | .receive buf => .set fun w => { w with readBuffer := buf }

/-- Filters that were reached continue. A walk that reaches a filter initialises it before it calls. -/
def allows (w : World) (_ : Bool) : Entry → Bool
  | .continueReading i => w.initialized i
  | _ => true

/-- The chain: entries at any time, also inside callbacks. -/
def chain : Reactor World Callback FilterStatus Entry := ⟨program, allows⟩

/-! ### What holds throughout -/

/-- **A call in its place**: what came before. -/
def InPlace (before : List Callback) : Callback → Prop
  | .onNewConnection i => .onNewConnection i ∉ before ∧ ∀ j, i = j + 1 → .onNewConnection j ∈ before
  | .onData i => .onNewConnection i ∈ before

/-- **Flags and calls agree.** -/
structure Sound (w : World) : Prop where
  inPlace : ∀ before callback after, w.trace = before ++ callback :: after → InPlace before callback
  called : ∀ (i : Nat) (filter : ActiveReadFilter), w.downstreamFilters[i]? = some filter →
    (filter.initialized = true ↔ .onNewConnection i ∈ w.trace)
  index : ∀ (i : Nat) (filter : ActiveReadFilter), w.downstreamFilters[i]? = some filter →
    filter.initialized = true → filter.index = i

/-- A walk may reach the filter at `index`: the one before it is initialised. -/
def Ready (index : Nat) (w : World) : Prop := ∀ j, index = j + 1 → .onNewConnection j ∈ w.trace

/-- Calls are not taken back. -/
def contract : Contract World Callback FilterStatus where
  rest := Sound
  inv := Sound
  change w w' := w.downstreamFilters.length = w'.downstreamFilters.length ∧ ∀ callback ∈ w.trace, callback ∈ w'.trace
  refl _ := ⟨rfl, fun _ there => there⟩
  trans first second := ⟨first.1.trans second.1, fun _ there => second.2 _ (first.2 _ there)⟩
  answers _ _ _ := True

theorem InPlace.snoc {trace : List Callback} {callback : Callback} (here : InPlace trace callback)
    (inPlace : ∀ before callback after, trace = before ++ callback :: after → InPlace before callback) :
    ∀ before other after, trace ++ [callback] = before ++ other :: after → InPlace before other := by
  intro before other after same
  rcases List.eq_nil_or_concat after with rfl | ⟨after, last, rfl⟩
  · obtain ⟨rfl, ends⟩ := List.append_inj' same rfl
    cases ends
    exact here
  · rw [List.concat_eq_append, ← List.cons_append, ← List.append_assoc] at same
    obtain ⟨same, -⟩ := List.append_inj' same rfl
    exact inPlace before other after same

variable {w : World} {index : Nat}

theorem callFilter_wp {callback : Callback} {post : FilterStatus → World → Prop}
    (sound : Sound { w with trace := w.trace ++ [callback] })
    (later : ∀ t status, Sound t → contract.change w t → callback ∈ t.trace → post status t) :
    contract.wp (callFilter callback) post w := by
  refine ⟨sound, fun t status sound' changed _ => later t status sound' ?_ ?_⟩
  · exact ⟨changed.1, fun _ there => changed.2 _ (List.mem_append_left _ there)⟩
  · exact changed.2 _ (List.mem_append_right _ (List.mem_singleton.mpr rfl))

theorem modify_cases {i j : Nat} {f : ActiveReadFilter → ActiveReadFilter} {filter : ActiveReadFilter}
    (at_ : (w.modify i f).downstreamFilters[j]? = some filter) :
    (j = i ∧ ∃ old, w.downstreamFilters[i]? = some old ∧ filter = f old) ∨
      (j ≠ i ∧ w.downstreamFilters[j]? = some filter) := by
  rw [World.modify, List.getElem?_modify] at at_
  split at at_
  · next same =>
      subst same
      obtain ⟨old, there, rfl⟩ := Option.map_eq_some_iff.mp at_
      exact .inl ⟨rfl, old, there, rfl⟩
  · next other => exact .inr ⟨Ne.symm other, by simpa using at_⟩

theorem Sound.setIndex (sound : Sound w) : Sound (w.modify index ({ · with index })) := by
  refine ⟨sound.inPlace, fun i filter at_ => ?_, fun i filter at_ initialized => ?_⟩
  · rcases modify_cases at_ with ⟨rfl, old, there, rfl⟩ | ⟨-, there⟩
    · exact sound.called i old there
    · exact sound.called i filter there
  · rcases modify_cases at_ with ⟨rfl, old, there, rfl⟩ | ⟨-, there⟩
    · rfl
    · exact sound.index i filter there initialized

theorem Sound.initialise (sound : Sound w) (ready : Ready index w) {filter : ActiveReadFilter}
    (at_ : w.downstreamFilters[index]? = some filter) (indexed : filter.index = index)
    (fresh : filter.initialized = false) :
    Sound { w.modify index ({ · with initialized := true }) with trace := w.trace ++ [.onNewConnection index] } := by
  have new : .onNewConnection index ∉ w.trace := fun there =>
    absurd ((sound.called index filter at_).mpr there) (by rw [fresh]; exact Bool.false_ne_true)
  refine ⟨InPlace.snoc ⟨new, ready⟩ sound.inPlace, fun i other there => ?_, fun i other there initialized => ?_⟩
  · rcases modify_cases there with ⟨rfl, old, there, rfl⟩ | ⟨different, there⟩
    · exact ⟨fun _ => List.mem_append_right _ (List.mem_singleton.mpr rfl), fun _ => rfl⟩
    · rw [sound.called i other there, List.mem_append]
      exact ⟨.inl, fun there => there.resolve_right fun no =>
        different (Callback.onNewConnection.inj (List.mem_singleton.mp no))⟩
  · rcases modify_cases there with ⟨rfl, old, before, rfl⟩ | ⟨-, there⟩
    · obtain rfl := Option.some.inj (at_.symm.trans before)
      exact indexed
    · exact sound.index i other there initialized

/-- **A filter is reached.** -/
theorem reach_wp (sound : Sound w) (ready : Ready index w) (inside : index < w.downstreamFilters.length) :
    contract.wp (reach index)
      (fun _ t => Sound t ∧ contract.change w t ∧ .onNewConnection index ∈ t.trace) w := by
  obtain ⟨old, there⟩ : ∃ old, w.downstreamFilters[index]? = some old := ⟨_, List.getElem?_eq_getElem inside⟩
  have at_ : (w.modify index ({ · with index })).downstreamFilters[index]? = some { old with index } := by
    rw [World.modify, List.getElem?_modify_eq, there]
    rfl
  have sound : Sound (w.modify index ({ · with index })) := sound.setIndex
  have length : ∀ f, w.downstreamFilters.length = (w.modify index f).downstreamFilters.length :=
    fun f => (List.length_modify f _ _).symm
  simp only [reach, Contract.wp_bind, Contract.wp_set, Contract.wp_get, Contract.wp_ite, Contract.wp_pure]
  have flag : (w.modify index ({ · with index })).initialized index = old.initialized := by
    rw [World.initialized, at_]
    rfl
  rw [flag]
  split
  · next initialized =>
      exact ⟨sound, ⟨length _, fun _ there => there⟩, (sound.called index _ at_).mp initialized⟩
  · next fresh =>
      refine callFilter_wp (sound.initialise ready at_ rfl (Bool.eq_false_iff.mpr fresh)) fun t _ sound changed called => ?_
      refine ⟨sound, ⟨?_, changed.2⟩, called⟩
      rw [← changed.1, length]
      exact (List.length_modify _ _ _).symm

theorem deliver_wp (sound : Sound w) (called : .onNewConnection index ∈ w.trace) :
    contract.wp (deliver index) (fun _ t => Sound t ∧ contract.change w t) w := by
  simp only [deliver, Contract.wp_bind, Contract.wp_get, Contract.wp_ite, Contract.wp_pure]
  split
  · refine callFilter_wp ⟨InPlace.snoc called sound.inPlace, ?_, sound.index⟩ fun t _ sound changed _ => ⟨sound, changed⟩
    intro i filter at_
    rw [sound.called i filter at_, List.mem_append]
    exact ⟨.inl, fun there => there.resolve_right fun no => (by cases List.mem_singleton.mp no)⟩
  · exact ⟨sound, contract.refl w⟩

/-- **A walk** from a filter that may be reached. -/
theorem walk_wp (rounds : Nat) :
    ∀ {index : Nat} {w : World}, Sound w → Ready index w → index + rounds ≤ w.downstreamFilters.length →
      contract.wp (walk rounds index) (fun _ t => Sound t ∧ contract.change w t) w := by
  induction rounds with
  | zero => exact fun sound _ _ => ⟨sound, contract.refl _⟩
  | succ rounds ih =>
    intro index w sound ready inside
    rw [walk, Contract.wp_bind]
    refine Contract.wp_mono ?_ (reach_wp sound ready (by omega))
    rintro status t ⟨sound, changed, called⟩
    rw [Contract.wp_ite]
    split
    · exact ⟨sound, changed⟩
    · rw [Contract.wp_bind]
      refine Contract.wp_mono ?_ (deliver_wp sound called)
      rintro status u ⟨sound, changed'⟩
      have so_far := contract.trans changed changed'
      rw [Contract.wp_ite]
      split
      · exact ⟨sound, so_far⟩
      · have ready : Ready (index + 1) u := by
          rintro j same
          cases same
          exact changed'.2 _ called
        refine Contract.wp_mono ?_ (ih sound ready ?_)
        · exact fun _ v kept => ⟨kept.1, contract.trans so_far kept.2⟩
        · rw [← so_far.1]
          omega

theorem onContinueReading_wp (filter : Option Nat) (sound : Sound w)
    (reached : ∀ i, filter = some i → w.initialized i = true) :
    contract.wp (onContinueReading filter) (fun _ t => Sound t ∧ contract.change w t) w := by
  -- a walk whose start lies behind an initialised filter
  have from_ : ∀ {index : Nat}, Ready index w →
      contract.wp (walk (w.downstreamFilters.length - index) index) (fun _ t => Sound t ∧ contract.change w t) w := by
    intro index ready
    by_cases inside : index ≤ w.downstreamFilters.length
    · exact walk_wp _ sound ready (by omega)
    · rw [Nat.sub_eq_zero_of_le (by omega)]
      exact ⟨sound, contract.refl w⟩
  cases filter with
  | none => exact from_ fun j no => (by cases no)
  | some i =>
    have initialized := reached i rfl
    unfold World.initialized at initialized
    cases at_ : w.downstreamFilters[i]? with
    | none =>
      rw [at_] at initialized
      cases initialized
    | some filter =>
      rw [at_] at initialized
      simp only [onContinueReading, Contract.wp_bind, Contract.wp_get, at_, Option.getD_some,
        sound.index i filter at_ initialized]
      refine from_ fun j same => ?_
      cases same
      exact (sound.called i filter at_).mp initialized

theorem program_wp {e : Entry} (sound : Sound w) (nested : Bool) (allowed : allows w nested e = true) :
    contract.wp (program e) (fun _ t => Sound t ∧ contract.change w t) w := by
  cases e with
  | initializeReadFilters =>
    simp only [program, initializeReadFilters, Contract.wp_bind, Contract.wp_get, Contract.wp_ite, Contract.wp_pure]
    split
    · exact ⟨sound, contract.refl w⟩
    · exact onContinueReading_wp none sound fun i no => (by cases no)
  | onRead => exact onContinueReading_wp none sound fun i no => (by cases no)
  | continueReading i =>
    refine onContinueReading_wp (some i) sound fun j same => ?_
    cases same
    exact allowed
  | receive buf => exact ⟨⟨sound.inPlace, sound.called, sound.index⟩, contract.refl w⟩

theorem newFilterManager_eq (n : Nat) : newFilterManager n = { downstreamFilters := List.replicate n {} } := by
  induction n with
  | zero => rfl
  | succ n ih => rw [newFilterManager, Function.iterate_succ_apply', ← newFilterManager, ih, World.addReadFilter,
      ← List.replicate_succ']

theorem sound_newFilterManager (n : Nat) : Sound (newFilterManager n) := by
  rw [newFilterManager_eq]
  have fresh : ∀ {i : Nat} {filter : ActiveReadFilter}, (List.replicate n ({} : ActiveReadFilter))[i]? = some filter →
      filter = {} := fun at_ => List.eq_of_mem_replicate (List.mem_of_getElem? at_)
  refine ⟨fun before callback after no => ?_, fun i filter at_ => ?_, fun i filter at_ initialized => ?_⟩
  · exact absurd no (List.append_ne_nil_of_right_ne_nil _ (List.cons_ne_nil _ _)).symm
  · rw [fresh at_]
    exact ⟨nofun, nofun⟩
  · rw [fresh at_] at initialized
    cases initialized

/-- **Read filters are initialised once and in order.** Whatever the filters answer and whenever they continue,
`OnNewConnection` of a filter is called at most once, before any of its `OnData`, and after that of the filter
before it. -/
theorem initialised_once {n : Nat} {moves : List (Reactor.Move Entry FilterStatus)}
    {c : Reactor.Config World Callback FilterStatus}
    (ran : chain.system.run ⟨newFilterManager n, []⟩ moves = some c) {before after : List Callback} {callback : Callback}
    (called : c.world.trace = before ++ callback :: after) : InPlace before callback := by
  have holds : Reactor.Holds contract c.stack c.world :=
    Reactor.run_holds (fun sound allowed _ => Contract.wp_mono (fun _ _ kept => kept.1) (program_wp sound true allowed))
      (fun sound allowed _ _ => program_wp sound false allowed) (fun _ => trivial) (sound_newFilterManager n)
      (System.meets_true _ _ _) ran
  have sound : Sound c.world := holds.of (P := Sound) id id
  exact sound.inPlace before callback after called

/-- The first filter continues reading from inside its `OnNewConnection`, and stops then. -/
def continuesInside : List (Reactor.Move Entry FilterStatus) :=
  [.enter .initializeReadFilters, .enter (.continueReading 0), .answer .continue_, .answer .stop]

/-- The theorem at a filter that continues from inside its callback. -/
theorem initialised_once_inside : ∃ c, chain.system.run ⟨newFilterManager 2, []⟩ continuesInside = some c ∧
      c.world.trace = [.onNewConnection 0, .onNewConnection 1] ∧ InPlace [.onNewConnection 0] (.onNewConnection 1) := by
  obtain ⟨c, ran, called⟩ : ∃ c, chain.system.run ⟨newFilterManager 2, []⟩ continuesInside = some c ∧
      c.world.trace = [.onNewConnection 0, .onNewConnection 1] := ⟨_, rfl, rfl⟩
  exact ⟨c, ran, called, (initialised_once ran (show c.world.trace = [.onNewConnection 0] ++ .onNewConnection 1 :: [] from called))⟩

end Strike.FilterManager
