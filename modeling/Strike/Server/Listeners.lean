/-
**The listeners of the server** (`handler.go`).

`AddOrUpdateListener` adds a listener under a new name and changes the one under a known name. It compares
three parts of what is given with what is there: the config and the two chains of filter factories. A call
that gives the same config and the same network filters is taken for a repetition, whatever its stream
filters are, and the TLS contexts are made once, when the listener is added.

* `updates_take_effect`: a call that returns without error leaves the listener as given, where every call
  before it kept to `Plain`: no new TLS settings, and no change in the stream filters alone.
* `updates_lost`: both other changes are lost.
-/

import Strike.Lib.Keyed
import Strike.Lib.Machine
import Strike.Stls.Context

namespace Strike.Server

open Lib Stls

/-- `net.Addr`, by what its methods return. -/
@[ext]
structure Addr where
  network : Bytes
  string : Bytes
  deriving Repr, DecidableEq

/-- `v2.Listener`. The fields of `rest` are compared only; the form of the address that its methods do not
show is one of them. -/
structure ListenerConfig (κ ρ : Type) where
  name : Bytes
  addr : Option Addr
  bindToPort : Bool := true
  listenerTag : UInt64 := 0
  disableConnIo : Bool := false
  inspector : Bool := false
  filterChains : List (TLSSettings κ) := []
  rest : ρ
  deriving Repr, DecidableEq

/-- `listener` of the network package. -/
structure Listener (κ ρ : Type) where
  name : Bytes
  localAddress : Option Addr
  bindToPort : Bool
  listenerTag : UInt64
  config : ListenerConfig κ ρ
  deriving Repr, DecidableEq

/-- `activeListener`. The types `ν` and `σ` are those of the two slices of filter factories. -/
structure ActiveListener (κ ρ ν σ : Type) where
  disableConnIo : Bool
  listener : Listener κ ρ
  networkFiltersFactories : ν
  streamFiltersFactories : σ
  updatedLabel : Bool := false
  tlsMgr : ContextManager
  deriving Repr, DecidableEq

/-- `connHandler`, as far as its listeners go. -/
structure ConnHandler (κ ρ ν σ : Type) where
  listeners : List (ActiveListener κ ρ ν σ) := []
  deriving Repr, DecidableEq

/-- A call of `AddOrUpdateListener`, with the name `GenerateUUID` gives. -/
structure Call (κ ρ ν σ : Type) where
  uuid : Bytes
  lc : ListenerConfig κ ρ
  networkFiltersFactories : ν
  streamFiltersFactories : σ
  deriving Repr, DecidableEq

/-- A panic, an error, or the listener that is returned. -/
abbrev Returned (κ ρ ν σ : Type) : Type := Except Panic (Except GoError (Option (ActiveListener κ ρ ν σ)))

section

variable {κ ρ ν σ : Type}

/-- `listenerName`. -/
def Call.listenerName (call : Call κ ρ ν σ) : Bytes := if call.lc.name = [] then call.uuid else call.lc.name

/-- The config with its name. -/
def Call.config (call : Call κ ρ ν σ) : ListenerConfig κ ρ := { call.lc with name := call.listenerName }

/-- The name a listener is registered under. -/
def ActiveListener.name (al : ActiveListener κ ρ ν σ) : Bytes := al.listener.name

/-- `NewListener`. -/
def newListener (lc : ListenerConfig κ ρ) : Listener κ ρ where
  name := lc.name
  localAddress := lc.addr
  bindToPort := lc.bindToPort
  listenerTag := lc.listenerTag
  config := lc

/-- `findActiveListenerByName`. -/
def ConnHandler.findActiveListenerByName (ch : ConnHandler κ ρ ν σ) (name : Bytes) :
    Option (ActiveListener κ ρ ν σ) :=
  lookup ActiveListener.name name ch.listeners

/-- The error about an address. -/
def errAddress : GoError := .new "error updating listener, listen address and listen name doesn't match"

variable (newTLSConfig : TLSSettings κ → Except GoError TLSConfig)

/-- The TLS contexts of a config. -/
def ListenerConfig.tlsContexts (lc : ListenerConfig κ ρ) : Except GoError ContextManager :=
  newTLSServerContextManager newTLSConfig lc.inspector lc.filterChains

/-- `newActiveListener`. A listener without an address panics before anything is made. -/
def newActiveListener (call : Call κ ρ ν σ) : Except Panic (Except GoError (ActiveListener κ ρ ν σ)) :=
  match call.config.addr with
  | none => .error nilDereference
  | some _ => .ok <| do
      let tlsMgr ← call.config.tlsContexts newTLSConfig
      return {
        disableConnIo := call.config.disableConnIo
        listener := newListener call.config
        networkFiltersFactories := call.networkFiltersFactories
        streamFiltersFactories := call.streamFiltersFactories
        tlsMgr }

variable [DecidableEq κ] [DecidableEq ρ] [DecidableEq ν] [DecidableEq σ]

/-- The listener has the config and the network filters of the call already. -/
def ActiveListener.Repeats (al : ActiveListener κ ρ ν σ) (call : Call κ ρ ν σ) : Prop :=
  al.listener.config = call.config ∧ al.networkFiltersFactories = call.networkFiltersFactories

instance (al : ActiveListener κ ρ ν σ) (call : Call κ ρ ν σ) : Decidable (al.Repeats call) :=
  inferInstanceAs (Decidable (_ ∧ _))

/-- The assignments to a listener that is there. -/
def ActiveListener.update (al : ActiveListener κ ρ ν σ) (call : Call κ ρ ν σ) : ActiveListener κ ρ ν σ :=
  let equalConfig := al.listener.config = call.config
  let equalNetworkFilter := al.networkFiltersFactories = call.networkFiltersFactories
  let equalStreamFilters := al.streamFiltersFactories = call.streamFiltersFactories
  let al := { al with updatedLabel := true }
  let al := if ¬ equalConfig then
      { al with
        disableConnIo := call.config.disableConnIo
        listener := { al.listener with config := call.config, listenerTag := call.config.listenerTag } }
    else al
  let al := if ¬ equalNetworkFilter then
      { al with networkFiltersFactories := call.networkFiltersFactories }
    else al
  if ¬ equalStreamFilters then { al with streamFiltersFactories := call.streamFiltersFactories } else al

/-- `AddOrUpdateListener`. A new listener is in a variable of the inner block, so `nil` is returned for it. -/
def ConnHandler.addOrUpdateListener (ch : ConnHandler κ ρ ν σ) (call : Call κ ρ ν σ) :
    Returned κ ρ ν σ × ConnHandler κ ρ ν σ :=
  match ch.findActiveListenerByName call.listenerName with
  | some al =>
    match al.listener.localAddress, call.config.addr with
    | some own, some given =>
      if own.string ≠ given.string ∨ own.network ≠ given.network then (.ok (.error errAddress), ch)
      else if al.Repeats call then (.ok (.ok none), ch)
      else
        (.ok (.ok (some (al.update call))),
          { ch with listeners := alter ActiveListener.name call.listenerName (·.update call) ch.listeners })
    | _, _ => (.error nilDereference, ch)
  | none =>
    match newActiveListener newTLSConfig call with
    | .error cause => (.error cause, ch)
    | .ok (.error err) => (.ok (.error err), ch)
    | .ok (.ok al) => (.ok (.ok none), { ch with listeners := ch.listeners ++ [al] })

/-- The handler as a machine. -/
def machine : Machine (ConnHandler κ ρ ν σ) (Call κ ρ ν σ) (Returned κ ρ ν σ) :=
  ⟨ConnHandler.addOrUpdateListener newTLSConfig⟩

/-! ### What a call does -/

/-- **Everything a call can do.** -/
inductive Does (ch : ConnHandler κ ρ ν σ) (call : Call κ ρ ν σ) : Returned κ ρ ν σ × ConnHandler κ ρ ν σ → Prop where
  | panics (cause : Panic) : Does ch call (.error cause, ch)
  | fails (err : GoError) : Does ch call (.ok (.error err), ch)
  | repeats {al : ActiveListener κ ρ ν σ} (found : ch.findActiveListenerByName call.listenerName = some al)
      (there : al.listener.localAddress = call.config.addr) (same : al.Repeats call) : Does ch call (.ok (.ok none), ch)
  | updates {al : ActiveListener κ ρ ν σ} (found : ch.findActiveListenerByName call.listenerName = some al)
      (there : al.listener.localAddress = call.config.addr) (differs : ¬ al.Repeats call) :
      Does ch call (.ok (.ok (some (al.update call))),
        { ch with listeners := alter ActiveListener.name call.listenerName (·.update call) ch.listeners })
  | adds {al : ActiveListener κ ρ ν σ} (absent : ch.findActiveListenerByName call.listenerName = none)
      (made : newActiveListener newTLSConfig call = .ok (.ok al)) :
      Does ch call (.ok (.ok none), { ch with listeners := ch.listeners ++ [al] })

theorem addOrUpdateListener_does (ch : ConnHandler κ ρ ν σ) (call : Call κ ρ ν σ) :
    Does newTLSConfig ch call (ch.addOrUpdateListener newTLSConfig call) := by
  unfold ConnHandler.addOrUpdateListener
  cases found : ch.findActiveListenerByName call.listenerName with
  | some al =>
    simp only
    cases own : al.listener.localAddress with
    | none => exact .panics _
    | some own' =>
      cases given : call.config.addr with
      | none => exact .panics _
      | some given' =>
        simp only
        split
        · exact .fails _
        · next agree =>
            rw [not_or, not_not, not_not] at agree
            have there : al.listener.localAddress = call.config.addr := by
              rw [own, given]
              exact congrArg some (Addr.ext agree.2 agree.1)
            split
            · next same => exact .repeats found there same
            · next differs => exact .updates found there differs
  | none =>
    simp only
    cases made : newActiveListener newTLSConfig call with
    | error cause => exact .panics cause
    | ok result =>
      cases result with
      | error err => exact .fails err
      | ok al => exact .adds found made

omit [DecidableEq κ] [DecidableEq ρ] [DecidableEq ν] [DecidableEq σ] in
theorem newActiveListener_made {call : Call κ ρ ν σ} {al : ActiveListener κ ρ ν σ}
    (made : newActiveListener newTLSConfig call = .ok (.ok al)) :
    al.name = call.listenerName ∧ al.listener.config = call.config ∧
      al.networkFiltersFactories = call.networkFiltersFactories ∧
      al.streamFiltersFactories = call.streamFiltersFactories ∧
      call.config.tlsContexts newTLSConfig = .ok al.tlsMgr := by
  unfold newActiveListener at made
  split at made
  · cases made
  · cases contexts : call.config.tlsContexts newTLSConfig with
    | error err =>
      rw [contexts] at made
      cases made
    | ok tlsMgr =>
      rw [contexts] at made
      cases made
      exact ⟨rfl, rfl, rfl, rfl, rfl⟩

/-- An update leaves the listener with what the call gives, and with the TLS contexts it had. -/
theorem ActiveListener.update_spec (al : ActiveListener κ ρ ν σ) (call : Call κ ρ ν σ) :
    (al.update call).name = al.name ∧ (al.update call).listener.config = call.config ∧
      (al.update call).networkFiltersFactories = call.networkFiltersFactories ∧
      (al.update call).streamFiltersFactories = call.streamFiltersFactories ∧
      (al.update call).tlsMgr = al.tlsMgr := by
  unfold update ActiveListener.name
  by_cases equalConfig : al.listener.config = call.config <;>
    by_cases equalNetworkFilter : al.networkFiltersFactories = call.networkFiltersFactories <;>
    by_cases equalStreamFilters : al.streamFiltersFactories = call.streamFiltersFactories <;>
    simp [equalConfig, equalNetworkFilter, equalStreamFilters]

/-! ### Sequences of calls -/

/-- The call brings no new TLS settings to the listener that is there, and a change in its stream filters
only with another one. -/
def Plain (ch : ConnHandler κ ρ ν σ) (call : Call κ ρ ν σ) : Prop :=
  ∀ al ∈ ch.findActiveListenerByName call.listenerName, al.listener.localAddress = call.config.addr →
    (al.listener.config.inspector = call.config.inspector ∧
      al.listener.config.filterChains = call.config.filterChains) ∧
      (al.Repeats call → al.streamFiltersFactories = call.streamFiltersFactories)

/-- **The call has taken effect**: the listener under its name has what it gave, and the others are as they
were. -/
structure Effective (ch ch' : ConnHandler κ ρ ν σ) (call : Call κ ρ ν σ) : Prop where
  registered : ∃ al, ch'.findActiveListenerByName call.listenerName = some al ∧ al.listener.config = call.config ∧
    al.networkFiltersFactories = call.networkFiltersFactories ∧
    al.streamFiltersFactories = call.streamFiltersFactories ∧ call.config.tlsContexts newTLSConfig = .ok al.tlsMgr
  others : ch'.listeners.filter (·.name ≠ call.listenerName) = ch.listeners.filter (·.name ≠ call.listenerName)

/-- Names are different, and every listener has the TLS contexts of its config. -/
structure Settled (ch : ConnHandler κ ρ ν σ) : Prop where
  names : (ch.listeners.map ActiveListener.name).Nodup
  contexts : ∀ al ∈ ch.listeners, al.listener.config.tlsContexts newTLSConfig = .ok al.tlsMgr

variable {newTLSConfig}

omit [DecidableEq κ] [DecidableEq ρ] [DecidableEq ν] [DecidableEq σ] in
theorem Settled.found {ch : ConnHandler κ ρ ν σ} (settled : Settled newTLSConfig ch) {name : Bytes}
    {al : ActiveListener κ ρ ν σ} (found : ch.findActiveListenerByName name = some al) :
    al.listener.config.tlsContexts newTLSConfig = .ok al.tlsMgr :=
  settled.contexts al (lookup_mem found)

omit [DecidableEq κ] [DecidableEq ρ] [DecidableEq ν] [DecidableEq σ] in
/-- With the settings of the listener that is there, its contexts are those of the call. -/
theorem Plain.contexts {ch : ConnHandler κ ρ ν σ} {call : Call κ ρ ν σ} (plain : Plain ch call)
    (settled : Settled newTLSConfig ch) {al : ActiveListener κ ρ ν σ}
    (found : ch.findActiveListenerByName call.listenerName = some al)
    (there : al.listener.localAddress = call.config.addr) :
    call.config.tlsContexts newTLSConfig = .ok al.tlsMgr := by
  obtain ⟨⟨inspector, chains⟩, -⟩ := plain al found there
  rw [← settled.found found, ListenerConfig.tlsContexts, ListenerConfig.tlsContexts, inspector, chains]

/-- **A plain call takes effect**, or changes nothing. -/
theorem Settled.call {ch : ConnHandler κ ρ ν σ} {call : Call κ ρ ν σ} (settled : Settled newTLSConfig ch)
    (plain : Plain ch call) {result : Returned κ ρ ν σ} {ch' : ConnHandler κ ρ ν σ}
    (does : Does newTLSConfig ch call (result, ch')) :
    Settled newTLSConfig ch' ∧ (∀ al, result = .ok (.ok al) → Effective newTLSConfig ch ch' call) ∧
      (∀ err, result = .ok (.error err) → ch' = ch) := by
  cases does with
  | panics cause => exact ⟨settled, by rintro al ⟨⟩, by rintro err ⟨⟩⟩
  | fails err => exact ⟨settled, by rintro al ⟨⟩, fun _ _ => rfl⟩
  | @repeats al found there same =>
    refine ⟨settled, fun _ _ => ⟨⟨al, found, same.1, same.2, ?_, ?_⟩, rfl⟩, by rintro err ⟨⟩⟩
    · exact (plain al found there).2 same
    · exact plain.contexts settled found there
  | @updates al found there differs =>
    have keeps := fun entry : ActiveListener κ ρ ν σ => (entry.update_spec call).1
    obtain ⟨-, config, network, stream, mgr⟩ := al.update_spec call
    have contexts := plain.contexts settled found there
    rw [← mgr] at contexts
    refine ⟨⟨?_, ?_⟩, fun _ _ => ⟨⟨al.update call, ?_, config, network, stream, contexts⟩, ?_⟩, by rintro err ⟨⟩⟩
    · exact (map_key_alter keeps ch.listeners).symm ▸ settled.names
    · intro entry inside
      rcases mem_alter inside with old | ⟨old, isOld, rfl⟩
      · exact settled.contexts entry old
      · obtain rfl : al = old := Option.some.inj (found.symm.trans isOld)
        rw [config]
        exact contexts
    · exact (lookup_alter_self keeps ch.listeners).trans (congrArg (Option.map _) found)
    · exact filter_alter keeps ch.listeners
  | @adds al absent made =>
    obtain ⟨name, config, network, stream, contexts⟩ := newActiveListener_made newTLSConfig made
    refine ⟨⟨?_, ?_⟩, fun _ _ => ⟨⟨al, ?_, config, network, stream, contexts⟩, ?_⟩, by rintro err ⟨⟩⟩
    · exact nodup_append_new settled.names absent name
    · intro entry inside
      rcases List.mem_append.mp inside with old | new
      · exact settled.contexts entry old
      · rw [List.mem_singleton.mp new, config]
        exact contexts
    · exact lookup_append_new absent name
    · exact filter_append_new name

/-- **Listener updates take effect** along every sequence of plain calls: a call that returns without error
leaves the listener under its name with exactly what it gave and all others as they were, one that returns
an error changes nothing, and names stay unique. -/
theorem updates_take_effect {calls : List (Call κ ρ ν σ)} {call : Call κ ρ ν σ}
    (plain : (machine newTLSConfig).Admits Plain {} (calls ++ [call])) :
    let ch := ((machine newTLSConfig).run {} calls).2
    let step := ch.addOrUpdateListener newTLSConfig call
    (∀ al, step.1 = .ok (.ok al) → Effective newTLSConfig ch step.2 call) ∧
      (∀ err, step.1 = .ok (.error err) → step.2 = ch) ∧ (step.2.listeners.map ActiveListener.name).Nodup := by
  intro ch step
  have settled : Settled newTLSConfig ch :=
    plain.front.keeps (fun holds here => (holds.call here (addOrUpdateListener_does newTLSConfig _ _)).1)
      ⟨List.nodup_nil, fun al no => absurd no List.not_mem_nil⟩
  obtain ⟨after, effective, unchanged⟩ := settled.call plain.behind.1 (addOrUpdateListener_does newTLSConfig ch call)
  exact ⟨effective, unchanged, after.names⟩

end

/-- A call for the listener `a` with TLS settings and filters. -/
def sample (chains : List (TLSSettings Unit)) (network stream : Nat) : Call Unit Unit Nat Nat where
  uuid := []
  lc := { name := ascii "a", addr := some ⟨ascii "tcp", ascii ":80"⟩, filterChains := chains, rest := () }
  networkFiltersFactories := network
  streamFiltersFactories := stream

/-- Every setting has its context. -/
def anyTLSConfig : TLSSettings Unit → Except GoError TLSConfig := fun _ => .ok { certificates := [] }

/-- Other filters for a listener that is there. -/
theorem updates_take_effect_filters : let ch := ((machine anyTLSConfig).run {} [sample [] 0 0]).2
    let step := ch.addOrUpdateListener anyTLSConfig (sample [] 1 1)
    (∃ al, step.1 = .ok (.ok al)) ∧ Effective anyTLSConfig ch step.2 (sample [] 1 1) := by
  have plain : (machine anyTLSConfig).Admits Plain {} ([sample [] 0 0] ++ [sample [] 1 1]) := by
    refine ⟨?_, ?_, trivial⟩
    · rintro al ⟨⟩
    · rintro al ⟨⟩ -
      exact ⟨by decide, fun same => absurd same.2 (by decide)⟩
  exact ⟨⟨_, rfl⟩, (updates_take_effect plain).1 _ rfl⟩

/-- **Two updates that are lost**: one of the stream filters alone, and one of the TLS settings. Both calls
return without error. -/
theorem updates_lost : let ch := ((machine anyTLSConfig).run {} [sample [] 0 0]).2
    (∃ ch', ch.addOrUpdateListener anyTLSConfig (sample [] 0 1) = (.ok (.ok none), ch') ∧
      ¬ Effective anyTLSConfig ch ch' (sample [] 0 1)) ∧
    ∃ al ch', ch.addOrUpdateListener anyTLSConfig (sample [{ status := true, rest := () }] 0 0) = (.ok (.ok (some al)), ch') ∧
      ¬ Effective anyTLSConfig ch ch' (sample [{ status := true, rest := () }] 0 0) := by
  refine ⟨⟨_, rfl, ?_⟩, _, _, rfl, ?_⟩
  · rintro ⟨⟨al, ⟨⟩, -, -, stream, -⟩, -⟩
    exact absurd stream (by decide)
  · rintro ⟨⟨al, ⟨⟩, -, -, -, contexts⟩, -⟩
    cases contexts

end Strike.Server
