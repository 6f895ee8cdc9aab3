/-
**Clusters and their hosts** (`clustermanager.go`, `cluster.go`, `concreteclusters.go`, `host.go`).

The manager keeps its clusters by name. A config update makes the cluster anew and hands its hosts over; a
host update merges the given hosts with those that are there.

Four things go wrong. A config is compared with a pointer to one, so it is never found to be in use and
the cluster is made anew. A config of an unknown type is a nil cluster, which the update takes for a simple
one. The weight of a host that is there already is not implemented. The factory of the health checkers is
never set.

* `cluster_updates_safe`: in a sequence of calls that all keep away from these (`Fine`) none panics, a
  failed call changes nothing, a config in use changes nothing, and a cluster holds the hosts it got last.
* `cluster_updates_panic`: what happens otherwise.
-/

import Strike.Lib.Machine
import Strike.Upstream.HostList

namespace Strike.Upstream

open Lib

/-- `v2.Host`. -/
structure HostConfig (η : Type) where
  address : String
  hostname : String := ""
  weight : UInt32 := 0
  rest : η
  deriving Repr, DecidableEq

/-- `v2.Cluster`, with the protocol of its health check. -/
structure ClusterConfig (η ρ : Type) where
  name : String
  clusterType : String
  maxRequestPerConn : UInt32 := 0
  connBufferLimitBytes : UInt32 := 0
  healthCheckProtocol : String := ""
  hosts : List (HostConfig η) := []
  rest : ρ
  deriving Repr, DecidableEq

/-- `clusterInfo`. The source address is that of the manager. -/
structure ClusterInfo where
  name : String
  clusterType : String
  addedViaAPI : Bool
  maxRequestsPerConn : UInt32
  connBufferLimitBytes : UInt32
  deriving Repr, DecidableEq

/-- `host`. -/
structure Host (η : Type) where
  config : HostConfig η
  clusterInfo : ClusterInfo
  deriving Repr, DecidableEq

/-- `prioritySet`: how many host sets and callbacks it has. The host sets never get a host. -/
@[ext]
structure PrioritySet where
  hostSets : Nat := 0
  updateCallbacks : Nat := 0
  deriving Repr, DecidableEq

/-- `simpleInMemCluster`. -/
structure Cluster (η : Type) where
  info : ClusterInfo
  prioritySet : PrioritySet := {}
  hosts : List (Host η) := []
  deriving Repr, DecidableEq

/-- `primaryCluster`. -/
structure PrimaryCluster (η ρ : Type) where
  cluster : Cluster η
  addedViaAPI : Bool
  configUsed : ClusterConfig η ρ
  deriving Repr, DecidableEq

/-- `clusterManager`. -/
structure ClusterManager (η ρ : Type) where
  primaryClusters : String → Option (PrimaryCluster η ρ) := fun _ => none

variable {η ρ : Type}

/-! ### Hosts -/

namespace Host

/-- `NewHost`. -/
def new (config : HostConfig η) (clusterInfo : ClusterInfo) : Host η := ⟨config, clusterInfo⟩

/-- `AddressString`. -/
def addressString (h : Host η) : String := h.config.address

/-- `Weight`. -/
def weight (_ : Host η) : Except Panic UInt32 := .error (.message "implement me")

/-- `SetWeight`. -/
def setWeight (_ : Host η) (_ : UInt32) : Except Panic (Host η) := .error (.message "implement me")

end Host

/-- `updateDynamicHostList`, where the weight of a host that stays is set by `curNh.SetWeight(nh.Weight())`. -/
def updateDynamicHostList (newHosts currentHosts : List (Host η)) :
    Except Panic (DynamicClusterBase.Difference (Host η)) :=
  DynamicClusterBase.updateDynamicHostList Host.addressString (fun curNh nh => do curNh.setWeight (← nh.weight))
    newHosts currentHosts

/-! ### Clusters -/

/-- `GetOrCreateHostSet(0)`. -/
def PrioritySet.getOrCreateHostSet (ps : PrioritySet) : PrioritySet :=
  if ps.hostSets < 1 then { ps with hostSets := 1 } else ps

/-- `UpdateHosts`. -/
def Cluster.updateHosts (c : Cluster η) (newHosts : List (Host η)) : Except Panic (Cluster η) := do
  let d ← updateDynamicHostList newHosts c.hosts
  return if d.changed then { c with hosts := d.finalHosts, prioritySet := c.prioritySet.getOrCreateHostSet } else c

/-- `SIMPLE_CLUSTER`, `DYNAMIC_CLUSTER` and `EDS_CLUSTER`. -/
def Known (clusterType : String) : Prop := clusterType = "SIMPLE" ∨ clusterType = "DYNAMIC" ∨ clusterType = "EDS"

instance (clusterType : String) : Decidable (Known clusterType) := inferInstanceAs (Decidable (_ ∨ _))

/-- The info of a cluster with a config. -/
def ClusterConfig.info (clusterConfig : ClusterConfig η ρ) (addedViaAPI : Bool) : ClusterInfo where
  name := clusterConfig.name
  clusterType := clusterConfig.clusterType
  addedViaAPI
  maxRequestsPerConn := clusterConfig.maxRequestPerConn
  connBufferLimitBytes := clusterConfig.connBufferLimitBytes

/-- `NewCluster`. `HealthCheckFactoryInstance` is nil. -/
def newCluster (clusterConfig : ClusterConfig η ρ) (addedViaAPI : Bool) : Except Panic (Option (Cluster η)) :=
  if Known clusterConfig.clusterType then
    if clusterConfig.healthCheckProtocol ≠ "" then .error nilDereference
    else .ok (some { info := clusterConfig.info addedViaAPI })
  else .ok none

/-- `Initialize` with the callback of `loadCluster`. -/
def Cluster.initialized (c : Cluster η) : Cluster η :=
  { c with prioritySet := { c.prioritySet with updateCallbacks := c.prioritySet.updateCallbacks + 1 } }

/-! ### The manager -/

namespace ClusterManager

variable (cm : ClusterManager η ρ)

/-- `primaryClusters.Store`. -/
def store (name : String) (pc : PrimaryCluster η ρ) : ClusterManager η ρ :=
  ⟨Function.update cm.primaryClusters name (some pc)⟩

/-- `loadCluster`. -/
def loadCluster (clusterConfig : ClusterConfig η ρ) (addedViaAPI : Bool) :
    Except Panic (Bool × ClusterManager η ρ) := do
  match ← newCluster clusterConfig addedViaAPI with
  | none => return (false, cm)
  | some cluster => return (true, cm.store clusterConfig.name ⟨cluster.initialized, addedViaAPI, clusterConfig⟩)

/-- The assertion that a nil cluster is a simple one. -/
def nilAssertion : Panic := .runtime "interface conversion: interface is nil, not *cluster.simpleInMemCluster"

/-- `updateCluster`. `reflect.DeepEqual` of a config and a pointer to one is false, so none is found to be
a duplicate. -/
def updateCluster (clusterConf : ClusterConfig η ρ) (pcluster : PrimaryCluster η ρ) (addedViaAPI : Bool) :
    Except Panic (Bool × ClusterManager η ρ) := do
  match ← newCluster clusterConf addedViaAPI with
  | none => throw nilAssertion
  | some cluster =>
    let cluster ← cluster.updateHosts pcluster.cluster.hosts
    return (true, cm.store clusterConf.name ⟨cluster, addedViaAPI, clusterConf⟩)

/-- `AddOrUpdatePrimaryCluster`. -/
def addOrUpdatePrimaryCluster (cluster : ClusterConfig η ρ) : Except Panic (Bool × ClusterManager η ρ) :=
  match cm.primaryClusters cluster.name with
  | some pcluster => if !pcluster.addedViaAPI then .ok (false, cm) else cm.updateCluster cluster pcluster true
  | none => cm.loadCluster cluster true

/-- The error about a cluster that is not there. -/
def errNotFound (clusterName : String) : GoError :=
  .new s!"UpdateClusterHosts failed, cluster {clusterName} not found"

/-- `UpdateClusterHosts`, with the `UpdateHosts` of the primary cluster, which returns no error. -/
def updateClusterHosts (clusterName : String) (_priority : UInt32) (hostConfigs : List (HostConfig η)) :
    Except Panic (Option GoError × ClusterManager η ρ) :=
  match cm.primaryClusters clusterName with
  | none => .ok (some (errNotFound clusterName), cm)
  | some pc => do
    let hosts := hostConfigs.map (Host.new · pc.cluster.info)
    let cluster ← pc.cluster.updateHosts hosts
    return (none, cm.store clusterName
      { pc with cluster, configUsed := { pc.configUsed with hosts := hosts.map Host.config } })

end ClusterManager

/-- A call. -/
inductive Call (η ρ : Type) where
  | addOrUpdate (cluster : ClusterConfig η ρ)
  | updateHosts (clusterName : String) (priority : UInt32) (hostConfigs : List (HostConfig η))
  deriving Repr, DecidableEq

/-- What a call returns. -/
inductive Answer where
  | done (ok : Bool)
  | updated (err : Option GoError)
  deriving Repr, DecidableEq

/-- False or an error. -/
def Answer.failed : Answer → Bool
  | .done ok => !ok
  | .updated err => err.isSome

/-- A call. Nothing is stored before a panic. -/
def ClusterManager.call (cm : ClusterManager η ρ) : Call η ρ → Except Panic Answer × ClusterManager η ρ
  | .addOrUpdate cluster =>
    match cm.addOrUpdatePrimaryCluster cluster with
    | .ok (ok, cm') => (.ok (.done ok), cm')
    | .error cause => (.error cause, cm)
  | .updateHosts clusterName priority hostConfigs =>
    match cm.updateClusterHosts clusterName priority hostConfigs with
    | .ok (err, cm') => (.ok (.updated err), cm')
    | .error cause => (.error cause, cm)

/-- The manager as a machine. -/
def machine : Machine (ClusterManager η ρ) (Call η ρ) (Except Panic Answer) := ⟨ClusterManager.call⟩

/-! ### Hosts that are not there yet -/

/-- None of the given hosts is at an address of the current ones. -/
def Apart (newHosts currentHosts : List (Host η)) : Prop :=
  ∀ nh ∈ newHosts, nh.addressString ∉ currentHosts.map Host.addressString

/-- **Hosts that are not there yet replace the others.** There is a host set then, unless there was and is
no host. -/
theorem Cluster.updateHosts_apart (c : Cluster η) {newHosts : List (Host η)} (apart : Apart newHosts c.hosts) :
    c.updateHosts newHosts = .ok { c with
      hosts := firsts Host.addressString newHosts
      prioritySet := if firsts Host.addressString newHosts = [] ∧ c.hosts = [] then c.prioritySet
        else c.prioritySet.getOrCreateHostSet } := by
  rw [updateHosts, updateDynamicHostList, DynamicClusterBase.updateDynamicHostList_apart apart]
  by_cases still : firsts Host.addressString newHosts = [] ∧ c.hosts = []
  · obtain ⟨info, prioritySet, hosts⟩ := c
    obtain ⟨empty, rfl⟩ := still
    simp [empty, bind, Except.bind, pure, Except.pure]
  · rw [if_neg still]
    exact congrArg Except.ok (if_pos (decide_eq_true still))

theorem newCluster_known {clusterConfig : ClusterConfig η ρ} (known : Known clusterConfig.clusterType)
    (unchecked : clusterConfig.healthCheckProtocol = "") (addedViaAPI : Bool) :
    newCluster clusterConfig addedViaAPI = .ok (some { info := clusterConfig.info addedViaAPI }) := by
  rw [newCluster, if_pos known, if_neg (not_not.mpr unchecked)]

theorem newCluster_unknown {clusterConfig : ClusterConfig η ρ} (unknown : ¬ Known clusterConfig.clusterType)
    (addedViaAPI : Bool) : newCluster clusterConfig addedViaAPI = .ok none := by
  rw [newCluster, if_neg unknown]

/-- The cluster a config update makes, with the hosts it hands over. -/
def Cluster.rebuilt (info : ClusterInfo) (hosts : List (Host η)) : Cluster η :=
  { info, hosts, prioritySet := { hostSets := if hosts = [] then 0 else 1 } }

variable {hosts : List (Host η)} {cm : ClusterManager η ρ} {call : Call η ρ}

theorem updateHosts_new (info : ClusterInfo) (distinct : (hosts.map Host.addressString).Nodup) :
    ({ info } : Cluster η).updateHosts hosts = .ok (.rebuilt info hosts) := by
  rw [Cluster.updateHosts_apart _ (fun _ _ => List.not_mem_nil), firsts_of_nodup distinct, Cluster.rebuilt]
  by_cases empty : hosts = []
  · simp [empty]
  · simp [empty, PrioritySet.getOrCreateHostSet]

/-! ### Sequences of calls -/

/-- What holds of every cluster. -/
structure PrimaryCluster.Valid (pc : PrimaryCluster η ρ) : Prop where
  info : pc.cluster.info = pc.configUsed.info true
  viaAPI : pc.addedViaAPI = true
  distinct : (pc.cluster.hosts.map Host.addressString).Nodup
  sets : pc.cluster.prioritySet.hostSets ≤ 1
  filled : pc.cluster.hosts ≠ [] → pc.cluster.prioritySet.hostSets = 1

/-- What holds of the manager. -/
def ClusterManager.Valid (cm : ClusterManager η ρ) : Prop := ∀ name, ∀ pc ∈ cm.primaryClusters name, pc.Valid

/-- The cluster is as a config update leaves it: without the callback it was loaded with, and without host
set if it has no host. -/
def Cluster.Rebuilt (c : Cluster η) : Prop :=
  c.prioritySet.updateCallbacks = 0 ∧ (c.hosts = [] → c.prioritySet.hostSets = 0)

/-- **A call that keeps away from what goes wrong.** No health check is asked for, a cluster that is there
gets a config of a known type, and the config in use only if it had an update before; and hosts are new. -/
def Fine (cm : ClusterManager η ρ) : Call η ρ → Prop
  | .addOrUpdate cluster =>
    (Known cluster.clusterType → cluster.healthCheckProtocol = "") ∧
      ∀ pc ∈ cm.primaryClusters cluster.name,
        Known cluster.clusterType ∧ (pc.configUsed = cluster → pc.cluster.Rebuilt)
  | .updateHosts clusterName _ hostConfigs =>
    ∀ pc ∈ cm.primaryClusters clusterName, ∀ config ∈ hostConfigs,
      config.address ∉ pc.cluster.hosts.map Host.addressString

/-- The primary cluster after an update of its hosts. -/
def PrimaryCluster.withHosts (pc : PrimaryCluster η ρ) (hostConfigs : List (HostConfig η)) : PrimaryCluster η ρ :=
  let hosts := firsts Host.addressString (hostConfigs.map (Host.new · pc.cluster.info))
  { pc with
    cluster := { pc.cluster with
      hosts
      prioritySet := if hosts = [] ∧ pc.cluster.hosts = [] then pc.cluster.prioritySet
        else pc.cluster.prioritySet.getOrCreateHostSet }
    configUsed := { pc.configUsed with hosts := hostConfigs } }

/-- **Everything a fine call can do.** -/
inductive Does (cm : ClusterManager η ρ) : Call η ρ → Except Panic Answer × ClusterManager η ρ → Prop where
  | refuses {cluster : ClusterConfig η ρ} (absent : cm.primaryClusters cluster.name = none) :
      Does cm (.addOrUpdate cluster) (.ok (.done false), cm)
  | loads {cluster : ClusterConfig η ρ} (absent : cm.primaryClusters cluster.name = none) :
      Does cm (.addOrUpdate cluster) (.ok (.done true),
        cm.store cluster.name ⟨Cluster.initialized { info := cluster.info true }, true, cluster⟩)
  | rebuilds {cluster : ClusterConfig η ρ} {pc : PrimaryCluster η ρ} (found : cm.primaryClusters cluster.name = some pc) :
      Does cm (.addOrUpdate cluster) (.ok (.done true),
        cm.store cluster.name ⟨.rebuilt (cluster.info true) pc.cluster.hosts, true, cluster⟩)
  | misses {name : String} {priority : UInt32} {hostConfigs : List (HostConfig η)} (err : GoError)
      (absent : cm.primaryClusters name = none) :
      Does cm (.updateHosts name priority hostConfigs) (.ok (.updated (some err)), cm)
  | hands {name : String} {priority : UInt32} {hostConfigs : List (HostConfig η)} {pc : PrimaryCluster η ρ}
      (found : cm.primaryClusters name = some pc) :
      Does cm (.updateHosts name priority hostConfigs) (.ok (.updated none), cm.store name (pc.withHosts hostConfigs))

theorem call_does (valid : cm.Valid) (fine : Fine cm call) : Does cm call (cm.call call) := by
  cases call with
  | addOrUpdate cluster =>
    obtain ⟨unchecked, suits⟩ := fine
    cases found : cm.primaryClusters cluster.name with
    | none =>
      by_cases known : Known cluster.clusterType
      · have loaded : cm.addOrUpdatePrimaryCluster cluster = .ok (true,
            cm.store cluster.name ⟨Cluster.initialized { info := cluster.info true }, true, cluster⟩) := by
          rw [ClusterManager.addOrUpdatePrimaryCluster, found]
          simp only
          rw [ClusterManager.loadCluster, newCluster_known known (unchecked known)]
          rfl
        rw [ClusterManager.call, loaded]
        exact .loads found
      · have refused : cm.addOrUpdatePrimaryCluster cluster = .ok (false, cm) := by
          rw [ClusterManager.addOrUpdatePrimaryCluster, found]
          simp only
          rw [ClusterManager.loadCluster, newCluster_unknown known]
          rfl
        rw [ClusterManager.call, refused]
        exact .refuses found
    | some pc =>
      have known := (suits pc found).1
      have updated : cm.addOrUpdatePrimaryCluster cluster = .ok (true,
          cm.store cluster.name ⟨.rebuilt (cluster.info true) pc.cluster.hosts, true, cluster⟩) := by
        rw [ClusterManager.addOrUpdatePrimaryCluster, found]
        simp only
        rw [(valid _ pc found).viaAPI, if_neg (by decide), ClusterManager.updateCluster,
          newCluster_known known (unchecked known)]
        simp only [bind, Except.bind]
        rw [updateHosts_new (cluster.info true) (valid _ pc found).distinct]
        rfl
      rw [ClusterManager.call, updated]
      exact .rebuilds found
  | updateHosts name priority hostConfigs =>
    cases found : cm.primaryClusters name with
    | none =>
      rw [ClusterManager.call, ClusterManager.updateClusterHosts, found]
      exact .misses _ found
    | some pc =>
      have apart : Apart (hostConfigs.map (Host.new · pc.cluster.info)) pc.cluster.hosts := by
        intro nh there
        obtain ⟨config, given, rfl⟩ := List.mem_map.mp there
        exact fine pc found config given
      have configs : (hostConfigs.map (Host.new · pc.cluster.info)).map Host.config = hostConfigs := by
        rw [List.map_map]
        exact List.map_id _
      have updated : cm.updateClusterHosts name priority hostConfigs =
          .ok (none, cm.store name (pc.withHosts hostConfigs)) := by
        rw [ClusterManager.updateClusterHosts, found]
        simp only [pc.cluster.updateHosts_apart apart, configs]
        rfl
      rw [ClusterManager.call, updated]
      exact .hands found

/-! ### What calls keep -/

theorem store_self (cm : ClusterManager η ρ) (name : String) (pc : PrimaryCluster η ρ) :
    (cm.store name pc).primaryClusters name = some pc :=
  Function.update_self ..

theorem store_of_ne (cm : ClusterManager η ρ) {name other : String} (pc : PrimaryCluster η ρ) (differ : other ≠ name) :
    (cm.store name pc).primaryClusters other = cm.primaryClusters other :=
  Function.update_of_ne differ ..

variable {name : String} {pc : PrimaryCluster η ρ}

theorem store_same (found : cm.primaryClusters name = some pc) : cm.store name pc = cm := by
  rw [ClusterManager.store, ← found, Function.update_eq_self]

theorem ClusterManager.Valid.store (valid : cm.Valid) (name : String) (fits : pc.Valid) : (cm.store name pc).Valid := by
  intro other pc' found
  by_cases same : other = name
  · rw [same, store_self] at found
    cases found
    exact fits
  · rw [store_of_ne cm pc same] at found
    exact valid other pc' found

theorem PrioritySet.getOrCreateHostSet_hostSets {ps : PrioritySet} (sets : ps.hostSets ≤ 1) :
    ps.getOrCreateHostSet.hostSets = 1 := by
  unfold getOrCreateHostSet
  split
  · rfl
  · omega

theorem PrimaryCluster.Valid.withHosts (valid : pc.Valid) (hostConfigs : List (HostConfig η)) :
    (pc.withHosts hostConfigs).Valid where
  info := valid.info
  viaAPI := valid.viaAPI
  distinct := nodup_firsts _
  sets := by
    unfold PrimaryCluster.withHosts
    dsimp only
    split
    · exact valid.sets
    · exact (PrioritySet.getOrCreateHostSet_hostSets valid.sets).le
  filled := by
    intro some_
    unfold PrimaryCluster.withHosts at some_ ⊢
    dsimp only at some_ ⊢
    rw [if_neg fun still => some_ still.1]
    exact PrioritySet.getOrCreateHostSet_hostSets valid.sets

theorem Does.valid {cm cm' : ClusterManager η ρ} {answer : Except Panic Answer}
    (does : Does cm call (answer, cm')) (valid : cm.Valid) : cm'.Valid := by
  cases does with
  | refuses absent => exact valid
  | loads absent => exact valid.store _ ⟨rfl, rfl, List.nodup_nil, Nat.zero_le 1, fun some_ => absurd rfl some_⟩
  | @rebuilds cluster pc found =>
    refine valid.store _ ⟨rfl, rfl, (valid _ pc found).distinct, ?_, fun some_ => if_neg some_⟩
    unfold Cluster.rebuilt
    dsimp only
    split <;> decide
  | misses err absent => exact valid
  | @hands name priority hostConfigs pc found => exact valid.store _ ((valid _ pc found).withHosts hostConfigs)

/-- The config in use changes nothing in a cluster that had an update before. -/
theorem rebuilt_self (valid : pc.Valid) (rebuilt : pc.cluster.Rebuilt) :
    (⟨.rebuilt (pc.configUsed.info true) pc.cluster.hosts, true, pc.configUsed⟩ : PrimaryCluster η ρ) = pc := by
  have sets : ({ hostSets := if pc.cluster.hosts = [] then 0 else 1 } : PrioritySet) = pc.cluster.prioritySet := by
    refine PrioritySet.ext ?_ rebuilt.1.symm
    dsimp only
    split
    · next empty => exact (rebuilt.2 empty).symm
    · next some_ => exact (valid.filled some_).symm
  rw [Cluster.rebuilt, sets, ← valid.info, ← valid.viaAPI]

/-- **What a call has to do**: return, change nothing where it fails, and change nothing with the config in
use. -/
structure Safe (cm : ClusterManager η ρ) (call : Call η ρ) : Prop where
  returns : ∃ answer, (cm.call call).1 = .ok answer
  failed : ∀ answer, (cm.call call).1 = .ok answer → answer.failed → (cm.call call).2 = cm
  inUse : ∀ cluster, call = .addOrUpdate cluster → ∀ pc ∈ cm.primaryClusters cluster.name, pc.configUsed = cluster →
    (cm.call call).2 = cm

theorem safe_of_fine (valid : cm.Valid) (fine : Fine cm call) : Safe cm call := by
  have does := call_does valid fine
  generalize called : cm.call call = result at does
  constructor
  · rw [called]
    cases does <;> exact ⟨_, rfl⟩
  · rw [called]
    cases does with
    | refuses absent => exact fun _ _ _ => rfl
    | misses err absent => exact fun _ _ _ => rfl
    | _ =>
      rintro answer ⟨⟩ no
      cases no
  · rintro cluster rfl pc found inUse
    rw [called]
    have rebuilt := (fine.2 pc found).2 inUse
    subst inUse
    cases does with
    | refuses absent => rfl
    | loads absent => exact absurd (found.symm.trans absent) (Option.some_ne_none pc)
    | @rebuilds _ pc' found' =>
      obtain rfl : pc = pc' := Option.some.inj (found.symm.trans found')
      rw [rebuilt_self (valid _ pc found) rebuilt, store_same found]

/-- The call is an update of the hosts of the cluster. -/
def Call.UpdatesHosts (name : String) : Call η ρ → Prop
  | .addOrUpdate _ => False
  | .updateHosts clusterName _ _ => clusterName = name

theorem Does.keeps_hosts {cm cm' : ClusterManager η ρ} {answer : Except Panic Answer}
    (does : Does cm call (answer, cm')) (other : ¬ call.UpdatesHosts name)
    (held : ∃ pc, cm.primaryClusters name = some pc ∧ pc.cluster.hosts = hosts) :
    ∃ pc, cm'.primaryClusters name = some pc ∧ pc.cluster.hosts = hosts := by
  obtain ⟨pc, found, holds⟩ := held
  cases does with
  | refuses absent => exact ⟨pc, found, holds⟩
  | @loads cluster absent =>
    have differ : name ≠ cluster.name := by
      rintro rfl
      exact absurd (found.symm.trans absent) (Option.some_ne_none pc)
    exact ⟨pc, (store_of_ne cm _ differ).trans found, holds⟩
  | @rebuilds cluster pc' found' =>
    by_cases same : name = cluster.name
    · subst same
      obtain rfl : pc = pc' := Option.some.inj (found.symm.trans found')
      exact ⟨_, store_self .., holds⟩
    · exact ⟨pc, (store_of_ne cm _ same).trans found, holds⟩
  | misses err absent => exact ⟨pc, found, holds⟩
  | hands found' => exact ⟨pc, (store_of_ne cm _ (Ne.symm other)).trans found, holds⟩

/-- **The cluster holds exactly the given addresses**, each once. -/
def Holds (cm : ClusterManager η ρ) (name : String) (hostConfigs : List (HostConfig η)) : Prop :=
  ∃ pc, cm.primaryClusters name = some pc ∧ (pc.cluster.hosts.map Host.addressString).Nodup ∧
    ∀ address, address ∈ pc.cluster.hosts.map Host.addressString ↔ address ∈ hostConfigs.map HostConfig.address

theorem Does.holds {priority : UInt32} {hostConfigs : List (HostConfig η)}
    {result : Except Panic Answer × ClusterManager η ρ} (does : Does cm (.updateHosts name priority hostConfigs) result)
    (success : result.1 = .ok (.updated none)) :
    ∃ pc, result.2.primaryClusters name = some pc ∧ ∃ info,
      pc.cluster.hosts = firsts Host.addressString (hostConfigs.map (Host.new · info)) := by
  cases does with
  | misses err absent => cases success
  | @hands _ _ _ pc found => exact ⟨_, store_self .., pc.cluster.info, rfl⟩

theorem holds_of_firsts {hostConfigs : List (HostConfig η)} {info : ClusterInfo}
    (held : ∃ pc, cm.primaryClusters name = some pc ∧
      pc.cluster.hosts = firsts Host.addressString (hostConfigs.map (Host.new · info))) :
    Holds cm name hostConfigs := by
  obtain ⟨pc, found, hosts⟩ := held
  refine ⟨pc, found, ?_, ?_⟩
  · rw [hosts]
    exact nodup_firsts _
  · intro address
    rw [hosts, mem_firsts, List.map_map]
    rfl

theorem valid_run {calls : List (Call η ρ)} (valid : cm.Valid) (fine : machine.Admits Fine cm calls) :
    (machine.run cm calls).2.Valid :=
  fine.keeps (P := ClusterManager.Valid) (fun holds here => (call_does holds here).valid holds) valid

theorem hosts_run (calls : List (Call η ρ)) :
    ∀ {cm : ClusterManager η ρ}, cm.Valid → machine.Admits Fine cm calls → (∀ call ∈ calls, ¬ call.UpdatesHosts name) →
      (∃ pc, cm.primaryClusters name = some pc ∧ pc.cluster.hosts = hosts) →
      ∃ pc, (machine.run cm calls).2.primaryClusters name = some pc ∧ pc.cluster.hosts = hosts := by
  induction calls with
  | nil => exact fun _ _ _ held => held
  | cons call calls ih =>
    intro cm valid fine others held
    obtain ⟨other, later⟩ := List.forall_mem_cons.mp others
    have does := call_does valid fine.1
    exact ih (does.valid valid) fine.2 later (does.keeps_hosts other held)

/-- **Cluster updates are safe** in every sequence of fine calls. Every call returns; one that returns false
or an error changes nothing, and so does one with the config in use; and from a successful host update on
the cluster holds exactly the given addresses, whatever configs it gets, until the next host update. -/
theorem cluster_updates_safe {calls : List (Call η ρ)} (fine : machine.Admits Fine {} calls) :
    (∀ front call back, calls = front ++ call :: back → Safe (machine.run {} front).2 call) ∧
    ∀ front name priority hostConfigs later back,
      calls = front ++ .updateHosts name priority hostConfigs :: (later ++ back) →
      ((machine.run {} front).2.call (.updateHosts name priority hostConfigs)).1 = .ok (.updated none) →
      (∀ call ∈ later, ¬ call.UpdatesHosts name) →
      Holds (machine.run {} (front ++ .updateHosts name priority hostConfigs :: later)).2 name hostConfigs := by
  have start : ({} : ClusterManager η ρ).Valid := by
    rintro name pc ⟨⟩
  constructor
  · rintro front call back rfl
    exact safe_of_fine (valid_run start fine.front) fine.behind.1
  · rintro front name priority hostConfigs later back rfl success others
    have valid := valid_run start fine.front
    have does := call_does valid fine.behind.1
    rw [Machine.run_append, Machine.run_cons]
    obtain ⟨pc, found, info, hosts⟩ := does.holds success
    exact holds_of_firsts (hosts_run later (does.valid valid) fine.behind.2.front others ⟨pc, found, hosts⟩)

/-- A simple cluster `a`. -/
def simple : ClusterConfig Unit Unit := { name := "a", clusterType := "SIMPLE", rest := () }

/-- A host. -/
def hostAt (address : String) : HostConfig Unit := { address, rest := () }

/-- A cluster gets hosts, one of them twice, and then another config. -/
theorem cluster_updates_safe_later :
    Holds (machine.run {} [.addOrUpdate simple, .updateHosts "a" 0 [hostAt "x", hostAt "y", hostAt "x"],
      .addOrUpdate { simple with maxRequestPerConn := 9 }]).2 "a" [hostAt "x", hostAt "y", hostAt "x"] := by
  have fine : machine.Admits Fine {} ([.addOrUpdate simple] ++ .updateHosts "a" 0 [hostAt "x", hostAt "y", hostAt "x"] ::
      ([.addOrUpdate { simple with maxRequestPerConn := 9 }] ++ [])) := by
    refine ⟨⟨fun _ => rfl, ?_⟩, ?_, ⟨fun _ => rfl, ?_⟩, trivial⟩
    · rintro pc ⟨⟩
    · rintro pc ⟨⟩ config -
      exact List.not_mem_nil
    · rintro pc ⟨⟩
      exact ⟨by decide, fun same => absurd (congrArg ClusterConfig.maxRequestPerConn same) (by decide)⟩
  refine (cluster_updates_safe fine).2 [.addOrUpdate simple] "a" 0 _ [.addOrUpdate _] [] rfl ?_ ?_
  · rfl
  · rintro call only
    rw [List.mem_singleton] at only
    rw [only]
    exact id

/-- **Four calls that are not safe**: an update to an unknown type, one of a host that is there and a config
with a health check panic; and the config in use takes the callback from a cluster. -/
theorem cluster_updates_panic :
    ((machine.run {} [.addOrUpdate simple]).2.call (.addOrUpdate { simple with clusterType := "STATIC" })).1 =
      .error ClusterManager.nilAssertion ∧
    ((machine.run {} [.addOrUpdate simple, .updateHosts "a" 0 [hostAt "x"]]).2.call (.updateHosts "a" 0 [hostAt "x"])).1 =
      .error (.message "implement me") ∧
    (({} : ClusterManager Unit Unit).call (.addOrUpdate { simple with healthCheckProtocol := "Http1" })).1 =
      .error nilDereference ∧
    ((machine.run {} [.addOrUpdate simple]).2.call (.addOrUpdate simple)).2 ≠ (machine.run {} [.addOrUpdate simple]).2 := by
  refine ⟨by rfl, by rfl, by rfl, ?_⟩
  intro same
  have callbacks := congrArg (fun cm => (cm.primaryClusters "a").map (·.cluster.prioritySet.updateCallbacks)) same
  exact absurd callbacks (by decide)

end Strike.Upstream
