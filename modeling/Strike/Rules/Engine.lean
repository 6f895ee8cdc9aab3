/-
**Rule engines** (`factory.go` and `rengine.go` of the common and of the auth filter).

`NewRuleEngineFactory` takes the address of its loop variable. Under Go 1.12 this is one variable for
the whole loop, so all engines of a factory point to one cell, which holds the last config of the list
when the loop is over, whether that rule is enabled or not (`newRuleEngineFactory_config`).

* `consult`: rules with the config each is judged by, in order, until one does not pass.
* `Common.built_new`, `Common.built_invoke`: the factories of the common filter, in any state of their limiters.
-/

import Strike.Rules.Matcher

namespace Strike.Rules

/-- What a rule says to a request; a panic leaves it without an answer. -/
inductive Verdict where
  | pass
  | refuse
  | panics
  deriving Repr, DecidableEq

section Factory

variable {Config Engine : Type}

/-- `RuleEngineFactory`: the cell all engines point to, and what the engines keep besides. -/
structure Factory (Config Engine : Type) where
  ruleConfig : Option Config := none
  ruleEngines : List Engine := []

/-- `NewRuleEngineFactory`. -/
def newRuleEngineFactory (enable : Config → Bool) (newRuleEngine : Config → Option Engine)
    (configs : List Config) : Factory Config Engine :=
  configs.foldl (fun f config =>
    { ruleConfig := some config
      ruleEngines := f.ruleEngines ++ (if enable config then (newRuleEngine config).toList else []) }) {}

/-- The rules in order until one does not pass: the engines and the headers they leave, and the verdict. -/
def consult (rule : Config → Engine → CommonHeader → Engine × CommonHeader × Verdict) :
    List (Config × Engine) → CommonHeader → List Engine × CommonHeader × Verdict
  | [], headers => ([], headers, .pass)
  | (config, engine) :: rest, headers =>
    match rule config engine headers with
    | (engine, headers, .pass) =>
      let (engines, headers, verdict) := consult rule rest headers
      (engine :: engines, headers, verdict)
    | (engine, headers, verdict) => (engine :: rest.map Prod.snd, headers, verdict)

/-- `RuleEngineFactory.invoke`: every engine reads the one cell. -/
def Factory.invoke (rule : Config → Engine → CommonHeader → Engine × CommonHeader × Verdict)
    (f : Factory Config Engine) (headers : CommonHeader) : List Engine × CommonHeader × Verdict :=
  match f.ruleConfig with
  | none => (f.ruleEngines, headers, .pass)
  | some config => consult rule (f.ruleEngines.map fun engine => (config, engine)) headers

theorem newRuleEngineFactory_snoc (enable : Config → Bool) (newRuleEngine : Config → Option Engine)
    (configs : List Config) (config : Config) :
    newRuleEngineFactory enable newRuleEngine (configs ++ [config]) =
      { ruleConfig := some config
        ruleEngines := (newRuleEngineFactory enable newRuleEngine configs).ruleEngines ++
          (if enable config then (newRuleEngine config).toList else []) } := by
  unfold newRuleEngineFactory
  rw [List.foldl_append]
  rfl

/-- **All engines point to the last config.** -/
theorem newRuleEngineFactory_config (enable : Config → Bool) (newRuleEngine : Config → Option Engine)
    (configs : List Config) :
    (newRuleEngineFactory enable newRuleEngine configs).ruleConfig = configs.getLast? := by
  induction configs using List.reverseRecOn with
  | nil => rfl
  | append_singleton configs config => rw [newRuleEngineFactory_snoc, List.getLast?_concat]

/-- The engines are those of the enabled rules. -/
theorem newRuleEngineFactory_engines (enable : Config → Bool) (newRuleEngine : Config → Option Engine)
    (configs : List Config) :
    (newRuleEngineFactory enable newRuleEngine configs).ruleEngines =
      (configs.filter enable).filterMap newRuleEngine := by
  induction configs using List.reverseRecOn with
  | nil => rfl
  | append_singleton configs config ih =>
    rw [newRuleEngineFactory_snoc, ih, List.filter_append, List.filterMap_append]
    cases enabled : enable config with
    | false => simp [enabled]
    | true => cases made : newRuleEngine config <;> simp [enabled, made]

end Factory

/-! ### The common filter -/

namespace Common

/-- `limit_strategy`: `QPS`, `RateLimiter`, `UserQPS` or any other text. -/
inductive LimitStrategy where
  | qps
  | rateLimiter
  | userQPS
  | other
  deriving Repr, DecidableEq

/-- `run_mode`: `CONTROL` or any other text. -/
inductive RunMode where
  | control
  | other
  deriving Repr, DecidableEq

/-- `LimitConfig`. -/
structure LimitConfig where
  limitStrategy : LimitStrategy := .other
  maxBurstRatio : ℚ := 0
  periodMs : Int := 0
  maxAllows : Int := 0
  key : Bytes := []
  deriving Repr, DecidableEq

/-- `RuleConfig`. -/
structure RuleConfig where
  enable : Bool := false
  runMode : RunMode := .other
  limitConfig : LimitConfig := {}
  resourceConfigs : List ResourceConfig := []
  deriving Repr, DecidableEq

/-- The settings the constructors of the limiters accept. -/
def Accepted (config : LimitConfig) : Prop :=
  match config.limitStrategy with
  | .qps => 0 ≤ config.maxAllows ∧ 0 < config.periodMs
  | .rateLimiter => 0 ≤ config.maxAllows ∧ 0 < config.periodMs ∧ 0 < config.maxBurstRatio
  | .userQPS => 0 ≤ config.maxAllows ∧ 0 < config.periodMs
  | .other => False

instance (config : LimitConfig) : Decidable (Accepted config) := by
  unfold Accepted
  cases config.limitStrategy <;> infer_instance

/-- **The limiters** (`limit.NewLimitEngine` and the interface `limit.Limiter`). A limiter reads the
clock by itself. Whatever its state, one that allows nothing grants nothing, and only the limiter of
the users looks at the key. -/
structure Limiters (Limiter : Type) where
  newLimitEngine : LimitConfig → Option Limiter
  tryAcquire : Limiter → Bytes → Bool × Limiter
  /-- The states of a limiter with these settings. -/
  Fits : LimitConfig → Limiter → Prop
  accepts : ∀ config, (∃ limiter, newLimitEngine config = some limiter) ↔ Accepted config
  new_fits : ∀ {config limiter}, newLimitEngine config = some limiter → Fits config limiter
  tryAcquire_fits : ∀ {config limiter}, Fits config limiter → ∀ key, Fits config (tryAcquire limiter key).2
  closed : ∀ {config limiter}, Fits config limiter → config.maxAllows ≤ 0 →
    ∀ key, (tryAcquire limiter key).1 = false
  blind : ∀ {config limiter}, Fits config limiter → config.limitStrategy ≠ .userQPS →
    ∀ key key', (tryAcquire limiter key).1 = (tryAcquire limiter key').1

/-- The rule is about the request. -/
def RuleConfig.matches (config : RuleConfig) (headers : CommonHeader) : Bool :=
  matchEngine (·.paramsRelation) headers config.resourceConfigs

/-- The value of the limit key. -/
def RuleConfig.limitKey (config : RuleConfig) (headers : CommonHeader) : Bytes :=
  (headers.get config.limitConfig.key).getD []

variable {Limiter : Type}

/-- `RuleEngine.invoke` with the config the engine reads. -/
def rule (limiters : Limiters Limiter) (config : RuleConfig) (limiter : Limiter) (headers : CommonHeader) :
    Limiter × CommonHeader × Verdict :=
  if config.matches headers then
    match limiters.tryAcquire limiter (config.limitKey headers) with
    | (true, limiter) => (limiter, headers, .pass)
    | (false, limiter) => (limiter, headers, if config.runMode = .control then .refuse else .pass)
  else (limiter, headers, .pass)

/-- `NewRuleEngineFactory`. -/
def newFactory (limiters : Limiters Limiter) (rules : List RuleConfig) : Factory RuleConfig Limiter :=
  newRuleEngineFactory (·.enable) (fun config => limiters.newLimitEngine config.limitConfig) rules

/-- **A factory of these rules, in any state of its limiters.** -/
structure Built (limiters : Limiters Limiter) (rules : List RuleConfig) (f : Factory RuleConfig Limiter) :
    Prop where
  config : f.ruleConfig = rules.getLast?
  fits : List.Forall₂ (fun config limiter => limiters.Fits config.limitConfig limiter)
    (rules.filter (·.enable)) f.ruleEngines

theorem built_new (limiters : Limiters Limiter) {rules : List RuleConfig}
    (accepted : ∀ config ∈ rules, config.enable = true → Accepted config.limitConfig) :
    Built limiters rules (newFactory limiters rules) := by
  refine ⟨newRuleEngineFactory_config _ _ _, ?_⟩
  unfold newFactory
  rw [newRuleEngineFactory_engines]
  have all : ∀ config ∈ rules.filter (·.enable), Accepted config.limitConfig := by
    intro config there
    obtain ⟨listed, enabled⟩ := List.mem_filter.mp there
    exact accepted config listed enabled
  revert all
  generalize rules.filter (·.enable) = enabled
  intro all
  induction enabled with
  | nil => exact .nil
  | cons first rest ih =>
    obtain ⟨here, later⟩ := List.forall_mem_cons.mp all
    obtain ⟨limiter, made⟩ := (limiters.accepts first.limitConfig).mpr here
    rw [List.filterMap_cons_some (f := fun config : RuleConfig => limiters.newLimitEngine config.limitConfig) made]
    exact .cons (limiters.new_fits made) (ih later)

theorem rule_fits {limiters : Limiters Limiter} {own : LimitConfig} {limiter : Limiter}
    (fits : limiters.Fits own limiter) (config : RuleConfig) (headers : CommonHeader) :
    limiters.Fits own (rule limiters config limiter headers).1 := by
  have kept := limiters.tryAcquire_fits fits (config.limitKey headers)
  unfold rule
  split
  · split
    · next got =>
        rw [got] at kept
        exact kept
    · next got =>
        rw [got] at kept
        exact kept
  · exact fits

theorem consult_fits {limiters : Limiters Limiter} {enabled : List RuleConfig} {engines : List Limiter}
    (fits : List.Forall₂ (fun config limiter => limiters.Fits config.limitConfig limiter) enabled engines)
    (config : RuleConfig) : ∀ headers,
      List.Forall₂ (fun config limiter => limiters.Fits config.limitConfig limiter) enabled
        (consult (rule limiters) (engines.map fun engine => (config, engine)) headers).1 := by
  induction fits with
  | nil => exact fun _ => .nil
  | @cons own limiter enabled engines here later ih =>
    intro headers
    have kept := rule_fits here config headers
    rw [List.map_cons]
    unfold consult
    split
    · next got =>
        rw [got] at kept
        exact .cons kept (ih _)
    · next got =>
        rw [got] at kept
        refine .cons kept ?_
        rwa [List.map_map, show (Prod.snd ∘ fun limiter : Limiter => (config, limiter)) = id from rfl,
          List.map_id]

/-- **A request leaves a factory of these rules.** -/
theorem built_invoke {limiters : Limiters Limiter} {rules : List RuleConfig} {f : Factory RuleConfig Limiter}
    (built : Built limiters rules f) (headers : CommonHeader) :
    Built limiters rules { f with ruleEngines := (f.invoke (rule limiters) headers).1 } := by
  refine ⟨built.config, ?_⟩
  show List.Forall₂ _ _ (f.invoke (rule limiters) headers).1
  unfold Factory.invoke
  cases f.ruleConfig with
  | none => exact built.fits
  | some config => exact consult_fits built.fits config headers

end Common

/-! ### The auth filter -/

namespace Auth

/-- `StrikeHeaderUsername`. -/
def strikeHeaderUsername : Bytes := ascii "x-strike-username"

/-- `RuleConfig`, with its `AuthConfig`. -/
structure RuleConfig where
  enable : Bool := false
  publicKey : Bytes := []
  tokenKey : Bytes := []
  resourceConfigs : List ResourceConfig := []
  deriving Repr, DecidableEq

/-- What is decoded: a token, with a public key. -/
structure Question where
  publicKey : Bytes
  token : Bytes
  deriving Repr, DecidableEq

/-- What `decode` does: it panics over a key that is none, refuses the token, or gives its claims, of
which one may be the text `orgi`. -/
inductive Decoded where
  | badKey
  | fails
  | claims (orgi : Option Bytes)
  deriving Repr, DecidableEq

/-- The rule is about the request. -/
def RuleConfig.matches (config : RuleConfig) (headers : CommonHeader) : Bool :=
  matchEngine (·.headersRelation) headers config.resourceConfigs

/-- `RuleEngine.invoke` with the config the engine reads. -/
def rule (decode : Question → Decoded) (config : RuleConfig) (_ : Unit) (headers : CommonHeader) :
    Unit × CommonHeader × Verdict :=
  if config.matches headers then
    match headers.get config.tokenKey with
    | some token =>
      match decode ⟨config.publicKey, token⟩ with
      | .badKey => ((), headers, .panics)
      | .fails => ((), headers, .refuse)
      | .claims none => ((), headers, .panics)
      | .claims (some orgi) => ((), headers.set strikeHeaderUsername orgi, .pass)
    | none => ((), headers, .refuse)
  else ((), headers, .pass)

/-- `NewRuleEngineFactory`. -/
def newFactory (rules : List RuleConfig) : Factory RuleConfig Unit :=
  newRuleEngineFactory (·.enable) (fun _ => some ()) rules

end Auth

end Strike.Rules
