/-
**What a rule config says, and what the matchers make of it.**

A resource config is a formula (`Fits`): its comparisons of headers, joined by `headers_relation`, and its
comparisons of parameters, joined by `params_relation`. The auth filter decides it. The common filter joins
the comparisons of headers by `params_relation`, so it misjudges a config where the two relations differ and
the headers are mixed (`Misjudged`).

* `defaultMatch_iff`: what either matcher decides, by the relation it takes for the headers.
* `Auth.matches_iff`: the auth filter decides the formula.
* `byFormula_iff`: when the common filter does, and the two agree.
-/

import Strike.Rules.Engine

namespace Strike.Rules

/-! ### The formula -/

/-- All of the listed items, or with `OR` at least one of them; an empty list is satisfied. -/
def Joined {α : Type} (relation : Relation) (items : List α) (holds : α → Prop) : Prop :=
  items = [] ∨ if relation = .or then ∃ item ∈ items, holds item else ∀ item ∈ items, holds item

/-- The comparison of a header holds. An absent header counts as empty. -/
def HeaderHolds (headers : CommonHeader) (comparison : ComparisonCofig) : Prop :=
  match comparison.compareType with
  | .equals => (headers.get comparison.key).getD [] = comparison.value
  | .notEquals => (headers.get comparison.key).getD [] ≠ comparison.value
  | .other => True

/-- The query string has the item `key=value`. -/
def HasParam (queryString key value : Bytes) : Prop := 61 ∉ key ∧ key ++ 61 :: value ∈ queryString.splitOn 38

/-- The comparison of a parameter holds, of which a request may have several. -/
def ParamHolds (queryString : Bytes) (comparison : ComparisonCofig) : Prop :=
  match comparison.compareType with
  | .equals => HasParam queryString comparison.key comparison.value
  | .notEquals => ¬ HasParam queryString comparison.key comparison.value
  | .other => True

/-- The query string of a header map. -/
def queryStringOf (headers : CommonHeader) : Bytes := (headers.get strikeHeaderQueryStringKey).getD []

/-- **A resource config as a formula.** -/
structure Fits (headers : CommonHeader) (config : ResourceConfig) : Prop where
  heads : Joined config.headersRelation config.headers (HeaderHolds headers)
  params : Joined config.paramsRelation config.params (ParamHolds (queryStringOf headers))

/-- **A rule config matches** where one of its resource configs fits. -/
def Formula (headers : CommonHeader) (configs : List ResourceConfig) : Prop :=
  ∃ config ∈ configs, Fits headers config

/-! ### The matchers -/

theorem foldl_and_iff (flags : List Bool) : ∀ matched : Bool,
    flags.foldl (fun matched flag => matched && flag) matched = true ↔
      matched = true ∧ ∀ flag ∈ flags, flag = true := by
  induction flags with
  | nil => simp
  | cons flag flags ih =>
    intro matched
    rw [List.foldl_cons, ih, Bool.and_eq_true, List.forall_mem_cons, and_assoc]

theorem foldl_or_iff (flags : List Bool) : ∀ matched : Bool,
    flags.foldl (fun matched flag => matched || flag) matched = true ↔ matched = true ∨ true ∈ flags := by
  induction flags with
  | nil => simp
  | cons flag flags ih =>
    intro matched
    rw [List.foldl_cons, ih, Bool.or_eq_true, List.mem_cons, or_assoc, eq_comm (b := flag)]

theorem join_iff (relation : Relation) (flags : List Bool) :
    join relation flags = true ↔ if relation = .or then true ∈ flags else ∀ flag ∈ flags, flag = true := by
  unfold join
  cases relation with
  | or => simpa using foldl_or_iff flags false
  | other => simpa using foldl_and_iff flags true

theorem join_map_iff {α : Type} (relation : Relation) (items : List α) {flag : α → Bool} {holds : α → Prop}
    (decides : ∀ item, flag item = true ↔ holds item) :
    (0 < items.length ∧ join relation (items.map flag) = false) ↔ ¬ Joined relation items holds := by
  have joined : join relation (items.map flag) = true ↔
      if relation = .or then ∃ item ∈ items, holds item else ∀ item ∈ items, holds item := by
    rw [join_iff]
    split_ifs
    · simp [decides]
    · simp [decides]
  rw [← Bool.not_eq_true, joined, List.length_pos_iff]
  unfold Joined
  exact not_or.symm

theorem compare_iff (headers : CommonHeader) (comparison : ComparisonCofig) :
    compare comparison ((headers.get comparison.key).getD []) = true ↔ HeaderHolds headers comparison := by
  unfold compare HeaderHolds
  cases comparison.compareType with
  | equals => rw [beq_iff_eq, eq_comm]
  | notEquals => rw [bne_iff_ne, ne_comm]
  | other => simp

theorem mem_queryParams (queryString key value : Bytes) :
    value ∈ ((queryParams queryString).filter fun pair => pair.1 == key).map Prod.snd ↔
      HasParam queryString key value := by
  unfold queryParams HasParam
  simp only [List.mem_map, List.mem_filter, List.mem_filterMap, Option.map_eq_some_iff, beq_iff_eq]
  constructor
  · rintro ⟨_, ⟨⟨item, there, n, found, rfl⟩, rfl⟩, rfl⟩
    obtain ⟨front, back, rfl, absent, rfl⟩ := indexByte_split found
    dsimp only
    rw [List.take_left, ← List.drop_drop, List.drop_left, List.drop_succ_cons, List.drop_zero]
    exact ⟨absent, there⟩
  · rintro ⟨absent, there⟩
    refine ⟨(key, value), ⟨⟨_, there, key.length, indexByte_append absent, ?_⟩, rfl⟩, rfl⟩
    rw [List.take_left, ← List.drop_drop, List.drop_left, List.drop_succ_cons, List.drop_zero]

theorem compares_iff (queryString : Bytes) (param : ComparisonCofig) :
    compares param (((queryParams queryString).filter fun pair => pair.1 == param.key).map Prod.snd) = true ↔
      ParamHolds queryString param := by
  have found : ((((queryParams queryString).filter fun pair => pair.1 == param.key).map Prod.snd).any
      fun target => param.value == target) = true ↔ HasParam queryString param.key param.value := by
    rw [← mem_queryParams, List.any_eq_true]
    simp only [beq_iff_eq, exists_eq_right']
  unfold compares ParamHolds
  cases param.compareType with
  | equals => exact found
  | notEquals => rw [Bool.not_eq_true', ← Bool.not_eq_true, found]
  | other => simp

/-- **What a matcher decides**: the formula, with the relation it takes for the headers. -/
theorem defaultMatch_iff (headersRelation : ResourceConfig → Relation) (headers : CommonHeader)
    (config : ResourceConfig) :
    defaultMatch headersRelation headers config = true ↔
      Joined (headersRelation config) config.headers (HeaderHolds headers) ∧
        Joined config.paramsRelation config.params (ParamHolds (queryStringOf headers)) := by
  have heads := join_map_iff (headersRelation config) config.headers (compare_iff headers)
  have params := join_map_iff config.paramsRelation config.params (compares_iff (queryStringOf headers))
  unfold defaultMatch matchHeaders matchQueryParams
  rw [show (headers.get strikeHeaderQueryStringKey).getD [] = queryStringOf headers from rfl]
  split_ifs with bad bad'
  · exact iff_of_false id fun both => heads.mp bad both.1
  · exact iff_of_false id fun both => params.mp bad' both.2
  · exact iff_of_true rfl ⟨not_not.mp (bad ∘ heads.mpr), not_not.mp (bad' ∘ params.mpr)⟩

theorem matchEngine_iff (headersRelation : ResourceConfig → Relation) (headers : CommonHeader)
    (configs : List ResourceConfig) :
    matchEngine headersRelation headers configs = true ↔
      ∃ config ∈ configs, Joined (headersRelation config) config.headers (HeaderHolds headers) ∧
        Joined config.paramsRelation config.params (ParamHolds (queryStringOf headers)) := by
  unfold matchEngine
  rw [List.any_eq_true]
  simp only [defaultMatch_iff]

/-- **The auth filter decides the formula.** -/
theorem Auth.matches_iff (config : Auth.RuleConfig) (headers : CommonHeader) :
    config.matches headers = true ↔ Formula headers config.resourceConfigs := by
  unfold Auth.RuleConfig.matches Formula
  rw [matchEngine_iff]
  exact exists_congr fun _ => and_congr_right fun _ => ⟨fun both => ⟨both.1, both.2⟩, fun fits => ⟨fits.1, fits.2⟩⟩

/-! ### Where the common filter goes wrong -/

/-- **A config the common filter misjudges**: one of its relations is `OR` and the other is not, its
parameters are satisfied, and of its comparisons of headers some hold and some do not. -/
structure Misjudged (headers : CommonHeader) (config : ResourceConfig) : Prop where
  differ : ¬ (config.headersRelation = .or ↔ config.paramsRelation = .or)
  params : Joined config.paramsRelation config.params (ParamHolds (queryStringOf headers))
  some_ : ∃ comparison ∈ config.headers, HeaderHolds headers comparison
  notAll : ∃ comparison ∈ config.headers, ¬ HeaderHolds headers comparison

section Judging

variable {headers : CommonHeader} {config : ResourceConfig}

/-- The relation does not matter where the items all hold or all fail. -/
theorem joined_congr {α : Type} {relation relation' : Relation} {items : List α} {holds : α → Prop}
    (alike : (relation = .or ↔ relation' = .or) ∨ (∀ item ∈ items, ¬ holds item) ∨ ∀ item ∈ items, holds item) :
    Joined relation items holds ↔ Joined relation' items holds := by
  unfold Joined
  by_cases empty : items = []
  · simp [empty]
  obtain ⟨first, there⟩ := List.exists_mem_of_ne_nil items empty
  rcases alike with same | none | all
  · by_cases any : relation = .or
    · rw [if_pos any, if_pos (same.mp any)]
    · rw [if_neg any, if_neg (any ∘ same.mpr)]
  · have noneHolds : ¬ ∃ item ∈ items, holds item := fun ⟨item, there, yes⟩ => none item there yes
    have notAll : ¬ ∀ item ∈ items, holds item := fun all => none first there (all first there)
    split_ifs <;> simp only [noneHolds, notAll]
  · have some_ : ∃ item ∈ items, holds item := ⟨first, there, all first there⟩
    split_ifs <;> simp only [some_, eq_true all]

theorem fits_of_not_misjudged (right : ¬ Misjudged headers config) :
    defaultMatch (·.paramsRelation) headers config = true ↔ Fits headers config := by
  rw [defaultMatch_iff]
  have swap : Joined config.paramsRelation config.params (ParamHolds (queryStringOf headers)) →
      (Joined config.paramsRelation config.headers (HeaderHolds headers) ↔
        Joined config.headersRelation config.headers (HeaderHolds headers)) := by
    intro params
    apply joined_congr
    by_contra mixed
    push Not at mixed
    obtain ⟨differ, some_, notAll⟩ := mixed
    exact right ⟨fun same => by grind, params, some_, notAll⟩
  exact ⟨fun ⟨heads, params⟩ => ⟨(swap params).mp heads, params⟩,
    fun ⟨heads, params⟩ => ⟨(swap params).mpr heads, params⟩⟩

/-- Whether the headers fit and whether the common filter says so both depend on which relation is `OR`. -/
theorem Misjudged.verdicts (wrong : Misjudged headers config) :
    (Fits headers config ↔ config.headersRelation = .or) ∧
      (defaultMatch (·.paramsRelation) headers config = true ↔ ¬ config.headersRelation = .or) := by
  obtain ⟨comparison, there, holds⟩ := wrong.some_
  have filled : config.headers ≠ [] := List.ne_nil_of_mem there
  have joined : ∀ relation, Joined relation config.headers (HeaderHolds headers) ↔ relation = .or := by
    intro relation
    unfold Joined
    rw [or_iff_right filled]
    obtain ⟨other, there', fails⟩ := wrong.notAll
    split_ifs with any
    · exact iff_of_true ⟨comparison, there, holds⟩ any
    · exact iff_of_false (fun all => fails (all other there')) any
  constructor
  · rw [← joined]
    exact ⟨Fits.heads, fun heads => ⟨heads, wrong.params⟩⟩
  · rw [defaultMatch_iff, joined]
    have differ := wrong.differ
    constructor
    · rintro ⟨params, -⟩ heads
      exact differ (iff_of_true heads params)
    · intro heads
      exact ⟨not_not.mp fun params => differ (iff_of_false heads params), wrong.params⟩

end Judging

/-- **Matched by the formula**: the common filter decides it, and the auth filter agrees on the same
resource configs. -/
structure ByFormula (headers : CommonHeader) (configs : List ResourceConfig) : Prop where
  common : ∀ rule : Common.RuleConfig, rule.resourceConfigs = configs →
    (rule.matches headers = true ↔ Formula headers configs)
  agree : ∀ (rule : Common.RuleConfig) (auth : Auth.RuleConfig), rule.resourceConfigs = configs →
    auth.resourceConfigs = configs → auth.matches headers = rule.matches headers

/-- **When a rule is matched by its formula.** For every header map and every rule config: exactly if the
common filter misjudges none of the resource configs, or a config that it does not misjudge fits, or it
misjudges two of them in opposite directions, so that one of them fits and it takes the other to fit. -/
theorem byFormula_iff (headers : CommonHeader) (configs : List ResourceConfig) : ByFormula headers configs ↔
      (∀ config ∈ configs, ¬ Misjudged headers config) ∨
      (∃ config ∈ configs, ¬ Misjudged headers config ∧ Fits headers config) ∨
      ((∃ config ∈ configs, Misjudged headers config ∧ config.headersRelation = .or) ∧
        ∃ config ∈ configs, Misjudged headers config ∧ config.headersRelation ≠ .or) := by
  have verdict : ByFormula headers configs ↔
      ((∃ config ∈ configs, defaultMatch (·.paramsRelation) headers config = true) ↔ Formula headers configs) := by
    have engine : ∀ rule : Common.RuleConfig, rule.resourceConfigs = configs →
        (rule.matches headers = true ↔ ∃ config ∈ configs, defaultMatch (·.paramsRelation) headers config = true) := by
      rintro rule rfl
      exact List.any_eq_true
    constructor
    · intro byFormula
      exact (engine { resourceConfigs := configs } rfl).symm.trans (byFormula.common _ rfl)
    · intro same
      refine ⟨fun rule given => (engine rule given).trans same, fun rule auth given given' => ?_⟩
      rw [Bool.eq_iff_iff, Auth.matches_iff, given', engine rule given, same]
  rw [verdict]
  constructor
  · intro same
    by_contra rest
    push Not at rest
    obtain ⟨⟨config, there, wrong⟩, noneFits, oneWay⟩ := rest
    by_cases any : config.headersRelation = .or
    · -- This one fits, so the filter takes another one to fit, which it does not misjudge the same way.
      obtain ⟨other, there', taken⟩ := same.mpr ⟨config, there, wrong.verdicts.1.mpr any⟩
      by_cases wrong' : Misjudged headers other
      · exact wrong'.verdicts.2.mp taken (oneWay ⟨config, there, wrong, any⟩ other there' wrong')
      · exact noneFits other there' wrong' ((fits_of_not_misjudged wrong').mp taken)
    · obtain ⟨other, there', fits⟩ := same.mp ⟨config, there, wrong.verdicts.2.mpr any⟩
      by_cases wrong' : Misjudged headers other
      · exact any (oneWay ⟨other, there', wrong', wrong'.verdicts.1.mp fits⟩ config there wrong)
      · exact noneFits other there' wrong' fits
  · rintro (right | ⟨config, there, right, fits⟩ | ⟨⟨config, there, wrong, any⟩, other, there', wrong', all⟩)
    · exact exists_congr fun config => and_congr_right fun there => fits_of_not_misjudged (right config there)
    · exact iff_of_true ⟨config, there, (fits_of_not_misjudged right).mpr fits⟩ ⟨config, there, fits⟩
    · exact iff_of_true ⟨other, there', wrong'.verdicts.2.mpr all⟩ ⟨config, there, wrong.verdicts.1.mpr any⟩

/-- Two headers are to have their values, and any of the parameters, of which none is listed. -/
def bothHeaders : ResourceConfig where
  headers := [⟨.equals, ascii "A", ascii "1"⟩, ⟨.equals, ascii "B", ascii "2"⟩]
  paramsRelation := .or

/-- **One of two headers is enough** for the common filter. -/
theorem one_header_matches : ¬ ByFormula (CommonHeader.empty.set (ascii "A") (ascii "1")) [bothHeaders] := by
  intro byFormula
  have matched : Common.RuleConfig.matches { resourceConfigs := [bothHeaders] }
      (CommonHeader.empty.set (ascii "A") (ascii "1")) = true := by decide
  have refused : Auth.RuleConfig.matches { resourceConfigs := [bothHeaders] }
      (CommonHeader.empty.set (ascii "A") (ascii "1")) = false := by decide
  have agree := byFormula.agree { resourceConfigs := [bothHeaders] } { resourceConfigs := [bothHeaders] } rfl rfl
  rw [matched, refused] at agree
  exact Bool.false_ne_true agree

end Strike.Rules
