/-
**Which requests a rule is about** (`resource/defaultmatcher.go` of the common and of the auth filter).

The two matchers differ in the relation that joins the comparisons of headers: the auth filter uses the
one of the headers, the common filter the one of the parameters.
-/

import Strike.Protocol.CommonHeader

namespace Strike.Rules

/-- `StrikeHeaderQueryStringKey`. -/
def strikeHeaderQueryStringKey : Bytes := ascii "x-strike-querystring"

/-- `compare_type`: `EQUALS`, `NOTEQUALS` or any other text. -/
inductive CompareType where
  | equals
  | notEquals
  | other
  deriving Repr, DecidableEq

/-- `ComparisonCofig`. -/
structure ComparisonCofig where
  compareType : CompareType
  key : Bytes
  value : Bytes
  deriving Repr, DecidableEq

/-- `headers_relation` and `params_relation`: `OR` or any other text. -/
inductive Relation where
  | or
  | other
  deriving Repr, DecidableEq

/-- `ResourceConfig`. -/
structure ResourceConfig where
  headers : List ComparisonCofig := []
  headersRelation : Relation := .other
  params : List ComparisonCofig := []
  paramsRelation : Relation := .other
  deriving Repr, DecidableEq

/-- `compare`. -/
def compare (config : ComparisonCofig) (target : Bytes) : Bool :=
  match config.compareType with
  | .equals => config.value == target
  | .notEquals => config.value != target
  | .other => true

/-- `compares`. -/
def compares (config : ComparisonCofig) (targets : List Bytes) : Bool :=
  match config.compareType with
  | .equals => targets.any fun target => config.value == target
  | .notEquals => !targets.any fun target => config.value == target
  | .other => true

/-- The loop that joins the flags of the comparisons. -/
def join (relation : Relation) (flags : List Bool) : Bool :=
  flags.foldl (fun matched flag => if relation ≠ .or then matched && flag else matched || flag)
    (relation ≠ .or)

/-- `matchHeaders` under a relation. -/
def matchHeaders (relation : Relation) (headers : CommonHeader) (config : ResourceConfig) : Bool :=
  join relation (config.headers.map fun comparison =>
    compare comparison ((headers.get comparison.key).getD []))

/-- The pairs of a query string; an item without `=` gives none. -/
def queryParams (queryString : Bytes) : List (Bytes × Bytes) :=
  (queryString.splitOn 38).filterMap fun item =>
    (indexByte item 61).map fun n => (item.take n, item.drop (n + 1))

/-- `matchQueryParams`. -/
def matchQueryParams (queryString : Bytes) (config : ResourceConfig) : Bool :=
  join config.paramsRelation (config.params.map fun param =>
    compares param (((queryParams queryString).filter fun pair => pair.1 == param.key).map Prod.snd))

/-- `DefaultMatcher.Match` under a relation of the headers. -/
def defaultMatch (headersRelation : ResourceConfig → Relation) (headers : CommonHeader)
    (config : ResourceConfig) : Bool :=
  if 0 < config.headers.length ∧ matchHeaders (headersRelation config) headers config = false then false
  else if 0 < config.params.length ∧
      matchQueryParams ((headers.get strikeHeaderQueryStringKey).getD []) config = false then false
  else true

/-- `MatcherEngine.Match`. -/
def matchEngine (headersRelation : ResourceConfig → Relation) (headers : CommonHeader)
    (configs : List ResourceConfig) : Bool :=
  configs.any (defaultMatch headersRelation headers)

end Strike.Rules
