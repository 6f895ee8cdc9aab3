/-
**Rules on the parameters of HTTP requests.**

The matchers look for the query string under `x-strike-querystring`. The map `handleRequest` passes on has
the whole request URI under `x-strike-path`, and nothing under that key: neither the gateway sets it nor can a
client, since the names of its fields are normalised. So a rule on a parameter sees none of the parameters.

* `Outcome.no_queryString`: the map has no query string.
* `params_unseen`: what the rules on a parameter say of any request.
-/

import Strike.Http.InternalKeys
import Strike.Rules.Formula

namespace Strike.Rules

open Strike.Http

variable {Form : Type}

/-- The URI has a query string with the item `key=value`. -/
structure HasItem (uri key value : Bytes) : Prop where
  query : ∃ path query rest, uri = path ++ 63 :: (query ++ rest) ∧ 63 ∉ path ∧ 35 ∉ path ∧ 35 ∉ query ∧
    (rest = [] ∨ rest.head? = some 35) ∧ HasParam query key value
  plainKey : 38 ∉ key ∧ 61 ∉ key ∧ 35 ∉ key
  plainValue : 38 ∉ value ∧ 61 ∉ value ∧ 35 ∉ value

/-- The one condition is the comparison of a parameter. -/
def onlyParam (compareType : CompareType) (key value : Bytes) (headersRelation paramsRelation : Relation) :
    ResourceConfig where
  headersRelation := headersRelation
  params := [⟨compareType, key, value⟩]
  paramsRelation := paramsRelation

/-- **A filter sees the parameter**: a rule that it equals the value matches, a rule that it differs does
not. -/
def SeesParam (matches_ : List ResourceConfig → Bool) (key value : Bytes)
    (headersRelation paramsRelation : Relation) : Prop :=
  matches_ [onlyParam .equals key value headersRelation paramsRelation] = true ∧
    matches_ [onlyParam .notEquals key value headersRelation paramsRelation] = false

/-- **No query string is handed over.** -/
theorem no_queryString {mp : Multipart Form} {pooled : Slice} {content left : Bytes} {decoded : Decoded Form}
    (outcome : Outcome mp pooled content decoded left) (done : decoded.err = none) (order : RangeOrder) :
    ∃ received, handleRequest mp order decoded.req = .ok received ∧ queryStringOf received.header = [] := by
  obtain ⟨-, -, received, h₁, h₂, host₁, host₂, -, -, -, -, handedOver, entries⟩ := outcome.internal_entries done order
  refine ⟨received, handedOver, ?_⟩
  have absent : ∀ kv ∈ received.header, kv.key ≠ strikeHeaderQueryStringKey := by
    intro kv there same
    -- The key is one of the gateway's own, and the gateway sets four others.
    have own := entries kv there (same ▸ .inr (by decide))
    simp only [List.mem_cons, List.not_mem_nil, or_false] at own
    rcases own with rfl | rfl | rfl | rfl <;> exact absurd same (by simp only; decide)
  have none : received.header.find? (fun kv => kv.key = strikeHeaderQueryStringKey) = none := by
    rw [List.find?_eq_none]
    exact fun kv there => by simpa using absent kv there
  show (getArg received.header strikeHeaderQueryStringKey).getD [] = []
  unfold getArg
  rw [none]
  rfl

theorem not_hasParam_nil (key value : Bytes) : ¬ HasParam [] key value := by
  rintro ⟨-, there⟩
  rw [List.splitOn_nil, List.mem_singleton] at there
  exact List.append_ne_nil_of_right_ne_nil _ (List.cons_ne_nil _ _) there

/-- **Where there is no query string**, a rule that a parameter equals a value does not match, whatever the
relations, and a rule that it differs does. -/
theorem onlyParam_iff (relation : ResourceConfig → Relation) {headers : CommonHeader}
    (empty : queryStringOf headers = []) (compareType : CompareType) (key value : Bytes) (r r' : Relation) :
    matchEngine relation headers [onlyParam compareType key value r r'] = true ↔ compareType ≠ .equals := by
  rw [matchEngine_iff]
  simp only [List.mem_singleton, exists_eq_left, empty]
  have heads : Joined (relation (onlyParam compareType key value r r')) (onlyParam compareType key value r r').headers
      (HeaderHolds headers) := .inl rfl
  have params : Joined r' [⟨compareType, key, value⟩] (ParamHolds []) ↔ ParamHolds [] ⟨compareType, key, value⟩ := by
    unfold Joined
    simp
  rw [and_iff_right heads]
  refine params.trans ?_
  have none := not_hasParam_nil key value
  cases compareType with
  | equals => exact iff_of_false none (· rfl)
  | notEquals => exact iff_of_true none (by decide)
  | other => exact iff_of_true trivial (by decide)

/-- **No filter sees a parameter of an HTTP request.** For every decoded request, whatever its URI, and every
key, value and relation: the rules on the parameter say the opposite of what they should, for the common and
for the auth filter. -/
theorem params_unseen (mp : Multipart Form) (order : RangeOrder) {pooled : Slice} {content left : Bytes} {decoded : Decoded Form}
    (outcome : Outcome mp pooled content decoded left) (done : decoded.err = none) :
    ∃ received, handleRequest mp order decoded.req = .ok received ∧
      ∀ matches_ ∈ [fun configs => Common.RuleConfig.matches { resourceConfigs := configs } received.header,
          fun configs => Auth.RuleConfig.matches { resourceConfigs := configs } received.header],
        ∀ (key value : Bytes) (r r' : Relation), ¬ SeesParam matches_ key value r r' ∧
          matches_ [onlyParam .equals key value r r'] = false ∧
          matches_ [onlyParam .notEquals key value r r'] = true := by
  obtain ⟨received, handedOver, empty⟩ := no_queryString outcome done order
  refine ⟨received, handedOver, fun matches_ either key value r r' => ?_⟩
  obtain ⟨relation, rfl⟩ : ∃ relation, matches_ = matchEngine relation received.header := by
    simp only [List.mem_cons, List.not_mem_nil, or_false] at either
    rcases either with rfl | rfl
    · exact ⟨(·.paramsRelation), rfl⟩
    · exact ⟨(·.headersRelation), rfl⟩
  have equals : ¬ matchEngine relation received.header [onlyParam .equals key value r r'] = true :=
    fun matched => (onlyParam_iff relation empty .equals key value r r').mp matched rfl
  exact ⟨fun sees => equals sees.1, Bool.eq_false_iff.mpr equals,
    (onlyParam_iff relation empty .notEquals key value r r').mpr (by decide)⟩

/-- A request with one parameter. -/
def withParam : Bytes := ascii "GET /a?k=v HTTP/1.1\r\n\r\n"

/-- Its header. -/
def withParamHeader : RequestHeader := (({} : RequestHeader).parse withParam).1

theorem withParam_outcome :
    Outcome noForms (Recycled.fresh Empty 0).body withParam { req := { header := withParamHeader } } [] := by
  have parsed : ({} : RequestHeader).parse withParam = (withParamHeader, withParam, .ok 23) := by decide
  refine .parsed parsed (.skipped fun reads => ?_)
  exact absurd reads.1 (by decide)

/-- The theorem at that request. -/
theorem params_unseen_get : ∃ received, handleRequest noForms .listed { header := withParamHeader } = .ok received ∧
      Common.RuleConfig.matches { resourceConfigs := [onlyParam .equals (ascii "k") (ascii "v") .or .or] }
        received.header = false := by
  obtain ⟨received, handedOver, unseen⟩ := params_unseen noForms .listed withParam_outcome rfl
  exact ⟨received, handedOver, (unseen _ List.mem_cons_self (ascii "k") (ascii "v") .or .or).2.1⟩

/-- **The rule on `k=v` does not match `/a?k=v`**, and the rule that `k` differs from `v` does. -/
theorem withParam_unseen : HasItem withParamHeader.getRequestURI (ascii "k") (ascii "v") ∧
      ∃ received, handleRequest noForms .listed { header := withParamHeader } = .ok received ∧
        ¬ SeesParam (fun configs => Common.RuleConfig.matches { resourceConfigs := configs } received.header)
          (ascii "k") (ascii "v") .or .or := by
  constructor
  · refine ⟨⟨ascii "/a", ascii "k=v", [], by decide, by decide, by decide, by decide, .inl rfl, ?_⟩,
      by decide, by decide⟩
    exact ⟨by decide, by decide⟩
  · obtain ⟨received, handedOver, empty⟩ := no_queryString withParam_outcome rfl .listed
    refine ⟨received, handedOver, fun sees => ?_⟩
    exact (onlyParam_iff (·.paramsRelation) empty .equals _ _ .or .or).mp sees.1 rfl

end Strike.Rules
