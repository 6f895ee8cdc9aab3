/-
**Deleting a name** (`DelAllArgs`, and the `Del` of arguments and of request headers).

`DelAllArgs` closes the gap of a deleted pair and then goes on with the next index, so it never looks at the pair
that moved into the gap. `collectCookies`, which closes gaps the same way, steps back.

* `delAllArgs_of_apart`: where no two neighbours have the key, all are deleted.
* `delAllArgs_neighbours`: of two neighbours, one stays.
* `deletes_iff`: so deleting works exactly for lists in which no two neighbours have the key.
-/

import Strike.Http.Connection
import Strike.Utils.Query

namespace Strike

/-- `hasArg`. -/
def hasArg (h : List ArgsKV) (key : Bytes) : Bool := h.any fun kv => key = kv.key

namespace Args

/-- The pairs `DelAllArgs` takes out, the last one first: that is how they lie behind the end. -/
def deleted : List ArgsKV → Bytes → List ArgsKV
  | [], _ => []
  | [kv], key => if key = kv.key then [kv] else []
  | kv :: next :: rest, key => if key = kv.key then deleted rest key ++ [kv] else deleted (next :: rest) key

/-- `Del`. -/
def del (a : Args) (key : Bytes) : Args :=
  { args := delAllArgs a.args key, stale := deleted a.args key ++ a.stale }

/-- `Has`. -/
def has (a : Args) (key : Bytes) : Bool := hasArg a.args key

end Args

namespace Http.RequestHeader

/-- `del`. -/
def del (h : RequestHeader) (key : Bytes) : RequestHeader :=
  let h :=
    if key = strHost then { h with host := [] }
    else if key = strContentType then { h with contentType := [] }
    else if key = strUserAgent then { h with userAgent := [] }
    else if key = strCookie then { h with cookies := [] }
    else if key = strContentLength then { h with contentLength := 0, contentLengthBytes := [] }
    else if key = strConnection then { h with connectionClose := false }
    else h
  { h with h := delAllArgs h.h key }

/-- `Del` and `DelBytes`. -/
def delBytes (h : RequestHeader) (key : Bytes) : RequestHeader :=
  let h := h.parseRawHeaders
  h.del (normalizeHeaderKey key h.disableNormalizing)

/-- `Peek` and `PeekBytes`, with the fields that are kept apart from the list. -/
def peekBytes (h : RequestHeader) (key : Bytes) : Except Panic Bytes :=
  let key := normalizeHeaderKey key h.disableNormalizing
  let h := h.parseRawHeaders
  if key = strHost then h.getHost.map (·.2)
  else if key = strContentType then .ok h.getContentType
  else if key = strUserAgent then .ok h.parseRawHeaders.userAgent
  else if key = strConnection then
    if h.parseRawHeaders.connectionClose then .ok strClose else .ok (peekArg h.h key)
  else if key = strContentLength then .ok h.contentLengthBytes
  else .ok (peekArg h.h key)

end Http.RequestHeader

open Http

/-! ### What the loop leaves -/

section Loop

variable {args : List ArgsKV} {key : Bytes}

/-- The pairs with another key. -/
def others (args : List ArgsKV) (key : Bytes) : List ArgsKV := args.filter fun kv => kv.key ≠ key

/-- **No two neighbours have the key.** -/
def Apart (args : List ArgsKV) (key : Bytes) : Prop := args.IsChain fun kv next => ¬ (kv.key = key ∧ next.key = key)

theorem others_cons_self {kv : ArgsKV} (same : key = kv.key) (rest : List ArgsKV) :
    others (kv :: rest) key = others rest key := by
  unfold others
  rw [List.filter_cons_of_neg (by simpa using same.symm)]

theorem others_cons_of_ne {kv : ArgsKV} (differ : key ≠ kv.key) (rest : List ArgsKV) :
    others (kv :: rest) key = kv :: others rest key := by
  unfold others
  rw [List.filter_cons_of_pos (by simpa using Ne.symm differ)]

/-- **Pairs that are apart are all deleted.** By the recursion of the loop: the pair behind a deleted one has
another key, so it does no harm to pass it. -/
theorem delAllArgs_of_apart (apart : Apart args key) : delAllArgs args key = others args key := by
  fun_induction delAllArgs args key with
  | case1 => rfl
  | case2 kv => rw [others_cons_self rfl, others, List.filter_nil]
  | case3 kv key differ => rw [others_cons_of_ne differ, others, List.filter_nil]
  | case4 kv next rest ih =>
    obtain ⟨notBoth, later⟩ := List.isChain_cons_cons.mp apart
    have differ : kv.key ≠ next.key := fun same => notBoth ⟨rfl, same.symm⟩
    rw [others_cons_self rfl, others_cons_of_ne differ, ih later.tail]
  | case5 kv next rest key differ ih =>
    rw [others_cons_of_ne differ, ih (List.isChain_cons_cons.mp apart).2]

/-- **Of two neighbours one stays.** -/
theorem delAllArgs_neighbours (together : ¬ Apart args key) : ∃ kv ∈ delAllArgs args key, kv.key = key := by
  fun_induction delAllArgs args key with
  | case1 => exact absurd List.isChain_nil together
  | case2 kv => exact absurd (List.isChain_singleton kv) together
  | case3 kv => exact absurd (List.isChain_singleton kv) together
  | case4 kv next rest ih =>
    by_cases same' : next.key = kv.key
    · exact ⟨next, List.mem_cons_self, same'⟩
    · -- the neighbours come later, and the pair that is passed is none of them
      have later : ¬ Apart rest kv.key := by
        intro apart
        refine together (List.isChain_cons_cons.mpr ⟨fun both => same' both.2, ?_⟩)
        exact List.isChain_cons.mpr ⟨fun behind _ both => same' both.1, apart⟩
      obtain ⟨stays, there, its⟩ := ih later
      exact ⟨stays, List.mem_cons_of_mem _ there, its⟩
  | case5 kv next rest key differ ih =>
    have later : ¬ Apart (next :: rest) key := fun apart =>
      together (List.isChain_cons_cons.mpr ⟨fun both => differ both.1.symm, apart⟩)
    obtain ⟨stays, there, its⟩ := ih later
    exact ⟨stays, List.mem_cons_of_mem _ there, its⟩

theorem others_key {kv : ArgsKV} (there : kv ∈ others args key) : kv.key ≠ key := by
  simpa using (List.mem_filter.mp there).2

theorem hasArg_others (args : List ArgsKV) (key : Bytes) : hasArg (others args key) key = false := by
  unfold hasArg
  rw [List.any_eq_false]
  intro kv there
  simpa using Ne.symm (others_key there)

theorem peekArg_others (args : List ArgsKV) (key : Bytes) : peekArg (others args key) key = [] := by
  have none : ((others args key).find? fun kv => kv.key = key) = none := by
    rw [List.find?_eq_none]
    intro kv there
    simpa using others_key there
  unfold peekArg
  rw [none]

end Loop

/-! ### A deleted name -/

/-- **Deleting works**: exactly the pairs with another key are left, in their order, and the name is not found
any more, neither among arguments nor in a header. -/
structure Deletes (args : List ArgsKV) (key : Bytes) : Prop where
  exact_ : delAllArgs args key = others args key
  argument : ∀ a : Args, a.args = args → (a.del key).has key = false
  field : ∀ (h : RequestHeader) (name : Bytes), h.parseRawHeaders.h = args →
    normalizeHeaderKey name h.parseRawHeaders.disableNormalizing = key →
    hasArg (h.delBytes name).h key = false ∧ (h.delBytes name).peekBytes name = .ok []

namespace Http.RequestHeader

theorem del_h (h : RequestHeader) (key : Bytes) : (h.del key).h = delAllArgs h.h key := by
  unfold del
  dsimp only
  split_ifs <;> rfl

theorem del_flags (h : RequestHeader) (key : Bytes) :
    (h.del key).rawHeadersParsed = h.rawHeadersParsed ∧ (h.del key).disableNormalizing = h.disableNormalizing := by
  unfold del
  dsimp only
  split_ifs <;> exact ⟨rfl, rfl⟩

theorem del_cleared (h : RequestHeader) :
    (h.del strHost).host = [] ∧ (h.del strContentType).contentType = [] ∧ (h.del strUserAgent).userAgent = [] ∧
      (h.del strConnection).connectionClose = false ∧ (h.del strContentLength).contentLengthBytes = [] :=
  ⟨rfl, rfl, rfl, rfl, rfl⟩

theorem peekBytes_del {h : RequestHeader} (parsed : h.rawHeadersParsed = true) {key name : Bytes}
    (named : normalizeHeaderKey name h.disableNormalizing = key) (gone : peekArg (delAllArgs h.h key) key = []) :
    (h.del key).peekBytes name = .ok [] := by
  have still : (h.del key).rawHeadersParsed = true := (del_flags h key).1.trans parsed
  have same : (h.del key).parseRawHeaders = h.del key := if_pos still
  obtain ⟨host, contentType, userAgent, connection, length⟩ := del_cleared h
  unfold peekBytes getContentType
  dsimp only
  rw [(del_flags h key).2, named, same, same, del_h, gone, getHost_of_parsed still]
  split_ifs with isHost isType isAgent isConnection closes isLength
  · rw [isHost, host]
    rfl
  · rw [isType, contentType]
  · rw [isAgent, userAgent]
  · rw [isConnection, connection] at closes
    cases closes
  · rfl
  · rw [isLength, length]
  · rfl

end Http.RequestHeader

/-- **Deleting works exactly where no two neighbours have the key.** -/
theorem deletes_iff (args : List ArgsKV) (key : Bytes) : Deletes args key ↔ Apart args key := by
  constructor
  · intro deletes
    by_contra together
    obtain ⟨kv, there, its⟩ := delAllArgs_neighbours together
    rw [deletes.exact_] at there
    exact others_key there its
  · intro apart
    have exact_ := delAllArgs_of_apart apart
    refine ⟨exact_, ?_, ?_⟩
    · rintro a rfl
      unfold Args.has Args.del
      rw [exact_]
      exact hasArg_others a.args key
    · rintro h name rfl rfl
      constructor
      · unfold RequestHeader.delBytes
        rw [RequestHeader.del_h, exact_]
        exact hasArg_others _ _
      · refine RequestHeader.peekBytes_del h.parseRawHeaders_spec.1 rfl ?_
        rw [exact_]
        exact peekArg_others _ _

/-- **Of two values of one name, the second is found after deleting it.** -/
theorem second_value_stays : ¬ Deletes [⟨ascii "K", ascii "1"⟩, ⟨ascii "K", ascii "2"⟩] (ascii "K") ∧
    (({ rawHeadersParsed := true, h := [⟨ascii "K", ascii "1"⟩, ⟨ascii "K", ascii "2"⟩] } :
      RequestHeader).delBytes (ascii "k")).peekBytes (ascii "k") = .ok (ascii "2") := by
  refine ⟨fun deletes => ?_, by decide⟩
  exact absurd deletes.exact_ (by decide)

end Strike
