/-
**The gateway's own keys.**

The names of header fields are normalised before they are stored, so none of them starts with a small
letter (`External`), whatever the bytes of the line. The gateway's own keys do (`Internal`). Every step
from the scanner to the map handed to the receiver keeps the keys external.

* `Clean`: all fields stored in a header have external keys; kept by `parse`, `parseRawHeaders`,
  `setContentLength`, `collectCookies` and `getHost`.
* `internal_keys_are_set`: in the map handed over, the internal keys are those `handleRequest` sets.
-/

import Strike.Http.Connection

namespace Strike.Http

variable {Form : Type}

/-- **A key of the gateway**: `x-strike-*` or `authority`. -/
def Internal (key : Bytes) : Prop := key = istioHeaderHostKey ∨ hasPrefix key (ascii "x-strike-") = true

/-- The key does not start with a small letter. -/
def External (key : Bytes) : Prop := ∀ c ∈ key.head?, ¬ (97 ≤ c ∧ c ≤ 122)

variable {key : Bytes}

theorem External.not_internal (external : External key) : ¬ Internal key := by
  rintro (rfl | front)
  · exact external 97 rfl (by decide)
  · obtain ⟨rest, rfl⟩ := List.isPrefixOf_iff_prefix.mp front
    exact external 120 rfl (by decide)

/-! ### Names -/

theorem toUpper_not_small (c : UInt8) : ¬ (97 ≤ toUpper c ∧ toUpper c ≤ 122) := by
  unfold toUpper
  split
  · next small =>
      simp only [UInt8.le_iff_toNat_le, UInt8.toNat_sub, UInt8.toNat_ofNat] at small ⊢
      omega
  · next other => exact other

/-- **A normalised name is external.** -/
theorem external_normalizeHeaderKey (name : Bytes) : External (normalizeHeaderKey name false) := by
  cases name with
  | nil => exact fun c no => nomatch no
  | cons c rest =>
    intro d first
    obtain rfl : toUpper c = d := Option.some.inj first
    exact toUpper_not_small c

theorem setArg_keys {P : Bytes → Prop} {args : List ArgsKV} (old : ∀ kv ∈ args, P kv.key)
    (new : P key) (value : Bytes) : ∀ kv ∈ setArg args key value, P kv.key := by
  induction args with
  | nil =>
    intro kv there
    rw [List.mem_singleton.mp there]
    exact new
  | cons first rest ih =>
    obtain ⟨here, later⟩ := List.forall_mem_cons.mp old
    unfold setArg
    split
    · exact List.forall_mem_cons.mpr ⟨here, later⟩
    · exact List.forall_mem_cons.mpr ⟨here, ih later⟩

theorem delAllArgs_subset (args : List ArgsKV) (key : Bytes) : ∀ kv ∈ delAllArgs args key, kv ∈ args := by
  fun_induction delAllArgs args key with
  | case1 => exact fun kv no => nomatch no
  | case2 => exact fun kv no => nomatch no
  | case3 => exact fun kv there => there
  | case4 first next rest ih =>
    intro kv there
    rcases List.mem_cons.mp there with rfl | later
    · exact List.mem_cons_of_mem _ List.mem_cons_self
    · exact List.mem_cons_of_mem _ (List.mem_cons_of_mem _ (ih kv later))
  | case5 first next rest key other ih =>
    intro kv there
    rcases List.mem_cons.mp there with rfl | later
    · exact List.mem_cons_self
    · exact List.mem_cons_of_mem _ (ih kv later)

/-! ### Headers -/

namespace RequestHeader

/-- **The stored fields have external keys**, and names are normalised. -/
structure Clean (h : RequestHeader) : Prop where
  normalizes : h.disableNormalizing = false
  external : ∀ kv ∈ h.h, External kv.key

variable {h : RequestHeader}

/-- A field is stored under its name, if it is not the host, or as the encoding. -/
theorem addField_keys {P : Bytes → Prop} (old : ∀ kv ∈ h.h, P kv.key)
    (new : key ≠ strHost → P key) (chunked : P strTransferEncoding) (value : Bytes) :
    ∀ kv ∈ (h.addField key value).h, P kv.key := by
  obtain ⟨_, _, _, _, _, stored, same, kept⟩ := h.addField_eq key value
  rw [same]
  rcases kept with rfl | rfl | ⟨other, rfl⟩
  · exact old
  · exact setArg_keys old chunked _
  · intro kv there
    rcases List.mem_append.mp there with before | last
    · exact old kv before
    · rw [List.mem_singleton.mp last]
      exact new other

theorem addField_clean (clean : h.Clean) (new : External key) (value : Bytes) : (h.addField key value).Clean := by
  have chunked : External strTransferEncoding := by
    intro c first
    obtain rfl : 84 = c := Option.some.inj first
    decide
  exact ⟨(addField_disableNormalizing h key value).trans clean.normalizes,
    addField_keys clean.external (fun _ => new) chunked value⟩

theorem next_key {s s' : HeaderScanner} {more : Bool} (normalizes : s.disableNormalizing = false)
    (stepped : s.next = (s', more)) :
    s'.disableNormalizing = false ∧ (more = true → External s'.key) := by
  have here : s.at_ s.passed s.b = s := rfl
  rw [← here] at stepped
  generalize s.b = b at stepped
  cases shape b with
  | ends empty rest =>
    rw [HeaderScanner.next_ends s empty] at stepped
    cases stepped
    exact ⟨normalizes, fun no => nomatch no⟩
  | field starts noColon noEnd rest =>
    rw [HeaderScanner.next_field s starts noColon noEnd, normalizes] at stepped
    cases stepped
    exact ⟨normalizes, fun _ => external_normalizeHeaderKey _⟩
  | open_ starts noColon noEnd =>
    rw [HeaderScanner.next_open s starts noColon noEnd] at stepped
    cases stepped
    exact ⟨normalizes, fun no => nomatch no⟩
  | bare starts noColon =>
    rw [HeaderScanner.next_bare s starts noColon] at stepped
    cases stepped
    exact ⟨normalizes, fun no => nomatch no⟩

theorem headerLoop_clean (fuel : Nat) :
    ∀ {s : HeaderScanner} {h : RequestHeader}, s.disableNormalizing = false → h.Clean →
      (headerLoop fuel s h).2.Clean := by
  induction fuel with
  | zero => exact fun _ clean => clean
  | succ fuel ih =>
    intro s h normalizes clean
    unfold headerLoop
    cases stepped : s.next with
    | mk s' more =>
      obtain ⟨normalizes', external⟩ := next_key normalizes stepped
      cases more with
      | false => exact clean
      | true => exact ih normalizes' (addField_clean clean (external rfl) _)

theorem parseHeaders_clean (clean : h.Clean) (buf : Bytes) : (h.parseHeaders buf).1.Clean := by
  have scanned := headerLoop_clean (buf.length + 1)
    (s := { b := buf, disableNormalizing := h.disableNormalizing }) (h := { h with contentLength := -2 })
    clean.normalizes ⟨clean.normalizes, clean.external⟩
  unfold parseHeaders endHeaders
  dsimp only
  split
  · exact ⟨scanned.normalizes, scanned.external⟩
  · obtain ⟨_, _, _, same⟩ := finish_eq _
    rw [same]
    exact ⟨scanned.normalizes, scanned.external⟩

theorem parseRawHeaders_clean (clean : h.Clean) : h.parseRawHeaders.Clean := by
  unfold parseRawHeaders
  split
  · exact clean
  · dsimp only
    split
    · exact ⟨clean.normalizes, clean.external⟩
    · have parsed := parseHeaders_clean (h := { h with rawHeadersParsed := true })
        ⟨clean.normalizes, clean.external⟩ h.rawHeaders
      exact ⟨parsed.normalizes, parsed.external⟩

theorem setContentLength_clean (clean : h.Clean) (n : Nat) : (h.setContentLength n).Clean :=
  ⟨(parseRawHeaders_clean clean).normalizes, fun kv there =>
    (parseRawHeaders_clean clean).external kv (delAllArgs_subset _ _ kv there)⟩

theorem collectCookies_clean (clean : h.Clean) : h.collectCookies.Clean := by
  unfold collectCookies
  split
  · exact clean
  · exact ⟨clean.normalizes, fun kv there => clean.external kv (List.mem_of_mem_filter there)⟩

theorem parse_clean {content memory : Bytes} {result : Except Error Nat}
    (parsed : ({} : RequestHeader).parse content = (h, memory, result)) : h.Clean := by
  have start : ∀ {h' : RequestHeader} {size : Except Error Nat},
      ({} : RequestHeader).parseFirstLine content = (h', size) → h'.Clean := by
    intro h' size line
    unfold parseFirstLine parseURI at line
    repeat' split at line
    all_goals cases line
    all_goals exact ⟨rfl, fun kv no => nomatch no⟩
  unfold parse at parsed
  split at parsed
  · next line =>
      cases parsed
      exact start line
  · next h₁ m line =>
      have first := start line
      split at parsed
      · cases fields : h₁.parseHeaders (content.drop m) with
        | mk h₂ rest =>
          have scanned := parseHeaders_clean first (content.drop m)
          obtain ⟨written, found⟩ := rest
          rw [fields] at parsed scanned
          cases found <;> cases parsed <;> exact ⟨scanned.normalizes, scanned.external⟩
      · split at parsed
        · cases parsed
          exact first
        · cases parsed
          exact ⟨first.normalizes, first.external⟩

/-- **What is visited**: the host first, if there is one, and then keys that are known or stored. -/
theorem visitAll_keys (h : RequestHeader) : ∃ pairs, h.visitAll = .ok (h.parseRawHeaders.collectCookies,
        (if h.parseRawHeaders.host.length > 0 then [(strHost, h.parseRawHeaders.host)] else []) ++ pairs) ∧
      ∀ kv ∈ pairs, kv.1 ∈ [strContentLength, strContentType, strUserAgent, strCookie, strConnection] ∨
        ∃ stored ∈ h.parseRawHeaders.collectCookies.h, stored.key = kv.1 := by
  have one : ∀ {given : Prop} [Decidable given] {key value : Bytes} {kv : Bytes × Bytes},
      kv ∈ (if given then [(key, value)] else []) → kv.1 = key := by
    intro given _ key value kv there
    split at there
    · rw [List.mem_singleton.mp there]
    · cases there
  unfold visitAll
  rw [getHost_of_parsed h.parseRawHeaders_spec.1]
  refine ⟨_, congrArg (fun pairs => Except.ok (_, pairs)) (by simp only [List.append_assoc]; rfl), ?_⟩
  intro kv there
  simp only [List.mem_append] at there
  rcases there with length | type | agent | cookie | field | close
  · exact .inl (by rw [one length]; decide)
  · exact .inl (by rw [one type]; decide)
  · exact .inl (by rw [one agent]; decide)
  · exact .inl (by rw [one cookie]; decide)
  · obtain ⟨stored, there, rfl⟩ := List.mem_map.mp field
    exact .inr ⟨stored, there, rfl⟩
  · exact .inl (by rw [one close]; decide)

/-- **Every visited key is external.** -/
theorem visitAll_external (clean : h.Clean) :
    ∃ pairs, h.visitAll = .ok (h.parseRawHeaders.collectCookies, pairs) ∧ ∀ kv ∈ pairs, External kv.1 := by
  have cookies := collectCookies_clean (parseRawHeaders_clean clean)
  have known : ∀ key ∈ [strHost, strContentLength, strContentType, strUserAgent, strCookie, strConnection],
      External key := by
    intro key there c first
    simp only [List.mem_cons, List.not_mem_nil, or_false] at there
    rcases there with rfl | rfl | rfl | rfl | rfl | rfl <;>
      (cases first; decide)
  obtain ⟨pairs, visited, keys⟩ := h.visitAll_keys
  refine ⟨_, visited, fun kv there => ?_⟩
  rcases List.mem_append.mp there with host | other
  · split at host
    · rw [List.mem_singleton.mp host]
      exact known strHost (by decide)
    · cases host
  · rcases keys kv other with one | ⟨stored, there, same⟩
    · exact known kv.1 (List.mem_cons_of_mem _ one)
    · exact same ▸ cookies.external stored there

end RequestHeader

theorem external_foldl_setArg (pairs : List (Bytes × Bytes)) :
    ∀ {args : List ArgsKV}, (∀ kv ∈ args, External kv.key) → (∀ kv ∈ pairs, External kv.1) →
      ∀ kv ∈ pairs.foldl (fun out kv => setArg out kv.1 kv.2) args, External kv.key := by
  induction pairs with
  | nil => exact fun external _ => external
  | cons first rest ih =>
    intro args external new
    obtain ⟨here, later⟩ := List.forall_mem_cons.mp new
    exact ih (setArg_keys external here _) later

/-- **The map of `decodeReqHeader` has external keys.** -/
theorem decodeReqHeader_external {h : RequestHeader} (clean : h.Clean) :
    ∃ h' header, decodeReqHeader h = .ok (h', header) ∧ ∀ kv ∈ header, External kv.key := by
  obtain ⟨pairs₁, first, -⟩ := RequestHeader.visitAll_external clean
  obtain ⟨pairs₂, second, external⟩ := RequestHeader.visitAll_external
    (RequestHeader.collectCookies_clean (RequestHeader.parseRawHeaders_clean clean))
  have decoded : decodeReqHeader h = .ok (h.parseRawHeaders.collectCookies.parseRawHeaders.collectCookies,
      pairs₂.foldl (fun out kv => setArg out kv.1 kv.2) []) := by
    simp only [decodeReqHeader, first, second, bind, Except.bind]
    rfl
  exact ⟨_, _, decoded, external_foldl_setArg pairs₂ (fun _ no => absurd no List.not_mem_nil) external⟩

/-- The header of a decoded request is clean. -/
theorem Outcome.clean {mp : Multipart Form} {pooled : Slice} {content left : Bytes} {decoded : Decoded Form}
    (outcome : Outcome mp pooled content decoded left) (done : decoded.err = none) :
    decoded.req.header.Clean := by
  cases outcome with
  | unparsed => cases done
  | parsed parsed body =>
    have clean := RequestHeader.parse_clean parsed
    cases body with
    | skipped => exact clean
    | unframed => exact RequestHeader.setContentLength_clean clean 0
    | empty => exact RequestHeader.setContentLength_clean clean 0
    | tooLarge => cases done
    | form => exact clean
    | badForm => cases done
    | missing => cases done
    | fixed => exact RequestHeader.setContentLength_clean clean _

/-- An entry of a map after one more was set. -/
theorem mem_setArg {args : List ArgsKV} {key value : Bytes} {kv : ArgsKV} (there : kv ∈ setArg args key value) :
    kv = ⟨key, value⟩ ∨ kv ∈ args := by
  induction args with
  | nil => exact .inl (List.mem_singleton.mp there)
  | cons first rest ih =>
    unfold setArg at there
    split at there
    · next same =>
        rcases List.mem_cons.mp there with rfl | later
        · rw [same]
          exact .inl rfl
        · exact .inr (List.mem_cons_of_mem _ later)
    · rcases List.mem_cons.mp there with rfl | later
      · exact .inr List.mem_cons_self
      · exact (ih later).imp_right (List.mem_cons_of_mem _)

/-- A decoded request is handed over with a map whose internal keys are the gateway's. -/
theorem Outcome.internal_entries {mp : Multipart Form} {pooled : Slice} {content left : Bytes}
    {decoded : Decoded Form} (outcome : Outcome mp pooled content decoded left) (done : decoded.err = none)
    (order : RangeOrder) :
    ∃ copied header received h₁ h₂ host₁ host₂,
      decodeReqHeader decoded.req.header = .ok (copied, header) ∧
      (∀ kv ∈ header, ¬ Internal kv.key) ∧
      { decoded.req.header with rawHeaders := copied.rawHeaders }.getHost = .ok (h₁, host₁) ∧
      h₁.getHost = .ok (h₂, host₂) ∧ handleRequest mp order decoded.req = .ok received ∧
      ∀ kv ∈ received.header, Internal kv.key →
        kv ∈ [⟨strikeHeaderHostKey, host₁⟩, ⟨istioHeaderHostKey, host₂⟩,
          ⟨strikeHeaderMethod, h₂.getMethod⟩, ⟨strikeHeaderPathKey, h₂.getRequestURI⟩] := by
  obtain ⟨received, handedOver⟩ := handleRequest_ok mp order (outcome.quiet done).1 (outcome.quiet done).2
  obtain ⟨copied, header, h₁, host₁, h₂, host₂, buf, split, got₁, got₂, -, rfl⟩ := handleRequest_inv handedOver
  have external : ∀ kv ∈ header, External kv.key := by
    obtain ⟨copied', header', split', external⟩ := decodeReqHeader_external (outcome.clean done)
    rw [split] at split'
    cases split'
    exact external
  refine ⟨copied, header, _, h₁, h₂, host₁, host₂, split, fun kv there => (external kv there).not_internal,
    got₁, got₂, handedOver, ?_⟩
  intro kv there internal
  rcases mem_setArg there with rfl | there
  · simp
  rcases mem_setArg there with rfl | there
  · simp
  rcases mem_setArg there with rfl | there
  · simp
  rcases mem_setArg there with rfl | there
  · simp
  · exact absurd internal (external kv there).not_internal

/-- **Internal keys are the gateway's.** For every head that parses, no key of the map of
`decodeReqHeader` is internal, and in the map handed over for the request read from it, by whatever
outcome, an internal key has the value `handleRequest` gives it. -/
theorem internal_keys_are_set (mp : Multipart Form) {content memory : Bytes} {h : RequestHeader} {k : Nat}
    (parsed : ({} : RequestHeader).parse content = (h, memory, .ok k)) :
    (∃ h' header, decodeReqHeader h = .ok (h', header) ∧ ∀ kv ∈ header, ¬ Internal kv.key) ∧
      ∀ (pooled : Slice) (decoded : Decoded Form) (left : Bytes), Outcome mp pooled content decoded left →
        decoded.err = none → ∀ order : RangeOrder,
        ∃ copied header received h₁ h₂ host₁ host₂,
          decodeReqHeader decoded.req.header = .ok (copied, header) ∧
          (∀ kv ∈ header, ¬ Internal kv.key) ∧
          { decoded.req.header with rawHeaders := copied.rawHeaders }.getHost = .ok (h₁, host₁) ∧
          h₁.getHost = .ok (h₂, host₂) ∧ handleRequest mp order decoded.req = .ok received ∧
          ∀ kv ∈ received.header, Internal kv.key →
            kv ∈ [⟨strikeHeaderHostKey, host₁⟩, ⟨istioHeaderHostKey, host₂⟩,
              ⟨strikeHeaderMethod, h₂.getMethod⟩, ⟨strikeHeaderPathKey, h₂.getRequestURI⟩] := by
  constructor
  · obtain ⟨h', header, decoded, external⟩ := decodeReqHeader_external (RequestHeader.parse_clean parsed)
    exact ⟨h', header, decoded, fun kv there => (external kv there).not_internal⟩
  · exact fun pooled decoded left outcome done order => outcome.internal_entries done order

/-- A client that tries. -/
def forged : Bytes := ascii "GET /a HTTP/1.1\r\nx-strike-path: /b\r\nauthority: c\r\n\r\n"

/-- The theorem at a head that names internal keys. -/
theorem internal_keys_are_set_forged :
    ∃ h' header, decodeReqHeader (({} : RequestHeader).parse forged).1 = .ok (h', header) ∧
      ∀ kv ∈ header, ¬ Internal kv.key := by
  have parsed : ({} : RequestHeader).parse forged =
      ((({} : RequestHeader).parse forged).1, (({} : RequestHeader).parse forged).2.1, .ok 52) := by
    decide
  exact (internal_keys_are_set noForms parsed).1

end Strike.Http
