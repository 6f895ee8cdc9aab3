/-
**A connection, chunk by chunk.**

Handing a decoded request to the receiver never panics (`handleRequest_ok`), and the codec is asked to
stop after every request, so a `Dispatch` makes at most one call of `decodeHttpReq`: it fails and leaves
what it did not take, or it succeeds and everything left is dropped (`dispatch_spec`). A run of a
connection is described by these steps on the contents of its buffer (`Serves`, `run_serves`).
-/

import Strike.Http.Stream
import Strike.Http.Decoding

namespace Strike.Http

variable {Form : Type}

/-! ### Handing over -/

namespace RequestHeader

/-- Looking a name up in the header lines does not run past them. -/
def Quiet (h : RequestHeader) : Prop :=
  h.rawHeadersParsed = true ∨ h.rawHeaders = [] ∨ h.rawHeaders.getLast? = some lf

theorem addField_rawHeadersParsed (h : RequestHeader) (key value : Bytes) :
    (h.addField key value).rawHeadersParsed = h.rawHeadersParsed := by
  obtain ⟨_, _, _, _, _, _, same, -⟩ := h.addField_eq key value
  rw [same]

theorem headerLoop_rawHeadersParsed (fuel : Nat) (s : HeaderScanner) (h : RequestHeader) :
    (headerLoop fuel s h).2.rawHeadersParsed = h.rawHeadersParsed :=
  headerLoop_keeps (P := fun h' => h'.rawHeadersParsed = h.rawHeadersParsed)
    (fun h' key value same => (addField_rawHeadersParsed h' key value).trans same) fuel s rfl

theorem finish_rawHeadersParsed (h : RequestHeader) : h.finish.rawHeadersParsed = h.rawHeadersParsed := by
  obtain ⟨_, _, _, same⟩ := h.finish_eq
  rw [same]

theorem parseHeaders_rawHeadersParsed (h : RequestHeader) (buf : Bytes) :
    (h.parseHeaders buf).1.rawHeadersParsed = h.rawHeadersParsed := by
  unfold parseHeaders endHeaders
  dsimp only
  split
  · exact headerLoop_rawHeadersParsed ..
  · rw [finish_rawHeadersParsed, headerLoop_rawHeadersParsed]

theorem parseRawHeaders_spec (h : RequestHeader) :
    h.parseRawHeaders.rawHeadersParsed = true ∧ Recased h.rawHeaders h.parseRawHeaders.rawHeaders := by
  unfold parseRawHeaders
  split
  · next parsed => exact ⟨parsed, rfl⟩
  · dsimp only
    split
    · exact ⟨rfl, rfl⟩
    · cases parsed : ({ h with rawHeadersParsed := true } : RequestHeader).parseHeaders h.rawHeaders with
      | mk h' tail =>
        obtain ⟨memory, result⟩ := tail
        have flag := parseHeaders_rawHeadersParsed { h with rawHeadersParsed := true } h.rawHeaders
        rw [parsed] at flag
        exact ⟨flag, (parseHeaders_memory parsed).1⟩

theorem getHost_of_parsed {h : RequestHeader} (parsed : h.rawHeadersParsed = true) :
    h.getHost = .ok (h, h.host) := by
  have same : h.parseRawHeaders = h := if_pos parsed
  unfold getHost hostOr
  split
  · rfl
  · rw [if_neg (show ¬ ([] : Bytes).length > 0 by decide), same]

theorem visitAll_ok (h : RequestHeader) : ∃ pairs, h.visitAll = .ok (h.parseRawHeaders.collectCookies, pairs) := by
  unfold visitAll
  rw [getHost_of_parsed h.parseRawHeaders_spec.1]
  exact ⟨_, rfl⟩

theorem collectCookies_spec (h : RequestHeader) :
    h.collectCookies.rawHeadersParsed = h.rawHeadersParsed ∧ h.collectCookies.rawHeaders = h.rawHeaders := by
  unfold collectCookies
  split <;> exact ⟨rfl, rfl⟩

/-- The one index that could lie behind the header lines does not. -/
theorem peekRawHeader_ok {buf : Bytes} (quiet : buf = [] ∨ buf.getLast? = some lf) (key : Bytes) :
    ∃ host, peekRawHeader buf key = .ok host := by
  unfold peekRawHeader
  split
  · exact ⟨_, rfl⟩
  · split
    · exact ⟨_, rfl⟩
    · split
      · exact ⟨_, rfl⟩
      · next c behind found =>
          split
          · exact ⟨_, rfl⟩
          · next isColon =>
              split
              · -- A colon at the very end contradicts the line feed there.
                have last : buf.getLast? = some c := by
                  rw [← List.take_append_drop _ buf, found]
                  exact List.getLast?_concat
                rcases quiet with rfl | ends
                · rw [List.drop_nil] at found
                  cases found
                · rw [ends] at last
                  obtain rfl : lf = c := Option.some.inj last
                  exact absurd (show lf ≠ colon by decide) isColon
              · split
                · exact ⟨_, rfl⟩
                · split <;> exact ⟨_, rfl⟩

theorem getHost_ok {h : RequestHeader} (quiet : h.Quiet) : ∃ h' host, h.getHost = .ok (h', host) ∧ h'.Quiet := by
  by_cases parsed : h.rawHeadersParsed = true
  · exact ⟨h, h.host, getHost_of_parsed parsed, quiet⟩
  · have ends := quiet.resolve_left parsed
    obtain ⟨host, found⟩ := peekRawHeader_ok ends strHost
    unfold getHost hostOr
    split
    · exact ⟨h, h.host, rfl, quiet⟩
    · rw [found]
      dsimp only [Except.map]
      split
      · exact ⟨_, _, rfl, .inr ends⟩
      · exact ⟨_, _, rfl, .inl h.parseRawHeaders_spec.1⟩

/-- A line feed at the end stays where it is. -/
theorem getLast?_recased {b b' : Bytes} (recased : Recased b b') (ends : b.getLast? = some lf) :
    b'.getLast? = some lf := by
  have last := congrArg List.getLast? recased
  rw [List.getLast?_map, List.getLast?_map, ends] at last
  obtain ⟨c, found, low⟩ := Option.map_eq_some_iff.mp last
  rw [found, eq_of_toLower (by decide) low]
  rfl

end RequestHeader

/-- A form has a boundary. -/
def Request.Bounded (req : Request Form) : Prop := req.multipartForm ≠ none → req.multipartFormBoundary ≠ []

theorem Request.getBody_ok (mp : Multipart Form) (order : RangeOrder) {req : Request Form} (bounded : req.Bounded) :
    ∃ body, req.getBody mp order = .ok body := by
  unfold getBody
  cases form : req.multipartForm with
  | none => exact ⟨_, rfl⟩
  | some f =>
    have given : ¬ req.multipartFormBoundary.length = 0 :=
      fun none_ => bounded (by rw [form]; exact Option.some_ne_none f) (List.length_eq_zero_iff.mp none_)
    simp only [Multipart.marshalMultipartForm, if_neg given, bind, Except.bind]
    split
    · cases mp.writeMultipartForm order f req.multipartFormBoundary <;> exact ⟨_, rfl⟩
    · exact ⟨_, rfl⟩

/-- **Handing a request over never panics.** -/
theorem handleRequest_ok (mp : Multipart Form) (order : RangeOrder) {req : Request Form} (quiet : req.header.Quiet)
    (bounded : req.Bounded) : ∃ received, handleRequest mp order req = .ok received := by
  obtain ⟨pairs₁, first⟩ := req.header.visitAll_ok
  obtain ⟨pairs₂, second⟩ := req.header.parseRawHeaders.collectCookies.visitAll_ok
  -- The second visit finds the header as the first one left it.
  have settled : req.header.parseRawHeaders.collectCookies.parseRawHeaders
      = req.header.parseRawHeaders.collectCookies :=
    if_pos ((RequestHeader.collectCookies_spec _).1.trans req.header.parseRawHeaders_spec.1)
  rw [settled] at second
  have lines : Recased req.header.rawHeaders
      req.header.parseRawHeaders.collectCookies.collectCookies.rawHeaders := by
    rw [(RequestHeader.collectCookies_spec _).2, (RequestHeader.collectCookies_spec _).2]
    exact req.header.parseRawHeaders_spec.2
  have quiet' : RequestHeader.Quiet { req.header with
      rawHeaders := req.header.parseRawHeaders.collectCookies.collectCookies.rawHeaders } := by
    rcases quiet with parsed | none | ends
    · exact .inl parsed
    · refine .inr (.inl (List.length_eq_zero_iff.mp ?_))
      rw [lines.length_eq, none, List.length_nil]
    · exact .inr (.inr (RequestHeader.getLast?_recased lines ends))
  obtain ⟨h₁, host₁, got₁, quiet₁⟩ := RequestHeader.getHost_ok quiet'
  obtain ⟨h₂, host₂, got₂, -⟩ := RequestHeader.getHost_ok quiet₁
  have decoded : decodeReqHeader req.header
      = .ok (req.header.parseRawHeaders.collectCookies.collectCookies,
          pairs₂.foldl (fun out kv => setArg out kv.1 kv.2) []) := by
    simp only [decodeReqHeader, first, second, bind, Except.bind]
    rfl
  obtain ⟨body, given⟩ := Request.getBody_ok mp order bounded
  simp only [handleRequest, decoded, got₁, got₂, given, bind, Except.bind]
  cases h₂.noBody <;> exact ⟨_, rfl⟩

/-- **What the receiver is handed**: the map of the header, under the gateway's own keys the host, looked up
twice, the method and the path, and the body. -/
theorem handleRequest_inv {mp : Multipart Form} {order : RangeOrder} {req : Request Form} {received : Received}
    (handedOver : handleRequest mp order req = .ok received) :
    ∃ copied header h₁ host₁ h₂ host₂ buf, decodeReqHeader req.header = .ok (copied, header) ∧
      { req.header with rawHeaders := copied.rawHeaders }.getHost = .ok (h₁, host₁) ∧
      h₁.getHost = .ok (h₂, host₂) ∧
      (if h₂.noBody then .ok none else (req.getBody mp order).map some) = .ok buf ∧
      received = ⟨setArg (setArg (setArg (setArg header strikeHeaderHostKey host₁) istioHeaderHostKey host₂)
        strikeHeaderMethod h₂.getMethod) strikeHeaderPathKey h₂.getRequestURI, buf⟩ := by
  unfold handleRequest at handedOver
  simp only [bind, Except.bind] at handedOver
  split at handedOver
  · cases handedOver
  · next decoded =>
      split at handedOver
      · cases handedOver
      · next got₁ =>
          split at handedOver
          · cases handedOver
          · next got₂ =>
              split at handedOver
              · cases handedOver
              · next given =>
                  cases handedOver
                  exact ⟨_, _, _, _, _, _, _, decoded, got₁, got₂, given, rfl⟩

/-! ### Dispatching -/

theorem parse_quiet {h : RequestHeader} {content memory : Bytes} {k : Nat}
    (parsed : ({} : RequestHeader).parse content = (h, memory, .ok k)) : h.Quiet := by
  unfold RequestHeader.parse at parsed
  split at parsed
  · cases parsed
  · split at parsed
    · split at parsed
      · cases parsed
      · cases parsed
        exact .inl rfl
    · split at parsed
      · cases parsed
      · next read =>
          cases parsed
          exact .inr (RequestHeader.readRawHeaders_spec read).2

theorem Outcome.quiet {mp : Multipart Form} {pooled : Slice} {content rest : Bytes}
    {decoded : Decoded Form} (outcome : Outcome mp pooled content decoded rest)
    (done : decoded.err = none) : decoded.req.header.Quiet ∧ decoded.req.Bounded := by
  cases outcome with
  | unparsed => cases done
  | @parsed h memory k _ _ parsed body =>
    cases body with
    | skipped => exact ⟨parse_quiet parsed, (absurd rfl ·)⟩
    | unframed => exact ⟨.inl h.parseRawHeaders_spec.1, (absurd rfl ·)⟩
    | empty => exact ⟨.inl h.parseRawHeaders_spec.1, (absurd rfl ·)⟩
    | tooLarge => cases done
    | form _ _ _ _ has => exact ⟨parse_quiet parsed, fun _ => List.length_pos_iff.mp has.1⟩
    | badForm => cases done
    | missing => cases done
    | fixed => exact ⟨.inl h.parseRawHeaders_spec.1, (absurd rfl ·)⟩

section Dispatch

variable (mp : Multipart Form) (order : RangeOrder) (answers : Nat → Recycled Form) {b : IoBuffer} {content : Bytes} {size : Nat}

theorem dispatch_empty (stores : Stores b [] size) : dispatch mp order answers b = .ok [] b := by
  have none : ¬ b.len > 0 := by
    rw [stores.len_eq]
    exact Int.lt_irrefl 0
  rw [dispatch, decode, BufM.bind_apply, BufM.get_apply]
  simp only [decodeLoop, BufM.bind_apply, BufM.get_apply, BufM.ite_apply, if_neg none, BufM.pure_apply]

/-- **A dispatch makes one call**, and drops what is left of the buffer if it succeeds. -/
theorem dispatch_spec (stores : Stores b content size) (small : size < 2 ^ 63) (filled : content ≠ []) :
    ∃ decoded rest, Outcome mp (answers 0).body content decoded rest ∧
      match decoded.err with
      | some err => ∃ b', dispatch mp order answers b = .ok [⟨b, .error err⟩] b' ∧ Stores b' rest size
      | none => ∃ received b', handleRequest mp order decoded.req = .ok received ∧
          dispatch mp order answers b = .ok [⟨b, .ok received⟩] b' ∧ Stores b' [] size := by
  obtain ⟨decoded, rest, b', ran, stores', outcome⟩ := decodeHttpReq_outcome mp (answers 0) stores small filled
  have positive : 0 < content.length := List.length_pos_iff.mpr filled
  have more : b.len > 0 := by
    rw [stores.len_eq]
    omega
  obtain ⟨fuel, rounds⟩ : ∃ fuel, b.len.toNat = fuel + 1 := ⟨b.len.toNat - 1, by omega⟩
  refine ⟨decoded, rest, outcome, ?_⟩
  rw [dispatch, decode]
  cases failed : decoded.err with
  | some err =>
    refine ⟨b', ?_, stores'⟩
    simp only [BufM.bind_apply, BufM.get_apply, decodeLoop, BufM.ite_apply, if_pos more, ran, failed,
      BufM.pure_apply]
  | none =>
    obtain ⟨quiet, bounded⟩ := outcome.quiet failed
    obtain ⟨received, handedOver⟩ := handleRequest_ok mp order quiet bounded
    have done : onDecodeDone mp order decoded.req = .ok (received, .stop) := by
      rw [onDecodeDone, handedOver]
      rfl
    have dropped : Stores (b'.drain b'.len.toNat) [] size := by
      have drained := stores'.drain small (le_refl rest.length)
      rw [List.drop_length] at drained
      rw [stores'.len_eq, Int.toNat_natCast]
      exact drained
    have stop : ¬ (b'.drain b'.len.toNat).len > 0 := by
      rw [dropped.len_eq]
      exact Int.lt_irrefl 0
    refine ⟨received, b'.drain b'.len.toNat, handedOver, ?_, dropped⟩
    simp only [BufM.bind_apply, BufM.get_apply, rounds, decodeLoop, BufM.ite_apply, if_pos more, ran, failed,
      done, BufM.lift_ok, BufM.pure_apply, if_true, BufM.modify_apply, if_neg stop]

end Dispatch

/-! ### Runs -/

/-- **What a connection does**, as a relation on the contents of its buffer: `arrived` bytes have come
so far, of which the buffer still holds `content`. -/
inductive Serves (mp : Multipart Form) :
    Nat → Bytes → List (Arrival Form) → List (Nat × Call Received) → Prop
  | quiet {arrived : Nat} {content : Bytes} : Serves mp arrived content [] []
  | idle {arrived : Nat} {content : Bytes} {arrival : Arrival Form} {rest : List (Arrival Form)}
      {later : List (Nat × Call Received)} (nothing : content ++ arrival.data = [])
      (serves : Serves mp arrived [] rest later) :
      Serves mp arrived content (arrival :: rest) later
  | failed {arrived : Nat} {content left : Bytes} {arrival : Arrival Form} {rest : List (Arrival Form)}
      {later : List (Nat × Call Received)} {before : IoBuffer} {decoded : Decoded Form} {err : Error}
      (holds : Holds before (content ++ arrival.data)) (filled : content ++ arrival.data ≠ [])
      (outcome : Outcome mp (arrival.answers 0).body (content ++ arrival.data) decoded left)
      (isError : decoded.err = some err)
      (serves : Serves mp (arrived + arrival.data.length) left rest later) :
      Serves mp arrived content (arrival :: rest)
        ((arrived + arrival.data.length, ⟨before, .error err⟩) :: later)
  | done {arrived : Nat} {content left : Bytes} {arrival : Arrival Form} {rest : List (Arrival Form)}
      {later : List (Nat × Call Received)} {before : IoBuffer} {decoded : Decoded Form}
      {received : Received} (holds : Holds before (content ++ arrival.data))
      (filled : content ++ arrival.data ≠ [])
      (outcome : Outcome mp (arrival.answers 0).body (content ++ arrival.data) decoded left)
      (noError : decoded.err = none) (handedOver : handleRequest mp arrival.order decoded.req = .ok received)
      (serves : Serves mp (arrived + arrival.data.length) [] rest later) :
      Serves mp arrived content (arrival :: rest)
        ((arrived + arrival.data.length, ⟨before, .ok received⟩) :: later)

/-- How many bytes arrive. -/
def totalData (arrivals : List (Arrival Form)) : Nat := (arrivals.map fun a => a.data.length).sum

/-- **Every run of a connection is one of these.** By induction on the arrivals. -/
theorem run_serves (mp : Multipart Form) (arrivals : List (Arrival Form)) :
    ∀ {b : IoBuffer} {content : Bytes} {size : Nat} (arrived : Nat), Stores b content size →
      size + totalData arrivals < 2 ^ 63 →
      ∃ calls b', run mp arrivals arrived b = .ok calls b' ∧ Serves mp arrived content arrivals calls := by
  induction arrivals with
  | nil => exact fun {b} _ _ _ _ _ => ⟨[], b, rfl, .quiet⟩
  | cons arrival rest ih =>
    intro b content size arrived stores small
    have total : totalData (arrival :: rest) = arrival.data.length + totalData rest := List.sum_cons
    obtain ⟨b₁, appended, stores₁⟩ := stores.append arrival.pool arrival.data
    have fits : size + arrival.data.length + totalData rest < 2 ^ 63 := by omega
    by_cases nothing : content ++ arrival.data = []
    · rw [nothing] at stores₁
      obtain ⟨later, b', ran, serves⟩ := ih (arrived + arrival.data.length) stores₁ fits
      refine ⟨later, b', ?_, ?_⟩
      · simp only [run, BufM.bind_apply, appended, dispatch_empty mp arrival.order arrival.answers stores₁, ran,
          BufM.pure_apply, List.map_nil, List.nil_append]
      · rw [(List.append_eq_nil_iff.mp nothing).2, List.length_nil, Nat.add_zero] at serves
        exact .idle nothing serves
    · obtain ⟨decoded, left, outcome, ended⟩ :=
        dispatch_spec mp arrival.order arrival.answers stores₁ (by omega) nothing
      cases failed : decoded.err with
      | some err =>
        rw [failed] at ended
        obtain ⟨b₂, dispatched, stores₂⟩ := ended
        obtain ⟨later, b', ran, serves⟩ := ih (arrived + arrival.data.length) stores₂ fits
        refine ⟨_, b', ?_, .failed stores₁.holds nothing outcome failed serves⟩
        simp only [run, BufM.bind_apply, appended, dispatched, ran, BufM.pure_apply, List.map_cons,
          List.map_nil, List.cons_append, List.nil_append]
      | none =>
        rw [failed] at ended
        obtain ⟨received, b₂, handedOver, dispatched, stores₂⟩ := ended
        obtain ⟨later, b', ran, serves⟩ := ih (arrived + arrival.data.length) stores₂ fits
        refine ⟨_, b', ?_, .done stores₁.holds nothing outcome failed handedOver serves⟩
        simp only [run, BufM.bind_apply, appended, dispatched, ran, BufM.pure_apply, List.map_cons,
          List.map_nil, List.cons_append, List.nil_append]

section Inversion

variable {mp : Multipart Form} {arrived : Nat} {content : Bytes} {arrival : Arrival Form}
  {rest : List (Arrival Form)} {calls : List (Nat × Call Received)}

theorem Serves.unparsed_inv (serves : Serves mp arrived content (arrival :: rest) calls)
    {h : RequestHeader} {memory : Bytes} {err : Error}
    (parsed : ({} : RequestHeader).parse (content ++ arrival.data) = (h, memory, .error err)) :
    (content ++ arrival.data = [] ∧ Serves mp arrived [] rest calls) ∨
      ∃ before later, Holds before (content ++ arrival.data) ∧
        calls = (arrived + arrival.data.length,
          ⟨before, .error (headerError "request" err memory)⟩) :: later ∧
        Serves mp (arrived + arrival.data.length) memory rest later := by
  cases serves with
  | idle nothing serves => exact .inl ⟨nothing, serves⟩
  | failed holds filled outcome isError serves =>
    obtain ⟨same, rfl, -⟩ := outcome.of_unparsed parsed
    rw [same] at isError
    cases isError
    exact .inr ⟨_, _, holds, rfl, serves⟩
  | done holds filled outcome noError handedOver serves =>
    rw [(outcome.of_unparsed parsed).1] at noError
    cases noError

/-- A chunk that completes a request all of whose decodes succeed: it is handed over and the buffer is
empty. -/
theorem Serves.done_inv (serves : Serves mp arrived content (arrival :: rest) calls)
    (filled : content ++ arrival.data ≠ []) (view : Request Form → Prop)
    (succeeds : ∀ {pooled decoded left}, Outcome mp pooled (content ++ arrival.data) decoded left →
      decoded.err = none ∧ view decoded.req) :
    ∃ before req received later, Holds before (content ++ arrival.data) ∧ view req ∧
      handleRequest mp arrival.order req = .ok received ∧
      calls = (arrived + arrival.data.length, ⟨before, .ok received⟩) :: later ∧
      Serves mp (arrived + arrival.data.length) [] rest later := by
  cases serves with
  | idle nothing serves => exact absurd nothing filled
  | failed holds filled outcome isError serves =>
    rw [(succeeds outcome).1] at isError
    cases isError
  | done holds filled outcome noError handedOver serves =>
    exact ⟨_, _, _, _, holds, (succeeds outcome).2, handedOver, rfl, serves⟩

end Inversion

/-! ### A plain connection -/

/-- A form reader that reads no form. -/
def noForms : Multipart Empty where
  FileHeader := Empty
  Writer := Unit
  readForm _ _ _ := (.error "multipart: NextPart: EOF", 0)
  readForm_le _ _ _ := Nat.zero_le _
  valueKeys := nofun
  value := nofun
  fileKeys := nofun
  file := nofun
  filename := nofun
  openFile := nofun
  closeFile := nofun
  newWriter := ()
  setBoundary _ _ := .ok ()
  writeField _ _ _ := .ok ()
  createFormFile _ _ _ := .ok ()
  copyZeroAlloc _ _ := .ok ()
  close _ := .ok ()
  bytes _ := []
  quote := id

/-- The keys as they are listed. -/
def RangeOrder.listed : RangeOrder := ⟨id, id, fun _ => .refl _, fun _ => .refl _⟩

/-- A chunk that arrives while the pools are empty. -/
def arrives (data : Bytes) : Arrival Empty := ⟨data, .fresh, .listed, fun _ => .fresh Empty 0⟩

end Strike.Http
