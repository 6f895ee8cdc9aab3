/-
**Which requests reach the receiver.**

A `Message` is a well-formed request: its head, and a body that is empty for `GET` and `HEAD` and
otherwise as long as a `Content-Length` says. `Message.request` is the request the decoder should make of
it, and `Delivers` says that the receiver was given it.

The codec stops after every request and drops the rest of the buffer, and it takes a body as far as it
has arrived. So a request is handed over if the chunks that bring it end with it and none of them ends
between its head and its end (`ArrivesWhole`).

* `delivers_of_arrivesWhole`: all requests of a connection, in order.
* `pipelined_lost`: two requests in one chunk, of which the receiver gets one.
-/

import Strike.Http.Connection
import Strike.Http.Message

namespace Strike.Http

variable {Form : Type}

/-! ### Requests -/

/-- **A well-formed request** without `Expect`, `Transfer-Encoding` or a form. -/
structure Message extends Head where
  body : Bytes
  small : body.length ≤ maxBodySize
  lengths : ∀ f ∈ fields, f.key = strContentLength → IsDecimal f.value ∧ decimalFrom 0 f.value = body.length
  framed : if toHead.noBody then body = [] else ∃ f ∈ fields, f.key = strContentLength
  direct : ∀ f ∈ fields, f.key ≠ strExpect ∧ f.key ≠ strTransferEncoding
  plain : ∀ f ∈ fields, f.key = strContentType → hasPrefix f.value strMultipartFormData = false

namespace Message

variable (r : Message)

/-- The request on the wire. -/
def wire : Bytes := r.bytes ++ r.body

/-- No length has more digits than the parser reads. -/
def ShortLengths : Prop := ∀ f ∈ r.fields, f.key = strContentLength → f.value.length ≤ maxIntChars

/-- **The request the decoder should make of it.** -/
def request (Form : Type) : Request Form :=
  if r.noBody then { header := r.header }
  else { header := r.header.setContentLength r.body.length, body := some (.ofBytes r.body) }

end Message

/-- **The receiver was given the request**, with its method, path and body. -/
structure Delivers (mp : Multipart Form) (r : Message) (received : Received) : Prop where
  handedOver : ∀ order, handleRequest mp order (r.request Form) = .ok received
  method : peekArg received.header strikeHeaderMethod = r.method
  path : peekArg received.header strikeHeaderPathKey = r.uri
  body : received.buf = if r.noBody then none else some r.body

/-! ### What the header of a request says -/

namespace RequestHeader

/-- The same request line. -/
structure SameLine (h h' : RequestHeader) : Prop where
  method : h'.method = h.method
  requestURI : h'.requestURI = h.requestURI
  version : h'.noHTTP11 = h.noHTTP11

theorem SameLine.trans {h h' h'' : RequestHeader} (first : SameLine h h') (second : SameLine h' h'') :
    SameLine h h'' :=
  ⟨second.method.trans first.method, second.requestURI.trans first.requestURI,
    second.version.trans first.version⟩

theorem SameLine.noBody {h h' : RequestHeader} (same : SameLine h h') : h'.noBody = h.noBody := by
  unfold RequestHeader.noBody getMethod
  rw [same.method]

theorem addField_sameLine (h : RequestHeader) (key value : Bytes) : SameLine h (h.addField key value) := by
  obtain ⟨_, _, _, _, _, _, same, -⟩ := h.addField_eq key value
  rw [same]
  exact ⟨rfl, rfl, rfl⟩

theorem headerLoop_sameLine (fuel : Nat) (s : HeaderScanner) (h : RequestHeader) :
    SameLine h (headerLoop fuel s h).2 :=
  headerLoop_keeps (P := SameLine h) (fun h' key value same => same.trans (addField_sameLine h' key value)) fuel s
    ⟨rfl, rfl, rfl⟩

theorem finish_sameLine (h : RequestHeader) : SameLine h h.finish := by
  obtain ⟨_, _, _, same⟩ := h.finish_eq
  rw [same]
  exact ⟨rfl, rfl, rfl⟩

theorem parseHeaders_sameLine (h : RequestHeader) (buf : Bytes) : SameLine h (h.parseHeaders buf).1 := by
  have scanned := headerLoop_sameLine (buf.length + 1)
    { b := buf, disableNormalizing := h.disableNormalizing } { h with contentLength := -2 }
  have start : SameLine h { h with contentLength := -2 } := ⟨rfl, rfl, rfl⟩
  unfold parseHeaders endHeaders
  dsimp only
  split
  · exact start.trans (scanned.trans ⟨rfl, rfl, rfl⟩)
  · exact start.trans (scanned.trans (finish_sameLine _))

theorem parseRawHeaders_sameLine (h : RequestHeader) : SameLine h h.parseRawHeaders := by
  unfold parseRawHeaders
  split
  · exact ⟨rfl, rfl, rfl⟩
  · dsimp only
    split
    · exact ⟨rfl, rfl, rfl⟩
    · have parsed := parseHeaders_sameLine { h with rawHeadersParsed := true } h.rawHeaders
      exact ⟨parsed.method, parsed.requestURI, parsed.version⟩

theorem getHost_sameLine {h h' : RequestHeader} {host : Bytes} (got : h.getHost = .ok (h', host)) :
    SameLine h h' := by
  have either : ∀ host', SameLine h (h.hostOr host').1 := fun host' => by
    unfold hostOr
    split
    · exact ⟨rfl, rfl, rfl⟩
    · exact h.parseRawHeaders_sameLine
  unfold getHost at got
  split at got
  · cases got
    exact ⟨rfl, rfl, rfl⟩
  · split at got
    · cases got
      exact either []
    · cases found : peekRawHeader h.rawHeaders strHost with
      | error cause =>
        rw [found] at got
        cases got
      | ok host' =>
        rw [found] at got
        have same := either host'
        rw [show h.hostOr host' = (h', host) from Except.ok.inj got] at same
        exact same

end RequestHeader

theorem peekArg_setArg_self (args : List ArgsKV) (key value : Bytes) :
    peekArg (setArg args key value) key = value := by
  rw [peekArg_eq, getArg_setArg_self]
  rfl

theorem peekArg_setArg_of_ne {key other : Bytes} (differ : key ≠ other) (args : List ArgsKV) (value : Bytes) :
    peekArg (setArg args key value) other = peekArg args other := by
  rw [peekArg_eq, peekArg_eq, getArg_setArg_of_ne differ]

/-- **What the receiver is told of a request**: its method, its path and its body. -/
theorem handleRequest_view {mp : Multipart Form} {order : RangeOrder} {req : Request Form} {received : Received}
    (handedOver : handleRequest mp order req = .ok received) :
    peekArg received.header strikeHeaderMethod = req.header.getMethod ∧
      peekArg received.header strikeHeaderPathKey = req.header.getRequestURI ∧
      (if req.header.noBody then .ok none else (req.getBody mp order).map some) = .ok received.buf := by
  obtain ⟨copied, header, h₁, host₁, h₂, host₂, buf, -, got₁, got₂, given, rfl⟩ := handleRequest_inv handedOver
  have same := (RequestHeader.getHost_sameLine got₁).trans (RequestHeader.getHost_sameLine got₂)
  have method : h₂.getMethod = req.header.getMethod := by
    unfold RequestHeader.getMethod
    rw [same.method]
  have uri : h₂.getRequestURI = req.header.getRequestURI := by
    unfold RequestHeader.getRequestURI
    rw [same.requestURI]
  refine ⟨?_, ?_, ?_⟩
  · rw [peekArg_setArg_of_ne (by decide), peekArg_setArg_self, method]
  · rw [peekArg_setArg_self, uri]
  · rw [same.noBody] at given
    exact given

theorem handleRequest_body (mp : Multipart Form) (order : RangeOrder) (h : RequestHeader) {b b' : Slice}
    (val : b.val = b'.val) :
    handleRequest mp order { header := h, body := some b } = handleRequest mp order { header := h, body := some b' } := by
  simp only [handleRequest, Request.getBody, Request.bodyBytes, val]

/-! ### The header of a well-formed request -/

section Fields

/-- What holds of the header while the fields of a request with a body of `n` bytes are added. -/
structure Meets (n : Nat) (h : RequestHeader) : Prop where
  length : h.contentLength = -2 ∨ h.contentLength = n
  plain : hasPrefix h.contentType strMultipartFormData = false
  direct : ∀ kv ∈ h.h, kv.key ≠ strExpect

variable {r : Message} {f : Field} (there : f ∈ r.fields) (short : r.ShortLengths)

include there short

theorem Message.parseContentLength_eq (isLength : f.key = strContentLength) :
    parseContentLength f.value = .ok r.body.length := by
  obtain ⟨digits, value⟩ := r.lengths f there isLength
  unfold parseContentLength
  rw [parseUintBuf_digits digits (short f there isLength)]
  simp only [ne_eq, not_true_eq_false, if_false, value]

/-- **One field.** -/
theorem Meets.addField {h : RequestHeader} (meets : Meets r.body.length h) :
    Meets r.body.length (h.addField f.key f.value) ∧
      (f.key = strContentLength ∨ h.contentLength = r.body.length →
        (h.addField f.key f.value).contentLength = r.body.length) := by
  have free := r.direct f there
  have notChunked : h.contentLength ≠ -1 := by
    rcases meets.length with none | some_ <;> omega
  have appended : ∀ kv ∈ appendArg h.h f.key f.value, kv.key ≠ strExpect := by
    intro kv within
    rcases List.mem_append.mp within with old | new
    · exact meets.direct kv old
    · rw [List.mem_singleton.mp new]
      exact free.1
  unfold RequestHeader.addField
  by_cases isHost : f.key = strHost
  · rw [if_pos isHost]
    exact ⟨⟨meets.length, meets.plain, meets.direct⟩, fun or => or.resolve_left (by rw [isHost]; decide)⟩
  rw [if_neg isHost]
  by_cases isAgent : f.key = strUserAgent
  · rw [if_pos isAgent]
    exact ⟨⟨meets.length, meets.plain, meets.direct⟩, fun or => or.resolve_left (by rw [isAgent]; decide)⟩
  rw [if_neg isAgent]
  by_cases isType : f.key = strContentType
  · rw [if_pos isType]
    exact ⟨⟨meets.length, r.plain f there isType, meets.direct⟩,
      fun or => or.resolve_left (by rw [isType]; decide)⟩
  rw [if_neg isType]
  by_cases isLength : f.key = strContentLength
  · rw [if_pos isLength, if_pos notChunked, Message.parseContentLength_eq there short isLength]
    exact ⟨⟨.inr rfl, meets.plain, meets.direct⟩, fun _ => rfl⟩
  rw [if_neg isLength, if_neg free.2]
  by_cases isConnection : f.key = strConnection
  · rw [if_pos isConnection]
    split
    · exact ⟨⟨meets.length, meets.plain, meets.direct⟩, fun or => or.resolve_left isLength⟩
    · exact ⟨⟨meets.length, meets.plain, appended⟩, fun or => or.resolve_left isLength⟩
  · rw [if_neg isConnection]
    exact ⟨⟨meets.length, meets.plain, appended⟩, fun or => or.resolve_left isLength⟩

omit there

/-- **All fields**, by induction on those still to come. -/
theorem Meets.addFields (fields : List Field) :
    ∀ {h : RequestHeader}, (∀ f ∈ fields, f ∈ r.fields) → Meets r.body.length h →
      Meets r.body.length (h.addFields fields) ∧
        ((∃ f ∈ fields, f.key = strContentLength) ∨ h.contentLength = r.body.length →
          (h.addFields fields).contentLength = r.body.length) := by
  induction fields with
  | nil =>
    intro h _ meets
    exact ⟨meets, fun or => or.resolve_left fun ⟨_, no, _⟩ => nomatch no⟩
  | cons f fields ih =>
    intro h within meets
    obtain ⟨meets', found⟩ := meets.addField (within f List.mem_cons_self) short
    obtain ⟨all, found'⟩ := ih (fun g there => within g (List.mem_cons_of_mem _ there)) meets'
    refine ⟨all, fun or => found' ?_⟩
    rcases or with ⟨g, there, isLength⟩ | known
    · rcases List.mem_cons.mp there with rfl | later
      · exact .inr (found (.inl isLength))
      · exact .inl ⟨g, later, isLength⟩
    · exact .inr (found (.inr known))

end Fields

theorem RequestHeader.addFields_sameLine (fields : List Field) :
    ∀ h : RequestHeader, SameLine h (h.addFields fields) := by
  induction fields with
  | nil => exact fun h => ⟨rfl, rfl, rfl⟩
  | cons f fields ih => exact fun h => (addField_sameLine h _ _).trans (ih _)

namespace Message

variable (r : Message)

theorem header_sameLine : RequestHeader.SameLine r.started r.header := by
  unfold Head.header
  split
  · exact ⟨rfl, rfl, rfl⟩
  · have added := RequestHeader.addFields_sameLine r.fields { r.started with contentLength := -2 }
    have finished := added.trans (RequestHeader.finish_sameLine _)
    exact ⟨finished.method, finished.requestURI, finished.version⟩

theorem header_noBody : r.header.noBody = r.noBody := r.header_sameLine.noBody.trans r.started_noBody

/-- **The header of a request with a body**: its length is that of the body, and nothing keeps the
decoder from reading it. -/
theorem header_reads (short : r.ShortLengths) (hasBody : r.noBody = false) :
    r.header.ReadsBody ∧ r.header.getContentLength = r.body.length ∧ r.header.multipartFormBoundary = [] := by
  have start : Meets r.body.length { r.started with contentLength := -2 } :=
    ⟨.inl rfl, rfl, fun _ no => nomatch no⟩
  obtain ⟨meets, found⟩ := start.addFields short r.fields fun _ there => there
  have framed := r.framed
  rw [hasBody] at framed
  have length := found (.inl framed)
  have line := RequestHeader.addFields_sameLine r.fields { r.started with contentLength := -2 }
  have noBody := line.noBody.trans (r.started_noBody.trans hasBody)
  have version : (({ r.started with contentLength := -2 } : RequestHeader).addFields r.fields).noHTTP11 = false :=
    line.version
  have whole : r.header = { ({ r.started with contentLength := -2 } : RequestHeader).addFields r.fields with
      rawHeadersParsed := true } := by
    unfold Head.header
    rw [hasBody]
    generalize ({ r.started with contentLength := -2 } : RequestHeader).addFields r.fields = h
      at meets length noBody version
    rw [RequestHeader.finish_settled (by omega) noBody version]
    rfl
  have parsed : r.header.parseRawHeaders = r.header := if_pos (by rw [whole])
  have hasBody' := r.header_noBody.trans hasBody
  refine ⟨⟨hasBody', ?_⟩, ?_, ?_⟩
  · unfold RequestHeader.peek peekArg
    have none : r.header.h.find? (fun kv => kv.key = strExpect) = none := by
      rw [List.find?_eq_none, whole]
      exact fun kv there => by simpa using meets.direct kv there
    rw [parsed, none]
    decide
  · unfold RequestHeader.getContentLength
    rw [hasBody', parsed, whole]
    exact length
  · unfold RequestHeader.multipartFormBoundary RequestHeader.getContentType
    rw [parsed, whole]
    exact if_neg (Bool.eq_false_iff.mp meets.plain)

/-! ### One request -/

variable {r} {mp : Multipart Form}

theorem body_of_whole {head : Head} (same : Head.Same r.toHead head) {pooled : Slice} {decoded : Decoded Form}
    {left : Bytes} (outcome : Outcome mp pooled (head.bytes ++ r.body) decoded left) :
    BodyOutcome mp pooled r.header r.body decoded left := by
  have body := outcome.of_parsed (head.parse_whole r.body)
  rwa [List.drop_left' head.same_written.length_bytes, same.header_eq] at body

/-- **A whole body is taken as it is**, whichever buffer is recycled for it. -/
theorem decoded_of_body (short : r.ShortLengths) (hasBody : r.noBody = false) {pooled : Slice}
    {decoded : Decoded Form} {left : Bytes} (body : BodyOutcome mp pooled r.header r.body decoded left) :
    ∃ b : Slice, b.val = r.body ∧
      decoded = { req := { header := r.header.setContentLength r.body.length, body := some b } } := by
  obtain ⟨reads, length, plain⟩ := r.header_reads short hasBody
  obtain ⟨b, val, -, rfl⟩ := body.of_whole reads length r.small plain (le_refl _)
  rw [List.take_length] at val
  exact ⟨b, val, rfl⟩

/-- **A whole request in the buffer is decoded**, whichever buffers are recycled. -/
theorem decoded_of_whole (short : r.ShortLengths) {head : Head} (same : Head.Same r.toHead head)
    {pooled : Slice} {decoded : Decoded Form} {left : Bytes}
    (outcome : Outcome mp pooled (head.bytes ++ r.body) decoded left) :
    decoded.err = none ∧ ∀ order, handleRequest mp order decoded.req = handleRequest mp order (r.request Form) := by
  have body := body_of_whole same outcome
  unfold request
  cases hasBody : r.noBody with
  | true =>
    have skips : ¬ r.header.ReadsBody := fun reads => by
      have none := reads.1
      rw [r.header_noBody, hasBody] at none
      cases none
    rw [body.of_skips skips]
    exact ⟨rfl, fun _ => rfl⟩
  | false =>
    obtain ⟨b, val, rfl⟩ := decoded_of_body short hasBody body
    exact ⟨rfl, fun order => handleRequest_body mp order _ (val.trans (Slice.ofBytes_val _).symm)⟩

/-- It has no form, and the order in which one would be written does not matter. -/
theorem handleRequest_order (mp : Multipart Form) (order order' : RangeOrder) :
    handleRequest mp order (r.request Form) = handleRequest mp order' (r.request Form) := by
  unfold request
  split <;> rfl

theorem delivers_of_handed {order : RangeOrder} {received : Received}
    (handedOver : handleRequest mp order (r.request Form) = .ok received) : Delivers mp r received := by
  obtain ⟨method, path, body⟩ := handleRequest_view handedOver
  have line : RequestHeader.SameLine r.started (r.request Form).header := by
    unfold request
    split
    · exact r.header_sameLine
    · have parsed := r.header_sameLine.trans r.header.parseRawHeaders_sameLine
      exact ⟨parsed.method, parsed.requestURI, parsed.version⟩
  have noBody : (r.request Form).header.noBody = r.noBody := line.noBody.trans r.started_noBody
  refine ⟨fun order' => (handleRequest_order mp order' order).trans handedOver, ?_, ?_, ?_⟩
  · rw [method, RequestHeader.getMethod, line.method]
    exact if_neg r.methodGiven
  · rw [path, RequestHeader.getRequestURI, line.requestURI]
    exact if_neg r.uriGiven
  · rw [noBody] at body
    split
    · next skips =>
        rw [if_pos skips] at body
        exact (Except.ok.inj body).symm
    · next hasBody =>
        rw [if_neg hasBody] at body
        unfold request at body
        rw [if_neg hasBody] at body
        exact (Except.ok.inj body).symm.trans (congrArg some (Slice.ofBytes_val _))

end Message

/-! ### The chunks of a request -/

/-- **The chunks bring the request and end with it**, and none of them but the last reaches the end of
its head. -/
structure ArrivesAs (r : Message) (chunks : List Bytes) : Prop where
  whole : chunks.flatten = r.wire
  inHead : ∀ front back, chunks = front ++ back → back ≠ [] → front.flatten.length < r.bytes.length

/-- The chunks fall into those of one request after another. -/
def ArrivesWhole (rs : List Message) (chunks : List Bytes) : Prop :=
  ∃ groups : List (List Bytes), chunks = groups.flatten ∧ List.Forall₂ ArrivesAs rs groups

section Runs

variable {mp : Multipart Form} {r : Message}

/-- **The chunks of one request.** `head` is its head as it lies in memory by now, of which the buffer
holds the front. By induction on the chunks still to come. -/
theorem Serves.request (short : r.ShortLengths) {later : List (Arrival Form)} (arrivals : List (Arrival Form)) :
    ∀ {arrived : Nat} {content : Bytes} {calls : List (Nat × Call Received)} {head : Head},
      Serves mp arrived content (arrivals ++ later) calls → Head.Same r.toHead head →
      content ++ (arrivals.map Arrival.data).flatten = head.bytes ++ r.body →
      content.length < head.bytes.length →
      (∀ front back, arrivals.map Arrival.data = front ++ back → back ≠ [] →
        content.length + front.flatten.length < head.bytes.length) →
      ∃ arrived' received after, Delivers mp r received ∧ handed calls = received :: handed after ∧
        Serves mp arrived' [] later after := by
  induction arrivals with
  | nil =>
    intro arrived content calls head _ _ whole inside _
    rw [List.map_nil, List.flatten_nil, List.append_nil] at whole
    rw [whole, List.length_append] at inside
    omega
  | cons arrival arrivals ih =>
    intro arrived content calls head serves same whole inside inHead
    rw [List.map_cons, List.flatten_cons, ← List.append_assoc] at whole
    by_cases last : arrivals = []
    · -- The last chunk completes the request.
      subst last
      rw [List.map_nil, List.flatten_nil, List.append_nil] at whole
      have filled : content ++ arrival.data ≠ [] := fun nothing => by
        rw [nothing] at whole
        have := congrArg List.length whole
        rw [List.length_append, List.length_nil] at this
        omega
      obtain ⟨before, req, received, after, -, view, handedOver, rfl, serves'⟩ :=
        serves.done_inv filled
          (fun req => ∀ order, handleRequest mp order req = handleRequest mp order (r.request Form))
          fun outcome => Message.decoded_of_whole short same (whole ▸ outcome)
      rw [view] at handedOver
      exact ⟨_, received, after, Message.delivers_of_handed handedOver, rfl, serves'⟩
    · have more : arrivals.map Arrival.data ≠ [] := fun nothing => last (List.map_eq_nil_iff.mp nothing)
      have shorter := inHead [arrival.data] _ rfl more
      rw [List.flatten_singleton, ← List.length_append] at shorter
      -- What has come is a front of the head.
      obtain ⟨rest, front, someRest⟩ : ∃ rest, content ++ arrival.data ++ rest = head.bytes ∧ rest ≠ [] := by
        rcases front_split whole with ⟨rest, front, someRest, -⟩ | ⟨behind, longer, -⟩
        · exact ⟨rest, front, someRest⟩
        · rw [longer, List.length_append] at shorter
          omega
      obtain ⟨h, memory, head', parsed, same', left⟩ := head.parse_short front someRest
      have size : memory.length = (content ++ arrival.data).length :=
        (RequestHeader.parse_memory parsed).1.length_eq
      have bytes' := same'.length_bytes
      have whole' : memory ++ (arrivals.map Arrival.data).flatten = head'.bytes ++ r.body := by
        rw [← left, List.append_assoc]
        rw [← front, List.append_assoc (content ++ arrival.data), List.append_cancel_left_eq] at whole
        rw [whole]
      have inHead' : ∀ front back, arrivals.map Arrival.data = front ++ back → back ≠ [] →
          memory.length + front.flatten.length < head'.bytes.length := by
        intro front back split someBack
        have := inHead (arrival.data :: front) back (by rw [List.map_cons, split, List.cons_append]) someBack
        rw [List.flatten_cons, List.length_append] at this
        rw [size, bytes', List.length_append]
        omega
      have same'' : Head.Same r.toHead head' := same.trans same'
      rcases serves.unparsed_inv parsed with ⟨nothing, serves'⟩ | ⟨before, after, -, rfl, serves'⟩
      · obtain rfl : memory = [] := by
          rw [nothing, List.length_nil] at size
          exact List.length_eq_zero_iff.mp size
        exact ih serves' same'' whole' (by omega) inHead'
      · obtain ⟨arrived', received, after', delivers, handedOver, serves''⟩ :=
          ih serves' same'' whole' (by omega) inHead'
        exact ⟨arrived', received, after', delivers, handedOver, serves''⟩

/-- **The chunks of several requests.** By induction on the requests. -/
theorem Serves.requests {rs : List Message} {groups : List (List Bytes)}
    (arrive : List.Forall₂ ArrivesAs rs groups) :
    ∀ {arrived : Nat} {arrivals : List (Arrival Form)} {calls : List (Nat × Call Received)},
      (∀ r ∈ rs, r.ShortLengths) → arrivals.map Arrival.data = groups.flatten →
      Serves mp arrived [] arrivals calls → List.Forall₂ (Delivers mp) rs (handed calls) := by
  induction arrive with
  | nil =>
    intro arrived arrivals calls _ chunks serves
    obtain rfl : arrivals = [] := List.map_eq_nil_iff.mp chunks
    cases serves
    exact .nil
  | @cons r chunks rs groups first others ih =>
    intro arrived arrivals calls short split serves
    rw [List.flatten_cons] at split
    obtain ⟨here, later, rfl, front, back⟩ := List.map_eq_append_iff.mp split
    have positive : 0 < r.bytes.length := by
      simp only [Head.bytes, List.length_append, List.length_cons]
      omega
    obtain ⟨arrived', received, after, delivers, handedOver, serves'⟩ :=
      Serves.request (short r List.mem_cons_self) here serves (Head.Same.refl r.toHead)
        (by rw [front, first.whole]; rfl) positive fun f b divided someBack => by
          rw [List.length_nil, Nat.zero_add]
          exact first.inHead f b (front ▸ divided) someBack
    rw [handedOver]
    exact .cons delivers (ih (fun r there => short r (List.mem_cons_of_mem _ there)) back serves')

end Runs

/-- **Requests that arrive whole are handed over**, each once, in order and with its own body. -/
theorem delivers_of_arrivesWhole (mp : Multipart Form) (rs : List Message) (arrivals : List (Arrival Form))
    (pool : Pool) (capacity : Int) (short : ∀ r ∈ rs, r.ShortLengths)
    (whole : ArrivesWhole rs (arrivals.map Arrival.data)) (small : totalData arrivals < 2 ^ 63) :
    ∃ calls b, run mp arrivals 0 (.new pool capacity) = .ok calls b ∧
      List.Forall₂ (Delivers mp) rs (handed calls) := by
  obtain ⟨groups, chunks, arrive⟩ := whole
  obtain ⟨calls, b, ran, serves⟩ := run_serves mp arrivals 0 (.new pool capacity) (by omega)
  exact ⟨calls, b, ran, serves.requests arrive short chunks⟩

/-! ### Requests in one chunk, in two, and two in one -/

theorem arrivesAs_one (r : Message) : ArrivesAs r [r.wire] := by
  refine ⟨List.flatten_singleton, fun front back split someBack => ?_⟩
  cases front with
  | nil =>
    simp only [List.flatten_nil, List.length_nil, Head.bytes, List.length_append, List.length_cons]
    omega
  | cons chunk front =>
    have none := (List.cons.inj split).2.symm
    exact absurd (List.append_eq_nil_iff.mp none).2 someBack

theorem arrivesAs_two {r : Message} {part rest : Bytes} (whole : part ++ rest = r.wire)
    (inHead : part.length < r.bytes.length) : ArrivesAs r [part, rest] := by
  refine ⟨by rw [List.flatten_cons, List.flatten_singleton, whole], fun front back split someBack => ?_⟩
  match front, split with
  | [], _ => exact Nat.lt_of_le_of_lt (Nat.zero_le _) inHead
  | [chunk], split =>
    rw [List.flatten_singleton, ← (List.cons.inj split).1]
    exact inHead
  | chunk :: chunk' :: front, split =>
    have none := (List.cons.inj (List.cons.inj split).2).2.symm
    exact absurd (List.append_eq_nil_iff.mp none).2 someBack

/-- `GET` without fields. -/
def getOf (uri : Bytes) (given : uri ≠ []) (word : space ∉ uri ∧ lf ∉ uri) : Message where
  method := strGet
  uri := uri
  fields := []
  methodGiven := by decide
  methodWord := by decide
  uriGiven := given
  uriWord := word
  body := []
  small := Nat.zero_le _
  lengths := fun _ no => nomatch no
  framed := rfl
  direct := fun _ no => nomatch no
  plain := fun _ no => nomatch no

def getA : Message := getOf (ascii "/a") slashA_given slashA_word

def getB : Message := getOf (ascii "/b") (by decide) (by decide)

/-- `POST /c` with the body `hi`. -/
def postC : Message where
  method := ascii "POST"
  uri := ascii "/c"
  fields := [⟨ascii "content-length", ascii " 2", by decide, by decide⟩]
  methodGiven := post_given
  methodWord := post_word
  uriGiven := by decide
  uriWord := by decide
  body := ascii "hi"
  small := by decide
  lengths := by
    intro f there _
    rw [List.mem_singleton.mp there]
    exact ⟨⟨by decide +kernel, by decide +kernel⟩, by decide +kernel⟩
  framed := ⟨_, List.mem_singleton_self _, by decide⟩
  direct := by
    intro f there
    rw [List.mem_singleton.mp there]
    decide
  plain := by
    intro f there isType
    rw [List.mem_singleton.mp there] at isType
    exact absurd isType (by decide)

/-- The theorem at a `GET` and a `POST` whose head comes in two chunks. -/
theorem delivers_of_arrivesWhole_sample :
    ∃ calls b, run noForms [arrives getA.wire, arrives (postC.wire.take 20), arrives (postC.wire.drop 20)] 0
        (.new .fresh 0) = .ok calls b ∧ List.Forall₂ (Delivers noForms) [getA, postC] (handed calls) := by
  refine delivers_of_arrivesWhole noForms [getA, postC]
    [arrives getA.wire, arrives (postC.wire.take 20), arrives (postC.wire.drop 20)] .fresh 0 ?_ ?_
    (by decide)
  · intro r there f within _
    rcases List.mem_pair.mp there with rfl | rfl
    · cases within
    · rw [List.mem_singleton.mp within]
      decide
  · exact ⟨[[getA.wire], [postC.wire.take 20, postC.wire.drop 20]], rfl,
      .cons (arrivesAs_one getA)
        (.cons (arrivesAs_two (List.take_append_drop 20 postC.wire) (by decide)) .nil)⟩

/-- **Two requests in one chunk**: the receiver gets the first, and the second is dropped. -/
theorem pipelined_lost : ∃ calls b, run noForms [arrives (getA.wire ++ getB.wire)] 0 (.new .fresh 0) = .ok calls b ∧
      (handed calls).length = 1 ∧ ¬ List.Forall₂ (Delivers noForms) [getA, getB] (handed calls) := by
  obtain ⟨calls, b, ran, serves⟩ := run_serves noForms [arrives (getA.wire ++ getB.wire)] 0
    (.new .fresh 0) (by decide)
  have split : getA.wire ++ getB.wire = getA.bytes ++ getB.wire := by
    rw [Message.wire, show getA.body = [] from rfl, List.append_nil]
  obtain ⟨before, req, received, later, -, -, -, rfl, serves'⟩ :=
    serves.done_inv (by decide) (fun _ => True) fun outcome => by
      have parsed := getA.parse_whole getB.wire
      rw [← split] at parsed
      have skips : ¬ getA.header.ReadsBody := fun reads => absurd reads.1 (by decide)
      rw [(outcome.of_parsed parsed).of_skips skips]
      exact ⟨rfl, trivial⟩
  cases serves'
  refine ⟨_, b, ran, rfl, fun all => ?_⟩
  have := all.length_eq
  cases this

end Strike.Http
