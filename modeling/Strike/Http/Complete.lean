/-
**A complete request is decoded exactly.**

A `Posted` request has a body, the length of which one of its header lines announces; its other lines are ones the
parser keeps as they are (`Line`). With anything behind it in the buffer, `decodeHttpReq` returns its method, its
URI, its lines in order under normalised names, and its body, and leaves what is behind.

* `addFields_lines`: lines are appended to the header as they come.
* `Posted.header_eq`: so the header of the head is the one that was written.
* `decodeHttpReq_posted`: and the decoder goes on to take the body and nothing else.
-/

import Strike.Http.Connection
import Strike.Http.Message

namespace Strike.Http

variable {Form : Type}

/-! ### Lines -/

/-- The names that have a meaning of their own. -/
def reservedNames : List Bytes :=
  [strHost, strUserAgent, strContentType, strContentLength, strTransferEncoding, strConnection, strExpect, strCookie]

/-- A header line that is kept as it is. -/
structure Line where
  name : Bytes
  value : Bytes
  named : name ≠ []
  noColon : colon ∉ name
  oneLine : lf ∉ name ∧ lf ∉ value
  trimmed : value.head? ≠ some space ∧ value.getLast? ≠ some space
  ordinary : normalizeHeaderKey name false ∉ reservedNames

/-- Around a text without a space at either end, the one behind the colon is all that is stripped. -/
theorem stripSpace_space {value : Bytes} (trimmed : value.head? ≠ some space ∧ value.getLast? ≠ some space) :
    stripSpace (space :: value) = value := by
  have front : value.dropWhile (· = space) = value := by
    cases value with
    | nil => rfl
    | cons c rest => exact List.dropWhile_cons_of_neg (by simpa using trimmed.1)
  have back : value.rdropWhile (· = space) = value := by
    rw [List.rdropWhile_eq_self_iff]
    intro given
    have last := trimmed.2
    rw [List.getLast?_eq_some_getLast given] at last
    simpa using last
  rw [stripSpace, List.dropWhile_cons_of_pos (by simp), front, back]

namespace Line

/-- The line as a field: a space is behind the colon. -/
def field (l : Line) : Field where
  name := l.name
  text := space :: l.value
  noColon := l.noColon
  oneLine := by
    refine ⟨l.oneLine.1, ?_⟩
    rw [List.mem_cons, not_or]
    exact ⟨by decide, l.oneLine.2⟩

/-- The pair it becomes. -/
def pair (l : Line) : ArgsKV := ⟨normalizeHeaderKey l.name false, l.value⟩

theorem field_value (l : Line) : l.field.value = l.value := stripSpace_space l.trimmed

theorem addField_line (h : RequestHeader) (l : Line) :
    h.addField l.field.key l.field.value = { h with h := h.h ++ [l.pair] } := by
  have ordinary := l.ordinary
  simp only [reservedNames, List.mem_cons, List.not_mem_nil, or_false, not_or] at ordinary
  obtain ⟨host, agent, type, length, encoding, connection, -, -⟩ := ordinary
  rw [field_value]
  unfold RequestHeader.addField
  rw [show l.field.key = normalizeHeaderKey l.name false from rfl, if_neg host, if_neg agent, if_neg type,
    if_neg length, if_neg encoding, if_neg connection]
  rfl

end Line

/-- **Lines are appended as they come.** By induction on them. -/
theorem addFields_lines (lines : List Line) : ∀ h : RequestHeader,
    h.addFields (lines.map Line.field) = { h with h := h.h ++ lines.map Line.pair } := by
  induction lines with
  | nil =>
    intro h
    rw [List.map_nil, List.map_nil, List.append_nil]
    rfl
  | cons l lines ih =>
    intro h
    show (h.addField l.field.key l.field.value).addFields (lines.map Line.field) = _
    rw [l.addField_line, ih, List.map_cons, List.append_assoc]
    rfl

/-! ### The request -/

/-- **A complete request with a body.** The line that announces its length is between two runs of others. -/
structure Posted where
  method : Bytes
  uri : Bytes
  before : List Line
  lengthName : Bytes
  after : List Line
  body : Bytes
  methodGiven : method ≠ []
  methodWord : space ∉ method ∧ lf ∉ method
  hasBody : method ≠ strGet ∧ method ≠ strHead
  uriGiven : uri ≠ []
  uriWord : space ∉ uri ∧ lf ∉ uri
  isLength : normalizeHeaderKey lengthName false = strContentLength
  small : body.length ≤ maxBodySize

namespace Posted

variable (r : Posted)

/-- A name whatever the case of its letters has no colon and no line end, if the normal name has none. -/
theorem lengthName_not_mem {d : UInt8} (other : ¬ (97 ≤ d ∧ d ≤ 122)) (fixed : toLower d = d)
    (absent : d ∉ strContentLength) : d ∉ r.lengthName := by
  have recased : Recased strContentLength r.lengthName := by
    have there := recased_normalizeHeaderKey r.lengthName false
    rw [r.isLength] at there
    exact there.symm
  exact recased.not_mem other fixed absent

theorem digits_spec : IsDecimal (appendUint [] r.body.length) ∧
    decimalFrom 0 (appendUint [] r.body.length) = r.body.length ∧ (appendUint [] r.body.length).length ≤ maxIntChars :=
  appendUint_spec (lt_of_le_of_lt r.small (by decide))

theorem digits_not_mem {c : UInt8} (low : c < 48) : c ∉ appendUint [] r.body.length := by
  intro there
  exact absurd low (UInt8.not_lt.mpr (r.digits_spec.1.2 c there).1)

/-- The line that announces the length. -/
def lengthField : Field where
  name := r.lengthName
  text := space :: appendUint [] r.body.length
  noColon := r.lengthName_not_mem (by decide) (by decide) (by decide)
  oneLine := by
    refine ⟨r.lengthName_not_mem (by decide) (by decide) (by decide), ?_⟩
    rw [List.mem_cons, not_or]
    exact ⟨by decide, r.digits_not_mem (by decide)⟩

theorem lengthField_value : r.lengthField.value = appendUint [] r.body.length := by
  have noSpace : space ∉ appendUint [] r.body.length := r.digits_not_mem (by decide)
  refine stripSpace_space ⟨fun first => noSpace (List.mem_of_head? first), fun last => ?_⟩
  exact noSpace (List.mem_of_getLast? last)

/-- **The head.** -/
def head : Head where
  method := r.method
  uri := r.uri
  fields := r.before.map Line.field ++ r.lengthField :: r.after.map Line.field
  methodGiven := r.methodGiven
  methodWord := r.methodWord
  uriGiven := r.uriGiven
  uriWord := r.uriWord

/-- The request on the wire. -/
def wire : Bytes := r.head.bytes ++ r.body

/-- **The header that was written.** -/
def header : RequestHeader where
  method := r.method
  requestURI := r.uri
  h := (r.before ++ r.after).map Line.pair
  contentLength := r.body.length
  contentLengthBytes := appendUint [] r.body.length
  rawHeadersParsed := true

theorem addField_length {h : RequestHeader} (notChunked : h.contentLength ≠ -1) :
    h.addField r.lengthField.key r.lengthField.value =
      { h with contentLength := r.body.length, contentLengthBytes := appendUint [] r.body.length } := by
  have key : r.lengthField.key = strContentLength := r.isLength
  obtain ⟨digits, value, short⟩ := r.digits_spec
  have parsed : parseContentLength (appendUint [] r.body.length) = .ok r.body.length := by
    unfold parseContentLength
    rw [parseUintBuf_digits digits short]
    simp only [ne_eq, not_true_eq_false, if_false, value]
  unfold RequestHeader.addField
  rw [key, if_neg (by decide), if_neg (by decide), if_neg (by decide), if_pos rfl, if_pos notChunked,
    lengthField_value, parsed]

theorem head_noBody : r.head.noBody = false := by
  unfold Head.noBody
  rw [show r.head.method = r.method from rfl, decide_eq_false r.hasBody.1, decide_eq_false r.hasBody.2]
  rfl

theorem header_noBody : r.header.noBody = false := by
  unfold RequestHeader.noBody RequestHeader.getMethod
  rw [if_neg (show ¬ r.header.method = [] from r.methodGiven)]
  exact r.head_noBody

theorem addFields_head : ({ r.head.started with contentLength := -2 } : RequestHeader).addFields r.head.fields =
    { r.header with rawHeadersParsed := false } := by
  have fields : ({ r.head.started with contentLength := -2 } : RequestHeader).addFields r.head.fields =
      ((({ r.head.started with contentLength := -2 } : RequestHeader).addFields (r.before.map Line.field)).addField
        r.lengthField.key r.lengthField.value).addFields (r.after.map Line.field) := by
    unfold RequestHeader.addFields
    rw [show r.head.fields = r.before.map Line.field ++ r.lengthField :: r.after.map Line.field from rfl,
      List.foldl_append, List.foldl_cons]
  rw [fields, addFields_lines, r.addField_length, addFields_lines, header]
  · simp only [List.map_append]
    rfl
  · rw [addFields_lines]
    show (-2 : Int) ≠ -1
    decide

/-- **The header of the head** is the one that was written. -/
theorem header_eq : r.head.header = r.header := by
  have settled : ({ r.header with rawHeadersParsed := false } : RequestHeader).finish =
      { r.header with rawHeadersParsed := false } := by
    refine RequestHeader.finish_settled ?_ r.header_noBody rfl
    show ¬ (r.body.length : Int) < 0
    omega
  unfold Head.header
  rw [r.head_noBody, if_neg (by decide), r.addFields_head, settled]
  rfl

theorem pair_ordinary {kv : ArgsKV} (there : kv ∈ r.header.h) : kv.key ∉ reservedNames := by
  obtain ⟨l, -, rfl⟩ := List.mem_map.mp there
  exact l.ordinary

theorem delAllArgs_of_absent {args : List ArgsKV} {key : Bytes} (absent : ∀ kv ∈ args, kv.key ≠ key) :
    delAllArgs args key = args := by
  fun_induction delAllArgs args key with
  | case1 => rfl
  | case2 kv => exact absurd rfl (absent kv List.mem_cons_self)
  | case3 => rfl
  | case4 kv => exact absurd rfl (absent kv List.mem_cons_self)
  | case5 kv next rest key differ ih => rw [ih fun kv' there => absent kv' (List.mem_cons_of_mem _ there)]

theorem setContentLength_header : r.header.setContentLength r.body.length = r.header := by
  have parsed : r.header.parseRawHeaders = r.header := if_pos rfl
  unfold RequestHeader.setContentLength
  dsimp only
  rw [parsed, delAllArgs_of_absent fun kv there same => r.pair_ordinary there (by rw [same]; decide)]
  rfl

/-- **Nothing keeps the decoder from reading the body.** -/
theorem header_reads : r.header.ReadsBody ∧ r.header.getContentLength = r.body.length ∧
    r.header.multipartFormBoundary = [] := by
  have parsed : r.header.parseRawHeaders = r.header := if_pos rfl
  refine ⟨⟨r.header_noBody, ?_⟩, ?_, ?_⟩
  · have none : r.header.h.find? (fun kv => kv.key = strExpect) = none := by
      rw [List.find?_eq_none]
      intro kv there
      have other : kv.key ≠ strExpect := fun same => r.pair_ordinary there (by rw [same]; decide)
      simpa using other
    unfold RequestHeader.peek peekArg
    rw [parsed, none]
    decide
  · unfold RequestHeader.getContentLength
    rw [r.header_noBody, parsed]
    rfl
  · unfold RequestHeader.multipartFormBoundary RequestHeader.getContentType
    rw [parsed]
    rfl

end Posted

/-! ### The decoder -/

/-- **A complete request is decoded exactly**, whatever follows it in the buffer and whatever the pools hand out:
the header that was written, the body that was sent, and what follows left in the buffer. The length of the
buffer's slice is one a slice can have. -/
theorem decodeHttpReq_posted (r : Posted) (tail : Bytes) (mp : Multipart Form) (recycled : Recycled Form)
    {b : IoBuffer} (holds : Holds b (r.wire ++ tail)) (real : b.buf.len < 2 ^ 63) :
    ∃ body b', decodeHttpReq mp recycled b = .ok { req := { header := r.header, body := some body } } b' ∧
      body.val = r.body ∧ Holds b' tail := by
  have whole : r.wire ++ tail = r.head.bytes ++ (r.body ++ tail) := List.append_assoc ..
  have filled : r.wire ++ tail ≠ [] := by
    intro none
    rw [whole, List.append_eq_nil_iff, Head.bytes, List.append_eq_nil_iff, List.append_eq_nil_iff] at none
    exact absurd none.1.1.2 (by decide)
  have stores : Stores b (r.wire ++ tail) b.buf.len := ⟨holds, Nat.le_refl _⟩
  obtain ⟨decoded, left, b', ran, stores', outcome⟩ := decodeHttpReq_outcome mp recycled stores real filled
  rw [whole] at outcome
  have body := outcome.of_parsed (r.head.parse_whole (r.body ++ tail))
  rw [List.drop_left' r.head.same_written.length_bytes, r.header_eq] at body
  obtain ⟨reads, length, plain⟩ := r.header_reads
  obtain ⟨dst, val, rfl, rfl⟩ := body.of_whole reads length r.small plain (by rw [List.length_append]; omega)
  rw [List.take_left] at val
  rw [List.drop_left] at stores'
  rw [r.setContentLength_header] at ran
  exact ⟨dst, b', ran, val, stores'.holds⟩

theorem putA_small : (ascii "hi").length ≤ maxBodySize := by decide

/-- `PUT /a` with two lines around the one for the length of its body. -/
def putA : Posted where
  method := ascii "PUT"
  uri := ascii "/a"
  before := [⟨ascii "x-one", ascii "1", by decide, by decide, by decide, by decide, by decide⟩]
  lengthName := ascii "content-LENGTH"
  after := [⟨ascii "X-One", ascii "a b", by decide, by decide, by decide, by decide, by decide⟩]
  body := ascii "hi"
  methodGiven := by decide
  methodWord := by decide
  hasBody := by decide
  uriGiven := slashA_given
  uriWord := slashA_word
  isLength := by decide
  small := putA_small

/-- The theorem at that request, with the beginning of another one behind it. -/
theorem decodeHttpReq_posted_put :
    ∃ body b', decodeHttpReq noForms (.fresh Empty 0) ⟨.ofBytes (putA.wire ++ ascii "GET"), 0, 0, 0, false, false⟩ =
        .ok { req := { header := putA.header, body := some body } } b' ∧
      body.val = ascii "hi" ∧ Holds b' (ascii "GET") := by
  refine decodeHttpReq_posted putA (ascii "GET") noForms (.fresh Empty 0) ⟨⟨le_rfl, Int.natCast_nonneg _⟩, ?_⟩
    (by decide)
  rw [IoBuffer.contents_of_off_zero rfl, Slice.ofBytes_val]

end Strike.Http
