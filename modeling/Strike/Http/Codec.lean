/-
**Requests and their decoder** (`pkg/protocol/http/v1/codec.go`, `request.go`).

`decodeHttpReq` reads one request off the buffer: the head (`parseHeader`), then the body
(`continueReadBody`) unless the method has none or the client waits for a `100 Continue`. Requests and
body buffers are recycled: what the two pools hand out is an argument (`Recycled`), and a body buffer
comes with whatever its array held before.

`decode` is the loop of `codec.Decode` over a filter. Every call of `decodeHttpReq` it makes is logged
with the buffer at that moment.

The forms of `mime/multipart` and its writer are a parameter (`Multipart`). A form is written in the order in
which `range` goes through its two maps, which is an argument (`RangeOrder`). `Request` has no body stream here, which
only a client sets, and no URI or form arguments, which are parsed on demand; `keepBodyBuffer` is never
set.
-/

import Strike.Buffer.IoBuffer
import Strike.Http.Header

namespace Strike.Http

/-! ### Requests -/

/-- `Request`. The body is the slice of its `ByteBuffer`. -/
structure Request (Form : Type) where
  header : RequestHeader := {}
  body : Option Slice := none
  multipartForm : Option Form := none
  multipartFormBoundary : Bytes := []

/-- What is used of `mime/multipart`, and `%q`. A map is the list of its keys and what is under each. An error is
its text. -/
structure Multipart (Form : Type) where
  FileHeader : Type
  Writer : Type
  /-- `ReadForm` on all its reader will give: the form or the text of the error, and how much of the
  input was read. -/
  readForm (boundary : Bytes) (maxInMemoryFileSize : Nat) (input : Bytes) : Except String Form × Nat
  readForm_le (boundary : Bytes) (maxInMemoryFileSize : Nat) (input : Bytes) :
    (readForm boundary maxInMemoryFileSize input).2 ≤ input.length
  valueKeys (form : Form) : List Bytes
  value (form : Form) (k : Bytes) : List Bytes
  fileKeys (form : Form) : List Bytes
  file (form : Form) (k : Bytes) : List FileHeader
  filename (fv : FileHeader) : Bytes
  openFile (fv : FileHeader) : Except Bytes Unit
  closeFile (fv : FileHeader) : Except Bytes Unit
  newWriter : Writer
  setBoundary (mw : Writer) (boundary : Bytes) : Except Bytes Writer
  writeField (mw : Writer) (k v : Bytes) : Except Bytes Writer
  createFormFile (mw : Writer) (k filename : Bytes) : Except Bytes Writer
  /-- `copyZeroAlloc` of a file to the part that was created last. -/
  copyZeroAlloc (mw : Writer) (fv : FileHeader) : Except Bytes Writer
  close (mw : Writer) : Except Bytes Writer
  /-- What has been written. -/
  bytes (mw : Writer) : Bytes
  quote (text : Bytes) : Bytes

/-- **The order in which `range` goes through the maps of a form.** It is another one each time. -/
structure RangeOrder where
  value (keys : List Bytes) : List Bytes
  file (keys : List Bytes) : List Bytes
  value_perm (keys : List Bytes) : (value keys).Perm keys
  file_perm (keys : List Bytes) : (file keys).Perm keys

variable {Form : Type}

namespace Multipart

/-- `fmt.Errorf(... + ": %s", ..., err)`. -/
def failed (what err : Bytes) : Bytes := what ++ ascii ": " ++ err

/-- A round of the loop over the values under `k`. -/
def writeValue (mp : Multipart Form) (k : Bytes) (mw : mp.Writer) (v : Bytes) : Except Bytes mp.Writer :=
  (mp.writeField mw k v).mapError
    (failed (ascii "cannot write form field " ++ mp.quote k ++ ascii " value " ++ mp.quote v))

/-- A round of the loop over the files under `k`. -/
def writeFile (mp : Multipart Form) (k : Bytes) (mw : mp.Writer) (fv : mp.FileHeader) : Except Bytes mp.Writer := do
  let named := mp.quote k ++ ascii " (" ++ mp.quote (mp.filename fv) ++ ascii ")"
  let mw ← (mp.createFormFile mw k (mp.filename fv)).mapError (failed (ascii "cannot create form file " ++ named))
  (mp.openFile fv).mapError (failed (ascii "cannot open form file " ++ named))
  let mw ← (mp.copyZeroAlloc mw fv).mapError (failed (ascii "error when copying form file " ++ named))
  (mp.closeFile fv).mapError (failed (ascii "cannot close form file " ++ named))
  return mw

/-- `WriteMultipartForm`, behind the test of the boundary. -/
def writeMultipartForm (mp : Multipart Form) (order : RangeOrder) (f : Form) (boundary : Bytes) :
    Except Bytes mp.Writer := do
  let mw ← (mp.setBoundary mp.newWriter boundary).mapError
    (failed (ascii "cannot use form boundary " ++ mp.quote boundary))
  let mw ← (order.value (mp.valueKeys f)).foldlM (fun mw k => (mp.value f k).foldlM (mp.writeValue k) mw) mw
  let mw ← (order.file (mp.fileKeys f)).foldlM (fun mw k => (mp.file f k).foldlM (mp.writeFile k) mw) mw
  (mp.close mw).mapError (failed (ascii "error when closing multipart form writer"))

/-- `marshalMultipartForm`. -/
def marshalMultipartForm (mp : Multipart Form) (order : RangeOrder) (f : Form) (boundary : Bytes) :
    Except Panic (Except Bytes Bytes) :=
  if boundary.length = 0 then .error (.message "BUG: form boundary cannot be empty")
  else .ok ((mp.writeMultipartForm order f boundary).map mp.bytes)

end Multipart

namespace Request

/-- `resetSkipHeader`. -/
def resetSkipHeader (req : Request Form) : Request Form := { header := req.header }

/-- `Reset`. -/
def reset (req : Request Form) : Request Form :=
  { req with header := req.header.reset }.resetSkipHeader

/-- What `ResetBody` puts into the pool of body buffers, which resets it. -/
def givenBack (req : Request Form) : Option Slice := req.body.map Slice.truncate

/-- `bodyBytes`. -/
def bodyBytes (req : Request Form) : Bytes :=
  match req.body with
  | none => []
  | some b => b.val

/-- `onlyMultipartForm`. -/
def onlyMultipartForm (req : Request Form) : Bool := req.multipartForm.isSome && req.bodyBytes.length = 0

/-- `Body`. -/
def getBody (mp : Multipart Form) (order : RangeOrder) (req : Request Form) : Except Panic Bytes :=
  match req.multipartForm with
  | some form =>
    if req.onlyMultipartForm then do
      match ← mp.marshalMultipartForm order form req.multipartFormBoundary with
      | .error err => return err
      | .ok body => return body
    else return req.bodyBytes
  | none => return req.bodyBytes

/-- `MayContinue`. -/
def mayContinue (req : Request Form) : Bool := req.header.peek strExpect = str100Continue

end Request

/-! ### Pools -/

/-- A request in the pool: `ReleaseRequest` has reset it. -/
structure Released (Form : Type) where
  request : Request Form
  clean : request.reset = request

/-- `ReleaseRequest`. -/
def releaseRequest (req : Request Form) : Released Form := ⟨req.reset, rfl⟩

/-- What the pools hand out during one decode: a released request, if there is one, and an empty body
buffer. -/
structure Recycled (Form : Type) where
  request : Option (Released Form)
  body : Slice

/-- `make([]byte, n)`. -/
def makeSlice (n : Nat) : Slice := .ofBytes (List.replicate n 0)

/-- Nothing to recycle: a new request and a new body buffer of the pool's default size. -/
def Recycled.fresh (Form : Type) (defaultSize : Nat) : Recycled Form := ⟨none, (makeSlice defaultSize).truncate⟩

/-- `AcquireRequest`. -/
def acquireRequest (pooled : Option (Released Form)) : Request Form :=
  match pooled with
  | none => {}
  | some released => released.request

/-! ### The head -/

/-- `doParse`. -/
def RequestHeader.doParse (h : RequestHeader) (n : Nat) : BufM (RequestHeader × Option Error) := do
  let h := h.resetSkipNormalize
  let r ← get
  let b ← BufM.lift (r.peek n)
  if (b.getD []).length = 0 then
    if n = 1 then return (h, some (.go .eof))
    return (h, some (.go (.new ("error when reading request headers: " ++ errSmallBuffer.text))))
  let b ← BufM.lift (r.peek r.len.toNat)
  if (b.getD []).length = 0 then throw (.message "buffer.IoBuffer.Peek() returned unexpected data")
  let (h, memory, headersLen) := h.parse (b.getD [])
  -- The peeked bytes are those of the buffer, so the names normalised there are so in the buffer.
  IoBuffer.store r.off.toNat memory
  match headersLen with
  | .error errParse => return (h, some (headerError "request" errParse memory))
  | .ok headersLen =>
    modify (IoBuffer.drain headersLen)
    return (h, none)

/-- `parseHeader`. -/
def parseHeader (h : RequestHeader) : BufM (RequestHeader × Option Error) := do
  let (h, err) ← h.doParse 1
  match err with
  | none => return (h, none)
  | some err => return (if err ≠ errNeedMore then h.resetSkipNormalize else h, some err)

/-! ### The body -/

def errBodyTooLarge : Error := .go (.new "body size exceeds the given limit")

def defaultMaxInMemoryFileSize : Nat := 16 * 1024 * 1024

/-- The loop of `round2`: how often a 64-bit `n` can be halved. -/
def halvings : Nat → Nat → Nat
  | 0, _ => 0
  | fuel + 1, n => if n > 0 then halvings fuel (n / 2) + 1 else 0

/-- `round2`. -/
def round2 (n : Nat) : Nat := if n = 0 then 0 else 2 ^ halvings 64 (n - 1)

/-- `appendBodyFixedSize`. There is one `Read`, and the slice is returned at its full length whatever
that gave. -/
def appendBodyFixedSize (dst : Slice) (n : Nat) : BufM (Slice × Option Error) := do
  if n = 0 then return (dst, none)
  let offset := dst.len
  let dstLen := offset + n
  let dst ← BufM.lift <|
    if dst.cap < dstLen then (makeSlice (round2 dstLen)).copyAt 0 dst.val else .ok dst
  let dst ← BufM.lift (dst.upTo dstLen)
  let (data, err) ← IoBuffer.read (dstLen - offset)
  let dst ← BufM.lift (dst.copyAt offset data)
  if data.length = 0 then
    match err with
    | some err =>
      let dst ← BufM.lift (dst.upTo offset)
      return (dst, some (.go (if err = .eof then .unexpectedEOF else err)))
    | none => throw (.message "BUG: bufio.Read() returned (0, nil)")
  else return (dst, none)

/-- `readBody`. A chunked body is not read. -/
def readBody (contentLength : Int) (maxBodySize : Nat) (dst : Slice) : BufM (Slice × Option Error) :=
  let dst := dst.truncate
  if contentLength ≥ 0 then
    if maxBodySize > 0 ∧ contentLength > maxBodySize then return (dst, some errBodyTooLarge)
    else appendBodyFixedSize dst contentLength.toNat
  else return (.ofBytes [], none)

/-- `readMultipartForm`. The form is read through a limit of `size` bytes. -/
def readMultipartForm (mp : Multipart Form) (boundary : Bytes) (size : Int) (maxInMemoryFileSize : Nat) :
    BufM (Except Error Form) := do
  if size ≤ 0 then throw (.message ("BUG: form size must be greater than 0. Given " ++ toString size))
  let r ← get
  let content ← BufM.lift r.bytes
  let (form, consumed) := mp.readForm boundary maxInMemoryFileSize (content.take size.toNat)
  let _ ← IoBuffer.read consumed
  match form with
  | .error err => return .error (.multipart err)
  | .ok form => return .ok form

/-- What a decode gives: the request, the error, and the body buffer a failed read put back. -/
structure Decoded (Form : Type) where
  req : Request Form
  err : Option Error := none
  put : Option Slice := none

/-- The second half of `continueReadBody`, behind the multipart forms. -/
def continueReadPlain (pooled : Slice) (req : Request Form) (contentLength : Int) (maxBodySize : Nat) :
    BufM (Decoded Form) :=
  if contentLength = -2 then return { req := { req with header := req.header.setContentLength 0 } }
  else do
    let (b, err) ← readBody contentLength maxBodySize (req.body.getD pooled).truncate
    let req := { req with body := some b }
    match err with
    | some err => return { req := req.reset, err := some err, put := req.givenBack }
    | none => return { req := { req with header := req.header.setContentLength b.len } }

/-- `continueReadBody`; `pooled` is what the pool of body buffers hands out if asked. -/
def continueReadBody (mp : Multipart Form) (pooled : Slice) (req : Request Form) (maxBodySize : Nat) :
    BufM (Decoded Form) :=
  let contentLength := req.header.getContentLength
  if contentLength > 0 then
    if maxBodySize > 0 ∧ contentLength > maxBodySize then
      return { req := req, err := some errBodyTooLarge }
    else
      let req := { req with multipartFormBoundary := req.header.multipartFormBoundary }
      if req.multipartFormBoundary.length > 0 ∧ (req.header.peek strContentEncoding).length = 0 then do
        match ← readMultipartForm mp req.multipartFormBoundary contentLength defaultMaxInMemoryFileSize with
        | .error err => return { req := req.reset, err := some err, put := req.givenBack }
        | .ok form => return { req := { req with multipartForm := some form } }
      else continueReadPlain pooled req contentLength maxBodySize
  else continueReadPlain pooled req contentLength maxBodySize

/-- `readLimitBody`. -/
def readLimitBody (mp : Multipart Form) (pooled : Slice) (req : Request Form) (maxBodySize : Nat) :
    BufM (Decoded Form) := do
  let req := req.resetSkipHeader
  let (header, err) ← parseHeader req.header
  let req := { req with header := header }
  match err with
  | some err => return { req := req, err := some err }
  | none =>
    if req.header.noBody then return { req := req }
    else
      let req := { req with header := req.header.parseRawHeaders }
      if req.mayContinue then return { req := req }
      else continueReadBody mp pooled req maxBodySize

/-- The limit `decodeHttpReq` sets. -/
def maxBodySize : Nat := 40000

/-- `decodeHttpReq`. -/
def decodeHttpReq (mp : Multipart Form) (recycled : Recycled Form) : BufM (Decoded Form) :=
  readLimitBody mp recycled.body (acquireRequest recycled.request) maxBodySize

/-! ### The loop -/

/-- `network.FilterStatus`. -/
inductive FilterStatus where
  | continue_
  | stop
  deriving DecidableEq, Repr

/-- The part of `protocol.DecodeFilter` the codec uses: what `OnDecodeDone` makes of a request, and the
status it returns. `OnDecodeError` only logs. -/
structure DecodeFilter (Form Event : Type) where
  onDecodeDone : Request Form → Except Panic (Event × FilterStatus)

/-- A call of `decodeHttpReq`: the buffer before it, and what came of it. -/
structure Call (Event : Type) where
  before : IoBuffer
  outcome : Except Error Event

variable {Event : Type}

/-- The loop of `Decode`; `answers` is what the pools hand out in each round. -/
def decodeLoop (mp : Multipart Form) (filter : DecodeFilter Form Event) (answers : Nat → Recycled Form) :
    Nat → Nat → BufM (List (Call Event))
  | 0, _ => return []
  | fuel + 1, round => do
    let data ← get
    if data.len > 0 then
      let decoded ← decodeHttpReq mp (answers round)
      match decoded.err with
      | some err => return [⟨data, .error err⟩]
      | none =>
        let (event, status) ← BufM.lift (filter.onDecodeDone decoded.req)
        if status = .stop then modify fun data => data.drain data.len.toNat
        let calls ← decodeLoop mp filter answers fuel (round + 1)
        return ⟨data, .ok event⟩ :: calls
    else return []

/-- `Decode`. Every round but the last takes a byte or more off the buffer. -/
def decode (mp : Multipart Form) (filter : DecodeFilter Form Event) (answers : Nat → Recycled Form) :
    BufM (List (Call Event)) := do
  let data ← get
  decodeLoop mp filter answers (data.len.toNat + 1) 0

end Strike.Http
