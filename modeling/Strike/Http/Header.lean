/-
**The request header** (`pkg/protocol/http/v1/header.go`, and the cookies of `cookie.go`).

`RequestHeader.parse` reads the head of a request from the bytes the buffer shows it. The names of
header fields are normalised in place, in the memory of that buffer, so parsing returns the bytes as
they are afterwards along with the result. A `HeaderScanner` keeps the bytes it has passed for that
reason.

Requests without a body are not scanned: their header lines are kept (`rawHeaders`) and scanned on
demand (`parseRawHeaders`).

A recycled header overwrites its strings from their first byte on, so they are modelled by their
contents. The flag `isGet` only remembers the comparison of the method with `GET`.
-/

import Strike.Utils.BytesConv
import Strike.Utils.Args

namespace Strike.Http

/-! ### Texts -/

def cr : UInt8 := 13

def lf : UInt8 := 10

def space : UInt8 := 32

def colon : UInt8 := 58

def strSlash : Bytes := ascii "/"

def strHTTP11 : Bytes := ascii "HTTP/1.1"

def strGet : Bytes := ascii "GET"

def strHead : Bytes := ascii "HEAD"

def strExpect : Bytes := ascii "Expect"

def strConnection : Bytes := ascii "Connection"

def strContentLength : Bytes := ascii "Content-Length"

def strContentType : Bytes := ascii "Content-Type"

def strHost : Bytes := ascii "Host"

def strTransferEncoding : Bytes := ascii "Transfer-Encoding"

def strContentEncoding : Bytes := ascii "Content-Encoding"

def strUserAgent : Bytes := ascii "User-Agent"

def strCookie : Bytes := ascii "Cookie"

def strClose : Bytes := ascii "close"

def strKeepAlive : Bytes := ascii "keep-alive"

def strKeepAliveCamelCase : Bytes := ascii "Keep-Alive"

def strChunked : Bytes := ascii "chunked"

def strIdentity : Bytes := ascii "identity"

def str100Continue : Bytes := ascii "100-continue"

def strMultipartFormData : Bytes := ascii "multipart/form-data"

def strBoundary : Bytes := ascii "boundary"

/-! ### Errors -/

/-- `bufferSnippet`: what is quoted, all of it or the two ends. -/
inductive Snippet where
  | whole (b : Bytes)
  | ends (bStart bEnd : Bytes)
  deriving DecidableEq, Repr

/-- An error of the request reader. The arguments of a formatted text stay beside it. -/
inductive Error where
  | go (cause : GoError)
  /-- A text with one `%q`. -/
  | quoted (format : String) (buf : Bytes)
  /-- `"error when reading %s headers: %s. Buffer size=%d, contents: %s"`. -/
  | reading (typ : String) (cause : Error) (size : Nat) (contents : Snippet)
  /-- `"cannot read multipart/form-data body: %s"`. -/
  | multipart (cause : String)
  deriving DecidableEq, Repr

def errNeedMore : Error := .go (.new "need more data: cannot find trailing lf")

def errSmallBuffer : GoError := .new "small read buffer. Increase ReadBufferSize"

/-- `bufferSnippet`. -/
def bufferSnippet (b : Bytes) : Snippet :=
  if b.length ≤ 400 then .whole b else .ends (b.take 200) (b.drop (b.length - 200))

/-- `headerErrorMsg`. -/
def headerErrorMsg (typ : String) (err : Error) (b : Bytes) : Error := .reading typ err b.length (bufferSnippet b)

/-- `headerError` without a read error. -/
def headerError (typ : String) (errParse : Error) (b : Bytes) : Error :=
  if errParse ≠ errNeedMore then headerErrorMsg typ errParse b else errNeedMore

/-! ### Lines and names -/

/-- `if n > 0 && b[n-1] == '\r' { n-- }`. -/
def stripCR (b : Bytes) : Bytes := if b.getLast? = some cr then b.dropLast else b

/-- `stripSpace`. -/
def stripSpace (b : Bytes) : Bytes := (b.dropWhile (· = space)).rdropWhile (· = space)

/-- `nextLine`: the line and what follows it. -/
def nextLine (b : Bytes) : Except Error (Bytes × Bytes) :=
  match indexByte b lf with
  | none => .error errNeedMore
  | some nNext => .ok (stripCR (b.take nNext), b.drop (nNext + 1))

/-- The loop of `normalizeHeaderKey` behind the first byte. -/
def normalizeTail : Bytes → Bytes
  | [] => []
  | [c] => if c = 45 then [c] else [toLower c]
  | c :: d :: rest =>
    if c = 45 then c :: toUpper d :: normalizeTail rest else toLower c :: normalizeTail (d :: rest)

/-- `normalizeHeaderKey`. -/
def normalizeHeaderKey (b : Bytes) (disableNormalizing : Bool) : Bytes :=
  if disableNormalizing then b
  else
    match b with
    | [] => []
    | c :: rest => toUpper c :: normalizeTail rest

/-- `parseContentLength`. -/
def parseContentLength (b : Bytes) : Except Error Int :=
  match parseUintBuf b with
  | (_, _, some err) => .error (.go err)
  | (v, n, none) =>
    if n ≠ b.length then .error (.go (.new "non-numeric chars at the end of Content-Length")) else .ok v

/-- The loop of `hasHeaderValue` over the elements of a comma separated list. -/
def hasHeaderValueLoop : Nat → Bytes → Bytes → Bool
  | 0, _, _ => false
  | fuel + 1, b, value =>
    if b = [] then false
    else
      match indexByte b 44 with
      | none => stripSpace b = value
      | some n => stripSpace (b.take n) = value || hasHeaderValueLoop fuel (b.drop (n + 1)) value

/-- `hasHeaderValue`. -/
def hasHeaderValue (s value : Bytes) : Bool := hasHeaderValueLoop (s.length + 1) s value

/-! ### The scanner -/

/-- `headerScanner`, with the bytes in front of `b` as they are in memory now. -/
structure HeaderScanner where
  passed : Bytes := []
  b : Bytes
  key : Bytes := []
  value : Bytes := []
  err : Option Error := none
  disableNormalizing : Bool
  deriving DecidableEq, Repr

namespace HeaderScanner

/-- `next`. The key reaches to the first colon of all that is left, and is normalised where it lies. -/
def next (s : HeaderScanner) : HeaderScanner × Bool :=
  if hasPrefix s.b [cr, lf] then ({ s with passed := s.passed ++ [cr, lf], b := s.b.drop 2 }, false)
  else if hasPrefix s.b [lf] then ({ s with passed := s.passed ++ [lf], b := s.b.drop 1 }, false)
  else
    match indexByte s.b colon with
    | none => ({ s with err := some errNeedMore }, false)
    | some n =>
      let key := normalizeHeaderKey (s.b.take n) s.disableNormalizing
      let behind := s.b.drop (n + 1)
      let passed := s.passed ++ key ++ [colon] ++ behind.takeWhile (· = space)
      let b := behind.dropWhile (· = space)
      match indexByte b lf with
      | none => ({ s with passed := passed, b := b, key := key, err := some errNeedMore }, false)
      | some m =>
        ({ s with
            passed := passed ++ b.take (m + 1)
            b := b.drop (m + 1)
            key := key
            value := (stripCR (b.take m)).rdropWhile (· = space) }, true)

/-- The bytes scanned and those to come, as they are in memory. -/
def memory (s : HeaderScanner) : Bytes := s.passed ++ s.b

end HeaderScanner

/-! ### The header -/

/-- `RequestHeader`. -/
structure RequestHeader where
  disableNormalizing : Bool := false
  noHTTP11 : Bool := false
  connectionClose : Bool := false
  cookiesCollected : Bool := false
  rawHeadersParsed : Bool := false
  contentLength : Int := 0
  contentLengthBytes : Bytes := []
  method : Bytes := []
  requestURI : Bytes := []
  host : Bytes := []
  contentType : Bytes := []
  userAgent : Bytes := []
  h : List ArgsKV := []
  cookies : List ArgsKV := []
  rawHeaders : Bytes := []
  deriving DecidableEq, Repr

namespace RequestHeader

/-- `ResetSkipNormalize`. -/
def resetSkipNormalize (h : RequestHeader) : RequestHeader :=
  { disableNormalizing := h.disableNormalizing }

/-- `Reset`. -/
def reset (_ : RequestHeader) : RequestHeader := {}

/-- `Method`. -/
def getMethod (h : RequestHeader) : Bytes := if h.method = [] then strGet else h.method

/-- `RequestURI`. -/
def getRequestURI (h : RequestHeader) : Bytes := if h.requestURI = [] then strSlash else h.requestURI

/-- `NoBody`: `IsGet` or `IsHead`. -/
def noBody (h : RequestHeader) : Bool := h.getMethod = strGet || h.getMethod = strHead

/-! ### Parsing -/

/-- The lines `parseFirstLine` skips: the first line that is not empty, and what follows it. -/
def firstLine : Nat → Bytes → Except Error (Bytes × Bytes)
  | 0, _ => .error errNeedMore
  | fuel + 1, bNext =>
    match nextLine bNext with
    | .error err => .error err
    | .ok (b, bNext) => if b.length = 0 then firstLine fuel bNext else .ok (b, bNext)

/-- The part of `parseFirstLine` behind the method: the URI up to the last space, then the version.
A line without a version is one of an old client. -/
def parseURI (h : RequestHeader) (buf b : Bytes) (size : Nat) : RequestHeader × Except Error Nat :=
  match lastIndexByte b space with
  | none => ({ h with noHTTP11 := true, requestURI := b }, .ok size)
  | some 0 => (h, .error (.quoted "requestURI cannot be empty in %q" buf))
  | some n =>
    ({ h with noHTTP11 := h.noHTTP11 || b.drop (n + 1) ≠ strHTTP11, requestURI := b.take n }, .ok size)

/-- `parseFirstLine`: the length of the request line with the empty lines in front of it. -/
def parseFirstLine (h : RequestHeader) (buf : Bytes) : RequestHeader × Except Error Nat :=
  match firstLine (buf.length + 1) buf with
  | .error err => (h, .error err)
  | .ok (b, bNext) =>
    match indexByte b space with
    | none | some 0 => (h, .error (.quoted "cannot find http request method in %q" buf))
    | some n =>
      { h with method := b.take n }.parseURI buf (b.drop (n + 1)) (buf.length - bNext.length)

/-- The search of `readRawHeaders` for an empty line, in the line that starts at `n`. -/
def rawHeadersEnd : Nat → Bytes → Nat → Option Nat
  | 0, _, _ => none
  | fuel + 1, b, n =>
    match indexByte b lf with
    | none => none
    | some m =>
      if m = 1 ∧ b.head? = some cr ∨ m = 0 then some (n + (m + 1))
      else rawHeadersEnd fuel (b.drop (m + 1)) (n + (m + 1))

/-- `readRawHeaders` into an empty destination. -/
def readRawHeaders (buf : Bytes) : Except Error (Bytes × Nat) :=
  match indexByte buf lf with
  | none => .error errNeedMore
  | some n =>
    if n = 1 ∧ buf.head? = some cr ∨ n = 0 then .ok ([], n + 1)
    else
      match rawHeadersEnd buf.length (buf.drop (n + 1)) (n + 1) with
      | none => .error errNeedMore
      | some n => .ok (buf.take n, n)

/-- The `switch` of `parseHeaders` on the name of a field. -/
def addField (h : RequestHeader) (key value : Bytes) : RequestHeader :=
  if key = strHost then { h with host := value }
  else if key = strUserAgent then { h with userAgent := value }
  else if key = strContentType then { h with contentType := value }
  else if key = strContentLength then
    if h.contentLength ≠ -1 then
      match parseContentLength value with
      | .error _ => { h with contentLength := -2 }
      | .ok n => { h with contentLength := n, contentLengthBytes := value }
    else h
  else if key = strTransferEncoding then
    if value ≠ strIdentity then
      { h with contentLength := -1, h := setArg h.h strTransferEncoding strChunked }
    else h
  else if key = strConnection then
    if value = strClose then { h with connectionClose := true }
    else { h with connectionClose := false, h := appendArg h.h key value }
  else { h with h := appendArg h.h key value }

/-- The loop of `parseHeaders`. Each field takes a byte or more, so the scanned length is enough
fuel. -/
def headerLoop : Nat → HeaderScanner → RequestHeader → HeaderScanner × RequestHeader
  | 0, s, h => (s, h)
  | fuel + 1, s, h =>
    match s.next with
    | (s, true) => headerLoop fuel s (h.addField s.key s.value)
    | (s, false) => (s, h)

/-- What `parseHeaders` does behind its loop. -/
def finish (h : RequestHeader) : RequestHeader :=
  let h := if h.contentLength < 0 then { h with contentLengthBytes := [] } else h
  let h := if h.noBody then { h with contentLength := 0, contentLengthBytes := [] } else h
  if h.noHTTP11 ∧ ¬ h.connectionClose then
    let v := peekArg h.h strConnection
    { h with connectionClose := !hasHeaderValue v strKeepAlive && !hasHeaderValue v strKeepAliveCamelCase }
  else h

/-- How `parseHeaders` returns once its loop over `size` bytes has ended. -/
def endHeaders (h : RequestHeader) (s : HeaderScanner) (size : Nat) : RequestHeader × Bytes × Except Error Nat :=
  match s.err with
  | some err => ({ h with connectionClose := true }, s.memory, .error err)
  | none => (h.finish, s.memory, .ok (size - s.b.length))

/-- `parseHeaders`: the header, the bytes of `buf` afterwards, and the length of the header fields. -/
def parseHeaders (h : RequestHeader) (buf : Bytes) : RequestHeader × Bytes × Except Error Nat :=
  let scanned := headerLoop (buf.length + 1)
    { b := buf, disableNormalizing := h.disableNormalizing } { h with contentLength := -2 }
  scanned.2.endHeaders scanned.1 buf.length

/-- `Parse`: the header, the bytes of `buf` afterwards, and the length of the head. -/
def parse (h : RequestHeader) (buf : Bytes) : RequestHeader × Bytes × Except Error Nat :=
  match h.parseFirstLine buf with
  | (h, .error err) => (h, buf, .error err)
  | (h, .ok m) =>
    if !h.noBody || h.noHTTP11 then
      match h.parseHeaders (buf.drop m) with
      | (h, memory, .error err) => (h, buf.take m ++ memory, .error err)
      | (h, memory, .ok n) =>
        ({ h with rawHeadersParsed := true }, buf.take m ++ memory, .ok (m + n))
    else
      match readRawHeaders (buf.drop m) with
      | .error err => (h, buf, .error err)
      | .ok (rawHeaders, n) => ({ h with rawHeaders := rawHeaders }, buf, .ok (m + n))

/-- `parseRawHeaders`. -/
def parseRawHeaders (h : RequestHeader) : RequestHeader :=
  if h.rawHeadersParsed then h
  else
    let h := { h with rawHeadersParsed := true }
    if h.rawHeaders.length = 0 then h
    else
      match h.parseHeaders h.rawHeaders with
      | (h, memory, _) => { h with rawHeaders := memory }

/-! ### Fields of a parsed header -/

/-- `ContentLength`. -/
def getContentLength (h : RequestHeader) : Int := if h.noBody then 0 else h.parseRawHeaders.contentLength

/-- `SetContentLength` for a length that is not negative. -/
def setContentLength (h : RequestHeader) (contentLength : Nat) : RequestHeader :=
  let h := h.parseRawHeaders
  { h with
    contentLength := contentLength
    contentLengthBytes := appendUint [] contentLength
    h := delAllArgs h.h strTransferEncoding }

/-- `ContentType`. -/
def getContentType (h : RequestHeader) : Bytes := h.parseRawHeaders.contentType

/-- The loop of `MultipartFormBoundary` over the parameters of the content type; `n` is the index of
the semicolon in front of the next one. -/
def boundaryLoop : Nat → Bytes → Nat → Bytes
  | 0, _, _ => []
  | fuel + 1, b, n =>
    if b.length = 0 then []
    else
      let b := (b.drop (n + 1)).dropWhile (· = space)
      if hasPrefix b strBoundary then
        match b.drop strBoundary.length with
        | 61 :: b =>
          let b := match indexByte b 59 with
            | some n => b.take n
            | none => b
          if b.length > 1 ∧ b.head? = some 34 ∧ b.getLast? = some 34 then (b.drop 1).dropLast else b
        | _ => []
      else
        match indexByte b 59 with
        | none => []
        | some n => boundaryLoop fuel b n

/-- `MultipartFormBoundary`. -/
def multipartFormBoundary (h : RequestHeader) : Bytes :=
  let b := h.getContentType
  if hasPrefix b strMultipartFormData then
    let b := b.drop strMultipartFormData.length
    if b.head? = some 59 then boundaryLoop (b.length + 1) b 0 else []
  else []

/-- The part of `peek` for the names it is used with, none of which has a field of its own. -/
def peek (h : RequestHeader) (key : Bytes) : Bytes := peekArg h.parseRawHeaders.h key

/-- `peekRawHeader`. -/
def peekRawHeader (buf key : Bytes) : Except Panic Bytes :=
  match indexOf key buf with
  | none => .ok []
  | some n =>
    if n > 0 ∧ (buf.drop (n - 1)).head? ≠ some lf then .ok []
    else
      match buf.drop (n + key.length) with
      | [] => .ok []
      | c :: behind =>
        if c ≠ colon then .ok []
        else
          match behind with
          | [] => .error (.runtime "runtime error: index out of range")
          | d :: value =>
            if d ≠ space then .ok []
            else
              match indexByte value lf with
              | none => .ok []
              | some n => .ok (stripCR (value.take n))

/-- The end of `Host`: what the fast path found, or else the host among all fields. -/
def hostOr (h : RequestHeader) (host : Bytes) : RequestHeader × Bytes :=
  if host.length > 0 then ({ h with host := host }, host)
  else (h.parseRawHeaders, h.parseRawHeaders.host)

/-- `Host`: the header afterwards and the host. -/
def getHost (h : RequestHeader) : Except Panic (RequestHeader × Bytes) :=
  if h.host.length > 0 then .ok (h, h.host)
  else if h.rawHeadersParsed then .ok (h.hostOr [])
  else (peekRawHeader h.rawHeaders strHost).map h.hostOr

/-! ### Cookies -/

/-- `decodeCookieArg`. -/
def decodeCookieArg (src : Bytes) (skipQuotes : Bool) : Bytes :=
  let src := stripSpace src
  if skipQuotes ∧ src.length > 1 ∧ src.head? = some 34 ∧ src.getLast? = some 34 then
    (src.drop 1).dropLast
  else src

/-- `cookieScanner.next` on a string that is not empty: the pair, and what is left. -/
def nextCookie (b : Bytes) : ArgsKV × Bytes :=
  let item := b.takeWhile (· ≠ 59)
  let rest := (b.dropWhile (· ≠ 59)).drop 1
  match indexByte item 61 with
  | some i => (⟨decodeCookieArg (item.take i) false, decodeCookieArg (item.drop (i + 1)) true⟩, rest)
  | none => (⟨[], decodeCookieArg item true⟩, rest)

/-- The loop of `parseRequestCookies`. -/
def cookieLoop : Nat → List ArgsKV → Bytes → List ArgsKV
  | 0, cookies, _ => cookies
  | fuel + 1, cookies, b =>
    if b.length = 0 then cookies
    else
      match nextCookie b with
      | (kv, b) =>
        cookieLoop fuel (if kv.key.length > 0 ∨ kv.value.length > 0 then cookies ++ [kv] else cookies) b

/-- `parseRequestCookies`. -/
def parseRequestCookies (cookies : List ArgsKV) (src : Bytes) : List ArgsKV :=
  cookieLoop (src.length + 1) cookies src

/-- `collectCookies`. -/
def collectCookies (h : RequestHeader) : RequestHeader :=
  if h.cookiesCollected then h
  else
    { h with
      cookies := (h.h.filter fun kv => kv.key = strCookie).foldl
        (fun cookies kv => parseRequestCookies cookies kv.value) h.cookies
      h := h.h.filter fun kv => kv.key ≠ strCookie
      cookiesCollected := true }

/-- `appendRequestCookieBytes` into an empty destination. -/
def requestCookieBytes (cookies : List ArgsKV) : Bytes :=
  [59, space].intercalate (cookies.map fun kv =>
    if kv.key.length > 0 then kv.key ++ [61] ++ kv.value else kv.value)

/-- `VisitAll`: the header afterwards, and the pairs `f` is called with. -/
def visitAll (h : RequestHeader) : Except Panic (RequestHeader × List (Bytes × Bytes)) := do
  let (h, host) ← h.parseRawHeaders.getHost
  let visit := fun (key value : Bytes) => if value.length > 0 then [(key, value)] else []
  let first := visit strHost host ++ visit strContentLength h.contentLengthBytes ++
    visit strContentType h.getContentType ++ visit strUserAgent h.userAgent
  let h := h.collectCookies
  let cookies := if h.cookies.length > 0 then [(strCookie, requestCookieBytes h.cookies)] else []
  let close := if h.connectionClose then [(strConnection, strClose)] else []
  return (h, first ++ cookies ++ (h.h.map fun kv => (kv.key, kv.value)) ++ close)

end RequestHeader

end Strike.Http
