/-
**Bytes of a body are not read as another request.**

Every call of `decodeHttpReq` on a connection starts at some byte of the stream. `NoSmuggling` says that
once a call has taken a head with one valid `Content-Length` of `n`, no later call starts within the `n`
bytes behind it.

That is not so in general. A request whose body has not arrived in full, a body that is too large and a
form that cannot be read all leave body bytes to the next call. `noSmuggling_iff`: it is so exactly if
at every call but the last of the run the declared bytes were there and taken (`BodyTaken`).

* `body_smuggled`: a `GET` with a body in the next chunk, and the receiver gets two requests.
-/

import Strike.Http.Connection

namespace Strike.Http

variable {Form : Type}

/-- The values of the lines of a head that are named `Content-Length`, in any case. -/
def contentLengths (head : Bytes) : List Bytes :=
  (head.splitOn lf).filterMap fun line =>
    match indexByte line colon with
    | none => none
    | some n =>
      if (line.take n).map toLower = ascii "content-length" then
        some (stripSpace (stripCR (line.drop (n + 1))))
      else none

/-- **The bytes start with a complete head** of `k` bytes that carries one valid `Content-Length`,
of `n`. -/
structure Declares (content : Bytes) (k n : Nat) : Prop where
  complete : (({} : RequestHeader).parse content).2.2 = .ok k
  one : ∃ v, contentLengths (content.take k) = [v] ∧ parseContentLength v = .ok n

/-- The bytes of the stream before the first one a call was shown. -/
def startOf (call : Nat × Call Received) : Nat := call.1 - call.2.before.contents.length

/-- **No byte of a declared body is later looked at as a head.** -/
def NoSmuggling (calls : List (Nat × Call Received)) : Prop :=
  calls.Pairwise fun first later =>
    ∀ k n, Declares first.2.before.contents k n → startOf first + k + n ≤ startOf later

/-- **The declared body is there and is taken**, by a request with the header `h` in front of `behind`:
all `n` bytes are there, they are not refused for their number, and a form that cannot be read is read to
its end. -/
structure BodyTaken (mp : Multipart Form) (h : RequestHeader) (behind : Bytes) (n : Nat) : Prop where
  whole : n ≤ behind.length
  allowed : h.ReadsBody → h.getContentLength > maxBodySize → n = 0
  formRead : h.ReadsBody → h.HasForm → ∀ m : Nat, h.getContentLength = m → 0 < m → m ≤ maxBodySize →
    ∀ text consumed, mp.readForm h.multipartFormBoundary defaultMaxInMemoryFileSize (behind.take m)
      = (.error text, consumed) → n ≤ consumed

/-- The header `Parse` reads from the bytes. -/
def parsedHeader (content : Bytes) : RequestHeader := (({} : RequestHeader).parse content).1

/-- The bytes behind a head of `k` bytes, as `Parse` leaves them. -/
def behindHead (content : Bytes) (k : Nat) : Bytes := (({} : RequestHeader).parse content).2.1.drop k

/-! ### One call -/

section Step

variable {mp : Multipart Form} {pooled : Slice} {h : RequestHeader} {content behind left : Bytes}
  {decoded : Decoded Form} {n : Nat}

theorem BodyOutcome.left_le (outcome : BodyOutcome mp pooled h behind decoded left) :
    left.length ≤ behind.length := by
  have dropped : ∀ i, (behind.drop i).length ≤ behind.length := fun i => by
    rw [List.length_drop]
    exact Nat.sub_le _ _
  cases outcome with
  | skipped => exact le_rfl
  | unframed => exact le_rfl
  | empty => exact le_rfl
  | tooLarge => exact le_rfl
  | form => exact dropped _
  | badForm => exact dropped _
  | missing => exact Nat.zero_le _
  | fixed => exact dropped _

/-- A decode that succeeds takes the declared body if it is there, since all that is left is dropped. -/
theorem BodyOutcome.whole_iff (outcome : BodyOutcome mp pooled h behind decoded left)
    (noError : decoded.err = none) : n ≤ behind.length ↔ BodyTaken mp h behind n := by
  refine ⟨fun whole => ?_, BodyTaken.whole⟩
  cases outcome with
  | skipped skips => exact ⟨whole, fun reads => absurd reads skips, fun reads => absurd reads skips⟩
  | unframed _ length => exact ⟨whole, by omega, by omega⟩
  | empty _ length => exact ⟨whole, by omega, by omega⟩
  | tooLarge => cases noError
  | @form m _ _ _ length _ _ _ read =>
    refine ⟨whole, by omega, fun _ _ m' length' _ _ text consumed read' => ?_⟩
    obtain rfl : m = m' := by omega
    rw [read] at read'
    cases read'
  | badForm => cases noError
  | missing => cases noError
  | fixed _ length _ _ plain => exact ⟨whole, by omega, fun _ has => absurd has plain⟩

/-- A decode that fails behind a complete head leaves what it did not take. -/
theorem BodyOutcome.left_iff (outcome : BodyOutcome mp pooled h behind decoded left) {err : Error}
    (isError : decoded.err = some err) : left.length + n ≤ behind.length ↔ BodyTaken mp h behind n := by
  cases outcome with
  | skipped => cases isError
  | unframed => cases isError
  | empty => cases isError
  | tooLarge reads large =>
    constructor
    · exact fun fits => ⟨by omega, by omega, by omega⟩
    · intro taken
      have := taken.allowed reads large
      omega
  | form => cases isError
  | @badForm m consumed text reads length positive small has read =>
    have bound := mp.readForm_le h.multipartFormBoundary defaultMaxInMemoryFileSize (behind.take m)
    rw [read, List.length_take] at bound
    simp only at bound
    rw [List.length_drop]
    constructor
    · intro fits
      refine ⟨by omega, by omega, fun _ _ m' length' _ _ text' consumed' read' => ?_⟩
      obtain rfl : m = m' := by omega
      rw [read] at read'
      cases read'
      omega
    · intro taken
      have := taken.formRead reads has m length positive small text consumed read
      omega
  | missing _ length _ _ plain gone =>
    rw [List.length_nil, Nat.zero_add]
    exact ⟨fun whole => ⟨whole, by omega, fun _ has => absurd has plain⟩, BodyTaken.whole⟩
  | fixed => cases isError

theorem Outcome.left_le (outcome : Outcome mp pooled content decoded left) : left.length ≤ content.length := by
  cases outcome with
  | unparsed h' parsed => exact (RequestHeader.parse_memory parsed).1.length_eq.le
  | parsed parsed body =>
    refine body.left_le.trans ?_
    rw [List.length_drop, (RequestHeader.parse_memory parsed).1.length_eq]
    exact Nat.sub_le _ _

theorem Outcome.behind_head {k : Nat} (outcome : Outcome mp pooled content decoded left)
    (complete : (({} : RequestHeader).parse content).2.2 = .ok k) :
    BodyOutcome mp pooled (parsedHeader content) (behindHead content k) decoded left ∧
      (behindHead content k).length + k = content.length := by
  cases parsed : ({} : RequestHeader).parse content with
  | mk h tail =>
    obtain ⟨memory, result⟩ := tail
    obtain ⟨recased, inside⟩ := RequestHeader.parse_memory parsed
    have header : parsedHeader content = h := congrArg Prod.fst parsed
    have rest : behindHead content k = memory.drop k := congrArg (fun result => result.2.1.drop k) parsed
    rw [parsed] at complete
    cases complete
    have low := inside k rfl
    rw [header, rest]
    refine ⟨outcome.of_parsed parsed, ?_⟩
    rw [List.length_drop, recased.length_eq]
    omega

end Step

/-! ### Whole runs -/

/-- A call whose declared body, if it has one, is there and taken. -/
def Whole (mp : Multipart Form) (call : Nat × Call Received) : Prop :=
  ∀ k n, Declares call.2.before.contents k n →
    BodyTaken mp (parsedHeader call.2.before.contents) (behindHead call.2.before.contents k) n

section Runs

variable {mp : Multipart Form} {arrived : Nat} {content : Bytes} {arrivals : List (Arrival Form)}
  {calls : List (Nat × Call Received)}

theorem startOf_eq {data : Bytes} {before : IoBuffer} {outcome : Except Error Received}
    (holds : Holds before (content ++ data)) :
    startOf (arrived + data.length, ⟨before, outcome⟩) = arrived - content.length := by
  unfold startOf
  rw [holds.2, List.length_append]
  omega

/-- **Calls go forward through the stream**: the first one starts at the first byte not yet taken, and
no later one in front of it. -/
theorem Serves.starts (serves : Serves mp arrived content arrivals calls) (inside : content.length ≤ arrived) :
    (∀ call ∈ calls.head?, startOf call = arrived - content.length) ∧
      ∀ call ∈ calls, arrived - content.length ≤ startOf call := by
  induction serves with
  | quiet => exact ⟨nofun, nofun⟩
  | idle nothing serves ih =>
    rw [(List.append_eq_nil_iff.mp nothing).1]
    exact ih (Nat.zero_le _)
  | failed holds filled outcome isError serves ih =>
    have shorter := outcome.left_le
    rw [List.length_append] at shorter
    have later := (ih (by omega)).2
    refine ⟨fun call first => ?_, fun call there => ?_⟩
    · cases first
      exact startOf_eq holds
    · rcases List.mem_cons.mp there with rfl | there
      · exact (startOf_eq holds).ge
      · have := later call there
        omega
  | done holds filled outcome noError handedOver serves ih =>
    have later := (ih (Nat.zero_le _)).2
    refine ⟨fun call first => ?_, fun call there => ?_⟩
    · cases first
      exact startOf_eq holds
    · rcases List.mem_cons.mp there with rfl | there
      · exact (startOf_eq holds).ge
      · have := later call there
        rw [List.length_nil] at this
        omega

/-- One more call in front: what matters is the byte the next one starts at. -/
theorem noSmuggling_cons {first : Nat × Call Received} {next : Nat}
    (starts : (∀ call ∈ calls.head?, startOf call = next) ∧ ∀ call ∈ calls, next ≤ startOf call)
    (step : ∀ k n, Declares first.2.before.contents k n → (startOf first + k + n ≤ next ↔
      BodyTaken mp (parsedHeader first.2.before.contents) (behindHead first.2.before.contents k) n))
    (later : NoSmuggling calls ↔ ∀ call ∈ calls.dropLast, Whole mp call) :
    NoSmuggling (first :: calls) ↔ ∀ call ∈ (first :: calls).dropLast, Whole mp call := by
  unfold NoSmuggling at later ⊢
  rw [List.pairwise_cons, later]
  cases calls with
  | nil => exact ⟨nofun, fun _ => ⟨nofun, nofun⟩⟩
  | cons second rest =>
    have atSecond : startOf second = next := starts.1 second rfl
    have each : (∀ call ∈ first :: (second :: rest).dropLast, Whole mp call) ↔
        Whole mp first ∧ ∀ call ∈ (second :: rest).dropLast, Whole mp call := List.forall_mem_cons
    rw [List.dropLast_cons_of_ne_nil (List.cons_ne_nil _ _), each]
    refine and_congr_left fun _ => ?_
    constructor
    · intro forward k n declares
      rw [← step k n declares, ← atSecond]
      exact forward second List.mem_cons_self k n declares
    · intro whole call there k n declares
      exact ((step k n declares).mpr (whole k n declares)).trans (starts.2 call there)

theorem Serves.safe_iff (serves : Serves mp arrived content arrivals calls) (inside : content.length ≤ arrived) :
    NoSmuggling calls ↔ ∀ call ∈ calls.dropLast, Whole mp call := by
  induction serves with
  | quiet => exact iff_of_true List.Pairwise.nil fun _ no => nomatch no
  | idle nothing serves ih => exact ih (Nat.zero_le _)
  | @failed arrived content left arrival rest later before decoded err holds filled outcome isError serves ih =>
    have shorter := outcome.left_le
    rw [List.length_append] at shorter
    have within : left.length ≤ arrived + arrival.data.length := by omega
    refine noSmuggling_cons (serves.starts within) (fun k n declares => ?_) (ih within)
    have complete := declares.complete
    dsimp only at complete ⊢
    rw [holds.2] at complete ⊢
    obtain ⟨body, total⟩ := outcome.behind_head complete
    rw [List.length_append] at total
    rw [startOf_eq holds, ← body.left_iff isError]
    omega
  | @done arrived content left arrival rest later before decoded received holds filled outcome noError
      handedOver serves ih =>
      have within : ([] : Bytes).length ≤ arrived + arrival.data.length := Nat.zero_le _
      refine noSmuggling_cons (serves.starts within) (fun k n declares => ?_) (ih within)
      have complete := declares.complete
      dsimp only at complete ⊢
      rw [holds.2] at complete ⊢
      obtain ⟨body, total⟩ := outcome.behind_head complete
      rw [List.length_append] at total
      rw [startOf_eq holds, ← body.whole_iff noError, List.length_nil]
      omega

end Runs

/-- **When no byte of a body is read as a head**: for every stream and every way it arrives in chunks,
exactly if at every call but the last the declared body was there and was taken. -/
theorem noSmuggling_iff (mp : Multipart Form) (arrivals : List (Arrival Form)) (pool : Pool) (capacity : Int)
    (small : totalData arrivals < 2 ^ 63) :
    ∃ calls b, run mp arrivals 0 (.new pool capacity) = .ok calls b ∧
      (NoSmuggling calls ↔ ∀ call ∈ calls.dropLast, Whole mp call) := by
  obtain ⟨calls, b, ran, serves⟩ := run_serves mp arrivals 0 (.new pool capacity) (by omega)
  exact ⟨calls, b, ran, serves.safe_iff (Nat.zero_le _)⟩

/-! ### Two connections -/

/-- A `GET` that declares a body of 19 bytes. -/
def getWithBody : Bytes := ascii "GET /a HTTP/1.1\r\nContent-Length: 19\r\n\r\n"

/-- A request of 19 bytes. -/
def getWithout : Bytes := ascii "GET /b HTTP/1.1\r\n\r\n"

/-- A request with no body to read is handed over as soon as its head is there. -/
theorem Serves.skips_inv {mp : Multipart Form} {arrived : Nat} {arrival : Arrival Form}
    {rest : List (Arrival Form)} {calls : List (Nat × Call Received)}
    (serves : Serves mp arrived [] (arrival :: rest) calls) (filled : arrival.data ≠ []) {k : Nat}
    (complete : (({} : RequestHeader).parse arrival.data).2.2 = .ok k)
    (skips : (parsedHeader arrival.data).noBody = true) :
    ∃ before received later, Holds before arrival.data ∧
      calls = (arrived + arrival.data.length, ⟨before, .ok received⟩) :: later ∧
      Serves mp (arrived + arrival.data.length) [] rest later := by
  obtain ⟨before, req, received, later, holds, -, -, rfl, serves'⟩ :=
    serves.done_inv filled (fun _ => True) fun {pooled decoded left} outcome => by
      have noBody : ¬ (parsedHeader arrival.data).ReadsBody := fun reads => by
        rw [reads.1] at skips
        cases skips
      rw [(outcome.behind_head complete).1.of_skips noBody]
      exact ⟨rfl, trivial⟩
  exact ⟨before, received, later, holds, rfl, serves'⟩

/-- A `POST` with its body. -/
def postWithBody : Bytes := ascii "POST /a HTTP/1.1\r\nContent-Length: 2\r\n\r\nhi"

/-- The theorem at that request, in one chunk, and another one in the next. -/
theorem noSmuggling_iff_sample :
    ∃ calls b, run noForms [arrives postWithBody, arrives getWithout] 0 (.new .fresh 0) = .ok calls b ∧
      NoSmuggling calls ∧ (handed calls).length = 2 := by
  obtain ⟨calls, b, ran, safe⟩ :=
    noSmuggling_iff noForms [arrives postWithBody, arrives getWithout] .fresh 0 (by decide)
  obtain ⟨calls', b', ran', serves⟩ := run_serves noForms [arrives postWithBody, arrives getWithout] 0
    (.new .fresh 0) (by decide)
  cases ran.symm.trans ran'
  have complete : (({} : RequestHeader).parse postWithBody).2.2 = .ok 39 := by decide
  obtain ⟨before, req, received, later, holds, -, -, rfl, serves₁⟩ :=
    serves.done_inv (by decide) (fun _ => True) fun {pooled decoded left} outcome => by
      obtain ⟨_, -, -, is⟩ := (outcome.behind_head complete).1.of_whole ⟨by decide, by decide⟩
        (show (parsedHeader postWithBody).getContentLength = (2 : Nat) by decide) (by decide) (by decide) (by decide)
      rw [is]
      exact ⟨rfl, trivial⟩
  obtain ⟨_, _, _, _, rfl, serves₂⟩ := serves₁.skips_inv (k := 19) (by decide) (by decide) (by decide)
  cases serves₂
  refine ⟨_, b, ran, safe.mpr fun call there k n declares => ?_, rfl⟩
  obtain rfl := List.mem_singleton.mp there
  have is : before.contents = postWithBody := holds.2
  rw [is] at declares ⊢
  obtain rfl : 39 = k := Except.ok.inj (complete.symm.trans declares.complete)
  obtain ⟨v, found, parsed⟩ := declares.one
  obtain rfl : ascii "2" = v := List.singleton_inj.mp ((show _ = [ascii "2"] by decide).symm.trans found)
  obtain rfl : 2 = n :=
    Int.ofNat_inj.mp (Except.ok.inj ((show parseContentLength (ascii "2") = .ok 2 by decide).symm.trans parsed))
  exact ⟨by decide, fun _ large => absurd large (by decide), fun _ has => absurd has.1 (by decide)⟩

/-- **A body read as a request**: a `GET` that declares 19 bytes, and these 19 bytes in the next chunk.
The receiver gets two requests. -/
theorem body_smuggled :
    ∃ calls b, run noForms [arrives getWithBody, arrives getWithout] 0 (.new .fresh 0) = .ok calls b ∧
      ¬ NoSmuggling calls ∧ (handed calls).length = 2 := by
  obtain ⟨calls, b, ran, serves⟩ := run_serves noForms [arrives getWithBody, arrives getWithout] 0
    (.new .fresh 0) (by decide)
  obtain ⟨before₁, received₁, later₁, holds₁, rfl, serves₁⟩ := serves.skips_inv (k := 39)
    (by decide) (by decide) (by decide)
  obtain ⟨before₂, received₂, later₂, holds₂, rfl, serves₂⟩ := serves₁.skips_inv (k := 19)
    (by decide) (by decide) (by decide)
  cases serves₂
  refine ⟨_, b, ran, fun safe => ?_, rfl⟩
  have declares : Declares before₁.contents 39 19 := by
    rw [holds₁.2]
    exact ⟨by decide, ascii "19", by decide, by decide⟩
  have apart := (List.pairwise_cons.mp safe).1 _ List.mem_cons_self 39 19 declares
  simp only [startOf, holds₁.2, holds₂.2] at apart
  revert apart
  decide

end Strike.Http
