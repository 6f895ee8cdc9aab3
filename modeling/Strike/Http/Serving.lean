/-
**One request at a time** (`pkg/stream/http/v1/stream.go`).

`OnDecodeDone` keeps the goroutine that reads a connection until the response has been sent. The code that
answers has the stream from `NewStreamDetect` on and calls it from goroutines of its own, at any time and also when
the stream is over. It calls `endStream` once for a stream; every access in there is a step.

* `answered_in_order`: in every interleaving the responses are sent in the order of the requests, and the next
  request is decoded when all are sent.
-/

import Strike.Go.Pools
import Strike.Lib.System

namespace Strike.Http.Serving

open Lib

/-- What a stream sets of a `Response`. -/
structure Response where
  statusCode : Int := 0
  connectionClose : Bool := false
  deriving DecidableEq, Repr

/-- What comes next in `endStream`. -/
inductive Ending where
  | notCalled | doSend | close | release | clear | ended | panicked
  deriving DecidableEq, Repr

/-- `serverStream`. Of the request it has `ConnectionClose`. -/
structure ServerStream where
  req : Option Bool
  res : Option Response := none
  ending : Ending := .notCalled

/-- What comes next in `OnDecodeDone`: nothing, the entry in `sc.stream`, or the receive from the channel. -/
inductive Reader where
  | decoding | register | receive
  deriving DecidableEq, Repr

/-- `streamConnection` with all its streams, and what was written to the connection. -/
structure StreamConnection where
  streams : List ServerStream := []
  stream : Option Nat := none
  reader : Reader := .decoding
  sent : List (Nat × Response) := []

inductive Label where
  | onDecodeDone (connectionClose : Bool)
  | reads
  | appendHeaders (i : Nat) (status : Option Int) (endStream : Bool)
  | appendTrailers (i : Nat)
  | ends (i : Nat)

namespace ServerStream

variable (s : ServerStream)

/-- The response was written. -/
def isSent : Bool := s.ending ∈ [.close, .release, .clear, .ended]

/-- `responseDoneChan` is closed. -/
def responseDone : Bool := s.isSent && s.ending ≠ .close

/-- `AppendHeaders`, with the status the headers have. -/
def appendHeaders (status : Option Int) : ServerStream :=
  let res := s.res.getD {}
  let res := { res with statusCode := status.getD res.statusCode }
  { s with res := some { res with connectionClose := res.connectionClose || s.req = some true } }

def endStream : Option ServerStream := if s.ending = .notCalled then some { s with ending := .doSend } else none

end ServerStream

namespace StreamConnection

variable (c : StreamConnection)

/-- `ActiveStreamsNum`. -/
def activeStreamsNum : Nat := if c.stream = none then 0 else 1

def put (i : Nat) (s : ServerStream) : StreamConnection := { c with streams := c.streams.set i s }

/-- A step of `endStream`. -/
def ends (i : Nat) (s : ServerStream) : Option StreamConnection :=
  match s.ending with
  | .doSend =>
    match s.res with
    -- `ss.res` is nil
    | none => some (c.put i { s with ending := .panicked })
    | some res => some { c.put i { s with ending := .close } with sent := c.sent ++ [(i, res)] }
  | .close => some (c.put i { s with ending := .release })
  | .release => some (c.put i { req := none, ending := .clear })
  | .clear => some { c.put i { s with ending := .ended } with stream := none }
  | _ => none

/-- One step. -/
def step : Label → Option StreamConnection
  | .onDecodeDone connectionClose =>
    if c.reader = .decoding then
      some { c with streams := c.streams ++ [{ req := some connectionClose }], reader := .register }
    else none
  | .reads =>
    match c.reader with
    | .decoding => none
    | .register => some { c with stream := some (c.streams.length - 1), reader := .receive }
    | .receive => if c.streams.getLast?.any (·.responseDone) then some { c with reader := .decoding } else none
  | .appendHeaders i status endStream =>
    c.streams[i]?.bind fun s =>
      let s := s.appendHeaders status
      if endStream then s.endStream.map (c.put i) else some (c.put i s)
  | .appendTrailers i => c.streams[i]?.bind fun s => s.endStream.map (c.put i)
  | .ends i => c.streams[i]?.bind (c.ends i)

end StreamConnection

def system : System StreamConnection Label := ⟨StreamConnection.step⟩

/-- **The first requests have their responses, in order**: all of them, or all but the one that is handled. -/
structure Orderly (c : StreamConnection) : Prop where
  order : c.sent.map (·.1) = List.range c.sent.length
  sent : ∀ i s, c.streams[i]? = some s → (s.isSent ↔ i < c.sent.length)
  bound : c.sent.length ≤ c.streams.length
  waits : c.streams.length ≤ c.sent.length + 1
  idle : c.reader = .decoding → c.sent.length = c.streams.length

namespace Orderly

variable {c c' : StreamConnection} {i : Nat} {s s' : ServerStream}

/-- A stream changes, and nothing is written. -/
theorem put (orderly : Orderly c) (at_ : c.streams[i]? = some s) (same : s'.isSent = s.isSent) (stream : Option Nat) :
    Orderly { c.put i s' with stream } := by
  have length : (c.streams.set i s').length = c.streams.length := List.length_set
  refine ⟨orderly.order, fun j t found => ?_, length ▸ orderly.bound, length ▸ orderly.waits, length ▸ orderly.idle⟩
  rcases getElem?_set_cases found with ⟨rfl, rfl⟩ | ⟨-, found⟩
  · rw [same]
    exact orderly.sent j s at_
  · exact orderly.sent j t found

/-- **A response is written.** Its stream is the last, the only one without. -/
theorem send (orderly : Orderly c) (at_ : c.streams[i]? = some s) (pending : ¬s.isSent) (now : s'.isSent)
    (res : Response) : Orderly { c.put i s' with sent := c.sent ++ [(i, res)] } := by
  obtain ⟨there, -⟩ := List.getElem?_eq_some_iff.mp at_
  have fresh := mt (orderly.sent i s at_).mpr pending
  have waits := orderly.waits
  obtain rfl : i = c.sent.length := by omega
  have length : (c.streams.set c.sent.length s').length = c.streams.length := List.length_set
  have longer : (c.sent ++ [(c.sent.length, res)]).length = c.sent.length + 1 := List.length_append
  refine ⟨?_, fun j t found => ?_, ?_, ?_, fun _ => ?_⟩
  · rw [longer, List.range_succ, List.map_append, orderly.order]
    rfl
  · rw [longer]
    rcases getElem?_set_cases found with ⟨rfl, rfl⟩ | ⟨other, found⟩
    · exact iff_of_true now (Nat.lt_succ_self _)
    · rw [orderly.sent j t found]
      omega
  all_goals
    simp only [longer, StreamConnection.put, length]
    omega

theorem endStream (orderly : Orderly c) (at_ : c.streams[i]? = some s)
    (ended : s'.endStream.map (c.put i) = some c') (same : s'.ending = s.ending) : Orderly c' := by
  obtain ⟨t, called, rfl⟩ := Option.map_eq_some_iff.mp ended
  obtain ⟨first, called⟩ := Option.ite_none_right_eq_some.mp called
  cases called
  refine orderly.put at_ ?_ c.stream
  rw [ServerStream.isSent, ServerStream.isSent, ← same, first]
  rfl

theorem ends (orderly : Orderly c) (at_ : c.streams[i]? = some s) (ran : c.ends i s = some c') : Orderly c' := by
  obtain ⟨req, res, ending⟩ := s
  cases ending with
  | doSend =>
    cases res <;> cases ran
    · exact orderly.put at_ (by rfl) c.stream
    · exact orderly.send at_ (fun no => by cases no) (by rfl) _
  | notCalled => cases ran
  | ended => cases ran
  | panicked => cases ran
  | _ =>
    cases ran
    exact orderly.put at_ (by rfl) _

/-- **One step.** -/
theorem step (orderly : Orderly c) {l : Label} (stepped : c.step l = some c') : Orderly c' := by
  cases l with
  | onDecodeDone connectionClose =>
    obtain ⟨decoding, stepped⟩ := Option.ite_none_right_eq_some.mp stepped
    cases stepped
    have all := orderly.idle decoding
    refine ⟨orderly.order, fun i s found => ?_, ?_, ?_, fun no => by cases no⟩
    · rcases getElem?_concat_cases found with found | ⟨rfl, rfl⟩
      · exact orderly.sent i s found
      · exact iff_of_false (fun no => by cases no) all.not_gt
    all_goals
      rw [List.length_append]
      exact all ▸ by simp
  | reads =>
    obtain ⟨streams, stream, reader, log⟩ := c
    cases reader with
    | decoding => cases stepped
    | register =>
      cases stepped
      exact ⟨orderly.order, orderly.sent, orderly.bound, orderly.waits, fun no => by cases no⟩
    | receive =>
      obtain ⟨done, stepped⟩ := Option.ite_none_right_eq_some.mp stepped
      cases stepped
      refine ⟨orderly.order, orderly.sent, orderly.bound, orderly.waits, fun _ => ?_⟩
      obtain ⟨s, last, done⟩ := (Option.any_eq_true ..).mp done
      rw [List.getLast?_eq_getElem?] at last
      have answered : streams.length - 1 < log.length := (orderly.sent _ s last).mp (Bool.and_eq_true_iff.mp done).1
      have bound : log.length ≤ streams.length := orderly.bound
      show log.length = streams.length
      omega
  | appendHeaders i status endStream =>
    obtain ⟨s, at_, stepped⟩ := Option.bind_eq_some_iff.mp stepped
    cases endStream with
    | true =>
      have ended : (s.appendHeaders status).endStream.map (c.put i) = some c' := stepped
      exact orderly.endStream at_ ended rfl
    | false =>
      cases stepped
      exact orderly.put at_ (by rfl) c.stream
  | appendTrailers i =>
    obtain ⟨s, at_, stepped⟩ := Option.bind_eq_some_iff.mp stepped
    exact orderly.endStream at_ stepped rfl
  | ends i =>
    obtain ⟨s, at_, stepped⟩ := Option.bind_eq_some_iff.mp stepped
    exact orderly.ends at_ stepped

end Orderly

/-- **The responses are sent in the order of the requests**, whichever goroutines send them and however their
steps fall: the response number `k` answers the request number `k`, at most the last request is without, and
none while a request is decoded. -/
theorem answered_in_order {labels : List Label} {c : StreamConnection} (ran : system.run {} labels = some c) :
    c.sent.map (·.1) = List.range c.sent.length ∧ c.sent.length ≤ c.streams.length ∧
      c.streams.length ≤ c.sent.length + 1 ∧ (c.reader = .decoding → c.sent.length = c.streams.length) := by
  have start : Orderly {} := ⟨rfl, (fun _ _ no => by cases no), le_rfl, Nat.zero_le _, fun _ => rfl⟩
  have orderly := System.run_invariant (P := Orderly) (fun orderly stepped => orderly.step stepped) start ran
  exact ⟨orderly.order, orderly.bound, orderly.waits, orderly.idle⟩

/-- The second request is registered before `endStream` of the first comes to its last step. -/
def late : List Label :=
  [.onDecodeDone false, .reads, .appendHeaders 0 (some 200) true, .ends 0, .ends 0, .reads, .onDecodeDone true, .reads,
    .ends 0, .ends 0]

/-- The theorem there. That last step clears the second request, and `ActiveStreamsNum` does not count it. -/
theorem answered_in_order_late : ∃ c, system.run {} late = some c ∧ c.reader = .receive ∧ c.activeStreamsNum = 0 ∧
    c.sent = [(0, ⟨200, false⟩)] ∧ c.streams.length ≤ c.sent.length + 1 := by
  obtain ⟨c, ran⟩ := Option.isSome_iff_exists.mp (show (system.run {} late).isSome by decide)
  have seen : (system.run {} late).map (fun c => (c.reader, c.activeStreamsNum, c.sent)) =
      some (.receive, 0, [(0, ⟨200, false⟩)]) := by decide
  simp only [ran, Option.map_some, Option.some.injEq, Prod.mk.injEq] at seen
  obtain ⟨reader, active, sent⟩ := seen
  exact ⟨c, ran, reader, active, sent, (answered_in_order ran).2.2.1⟩

end Strike.Http.Serving
