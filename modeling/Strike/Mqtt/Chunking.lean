/-
**MQTT packets that arrive in chunks.**

The chunks of a byte stream are appended one after another, each followed by `doDecode`. The messages
collected along the way are compared with those of one call on the whole stream.

A cut is good (`GoodCut`) if the packets in front of it are read as they were written, and it falls
between two packets, or behind the fixed header of the next, if that is read as it was written, or behind the
first byte of the next when that byte was a chunk of its own. Everywhere else in a fixed header bytes are lost: the
read that runs into the end forgets the mark, and `recover` does not come to `Restore` after a message.

* `Stands`: what the codec and the buffer hold at a good cut.
* `sameAsWhole_of_goodCuts`: if all cuts are good, the chunks give the messages of the whole.
* `pings_lost`: two `PingReq`, cut behind the first byte of the second.
-/

import Strike.Mqtt.RoundTrip

namespace Strike.Mqtt

open Lib ReadProg

namespace Codec

/-- **The chunks arrive one after another**, each with the state of the pool at that time, and each
followed by a `doDecode` that returns. The last argument is what those calls returned. -/
inductive Fed : Codec → IoBuffer → List (Pool × Bytes) → List Message → Prop
  | nil (codec : Codec) (buf : IoBuffer) : Fed codec buf [] []
  | cons {codec : Codec} {buf buf' : IoBuffer} {pool : Pool} {chunk : Bytes} {out : Decoded IoBuffer}
      {chunks : List (Pool × Bytes)} {msgs : List Message}
      (appended : IoBuffer.append pool chunk buf = .ok () buf') (returned : codec.Returns buf' out)
      (rest : Fed out.codec out.buf chunks msgs) : Fed codec buf ((pool, chunk) :: chunks) (out.msgs ++ msgs)

/-- **The chunks give the messages of the whole.** -/
def SameAsWhole (pool : Pool) (capacity : Int) (chunks : List (Pool × Bytes)) (stream : Bytes) : Prop :=
  ∃ msgs out, Fed new (.new pool capacity) chunks msgs ∧ new.Returns (IoBuffer.newBytes stream) out ∧
    out.msgs = msgs

/-! ### Good cuts -/

/-- **A cut the decoder copes with**: behind the bytes `before` and `chunk`. -/
def GoodCut (packets : List Packet) (before chunk : Bytes) : Prop :=
  ∃ done next rest part, packets = done ++ next :: rest ∧
    before ++ chunk = done.flatMap Packet.bytes ++ part ∧ part <+: next.bytes ∧
    part.length < next.bytes.length ∧ (∀ p ∈ done, p.Readable) ∧
    (part = [] ∨ (next.Announced ∧ next.message.header.encode.length ≤ part.length) ∨
      (chunk = part ∧ part.length = 1))

/-- All cuts but the end are good. -/
def GoodCuts (packets : List Packet) (before : Bytes) (chunks : List Bytes) : Prop :=
  ∀ first chunk rest, chunks = first ++ chunk :: rest → rest ≠ [] →
    GoodCut packets (before ++ first.flatten) chunk

/-! ### Where the codec stands at a good cut -/

/-- **The codec and the unread bytes behind `part` of a packet**: the part is still unread, or the fixed
header was taken off it. -/
inductive At (next : Packet) : (part : Bytes) → Codec → (unread : Bytes) → Prop
  | front {part : Bytes} {codec : Codec} (state : codec.decoderState = .readFixedHeader) :
      At next part codec part
  | inside {body : Bytes} (announced : next.Announced) :
      At next (next.message.header.encode ++ body) next.behindHead body

variable {next : Packet} {codec : Codec}

theorem loop_inside {body : Bytes} (announced : next.Announced)
    (shorter : body.length < next.written.length) (msgs : List Message) (undo : Option Bytes) :
    ∃ k out, next.behindHead.loop k msgs (⟨body, undo⟩ : MarkedQueue) = some out ∧ out.msgs = msgs ∧
      out.codec = next.behindHead ∧ out.buf.rest = body := by
  cases body with
  | nil => exact ⟨1, _, rfl, rfl, rfl, rfl⟩
  | cons b body =>
    have some_ : next.written ≠ [] := fun empty => by
      rw [empty] at shorter
      exact Nat.not_lt_zero _ shorter
    have size := announced.length_eq some_
    have short : int32 (b :: body).length < next.message.header.remainingLength := by
      have := announced.short
      rw [size, int32_of_fits (by omega) (by omega)]
      omega
    obtain ⟨k, ran⟩ := loop_of_rejected msgs
      (Packet.rejected_behind undo (List.cons_ne_nil b body) short 0)
    refine ⟨k, _, ran, recover_msgs _ _ _ _, ?_⟩
    unfold recover
    split
    · exact ⟨rfl, rfl⟩
    · exact ⟨rfl, rfl⟩

theorem loop_head (announced : next.Announced)
    (some_ : next.written ≠ []) (state : codec.decoderState = .readFixedHeader) (fuel : Nat)
    (msgs : List Message) (rest : Bytes) (undo : Option Bytes) :
    codec.loop (fuel + 1) msgs (⟨next.message.header.encode ++ rest, undo⟩ : MarkedQueue) =
      next.behindHead.loop fuel msgs ⟨rest, some []⟩ := by
  have filled : ReadBuffer.len (⟨next.message.header.encode ++ rest, undo⟩ : MarkedQueue) > 0 :=
    Int.natCast_pos.mpr (Nat.succ_pos _)
  rw [loop, if_pos filled, announced.pass_head undo state, if_neg some_]
  simp only [Option.toList_none, List.append_nil]

/-- The first byte of a packet, alone in the buffer, is read and found to be too little. -/
theorem pass_single (state : codec.decoderState = .readFixedHeader) (b : UInt8) (undo : Option Bytes) :
    ∃ cause, codec.pass (⟨[b], undo⟩ : MarkedQueue) = .panicked cause ⟨[], some [b]⟩ := by
  obtain ⟨header, decoderState, msg⟩ := codec
  simp only at state
  subst state
  unfold pass body Header.decode
  by_cases valid : typeIsValid ((b &&& 0xf0) >>> 4)
  · refine ⟨.error errorInvalidRemainingLength, ?_⟩
    simp [valid, decodeLength]
  · refine ⟨.error (.new "Invalid message type "), ?_⟩
    simp [valid]

/-- **A call arrives at a good cut.** -/
theorem loop_arrives {part : Bytes} (state : codec.decoderState = .readFixedHeader) (starts : part <+: next.bytes)
    (shorter : part.length < next.bytes.length) (msgs : List Message) (undo : Option Bytes)
    (good : part = [] ∨ (next.Announced ∧ next.message.header.encode.length ≤ part.length) ∨
      (msgs = [] ∧ part.length = 1)) :
    ∃ k out, codec.loop k msgs (⟨part, undo⟩ : MarkedQueue) = some out ∧ out.msgs = msgs ∧
      At next part out.codec out.buf.rest := by
  rcases good with rfl | ⟨announced, head⟩ | ⟨rfl, one⟩
  · exact ⟨1, _, rfl, rfl, .front state⟩
  · rw [next.bytes_eq] at starts shorter
    obtain ⟨body, rfl⟩ := List.prefix_of_prefix_length_le (List.prefix_append _ _) starts head
    have shorter' : body.length < next.written.length := by
      simp only [List.length_append] at shorter
      omega
    have some_ : next.written ≠ [] := List.length_pos_iff.mp (Nat.zero_lt_of_lt shorter')
    obtain ⟨k, out, ran, same, kept, left⟩ := loop_inside announced shorter' msgs (some [])
    refine ⟨k + 1, out, (loop_head announced some_ state k msgs body undo).trans ran, same, ?_⟩
    rw [kept, left]
    exact .inside announced
  · obtain ⟨b, rfl⟩ := List.length_eq_one_iff.mp one
    obtain ⟨cause, panics⟩ := pass_single state b undo
    refine ⟨1, recover codec [] cause ⟨[], some [b]⟩, ?_, rfl, .front state⟩
    rw [loop, if_pos (show ReadBuffer.len (⟨[b], undo⟩ : MarkedQueue) > 0 from Int.one_pos), panics]

/-- **A chunk that ends within the same packet** gives no message. -/
theorem At.within {part chunk unread : Bytes}
    (stands : At next part codec unread) (starts : part ++ chunk <+: next.bytes)
    (shorter : (part ++ chunk).length < next.bytes.length)
    (good : part ++ chunk = [] ∨
      (next.Announced ∧ next.message.header.encode.length ≤ (part ++ chunk).length) ∨
      (part ++ chunk).length = 1) :
    ∃ k out, codec.loop k [] (⟨unread ++ chunk, none⟩ : MarkedQueue) = some out ∧ out.msgs = [] ∧
      At next (part ++ chunk) out.codec out.buf.rest := by
  cases stands with
  | front state =>
    exact loop_arrives state starts shorter [] none (good.imp_right (Or.imp_right fun one => ⟨rfl, one⟩))
  | inside announced =>
    have shorter' : (unread ++ chunk).length < next.written.length := by
      rw [next.bytes_eq] at shorter
      simp only [List.length_append] at shorter ⊢
      omega
    obtain ⟨k, out, ran, same, kept, left⟩ := loop_inside announced shorter' [] none
    refine ⟨k, out, ran, same, ?_⟩
    rw [kept, left, List.append_assoc]
    exact .inside announced

/-- **A chunk that completes the packet** gives its message, and goes on behind it. -/
theorem At.completes {part chunk unread rest : Bytes} (stands : At next part codec unread) (readable : next.Readable)
    (shorter : part.length < next.bytes.length) (all : part ++ chunk = next.bytes ++ rest)
    (fits : next.Fits rest) :
    ∃ k, ∀ fuel, codec.loop (fuel + k) [] (⟨unread ++ chunk, none⟩ : MarkedQueue) =
      next.behind.loop fuel [next.asRead] ⟨rest, some []⟩ := by
  cases stands with
  | front state =>
    rw [all]
    exact loop_of_produced [] (readable.produced none state fits)
  | inside =>
    rw [next.bytes_eq, List.append_assoc, List.append_assoc] at all
    have content : unread ++ chunk = next.written ++ rest := List.append_cancel_left all
    have some_ : next.written ≠ [] := by
      rw [next.bytes_eq, List.length_append, List.length_append] at shorter
      exact List.length_pos_iff.mp (Nat.zero_lt_of_lt (Nat.lt_of_add_lt_add_left shorter))
    rw [content]
    exact loop_of_produced [] (readable.produced_behind none some_ fits)

/-! ### From cut to cut -/

/-- **Where a run of chunks stands** behind the bytes `before`: the packets `done` have come out, and the
codec is at `part` of the next. -/
structure Stands (packets : List Packet) (before : Bytes) (codec : Codec) (unread : Bytes)
    (done : List Packet) (next : Packet) (part : Bytes) : Prop where
  packets : ∃ rest, packets = done ++ next :: rest
  before : before = done.flatMap Packet.bytes ++ part
  readable : ∀ p ∈ done, p.Readable
  starts : part <+: next.bytes
  shorter : part.length < next.bytes.length
  stands : At next part codec unread

theorem place_advances {done done' rest rest' : List Packet} {next next' : Packet} {part part' chunk : Bytes}
    (same : done ++ next :: rest = done' ++ next' :: rest')
    (later : done.flatMap Packet.bytes ++ part ++ chunk = done'.flatMap Packet.bytes ++ part')
    (shorter : part'.length < next'.bytes.length) :
    ∃ mid, done' = done ++ mid ∧ next :: rest = mid ++ next' :: rest' := by
  rcases List.append_eq_append_iff.mp same with ⟨mid, is, behind⟩ | ⟨mid, is, behind⟩
  · exact ⟨mid, is, behind⟩
  · cases mid with
    | nil => exact ⟨[], by rw [is, List.append_nil, List.append_nil], behind.symm⟩
    | cons p mid =>
      obtain ⟨rfl, -⟩ := List.cons.inj behind
      have lengths := congrArg List.length later
      rw [is] at lengths
      simp only [List.flatMap_append, List.flatMap_cons, List.length_append] at lengths
      omega

/-- **A chunk leads from one good cut to the next.** -/
theorem Stands.step {packets done : List Packet} {before unread chunk part : Bytes}
    (stands : Stands packets before codec unread done next part) (some_ : chunk ≠ [])
    (short : (packets.flatMap Packet.bytes).length < 2 ^ 31) (good : GoodCut packets before chunk) :
    ∃ out mid next' part', codec.Returns (⟨unread ++ chunk, none⟩ : MarkedQueue) out ∧
      out.msgs = mid.map Packet.asRead ∧
      Stands packets (before ++ chunk) out.codec out.buf.rest (done ++ mid) next' part' := by
  obtain ⟨rest, split⟩ := stands.packets
  obtain ⟨done', next', rest', part', split', here, starts, shorter, readable, shape⟩ := good
  have filled : unread ++ chunk ≠ [] := fun empty => some_ (List.append_eq_nil_iff.mp empty).2
  rw [stands.before] at here
  obtain ⟨mid, rfl, behind⟩ := place_advances (split.symm.trans split') here shorter
  have all : part ++ chunk = mid.flatMap Packet.bytes ++ part' := by
    rw [List.flatMap_append, List.append_assoc, List.append_assoc] at here
    exact List.append_cancel_left here
  have before' : before ++ chunk = (done ++ mid).flatMap Packet.bytes ++ part' := by
    rw [stands.before]
    exact here
  cases mid with
  | nil =>
    obtain ⟨rfl, -⟩ := List.cons.inj behind
    obtain rfl : part ++ chunk = part' := all
    obtain ⟨k, out, ran, none_, stands'⟩ := stands.stands.within starts shorter
      (shape.imp_right (Or.imp_right And.right))
    exact ⟨out, [], next, _, returns_of_loop filled ran, none_,
      ⟨rest', split'⟩, before', readable, starts, shorter, stands'⟩
  | cons p mid =>
    obtain ⟨rfl, -⟩ := List.cons.inj behind
    have readable' : ∀ q ∈ next :: mid, q.Readable := fun q member =>
      readable q (List.mem_append_right _ member)
    have fits : FitsAll (next :: mid) part' := by
      refine fitsAll_of_short readable' ?_
      rw [split'] at short
      simp only [List.flatMap_append, List.flatMap_cons, List.length_append] at short ⊢
      omega
    rw [List.flatMap_cons, List.append_assoc] at all
    -- A first byte that came alone would have to be the whole chunk, but the chunk completes `next`.
    have shape' : part' = [] ∨
        (next'.Announced ∧ next'.message.header.encode.length ≤ part'.length) ∨
        ([next.asRead] ++ mid.map Packet.asRead = [] ∧ part'.length = 1) := by
      refine shape.imp_right (Or.imp_right fun ⟨alone, _⟩ => absurd (congrArg List.length all) ?_)
      have shorter' := stands.shorter
      simp only [alone, List.length_append]
      omega
    obtain ⟨k, completes⟩ := stands.stands.completes (readable' next List.mem_cons_self) stands.shorter
      all fits.1
    obtain ⟨codec', undo, l, state, collects⟩ := loop_packets mid [next.asRead] (some [])
      (fun q member => readable' q (List.mem_cons_of_mem _ member)) fits.2
      (rfl : next.behind.decoderState = _)
    obtain ⟨n, out, arrives, same, stands'⟩ := loop_arrives state starts shorter _ undo shape'
    have ran := ((completes (n + l)).trans (collects n)).trans arrives
    exact ⟨out, next :: mid, next', part', returns_of_loop filled ran, same,
      ⟨rest', split'⟩, before', readable, starts, shorter, stands'⟩

/-! ### The whole stream -/

theorem loop_alike {codec codec' : Codec} (same : codec.body = codec'.body) (fuel : Nat)
    (msgs : List Message) (rest : Bytes) (undo undo' : Option Bytes) :
    (codec.loop fuel msgs (⟨rest, undo⟩ : MarkedQueue)).map Decoded.msgs =
      (codec'.loop fuel msgs (⟨rest, undo'⟩ : MarkedQueue)).map Decoded.msgs := by
  cases fuel with
  | zero => rfl
  | succ fuel =>
    have passes : codec.pass (⟨rest, undo⟩ : MarkedQueue) = codec'.pass (⟨rest, undo'⟩ : MarkedQueue) := by
      unfold pass
      rw [same]
      rfl
    rw [loop, loop, passes, MarkedQueue.len_eq, MarkedQueue.len_eq]
    split
    · cases codec'.pass (⟨rest, undo'⟩ : MarkedQueue) with
      | next codec'' emitted q => rfl
      | returned q => rfl
      | panicked cause q => simp only [Option.map_some, recover_msgs]
    · rfl

theorem body_of_front {codec codec' : Codec} (state : codec.decoderState = .readFixedHeader)
    (state' : codec'.decoderState = .readFixedHeader) : codec.body = codec'.body := by
  obtain ⟨header, decoderState, msg⟩ := codec
  obtain ⟨header', decoderState', msg'⟩ := codec'
  simp only at state state'
  subst state state'
  rfl

/-- **A call on everything comes to where the chunks stand**, with their messages collected. -/
theorem Stands.whole {packets done : List Packet} {before unread part more : Bytes}
    (stands : Stands packets before codec unread done next part)
    (short : (before ++ more).length < 2 ^ 31) :
    ∃ k, ∀ fuel, (new.loop (fuel + k) [] (⟨before ++ more, none⟩ : MarkedQueue)).map Decoded.msgs =
      (codec.loop fuel [] (⟨unread ++ more, none⟩ : MarkedQueue)).map fun out =>
        done.map Packet.asRead ++ out.msgs := by
  have split : before ++ more = done.flatMap Packet.bytes ++ (part ++ more) := by
    rw [stands.before, List.append_assoc]
  rw [split] at short ⊢
  obtain ⟨codec', undo, k, state, collects⟩ := loop_packets done [] none stands.readable
    (fitsAll_of_short stands.readable short) (rfl : new.decoderState = _)
  rw [List.nil_append] at collects
  have collected := loop_collect (B := MarkedQueue) (done.map Packet.asRead)
  cases stands.stands with
  | front state' =>
    refine ⟨k, fun fuel => ?_⟩
    rw [collects, loop_alike (body_of_front state state') fuel _ _ undo none,
      ← collected fuel codec [], List.append_nil]
  | inside announced =>
    have some_ : next.written ≠ [] := by
      have shorter := stands.shorter
      rw [next.bytes_eq, List.length_append, List.length_append] at shorter
      exact List.length_pos_iff.mp (Nat.zero_lt_of_lt (Nat.lt_of_add_lt_add_left shorter))
    refine ⟨1 + k, fun fuel => ?_⟩
    rw [← Nat.add_assoc, collects, List.append_assoc, loop_head announced some_ state,
      loop_alike rfl fuel _ _ (some []) none, ← collected fuel next.behindHead [], List.append_nil]

/-- **From a good cut on**, the chunks that follow give the rest of the messages of the whole. -/
theorem Stands.feeds {packets : List Packet} (short : (packets.flatMap Packet.bytes).length < 2 ^ 31)
    (chunks : List (Pool × Bytes)) :
    ∀ {before unread part : Bytes} {codec : Codec} {done : List Packet} {next : Packet} {buf : IoBuffer},
      Stands packets before codec unread done next part → Holds buf unread → chunks ≠ [] →
      (∀ chunk ∈ chunks, chunk.2 ≠ []) →
      before ++ (chunks.map Prod.snd).flatten = packets.flatMap Packet.bytes →
      GoodCuts packets before (chunks.map Prod.snd) →
      ∃ msgs out, Fed codec buf chunks msgs ∧
        new.Returns (⟨packets.flatMap Packet.bytes, none⟩ : MarkedQueue) out ∧
        out.msgs = done.map Packet.asRead ++ msgs := by
  induction chunks with
  | nil => exact fun _ _ absent => absurd rfl absent
  | cons feed chunks ih =>
    obtain ⟨pool, chunk⟩ := feed
    intro before unread part codec done next buf stands holds _ some_ whole good
    obtain ⟨first, others⟩ := List.forall_mem_cons.mp some_
    obtain ⟨buf', appended, lands⟩ := IoBuffer.append_lands pool chunk holds.1
    have holds' : Holds buf' (unread ++ chunk) := holds.lands lands
    cases chunks with
    | nil =>
      rw [List.map_cons, List.map_nil, List.flatten_cons, List.flatten_nil, List.append_nil] at whole
      have filled : unread ++ chunk ≠ [] := fun empty => first (List.append_eq_nil_iff.mp empty).2
      have filled' : before ++ chunk ≠ [] := fun empty => first (List.append_eq_nil_iff.mp empty).2
      rw [← whole] at short ⊢
      obtain ⟨k, reaches⟩ := stands.whole short
      obtain ⟨fuel, out, ran⟩ := loop_returns _ [] new_sound
        (q := ⟨before ++ chunk, none⟩) (fun ⟨waits, _⟩ => nomatch waits) (Nat.lt_succ_self _)
      have same := reaches fuel
      rw [loop_mono ran (Nat.le_add_right fuel k)] at same
      cases last : codec.loop fuel [] (⟨unread ++ chunk, none⟩ : MarkedQueue) with
      | none =>
        rw [last] at same
        cases same
      | some out' =>
        rw [last] at same
        obtain ⟨out'', returned, -, msgs, -⟩ := Returns.of_queue holds' (returns_of_loop filled last)
        refine ⟨_, out, .cons appended returned (.nil _ _), returns_of_loop filled' ran, ?_⟩
        rw [List.append_nil, msgs]
        exact Option.some.inj same
    | cons feed chunks =>
      have cut : GoodCut packets before chunk := by
        have here := good [] chunk (List.map Prod.snd (feed :: chunks)) rfl (List.cons_ne_nil _ _)
        rwa [List.flatten_nil, List.append_nil] at here
      obtain ⟨out, mid, next', part', returned, msgs, stands'⟩ := stands.step first short cut
      obtain ⟨out', returned', kept, msgs', -, holds''⟩ := Returns.of_queue holds' returned
      rw [← kept] at stands'
      have whole' : before ++ chunk ++ ((feed :: chunks).map Prod.snd).flatten =
          packets.flatMap Packet.bytes := by
        rw [List.append_assoc]
        exact whole
      have good' : GoodCuts packets (before ++ chunk) ((feed :: chunks).map Prod.snd) := by
        intro start chunk' rest split more
        have here := good (chunk :: start) chunk' rest (by rw [List.map_cons, split]; rfl) more
        rwa [List.flatten_cons, ← List.append_assoc] at here
      obtain ⟨rest, whole_, fed, all, same⟩ := ih stands' holds'' (List.cons_ne_nil _ _) others whole' good'
      refine ⟨_, whole_, .cons appended returned' fed, all, ?_⟩
      rw [same, msgs', msgs, List.map_append, List.append_assoc]

/-- **Chunks that are cut well give the messages of the whole.** -/
theorem sameAsWhole_of_goodCuts {packets : List Packet} (pool : Pool) (capacity : Int)
    {chunks : List (Pool × Bytes)} (some_ : ∀ chunk ∈ chunks, chunk.2 ≠ [])
    (whole : (chunks.map Prod.snd).flatten = packets.flatMap Packet.bytes)
    (short : (packets.flatMap Packet.bytes).length < 2 ^ 31)
    (good : GoodCuts packets [] (chunks.map Prod.snd)) :
    SameAsWhole pool capacity chunks (packets.flatMap Packet.bytes) := by
  cases packets with
  | nil =>
    cases chunks with
    | nil => exact ⟨[], _, .nil _ _, ⟨0, if_pos rfl⟩, rfl⟩
    | cons feed chunks =>
      obtain ⟨first, -⟩ := List.append_eq_nil_iff.mp whole
      exact absurd first (some_ feed List.mem_cons_self)
  | cons next rest =>
    have filled : (next :: rest).flatMap Packet.bytes ≠ [] := by
      have filled := flatMap_bytes_ne_nil next rest []
      rwa [List.append_nil] at filled
    have some' : chunks ≠ [] := fun none_ => filled (by rw [← whole, none_]; rfl)
    have start : Stands (next :: rest) [] new [] [] next [] := by
      refine ⟨⟨rest, rfl⟩, rfl, fun p member => (nomatch member), List.nil_prefix, ?_, .front rfl⟩
      rw [next.bytes_eq]
      exact Nat.succ_pos _
    obtain ⟨msgs, out, fed, returned, same⟩ := start.feeds short chunks (new_holds pool capacity) some'
      some_ whole good
    obtain ⟨out', returned', -, same', -⟩ := Returns.of_queue (newBytes_holds _) returned
    exact ⟨msgs, out', fed, returned', same'.trans same⟩

/-- The theorem at a `PubAck` cut in its identifier. -/
theorem sameAsWhole_of_goodCuts_sample : SameAsWhole .fresh 0 [(.fresh, [0x40, 0x02, 0x00]), (.fresh, [0x07])]
      ([pubAck].flatMap Packet.bytes) := by
  refine sameAsWhole_of_goodCuts .fresh 0 (by decide) rfl (by decide) ?_
  rintro (_ | ⟨c, _ | ⟨c', first⟩⟩) chunk rest split more
  · cases split
    exact ⟨[], pubAck, [], [0x40, 0x02, 0x00], rfl, rfl, ⟨[0x07], rfl⟩, by decide,
      fun p member => (nomatch member), .inr (.inl ⟨pubAck_readable.announced, by decide⟩)⟩
  · cases split
    exact absurd rfl more
  · have lengths := congrArg List.length split
    simp only [List.map_cons, List.map_nil, List.length_append, List.length_cons, List.length_nil] at lengths
    omega

/-! ### A cut that loses a packet -/

theorem Fed.cons_inv {buf : IoBuffer} {pool : Pool} {unread chunk : Bytes}
    {chunks : List (Pool × Bytes)} {msgs : List Message} {out : Decoded MarkedQueue}
    (fed : Fed codec buf ((pool, chunk) :: chunks) msgs) (holds : Holds buf unread)
    (returned : codec.Returns (⟨unread ++ chunk, none⟩ : MarkedQueue) out) :
    ∃ buf' msgs', msgs = out.msgs ++ msgs' ∧ Holds buf' out.buf.rest ∧ Fed out.codec buf' chunks msgs' := by
  cases fed with
  | cons appended returned' rest =>
    obtain ⟨buf', appended', lands⟩ := IoBuffer.append_lands pool chunk holds.1
    rw [appended] at appended'
    cases appended'
    obtain ⟨out', returned'', kept, msgs', -, holds'⟩ :=
      Returns.to_queue (holds.lands lands) returned'
    obtain rfl := returned''.unique returned
    exact ⟨_, _, by rw [msgs'], holds', kept ▸ rest⟩

end Codec

/-- A `PingReq`. -/
def pingReq : Packet where
  source := ⟨⟨12, 0, 0⟩, .pingReq⟩
  message := ⟨⟨12, 0, 0⟩, .pingReq⟩
  bytes := [0xc0, 0x00]
  encodes := rfl

namespace Codec

/-- **A `PingReq` is lost**: its first byte comes with the `PingReq` before it, and the panic on the
missing length, after a message, leaves that byte read. -/
theorem pings_lost : ¬ SameAsWhole .fresh 0 [(.fresh, [0xc0, 0x00, 0xc0]), (.fresh, [0x00])]
    ([pingReq, pingReq].flatMap Packet.bytes) := by
  rintro ⟨msgs, out, fed, returned, same⟩
  have first : new.Returns (⟨[] ++ [0xc0, 0x00, 0xc0], none⟩ : MarkedQueue)
      ⟨⟨some ⟨12, 0, 0⟩, .readFixedHeader, none⟩, [pingReq.message], none, ⟨[], some [0xc0]⟩⟩ := ⟨3, rfl⟩
  obtain ⟨buf', msgs', rfl, holds, fed⟩ := fed.cons_inv (new_holds .fresh 0) first
  have second : (⟨some ⟨12, 0, 0⟩, .readFixedHeader, none⟩ : Codec).Returns
      (⟨[] ++ [0x00], none⟩ : MarkedQueue) ⟨⟨some ⟨12, 0, 0⟩, .readFixedHeader, none⟩, [],
        some (.new "Invalid message type "), ⟨[0x00], none⟩⟩ := ⟨1, rfl⟩
  obtain ⟨buf'', msgs'', rfl, -, fed⟩ := fed.cons_inv holds second
  cases fed
  have whole : new.Returns (⟨[0xc0, 0x00, 0xc0, 0x00], none⟩ : MarkedQueue)
      ⟨⟨some ⟨12, 0, 0⟩, .readFixedHeader, none⟩, [pingReq.message, pingReq.message], none,
        ⟨[], some []⟩⟩ := ⟨3, rfl⟩
  obtain ⟨out', returned', -, msgs', -⟩ := Returns.to_queue (newBytes_holds _) returned
  obtain rfl := returned'.unique whole
  rw [msgs'] at same
  cases same

end Codec

end Strike.Mqtt
