/-
**Recycled buffers.**

`Pools` are the pools of requests and of body buffers, and a `History` is a row of earlier decodes, each
with its own buffer and with what the pools handed out for it (`Choice`). Every request that was decoded
has been released since. A pool may lose what it holds at any time, so a choice of nothing is always
possible.

`NoLeak mp content`: after any two histories with the same choices, whatever bytes were decoded in them,
a decode of a buffer that holds `content` gives the same error and, in whatever order a form is written, the
same body.

* `BodyOutcome.observed_eq`: body and error are a function of the bytes, unless the body is short.
* `short_leaks`: behind the bytes of a short body stand those of an earlier one.
* `noLeak_iff`: the two together, and the forms that are written alike in every order (`FormAlike`).
-/

import Strike.Http.Delivery

namespace Strike.Http

variable {Form : Type}

/-! ### Pools -/

/-- The two pools. -/
structure Pools (Form : Type) where
  requests : List (Released Form) := []
  bodies : List Slice := []

/-- What the pools hand out for a decode, by its place in the pool; `none` stands for an empty pool, and
`defaultSize` is the capacity of a new body buffer. -/
structure Choice where
  request : Option Nat
  body : Option Nat
  defaultSize : Nat

namespace Pools

variable (pools : Pools Form) (choice : Choice)

def recycled : Recycled Form where
  request := choice.request.bind fun i => pools.requests[i]?
  body := (choice.body.bind fun i => pools.bodies[i]?).getD (Recycled.fresh Form choice.defaultSize).body

/-- The pools after a decode whose request, if there was no error, has been released. A body buffer that
was chosen and not asked for counts as lost. -/
def after (decoded : Decoded Form) : Pools Form :=
  let requests := choice.request.elim pools.requests pools.requests.eraseIdx
  let bodies := choice.body.elim pools.bodies pools.bodies.eraseIdx ++ decoded.put.toList
  match decoded.err with
  | some _ => { requests := requests, bodies := bodies }
  | none =>
    { requests := requests ++ [releaseRequest decoded.req]
      bodies := bodies ++ decoded.req.givenBack.toList }

end Pools

/-- **Earlier decodes**: for each the bytes the buffer held and what was chosen, the last one first, and
the pools they leave behind. -/
inductive History (mp : Multipart Form) : List (Bytes × Choice) → Pools Form → Prop
  | start : History mp [] {}
  | decode {past : List (Bytes × Choice)} {pools : Pools Form} {b b' : IoBuffer} {content : Bytes} {size : Nat}
      {choice : Choice} {decoded : Decoded Form} (history : History mp past pools)
      (stores : Stores b content size) (small : size < 2 ^ 63)
      (ran : decodeHttpReq mp (pools.recycled choice) b = .ok decoded b') :
      History mp ((content, choice) :: past) (pools.after choice decoded)

/-- **Nothing leaks**: two histories that differ in the bytes decoded only are not told apart. -/
def NoLeak (mp : Multipart Form) (content : Bytes) : Prop :=
  ∀ (past₁ past₂ : List (Bytes × Choice)) (pools₁ pools₂ : Pools Form), History mp past₁ pools₁ →
    History mp past₂ pools₂ → past₁.map Prod.snd = past₂.map Prod.snd →
    ∀ (choice : Choice) (b : IoBuffer) (size : Nat), Stores b content size → size < 2 ^ 63 →
      ∃ decoded₁ decoded₂ b₁ b₂, decodeHttpReq mp (pools₁.recycled choice) b = .ok decoded₁ b₁ ∧
        decodeHttpReq mp (pools₂.recycled choice) b = .ok decoded₂ b₂ ∧
        (∀ order₁ order₂, decoded₁.req.getBody mp order₁ = decoded₂.req.getBody mp order₂) ∧
        decoded₁.err = decoded₂.err

/-- **A short body**: the head is complete, a body is to be read that is not a form, and the buffer holds
some of it but not all. -/
def ShortBody (content : Bytes) : Prop :=
  ∃ h memory k n, ({} : RequestHeader).parse content = (h, memory, .ok k) ∧ h.ReadsBody ∧ ¬ h.HasForm ∧
    h.getContentLength = ((n : Nat) : Int) ∧ n ≤ maxBodySize ∧ memory.drop k ≠ [] ∧
    (memory.drop k).length < n

/-- **A form is written alike in every order**, if the body is one. -/
def FormAlike (mp : Multipart Form) (content : Bytes) : Prop :=
  ∀ h memory k n form, ({} : RequestHeader).parse content = (h, memory, .ok k) → h.ReadsBody → h.HasForm →
    h.getContentLength = ((n : Nat) : Int) → 0 < n → n ≤ maxBodySize →
    (mp.readForm h.multipartFormBoundary defaultMaxInMemoryFileSize ((memory.drop k).take n)).1 = .ok form →
    let req : Request Form := { multipartForm := some form, multipartFormBoundary := h.multipartFormBoundary }
    ∀ order₁ order₂, req.getBody mp order₁ = req.getBody mp order₂

/-- A form with at most one field and one file is written alike. -/
theorem Request.getBody_order {mp : Multipart Form} {req : Request Form} (few : ∀ form ∈ req.multipartForm,
    (mp.valueKeys form).length ≤ 1 ∧ (mp.fileKeys form).length ≤ 1) (order₁ order₂ : RangeOrder) :
    req.getBody mp order₁ = req.getBody mp order₂ := by
  have only {keys keys' : List Bytes} (few : keys.length ≤ 1) (perm : keys'.Perm keys) : keys' = keys := by
    match keys, few with
    | [], _ => exact perm.eq_nil
    | [_], _ => exact List.perm_singleton.mp perm
  unfold getBody
  cases has : req.multipartForm with
  | none => rfl
  | some form =>
    obtain ⟨value, file⟩ := few form has
    simp only [Multipart.marshalMultipartForm, Multipart.writeMultipartForm, only value (order₁.value_perm _),
      only value (order₂.value_perm _), only file (order₁.file_perm _), only file (order₂.file_perm _)]

/-! ### What does not depend on the pools -/

section Observed

instance (h : RequestHeader) : Decidable h.ReadsBody := inferInstanceAs (Decidable (_ ∧ _))

instance (h : RequestHeader) : Decidable h.HasForm := inferInstanceAs (Decidable (_ ∧ _))

/-- The body and the error of a request with the header `h` in front of `behind`, if it is not short. -/
def observed (mp : Multipart Form) (order : RangeOrder) (h : RequestHeader) (behind : Bytes) :
    Except Panic Bytes × Option Error :=
  if ¬ h.ReadsBody ∨ h.getContentLength ≤ 0 then (.ok [], none)
  else if h.getContentLength > maxBodySize then (.ok [], some errBodyTooLarge)
  else if h.HasForm then
    match (mp.readForm h.multipartFormBoundary defaultMaxInMemoryFileSize
        (behind.take h.getContentLength.toNat)).1 with
    | .ok form =>
      let req : Request Form := { multipartForm := some form, multipartFormBoundary := h.multipartFormBoundary }
      (req.getBody mp order, none)
    | .error text => (.ok [], some (.multipart text))
  else if behind = [] then (.ok [], some (.go .unexpectedEOF))
  else (.ok (behind.take h.getContentLength.toNat), none)

variable {mp : Multipart Form} {order : RangeOrder} {pooled : Slice} {h : RequestHeader} {behind left : Bytes} {decoded : Decoded Form}

/-- **Body and error are a function of the bytes**, unless some but not all of the body is there. -/
theorem BodyOutcome.observed_eq (outcome : BodyOutcome mp pooled h behind decoded left)
    (enough : h.ReadsBody → ¬ h.HasForm → h.getContentLength ≤ maxBodySize → behind ≠ [] →
      h.getContentLength ≤ behind.length) :
    (decoded.req.getBody mp order, decoded.err) = observed mp order h behind := by
  unfold observed
  cases outcome with
  | skipped skips =>
    rw [if_pos (.inl skips)]
    rfl
  | unframed reads length b nothing =>
    rw [if_pos (.inr (le_of_lt length))]
    cases b with
    | none => rfl
    | some s => exact congrArg (Except.ok ·, none) (nothing s rfl)
  | empty reads length =>
    rw [if_pos (.inr (le_of_eq length))]
    rfl
  | tooLarge reads length =>
    have positive : ¬ h.getContentLength ≤ 0 := by omega
    rw [if_neg (not_or.mpr ⟨not_not.mpr reads, positive⟩), if_pos length]
    rfl
  | @form n consumed form reads length positive small has read =>
    rw [if_neg (not_or.mpr ⟨not_not.mpr reads, by omega⟩), if_neg (by omega), if_pos has, length,
      Int.toNat_natCast, read]
    rfl
  | @badForm n consumed text reads length positive small has read =>
    rw [if_neg (not_or.mpr ⟨not_not.mpr reads, by omega⟩), if_neg (by omega), if_pos has, length,
      Int.toNat_natCast, read]
    rfl
  | missing reads length positive small plain gone =>
    rw [if_neg (not_or.mpr ⟨not_not.mpr reads, by omega⟩), if_neg (by omega), if_neg plain, if_pos gone]
    rfl
  | @fixed n b reads length positive small plain some_ val =>
    have whole : n ≤ behind.length := by
      have := enough reads plain (by omega) some_
      omega
    have covered : (stale pooled n).drop behind.length = [] :=
      List.drop_eq_nil_of_le (by rw [length_stale]; exact whole)
    rw [if_neg (not_or.mpr ⟨not_not.mpr reads, by omega⟩), if_neg (by omega), if_neg plain, if_neg some_,
      length, Int.toNat_natCast]
    show (Except.ok b.val, _) = _
    rw [val, covered, List.append_nil]

/-- **The observed body in two orders.** -/
theorem observed_order {content memory : Bytes} {k : Nat} (alike : FormAlike mp content)
    (parsed : ({} : RequestHeader).parse content = (h, memory, .ok k)) (order₁ order₂ : RangeOrder) :
    observed mp order₁ h (memory.drop k) = observed mp order₂ h (memory.drop k) := by
  unfold observed
  split
  · rfl
  next framed =>
  obtain ⟨reads, positive⟩ := not_or.mp framed
  split
  · rfl
  next small =>
  split
  · next has =>
      split
      · next form read =>
          obtain ⟨n, length⟩ : ∃ n : Nat, h.getContentLength = n := Int.eq_ofNat_of_zero_le (by omega)
          rw [length, Int.toNat_natCast] at read
          exact congrArg (·, none) (alike h memory k n form parsed (not_not.mp reads) has length (by omega)
            (by omega) read order₁ order₂)
      · rfl
  · rfl

theorem BodyOutcome.of_form (outcome : BodyOutcome mp pooled h behind decoded left) {n : Nat} {form : Form}
    (reads : h.ReadsBody) (has : h.HasForm) (length : h.getContentLength = n) (positive : 0 < n)
    (small : n ≤ maxBodySize)
    (read : (mp.readForm h.multipartFormBoundary defaultMaxInMemoryFileSize (behind.take n)).1 = .ok form) :
    decoded.req =
      { header := h, multipartForm := some form, multipartFormBoundary := h.multipartFormBoundary } := by
  cases outcome with
  | skipped skips => exact absurd reads skips
  | unframed _ negative => omega
  | empty _ zero => omega
  | tooLarge _ large => omega
  | @form m _ _ _ length' _ _ _ read' =>
    obtain rfl : n = m := by omega
    rw [read'] at read
    cases read
    rfl
  | @badForm m _ _ _ length' _ _ _ read' =>
    obtain rfl : n = m := by omega
    rw [read'] at read
    cases read
  | missing _ _ _ _ plain => exact absurd has plain
  | fixed _ _ _ _ plain => exact absurd has plain

end Observed

theorem decodeHttpReq_empty (mp : Multipart Form) (recycled : Recycled Form) {b : IoBuffer} {size : Nat}
    (stores : Stores b [] size) :
    ∃ decoded b', decodeHttpReq mp recycled b = .ok decoded b' ∧
      (∀ order, decoded.req.getBody mp order = .ok []) ∧ decoded.err = some (.go .eof) := by
  have nothing : b.peek 1 = .ok none := by
    rw [IoBuffer.peek_ok stores.holds.1, stores.holds.2, if_neg (by decide)]
  have parsed : parseHeader {} b = .ok ({}, some (.go .eof)) b := by
    simp only [parseHeader, RequestHeader.doParse, BufM.bind_apply, BufM.get_apply, nothing, BufM.lift_ok,
      BufM.pure_apply, Option.getD_none, List.length_nil, if_true]
    rfl
  have clean : ({} : Request Form).resetSkipHeader = {} := rfl
  refine ⟨{ req := {}, err := some (.go .eof) }, b, ?_, fun _ => rfl, rfl⟩
  rw [decodeHttpReq, readLimitBody, acquireRequest_eq, clean, BufM.bind_apply, parsed]
  rfl

/-- **A decode is told apart by its bytes only**, unless they are a short body. -/
theorem noLeak_of_not_short {mp : Multipart Form} {content : Bytes} (notShort : ¬ ShortBody content)
    (alike : FormAlike mp content) : NoLeak mp content := by
  intro past₁ past₂ pools₁ pools₂ _ _ _ choice b size stores small
  by_cases filled : content = []
  · subst filled
    obtain ⟨decoded₁, b₁, ran₁, body₁, err₁⟩ := decodeHttpReq_empty mp (pools₁.recycled choice) stores
    obtain ⟨decoded₂, b₂, ran₂, body₂, err₂⟩ := decodeHttpReq_empty mp (pools₂.recycled choice) stores
    exact ⟨decoded₁, decoded₂, b₁, b₂, ran₁, ran₂, fun order₁ order₂ => (body₁ order₁).trans (body₂ order₂).symm,
      err₁.trans err₂.symm⟩
  · obtain ⟨decoded₁, left₁, b₁, ran₁, -, outcome₁⟩ :=
      decodeHttpReq_outcome mp (pools₁.recycled choice) stores small filled
    obtain ⟨decoded₂, left₂, b₂, ran₂, -, outcome₂⟩ :=
      decodeHttpReq_outcome mp (pools₂.recycled choice) stores small filled
    refine ⟨decoded₁, decoded₂, b₁, b₂, ran₁, ran₂, ?_⟩
    cases parsed : ({} : RequestHeader).parse content with
    | mk h tail =>
      obtain ⟨memory, result⟩ := tail
      cases result with
      | error err =>
        obtain ⟨err₁, -, body₁⟩ := outcome₁.of_unparsed parsed
        obtain ⟨err₂, -, body₂⟩ := outcome₂.of_unparsed parsed
        exact ⟨fun order₁ order₂ => (body₁ order₁).trans (body₂ order₂).symm, err₁.trans err₂.symm⟩
      | ok k =>
        have enough : h.ReadsBody → ¬ h.HasForm → h.getContentLength ≤ maxBodySize →
            memory.drop k ≠ [] → h.getContentLength ≤ (memory.drop k).length := by
          intro reads plain small some_
          by_contra short
          obtain ⟨n, length⟩ : ∃ n : Nat, h.getContentLength = n :=
            Int.eq_ofNat_of_zero_le (by omega)
          exact notShort ⟨h, memory, k, n, parsed, reads, plain, length, by omega, some_, by omega⟩
        have same (order₁ order₂ : RangeOrder) := ((outcome₁.of_parsed parsed).observed_eq enough).trans
          ((observed_order alike parsed order₁ order₂).trans
            ((outcome₂.of_parsed parsed).observed_eq enough).symm)
        exact ⟨fun order₁ order₂ => congrArg Prod.fst (same order₁ order₂),
          congrArg Prod.snd (same .listed .listed)⟩

/-! ### What an earlier body leaves behind -/

/-- `POST` with as long a body as is allowed, all of whose bytes are `c`. -/
def postFull (c : UInt8) : Message where
  method := ascii "POST"
  uri := ascii "/"
  fields := [⟨ascii "Content-Length", ascii "40000", by decide, by decide⟩]
  methodGiven := post_given
  methodWord := post_word
  uriGiven := by decide
  uriWord := by decide
  body := List.replicate maxBodySize c
  small := List.length_replicate.le
  lengths := by
    intro f there _
    rw [List.mem_singleton.mp there, List.length_replicate]
    exact ⟨⟨by decide +kernel, by decide +kernel⟩, by decide +kernel⟩
  framed := ⟨_, List.mem_singleton_self _, by decide⟩
  direct := by
    intro f there
    rw [List.mem_singleton.mp there]
    decide
  plain := by
    intro f there isType
    rw [List.mem_singleton.mp there] at isType
    exact absurd isType (by decide)

/-- Nothing is recycled. -/
def anew : Choice := ⟨none, none, 0⟩

/-- The first body buffer of the pool is recycled. -/
def again : Choice := ⟨none, some 0, 0⟩

/-- **After one full body** the pool has a buffer that is full of its bytes. -/
theorem history_full (mp : Multipart Form) (c : UInt8) : ∃ pools, History mp [((postFull c).wire, anew)] pools ∧
      (pools.recycled again).body.array.take maxBodySize = List.replicate maxBodySize c := by
  have short : (postFull c).ShortLengths := by
    intro f there _
    rw [List.mem_singleton.mp there]
    decide
  have filled : (postFull c).wire ≠ [] := fun nothing => by
    have := congrArg List.length nothing
    simp only [Message.wire, List.length_append] at this
    have full : (postFull c).body.length = maxBodySize := List.length_replicate
    rw [full, maxBodySize, List.length_nil] at this
    omega
  obtain ⟨b, -, stores⟩ := (Stores.new .fresh 0).append .fresh (postFull c).wire
  rw [List.nil_append, Nat.zero_add] at stores
  have small : (postFull c).wire.length < 2 ^ 63 := by
    have size : (postFull c).bytes.length = 41 := show (postFull 0).bytes.length = 41 by decide
    have full : (postFull c).body.length = maxBodySize := List.length_replicate
    rw [Message.wire, List.length_append, size, full]
    decide
  obtain ⟨decoded, left, b', ran, -, outcome⟩ :=
    decodeHttpReq_outcome mp (({} : Pools Form).recycled anew) stores small filled
  obtain ⟨s, val, rfl⟩ := Message.decoded_of_body short rfl
    (Message.body_of_whole (Head.Same.refl (postFull c).toHead) outcome)
  refine ⟨_, .decode .start stores small ran, ?_⟩
  have full : s.len = maxBodySize := by
    rw [← Slice.length_val, val]
    exact List.length_replicate
  unfold Slice.val at val
  rw [full] at val
  exact val

theorem stale_full {pooled : Slice} {c : UInt8} {n : Nat}
    (full : pooled.array.take maxBodySize = List.replicate maxBodySize c) (low : n ≤ maxBodySize) :
    stale pooled n = List.replicate n c := by
  have room : maxBodySize ≤ pooled.cap := by
    have size := congrArg List.length full
    rw [List.length_take, List.length_replicate] at size
    exact min_eq_left_iff.mp size
  have front : pooled.array.take n = (pooled.array.take maxBodySize).take n := by
    rw [List.take_take, Nat.min_eq_left low]
  rw [stale, if_neg (by omega), front, full, List.take_replicate, Nat.min_eq_left low]

/-- A body of which some bytes are there: they are taken, and what the buffer held stays behind them. -/
theorem BodyOutcome.body_of_some {mp : Multipart Form} {pooled : Slice} {h : RequestHeader}
    {behind left : Bytes} {decoded : Decoded Form} (outcome : BodyOutcome mp pooled h behind decoded left)
    {n : Nat} (reads : h.ReadsBody) (plain : ¬ h.HasForm) (length : h.getContentLength = n) (positive : 0 < n)
    (small : n ≤ maxBodySize) (some_ : behind ≠ []) :
    decoded.req.getBody mp .listed = .ok (behind.take n ++ (stale pooled n).drop behind.length) := by
  cases outcome with
  | skipped skips => exact absurd reads skips
  | unframed _ negative => omega
  | empty _ zero => omega
  | tooLarge _ large => omega
  | form _ _ _ _ has => exact absurd has plain
  | badForm _ _ _ _ has => exact absurd has plain
  | missing _ _ _ _ _ gone => exact absurd gone some_
  | @fixed m b _ length' _ _ _ _ val =>
    obtain rfl : n = m := by omega
    exact congrArg Except.ok val

/-- **A short body leaks**: behind its bytes stand those of an earlier body. -/
theorem short_leaks (mp : Multipart Form) {content : Bytes} (short : ShortBody content)
    (small : content.length < 2 ^ 63) : ¬ NoLeak mp content := by
  intro noLeak
  obtain ⟨h, memory, k, n, parsed, reads, plain, length, low, some_, less⟩ := short
  have filled : content ≠ [] := by
    rintro rfl
    cases parsed
  obtain ⟨b, -, stores⟩ := (Stores.new .fresh 0).append .fresh content
  rw [List.nil_append, Nat.zero_add] at stores
  obtain ⟨pools₁, history₁, full₁⟩ := history_full mp 1
  obtain ⟨pools₂, history₂, full₂⟩ := history_full mp 2
  obtain ⟨decoded₁, decoded₂, b₁, b₂, ran₁, ran₂, same, -⟩ :=
    noLeak _ _ pools₁ pools₂ history₁ history₂ rfl again b _ stores small
  -- What either decode gives ends in the bytes of the earlier body.
  have ends : ∀ {c : UInt8} {pools : Pools Form} {decoded : Decoded Form} {b' : IoBuffer},
      (pools.recycled again).body.array.take maxBodySize = List.replicate maxBodySize c →
      decodeHttpReq mp (pools.recycled again) b = .ok decoded b' →
      decoded.req.getBody mp .listed =
        .ok (memory.drop k ++ List.replicate (n - (memory.drop k).length) c) := by
    intro c pools decoded b' full ran
    obtain ⟨decoded', left, b'', ran', -, outcome⟩ :=
      decodeHttpReq_outcome mp (pools.recycled again) stores small filled
    rw [ran] at ran'
    cases ran'
    rw [(outcome.of_parsed parsed).body_of_some reads plain length (by omega) low some_,
      List.take_of_length_le (le_of_lt less), stale_full full low, List.drop_replicate]
  have same := same .listed .listed
  rw [ends full₁ ran₁, ends full₂ ran₂, Except.ok.injEq, List.append_cancel_left_eq] at same
  have differ := congrArg List.head? same
  obtain ⟨m, more⟩ : ∃ m, n - (memory.drop k).length = m + 1 := ⟨n - (memory.drop k).length - 1, by omega⟩
  rw [more, List.replicate_succ, List.replicate_succ] at differ
  exact absurd (Option.some.inj differ) (by decide)

theorem NoLeak.formAlike {mp : Multipart Form} {content : Bytes} (noLeak : NoLeak mp content)
    (small : content.length < 2 ^ 63) : FormAlike mp content := by
  intro h memory k n form parsed reads has length positive low read req order₁ order₂
  have filled : content ≠ [] := by
    rintro rfl
    cases parsed
  obtain ⟨b, -, stores⟩ := (Stores.new .fresh 0).append .fresh content
  rw [List.nil_append, Nat.zero_add] at stores
  obtain ⟨decoded₁, decoded₂, b₁, b₂, ran₁, ran₂, same, -⟩ :=
    noLeak _ _ {} {} .start .start rfl anew b _ stores small
  obtain ⟨decoded, left, b', ran, -, outcome⟩ :=
    decodeHttpReq_outcome mp (({} : Pools Form).recycled anew) stores small filled
  cases ran.symm.trans ran₁
  cases ran.symm.trans ran₂
  have same := same order₁ order₂
  rw [(outcome.of_parsed parsed).of_form reads has length positive low read] at same
  exact same

/-- **When nothing leaks**: exactly if the buffer does not hold a short body, and a form in it is written alike in
every order. -/
theorem noLeak_iff (mp : Multipart Form) (content : Bytes) (small : content.length < 2 ^ 63) :
    NoLeak mp content ↔ ¬ ShortBody content ∧ FormAlike mp content :=
  ⟨fun noLeak => ⟨fun short => short_leaks mp short small noLeak, noLeak.formAlike small⟩,
    fun both => noLeak_of_not_short both.1 both.2⟩

/-- A `POST` with all of its body. -/
def wholeBody : Bytes := ascii "POST / HTTP/1.1\r\nContent-Length: 2\r\n\r\nhi"

/-- The theorem at that request. -/
theorem noLeak_iff_sample : NoLeak noForms wholeBody := by
  refine (noLeak_iff noForms wholeBody (by decide)).mpr ⟨?_, fun _ _ _ _ form => nomatch form⟩
  rintro ⟨h, memory, k, n, parsed, -, -, length, -, -, less⟩
  have whole : ({} : RequestHeader).parse wholeBody =
      ((({} : RequestHeader).parse wholeBody).1, wholeBody, .ok 38) := by decide
  have declared : (({} : RequestHeader).parse wholeBody).1.getContentLength = 2 := by decide
  rw [parsed] at declared whole
  cases whole
  obtain rfl : n = 2 := Int.ofNat_inj.mp (length.symm.trans declared)
  exact absurd less (by decide)

/-- One byte of a body of two. -/
def halfBody : Bytes := ascii "POST / HTTP/1.1\r\nContent-Length: 2\r\n\r\nx"

/-- **Bytes of another request**: a body of two bytes of which one has arrived. -/
theorem halfBody_leaks : ¬ NoLeak noForms halfBody := by
  refine short_leaks noForms ?_ (by decide)
  refine ⟨(({} : RequestHeader).parse halfBody).1, (({} : RequestHeader).parse halfBody).2.1, 38, 2, ?_, ?_, ?_,
    ?_, ?_, ?_, ?_⟩
  all_goals decide

end Strike.Http
