/-
**What one `decodeHttpReq` can do.**

`Outcome` lists the ways a decode can end, as a relation between the bytes the buffer held, the decoded
request and the bytes left: the head is incomplete or malformed and no byte is taken, or the head is
taken and the body is skipped, ignored, refused, read as a form, missing, or read.
`decodeHttpReq_outcome` says that every decode ends in one of them and never panics.

The one case where a byte of the recycled body buffer is in the result is `fixed`: behind the bytes
that were there, up to the declared length, stands what the buffer held before (`stale`).
-/

import Strike.Buffer.Fifo
import Strike.Http.Codec
import Strike.Http.Scanning

namespace Strike.Http

variable {Form : Type}

/-! ### The buffer -/

/-- The buffer holds the bytes, in a slice of at most `size` bytes. -/
structure Stores (b : IoBuffer) (q : Bytes) (size : Nat) : Prop where
  holds : Holds b q
  len_le : b.buf.len ≤ size

namespace Stores

variable {b : IoBuffer} {q : Bytes} {size : Nat}

theorem new (pool : Pool) (capacity : Int) : Stores (.new pool capacity) [] 0 := ⟨new_holds pool capacity, le_rfl⟩

theorem length_le (stores : Stores b q size) : q.length ≤ size := by
  obtain ⟨⟨-, rfl⟩, bound⟩ := stores
  rw [IoBuffer.length_contents_eq]
  omega

theorem len_eq (stores : Stores b q size) : b.len = q.length := by
  rw [← IoBuffer.length_contents stores.holds.1, stores.holds.2]

theorem append (stores : Stores b q size) (pool : Pool) (data : Bytes) :
    ∃ b', IoBuffer.append pool data b = .ok () b' ∧ Stores b' (q ++ data) (size + data.length) := by
  obtain ⟨b', ran, lands⟩ := IoBuffer.append_lands pool data stores.holds.1
  refine ⟨b', ran, stores.holds.lands lands, ?_⟩
  have bound := stores.len_le
  have inside := stores.length_le
  have unread : b.contents = q := stores.holds.2
  rw [← Slice.length_val]
  generalize IoBuffer.appendMotion b data.length = motion at lands
  cases motion with
  | kept =>
    rw [lands.1, List.length_append, Slice.length_val]
    omega
  | moved =>
    rw [lands.1, List.length_append, unread]
    omega
  | reset =>
    rw [lands.2.1]
    omega

theorem store (stores : Stores b q size) {memory : Bytes} (same : memory.length = q.length) :
    ∃ b', IoBuffer.store b.off.toNat memory b = .ok () b' ∧ Stores b' memory size := by
  obtain ⟨⟨wf, rfl⟩, bound⟩ := stores
  have nonneg := wf.off_nonneg
  have inside := wf.off_le
  have short := IoBuffer.length_contents_eq b
  obtain ⟨t, ran, -, len, val⟩ := b.buf.copyAt_end b.off.toNat memory (by omega)
  refine ⟨{ b with buf := t }, ?_, ⟨⟨nonneg, ?_⟩, ?_⟩, ?_⟩
  · simp only [IoBuffer.store, BufM.bind_apply, BufM.get_apply, ran, BufM.lift_ok, BufM.pure_apply,
      BufM.set_apply]
  · show b.off ≤ t.len
    rw [len]
    exact inside
  · have front : (b.buf.array.take b.off.toNat).length = b.off.toNat := by
      have := b.buf.len_le
      rw [List.length_take]
      omega
    show t.val.drop b.off.toNat = memory
    rw [val, List.drop_left' front]
  · show t.len ≤ size
    rw [len]
    exact bound

theorem drain (stores : Stores b q size) (small : size < 2 ^ 63) {n : Nat} (le : n ≤ q.length) :
    Stores (b.drain n) (q.drop n) size := by
  have taken := stores.holds.advance le
  obtain ⟨⟨wf, rfl⟩, bound⟩ := stores
  have nonneg := wf.off_nonneg
  have inside := wf.off_le
  have short := IoBuffer.length_contents_eq b
  rw [IoBuffer.drain_apply wf (by omega), if_pos le]
  exact ⟨taken.unmark, bound⟩

theorem read (stores : Stores b q size) (n : Nat) :
    ∃ b', IoBuffer.read n b = .ok (q.take n, if q = [] ∧ n ≠ 0 then some .eof else none) b' ∧
      Stores b' (q.drop n) size := by
  have run := IoBuffer.read_apply stores.holds.1 n
  rw [stores.holds.2] at run
  by_cases empty : q = []
  · refine ⟨b.reset, ?_, ?_⟩
    · rw [run, if_pos empty, empty, List.take_nil]
      by_cases none : n = 0
      · rw [if_pos none, if_neg (fun no => no.2 none)]
      · rw [if_neg none, if_pos ⟨rfl, none⟩]
    · rw [empty, List.drop_nil]
      exact ⟨Holds.reset b, Nat.zero_le _⟩
  · refine ⟨b.advance (q.take n).length, ?_, ?_⟩
    · rw [run, if_neg empty, if_neg (fun no => empty no.1)]
    · have inside : (q.take n).length ≤ q.length := by
        rw [List.length_take]
        exact Nat.min_le_right _ _
      have left : q.drop (q.take n).length = q.drop n := by
        rw [List.length_take]
        rcases Nat.le_total n q.length with le | le
        · rw [Nat.min_eq_left le]
        · rw [Nat.min_eq_right le, List.drop_length, List.drop_eq_nil_of_le le]
      rw [← left]
      exact ⟨stores.holds.advance inside, stores.len_le⟩

end Stores

/-! ### The head -/

variable {b : IoBuffer} {n : Nat}

/-- **The head**: no byte is taken unless it is complete, and then the head is. -/
theorem parseHeader_spec {content : Bytes} {size : Nat} (stores : Stores b content size)
    (small : size < 2 ^ 63) (filled : content ≠ []) {h memory result}
    (parsed : ({} : RequestHeader).parse content = (h, memory, result)) :
    match result with
    | .error err => ∃ h' b', parseHeader {} b = .ok (h', some (headerError "request" err memory)) b' ∧
        Stores b' memory size
    | .ok k => ∃ b', parseHeader {} b = .ok (h, none) b' ∧ Stores b' (memory.drop k) size := by
  obtain ⟨recased, inside⟩ := RequestHeader.parse_memory parsed
  have sameLength := recased.length_eq
  have wf := stores.holds.1
  have unread : b.contents = content := stores.holds.2
  have positive : 1 ≤ content.length := List.length_pos_iff.mpr filled
  have first : b.peek 1 = .ok (some (content.take 1)) := by
    rw [IoBuffer.peek_ok wf, unread, if_pos positive]
  have all : b.peek b.len.toNat = .ok (some content) := by
    rw [IoBuffer.peek_ok wf, IoBuffer.toNat_len wf, if_pos le_rfl, List.take_length, unread]
  have one : ¬ (content.take 1).length = 0 := by
    rw [List.length_take]
    omega
  have some_ : ¬ content.length = 0 := by omega
  obtain ⟨b', stored, stores'⟩ := stores.store sameLength
  have doParse : (({} : RequestHeader).doParse 1) b = match result with
      | .error err => .ok (h, some (headerError "request" err memory)) b'
      | .ok k => .ok (h, none) (b'.drain k) := by
    have clean : ({} : RequestHeader).resetSkipNormalize = {} := rfl
    simp only [RequestHeader.doParse, clean, BufM.bind_apply, BufM.get_apply, first, BufM.lift_ok,
      BufM.pure_apply, Option.getD_some, BufM.ite_apply, if_neg one, all, if_neg some_, parsed, stored]
    cases result <;> rfl
  cases result with
  | error err =>
    simp only at doParse ⊢
    refine ⟨if headerError "request" err memory ≠ errNeedMore then h.resetSkipNormalize else h, b', ?_, stores'⟩
    simp only [parseHeader, BufM.bind_apply, doParse, BufM.pure_apply]
  | ok k =>
    simp only at doParse ⊢
    refine ⟨b'.drain k, ?_, stores'.drain small (sameLength ▸ inside k rfl)⟩
    simp only [parseHeader, BufM.bind_apply, doParse, BufM.pure_apply]

/-! ### The body -/

theorem lt_pow_halvings (fuel : Nat) : ∀ {n : Nat}, n < 2 ^ fuel → n < 2 ^ halvings fuel n := by
  induction fuel with
  | zero => exact fun low => low
  | succ fuel ih =>
    intro n low
    unfold halvings
    split
    · have half := ih (n := n / 2) (by omega)
      rw [Nat.pow_succ]
      omega
    · omega

theorem le_round2 (low : n ≤ 2 ^ 64) : n ≤ round2 n := by
  unfold round2
  split
  · omega
  · have := lt_pow_halvings 64 (n := n - 1) (by omega)
    omega

/-- What stands in the first `n` bytes of the memory a body of that length is read into. -/
def stale (pooled : Slice) (n : Nat) : Bytes := if pooled.cap < n then List.replicate n 0 else pooled.array.take n

theorem length_stale (pooled : Slice) (n : Nat) : (stale pooled n).length = n := by
  unfold stale
  split
  · exact List.length_replicate
  · next room =>
      rw [List.length_take]
      exact Nat.min_eq_left (Nat.le_of_not_lt room)

theorem copyAt_front (s : Slice) {data : Bytes} (fits : data.length ≤ s.len) :
    ∃ t, s.copyAt 0 data = .ok t ∧ t.len = s.len ∧ t.cap = s.cap ∧
      t.val = data ++ s.val.drop data.length := by
  have whole : data.take (s.len - 0) = data := List.take_of_length_le (by omega)
  have room : 0 + data.length ≤ s.array.length := by
    have := s.len_le
    omega
  refine ⟨_, dif_pos (Nat.zero_le _), rfl, ?_, ?_⟩
  · simp only [Slice.mk_cap, whole]
    exact length_splice room
  · simp only [Slice.val, whole, splice, List.take_zero, List.nil_append, Nat.zero_add]
    rw [List.take_append, List.take_of_length_le fits, List.drop_take]

theorem bodyMemory {pooled : Slice} (empty : pooled.len = 0) (low : n ≤ 2 ^ 64) :
    ∃ dst t, (if pooled.cap < n then (makeSlice (round2 n)).copyAt 0 pooled.val else .ok pooled) = .ok dst ∧
      dst.upTo n = .ok t ∧ t.len = n ∧ t.val = stale pooled n := by
  by_cases short : pooled.cap < n
  · have nothing : pooled.val = [] := by
      rw [← List.length_eq_zero_iff, Slice.length_val, empty]
    have copied : (makeSlice (round2 n)).copyAt 0 [] = .ok (makeSlice (round2 n)) := by
      rw [Slice.copyAt, dif_pos (Nat.zero_le _)]
      simp [makeSlice, Slice.ofBytes, splice]
    have room : n ≤ (makeSlice (round2 n)).cap := by
      rw [makeSlice, Slice.ofBytes, Slice.mk_cap, List.length_replicate]
      exact le_round2 low
    refine ⟨_, _, by rw [if_pos short, nothing, copied], Slice.upTo_ok _ room, rfl, ?_⟩
    rw [stale, if_pos short]
    show (List.replicate (round2 n) 0).take n = _
    rw [List.take_replicate, Nat.min_eq_left (le_round2 low)]
  · refine ⟨pooled, _, if_neg short, pooled.upTo_ok (Nat.le_of_not_lt short), rfl, ?_⟩
    rw [stale, if_neg short]
    rfl

/-- **A body of declared length**: what is there, and behind it what the memory held before. -/
theorem appendBodyFixedSize_spec {q : Bytes} {size : Nat} (stores : Stores b q size)
    (pooled : Slice) (empty : pooled.len = 0) (positive : 0 < n) (low : n ≤ 2 ^ 64) :
    ∃ dst b', Stores b' (q.drop n) size ∧
      if q = [] then appendBodyFixedSize pooled n b = .ok (dst, some (.go .unexpectedEOF)) b'
      else appendBodyFixedSize pooled n b = .ok (dst, none) b' ∧ dst.len = n ∧
        dst.val = q.take n ++ (stale pooled n).drop q.length := by
  obtain ⟨dst, t, grown, resliced, len, val⟩ := bodyMemory empty low
  obtain ⟨b', read, stores'⟩ := stores.read n
  have fits : (q.take n).length ≤ t.len := by
    rw [List.length_take, len]
    exact Nat.min_le_left _ _
  obtain ⟨t', copied, len', cap', val'⟩ := copyAt_front t fits
  by_cases none : q = []
  · obtain ⟨cut, reset⟩ : ∃ cut, t'.upTo 0 = .ok cut := ⟨_, t'.upTo_ok (Nat.zero_le _)⟩
    refine ⟨cut, b', stores', ?_⟩
    rw [if_pos none]
    simp only [none, List.take_nil] at read copied
    simp only [appendBodyFixedSize, BufM.ite_apply, if_neg (Nat.ne_of_gt positive), empty, Nat.zero_add,
      Nat.sub_zero, BufM.bind_apply, grown, BufM.lift_ok, BufM.pure_apply, resliced, read, copied,
      List.length_nil, if_true, reset]
    rw [if_pos ⟨trivial, Nat.ne_of_gt positive⟩]
    simp only [if_true, BufM.bind_apply, BufM.pure_apply]
  · refine ⟨t', b', stores', ?_⟩
    have some_ : ¬ (q.take n).length = 0 := by
      have := List.length_pos_iff.mpr none
      rw [List.length_take]
      omega
    rw [if_neg none]
    refine ⟨?_, len'.trans len, ?_⟩
    · simp only [appendBodyFixedSize, BufM.ite_apply, if_neg (Nat.ne_of_gt positive), empty, Nat.zero_add,
        Nat.sub_zero, BufM.bind_apply, grown, BufM.lift_ok, BufM.pure_apply, resliced, read, copied,
        if_neg some_]
    · rw [val', val]
      congr 1
      rcases Nat.le_total n q.length with le | le
      · rw [List.drop_eq_nil_of_le (by rw [length_stale, List.length_take]; omega),
          List.drop_eq_nil_of_le (by rw [length_stale]; exact le)]
      · rw [List.take_of_length_le le]

/-! ### The decode -/

/-- The request of a parsed head goes on to its body. -/
def RequestHeader.ReadsBody (h : RequestHeader) : Prop := h.noBody = false ∧ h.peek strExpect ≠ str100Continue

/-- The body is a form. -/
def RequestHeader.HasForm (h : RequestHeader) : Prop :=
  h.multipartFormBoundary.length > 0 ∧ (h.peek strContentEncoding).length = 0

/-- **How a request can go on behind its head**: `h` is the header and `behind` what the buffer still
holds; the result is the request with its error and what went back to the pool, and the bytes left. -/
inductive BodyOutcome (mp : Multipart Form) (pooled : Slice) (h : RequestHeader) (behind : Bytes) :
    Decoded Form → Bytes → Prop
  | skipped (skips : ¬ h.ReadsBody) : BodyOutcome mp pooled h behind { req := { header := h } } behind
  | unframed (reads : h.ReadsBody) (length : h.getContentLength < 0) (b : Option Slice)
      (nothing : ∀ s ∈ b, s.val = []) :
      BodyOutcome mp pooled h behind { req := { header := h.setContentLength 0, body := b } } behind
  | empty (reads : h.ReadsBody) (length : h.getContentLength = 0) :
      BodyOutcome mp pooled h behind
        { req := { header := h.setContentLength 0, body := some pooled.truncate } } behind
  | tooLarge (reads : h.ReadsBody) (length : h.getContentLength > maxBodySize) :
      BodyOutcome mp pooled h behind { req := { header := h }, err := some errBodyTooLarge } behind
  | form {n consumed : Nat} {form : Form} (reads : h.ReadsBody) (length : h.getContentLength = n)
      (positive : 0 < n) (small : n ≤ maxBodySize) (has : h.HasForm)
      (read : mp.readForm h.multipartFormBoundary defaultMaxInMemoryFileSize (behind.take n)
        = (.ok form, consumed)) :
      BodyOutcome mp pooled h behind
        { req := { header := h, multipartForm := some form, multipartFormBoundary := h.multipartFormBoundary } }
        (behind.drop consumed)
  | badForm {n consumed : Nat} {text : String} (reads : h.ReadsBody) (length : h.getContentLength = n)
      (positive : 0 < n) (small : n ≤ maxBodySize) (has : h.HasForm)
      (read : mp.readForm h.multipartFormBoundary defaultMaxInMemoryFileSize (behind.take n)
        = (.error text, consumed)) :
      BodyOutcome mp pooled h behind { req := {}, err := some (.multipart text) } (behind.drop consumed)
  | missing {n : Nat} {back : Slice} (reads : h.ReadsBody) (length : h.getContentLength = n)
      (positive : 0 < n) (small : n ≤ maxBodySize) (plain : ¬ h.HasForm) (gone : behind = []) :
      BodyOutcome mp pooled h behind { req := {}, err := some (.go .unexpectedEOF), put := some back } []
  | fixed {n : Nat} {b : Slice} (reads : h.ReadsBody) (length : h.getContentLength = n)
      (positive : 0 < n) (small : n ≤ maxBodySize) (plain : ¬ h.HasForm) (some_ : behind ≠ [])
      (val : b.val = behind.take n ++ (stale pooled n).drop behind.length) :
      BodyOutcome mp pooled h behind
        { req := { header := h.setContentLength n, body := some b,
                   multipartFormBoundary := h.multipartFormBoundary } } (behind.drop n)

/-- **How a decode can end**, on a buffer that held `content`. -/
inductive Outcome (mp : Multipart Form) (pooled : Slice) (content : Bytes) : Decoded Form → Bytes → Prop
  | unparsed {h : RequestHeader} {memory : Bytes} {err : Error} (h' : RequestHeader)
      (parsed : ({} : RequestHeader).parse content = (h, memory, .error err)) :
      Outcome mp pooled content
        { req := { header := h' }, err := some (headerError "request" err memory) } memory
  | parsed {h : RequestHeader} {memory : Bytes} {k : Nat} {decoded : Decoded Form} {left : Bytes}
      (parsed : ({} : RequestHeader).parse content = (h, memory, .ok k))
      (body : BodyOutcome mp pooled h (memory.drop k) decoded left) :
      Outcome mp pooled content decoded left

/-- A released request is as good as a new one. -/
theorem acquireRequest_eq (pooled : Option (Released Form)) : acquireRequest pooled = {} := by
  cases pooled with
  | none => rfl
  | some released => exact released.clean.symm

theorem parse_scanned {h : RequestHeader} {content memory : Bytes} {k : Nat}
    (parsed : ({} : RequestHeader).parse content = (h, memory, .ok k)) (body : h.noBody = false) :
    h.parseRawHeaders = h := by
  suffices scanned : h.rawHeadersParsed = true by rw [RequestHeader.parseRawHeaders, if_pos scanned]
  unfold RequestHeader.parse at parsed
  split at parsed
  · cases parsed
  · split at parsed
    · split at parsed
      · cases parsed
      · cases parsed
        rfl
    · next skips =>
        split at parsed
        · cases parsed
        · cases parsed
          rw [Bool.or_eq_true, not_or] at skips
          have : ∀ (h : RequestHeader) (raw : Bytes), ({ h with rawHeaders := raw } : RequestHeader).noBody
              = h.noBody := fun _ _ => rfl
          rw [this] at body
          rw [body] at skips
          exact absurd rfl skips.1

section Plain

variable {b : IoBuffer} {q : Bytes} {size : Nat} (pooled : Slice) (h : RequestHeader)

theorem continueReadPlain_unframed (req : Request Form) (new : req.body = none) {contentLength : Int}
    (negative : contentLength < 0) :
    ∃ body : Option Slice, (∀ s ∈ body, s.val = []) ∧
      continueReadPlain pooled req contentLength maxBodySize b
        = .ok { req := { req with header := req.header.setContentLength 0, body := body } } b := by
  by_cases identity : contentLength = -2
  · refine ⟨none, fun s no => (nomatch no), ?_⟩
    rw [continueReadPlain, if_pos identity, ← new]
    rfl
  · refine ⟨some (.ofBytes []), fun s has => ?_, ?_⟩
    · cases has
      rfl
    · rw [continueReadPlain, if_neg identity]
      simp only [readBody, if_neg (show ¬ contentLength ≥ 0 by omega), BufM.bind_apply, BufM.pure_apply]
      rfl

theorem continueReadPlain_empty : continueReadPlain pooled ({ header := h } : Request Form) 0 maxBodySize b
      = .ok { req := { header := h.setContentLength 0, body := some pooled.truncate } } b := by
  rw [continueReadPlain, if_neg (by decide)]
  simp only [readBody, appendBodyFixedSize, BufM.bind_apply]
  rfl

theorem readBody_fixed (low : n ≤ maxBodySize) (dst : Slice) :
    readBody n maxBodySize dst = appendBodyFixedSize dst.truncate n := by
  rw [readBody, if_pos (by omega), if_neg (by omega)]
  rfl

theorem continueReadPlain_fixed (stores : Stores b q size) (boundary : Bytes)
    (positive : 0 < n) (low : n ≤ maxBodySize) :
    ∃ b', Stores b' (q.drop n) size ∧
      if q = [] then
        ∃ back, continueReadPlain pooled
            ({ header := h, multipartFormBoundary := boundary } : Request Form) n maxBodySize b
          = .ok { req := {}, err := some (.go .unexpectedEOF), put := some back } b'
      else
        ∃ dst : Slice, dst.val = q.take n ++ (stale pooled n).drop q.length ∧
          continueReadPlain pooled
            ({ header := h, multipartFormBoundary := boundary } : Request Form) n maxBodySize b
          = .ok { req := { header := h.setContentLength n, body := some dst,
                           multipartFormBoundary := boundary } } b' := by
  have low64 : n ≤ 2 ^ 64 := le_trans low (by decide)
  have framed : ¬ (n : Int) = -2 := by omega
  have twice : (pooled.truncate.truncate) = pooled.truncate := rfl
  obtain ⟨dst, b', stores', read⟩ :=
    appendBodyFixedSize_spec stores pooled.truncate rfl positive low64
  refine ⟨b', stores', ?_⟩
  by_cases gone : q = []
  · rw [if_pos gone] at read ⊢
    refine ⟨dst.truncate, ?_⟩
    rw [continueReadPlain, if_neg framed, BufM.bind_apply, readBody_fixed low, Option.getD_none, twice, read]
    rfl
  · rw [if_neg gone] at read ⊢
    obtain ⟨ran, len, val⟩ := read
    refine ⟨dst, val, ?_⟩
    rw [continueReadPlain, if_neg framed, BufM.bind_apply, readBody_fixed low, Option.getD_none, twice, ran]
    simp only [len, BufM.pure_apply]

end Plain

theorem readMultipartForm_spec {q : Bytes} {size n : Nat} (mp : Multipart Form)
    (stores : Stores b q size) (boundary : Bytes) (positive : 0 < n) {form consumed}
    (read : mp.readForm boundary defaultMaxInMemoryFileSize (q.take n) = (form, consumed)) :
    ∃ b', Stores b' (q.drop consumed) size ∧
      readMultipartForm mp boundary n defaultMaxInMemoryFileSize b
        = .ok (form.mapError Error.multipart) b' := by
  obtain ⟨b', ran, stores'⟩ := stores.read consumed
  refine ⟨b', stores', ?_⟩
  have unread : b.bytes = .ok q := by rw [IoBuffer.bytes_ok stores.holds.1, stores.holds.2]
  simp only [readMultipartForm, if_neg (show ¬ (n : Int) ≤ 0 by omega), BufM.bind_apply, BufM.get_apply,
    unread, BufM.lift_ok, BufM.pure_apply, Int.toNat_natCast, read, ran]
  cases form <;> rfl

/-- **The body of a request that reads one.** -/
theorem continueReadBody_outcome (mp : Multipart Form) (pooled : Slice) {size : Nat}
    {behind : Bytes} {h : RequestHeader} (reads : h.ReadsBody) (stores : Stores b behind size) :
    ∃ decoded left b', continueReadBody mp pooled { header := h } maxBodySize b = .ok decoded b' ∧
      Stores b' left size ∧ BodyOutcome mp pooled h behind decoded left := by
  unfold continueReadBody
  rcases lt_trichotomy h.getContentLength 0 with negative | zero | positive
  · obtain ⟨body, nothing, ran⟩ := continueReadPlain_unframed pooled { header := h } rfl negative
    rw [if_neg (show ¬ h.getContentLength > 0 by omega)]
    exact ⟨_, _, b, ran, stores, .unframed reads negative body nothing⟩
  · rw [if_neg (show ¬ h.getContentLength > 0 by omega), zero]
    exact ⟨_, _, b, continueReadPlain_empty pooled h, stores, .empty reads zero⟩
  · rw [if_pos positive]
    by_cases large : h.getContentLength > maxBodySize
    · rw [if_pos ⟨by decide, large⟩]
      exact ⟨_, _, b, rfl, stores, .tooLarge reads large⟩
    · rw [if_neg (fun both => large both.2)]
      obtain ⟨n, length⟩ : ∃ n : Nat, h.getContentLength = n := Int.eq_ofNat_of_zero_le (le_of_lt positive)
      have low : n ≤ maxBodySize := by omega
      have more : 0 < n := by omega
      have isForm : (h.multipartFormBoundary.length > 0 ∧ (h.peek strContentEncoding).length = 0) ↔
        h.HasForm := Iff.rfl
      rw [length]
      dsimp only
      by_cases has : h.HasForm
      · rw [if_pos (isForm.mpr has)]
        cases read : mp.readForm h.multipartFormBoundary defaultMaxInMemoryFileSize (behind.take n) with
        | mk form consumed =>
          obtain ⟨b', stores', ran⟩ := readMultipartForm_spec mp stores _ more read
          rw [BufM.bind_apply, ran]
          cases form with
          | error text => exact ⟨_, _, b', rfl, stores', .badForm reads length more low has read⟩
          | ok form => exact ⟨_, _, b', rfl, stores', .form reads length more low has read⟩
      · rw [if_neg (has ∘ isForm.mp)]
        obtain ⟨b', stores', ran⟩ :=
          continueReadPlain_fixed pooled h stores h.multipartFormBoundary more low
        by_cases gone : behind = []
        · rw [if_pos gone] at ran
          obtain ⟨back, ran⟩ := ran
          rw [gone, List.drop_nil] at stores'
          exact ⟨_, _, b', ran, stores', .missing reads length more low has gone⟩
        · rw [if_neg gone] at ran
          obtain ⟨dst, val, ran⟩ := ran
          exact ⟨_, _, b', ran, stores', .fixed reads length more low has gone val⟩

/-- **Every decode of a filled buffer ends in one of the outcomes.** -/
theorem decodeHttpReq_outcome (mp : Multipart Form) (recycled : Recycled Form)
    {content : Bytes} {size : Nat} (stores : Stores b content size) (small : size < 2 ^ 63)
    (filled : content ≠ []) :
    ∃ decoded rest b', decodeHttpReq mp recycled b = .ok decoded b' ∧ Stores b' rest size ∧
      Outcome mp recycled.body content decoded rest := by
  unfold decodeHttpReq readLimitBody
  have clean : ({} : Request Form).resetSkipHeader = {} := rfl
  rw [acquireRequest_eq, clean, BufM.bind_apply]
  cases parsed : ({} : RequestHeader).parse content with
  | mk h tail =>
    obtain ⟨memory, result⟩ := tail
    have head := parseHeader_spec stores small filled parsed
    cases result with
    | error err =>
      obtain ⟨h', b', ran, stores'⟩ := head
      rw [ran]
      exact ⟨_, memory, b', rfl, stores', .unparsed h' parsed⟩
    | ok k =>
      obtain ⟨b', ran, stores'⟩ := head
      rw [ran]
      dsimp only
      by_cases skips : h.noBody = true
      · rw [if_pos skips]
        exact ⟨_, _, b', rfl, stores',
          .parsed parsed (.skipped fun reads => absurd skips (by simp [reads.1]))⟩
      · have body : h.noBody = false := Bool.eq_false_iff.mpr skips
        rw [if_neg skips, parse_scanned parsed body]
        by_cases waits : ({ header := h } : Request Form).mayContinue = true
        · rw [if_pos waits]
          exact ⟨_, _, b', rfl, stores',
            .parsed parsed (.skipped fun reads => reads.2 (of_decide_eq_true waits))⟩
        · have goesOn : h.peek strExpect ≠ str100Continue := fun same => waits (decide_eq_true same)
          rw [if_neg waits]
          obtain ⟨decoded, left, b'', ended, stores'', outcome⟩ :=
            continueReadBody_outcome mp recycled.body ⟨body, goesOn⟩ stores'
          exact ⟨decoded, left, b'', ended, stores'', .parsed parsed outcome⟩

section Inversion

variable {mp : Multipart Form} {pooled : Slice} {content behind left : Bytes} {decoded : Decoded Form}
  {h : RequestHeader} {memory : Bytes}

/-- Without a complete head nothing is taken. -/
theorem Outcome.of_unparsed (outcome : Outcome mp pooled content decoded left) {err : Error}
    (parsed : ({} : RequestHeader).parse content = (h, memory, .error err)) :
    decoded.err = some (headerError "request" err memory) ∧ left = memory ∧
      ∀ order, decoded.req.getBody mp order = .ok [] := by
  cases outcome with
  | unparsed h' parsed' =>
    rw [parsed] at parsed'
    cases parsed'
    exact ⟨rfl, rfl, fun _ => rfl⟩
  | parsed parsed' body =>
    rw [parsed] at parsed'
    cases parsed'

theorem Outcome.of_parsed (outcome : Outcome mp pooled content decoded left) {k : Nat}
    (parsed : ({} : RequestHeader).parse content = (h, memory, .ok k)) :
    BodyOutcome mp pooled h (memory.drop k) decoded left := by
  cases outcome with
  | unparsed h' parsed' =>
    rw [parsed] at parsed'
    cases parsed'
  | parsed parsed' body =>
    rw [parsed] at parsed'
    cases parsed'
    exact body

/-- A request that reads no body is its head. -/
theorem BodyOutcome.of_skips (outcome : BodyOutcome mp pooled h behind decoded left)
    (skips : ¬ h.ReadsBody) : decoded = { req := { header := h } } := by
  cases outcome with
  | skipped => rfl
  | unframed reads => exact absurd reads skips
  | empty reads => exact absurd reads skips
  | tooLarge reads => exact absurd reads skips
  | form reads => exact absurd reads skips
  | badForm reads => exact absurd reads skips
  | missing reads => exact absurd reads skips
  | fixed reads => exact absurd reads skips

theorem BodyOutcome.of_whole (outcome : BodyOutcome mp pooled h behind decoded left)
    (reads : h.ReadsBody) (length : h.getContentLength = n) (small : n ≤ maxBodySize)
    (plain : h.multipartFormBoundary = []) (there : n ≤ behind.length) :
    ∃ b : Slice, b.val = behind.take n ∧ left = behind.drop n ∧
      decoded = { req := { header := h.setContentLength n, body := some b } } := by
  have noForm : ¬ h.HasForm := fun has => by
    have := has.1
    rw [plain] at this
    exact absurd this (Nat.lt_irrefl 0)
  cases outcome with
  | skipped skips => exact absurd reads skips
  | unframed _ negative => omega
  | empty _ zero =>
    obtain rfl : n = 0 := by omega
    exact ⟨pooled.truncate, rfl, rfl, rfl⟩
  | tooLarge _ large => omega
  | form _ _ _ _ has => exact absurd has noForm
  | badForm _ _ _ _ has => exact absurd has noForm
  | missing _ length' positive _ _ gone =>
    rw [gone, List.length_nil] at there
    omega
  | @fixed m b _ length' positive _ _ some_ val =>
    obtain rfl : n = m := by omega
    have covered : (stale pooled n).drop behind.length = [] :=
      List.drop_eq_nil_of_le (by rw [length_stale]; exact there)
    refine ⟨b, ?_, rfl, by rw [plain]⟩
    rw [val, covered, List.append_nil]

end Inversion

end Strike.Http
