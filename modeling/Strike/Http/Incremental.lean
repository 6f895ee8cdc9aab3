/-
**Parsing a head as it arrives.**

`doParse` parses all that has arrived, each time from the start, until the head is there. The attempts that fail
normalise names in the buffer. Whether a parse succeeds is decided by the bytes of the head alone, and a name that
is normalised already is read as before, so neither later bytes nor earlier attempts make a difference.

* `parseFirstLine_front`: the request line is found in the bytes it takes, whatever follows.
* `parseHeaders_rewritten`: header fields are read the same way after an attempt that failed.
* `parse_incremental`: the same for `Parse`.
-/

import Strike.Http.HeadEnd

namespace Strike.Http

/-! ### The request line -/

theorem nextLine_line {line : Bytes} (noEnd : lf ∉ line) (rest : Bytes) :
    nextLine (line ++ lf :: rest) = .ok (stripCR line, rest) := by
  unfold nextLine
  rw [indexByte_append noEnd]
  dsimp only
  rw [List.take_left, List.drop_length_add_append, List.drop_succ_cons, List.drop_zero]

theorem nextLine_none {b : Bytes} (noEnd : lf ∉ b) : nextLine b = .error errNeedMore := by
  unfold nextLine
  rw [indexByte_eq_none.mpr noEnd]

namespace RequestHeader

/-- **The first line that is not empty lies in front of what follows it**, and is found there whatever that is. -/
theorem firstLine_front (fuel : Nat) : ∀ {b line next : Bytes}, firstLine fuel b = .ok (line, next) →
    ∃ front, b = front ++ next ∧ front ≠ [] ∧
      ∀ (rest : Bytes) (fuel' : Nat), front.length ≤ fuel' → firstLine fuel' (front ++ rest) = .ok (line, rest) := by
  induction fuel with
  | zero => exact fun found => nomatch found
  | succ fuel ih =>
    intro b line next found
    by_cases there : lf ∈ b
    · obtain ⟨first, behind, rfl, noEnd⟩ := List.eq_append_cons_of_mem there
      rw [firstLine, nextLine_line noEnd] at found
      dsimp only at found
      split at found
      · next empty =>
          obtain ⟨front, rfl, -, again⟩ := ih found
          refine ⟨first ++ lf :: front, by simp, by simp, fun rest fuel' enough => ?_⟩
          rw [List.length_append, List.length_cons] at enough
          obtain ⟨fuel', rfl⟩ : ∃ less, fuel' = less + 1 := ⟨fuel' - 1, by omega⟩
          rw [List.append_assoc, List.cons_append, firstLine, nextLine_line noEnd]
          dsimp only
          rw [if_pos empty, again rest fuel' (by omega)]
      · next given =>
          cases found
          refine ⟨first ++ [lf], by simp, by simp, fun rest fuel' enough => ?_⟩
          rw [List.length_append, List.length_singleton] at enough
          obtain ⟨fuel', rfl⟩ : ∃ less, fuel' = less + 1 := ⟨fuel' - 1, by omega⟩
          rw [List.append_assoc, List.singleton_append, firstLine, nextLine_line noEnd]
          dsimp only
          rw [if_neg given]
    · rw [firstLine, nextLine_none there] at found
      cases found

theorem firstLine_error (fuel : Nat) : ∀ {b : Bytes} {err : Error}, firstLine fuel b = .error err → err = errNeedMore := by
  induction fuel with
  | zero =>
    intro b err failed
    cases failed
    rfl
  | succ fuel ih =>
    intro b err failed
    by_cases there : lf ∈ b
    · obtain ⟨first, behind, rfl, noEnd⟩ := List.eq_append_cons_of_mem there
      rw [firstLine, nextLine_line noEnd] at failed
      dsimp only at failed
      split at failed
      · exact ih failed
      · cases failed
    · rw [firstLine, nextLine_none there] at failed
      cases failed
      rfl

/-- What `parseFirstLine` makes of the request line, once it has it. -/
def readLine (h : RequestHeader) (buf line : Bytes) (size : Nat) : RequestHeader × Except Error Nat :=
  match indexByte line space with
  | none | some 0 => (h, .error (.quoted "cannot find http request method in %q" buf))
  | some n => { h with method := line.take n }.parseURI buf (line.drop (n + 1)) size

theorem parseFirstLine_eq (h : RequestHeader) (buf : Bytes) : h.parseFirstLine buf =
    match firstLine (buf.length + 1) buf with
    | .error err => (h, .error err)
    | .ok (line, next) => h.readLine buf line (buf.length - next.length) := rfl

theorem readLine_ok {h h' : RequestHeader} {buf line : Bytes} {size m : Nat}
    (parsed : h.readLine buf line size = (h', .ok m)) :
    m = size ∧ ∀ buf' size', h.readLine buf' line size' = (h', .ok size') := by
  unfold readLine at parsed ⊢
  split at parsed
  · cases parsed
  · cases parsed
  · refine ⟨parseURI_size parsed, fun buf' size' => ?_⟩
    unfold parseURI at parsed ⊢
    split at parsed <;> cases parsed <;> rfl

theorem readLine_error {h h' : RequestHeader} {buf line : Bytes} {size : Nat} {err : Error}
    (failed : h.readLine buf line size = (h', .error err)) (buf' : Bytes) (size' : Nat) :
    ∃ h'' err', h.readLine buf' line size' = (h'', .error err') ∧ err' ≠ errNeedMore := by
  unfold readLine at failed ⊢
  split at failed
  · exact ⟨_, _, rfl, by rintro ⟨⟩⟩
  · exact ⟨_, _, rfl, by rintro ⟨⟩⟩
  · unfold parseURI at failed ⊢
    split at failed
    · cases failed
    · exact ⟨_, _, rfl, by rintro ⟨⟩⟩
    · cases failed

/-- **The request line is found in the bytes it takes**, whatever follows. -/
theorem parseFirstLine_front {h h' : RequestHeader} {b : Bytes} {m : Nat}
    (parsed : h.parseFirstLine b = (h', .ok m)) :
    0 < m ∧ m ≤ b.length ∧ ∀ rest, h.parseFirstLine (b.take m ++ rest) = (h', .ok m) := by
  rw [parseFirstLine_eq] at parsed
  cases found : firstLine (b.length + 1) b with
  | error err =>
    rw [found] at parsed
    cases parsed
  | ok pair =>
    obtain ⟨line, next⟩ := pair
    obtain ⟨front, rfl, given, again⟩ := firstLine_front _ found
    rw [found] at parsed
    obtain ⟨size, same⟩ := readLine_ok parsed
    have whole : m = front.length := by
      rw [size, List.length_append]
      omega
    subst whole
    refine ⟨List.length_pos_of_ne_nil given, by simp, fun rest => ?_⟩
    rw [List.take_left, parseFirstLine_eq, again rest _ (by rw [List.length_append]; omega)]
    dsimp only
    rw [same, List.length_append, Nat.add_sub_cancel]

theorem parseFirstLine_disableNormalizing (h : RequestHeader) (b : Bytes) :
    (h.parseFirstLine b).1.disableNormalizing = h.disableNormalizing := by
  rw [parseFirstLine_eq]
  split
  · rfl
  · unfold readLine parseURI
    split
    · rfl
    · rfl
    · split <;> rfl

/-- A malformed request line stays malformed. -/
theorem parseFirstLine_malformed {h h' : RequestHeader} {b : Bytes} {err : Error}
    (failed : h.parseFirstLine b = (h', .error err)) (other : err ≠ errNeedMore) (tail : Bytes) :
    ∃ h'' err', h.parseFirstLine (b ++ tail) = (h'', .error err') ∧ err' ≠ errNeedMore := by
  rw [parseFirstLine_eq] at failed
  cases found : firstLine (b.length + 1) b with
  | error err' =>
    rw [found] at failed
    cases failed
    exact absurd (firstLine_error _ found) other
  | ok pair =>
    obtain ⟨line, next⟩ := pair
    obtain ⟨front, rfl, -, again⟩ := firstLine_front _ found
    rw [found] at failed
    rw [List.append_assoc, parseFirstLine_eq, again (next ++ tail) _ (by rw [List.length_append]; omega)]
    exact readLine_error failed _ _

end RequestHeader

/-! ### Names that are normalised already -/

theorem normalizeHeaderKey_twice (b : Bytes) (disabled : Bool) :
    normalizeHeaderKey (normalizeHeaderKey b disabled) disabled = normalizeHeaderKey b disabled := by
  cases disabled with
  | false => exact normalizeHeaderKey_idem b
  | true => rfl

/-- What has no letters in it was there before. -/
theorem Recased.start_of {key b b' : Bytes} (recased : Recased b b')
    (fixed : ∀ c ∈ key, ¬ (97 ≤ c ∧ c ≤ 122) ∧ toLower c = c) (there : key <+: b') : key <+: b := by
  induction key generalizing b b' with
  | nil => exact List.nil_prefix
  | cons c key ih =>
    obtain ⟨rest', rfl⟩ := there
    obtain ⟨⟨noLetter, same⟩, others⟩ := List.forall_mem_cons.mp fixed
    cases b with
    | nil => cases recased
    | cons d rest =>
      obtain ⟨first, later⟩ := List.cons.inj recased
      have equal : d = c := eq_of_toLower noLetter (first.symm.trans same)
      subst equal
      exact (List.prefix_cons_inj d).mpr (ih later others (List.prefix_append ..))

theorem Recased.starts {b b' : Bytes} (recased : Recased b b') (starts : Starts b) : Starts b' := by
  have fixedCR : ¬ (97 ≤ cr ∧ cr ≤ 122) ∧ toLower cr = cr := by decide
  have fixedLF : ∀ c ∈ [lf], ¬ (97 ≤ c ∧ c ≤ 122) ∧ toLower c = c := List.forall_mem_singleton.mpr (by decide)
  refine ⟨Bool.eq_false_iff.mpr fun windows => ?_, Bool.eq_false_iff.mpr fun unix => ?_⟩
  · have before := recased.start_of (List.forall_mem_cons.mpr ⟨fixedCR, fixedLF⟩) (hasPrefix_iff.mp windows)
    exact Bool.eq_false_iff.mp starts.1 (hasPrefix_iff.mpr before)
  · have before := recased.start_of fixedLF (hasPrefix_iff.mp unix)
    exact Bool.eq_false_iff.mp starts.2 (hasPrefix_iff.mpr before)

namespace Entry

/-- The entry as the scanner leaves it, as an entry. -/
def normal (e : Entry) (disabled : Bool) : Entry where
  name := e.key disabled
  raw := e.raw
  starts := (recased_normalizeHeaderKey _ _).starts e.starts
  noColon := (recased_normalizeHeaderKey _ _).not_mem (by decide) (by decide) e.noColon
  noEnd := e.noEnd

theorem normal_key (e : Entry) (disabled : Bool) : (e.normal disabled).key disabled = e.key disabled :=
  normalizeHeaderKey_twice e.name disabled

theorem normal_written (e : Entry) (disabled : Bool) : (e.normal disabled).written disabled = e.written disabled := by
  rw [written, normal_key]
  rfl

end Entry

/-- A scanner in front of a normalised name and a colon goes on as in front of the name. -/
theorem next_rewritten (s : HeaderScanner) {name : Bytes} (starts : Starts name) (noColon : colon ∉ name)
    (passed behind : Bytes) :
    (s.at_ passed (normalizeHeaderKey name s.disableNormalizing ++ colon :: behind)).next =
      (s.at_ passed (name ++ colon :: behind)).next := by
  have recased := recased_normalizeHeaderKey name s.disableNormalizing
  rw [s.next_named (recased.starts starts) (recased.not_mem (by decide) (by decide) noColon),
    s.next_named starts noColon, normalizeHeaderKey_twice]

/-- **The loop does not notice an earlier attempt.** By induction on the entries that attempt had read. -/
theorem headerLoop_rewritten (entries : List Entry) (stop : Stop) (tail : Bytes) :
    ∀ (fuel : Nat) (s : HeaderScanner) (h : RequestHeader) (passed : Bytes), entries.length < fuel →
      RequestHeader.headerLoop fuel (s.at_ passed
          (writtenOf s.disableNormalizing entries ++ (stop.written s.disableNormalizing ++ tail))) h =
        RequestHeader.headerLoop fuel (s.at_ passed (bytesOf entries ++ (stop.bytes ++ tail))) h := by
  induction entries with
  | nil =>
    intro fuel s h passed enough
    obtain ⟨fuel, rfl⟩ : ∃ less, fuel = less + 1 := ⟨fuel - 1, by omega⟩
    cases stop with
    | ends => rfl
    | bare => rfl
    | open_ name raw starts noColon noEnd =>
      have same : (s.at_ passed (writtenOf s.disableNormalizing [] ++
          ((Stop.open_ name raw starts noColon noEnd).written s.disableNormalizing ++ tail))).next =
          (s.at_ passed (bytesOf [] ++ ((Stop.open_ name raw starts noColon noEnd).bytes ++ tail))).next := by
        have rewritten := next_rewritten s starts noColon passed (raw ++ tail)
        simp only [Stop.written, Stop.bytes, writtenOf, bytesOf, List.flatMap_nil, List.nil_append,
          List.append_assoc, List.cons_append]
        exact rewritten
      rw [RequestHeader.headerLoop, RequestHeader.headerLoop, same]
  | cons e entries ih =>
    intro fuel s h passed enough
    rw [List.length_cons] at enough
    obtain ⟨fuel, rfl⟩ : ∃ less, fuel = less + 1 := ⟨fuel - 1, by omega⟩
    have written : e.written s.disableNormalizing = (e.normal s.disableNormalizing).bytes := rfl
    rw [writtenOf_cons, bytesOf_cons, List.append_assoc, List.append_assoc, written, headerLoop_entry,
      headerLoop_entry, Entry.normal_key, Entry.normal_written]
    exact ih fuel { s with key := e.key s.disableNormalizing, value := e.value } _ _ (by omega)

namespace RequestHeader

/-- **Header fields are read the same way after an attempt that failed.** -/
theorem parseHeaders_rewritten (h : RequestHeader) (entries : List Entry) (stop : Stop) (tail : Bytes) :
    h.parseHeaders (writtenOf h.disableNormalizing entries ++ (stop.written h.disableNormalizing ++ tail)) =
      h.parseHeaders (bytesOf entries ++ (stop.bytes ++ tail)) := by
  have sizes : (writtenOf h.disableNormalizing entries ++ (stop.written h.disableNormalizing ++ tail)).length =
      (bytesOf entries ++ (stop.bytes ++ tail)).length := by
    simp only [List.length_append, writtenOf_length, stop.written_length]
  have enough : entries.length < (bytesOf entries ++ (stop.bytes ++ tail)).length + 1 := by
    have := length_le_bytesOf entries
    rw [List.length_append]
    omega
  have same := headerLoop_rewritten entries stop tail _
    { b := [], disableNormalizing := h.disableNormalizing } { h with contentLength := -2 } [] enough
  unfold parseHeaders
  rw [sizes]
  dsimp only
  change headerLoop _ { b := _, disableNormalizing := h.disableNormalizing } _ =
    headerLoop _ { b := _, disableNormalizing := h.disableNormalizing } _ at same
  rw [same]

/-! ### The whole head -/

/-- What `Parse` does behind the request line. -/
def parseRest (h : RequestHeader) (b : Bytes) : RequestHeader × Bytes × Except Error Nat :=
  if !h.noBody || h.noHTTP11 then
    match h.parseHeaders b with
    | (h, memory, .error err) => (h, memory, .error err)
    | (h, memory, .ok n) => ({ h with rawHeadersParsed := true }, memory, .ok n)
  else
    match readRawHeaders b with
    | .error err => (h, b, .error err)
    | .ok (rawHeaders, n) => ({ h with rawHeaders := rawHeaders }, b, .ok n)

section Parse

variable {h h' h₁ : RequestHeader} {buf b memory : Bytes} {m n : Nat} {err : Error}

theorem parse_of_line_error (line : h.parseFirstLine buf = (h₁, .error err)) : h.parse buf = (h₁, buf, .error err) := by
  unfold parse
  rw [line]

theorem parse_of_line (line : h.parseFirstLine buf = (h₁, .ok m)) : h.parse buf =
    ((h₁.parseRest (buf.drop m)).1, buf.take m ++ (h₁.parseRest (buf.drop m)).2.1,
      (h₁.parseRest (buf.drop m)).2.2.map (m + ·)) := by
  unfold parse parseRest
  rw [line]
  dsimp only
  split
  · cases h₁.parseHeaders (buf.drop m) with
    | mk h₂ rest =>
      obtain ⟨memory, result⟩ := rest
      cases result <;> rfl
  · cases readRawHeaders (buf.drop m) with
    | error err => simp [Except.map]
    | ok found => simp [Except.map]

theorem parseRest_entries (scans : (!h.noBody || h.noHTTP11) = true) (entries : List Entry) (stop : Stop) :
    h.parseRest (bytesOf entries ++ stop.bytes) =
      (match stop.length? with
        | some _ => { ({ h with contentLength := -2 }.addEntries h.disableNormalizing entries).finish with
            rawHeadersParsed := true }
        | none => { ({ h with contentLength := -2 }.addEntries h.disableNormalizing entries) with
            connectionClose := true },
      writtenOf h.disableNormalizing entries ++ stop.written h.disableNormalizing,
      match stop.length? with
      | some n => .ok ((bytesOf entries).length + n)
      | none => .error errNeedMore) := by
  unfold parseRest
  rw [if_pos scans, parseHeaders_entries]
  cases stop.length? <;> rfl

theorem parseRest_raw (keeps : (!h.noBody || h.noHTTP11) = false) (b : Bytes) :
    h.parseRest b = match readRawHeaders b with
      | .error err => (h, b, .error err)
      | .ok (rawHeaders, n) => ({ h with rawHeaders := rawHeaders }, b, .ok n) :=
  if_neg (by rw [keeps]; decide)

/-- **What has been read to its end is read the same way with more behind it.** -/
theorem parseRest_ok (read : h.parseRest b = (h', memory, .ok n)) (tail : Bytes) :
    n ≤ b.length ∧ h.parseRest (b ++ tail) = (h', memory ++ tail, .ok n) := by
  cases scans : !h.noBody || h.noHTTP11 with
  | true =>
    obtain ⟨entries, stop, rfl⟩ := exists_entries b
    rw [parseRest_entries scans] at read
    cases stop with
    | ends eol rest empty =>
      have longer := parseRest_entries scans entries (.ends eol (rest ++ tail) empty)
      dsimp only [Stop.length?, Stop.written, Stop.bytes] at read longer ⊢
      cases read
      refine ⟨?_, ?_⟩
      · simp only [List.length_append]
        omega
      · rw [List.append_assoc, List.append_assoc, longer]
        simp only [List.append_assoc]
    | open_ => cases read
    | bare => cases read
  | false =>
    rw [parseRest_raw scans] at read ⊢
    by_cases ends : ∃ lines n, EndsAt lines n b
    · obtain ⟨lines, n', ended⟩ := ends
      rw [readRawHeaders_endsAt ended] at read
      rw [readRawHeaders_endsAt (ended.append tail), List.take_append_of_le_length ended.bounds.2]
      cases read
      exact ⟨ended.bounds.2, rfl⟩
    · rw [readRawHeaders_never fun lines n ended => ends ⟨lines, n, ended⟩] at read
      cases read

theorem addEntries_disableNormalizing (disabled : Bool) (entries : List Entry) :
    ∀ h : RequestHeader, (h.addEntries disabled entries).disableNormalizing = h.disableNormalizing := by
  induction entries with
  | nil => exact fun h => rfl
  | cons e entries ih => exact fun h => (ih _).trans (addField_disableNormalizing h _ _)

/-- **What has not been read to its end needs more**, and with more it is read as if it had not been tried. -/
theorem parseRest_short (read : h.parseRest b = (h', memory, .error err)) :
    err = errNeedMore ∧ h'.disableNormalizing = h.disableNormalizing ∧
      ∀ tail, h.parseRest (memory ++ tail) = h.parseRest (b ++ tail) := by
  cases scans : !h.noBody || h.noHTTP11 with
  | true =>
    obtain ⟨entries, stop, rfl⟩ := exists_entries b
    rw [parseRest_entries scans] at read
    cases none : stop.length? with
    | some n =>
      rw [none] at read
      cases read
    | none =>
      rw [none] at read
      cases read
      refine ⟨rfl, addEntries_disableNormalizing _ _ _, fun tail => ?_⟩
      unfold parseRest
      rw [if_pos scans, if_pos scans, List.append_assoc, List.append_assoc, parseHeaders_rewritten]
  | false =>
    rw [parseRest_raw scans] at read
    by_cases ends : ∃ lines n, EndsAt lines n b
    · obtain ⟨lines, n', ended⟩ := ends
      rw [readRawHeaders_endsAt ended] at read
      cases read
    · rw [readRawHeaders_never fun lines n ended => ends ⟨lines, n, ended⟩] at read
      cases read
      exact ⟨rfl, rfl, fun tail => rfl⟩

end Parse

/-- **Parsing is incremental.** A head that is read to its end is read the same way with more behind it; one that is
malformed stays so; and one that needs more is, with more, read as if it had not been tried. `doParse` resets the
header before it tries again, and the reset header is the same too. -/
theorem parse_incremental (h : RequestHeader) (b tail : Bytes) : (∀ h' memory n, h.parse b = (h', memory, .ok n) →
        0 < n ∧ n ≤ b.length ∧ h.parse (b ++ tail) = (h', memory ++ tail, .ok n)) ∧
      (∀ h' memory err, h.parse b = (h', memory, .error err) → err ≠ errNeedMore →
        ∃ err', err' ≠ errNeedMore ∧ (h.parse (b ++ tail)).2.2 = .error err') ∧
      ∀ h' memory, h.parse b = (h', memory, .error errNeedMore) →
        h'.resetSkipNormalize = h.resetSkipNormalize ∧ h.parse (memory ++ tail) = h.parse (b ++ tail) := by
  have kept := h.parseFirstLine_disableNormalizing b
  cases line : h.parseFirstLine b with
  | mk h₁ result =>
    rw [line] at kept
    cases result with
    | error err =>
      rw [parse_of_line_error line]
      refine ⟨?_, ?_, ?_⟩
      · intro h' memory n read
        cases read
      · intro h' memory err' read other
        cases read
        obtain ⟨h₂, err', line', other'⟩ := parseFirstLine_malformed line other tail
        exact ⟨err', other', by rw [parse_of_line_error line']⟩
      · intro h' memory read
        cases read
        exact ⟨congrArg (fun disabled => ({ disableNormalizing := disabled } : RequestHeader)) kept, rfl⟩
    | ok m =>
      obtain ⟨some_, inside, again⟩ := parseFirstLine_front line
      have size : (b.take m).length = m := List.length_take_of_le inside
      -- whatever is behind the request line, the rest is up to `parseRest`
      have parsed : ∀ rest, h.parse (b.take m ++ rest) = ((h₁.parseRest rest).1,
          b.take m ++ (h₁.parseRest rest).2.1, (h₁.parseRest rest).2.2.map (m + ·)) := by
        intro rest
        rw [parse_of_line (again rest), List.drop_left' size, List.take_left' size]
      have whole : b = b.take m ++ b.drop m := (List.take_append_drop m b).symm
      have longer : b ++ tail = b.take m ++ (b.drop m ++ tail) := by
        rw [← List.append_assoc, ← whole]
      rw [longer, parse_of_line line, parsed]
      cases read : h₁.parseRest (b.drop m) with
      | mk h₂ rest =>
        obtain ⟨memory, result⟩ := rest
        cases result with
        | ok n =>
          obtain ⟨inside', same⟩ := parseRest_ok read tail
          rw [List.length_drop] at inside'
          have high : m + n ≤ b.length := by omega
          refine ⟨?_, ?_, ?_⟩
          · intro h' memory' n' read'
            cases read'
            rw [same, List.append_assoc]
            exact ⟨Nat.add_pos_left some_ n, high, rfl⟩
          · intro h' memory' err read'
            cases read'
          · intro h' memory' read'
            cases read'
        | error err =>
          obtain ⟨rfl, kept', same⟩ := parseRest_short read
          refine ⟨?_, ?_, ?_⟩
          · intro h' memory' n read'
            cases read'
          · intro h' memory' err read' other
            cases read'
            exact absurd rfl other
          · intro h' memory' read'
            cases read'
            rw [List.append_assoc, parsed, same]
            exact ⟨congrArg (fun disabled => ({ disableNormalizing := disabled } : RequestHeader))
              (kept'.trans kept), rfl⟩

/-- The theorem at a request whose head came in two parts: the name that was normalised after the first one is read
as the one that was sent. -/
theorem parse_incremental_put : ({} : RequestHeader).parse (ascii "PUT /a HTTP/1.1\r\nX-Y: 1\r\n" ++ ascii "\r\n") =
      ({} : RequestHeader).parse (ascii "PUT /a HTTP/1.1\r\nx-y: 1\r\n" ++ ascii "\r\n") := by
  have short : ({} : RequestHeader).parse (ascii "PUT /a HTTP/1.1\r\nx-y: 1\r\n") =
      ((({} : RequestHeader).parse (ascii "PUT /a HTTP/1.1\r\nx-y: 1\r\n")).1,
        ascii "PUT /a HTTP/1.1\r\nX-Y: 1\r\n", .error errNeedMore) := by decide
  exact ((parse_incremental {} _ _).2.2 _ _ short).2

end RequestHeader

end Strike.Http
