/-
**What the header parser does to the bytes it is shown.**

The unread bytes of a scanner have one of four shapes (`Shape`): they start with an empty line, with a
whole field, with a field whose line has not ended yet, or there is no colon in them. One equation
says what `next` does in each case. From them:

* `parseHeaders_memory`, `parse_memory`: parsing moves no byte and changes none but for the case of a
  letter (`Recased`), and the head it finds lies within the bytes.
-/

import Strike.Http.Header

namespace Strike.Http

/-! ### Names -/

/-- The same bytes but for the case of letters. -/
def Recased (b b' : Bytes) : Prop := b'.map toLower = b.map toLower

theorem Recased.length_eq {b b' : Bytes} (recased : Recased b b') : b'.length = b.length := by
  rw [← List.length_map toLower, recased, List.length_map]

theorem Recased.append {b b' c c' : Bytes} (first : Recased b b') (second : Recased c c') :
    Recased (b ++ c) (b' ++ c') := by
  unfold Recased at *
  rw [List.map_append, List.map_append, first, second]

theorem recased_normalizeTail (b : Bytes) : Recased b (normalizeTail b) := by
  unfold Recased
  fun_induction normalizeTail b with
  | case1 => rfl
  | case2 => rfl
  | case3 c other => rw [List.map_singleton, List.map_singleton, toLower_toLower]
  | case4 d rest ih => rw [List.map_cons, List.map_cons, toLower_toUpper, ih, List.map_cons, List.map_cons]
  | case5 c d rest other ih =>
    rw [List.map_cons, toLower_toLower, ih]
    rfl

/-- **Normalising a name** changes the case of letters only. -/
theorem recased_normalizeHeaderKey (b : Bytes) (disabled : Bool) : Recased b (normalizeHeaderKey b disabled) := by
  unfold normalizeHeaderKey
  split
  · rfl
  · cases b with
    | nil => rfl
    | cons c rest =>
      unfold Recased
      rw [List.map_cons, toLower_toUpper, recased_normalizeTail, List.map_cons]

/-! ### The shapes -/

/-- The end of the header fields. -/
def IsEmptyLine (eol : Bytes) : Prop := eol = [cr, lf] ∨ eol = [lf]

/-- The bytes do not start with an empty line. -/
def Starts (b : Bytes) : Prop := hasPrefix b [cr, lf] = false ∧ hasPrefix b [lf] = false

/-- The value of a field whose line has `raw` behind the colon. -/
def fieldValue (raw : Bytes) : Bytes := (stripCR (raw.dropWhile (· = space))).rdropWhile (· = space)

/-- What the unread bytes of a scanner can look like. -/
inductive Shape : Bytes → Prop
  | ends {eol : Bytes} (empty : IsEmptyLine eol) (rest : Bytes) : Shape (eol ++ rest)
  | field {name raw : Bytes} (starts : Starts name) (noColon : colon ∉ name) (noEnd : lf ∉ raw)
      (rest : Bytes) : Shape (name ++ colon :: (raw ++ lf :: rest))
  | open_ {name raw : Bytes} (starts : Starts name) (noColon : colon ∉ name) (noEnd : lf ∉ raw) :
      Shape (name ++ colon :: raw)
  | bare {b : Bytes} (starts : Starts b) (noColon : colon ∉ b) : Shape b

theorem starts_append {name : Bytes} (behind : Bytes) : Starts (name ++ colon :: behind) ↔ Starts name := by
  unfold Starts hasPrefix
  match name with
  | [] => simp [List.isPrefixOf, cr, lf, colon]
  | [c] => simp [List.isPrefixOf, cr, lf, colon]
  | c :: d :: rest => simp [List.isPrefixOf]

theorem shape (b : Bytes) : Shape b := by
  by_cases windows : hasPrefix b [cr, lf]
  · obtain ⟨rest, rfl⟩ := List.isPrefixOf_iff_prefix.mp windows
    exact .ends (.inl rfl) rest
  by_cases unix : hasPrefix b [lf]
  · obtain ⟨rest, rfl⟩ := List.isPrefixOf_iff_prefix.mp unix
    exact .ends (.inr rfl) rest
  have starts : Starts b := ⟨Bool.eq_false_iff.mpr windows, Bool.eq_false_iff.mpr unix⟩
  cases found : indexByte b colon with
  | none => exact .bare starts (indexByte_eq_none.mp found)
  | some n =>
    obtain ⟨name, behind, rfl, noColon, -⟩ := indexByte_split found
    rw [starts_append] at starts
    cases line : indexByte behind lf with
    | none => exact .open_ starts noColon (indexByte_eq_none.mp line)
    | some m =>
      obtain ⟨raw, rest, rfl, noEnd, -⟩ := indexByte_split line
      exact .field starts noColon noEnd rest

namespace HeaderScanner

variable (s : HeaderScanner)

/-- The scanner in front of other bytes. -/
def at_ (passed b : Bytes) : HeaderScanner := { s with passed := passed, b := b }

theorem next_ends {eol : Bytes} (empty : IsEmptyLine eol) (passed rest : Bytes) :
    (s.at_ passed (eol ++ rest)).next = (s.at_ (passed ++ eol) rest, false) := by
  rcases empty with rfl | rfl
  · have here : hasPrefix ([cr, lf] ++ rest) [cr, lf] = true :=
      List.isPrefixOf_iff_prefix.mpr ⟨rest, rfl⟩
    rw [next, at_, if_pos here]
    rfl
  · have other : ¬ hasPrefix ([lf] ++ rest) [cr, lf] = true := by simp [hasPrefix, List.isPrefixOf, cr, lf]
    have here : hasPrefix ([lf] ++ rest) [lf] = true := List.isPrefixOf_iff_prefix.mpr ⟨rest, rfl⟩
    rw [next, at_, if_neg other, if_pos here]
    rfl

theorem next_bare {b : Bytes} (starts : Starts b) (noColon : colon ∉ b) (passed : Bytes) :
    (s.at_ passed b).next = ({ s.at_ passed b with err := some errNeedMore }, false) := by
  rw [next, at_, if_neg (Bool.eq_false_iff.mp starts.1), if_neg (Bool.eq_false_iff.mp starts.2)]
  simp only [indexByte_eq_none.mpr noColon]

theorem next_named {name : Bytes} (starts : Starts name) (noColon : colon ∉ name) (passed behind : Bytes) :
    (s.at_ passed (name ++ colon :: behind)).next =
      let key := normalizeHeaderKey name s.disableNormalizing
      let passed := passed ++ key ++ [colon] ++ behind.takeWhile (· = space)
      let b := behind.dropWhile (· = space)
      match indexByte b lf with
      | none => ({ s.at_ passed b with key := key, err := some errNeedMore }, false)
      | some m =>
        ({ s.at_ (passed ++ b.take (m + 1)) (b.drop (m + 1)) with
            key := key
            value := (stripCR (b.take m)).rdropWhile (· = space) }, true) := by
  have behindName : (name ++ colon :: behind).drop (name.length + 1) = behind := by
    rw [← List.drop_drop, List.drop_left, List.drop_succ_cons, List.drop_zero]
  have starts := (starts_append behind).mpr starts
  rw [next, at_, if_neg (Bool.eq_false_iff.mp starts.1), if_neg (Bool.eq_false_iff.mp starts.2)]
  cases found : indexByte (behind.dropWhile (· = space)) lf with
  | none => simp only [at_, indexByte_append noColon, List.take_left, behindName, found]
  | some m => simp only [at_, indexByte_append noColon, List.take_left, behindName, found]

theorem next_open {name raw : Bytes} (starts : Starts name) (noColon : colon ∉ name)
    (noEnd : lf ∉ raw) (passed : Bytes) :
    (s.at_ passed (name ++ colon :: raw)).next =
      ({ s.at_ (passed ++ normalizeHeaderKey name s.disableNormalizing ++ [colon]
            ++ raw.takeWhile (· = space)) (raw.dropWhile (· = space)) with
          key := normalizeHeaderKey name s.disableNormalizing
          err := some errNeedMore }, false) := by
  have noEnd' : lf ∉ raw.dropWhile (· = space) := fun there =>
    noEnd ((List.dropWhile_suffix _).subset there)
  rw [next_named s starts noColon]
  simp only [indexByte_eq_none.mpr noEnd']

theorem skip_spaces {stop : UInt8} (other : stop ≠ space) (raw rest : Bytes) :
    (raw ++ stop :: rest).takeWhile (· = space) = raw.takeWhile (· = space) ∧
      (raw ++ stop :: rest).dropWhile (· = space) = raw.dropWhile (· = space) ++ stop :: rest := by
  induction raw with
  | nil =>
    rw [List.nil_append, List.takeWhile_cons_of_neg (by simpa using other),
      List.dropWhile_cons_of_neg (by simpa using other)]
    exact ⟨rfl, rfl⟩
  | cons c raw ih =>
    by_cases blank : c = space
    · rw [List.cons_append, List.takeWhile_cons_of_pos (by simpa using blank),
        List.takeWhile_cons_of_pos (by simpa using blank),
        List.dropWhile_cons_of_pos (by simpa using blank),
        List.dropWhile_cons_of_pos (by simpa using blank), ih.1, ih.2]
      exact ⟨rfl, rfl⟩
    · rw [List.cons_append, List.takeWhile_cons_of_neg (by simpa using blank),
        List.takeWhile_cons_of_neg (by simpa using blank),
        List.dropWhile_cons_of_neg (by simpa using blank),
        List.dropWhile_cons_of_neg (by simpa using blank)]
      exact ⟨rfl, rfl⟩

theorem next_field {name raw : Bytes} (starts : Starts name) (noColon : colon ∉ name)
    (noEnd : lf ∉ raw) (passed rest : Bytes) :
    (s.at_ passed (name ++ colon :: (raw ++ lf :: rest))).next =
      ({ s.at_ (passed ++ (normalizeHeaderKey name s.disableNormalizing ++ colon :: (raw ++ [lf]))) rest with
          key := normalizeHeaderKey name s.disableNormalizing
          value := fieldValue raw }, true) := by
  have noEnd' : lf ∉ raw.dropWhile (· = space) := fun there =>
    noEnd ((List.dropWhile_suffix _).subset there)
  have line : (raw.dropWhile (· = space) ++ lf :: rest).take ((raw.dropWhile (· = space)).length + 1)
      = raw.dropWhile (· = space) ++ [lf] := by
    rw [List.append_cons]
    exact List.take_left' (List.length_append ..)
  have left : (raw.dropWhile (· = space) ++ lf :: rest).drop ((raw.dropWhile (· = space)).length + 1)
      = rest := by
    rw [← List.drop_drop, List.drop_left, List.drop_succ_cons, List.drop_zero]
  have whole : passed ++ normalizeHeaderKey name s.disableNormalizing ++ [colon]
        ++ raw.takeWhile (· = space) ++ (raw.dropWhile (· = space) ++ [lf])
      = passed ++ (normalizeHeaderKey name s.disableNormalizing ++ colon :: (raw ++ [lf])) := by
    rw [List.append_assoc _ (raw.takeWhile _), ← List.append_assoc (raw.takeWhile _),
      List.takeWhile_append_dropWhile, List.append_assoc, List.append_assoc]
    rfl
  have notBlank : lf ≠ space := by decide
  rw [next_named s starts noColon, (skip_spaces notBlank raw rest).1,
    (skip_spaces notBlank raw rest).2]
  simp only [indexByte_append noEnd', line, left, whole, List.take_left]
  rfl

/-- **A step of the scanner changes the case of letters only.** -/
theorem next_recased (passed b : Bytes) : Recased (s.at_ passed b).memory (s.at_ passed b).next.1.memory := by
  cases shape b with
  | ends empty rest =>
    rw [next_ends s empty]
    show Recased (passed ++ (_ ++ rest)) (passed ++ _ ++ rest)
    rw [List.append_assoc]
    rfl
  | @field name raw starts noColon noEnd rest =>
    rw [next_field s starts noColon noEnd]
    show Recased (passed ++ (name ++ colon :: (raw ++ lf :: rest))) (passed ++ (_ ++ colon :: (raw ++ [lf])) ++ rest)
    rw [List.append_assoc, List.append_assoc, List.cons_append, List.append_assoc]
    exact .append rfl (.append (recased_normalizeHeaderKey _ _) rfl)
  | @open_ name raw starts noColon noEnd =>
    rw [next_open s starts noColon noEnd]
    show Recased (passed ++ (name ++ colon :: raw))
      (passed ++ _ ++ [colon] ++ raw.takeWhile (· = space) ++ raw.dropWhile (· = space))
    rw [List.append_assoc, List.takeWhile_append_dropWhile, List.append_assoc, List.append_assoc]
    exact .append rfl (.append (recased_normalizeHeaderKey _ _) rfl)
  | bare starts noColon =>
    rw [next_bare s starts noColon]
    rfl

end HeaderScanner

namespace RequestHeader

/-- **What a field can change**: the host, if it is one, the values kept apart, and the stored fields, to which it is
added or under which the encoding is set. -/
theorem addField_eq (h : RequestHeader) (key value : Bytes) :
    ∃ userAgent contentType contentLength contentLengthBytes connectionClose stored,
      h.addField key value = { h with
        host := if key = strHost then value else h.host
        userAgent, contentType, contentLength, contentLengthBytes, connectionClose, h := stored } ∧
      (stored = h.h ∨ stored = setArg h.h strTransferEncoding strChunked ∨
        key ≠ strHost ∧ stored = appendArg h.h key value) := by
  unfold addField
  by_cases isHost : key = strHost
  · rw [if_pos isHost, if_pos isHost]
    exact ⟨_, _, _, _, _, _, rfl, .inl rfl⟩
  rw [if_neg isHost, if_neg isHost]
  by_cases isAgent : key = strUserAgent
  · rw [if_pos isAgent]
    exact ⟨_, _, _, _, _, _, rfl, .inl rfl⟩
  rw [if_neg isAgent]
  by_cases isType : key = strContentType
  · rw [if_pos isType]
    exact ⟨_, _, _, _, _, _, rfl, .inl rfl⟩
  rw [if_neg isType]
  by_cases isLength : key = strContentLength
  · rw [if_pos isLength]
    by_cases notChunked : h.contentLength ≠ -1
    · rw [if_pos notChunked]
      cases parseContentLength value with
      | error _ => exact ⟨_, _, _, _, _, _, rfl, .inl rfl⟩
      | ok n => exact ⟨_, _, _, _, _, _, rfl, .inl rfl⟩
    · rw [if_neg notChunked]
      exact ⟨_, _, _, _, _, _, rfl, .inl rfl⟩
  rw [if_neg isLength]
  by_cases isEncoding : key = strTransferEncoding
  · rw [if_pos isEncoding]
    by_cases encoded : value ≠ strIdentity
    · rw [if_pos encoded]
      exact ⟨_, _, _, _, _, _, rfl, .inr (.inl rfl)⟩
    · rw [if_neg encoded]
      exact ⟨_, _, _, _, _, _, rfl, .inl rfl⟩
  rw [if_neg isEncoding]
  by_cases isConnection : key = strConnection
  · rw [if_pos isConnection]
    by_cases closes : value = strClose
    · rw [if_pos closes]
      exact ⟨_, _, _, _, _, _, rfl, .inl rfl⟩
    · rw [if_neg closes]
      exact ⟨_, _, _, _, _, _, rfl, .inr (.inr ⟨isHost, rfl⟩)⟩
  · rw [if_neg isConnection]
    exact ⟨_, _, _, _, _, _, rfl, .inr (.inr ⟨isHost, rfl⟩)⟩

/-- **What comes behind the loop** settles the length and the connection, and changes nothing else. -/
theorem finish_eq (h : RequestHeader) : ∃ contentLength contentLengthBytes connectionClose,
    h.finish = { h with contentLength, contentLengthBytes, connectionClose } := by
  unfold finish
  dsimp only
  split_ifs <;> exact ⟨_, _, _, rfl⟩

theorem addField_disableNormalizing (h : RequestHeader) (key value : Bytes) :
    (h.addField key value).disableNormalizing = h.disableNormalizing := by
  obtain ⟨_, _, _, _, _, _, same, -⟩ := h.addField_eq key value
  rw [same]

theorem headerLoop_stop {s s' : HeaderScanner} (stops : s.next = (s', false)) (fuel : Nat) (h : RequestHeader) :
    headerLoop (fuel + 1) s h = (s', h) := by
  rw [headerLoop, stops]

/-- **What every field keeps, the loop keeps.** -/
theorem headerLoop_keeps {P : RequestHeader → Prop} (step : ∀ h key value, P h → P (h.addField key value))
    (fuel : Nat) : ∀ (s : HeaderScanner) {h : RequestHeader}, P h → P (headerLoop fuel s h).2 := by
  induction fuel with
  | zero => exact fun s h holds => holds
  | succ fuel ih =>
    intro s h holds
    unfold headerLoop
    split
    · exact ih _ (step h _ _ holds)
    · exact holds

theorem headerLoop_recased (fuel : Nat) :
    ∀ (s : HeaderScanner) (h : RequestHeader), Recased s.memory (headerLoop fuel s h).1.memory := by
  induction fuel with
  | zero => exact fun s h => rfl
  | succ fuel ih =>
    intro s h
    have first : Recased s.memory s.next.1.memory := s.next_recased s.passed s.b
    unfold headerLoop
    cases stepped : s.next with
    | mk s' more =>
      rw [stepped] at first
      cases more with
      | false => exact first
      | true => exact (ih s' (h.addField s'.key s'.value)).trans first

/-- **The header parser only recases**, and the fields it finds lie within the bytes. -/
theorem parseHeaders_memory {h h' : RequestHeader} {buf memory : Bytes} {result : Except Error Nat}
    (parsed : h.parseHeaders buf = (h', memory, result)) :
    Recased buf memory ∧ ∀ n, result = .ok n → n ≤ buf.length := by
  have scans := headerLoop_recased (buf.length + 1)
    { b := buf, disableNormalizing := h.disableNormalizing } { h with contentLength := -2 }
  unfold parseHeaders at parsed
  generalize headerLoop _ _ _ = scanned at parsed scans
  simp only [endHeaders] at parsed
  split at parsed
  · cases parsed
    exact ⟨scans, fun n ok => nomatch ok⟩
  · cases parsed
    refine ⟨scans, fun n ok => ?_⟩
    cases ok
    exact Nat.sub_le _ _

theorem rawHeadersEnd_spec (fuel : Nat) : ∀ {b : Bytes} {n total : Nat}, rawHeadersEnd fuel b n = some total →
      ∃ front back, b = front ++ lf :: back ∧ total = n + (front.length + 1) := by
  induction fuel with
  | zero => exact fun found => nomatch found
  | succ fuel ih =>
    intro b n total found
    unfold rawHeadersEnd at found
    cases line : indexByte b lf with
    | none =>
      rw [line] at found
      cases found
    | some m =>
      obtain ⟨front, back, rfl, -, rfl⟩ := indexByte_split line
      rw [line] at found
      simp only at found
      split at found
      · cases found
        exact ⟨front, back, rfl, rfl⟩
      · rw [← List.drop_drop, List.drop_left, List.drop_succ_cons, List.drop_zero] at found
        obtain ⟨front', back', rfl, rfl⟩ := ih found
        refine ⟨front ++ lf :: front', back', ?_, ?_⟩
        · rw [List.append_assoc, List.cons_append]
        · rw [List.length_append, List.length_cons]
          omega

theorem readRawHeaders_spec {buf rawHeaders : Bytes} {n : Nat} (read : readRawHeaders buf = .ok (rawHeaders, n)) :
    n ≤ buf.length ∧ (rawHeaders = [] ∨ rawHeaders.getLast? = some lf) := by
  unfold readRawHeaders at read
  cases line : indexByte buf lf with
  | none =>
    rw [line] at read
    cases read
  | some m =>
    obtain ⟨front, back, rfl, -, rfl⟩ := indexByte_split line
    rw [line] at read
    simp only at read
    split at read
    · cases read
      refine ⟨?_, .inl rfl⟩
      rw [List.length_append, List.length_cons]
      omega
    · split at read
      · cases read
      · next total found =>
          cases read
          rw [← List.drop_drop, List.drop_left, List.drop_succ_cons, List.drop_zero] at found
          obtain ⟨front', back', rfl, rfl⟩ := rawHeadersEnd_spec _ found
          have whole : front ++ lf :: (front' ++ lf :: back')
              = (front ++ lf :: front' ++ [lf]) ++ back' := by
            simp only [List.append_assoc, List.cons_append, List.nil_append]
          have size : (front ++ lf :: front' ++ [lf]).length
              = front.length + 1 + (front'.length + 1) := by
            simp only [List.length_append, List.length_cons, List.length_nil]
            omega
          rw [whole, ← size, List.take_left]
          exact ⟨(List.prefix_append _ _).length_le, .inr List.getLast?_concat⟩

theorem parseURI_size {h h' : RequestHeader} {buf b : Bytes} {size m : Nat}
    (parsed : h.parseURI buf b size = (h', .ok m)) : m = size := by
  unfold parseURI at parsed
  split at parsed <;> cases parsed <;> rfl

theorem parseFirstLine_le {h h' : RequestHeader} {buf : Bytes} {m : Nat}
    (parsed : h.parseFirstLine buf = (h', .ok m)) : m ≤ buf.length := by
  unfold parseFirstLine at parsed
  split at parsed
  · cases parsed
  · split at parsed
    · cases parsed
    · cases parsed
    · rw [parseURI_size parsed]
      exact Nat.sub_le _ _

/-- **`Parse` only recases**, and the head it finds lies within the bytes. -/
theorem parse_memory {h h' : RequestHeader} {buf memory : Bytes} {result : Except Error Nat}
    (parsed : h.parse buf = (h', memory, result)) :
    Recased buf memory ∧ ∀ k, result = .ok k → k ≤ buf.length := by
  unfold parse at parsed
  cases line : h.parseFirstLine buf with
  | mk h₁ first =>
    cases first with
    | error err =>
      rw [line] at parsed
      cases parsed
      exact ⟨rfl, fun k ok => nomatch ok⟩
    | ok m =>
      have low := parseFirstLine_le line
      rw [line] at parsed
      simp only at parsed
      split at parsed
      · cases fields : h₁.parseHeaders (buf.drop m) with
        | mk h₂ rest =>
          obtain ⟨written, result'⟩ := rest
          obtain ⟨recased, inside⟩ := parseHeaders_memory fields
          have whole : Recased buf (buf.take m ++ written) := by
            have parts : Recased (buf.take m ++ buf.drop m) (buf.take m ++ written) := .append rfl recased
            rwa [List.take_append_drop] at parts
          rw [List.length_drop] at inside
          rw [fields] at parsed
          cases result' with
          | error err =>
            cases parsed
            exact ⟨whole, fun k ok => nomatch ok⟩
          | ok n =>
            have := inside n rfl
            cases parsed
            refine ⟨whole, fun k ok => ?_⟩
            cases ok
            omega
      · cases raw : readRawHeaders (buf.drop m) with
        | error err =>
          rw [raw] at parsed
          cases parsed
          exact ⟨rfl, fun k ok => nomatch ok⟩
        | ok found =>
          have bound := (readRawHeaders_spec raw).1
          rw [List.length_drop] at bound
          rw [raw] at parsed
          cases parsed
          refine ⟨rfl, fun k ok => ?_⟩
          cases ok
          omega

end RequestHeader

end Strike.Http
