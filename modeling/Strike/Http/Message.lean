/-
**Well-formed heads, and how far `Parse` gets with them.**

A `Head` is a request line of HTTP/1.1 with header fields; `Head.bytes` is what a client sends. Reading
it normalises the names of its fields where they lie, so a parse that breaks off leaves the front of
another head, whose fields have the same keys and values (`Head.Same`).

* `Head.parse_whole`: in front of any bytes, a whole head is read as it was written (`Head.header`).
* `Head.parse_short`: a proper front of a head is not enough, and what is left of it in memory goes on
  to a same head.
-/

import Strike.Http.Scanning

namespace Strike.Http

/-! ### Names and values -/

theorem Recased.not_mem {b b' : Bytes} (recased : Recased b b') {d : UInt8}
    (other : ¬ (97 ≤ d ∧ d ≤ 122)) (fixed : toLower d = d) (absent : d ∉ b) : d ∉ b' := by
  intro there
  have lowered : d ∈ b.map toLower := by
    rw [← recased, ← fixed]
    exact List.mem_map_of_mem there
  obtain ⟨c, there', low⟩ := List.mem_map.mp lowered
  exact absent (eq_of_toLower other low ▸ there')

theorem normalizeTail_cons {c : UInt8} (other : c ≠ 45) (rest : Bytes) :
    normalizeTail (c :: rest) = toLower c :: normalizeTail rest := by
  cases rest with
  | nil => exact if_neg other
  | cons d rest => rw [normalizeTail, if_neg other]

theorem normalizeTail_idem (b : Bytes) : normalizeTail (normalizeTail b) = normalizeTail b := by
  fun_induction normalizeTail b with
  | case1 => rfl
  | case2 => rfl
  | case3 c other =>
    have other' : toLower c ≠ 45 := fun low => other (eq_of_toLower (by decide) low)
    rw [normalizeTail_cons other', toLower_toLower]
    rfl
  | case4 d rest ih => rw [normalizeTail, if_pos rfl, toUpper_toUpper, ih]
  | case5 c d rest other ih =>
    have other' : toLower c ≠ 45 := fun low => other (eq_of_toLower (by decide) low)
    rw [normalizeTail_cons other', toLower_toLower, ih]

/-- **Normalising a name twice** does nothing more. -/
theorem normalizeHeaderKey_idem (b : Bytes) :
    normalizeHeaderKey (normalizeHeaderKey b false) false = normalizeHeaderKey b false := by
  cases b with
  | nil => rfl
  | cons c rest =>
    show toUpper (toUpper c) :: normalizeTail (normalizeTail rest) = toUpper c :: normalizeTail rest
    rw [toUpper_toUpper, normalizeTail_idem]

theorem fieldValue_line (text : Bytes) : fieldValue (text ++ [cr]) = stripSpace text := by
  unfold fieldValue stripSpace stripCR
  rw [(HeaderScanner.skip_spaces (show cr ≠ space by decide) text []).2, List.getLast?_concat, if_pos rfl,
    List.dropLast_concat]

/-! ### Fields -/

/-- A header field; `text` is what its line has behind the colon. -/
structure Field where
  name : Bytes
  text : Bytes
  noColon : colon ∉ name
  oneLine : lf ∉ name ∧ lf ∉ text

namespace Field

/-- The field on the wire. -/
def line (f : Field) : Bytes := f.name ++ colon :: (f.text ++ [cr, lf])

/-- The name whatever the case of its letters. -/
def key (f : Field) : Bytes := normalizeHeaderKey f.name false

/-- The text without the spaces around it. -/
def value (f : Field) : Bytes := stripSpace f.text

/-- The field under its normalised name. -/
def normal (f : Field) : Field where
  name := f.key
  text := f.text
  noColon := (recased_normalizeHeaderKey _ _).not_mem (by decide) (by decide) f.noColon
  oneLine := ⟨(recased_normalizeHeaderKey _ _).not_mem (by decide) (by decide) f.oneLine.1, f.oneLine.2⟩

/-- The field, or the field under its normalised name. -/
def Same (f f' : Field) : Prop := f' = f ∨ f' = f.normal

theorem normal_normal (f : Field) : f.normal.normal = f.normal := by
  have same : f.normal.normal.name = f.normal.name := normalizeHeaderKey_idem f.name
  unfold normal at same ⊢
  simp only at same
  simp only [same]

theorem Same.trans {f f' f'' : Field} (first : Same f f') (second : Same f' f'') : Same f f'' := by
  rcases first with rfl | rfl
  · exact second
  · rcases second with rfl | rfl
    · exact .inr rfl
    · exact .inr f.normal_normal

theorem Same.key_eq {f f' : Field} (same : Same f f') : f'.key = f.key := by
  rcases same with rfl | rfl
  · rfl
  · exact normalizeHeaderKey_idem f.name

theorem Same.value_eq {f f' : Field} (same : Same f f') : f'.value = f.value := by
  rcases same with rfl | rfl <;> rfl

theorem Same.length_line {f f' : Field} (same : Same f f') : f'.line.length = f.line.length := by
  rcases same with rfl | rfl
  · rfl
  · simp only [line, normal, List.length_append, (recased_normalizeHeaderKey f.name false).length_eq, key]

theorem starts_of_oneLine {name : Bytes} (oneLine : lf ∉ name) : Starts name := by
  refine ⟨Bool.eq_false_iff.mpr fun windows => ?_, Bool.eq_false_iff.mpr fun unix => ?_⟩
  · obtain ⟨rest, rfl⟩ := List.isPrefixOf_iff_prefix.mp windows
    exact oneLine (List.mem_cons_of_mem _ List.mem_cons_self)
  · obtain ⟨rest, rfl⟩ := List.isPrefixOf_iff_prefix.mp unix
    exact oneLine List.mem_cons_self

/-- The line of a field, up to its line feed. -/
theorem line_eq (f : Field) (rest : Bytes) :
    f.line ++ rest = f.name ++ colon :: ((f.text ++ [cr]) ++ lf :: rest) := by
  simp only [line, List.append_assoc, List.cons_append, List.nil_append]

theorem text_oneLine (f : Field) : lf ∉ f.text ++ [cr] := by
  rw [List.mem_append, List.mem_singleton]
  exact not_or.mpr ⟨f.oneLine.2, by decide⟩

/-- **A proper front of the line of a field** has no colon, or it is open behind one. -/
theorem line_split {f : Field} {part rest : Bytes} (whole : part ++ rest = f.line) (more : rest ≠ []) :
    (lf ∉ part ∧ colon ∉ part) ∨ ∃ raw, part = f.name ++ colon :: raw ∧ lf ∉ raw ∧
      raw ++ rest = f.text ++ [cr, lf] := by
  rcases List.append_eq_append_iff.mp whole with ⟨behind, named, -⟩ | ⟨raw, rfl, opened⟩
  · refine .inl ⟨fun there => f.oneLine.1 ?_, fun there => f.noColon ?_⟩
    · rw [named]
      exact List.mem_append_left _ there
    · rw [named]
      exact List.mem_append_left _ there
  · cases raw with
    | nil =>
      rw [List.append_nil]
      exact .inl ⟨f.oneLine.1, f.noColon⟩
    | cons c raw =>
      rw [List.cons_append] at opened
      obtain ⟨rfl, behind⟩ := List.cons.inj opened
      refine .inr ⟨raw, rfl, fun there => ?_, behind.symm⟩
      -- The line feed is the last byte of the line, and that is not in the front.
      have ends : raw ++ rest.dropLast = f.text ++ [cr] := by
        rw [← List.dropLast_append_of_ne_nil more, ← behind, List.append_cons, List.dropLast_concat]
      refine f.text_oneLine ?_
      rw [← ends]
      exact List.mem_append_left _ there

theorem not_mem_short {f : Field} {part rest : Bytes} (whole : part ++ rest = f.line) (more : rest ≠ []) :
    lf ∉ part := by
  rcases line_split whole more with ⟨oneLine, -⟩ | ⟨raw, rfl, oneLine, -⟩
  · exact oneLine
  · rw [List.mem_append, List.mem_cons]
    exact not_or.mpr ⟨f.oneLine.1, not_or.mpr ⟨by decide, oneLine⟩⟩

end Field

/-- The lines of some fields. -/
def linesOf (fields : List Field) : Bytes := fields.flatMap Field.line

theorem linesOf_cons (f : Field) (fields : List Field) : linesOf (f :: fields) = f.line ++ linesOf fields :=
  List.flatMap_cons

theorem length_le_linesOf (fields : List Field) : fields.length ≤ (linesOf fields).length := by
  induction fields with
  | nil => exact Nat.zero_le _
  | cons f fields ih =>
    rw [linesOf_cons, List.length_append, List.length_cons]
    have : 0 < f.line.length := by
      rw [Field.line, List.length_append, List.length_cons]
      omega
    omega

theorem length_linesOf {fields fields' : List Field} (same : List.Forall₂ Field.Same fields fields') :
    (linesOf fields').length = (linesOf fields).length := by
  induction same with
  | nil => rfl
  | cons first rest ih =>
    rw [linesOf_cons, linesOf_cons, List.length_append, List.length_append, ih, first.length_line]

theorem same_refl (fields : List Field) : List.Forall₂ Field.Same fields fields :=
  List.forall₂_same.mpr fun _ _ => .inl rfl

theorem same_trans {fields fields' fields'' : List Field} (first : List.Forall₂ Field.Same fields fields')
    (second : List.Forall₂ Field.Same fields' fields'') : List.Forall₂ Field.Same fields fields'' := by
  induction first generalizing fields'' with
  | nil => exact second
  | cons here _ ih =>
    cases second with
    | cons there later => exact .cons (here.trans there) (ih later)

theorem same_normal (fields : List Field) : List.Forall₂ Field.Same fields (fields.map Field.normal) := by
  rw [List.forall₂_map_right_iff]
  exact List.forall₂_same.mpr fun _ _ => .inr rfl

/-! ### Scanning fields -/

/-- What `parseHeaders` collects from some fields. -/
def RequestHeader.addFields (h : RequestHeader) (fields : List Field) : RequestHeader :=
  fields.foldl (fun h f => h.addField f.key f.value) h

theorem RequestHeader.addFields_same {fields fields' : List Field} (same : List.Forall₂ Field.Same fields fields') :
    ∀ h : RequestHeader, h.addFields fields' = h.addFields fields := by
  induction same with
  | nil => exact fun h => rfl
  | @cons f f' _ _ first rest ih =>
    intro h
    show (h.addField f'.key f'.value).addFields _ = (h.addField f.key f.value).addFields _
    rw [first.key_eq, first.value_eq, ih]

section Scan

theorem headerLoop_field {s : HeaderScanner} (normalizes : s.disableNormalizing = false) (h : RequestHeader)
    (fuel : Nat) (f : Field) (passed rest : Bytes) :
    RequestHeader.headerLoop (fuel + 1) (s.at_ passed (f.line ++ rest)) h =
      RequestHeader.headerLoop fuel
        ({ s with key := f.key, value := f.value }.at_ (passed ++ f.normal.line) rest)
        (h.addField f.key f.value) := by
  have written : f.normal.line = f.key ++ colon :: ((f.text ++ [cr]) ++ [lf]) := by
    rw [List.append_assoc]
    rfl
  rw [RequestHeader.headerLoop, f.line_eq, HeaderScanner.next_field s (Field.starts_of_oneLine f.oneLine.1)
    f.noColon f.text_oneLine, fieldValue_line, written, Field.key, ← normalizes]
  rfl

/-- **A whole header is scanned to its end.** By induction on the fields. -/
theorem headerLoop_whole (fields : List Field) (tail : Bytes) :
    ∀ (fuel : Nat) {s : HeaderScanner} (h : RequestHeader) (passed : Bytes), s.disableNormalizing = false →
      fields.length < fuel → ∃ s' : HeaderScanner, s'.err = s.err ∧
        RequestHeader.headerLoop fuel (s.at_ passed (linesOf fields ++ ([cr, lf] ++ tail))) h =
          (s'.at_ (passed ++ linesOf (fields.map Field.normal) ++ [cr, lf]) tail, h.addFields fields) := by
  induction fields with
  | nil =>
    intro fuel s h passed _ enough
    obtain ⟨fuel, rfl⟩ : ∃ less, fuel = less + 1 := ⟨fuel - 1, by omega⟩
    refine ⟨s, rfl, ?_⟩
    refine (RequestHeader.headerLoop_stop (HeaderScanner.next_ends s (.inl rfl) passed tail) fuel h).trans ?_
    simp only [List.map_nil, linesOf, List.flatMap_nil, List.append_nil]
    rfl
  | cons f fields ih =>
    intro fuel s h passed normalizes enough
    rw [List.length_cons] at enough
    obtain ⟨fuel, rfl⟩ : ∃ less, fuel = less + 1 := ⟨fuel - 1, by omega⟩
    obtain ⟨s', same, scanned⟩ := ih fuel (s := { s with key := f.key, value := f.value })
      (h.addField f.key f.value) (passed ++ f.normal.line) normalizes (by omega)
    refine ⟨s', same, ?_⟩
    rw [linesOf_cons, List.append_assoc, headerLoop_field normalizes, scanned, List.map_cons, linesOf_cons,
      List.append_assoc passed]
    rfl

/-- The front of a string that starts with `line` lies within it or goes on behind it. -/
theorem front_split {part rest line later : Bytes} (whole : part ++ rest = line ++ later) :
    (∃ behind, part ++ behind = line ∧ behind ≠ [] ∧ rest = behind ++ later) ∨
      ∃ part', part = line ++ part' ∧ part' ++ rest = later := by
  rcases List.append_eq_append_iff.mp whole with ⟨behind, rfl, rfl⟩ | ⟨part, rfl, rfl⟩
  · by_cases done : behind = []
    · subst done
      exact .inr ⟨[], by rw [List.append_nil, List.append_nil], rfl⟩
    · exact .inl ⟨behind, rfl, done, rfl⟩
  · exact .inr ⟨part, rfl, rfl⟩

/-- A scanner in front of less than a line stops there, and its memory goes on to a same line. -/
theorem next_short {s : HeaderScanner} (normalizes : s.disableNormalizing = false) {f : Field}
    {part rest : Bytes} (whole : part ++ rest = f.line) (more : rest ≠ []) (passed : Bytes) :
    ∃ s' f', (s.at_ passed part).next = (s', false) ∧ s'.err = some errNeedMore ∧ Field.Same f f' ∧
      s'.memory ++ rest = passed ++ f'.line := by
  rcases Field.line_split whole more with ⟨oneLine, noColon⟩ | ⟨raw, rfl, oneLine, behind⟩
  · refine ⟨_, f, HeaderScanner.next_bare s (Field.starts_of_oneLine oneLine) noColon passed, rfl, .inl rfl, ?_⟩
    rw [← whole, ← List.append_assoc]
    rfl
  · refine ⟨_, f.normal, HeaderScanner.next_open s (Field.starts_of_oneLine f.oneLine.1) f.noColon oneLine passed,
      rfl, .inr rfl, ?_⟩
    show passed ++ normalizeHeaderKey f.name s.disableNormalizing ++ [colon] ++ raw.takeWhile (· = space)
      ++ raw.dropWhile (· = space) ++ rest = passed ++ (f.key ++ colon :: (f.text ++ [cr, lf]))
    rw [List.append_assoc _ (raw.takeWhile _), List.takeWhile_append_dropWhile, normalizes, ← behind]
    simp only [List.append_assoc, List.cons_append, List.nil_append]
    rfl

/-- **Less than a header is not enough**, and what the scanner makes of it goes on to a same header. By
induction on the fields. -/
theorem headerLoop_short (fields : List Field) :
    ∀ (fuel : Nat) {s : HeaderScanner} (h : RequestHeader) (passed : Bytes) {part rest : Bytes},
      s.disableNormalizing = false → part ++ rest = linesOf fields ++ [cr, lf] → rest ≠ [] →
      part.length < fuel → ∃ s' h' fields',
        RequestHeader.headerLoop fuel (s.at_ passed part) h = (s', h') ∧ s'.err = some errNeedMore ∧
          List.Forall₂ Field.Same fields fields' ∧
          s'.memory ++ rest = passed ++ (linesOf fields' ++ [cr, lf]) := by
  induction fields with
  | nil =>
    intro fuel s h passed part rest _ whole more enough
    obtain ⟨fuel, rfl⟩ : ∃ less, fuel = less + 1 := ⟨fuel - 1, by omega⟩
    have front : part = [] ∨ part = [cr] := by
      match part, whole with
      | [], _ => exact .inl rfl
      | [c], whole => exact .inr (congrArg (fun d => [d]) (List.cons.inj whole).1)
      | [c, d], whole => exact absurd (List.cons.inj (List.cons.inj whole).2).2 more
      | c :: d :: e :: part, whole => exact nomatch (List.cons.inj (List.cons.inj whole).2).2
    have oneLine : lf ∉ part ∧ colon ∉ part := by
      rcases front with rfl | rfl <;> decide
    refine ⟨{ s.at_ passed part with err := some errNeedMore }, h, [], ?_, rfl, .nil, ?_⟩
    · rw [RequestHeader.headerLoop,
        HeaderScanner.next_bare s (Field.starts_of_oneLine oneLine.1) oneLine.2 passed]
    · show passed ++ part ++ rest = _
      rw [List.append_assoc, whole]
  | cons f fields ih =>
    intro fuel s h passed part rest normalizes whole more enough
    obtain ⟨fuel, rfl⟩ : ∃ less, fuel = less + 1 := ⟨fuel - 1, by omega⟩
    rw [linesOf_cons, List.append_assoc] at whole
    rcases front_split whole with ⟨behind, line, more', rfl⟩ | ⟨part, rfl, later⟩
    · obtain ⟨s', f', stepped, err, same, memory⟩ := next_short (s := s) normalizes line more' passed
      refine ⟨s', h, f' :: fields, ?_, err, .cons same (same_refl fields), ?_⟩
      · rw [RequestHeader.headerLoop, stepped]
      · rw [← List.append_assoc, memory, linesOf_cons]
        simp only [List.append_assoc]
    · obtain ⟨s', h', fields', scanned, err, same, memory⟩ :=
        ih fuel (s := { s with key := f.key, value := f.value }) (h.addField f.key f.value)
          (passed ++ f.normal.line) normalizes later more (by
            rw [List.length_append, Field.line, List.length_append, List.length_cons] at enough
            omega)
      refine ⟨s', h', f.normal :: fields', ?_, err, .cons (.inr rfl) same, ?_⟩
      · rw [← scanned, ← headerLoop_field normalizes]
      · rw [linesOf_cons, List.append_assoc, ← List.append_assoc passed]
        exact memory

end Scan

/-! ### Keeping fields -/

section Keep

/-- The first line feed of a line is its end. -/
theorem Field.indexByte_line (f : Field) (rest : Bytes) :
    ∃ m, 1 < m ∧ m + 1 = f.line.length ∧ indexByte (f.line ++ rest) lf = some m := by
  have before : lf ∉ f.name ++ colon :: (f.text ++ [cr]) := by
    simp only [List.mem_append, List.mem_cons, not_or]
    refine ⟨f.oneLine.1, by decide, f.oneLine.2, by decide, List.not_mem_nil⟩
  have front : f.line ++ rest = (f.name ++ colon :: (f.text ++ [cr])) ++ lf :: rest := by
    rw [f.line_eq, List.append_assoc f.name, List.cons_append]
  refine ⟨(f.name ++ colon :: (f.text ++ [cr])).length, ?_, ?_, ?_⟩
  · simp only [List.length_append, List.length_cons, List.length_nil]
    omega
  · simp only [Field.line, List.length_append, List.length_cons, List.length_nil]
    omega
  · rw [front]
    exact indexByte_append before

theorem rawHeadersEnd_whole (fields : List Field) (tail : Bytes) : ∀ (fuel n : Nat), fields.length < fuel →
      RequestHeader.rawHeadersEnd fuel (linesOf fields ++ ([cr, lf] ++ tail)) n
        = some (n + (linesOf fields ++ [cr, lf]).length) := by
  induction fields with
  | nil =>
    intro fuel n enough
    obtain ⟨fuel, rfl⟩ : ∃ less, fuel = less + 1 := ⟨fuel - 1, by omega⟩
    rfl
  | cons f fields ih =>
    intro fuel n enough
    rw [List.length_cons] at enough
    obtain ⟨fuel, rfl⟩ : ∃ less, fuel = less + 1 := ⟨fuel - 1, by omega⟩
    rw [linesOf_cons, List.append_assoc]
    obtain ⟨m, long, total, found⟩ := f.indexByte_line (linesOf fields ++ ([cr, lf] ++ tail))
    unfold RequestHeader.rawHeadersEnd
    rw [found]
    dsimp only
    rw [if_neg (by omega), total, List.drop_left, ih fuel _ (by omega), List.append_assoc,
      Nat.add_assoc, ← List.length_append]

theorem rawHeadersEnd_short (fields : List Field) :
    ∀ (fuel n : Nat) {part rest : Bytes}, part ++ rest = linesOf fields ++ [cr, lf] → rest ≠ [] →
      RequestHeader.rawHeadersEnd fuel part n = none := by
  induction fields with
  | nil =>
    intro fuel n part rest whole more
    cases fuel with
    | zero => rfl
    | succ fuel =>
      match part, whole with
      | [], _ => rfl
      | [c], whole =>
        obtain rfl : c = cr := (List.cons.inj whole).1
        rfl
      | [c, d], whole => exact absurd (List.cons.inj (List.cons.inj whole).2).2 more
      | c :: d :: e :: part, whole => exact nomatch (List.cons.inj (List.cons.inj whole).2).2
  | cons f fields ih =>
    intro fuel n part rest whole more
    cases fuel with
    | zero => rfl
    | succ fuel =>
      rw [linesOf_cons, List.append_assoc] at whole
      unfold RequestHeader.rawHeadersEnd
      rcases front_split whole with ⟨behind, line, more', -⟩ | ⟨part, rfl, later⟩
      · rw [indexByte_eq_none.mpr (Field.not_mem_short line more')]
      · obtain ⟨m, long, total, found⟩ := f.indexByte_line part
        rw [found]
        dsimp only
        rw [if_neg (by omega), total, List.drop_left]
        exact ih fuel _ later more

theorem readRawHeaders_whole (fields : List Field) (tail : Bytes) :
    RequestHeader.readRawHeaders (linesOf fields ++ ([cr, lf] ++ tail))
      = .ok (if fields = [] then [] else linesOf fields ++ [cr, lf], (linesOf fields ++ [cr, lf]).length) := by
  cases fields with
  | nil => rfl
  | cons f fields =>
    have count := length_le_linesOf fields
    rw [linesOf_cons, List.append_assoc]
    obtain ⟨m, long, total, found⟩ := f.indexByte_line (linesOf fields ++ ([cr, lf] ++ tail))
    unfold RequestHeader.readRawHeaders
    rw [found]
    dsimp only
    rw [if_neg (by omega), total, List.drop_left, rawHeadersEnd_whole fields tail _ _ (by
      simp only [List.length_append]
      omega), if_neg (List.cons_ne_nil _ _), ← List.length_append]
    dsimp only
    have front : f.line ++ (linesOf fields ++ ([cr, lf] ++ tail))
        = (f.line ++ (linesOf fields ++ [cr, lf])) ++ tail := by simp only [List.append_assoc]
    rw [front, List.take_left, List.append_assoc]

theorem readRawHeaders_short (fields : List Field) {part rest : Bytes}
    (whole : part ++ rest = linesOf fields ++ [cr, lf]) (more : rest ≠ []) :
    RequestHeader.readRawHeaders part = .error errNeedMore := by
  -- The first line is looked at like the others.
  have none := rawHeadersEnd_short fields (part.length + 1) 0 whole more
  unfold RequestHeader.rawHeadersEnd at none
  unfold RequestHeader.readRawHeaders
  cases line : indexByte part lf with
  | none => rfl
  | some m =>
    rw [line] at none
    dsimp only at none ⊢
    split at none
    · cases none
    · next other =>
        rw [if_neg other]
        rw [Nat.zero_add] at none
        rw [none]

end Keep

/-! ### Heads -/

/-- Nothing is left to do at the end: the length is known, the method has a body, the version is new. -/
theorem RequestHeader.finish_settled {h : RequestHeader} (known : ¬ h.contentLength < 0) (noBody : h.noBody = false)
    (version : h.noHTTP11 = false) : h.finish = h := by
  simp [RequestHeader.finish, known, noBody, version]

/-- The head of a request of HTTP/1.1. -/
structure Head where
  method : Bytes
  uri : Bytes
  fields : List Field
  methodGiven : method ≠ []
  methodWord : space ∉ method ∧ lf ∉ method
  uriGiven : uri ≠ []
  uriWord : space ∉ uri ∧ lf ∉ uri

theorem nextLine_whole {line : Bytes} (oneLine : lf ∉ line) (behind : Bytes) :
    nextLine (line ++ [cr, lf] ++ behind) = .ok (line, behind) := by
  have split : line ++ [cr, lf] ++ behind = (line ++ [cr]) ++ lf :: behind := by
    simp only [List.append_assoc, List.cons_append, List.nil_append]
  have noEnd : lf ∉ line ++ [cr] := by
    rw [List.mem_append, List.mem_singleton]
    exact not_or.mpr ⟨oneLine, by decide⟩
  unfold nextLine
  rw [split, indexByte_append noEnd]
  dsimp only
  rw [List.take_left, ← List.drop_drop, List.drop_left, List.drop_succ_cons, List.drop_zero, stripCR,
    List.getLast?_concat, if_pos rfl, List.dropLast_concat]

theorem parseURI_whole (h : RequestHeader) (buf : Bytes) {uri : Bytes} (given : uri ≠ []) (size : Nat) :
    h.parseURI buf (uri ++ space :: strHTTP11) size = ({ h with requestURI := uri }, .ok size) := by
  obtain ⟨u, length⟩ : ∃ u, uri.length = u + 1 := Nat.exists_eq_add_one.mpr (List.length_pos_iff.mpr given)
  have found : lastIndexByte (uri ++ space :: strHTTP11) space = some (u + 1) := by
    rw [lastIndexByte_append (by decide), length]
  have version : (uri ++ space :: strHTTP11).drop (u + 1 + 1) = strHTTP11 := by
    rw [← length, ← List.drop_drop, List.drop_left, List.drop_succ_cons, List.drop_zero]
  have front : (uri ++ space :: strHTTP11).take (u + 1) = uri := by
    rw [← length, List.take_left]
  unfold RequestHeader.parseURI
  rw [found]
  show ({ h with
    noHTTP11 := h.noHTTP11 || (uri ++ space :: strHTTP11).drop (u + 1 + 1) ≠ strHTTP11
    requestURI := (uri ++ space :: strHTTP11).take (u + 1) }, _) = _
  rw [version, front, decide_eq_false (not_not.mpr rfl), Bool.or_false]

namespace Head

variable (head : Head)

/-- The first line without its end. -/
def firstLine : Bytes := head.method ++ space :: (head.uri ++ space :: strHTTP11)

/-- The head on the wire. -/
def bytes : Bytes := head.firstLine ++ [cr, lf] ++ (linesOf head.fields ++ [cr, lf])

/-- A request without a body. -/
def noBody : Bool := head.method = strGet || head.method = strHead

/-- What the first line says. -/
def started : RequestHeader := { method := head.method, requestURI := head.uri }

/-- **The header `Parse` should give**: it keeps the lines of a request without a body, and has the
fields of another. -/
def header : RequestHeader :=
  if head.noBody then
    { head.started with rawHeaders := if head.fields = [] then [] else linesOf head.fields ++ [cr, lf] }
  else
    { ({ head.started with contentLength := -2 }.addFields head.fields).finish with rawHeadersParsed := true }

/-- The head with other fields. -/
def withFields (fields : List Field) : Head := { head with fields := fields }

/-- **The same head** but for the names of its fields, some of which may be normalised by now. -/
structure Same (head head' : Head) : Prop where
  changed : ∃ fields', head' = head.withFields fields' ∧ List.Forall₂ Field.Same head.fields fields'
  kept : head.noBody = true → head' = head

theorem Same.refl : Same head head := ⟨⟨head.fields, rfl, same_refl _⟩, fun _ => rfl⟩

theorem withFields_withFields (fields fields' : List Field) :
    (head.withFields fields).withFields fields' = head.withFields fields' := rfl

theorem Same.trans {head head' head'' : Head} (first : Same head head') (second : Same head' head'') :
    Same head head'' := by
  obtain ⟨fields, rfl, same⟩ := first.changed
  obtain ⟨fields', rfl, same'⟩ := second.changed
  refine ⟨⟨fields', withFields_withFields head fields fields', same_trans same same'⟩, fun noBody => ?_⟩
  rw [second.kept noBody, first.kept noBody]

theorem Same.header_eq {head head' : Head} (same : Same head head') : head'.header = head.header := by
  by_cases noBody : head.noBody = true
  · rw [same.kept noBody]
  · obtain ⟨fields', rfl, fields⟩ := same.changed
    have noBody' : (head.withFields fields').noBody = head.noBody := rfl
    unfold header
    rw [noBody', if_neg noBody, if_neg noBody]
    show { (({ head.started with contentLength := -2 } : RequestHeader).addFields fields').finish with
      rawHeadersParsed := true } = _
    rw [RequestHeader.addFields_same fields]

theorem Same.length_bytes {head head' : Head} (same : Same head head') : head'.bytes.length = head.bytes.length := by
  obtain ⟨fields', rfl, fields⟩ := same.changed
  simp only [bytes, List.length_append]
  rw [show (head.withFields fields').fields = fields' from rfl, length_linesOf fields]
  rfl

theorem firstLine_oneLine : lf ∉ head.firstLine := by
  simp only [firstLine, List.mem_append, List.mem_cons, not_or]
  exact ⟨head.methodWord.2, by decide, head.uriWord.2, by decide, by decide⟩

/-- **The first line** of a head, with anything behind it. -/
theorem parseFirstLine_whole (behind : Bytes) :
    ({} : RequestHeader).parseFirstLine (head.firstLine ++ [cr, lf] ++ behind)
      = (head.started, .ok (head.firstLine ++ [cr, lf]).length) := by
  have long : ¬ head.firstLine.length = 0 := by
    rw [firstLine, List.length_append, List.length_cons]
    omega
  have first : RequestHeader.firstLine ((head.firstLine ++ [cr, lf] ++ behind).length + 1)
      (head.firstLine ++ [cr, lf] ++ behind) = .ok (head.firstLine, behind) := by
    rw [RequestHeader.firstLine, nextLine_whole head.firstLine_oneLine]
    exact if_neg long
  obtain ⟨m, length⟩ : ∃ m, head.method.length = m + 1 :=
    Nat.exists_eq_add_one.mpr (List.length_pos_iff.mpr head.methodGiven)
  have found : indexByte head.firstLine space = some (m + 1) := by
    rw [firstLine, indexByte_append head.methodWord.1, length]
  have method : head.firstLine.take (m + 1) = head.method := by
    rw [firstLine, ← length, List.take_left]
  have left : head.firstLine.drop (m + 1 + 1) = head.uri ++ space :: strHTTP11 := by
    rw [firstLine, ← length, ← List.drop_drop, List.drop_left, List.drop_succ_cons, List.drop_zero]
  have size : (head.firstLine ++ [cr, lf] ++ behind).length - behind.length
      = (head.firstLine ++ [cr, lf]).length := by
    rw [List.length_append]
    exact Nat.add_sub_cancel _ _
  unfold RequestHeader.parseFirstLine
  rw [first]
  dsimp only
  rw [found]
  show RequestHeader.parseURI { method := head.firstLine.take (m + 1) } _ (head.firstLine.drop (m + 1 + 1)) _ = _
  rw [method, left, size, parseURI_whole _ _ head.uriGiven]
  rfl

theorem parseFirstLine_short {part : Bytes} (noEnd : lf ∉ part) :
    ({} : RequestHeader).parseFirstLine part = ({}, .error errNeedMore) := by
  unfold RequestHeader.parseFirstLine RequestHeader.firstLine nextLine
  rw [indexByte_eq_none.mpr noEnd]

/-- The head as it lies in memory once it has been parsed. -/
def written : Head := if head.noBody then head else head.withFields (head.fields.map Field.normal)

theorem same_written : Same head head.written := by
  unfold written
  split
  · exact .refl head
  · next other => exact ⟨⟨_, rfl, same_normal _⟩, fun noBody => absurd noBody other⟩

theorem started_noBody : head.started.noBody = head.noBody := by
  unfold RequestHeader.noBody RequestHeader.getMethod
  rw [if_neg (show ¬ head.started.method = [] from head.methodGiven)]
  rfl

theorem parseHeaders_of_scanned {h h' : RequestHeader} {buf : Bytes} {s' : HeaderScanner}
    (scanned : RequestHeader.headerLoop (buf.length + 1)
      (HeaderScanner.at_ { b := buf, disableNormalizing := h.disableNormalizing } [] buf)
      { h with contentLength := -2 } = (s', h')) :
    h.parseHeaders buf = h'.endHeaders s' buf.length :=
  congrArg (fun result : HeaderScanner × RequestHeader => result.2.endHeaders result.1 buf.length) scanned

/-- **A whole header of a request with a body.** -/
theorem parseHeaders_whole (h : RequestHeader) (normalizes : h.disableNormalizing = false)
    (fields : List Field) (tail : Bytes) :
    h.parseHeaders (linesOf fields ++ ([cr, lf] ++ tail))
      = (({ h with contentLength := -2 }.addFields fields).finish,
          linesOf (fields.map Field.normal) ++ ([cr, lf] ++ tail), .ok (linesOf fields ++ [cr, lf]).length) := by
  have count := length_le_linesOf fields
  obtain ⟨s', same, scanned⟩ := headerLoop_whole fields tail
    ((linesOf fields ++ ([cr, lf] ++ tail)).length + 1)
    (s := { b := linesOf fields ++ ([cr, lf] ++ tail), disableNormalizing := h.disableNormalizing })
    { h with contentLength := -2 } [] normalizes (by
      rw [List.length_append]
      omega)
  have size : (linesOf fields ++ ([cr, lf] ++ tail)).length - tail.length
      = (linesOf fields ++ [cr, lf]).length := by
    simp only [List.length_append]
    omega
  rw [parseHeaders_of_scanned scanned, RequestHeader.endHeaders, show (s'.at_ _ tail).err = none from same]
  dsimp only
  rw [show (s'.at_ _ tail).b = tail from rfl, size]
  simp only [HeaderScanner.memory, HeaderScanner.at_, List.nil_append, List.append_assoc]

theorem parseHeaders_short (h : RequestHeader) (normalizes : h.disableNormalizing = false)
    (fields : List Field) {part rest : Bytes} (whole : part ++ rest = linesOf fields ++ [cr, lf])
    (more : rest ≠ []) :
    ∃ h' memory fields', h.parseHeaders part = (h', memory, .error errNeedMore) ∧
      List.Forall₂ Field.Same fields fields' ∧ memory ++ rest = linesOf fields' ++ [cr, lf] := by
  obtain ⟨s', h', fields', scanned, err, same, memory⟩ := headerLoop_short fields (part.length + 1)
    (s := { b := part, disableNormalizing := h.disableNormalizing }) { h with contentLength := -2 } []
    normalizes whole more (Nat.lt_succ_self _)
  refine ⟨{ h' with connectionClose := true }, s'.memory, fields', ?_, same, memory⟩
  rw [parseHeaders_of_scanned scanned, RequestHeader.endHeaders, err]

/-- **A whole head** is read as it was written, whatever follows it. -/
theorem parse_whole (tail : Bytes) : ({} : RequestHeader).parse (head.bytes ++ tail)
      = (head.header, head.written.bytes ++ tail, .ok head.bytes.length) := by
  have split : head.bytes ++ tail
      = head.firstLine ++ [cr, lf] ++ (linesOf head.fields ++ ([cr, lf] ++ tail)) := by
    simp only [bytes, List.append_assoc]
  unfold RequestHeader.parse
  rw [split, head.parseFirstLine_whole]
  dsimp only
  rw [List.drop_left, List.take_left, started_noBody]
  by_cases noBody : head.noBody = true
  · rw [if_neg (by rw [noBody]; exact Bool.false_ne_true), readRawHeaders_whole]
    dsimp only
    rw [header, if_pos noBody, written, if_pos noBody, ← split, ← List.length_append]
    rfl
  · rw [if_pos (by rw [Bool.not_eq_true] at noBody; rw [noBody]; rfl),
      parseHeaders_whole head.started rfl]
    dsimp only
    rw [header, if_neg noBody, written, if_neg noBody, ← List.length_append]
    simp only [bytes, withFields, List.append_assoc]
    rfl

/-- **Less than a head** is not enough, and what is left in memory goes on to a same head. -/
theorem parse_short {part rest : Bytes} (whole : part ++ rest = head.bytes) (more : rest ≠ []) :
    ∃ h memory head', ({} : RequestHeader).parse part = (h, memory, .error errNeedMore) ∧
      Same head head' ∧ memory ++ rest = head'.bytes := by
  have lines : head.bytes = (head.firstLine ++ [cr, lf]) ++ (linesOf head.fields ++ [cr, lf]) := rfl
  rw [lines] at whole
  rcases front_split whole with ⟨behind, inside, more', -⟩ | ⟨part, rfl, behind⟩
  · have noEnd : lf ∉ part := by
      intro there
      have ends : part ++ behind.dropLast = head.firstLine ++ [cr] := by
        rw [← List.dropLast_append_of_ne_nil more', inside, List.append_cons, List.dropLast_concat]
      have : lf ∈ head.firstLine ++ [cr] := ends ▸ List.mem_append_left _ there
      rw [List.mem_append, List.mem_singleton] at this
      exact this.elim head.firstLine_oneLine (by decide)
    refine ⟨{}, part, head, ?_, .refl head, whole⟩
    unfold RequestHeader.parse
    rw [parseFirstLine_short noEnd]
  · unfold RequestHeader.parse
    rw [head.parseFirstLine_whole]
    dsimp only
    rw [List.drop_left, List.take_left, started_noBody]
    by_cases noBody : head.noBody = true
    · refine ⟨head.started, head.firstLine ++ [cr, lf] ++ part, head, ?_, .refl head, whole⟩
      rw [if_neg (by rw [noBody]; exact Bool.false_ne_true), readRawHeaders_short _ behind more]
    · obtain ⟨h, memory, fields', parsed, same, left⟩ :=
        parseHeaders_short head.started rfl head.fields behind more
      refine ⟨h, head.firstLine ++ [cr, lf] ++ memory, head.withFields fields', ?_,
        ⟨⟨fields', rfl, same⟩, fun other => absurd other noBody⟩, ?_⟩
      · rw [if_pos (by rw [Bool.not_eq_true] at noBody; rw [noBody]; rfl), parsed]
      · rw [List.append_assoc, left]
        rfl

end Head

/-! ### The words of the sample requests -/

theorem post_given : ascii "POST" ≠ [] := by decide

theorem post_word : space ∉ ascii "POST" ∧ lf ∉ ascii "POST" := by decide

theorem slashA_given : ascii "/a" ≠ [] := by decide

theorem slashA_word : space ∉ ascii "/a" ∧ lf ∉ ascii "/a" := by decide

end Strike.Http
