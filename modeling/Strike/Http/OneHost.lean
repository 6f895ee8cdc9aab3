/-
**The host of a request, found twice.**

For the gateway's own keys `handleRequest` asks `Host`, which looks for the first `Host` among the bytes of the
header lines (`peekRawHeader`) and takes what is behind it as it is. The map has the host of a parse of all lines:
the last field of that name, with the spaces around it stripped. By the time of the search the parse has normalised
the names in the same memory, so the two differ in nothing else.

* `peekRawHeader_entries`: the search finds an entry, the first whose name is `Host`, unless the text occurs before it.
* `oneHost_iff`: so there is one host exactly where what is found first is what is said last (`FirstSaysLast`).
-/

import Strike.Http.HeadEnd
import Strike.Http.Incremental
import Strike.Http.Delivery
import Strike.Http.InternalKeys

namespace Strike.Http

variable {Form : Type}

/-! ### The search -/

/-- The next byte is the first of a line. -/
def AtLine (front : Bytes) : Prop := front = [] ∨ ∃ lines, front = lines ++ [lf]

theorem atLine_iff {front : Bytes} (back : Bytes) :
    AtLine front ↔ ¬ (front.length > 0 ∧ ((front ++ back).drop (front.length - 1)).head? ≠ some lf) := by
  rcases List.eq_nil_or_concat front with rfl | ⟨lines, c, rfl⟩
  · exact iff_of_true (.inl rfl) fun ⟨given, _⟩ => absurd given (by decide)
  · have last : ((lines.concat c ++ back).drop ((lines.concat c).length - 1)).head? = some c := by
      rw [List.concat_eq_append, List.length_append, List.length_singleton, Nat.add_sub_cancel, List.append_assoc,
        List.drop_left]
      rfl
    rw [last]
    constructor
    · rintro (none | ⟨lines', whole⟩) ⟨-, other⟩
      · simp at none
      · rw [List.concat_eq_append] at whole
        exact other (congrArg some (List.singleton_inj.mp (List.append_inj' whole rfl).2))
    · intro same
      refine .inr ⟨lines, ?_⟩
      have isEnd : c = lf := by
        by_contra other
        exact same ⟨by simp, fun end_ => other (Option.some.inj end_)⟩
      rw [List.concat_eq_append, isEnd]

/-- **What the search finds**: the first occurrence of the key, if it starts a line and a colon, a space and a line
end follow. -/
theorem peekRawHeader_iff {key buf text : Bytes} (given : key ≠ []) (found : text ≠ []) :
    RequestHeader.peekRawHeader buf key = .ok text ↔
      ∃ front value behind, buf = front ++ (key ++ colon :: space :: (value ++ lf :: behind)) ∧
        AtLine front ∧ ¬ key <:+: front ++ key.dropLast ∧ lf ∉ value ∧ text = stripCR value := by
  have nothing : ¬ (.ok [] : Except Panic Bytes) = .ok text := fun same => found (Except.ok.inj same).symm
  constructor
  · intro peeked
    unfold RequestHeader.peekRawHeader at peeked
    split at peeked
    · exact absurd peeked nothing
    · next n first =>
        obtain ⟨front, back, rfl, rfl, absent⟩ := indexOf_split given first
        rw [← List.length_append, ← List.append_assoc, List.drop_left] at peeked
        split at peeked
        · exact absurd peeked nothing
        · next starts =>
            rw [List.append_assoc] at starts
            split at peeked
            · exact absurd peeked nothing
            · next c behind =>
                split at peeked
                · exact absurd peeked nothing
                · next isColon =>
                    split at peeked
                    · cases peeked
                    · next d value =>
                        split at peeked
                        · exact absurd peeked nothing
                        · next isSpace =>
                            split at peeked
                            · exact absurd peeked nothing
                            · next m ends =>
                                obtain ⟨value, behind, rfl, noEnd, rfl⟩ := indexByte_split ends
                                rw [List.take_left] at peeked
                                refine ⟨front, value, behind, ?_, (atLine_iff _).mpr starts, absent, noEnd,
                                  (Except.ok.inj peeked).symm⟩
                                rw [not_not.mp isColon, not_not.mp isSpace]
  · rintro ⟨front, value, behind, rfl, starts, absent, noEnd, rfl⟩
    unfold RequestHeader.peekRawHeader
    rw [indexOf_first given absent]
    dsimp only
    rw [if_neg ((atLine_iff _).mp starts), ← List.length_append, ← List.append_assoc, List.drop_left]
    dsimp only
    rw [if_neg (not_not.mpr rfl), if_neg (not_not.mpr rfl), indexByte_append noEnd]
    dsimp only
    rw [List.take_left]

/-! ### Names in memory -/

/-- Only a dash is in front of a capital letter of a normalised name. -/
theorem normalizeTail_capital (b : Bytes) :
    ∀ {front back : Bytes}, normalizeTail b = front ++ 72 :: back → ∃ front', front = front' ++ [45] := by
  have low : ∀ c : UInt8, toLower c ≠ 72 := by
    intro c
    unfold toLower
    split
    · next capital =>
        simp only [ne_eq, ← UInt8.toNat_inj, UInt8.le_iff_toNat_le, UInt8.toNat_add, UInt8.toNat_ofNat] at capital ⊢
        omega
    · next other =>
        rintro rfl
        exact other (by decide)
  fun_induction normalizeTail b with
  | case1 =>
    intro front back whole
    simp at whole
  | case2 =>
    intro front back whole
    cases front with
    | nil => exact absurd (List.cons.inj whole).1 (by decide)
    | cons => simp at whole
  | case3 c other =>
    intro front back whole
    cases front with
    | nil => exact absurd (List.cons.inj whole).1 (low c)
    | cons => simp at whole
  | case4 d rest ih =>
    intro front back whole
    rcases front with _ | ⟨c', _ | ⟨d', front⟩⟩
    · exact absurd (List.cons.inj whole).1 (by decide)
    · exact ⟨[], by rw [← (List.cons.inj whole).1]; rfl⟩
    · obtain ⟨front', rfl⟩ := ih (List.cons.inj (List.cons.inj whole).2).2
      exact ⟨c' :: d' :: front', rfl⟩
  | case5 c d rest other ih =>
    intro front back whole
    cases front with
    | nil => exact absurd (List.cons.inj whole).1 (low c)
    | cons c' front =>
      obtain ⟨front', rfl⟩ := ih (List.cons.inj whole).2
      exact ⟨c' :: front', rfl⟩

/-- **A name that runs over lines** has no `H` at the start of one, but for the first. -/
theorem normalizeHeaderKey_line (name front back : Bytes) :
    normalizeHeaderKey name false ≠ front ++ lf :: 72 :: back := by
  intro whole
  cases name with
  | nil => simp [normalizeHeaderKey] at whole
  | cons c rest =>
    have tail : ∃ front', normalizeTail rest = front' ++ 72 :: back ∧ front'.getLast? ≠ some 45 := by
      cases front with
      | nil => exact ⟨[], (List.cons.inj whole).2, by decide⟩
      | cons c' front =>
        refine ⟨front ++ [lf], ?_, ?_⟩
        · rw [List.append_assoc]
          exact (List.cons.inj whole).2
        · rw [List.getLast?_concat]
          decide
    obtain ⟨front', split, noDash⟩ := tail
    obtain ⟨front'', rfl⟩ := normalizeTail_capital rest split
    exact noDash List.getLast?_concat

theorem Entry.key_noColon (e : Entry) : colon ∉ e.key false :=
  (recased_normalizeHeaderKey _ _).not_mem (by decide) (by decide) e.noColon

theorem Entry.written_append (e : Entry) (rest : Bytes) :
    e.written false ++ rest = e.key false ++ colon :: (e.raw ++ lf :: rest) := by
  simp only [Entry.written, List.append_assoc, List.cons_append, List.nil_append]

theorem Entry.written_line {e : Entry} {front back : Bytes} (whole : e.written false = front ++ lf :: back)
    (more : back ≠ []) : ∃ rest, e.key false = front ++ lf :: rest := by
  rcases List.append_eq_append_iff.mp whole with ⟨behind, -, split⟩ | ⟨rest, named, split⟩
  · cases behind with
    | nil => exact absurd (List.cons.inj split).1 (by decide)
    | cons c behind =>
      have raw : (e.raw ++ [lf]).dropLast = (behind ++ lf :: back).dropLast :=
        congrArg List.dropLast (List.cons.inj split).2
      rw [List.dropLast_concat, List.dropLast_append_of_ne_nil (List.cons_ne_nil _ _),
        List.dropLast_cons_of_ne_nil more] at raw
      refine absurd ?_ e.noEnd
      rw [raw]
      exact List.mem_append_right _ List.mem_cons_self
  · cases rest with
    | nil => exact absurd (List.cons.inj split).1 (by decide)
    | cons c rest =>
      obtain rfl : lf = c := (List.cons.inj split).1
      exact ⟨rest, named⟩

theorem writtenOf_atLine (entries : List Entry) : AtLine (writtenOf false entries) := by
  rcases List.eq_nil_or_concat entries with rfl | ⟨before, e, rfl⟩
  · exact .inl rfl
  · refine .inr ⟨writtenOf false before ++ (e.key false ++ colon :: e.raw), ?_⟩
    rw [List.concat_eq_append, writtenOf, List.flatMap_append, List.flatMap_singleton]
    simp only [Entry.written, writtenOf, List.append_assoc, List.cons_append]

/-! ### The entry that is found -/

/-- **The search finds this text**: it is behind the first entry named `Host` and a space, and no `Host` is anywhere
before. -/
structure Found (entries : List Entry) (text : Bytes) : Prop where
  at_ : ∃ front e back value, entries = front ++ e :: back ∧ e.key false = strHost ∧
    ¬ strHost <:+: writtenOf false front ∧ e.raw = space :: value ∧ text = stripCR value
  given : text ≠ []

/-- No line ends behind a colon. -/
def Stop.NoField (stop : Stop) : Prop := ∀ front back, stop.written false = front ++ colon :: back → lf ∉ back

theorem noField_bare {b : Bytes} (starts : Starts b) (noColon : colon ∉ b) : (Stop.bare b starts noColon).NoField := by
  intro front back whole
  refine absurd ?_ noColon
  rw [show b = front ++ colon :: back from whole]
  exact List.mem_append_right _ List.mem_cons_self

theorem noField_open {name raw : Bytes} (starts : Starts name) (noColon : colon ∉ name) (noEnd : lf ∉ raw) :
    (Stop.open_ name raw starts noColon noEnd).NoField := by
  intro front back whole there
  have key := (recased_normalizeHeaderKey name false).not_mem (by decide) (by decide) noColon
  rcases List.append_eq_append_iff.mp whole with ⟨more, -, split⟩ | ⟨more, named, split⟩
  · cases more with
    | nil => exact noEnd ((List.cons.inj split).2 ▸ there)
    | cons c more =>
      refine noEnd ?_
      rw [(List.cons.inj split).2]
      exact List.mem_append_right _ (List.mem_cons_of_mem _ there)
  · cases more with
    | nil => exact noEnd ((List.cons.inj split).2 ▸ there)
    | cons c more =>
      refine key ?_
      rw [named, ← (List.cons.inj split).1]
      exact List.mem_append_right _ List.mem_cons_self

theorem noField_ends {eol : Bytes} (empty : IsEmptyLine eol) : (Stop.ends eol [] empty).NoField := by
  intro front back whole
  have noColon : colon ∉ eol := by rcases empty with rfl | rfl <;> decide
  refine absurd ?_ noColon
  rw [show eol = front ++ colon :: back from (List.append_nil eol).symm.trans whole]
  exact List.mem_append_right _ List.mem_cons_self

/-- **A line that reads as the field is an entry.** By induction on the entries: it is in the first one, and then it
is the whole of it, or behind. -/
theorem entry_of_line {stop : Stop} (noField : stop.NoField) (entries : List Entry) :
    ∀ {front value behind : Bytes}, AtLine front → lf ∉ value →
      writtenOf false entries ++ stop.written false = front ++ (strHost ++ colon :: space :: (value ++ lf :: behind)) →
      ∃ before e back, entries = before ++ e :: back ∧ front = writtenOf false before ∧ e.key false = strHost ∧
        e.raw = space :: value := by
  induction entries with
  | nil =>
    intro front value behind starts noEnd whole
    refine absurd ?_ (noField (front ++ strHost) (space :: (value ++ lf :: behind)) ?_)
    · exact List.mem_cons_of_mem _ (List.mem_append_right _ List.mem_cons_self)
    · rw [List.append_assoc]
      exact whole
  | cons e entries ih =>
    intro front value behind starts noEnd whole
    rw [writtenOf_cons, List.append_assoc] at whole
    -- behind the first entry
    have later : ∀ {front' : Bytes}, AtLine front' →
        writtenOf false entries ++ stop.written false =
          front' ++ (strHost ++ colon :: space :: (value ++ lf :: behind)) → front = e.written false ++ front' →
        ∃ before e' back, e :: entries = before ++ e' :: back ∧ front = writtenOf false before ∧
          e'.key false = strHost ∧ e'.raw = space :: value := by
      intro front' starts' whole' reaches
      obtain ⟨before, e', back, rfl, rfl, named, raw⟩ := ih starts' noEnd whole'
      exact ⟨e :: before, e', back, rfl, reaches.trans (writtenOf_cons false e before).symm, named, raw⟩
    rcases starts with rfl | ⟨lines, rfl⟩
    · -- it starts the first entry
      rw [List.nil_append, e.written_append] at whole
      obtain ⟨named, rest⟩ := split_unique e.key_noColon (by decide) whole
      have noEnd' : lf ∉ space :: value := by
        rw [List.mem_cons, not_or]
        exact ⟨by decide, noEnd⟩
      exact ⟨[], e, entries, rfl, rfl, named, (split_unique e.noEnd noEnd' rest).1⟩
    · rcases List.append_eq_append_iff.mp whole with ⟨front', reaches, whole'⟩ | ⟨more, within, whole'⟩
      · refine later ?_ whole' reaches
        rcases List.eq_nil_or_concat front' with rfl | ⟨lines', c, rfl⟩
        · exact .inl rfl
        · rw [List.concat_eq_append, ← List.append_assoc] at reaches
          rw [List.concat_eq_append, ← (List.append_inj' reaches rfl).2]
          exact .inr ⟨lines', rfl⟩
      · cases more with
        | nil =>
          rw [List.append_nil] at within
          refine later (.inl rfl) ?_ (by rw [within, List.append_nil])
          exact whole'.symm
        | cons c more =>
          -- it starts a line of the name
          obtain rfl : 72 = c := (List.cons.inj whole').1
          rw [List.append_assoc, List.singleton_append] at within
          obtain ⟨rest, named⟩ := e.written_line within (List.cons_ne_nil _ _)
          refine absurd ?_ (normalizeHeaderKey_line e.name lines (rest.drop 1))
          rw [show normalizeHeaderKey e.name false = lines ++ lf :: rest from named]
          have both : lf :: 72 :: more = lf :: (rest ++ colon :: (e.raw ++ [lf])) := by
            refine (List.append_right_inj lines).mp ?_
            rw [← within, Entry.written, named, List.append_assoc, List.cons_append]
          cases rest with
          | nil => exact absurd (List.cons.inj (List.cons.inj both).2).1 (by decide)
          | cons d rest => rw [← (List.cons.inj (List.cons.inj both).2).1, List.drop_succ_cons, List.drop_zero]

/-- **What the search finds among the header lines.** -/
theorem peekRawHeader_entries {entries : List Entry} {stop : Stop} (noField : stop.NoField) {text : Bytes}
    (given : text ≠ []) :
    RequestHeader.peekRawHeader (writtenOf false entries ++ stop.written false) strHost = .ok text ↔
      Found entries text := by
  have overlap : ∀ front : Bytes, strHost <:+: front ++ strHost.dropLast ↔ strHost <:+: front := by
    intro front
    constructor
    · intro there
      rw [show strHost = ascii "Hos" ++ [116] from rfl] at there ⊢
      exact infix_of_last (by decide) there
    · exact fun there => there.trans (List.prefix_append _ _).isInfix
  rw [peekRawHeader_iff (by decide) given]
  constructor
  · rintro ⟨front, value, behind, whole, starts, absent, noEnd, rfl⟩
    obtain ⟨before, e, back, rfl, rfl, named, raw⟩ := entry_of_line noField entries starts noEnd whole
    rw [overlap] at absent
    exact ⟨⟨before, e, back, value, rfl, named, absent, raw, rfl⟩, given⟩
  · rintro ⟨⟨before, e, back, value, rfl, named, absent, raw, rfl⟩, -⟩
    refine ⟨writtenOf false before, value, writtenOf false back ++ stop.written false, ?_, writtenOf_atLine before,
      by rwa [overlap], fun there => e.noEnd (raw ▸ List.mem_cons_of_mem _ there), rfl⟩
    rw [writtenOf, List.flatMap_append, List.append_assoc, List.flatMap_cons, List.append_assoc, ← writtenOf,
      e.written_append, named, raw]
    rfl

/-! ### The host of all lines -/

/-- The value of the last entry named `Host`. -/
def lastHost (entries : List Entry) : Bytes :=
  entries.foldl (fun host e => if e.key false = strHost then e.value else host) []

namespace RequestHeader

theorem addField_host (h : RequestHeader) (key value : Bytes) :
    (h.addField key value).host = if key = strHost then value else h.host := by
  obtain ⟨_, _, _, _, _, _, same, -⟩ := h.addField_eq key value
  rw [same]

theorem addField_rawHeaders (h : RequestHeader) (key value : Bytes) :
    (h.addField key value).rawHeaders = h.rawHeaders := by
  obtain ⟨_, _, _, _, _, _, same, -⟩ := h.addField_eq key value
  rw [same]

/-- Nothing is stored under the name of the host. -/
def HostFree (h : RequestHeader) : Prop := ∀ kv ∈ h.h, kv.key ≠ strHost

/-- **What the entries leave of the host.** By induction on them. -/
theorem addEntries_host (entries : List Entry) : ∀ {h : RequestHeader}, h.HostFree →
    (h.addEntries false entries).host =
        entries.foldl (fun host e => if e.key false = strHost then e.value else host) h.host ∧
      (h.addEntries false entries).HostFree ∧ (h.addEntries false entries).rawHeaders = h.rawHeaders := by
  induction entries with
  | nil => exact fun free => ⟨rfl, free, rfl⟩
  | cons e entries ih =>
    intro h free
    have free' : ∀ kv ∈ (h.addField (e.key false) e.value).h, kv.key ≠ strHost :=
      addField_keys (P := (· ≠ strHost)) free (fun other => other) (by decide) _
    obtain ⟨host, later, lines⟩ := ih free'
    rw [addField_host] at host
    exact ⟨host, later, lines.trans (addField_rawHeaders h _ _)⟩

theorem finish_host (h : RequestHeader) :
    h.finish.host = h.host ∧ h.finish.h = h.h ∧ h.finish.rawHeaders = h.rawHeaders := by
  obtain ⟨_, _, _, same⟩ := h.finish_eq
  rw [same]
  exact ⟨rfl, rfl, rfl⟩

section Parse

variable {h : RequestHeader} {entries : List Entry} {stop : Stop} (normalizes : h.disableNormalizing = false)
  (noHost : h.host = []) (free : h.HostFree)
include normalizes

theorem parseHeaders_host (free : h.HostFree) (entries : List Entry) (stop : Stop) :
    (h.parseHeaders (bytesOf entries ++ stop.bytes)).1.host =
        entries.foldl (fun host e => if e.key false = strHost then e.value else host) h.host ∧
      (h.parseHeaders (bytesOf entries ++ stop.bytes)).1.HostFree ∧
      (h.parseHeaders (bytesOf entries ++ stop.bytes)).1.rawHeaders = h.rawHeaders := by
  obtain ⟨host, free', lines⟩ := addEntries_host entries (h := { h with contentLength := -2 }) free
  obtain ⟨host', fields, lines'⟩ := finish_host ({ h with contentLength := -2 }.addEntries false entries)
  have mode : ({ h with contentLength := -2 } : RequestHeader).addEntries h.disableNormalizing entries =
      ({ h with contentLength := -2 } : RequestHeader).addEntries false entries :=
    congrArg (fun disabled => RequestHeader.addEntries _ disabled entries) normalizes
  rw [parseHeaders_entries, mode]
  cases stop.length? with
  | none => exact ⟨host, free', lines⟩
  | some n =>
    refine ⟨host'.trans host, ?_, lines'.trans lines⟩
    intro kv there
    exact free' kv (fields ▸ there)

include noHost free

/-- The host of the lines is that of the last entry, before their names are normalised and after. -/
theorem parseHeaders_lastHost : (h.parseHeaders (bytesOf entries ++ stop.bytes)).1.host = lastHost entries ∧
    (h.parseHeaders (writtenOf false entries ++ stop.written false)).1.host = lastHost entries := by
  have first : (h.parseHeaders (bytesOf entries ++ stop.bytes)).1.host = lastHost entries := by
    rw [(parseHeaders_host normalizes free entries stop).1, noHost]
    rfl
  have again := parseHeaders_rewritten h entries stop []
  rw [List.append_nil, List.append_nil, normalizes] at again
  rw [again]
  exact ⟨first, first⟩

end Parse

section Unparsed

variable {h : RequestHeader} (unparsed : h.rawHeadersParsed = false)
include unparsed

theorem parseRawHeaders_given {b : Bytes} (lines : h.rawHeaders = b) (given : h.rawHeaders ≠ []) :
    h.parseRawHeaders = { ({ h with rawHeadersParsed := true }.parseHeaders b).1 with
      rawHeaders := ({ h with rawHeadersParsed := true }.parseHeaders b).2.1 } := by
  subst lines
  unfold parseRawHeaders
  rw [unparsed, if_neg (by decide)]
  exact if_neg (fun none => given (List.length_eq_zero_iff.mp none))

theorem parseRawHeaders_none (none : h.rawHeaders = []) : h.parseRawHeaders = { h with rawHeadersParsed := true } := by
  unfold parseRawHeaders
  rw [unparsed, if_neg (by decide)]
  exact if_pos (List.length_eq_zero_iff.mpr none)

variable {entries : List Entry} {stop : Stop} (normalizes : h.disableNormalizing = false)
  (noHost : h.host = []) (free : h.HostFree)
include normalizes noHost free

/-- **Parsing the lines** gives the host of the last entry and writes the names into memory. -/
theorem parseRawHeaders_entries (lines : h.rawHeaders = bytesOf entries ++ stop.bytes) :
    h.parseRawHeaders.host = lastHost entries ∧ h.parseRawHeaders.HostFree ∧
      h.parseRawHeaders.rawHeaders = writtenOf false entries ++ stop.written false := by
  by_cases none : h.rawHeaders = []
  · have empty : bytesOf entries ++ stop.bytes = [] := lines.symm.trans none
    have noEntries : entries = [] := by
      have short := length_le_bytesOf entries
      rw [(List.append_eq_nil_iff.mp empty).1] at short
      exact List.length_eq_zero_iff.mp (Nat.le_zero.mp short)
    have written : stop.written false = [] := by
      rw [← List.length_eq_zero_iff, stop.written_length, (List.append_eq_nil_iff.mp empty).2, List.length_nil]
    rw [parseRawHeaders_none unparsed none, noEntries, written]
    exact ⟨noHost, free, none⟩
  · have memory : ({ h with rawHeadersParsed := true }.parseHeaders (bytesOf entries ++ stop.bytes)).2.1 =
        writtenOf false entries ++ stop.written false := by
      rw [parseHeaders_entries]
      dsimp only
      rw [normalizes]
    rw [parseRawHeaders_given unparsed lines none, memory]
    exact ⟨(parseHeaders_lastHost (h := { h with rawHeadersParsed := true }) normalizes noHost free).1,
      (parseHeaders_host (h := { h with rawHeadersParsed := true }) normalizes free entries stop).2.1, rfl⟩

/-- **Parsing them again** gives the same host. -/
theorem parseRawHeaders_written (lines : h.rawHeaders = writtenOf false entries ++ stop.written false) :
    h.parseRawHeaders.host = lastHost entries := by
  by_cases none : h.rawHeaders = []
  · have noEntries : entries = [] := by
      have short := length_le_bytesOf entries
      rw [← writtenOf_length false, (List.append_eq_nil_iff.mp (lines.symm.trans none)).1] at short
      exact List.length_eq_zero_iff.mp (Nat.le_zero.mp short)
    rw [parseRawHeaders_none unparsed none, noEntries]
    exact noHost
  · rw [parseRawHeaders_given unparsed lines none]
    exact (parseHeaders_lastHost (h := { h with rawHeadersParsed := true }) normalizes noHost free).2

end Unparsed

end RequestHeader

/-! ### The map -/

theorem peekArg_foldl_setArg {key : Bytes} (pairs : List (Bytes × Bytes)) (other : ∀ kv ∈ pairs, kv.1 ≠ key) :
    ∀ args : List ArgsKV, peekArg (pairs.foldl (fun out kv => setArg out kv.1 kv.2) args) key = peekArg args key := by
  induction pairs with
  | nil => exact fun args => rfl
  | cons kv pairs ih =>
    intro args
    obtain ⟨here, later⟩ := List.forall_mem_cons.mp other
    rw [List.foldl_cons, ih later, peekArg_setArg_of_ne here]

theorem collectCookies_host (h : RequestHeader) : h.collectCookies.host = h.host ∧ ∀ kv ∈ h.collectCookies.h, kv ∈ h.h := by
  unfold RequestHeader.collectCookies
  split
  · exact ⟨rfl, fun kv there => there⟩
  · exact ⟨rfl, fun kv there => List.mem_of_mem_filter there⟩

/-- **The map has the host of all lines**, and the lines are in memory as that parse left them. -/
theorem decodeReqHeader_host {h : RequestHeader} (free : h.parseRawHeaders.HostFree) :
    ∃ copied header, decodeReqHeader h = .ok (copied, header) ∧ peekArg header strHost = h.parseRawHeaders.host ∧
      copied.rawHeaders = h.parseRawHeaders.rawHeaders := by
  obtain ⟨pairs₁, first, -⟩ := h.visitAll_keys
  obtain ⟨pairs₂, second, keys⟩ := h.parseRawHeaders.collectCookies.visitAll_keys
  -- The second visit finds the header as the first one left it.
  have settled : h.parseRawHeaders.collectCookies.parseRawHeaders = h.parseRawHeaders.collectCookies :=
    if_pos ((RequestHeader.collectCookies_spec _).1.trans h.parseRawHeaders_spec.1)
  rw [settled, (collectCookies_host _).1] at second
  rw [settled] at keys
  have other : ∀ kv ∈ pairs₂, kv.1 ≠ strHost := by
    intro kv there
    rcases keys kv there with known | ⟨stored, there', same⟩
    · exact fun isHost => absurd (isHost ▸ known) (by decide)
    · rw [← same]
      exact free stored ((collectCookies_host _).2 _ ((collectCookies_host _).2 _ there'))
  refine ⟨_, _, by simp only [decodeReqHeader, first, second, bind, Except.bind]; rfl, ?_, ?_⟩
  · rw [List.foldl_append, peekArg_foldl_setArg pairs₂ other]
    split
    · exact peekArg_setArg_self [] strHost _
    · next none =>
        rw [List.length_eq_zero_iff.mp (Nat.eq_zero_of_not_pos none)]
        rfl
  · rw [(RequestHeader.collectCookies_spec _).2, (RequestHeader.collectCookies_spec _).2]

/-- **One request has one host**: the gateway's keys and the map say the same; what is absent is empty. -/
def OneHost (header : List ArgsKV) : Prop :=
  peekArg header strikeHeaderHostKey = peekArg header strHost ∧
    peekArg header istioHeaderHostKey = peekArg header strHost

/-- **The hosts in the map that is handed over.** -/
theorem handleRequest_hosts {mp : Multipart Form} {order : RangeOrder} {req : Request Form} {received : Received}
    (handedOver : handleRequest mp order req = .ok received) (free : req.header.parseRawHeaders.HostFree) :
    ∃ h₁ host₁ h₂ host₂,
      { req.header with rawHeaders := req.header.parseRawHeaders.rawHeaders }.getHost = .ok (h₁, host₁) ∧
      h₁.getHost = .ok (h₂, host₂) ∧
      (OneHost received.header ↔ host₁ = req.header.parseRawHeaders.host ∧ host₂ = req.header.parseRawHeaders.host) := by
  obtain ⟨copied, header, h₁, host₁, h₂, host₂, buf, split, got₁, got₂, -, rfl⟩ := handleRequest_inv handedOver
  obtain ⟨copied', header', split', host, lines⟩ := decodeReqHeader_host free
  rw [split] at split'
  cases split'
  rw [lines] at got₁
  refine ⟨h₁, host₁, h₂, host₂, got₁, got₂, ?_⟩
  unfold OneHost
  dsimp only
  simp only [peekArg_setArg_of_ne (show strikeHeaderPathKey ≠ strHost by decide),
    peekArg_setArg_of_ne (show strikeHeaderPathKey ≠ strikeHeaderHostKey by decide),
    peekArg_setArg_of_ne (show strikeHeaderPathKey ≠ istioHeaderHostKey by decide),
    peekArg_setArg_of_ne (show strikeHeaderMethod ≠ strHost by decide),
    peekArg_setArg_of_ne (show strikeHeaderMethod ≠ strikeHeaderHostKey by decide),
    peekArg_setArg_of_ne (show strikeHeaderMethod ≠ istioHeaderHostKey by decide),
    peekArg_setArg_of_ne (show istioHeaderHostKey ≠ strHost by decide),
    peekArg_setArg_of_ne (show istioHeaderHostKey ≠ strikeHeaderHostKey by decide),
    peekArg_setArg_of_ne (show strikeHeaderHostKey ≠ strHost by decide), peekArg_setArg_self, host]

/-! ### Lines that were read -/

theorem endsAt_within (entries : List Entry) {eol : Bytes} (empty : IsEmptyLine eol) (rest : Bytes) :
    ∃ lines n, EndsAt lines n (bytesOf entries ++ (eol ++ rest)) ∧ n ≤ (bytesOf entries).length + eol.length := by
  induction entries with
  | nil => exact ⟨[], eol.length, .here empty rest, Nat.le_add_left _ _⟩
  | cons e entries ih =>
    obtain ⟨lines, n, ended, low⟩ := ih
    rw [bytesOf_cons, List.append_assoc, e.bytes_append, List.length_append, e.bytes_length]
    rcases entry_lines e.noEnd (bytesOf entries ++ (eol ++ rest)) e.name e.noColon with
      ⟨lines', n', ended', low', -⟩ | ⟨front, last, -, same⟩
    · exact ⟨lines', n', ended', by omega⟩
    · exact ⟨_, _, (same _ _).mpr ⟨lines, n, rfl, rfl, ended⟩, by omega⟩

/-- **The lines that were read end at their first empty line**, so no field is behind it. -/
theorem noField_of_read {b : Bytes} {entries : List Entry} {stop : Stop} {n : Nat}
    (read : RequestHeader.readRawHeaders b = .ok (bytesOf entries ++ stop.bytes, n)) : stop.NoField := by
  cases stop with
  | open_ name raw starts noColon noEnd => exact noField_open starts noColon noEnd
  | bare b starts noColon => exact noField_bare starts noColon
  | ends eol rest empty =>
    suffices nothing : rest = [] by
      subst nothing
      exact noField_ends empty
    by_cases some_ : ∃ lines n, EndsAt lines n b
    · obtain ⟨lines, n', ended⟩ := some_
      rw [RequestHeader.readRawHeaders_endsAt ended] at read
      have front := (Prod.mk.inj (Except.ok.inj read)).1
      split at front
      · have none := (List.append_eq_nil_iff.mp (List.append_eq_nil_iff.mp front.symm).2).1
        rcases empty with rfl | rfl <;> cases none
      · obtain ⟨lines', n'', ended', low⟩ := endsAt_within entries empty rest
        have whole := ended'.append (b.drop n')
        rw [show bytesOf entries ++ (eol ++ rest) = b.take n' from front.symm, List.take_append_drop] at whole
        have lengths := congrArg List.length front
        rw [List.length_take_of_le ended.bounds.2] at lengths
        obtain ⟨-, rfl⟩ := ended.unique whole
        change n'' = (bytesOf entries ++ (eol ++ rest)).length at lengths
        rw [List.length_append, List.length_append] at lengths
        exact List.length_eq_zero_iff.mp (by omega)
    · rw [RequestHeader.readRawHeaders_never fun lines n ended => some_ ⟨lines, n, ended⟩] at read
      cases read

namespace RequestHeader

theorem parse_lines {h : RequestHeader} {content memory : Bytes} {k : Nat}
    (parsed : ({} : RequestHeader).parse content = (h, memory, .ok k)) :
    h.HostFree ∧ ((h.rawHeadersParsed = true ∧ h.rawHeaders = []) ∨
      (h.rawHeadersParsed = false ∧ h.host = [] ∧ ∃ b n, readRawHeaders b = .ok (h.rawHeaders, n))) := by
  cases line : ({} : RequestHeader).parseFirstLine content with
  | mk h₁ size =>
    cases size with
    | error err =>
      rw [parse_of_line_error line] at parsed
      cases parsed
    | ok m =>
      have fresh : h₁.host = [] ∧ h₁.h = [] ∧ h₁.rawHeaders = [] ∧ h₁.rawHeadersParsed = false ∧
          h₁.disableNormalizing = false := by
        unfold parseFirstLine parseURI at line
        repeat' split at line
        all_goals cases line
        all_goals exact ⟨rfl, rfl, rfl, rfl, rfl⟩
      obtain ⟨noHost, noFields, noLines, unparsed, normalizes⟩ := fresh
      have free : h₁.HostFree := by
        intro kv there
        rw [noFields] at there
        cases there
      rw [parse_of_line line] at parsed
      cases scans : !h₁.noBody || h₁.noHTTP11 with
      | true =>
        have scanned : ∃ h₂ written n, h₁.parseHeaders (content.drop m) = (h₂, written, .ok n) ∧
            h = { h₂ with rawHeadersParsed := true } := by
          unfold parseRest at parsed
          rw [if_pos scans] at parsed
          split at parsed
          · cases parsed
          · next fields =>
              cases parsed
              exact ⟨_, _, _, fields, rfl⟩
        obtain ⟨h₂, written, n, fields, rfl⟩ := scanned
        obtain ⟨entries, stop, whole⟩ := exists_entries (content.drop m)
        obtain ⟨-, free', lines⟩ := parseHeaders_host normalizes free entries stop
        rw [← whole, fields] at free' lines
        exact ⟨free', .inl ⟨rfl, lines.trans noLines⟩⟩
      | false =>
        rw [parseRest_raw scans] at parsed
        split at parsed
        · cases parsed
        · next read =>
            cases parsed
            exact ⟨free, .inr ⟨unparsed, noHost, _, _, read⟩⟩

/-- **The host, asked for twice**: what the search finds, or else the host of all lines. -/
theorem getHost_twice {h h₁ h₂ : RequestHeader} {host₁ host₂ : Bytes} (unparsed : h.rawHeadersParsed = false)
    (noHost : h.host = []) (got₁ : h.getHost = .ok (h₁, host₁)) (got₂ : h₁.getHost = .ok (h₂, host₂)) :
    ∃ text, peekRawHeader h.rawHeaders strHost = .ok text ∧ host₂ = host₁ ∧
      host₁ = if text = [] then h.parseRawHeaders.host else text := by
  unfold getHost at got₁
  rw [noHost, if_neg (by decide), unparsed, if_neg (by decide)] at got₁
  cases peeked : peekRawHeader h.rawHeaders strHost with
  | error cause =>
    rw [peeked] at got₁
    cases got₁
  | ok text =>
    rw [peeked] at got₁
    refine ⟨text, rfl, ?_⟩
    have found : h.hostOr text = (h₁, host₁) := Except.ok.inj got₁
    unfold hostOr at found
    by_cases nothing : text = []
    · rw [if_neg (by rw [nothing]; decide)] at found
      obtain ⟨rfl, rfl⟩ := Prod.mk.inj found
      rw [getHost_of_parsed h.parseRawHeaders_spec.1] at got₂
      exact ⟨(Prod.mk.inj (Except.ok.inj got₂)).2.symm, (if_pos nothing).symm⟩
    · have some_ : text.length > 0 := List.length_pos_iff.mpr nothing
      rw [if_pos some_] at found
      obtain ⟨rfl, rfl⟩ := Prod.mk.inj found
      unfold getHost at got₂
      rw [if_pos some_] at got₂
      exact ⟨(Prod.mk.inj (Except.ok.inj got₂)).2.symm, (if_neg nothing).symm⟩

end RequestHeader

/-! ### One host -/

/-- **What is found first is what is said last.** -/
def FirstSaysLast (entries : List Entry) : Prop := ∀ text, Found entries text → text = lastHost entries

theorem firstSaysLast_nil : FirstSaysLast [] := by
  rintro text ⟨⟨front, e, back, value, split, -⟩, -⟩
  cases front <;> cases split

/-- **One host for lines that are searched.** -/
theorem oneHost_of_lines {mp : Multipart Form} {order : RangeOrder} {req : Request Form} {received : Received}
    {b : Bytes} {n : Nat}
    (unparsed : req.header.rawHeadersParsed = false) (normalizes : req.header.disableNormalizing = false)
    (noHost : req.header.host = []) (free : req.header.HostFree)
    (read : RequestHeader.readRawHeaders b = .ok (req.header.rawHeaders, n))
    (handedOver : handleRequest mp order req = .ok received) {entries : List Entry} {stop : Stop}
    (lines : req.header.rawHeaders = bytesOf entries ++ stop.bytes) :
    OneHost received.header ↔ FirstSaysLast entries := by
  have noField : stop.NoField := noField_of_read (lines ▸ read)
  obtain ⟨host, free', memory⟩ := RequestHeader.parseRawHeaders_entries unparsed normalizes noHost free lines
  obtain ⟨h₁, host₁, h₂, host₂, got₁, got₂, same⟩ := handleRequest_hosts handedOver free'
  rw [memory] at got₁
  obtain ⟨text, peeked, rfl, rfl⟩ := RequestHeader.getHost_twice
    (h := { req.header with rawHeaders := writtenOf false entries ++ stop.written false }) unparsed noHost got₁ got₂
  have again := RequestHeader.parseRawHeaders_written
    (h := { req.header with rawHeaders := writtenOf false entries ++ stop.written false }) unparsed normalizes noHost
    free rfl
  rw [again, host, and_self] at same
  rw [same]
  constructor
  · intro equal text' found
    have peeked' := (peekRawHeader_entries noField found.given).mpr found
    obtain rfl : text = text' := Except.ok.inj (peeked.symm.trans peeked')
    rw [if_neg found.given] at equal
    exact equal
  · intro all
    split
    · rfl
    · next given => exact all text ((peekRawHeader_entries noField given).mp peeked)

/-- **One request has one host** exactly where what is found first is what is said last: for every head of a request
without a body that parses, whatever its lines, and the request decoded from it. -/
theorem oneHost_iff (mp : Multipart Form) (order : RangeOrder) {content memory : Bytes} {h : RequestHeader} {k : Nat}
    (parsed : ({} : RequestHeader).parse content = (h, memory, .ok k)) (noBody : h.noBody = true) {pooled : Slice}
    {decoded : Decoded Form} {left : Bytes} (outcome : Outcome mp pooled content decoded left) :
    ∃ received, handleRequest mp order decoded.req = .ok received ∧
      (OneHost received.header ↔
        ∀ (entries : List Entry) (stop : Stop), h.rawHeaders = bytesOf entries ++ stop.bytes →
          FirstSaysLast entries) := by
  have skips : ¬ h.ReadsBody := fun reads => Bool.false_ne_true (reads.1.symm.trans noBody)
  rw [(outcome.of_parsed parsed).of_skips skips]
  obtain ⟨received, handedOver⟩ : ∃ received, handleRequest mp order { header := h } = .ok received :=
    handleRequest_ok mp order (parse_quiet parsed) (absurd rfl ·)
  refine ⟨received, handedOver, ?_⟩
  obtain ⟨free, ⟨done, none⟩ | ⟨unparsed, noHost, b, n, read⟩⟩ := RequestHeader.parse_lines parsed
  · have settled : h.parseRawHeaders = h := if_pos done
    refine iff_of_true ?_ ?_
    · obtain ⟨h₁, host₁, h₂, host₂, got₁, got₂, same⟩ := handleRequest_hosts handedOver (settled.symm ▸ free)
      rw [settled, RequestHeader.getHost_of_parsed done] at got₁
      cases got₁
      rw [RequestHeader.getHost_of_parsed done] at got₂
      cases got₂
      rw [same, settled]
      exact ⟨rfl, rfl⟩
    · intro entries stop lines
      have short := length_le_bytesOf entries
      rw [(List.append_eq_nil_iff.mp (lines.symm.trans none)).1] at short
      rw [List.length_eq_zero_iff.mp (Nat.le_zero.mp short)]
      exact firstSaysLast_nil
  · have normalizes := (RequestHeader.parse_clean parsed).normalizes
    constructor
    · intro same entries stop lines
      exact (oneHost_of_lines unparsed normalizes noHost free read handedOver lines).mp same
    · intro all
      obtain ⟨entries, stop, lines⟩ := exists_entries h.rawHeaders
      exact (oneHost_of_lines unparsed normalizes noHost free read handedOver lines).mpr (all entries stop lines)

/-- A request with one line for the host. -/
def hostB : Bytes := ascii "GET /a HTTP/1.1\r\nhost: b\r\n\r\n"

/-- The theorem at that request: it has one host, and what is found first is what is said last. -/
theorem oneHost_iff_hostB :
    ∃ received, handleRequest noForms .listed { header := (({} : RequestHeader).parse hostB).1 } = .ok received ∧
      OneHost received.header ∧ ∀ (entries : List Entry) (stop : Stop),
        (({} : RequestHeader).parse hostB).1.rawHeaders = bytesOf entries ++ stop.bytes → FirstSaysLast entries := by
  have parsed : ({} : RequestHeader).parse hostB =
      ((({} : RequestHeader).parse hostB).1, hostB, .ok 28) := by decide
  have noBody : (({} : RequestHeader).parse hostB).1.noBody = true := by decide
  have outcome : Outcome noForms (Recycled.fresh Empty 0).body hostB
      { req := { header := (({} : RequestHeader).parse hostB).1 } } [] :=
    .parsed parsed (.skipped fun reads => Bool.false_ne_true (reads.1.symm.trans noBody))
  obtain ⟨received, handedOver, same⟩ := oneHost_iff noForms .listed parsed noBody outcome
  have header : (handleRequest noForms .listed { header := (({} : RequestHeader).parse hostB).1 }).toOption =
      some ⟨[⟨strHost, ascii "b"⟩, ⟨strikeHeaderHostKey, ascii "b"⟩, ⟨istioHeaderHostKey, ascii "b"⟩,
        ⟨strikeHeaderMethod, strGet⟩, ⟨strikeHeaderPathKey, ascii "/a"⟩], none⟩ := by decide
  rw [handedOver] at header
  have one : OneHost received.header := by
    obtain rfl := Option.some.inj header
    exact ⟨by decide, by decide⟩
  exact ⟨received, handedOver, one, same.mp one⟩

/-- A request with two. -/
def hostBC : Bytes := ascii "GET /a HTTP/1.1\r\nHost: b\r\nHost: c\r\n\r\n"

/-- **A request with two hosts**: `b` for the gateway, `c` in the map. -/
theorem two_hosts :
    ∃ received, handleRequest noForms .listed { header := (({} : RequestHeader).parse hostBC).1 } = .ok received ∧
      peekArg received.header strHost = ascii "c" ∧ peekArg received.header strikeHeaderHostKey = ascii "b" ∧
      ¬ OneHost received.header := by
  have parsed : ({} : RequestHeader).parse hostBC =
      ((({} : RequestHeader).parse hostBC).1, hostBC, .ok 37) := by decide
  obtain ⟨received, handedOver⟩ : ∃ received,
      handleRequest noForms .listed { header := (({} : RequestHeader).parse hostBC).1 } = .ok received :=
    handleRequest_ok noForms .listed (parse_quiet parsed) (absurd rfl ·)
  have header : (handleRequest noForms .listed { header := (({} : RequestHeader).parse hostBC).1 }).toOption =
      some ⟨[⟨strHost, ascii "c"⟩, ⟨strikeHeaderHostKey, ascii "b"⟩, ⟨istioHeaderHostKey, ascii "b"⟩,
        ⟨strikeHeaderMethod, strGet⟩, ⟨strikeHeaderPathKey, ascii "/a"⟩], none⟩ := by decide
  rw [handedOver] at header
  refine ⟨received, handedOver, ?_⟩
  obtain rfl := Option.some.inj header
  exact ⟨by decide, by decide, fun one => absurd one.1 (by decide)⟩

end Strike.Http
