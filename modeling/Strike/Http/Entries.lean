/-
**Any header is a run of entries.**

The scanner takes every byte string apart: into entries (`Entry`), each up to the end of the line that has its first
colon, and something at which it stops (`Stop`): an empty line, an entry whose line has not ended, or bytes without
a colon. The name of an entry may run over several lines.

* `exists_entries`: every byte string is such a run.
-/

import Strike.Http.Message

namespace Strike.Http

/-! ### Entries and stops -/

/-- An entry; `raw` is what the line has behind the colon. -/
structure Entry where
  name : Bytes
  raw : Bytes
  starts : Starts name
  noColon : colon ∉ name
  noEnd : lf ∉ raw

namespace Entry

def bytes (e : Entry) : Bytes := e.name ++ colon :: (e.raw ++ [lf])

def key (e : Entry) (disabled : Bool) : Bytes := normalizeHeaderKey e.name disabled

def value (e : Entry) : Bytes := fieldValue e.raw

/-- The entry as the scanner leaves it in memory. -/
def written (e : Entry) (disabled : Bool) : Bytes := e.key disabled ++ colon :: (e.raw ++ [lf])

theorem bytes_append (e : Entry) (rest : Bytes) : e.bytes ++ rest = e.name ++ colon :: (e.raw ++ lf :: rest) := by
  simp only [bytes, List.append_assoc, List.cons_append, List.nil_append]

theorem written_length (e : Entry) (disabled : Bool) : (e.written disabled).length = e.bytes.length := by
  simp only [written, bytes, key, List.length_append, (recased_normalizeHeaderKey e.name disabled).length_eq]

theorem bytes_length (e : Entry) : e.bytes.length = e.name.length + e.raw.length + 2 := by
  simp only [bytes, List.length_append, List.length_cons, List.length_nil]
  omega

end Entry

/-- What the scanner stops at. -/
inductive Stop
  | ends (eol rest : Bytes) (empty : IsEmptyLine eol)
  | open_ (name raw : Bytes) (starts : Starts name) (noColon : colon ∉ name) (noEnd : lf ∉ raw)
  | bare (b : Bytes) (starts : Starts b) (noColon : colon ∉ b)

namespace Stop

def bytes : Stop → Bytes
  | ends eol rest _ => eol ++ rest
  | open_ name raw .. => name ++ colon :: raw
  | bare b .. => b

/-- The bytes as the scanner leaves them in memory. -/
def written (disabled : Bool) : Stop → Bytes
  | ends eol rest _ => eol ++ rest
  | open_ name raw .. => normalizeHeaderKey name disabled ++ colon :: raw
  | bare b .. => b

/-- The length of the empty line, if there is one. -/
def length? : Stop → Option Nat
  | ends eol .. => some eol.length
  | open_ .. => none
  | bare .. => none

theorem written_length (stop : Stop) (disabled : Bool) : (stop.written disabled).length = stop.bytes.length := by
  cases stop with
  | ends => rfl
  | open_ name raw =>
    simp only [written, bytes, List.length_append, (recased_normalizeHeaderKey name disabled).length_eq]
  | bare => rfl

end Stop

def bytesOf (entries : List Entry) : Bytes := entries.flatMap Entry.bytes

/-- The entries as the scanner leaves them in memory. -/
def writtenOf (disabled : Bool) (entries : List Entry) : Bytes := entries.flatMap fun e => e.written disabled

theorem bytesOf_cons (e : Entry) (entries : List Entry) : bytesOf (e :: entries) = e.bytes ++ bytesOf entries :=
  List.flatMap_cons

theorem writtenOf_cons (disabled : Bool) (e : Entry) (entries : List Entry) :
    writtenOf disabled (e :: entries) = e.written disabled ++ writtenOf disabled entries :=
  List.flatMap_cons

theorem writtenOf_length (disabled : Bool) (entries : List Entry) :
    (writtenOf disabled entries).length = (bytesOf entries).length := by
  induction entries with
  | nil => rfl
  | cons e entries ih =>
    rw [writtenOf_cons, bytesOf_cons, List.length_append, List.length_append, ih, e.written_length]

theorem length_le_bytesOf (entries : List Entry) : entries.length ≤ (bytesOf entries).length := by
  induction entries with
  | nil => exact Nat.zero_le _
  | cons e entries ih =>
    rw [bytesOf_cons, List.length_append, List.length_cons, e.bytes_length]
    omega

/-- **Every byte string is a run of entries up to a stop.** By induction on its length. -/
theorem exists_entries (b : Bytes) : ∃ (entries : List Entry) (stop : Stop), b = bytesOf entries ++ stop.bytes := by
  induction size : b.length using Nat.strongRecOn generalizing b with
  | ind n ih =>
    cases shape b with
    | ends empty rest => exact ⟨[], .ends _ rest empty, rfl⟩
    | open_ starts noColon noEnd => exact ⟨[], .open_ _ _ starts noColon noEnd, rfl⟩
    | bare starts noColon => exact ⟨[], .bare _ starts noColon, rfl⟩
    | @field name raw starts noColon noEnd rest =>
      have less : rest.length < n := by
        rw [← size]
        simp
        omega
      obtain ⟨entries, stop, rfl⟩ := ih rest.length less rest rfl
      let e : Entry := ⟨name, raw, starts, noColon, noEnd⟩
      refine ⟨e :: entries, stop, ?_⟩
      rw [bytesOf_cons, List.append_assoc, e.bytes_append]

/-! ### Scanning them -/

/-- What `parseHeaders` collects from some entries. -/
def RequestHeader.addEntries (h : RequestHeader) (disabled : Bool) (entries : List Entry) : RequestHeader :=
  entries.foldl (fun h e => h.addField (e.key disabled) e.value) h

section Scan

variable {s : HeaderScanner}

theorem headerLoop_entry (h : RequestHeader) (fuel : Nat) (e : Entry) (passed rest : Bytes) :
    RequestHeader.headerLoop (fuel + 1) (s.at_ passed (e.bytes ++ rest)) h =
      RequestHeader.headerLoop fuel
        ({ s with key := e.key s.disableNormalizing, value := e.value }.at_
          (passed ++ e.written s.disableNormalizing) rest)
        (h.addField (e.key s.disableNormalizing) e.value) := by
  rw [RequestHeader.headerLoop, e.bytes_append, HeaderScanner.next_field s e.starts e.noColon e.noEnd]
  rfl

theorem next_stop (stop : Stop) (passed : Bytes) :
    ∃ s', (s.at_ passed stop.bytes).next = (s', false) ∧ s'.memory = passed ++ stop.written s.disableNormalizing ∧
      match stop with
      | .ends _ rest _ => s'.err = s.err ∧ s'.b = rest
      | _ => s'.err = some errNeedMore := by
  cases stop with
  | ends eol rest empty =>
    refine ⟨_, HeaderScanner.next_ends s empty passed rest, ?_, rfl, rfl⟩
    exact List.append_assoc ..
  | open_ name raw starts noColon noEnd =>
    refine ⟨_, HeaderScanner.next_open s starts noColon noEnd passed, ?_, rfl⟩
    show passed ++ _ ++ [colon] ++ raw.takeWhile (· = space) ++ raw.dropWhile (· = space) = _
    rw [List.append_assoc, List.takeWhile_append_dropWhile, List.append_assoc, List.append_assoc]
    rfl
  | bare b starts noColon => exact ⟨_, HeaderScanner.next_bare s starts noColon passed, rfl, rfl⟩

/-- **The loop reads all entries and stops at the stop.** By induction on the entries. -/
theorem headerLoop_entries (entries : List Entry) (stop : Stop) :
    ∀ (fuel : Nat) {s : HeaderScanner} (h : RequestHeader) (passed : Bytes), entries.length < fuel →
      ∃ s', RequestHeader.headerLoop fuel (s.at_ passed (bytesOf entries ++ stop.bytes)) h =
          (s', h.addEntries s.disableNormalizing entries) ∧
        s'.memory = passed ++ (writtenOf s.disableNormalizing entries ++ stop.written s.disableNormalizing) ∧
        match stop with
        | .ends _ rest _ => s'.err = s.err ∧ s'.b = rest
        | _ => s'.err = some errNeedMore := by
  induction entries with
  | nil =>
    intro fuel s h passed enough
    obtain ⟨fuel, rfl⟩ : ∃ less, fuel = less + 1 := ⟨fuel - 1, by omega⟩
    obtain ⟨s', stopped, memory, state⟩ := next_stop (s := s) stop passed
    refine ⟨s', ?_, memory, state⟩
    exact RequestHeader.headerLoop_stop stopped fuel h
  | cons e entries ih =>
    intro fuel s h passed enough
    rw [List.length_cons] at enough
    obtain ⟨fuel, rfl⟩ : ∃ less, fuel = less + 1 := ⟨fuel - 1, by omega⟩
    obtain ⟨s', scanned, memory, state⟩ := ih fuel
      (s := { s with key := e.key s.disableNormalizing, value := e.value })
      (h.addField (e.key s.disableNormalizing) e.value) (passed ++ e.written s.disableNormalizing) (by omega)
    refine ⟨s', ?_, ?_, state⟩
    · rw [bytesOf_cons, List.append_assoc, headerLoop_entry, scanned]
      rfl
    · rw [memory, writtenOf_cons, List.append_assoc, List.append_assoc]

end Scan

namespace RequestHeader

/-- **What `parseHeaders` makes of a run of entries.** -/
theorem parseHeaders_entries (h : RequestHeader) (entries : List Entry) (stop : Stop) :
    h.parseHeaders (bytesOf entries ++ stop.bytes) =
      (match stop.length? with
        | some _ => ({ h with contentLength := -2 }.addEntries h.disableNormalizing entries).finish
        | none => { ({ h with contentLength := -2 }.addEntries h.disableNormalizing entries) with
            connectionClose := true },
      writtenOf h.disableNormalizing entries ++ stop.written h.disableNormalizing,
      match stop.length? with
      | some n => .ok ((bytesOf entries).length + n)
      | none => .error errNeedMore) := by
  have enough : entries.length < (bytesOf entries ++ stop.bytes).length + 1 := by
    have := length_le_bytesOf entries
    rw [List.length_append]
    omega
  obtain ⟨s', scanned, memory, state⟩ := headerLoop_entries entries stop _
    (s := { b := [], disableNormalizing := h.disableNormalizing }) { h with contentLength := -2 } [] enough
  unfold parseHeaders
  dsimp only
  change RequestHeader.headerLoop _
    { b := bytesOf entries ++ stop.bytes, disableNormalizing := h.disableNormalizing } _ = _ at scanned
  rw [scanned]
  unfold endHeaders
  cases stop with
  | ends eol rest empty =>
    obtain ⟨noError, left⟩ := state
    have size : (bytesOf entries ++ (eol ++ rest)).length - rest.length = (bytesOf entries).length + eol.length := by
      simp only [List.length_append]
      omega
    dsimp only at noError ⊢
    rw [noError]
    dsimp only [Stop.length?, Stop.bytes]
    rw [memory, left, size]
    rfl
  | open_ name raw =>
    rw [state]
    dsimp only [Stop.length?]
    rw [memory]
    rfl
  | bare b =>
    rw [state]
    dsimp only [Stop.length?]
    rw [memory]
    rfl

end RequestHeader

end Strike.Http
