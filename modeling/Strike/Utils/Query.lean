/-
**Query arguments** (`Args` of `utils/args.go`).

`AppendBytes` writes the pairs with quoted keys and values, joined by `&`. `ParseBytes` cuts at `&` and at the
first `=` and decodes into entries that are used again. A separator never occurs in what is quoted, so the
scanner finds each pair where it was written.

* `parseBytes_appendBytes`: the whole list is read back, whatever the entries held before.
-/

import Strike.Lib.Loop
import Strike.Utils.Args
import Strike.Utils.Quoting

namespace Strike

/-- `&`. -/
def ampersand : UInt8 := 38

/-- `=`. -/
def equals : UInt8 := 61

/-- `Args`: the pairs, and the entries behind them up to the capacity, which still hold what was there. -/
structure Args where
  args : List ArgsKV := []
  stale : List ArgsKV := []
  deriving DecidableEq, Repr

/-! ### The scanner -/

/-- The loop of `argsScanner.next` over the bytes from index `i` on: what the entry holds then, and the bytes
left. -/
def scanArg (b : Bytes) : Nat → Bool → Nat → ArgsKV → Bytes → ArgsKV × Bytes
  | i, isKey, k, kv, c :: rest =>
    if c = equals then
      if isKey then scanArg b (i + 1) false (i + 1) { kv with key := decodeArgAppend [] (b.take i) } rest
      else scanArg b (i + 1) isKey k kv rest
    else if c = ampersand then
      if isKey then (⟨decodeArgAppend [] (b.take i), []⟩, b.drop (i + 1))
      else ({ kv with value := decodeArgAppend [] ((b.take i).drop k) }, b.drop (i + 1))
    else scanArg b (i + 1) isKey k kv rest
  | _, isKey, k, kv, [] =>
    if isKey then (⟨decodeArgAppend [] b, []⟩, [])
    else ({ kv with value := decodeArgAppend [] (b.drop k) }, [])

/-- `argsScanner.next` into an entry; `none` when there is nothing left. -/
def argsScannerNext (b : Bytes) (kv : ArgsKV) : Option (ArgsKV × Bytes) :=
  if b.length = 0 then none else some (scanArg b 0 true 0 kv b)

/-- What the scanner reads from the bytes in front of an `&`. -/
def readItem (item : Bytes) : ArgsKV :=
  match indexByte item equals with
  | none => ⟨decodeArgAppend [] item, []⟩
  | some i => ⟨decodeArgAppend [] (item.take i), decodeArgAppend [] (item.drop (i + 1))⟩

section Scanner

variable {b item back : Bytes} {kv : ArgsKV}

theorem scanArg_value (back : Bytes) (k : Nat) (kv : ArgsKV) (front value : Bytes) (one : ampersand ∉ value) :
    scanArg (front ++ value ++ ampersand :: back) front.length false k kv (value ++ ampersand :: back) =
        ({ kv with value := decodeArgAppend [] ((front ++ value).drop k) }, back) ∧
      scanArg (front ++ value) front.length false k kv value =
        ({ kv with value := decodeArgAppend [] ((front ++ value).drop k) }, []) := by
  induction value generalizing front with
  | nil =>
    constructor
    · rw [List.append_nil, List.nil_append, scanArg, if_neg (by decide), if_pos rfl, if_neg (by decide),
        List.take_left, List.drop_length_add_append, List.drop_succ_cons, List.drop_zero]
    · rw [List.append_nil, scanArg, if_neg (by decide)]
  | cons c value ih =>
    rw [List.mem_cons, not_or] at one
    have step : ∀ (b rest : Bytes), scanArg b front.length false k kv (c :: rest) =
        scanArg b (front.length + 1) false k kv rest := by
      intro b rest
      rw [scanArg]
      by_cases isEquals : c = equals
      · rw [if_pos isEquals, if_neg (by decide)]
      · rw [if_neg isEquals, if_neg (Ne.symm one.1)]
    have later := ih (front ++ [c]) one.2
    rw [List.length_append, List.length_singleton, List.append_assoc front, List.singleton_append] at later
    rw [List.cons_append, step, step]
    exact later

/-- **The scanner reads the bytes up to the next `&`** and leaves those behind it. By induction on what is left
of the key. -/
theorem scanArg_key (back : Bytes) (kv : ArgsKV) (front rest : Bytes) (before : equals ∉ front)
    (one : ampersand ∉ rest) :
    scanArg (front ++ rest ++ ampersand :: back) front.length true 0 kv (rest ++ ampersand :: back) =
        (readItem (front ++ rest), back) ∧
      scanArg (front ++ rest) front.length true 0 kv rest = (readItem (front ++ rest), []) := by
  induction rest generalizing front with
  | nil =>
    have noEquals : readItem front = ⟨decodeArgAppend [] front, []⟩ := by
      rw [readItem, indexByte_eq_none.mpr before]
    constructor
    · rw [List.append_nil, List.nil_append, scanArg, if_neg (by decide), if_pos rfl, if_pos rfl,
        List.take_left, noEquals, List.drop_length_add_append, List.drop_succ_cons, List.drop_zero]
    · rw [List.append_nil, scanArg, if_pos rfl, noEquals]
  | cons c rest ih =>
    rw [List.mem_cons, not_or] at one
    by_cases isEquals : c = equals
    · -- the key ends here, the value begins behind
      subst isEquals
      have read : readItem (front ++ equals :: rest) =
          ⟨decodeArgAppend [] front, decodeArgAppend [] ((front ++ [equals] ++ rest).drop (front.length + 1))⟩ := by
        rw [readItem, indexByte_append before, List.append_assoc, List.singleton_append]
        simp
      have value := fun kv' => scanArg_value back (front.length + 1) kv' (front ++ [equals]) rest one.2
      simp only [List.length_append, List.length_singleton, List.append_assoc, List.cons_append,
        List.nil_append] at value read
      constructor
      · rw [List.append_assoc, List.cons_append, scanArg, if_pos rfl, if_pos rfl, (value _).1, read, List.take_left]
      · rw [scanArg, if_pos rfl, if_pos rfl, (value _).2, read, List.take_left]
    · have step : ∀ (b rest : Bytes), scanArg b front.length true 0 kv (c :: rest) =
          scanArg b (front.length + 1) true 0 kv rest := fun b rest => by
        rw [scanArg, if_neg isEquals, if_neg (Ne.symm one.1)]
      have later := ih (front ++ [c]) (by simp [before, Ne.symm isEquals]) one.2
      rw [List.length_append, List.length_singleton, List.append_assoc front, List.singleton_append] at later
      rw [List.cons_append, step, step]
      exact later

theorem next_front (kv : ArgsKV) (one : ampersand ∉ item) :
    argsScannerNext (item ++ ampersand :: back) kv = some (readItem item, back) := by
  rw [argsScannerNext, if_neg (by simp)]
  exact congrArg some (scanArg_key back kv [] item List.not_mem_nil one).1

theorem next_last (kv : ArgsKV) (one : ampersand ∉ item) (given : item ≠ []) :
    argsScannerNext item kv = some (readItem item, []) := by
  rw [argsScannerNext, if_neg (by simpa using given)]
  exact congrArg some (scanArg_key [] kv [] item List.not_mem_nil one).2

/-- **The scanner gets on.** -/
theorem next_shorter {left : Bytes} {kv kv' : ArgsKV} (found : argsScannerNext b kv = some (kv', left)) :
    left.length < b.length := by
  have given : b ≠ [] := by
    rintro rfl
    cases found
  by_cases one : ampersand ∈ b
  · obtain ⟨front, back, rfl, absent⟩ := List.eq_append_cons_of_mem one
    rw [next_front kv absent] at found
    cases found
    simp
    omega
  · rw [next_last kv one given] at found
    cases found
    exact List.length_pos_of_ne_nil given

end Scanner

/-! ### Reading and writing -/

namespace Args

/-- `Reset`: the entries stay behind the end. -/
def reset (a : Args) : Args := { args := [], stale := a.args ++ a.stale }

/-- `AllocArg`: the entry a list grows by is the one behind its end, if there is room, and else an empty one.
The entries `append` makes room for are empty too, so they need no place of their own here. -/
def allocArg : List ArgsKV → ArgsKV × List ArgsKV
  | kv :: stale => (kv, stale)
  | [] => (⟨[], []⟩, [])

/-- Where the loop of `ParseBytes` is: the pairs in front of the entry `kv` that is read into, the entries
behind it, and the bytes left. -/
structure Reading where
  args : List ArgsKV
  kv : ArgsKV
  stale : List ArgsKV
  b : Bytes

/-- One round of the loop of `ParseBytes`. -/
def parseRound (r : Reading) : Option Reading :=
  match argsScannerNext r.b r.kv with
  | none => none
  | some (kv, b) =>
    if kv.key.length > 0 ∨ kv.value.length > 0 then
      some ⟨r.args ++ [kv], (allocArg r.stale).1, (allocArg r.stale).2, b⟩
    else some { r with kv, b }

/-- The loop of `ParseBytes`. -/
def parseLoop : Lib.Loop Reading where
  round := parseRound
  size r := r.b.length
  falls {r r'} went := by
    unfold parseRound at went
    split at went
    · cases went
    · next kv b found =>
        split at went <;> (cases went; exact next_shorter found)

/-- `ParseBytes`. -/
def parseBytes (a : Args) (b : Bytes) : Args :=
  let start := allocArg a.reset.stale
  let r := parseLoop.run ⟨a.reset.args, start.1, start.2, b⟩
  -- ReleaseArg: the last entry is none of the pairs
  { args := r.args, stale := r.kv :: r.stale }

/-- The loop of `AppendBytes`. -/
def appendPairs (dst : Bytes) : List ArgsKV → Bytes
  | [] => dst
  | kv :: rest =>
    let dst := appendQuotedArg dst kv.key
    let dst := if kv.value.length > 0 then appendQuotedArg (dst ++ [equals]) kv.value else dst
    let dst := if rest.length > 0 then dst ++ [ampersand] else dst
    appendPairs dst rest

/-- `AppendBytes`. -/
def appendBytes (a : Args) (dst : Bytes) : Bytes := appendPairs dst a.args

/-! ### The round trip -/

/-- What is written for one pair. -/
def item (kv : ArgsKV) : Bytes :=
  quoted plainArg kv.key ++ if kv.value.length > 0 then equals :: quoted plainArg kv.value else []

/-- The pairs are written one after the other. -/
theorem appendPairs_cons (dst : Bytes) (kv : ArgsKV) (rest : List ArgsKV) : appendPairs dst (kv :: rest) =
      appendPairs (dst ++ item kv ++ if rest.length > 0 then [ampersand] else []) rest := by
  rw [appendPairs]
  unfold item appendQuotedArg
  congr 1
  split_ifs <;> simp

theorem appendPairs_append (dst : Bytes) (pairs : List ArgsKV) :
    appendPairs dst pairs = dst ++ appendPairs [] pairs := by
  induction pairs generalizing dst with
  | nil => rw [appendPairs, appendPairs, List.append_nil]
  | cons kv rest ih =>
    rw [appendPairs_cons, appendPairs_cons, ih, ih ([] ++ item kv ++ _)]
    simp only [List.nil_append, List.append_assoc]

theorem separator_not_mem (src : Bytes) : equals ∉ quoted plainArg src ∧ ampersand ∉ quoted plainArg src :=
  ⟨not_mem_quoted (by decide) (by decide) (by decide) src, not_mem_quoted (by decide) (by decide) (by decide) src⟩

theorem decode_quoted (src : Bytes) : decodeArgAppend [] (quoted plainArg src) = src :=
  decodeAppend_quoted (by decide) (fun _ => by decide) [] src

theorem ampersand_not_mem_item (kv : ArgsKV) : ampersand ∉ item kv := by
  unfold item
  rw [List.mem_append, not_or]
  refine ⟨(separator_not_mem kv.key).2, ?_⟩
  split
  · rw [List.mem_cons, not_or]
    exact ⟨by decide, (separator_not_mem kv.value).2⟩
  · exact List.not_mem_nil

/-- **What is written for one pair is read back.** -/
theorem readItem_item (kv : ArgsKV) : readItem (item kv) = kv := by
  have absent : equals ∉ quoted plainArg kv.key := (separator_not_mem kv.key).1
  unfold readItem item
  split_ifs with given
  · rw [indexByte_append absent]
    simp only [List.take_left, List.drop_length_add_append, List.drop_succ_cons, List.drop_zero, decode_quoted]
  · rw [List.append_nil, indexByte_eq_none.mpr absent]
    simp only [decode_quoted]
    have empty : kv.value = [] := List.eq_nil_of_length_eq_zero (by omega)
    rw [← empty]

theorem item_ne_nil {kv : ArgsKV} (given : kv.key ≠ [] ∨ kv.value ≠ []) : item kv ≠ [] := by
  intro none
  have read := readItem_item kv
  rw [none] at read
  rcases given with key | value
  · exact key (by rw [← read]; rfl)
  · exact value (by rw [← read]; rfl)

theorem parseRound_pair {r : Reading} {kv : ArgsKV} {b : Bytes} (found : argsScannerNext r.b r.kv = some (kv, b))
    (given : kv.key ≠ [] ∨ kv.value ≠ []) :
    parseLoop.round r = some ⟨r.args ++ [kv], (allocArg r.stale).1, (allocArg r.stale).2, b⟩ := by
  change parseRound r = _
  unfold parseRound
  rw [found]
  exact if_pos (by simpa [List.length_pos_iff] using given)

theorem parseRound_end {r : Reading} (empty : r.b = []) : parseLoop.round r = none := by
  change parseRound r = _
  unfold parseRound
  rw [empty]
  rfl

/-- **The pairs still to be read are added to those read.** By induction on them. -/
theorem parseLoop_pairs (pairs : List ArgsKV) (given : ∀ kv ∈ pairs, kv.key ≠ [] ∨ kv.value ≠ []) :
    ∀ r : Reading, r.b = appendPairs [] pairs → (parseLoop.run r).args = r.args ++ pairs := by
  induction pairs with
  | nil =>
    intro r left
    rw [parseLoop.run_of_done (parseRound_end left), List.append_nil]
  | cons kv rest ih =>
    intro r left
    have here := given kv List.mem_cons_self
    rw [appendPairs_cons, appendPairs_append, List.nil_append, List.append_assoc] at left
    -- an `&` is behind the pair unless it is the last one
    have found : argsScannerNext r.b r.kv = some (kv, appendPairs [] rest) := by
      rw [left]
      cases rest with
      | nil =>
        simp only [List.length_nil, gt_iff_lt, Nat.lt_irrefl, if_false, appendPairs, List.append_nil]
        rw [next_last r.kv (ampersand_not_mem_item kv) (item_ne_nil here), readItem_item]
      | cons next rest =>
        rw [if_pos (by simp), List.singleton_append, next_front r.kv (ampersand_not_mem_item kv), readItem_item]
    rw [parseLoop.run_of_round (parseRound_pair found here),
      ih (fun kv' there => given kv' (List.mem_cons_of_mem _ there)) _ rfl, List.append_assoc, List.singleton_append]

/-- **Query arguments are read back as they were written**, in order, into whatever the entries held. -/
theorem parseBytes_appendBytes (a written : Args) (given : ∀ kv ∈ written.args, kv.key ≠ [] ∨ kv.value ≠ []) :
    (a.parseBytes (written.appendBytes [])).args = written.args :=
  parseLoop_pairs written.args given _ rfl

/-- An empty key, a value with separators and a key that comes again, into two used entries. -/
theorem parseBytes_appendBytes_used : (parseBytes ⟨[⟨ascii "old", ascii "1"⟩], [⟨ascii "older", ascii "2"⟩]⟩
      (appendBytes ⟨[⟨[], ascii "a&b=%"⟩, ⟨ascii "k", []⟩, ⟨ascii "k", ascii "v w"⟩], []⟩ [])).args =
      [⟨[], ascii "a&b=%"⟩, ⟨ascii "k", []⟩, ⟨ascii "k", ascii "v w"⟩] :=
  parseBytes_appendBytes _ _ (by decide)

end Args

end Strike
