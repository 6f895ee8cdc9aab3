/-
**URIs** (`URI` of `pkg/protocol/http/v1/uri.go`).

`parse` splits a URI at the first `?` and the first `#` and normalises the path; `RequestURI` puts the parts
together again, with the path quoted. Quoting leaves no `?` and no `#` in a path, and a normal path does not begin
with `//`, so the rebuilt string is split at the same places and is not taken for one with a host.

* `exists_pieces`: every string has a path, a query and a fragment.
* `requestURI_round_trip`: path, query string and fragment are read back.
-/

import Strike.Http.Path
import Strike.Utils.Query

namespace Strike.Http

/-- `?`. -/
def question : UInt8 := 63

/-- `#`. -/
def sharp : UInt8 := 35

def strHTTP : Bytes := ascii "http"

/-- `LowercaseBytes`. -/
def lowercaseBytes (b : Bytes) : Bytes := b.map toLower

/-- `URI`, without the header that `Host` falls back to. -/
structure URI where
  pathOriginal : Bytes := []
  scheme : Bytes := []
  path : Bytes := []
  queryString : Bytes := []
  hash : Bytes := []
  host : Bytes := []
  queryArgs : Args := {}
  parsedQueryArgs : Bool := false
  deriving DecidableEq, Repr

/-- `splitHostURI`: scheme, host and the rest. -/
def splitHostURI (host uri : Bytes) : Bytes × Bytes × Bytes :=
  match indexOf strSlashSlash uri with
  | none => (strHTTP, host, uri)
  | some n =>
    let scheme := uri.take n
    match indexByte scheme slash with
    | some _ => (strHTTP, host, uri)
    | none =>
      let scheme := if scheme.length > 0 ∧ scheme.getLast? = some colon then scheme.dropLast else scheme
      let uri := uri.drop (n + strSlashSlash.length)
      match indexByte uri slash with
      | some n => (scheme, uri.take n, uri.drop n)
      | none =>
        match indexByte uri question with
        | some n => (scheme, uri.take n, uri.drop n)
        | none => (scheme, uri, strSlash)

namespace URI

/-- `Reset`. -/
def reset (u : URI) : URI := { queryArgs := u.queryArgs.reset }

/-- What `parse` does with the part behind the host. -/
def parsePath (u : URI) (b : Bytes) : URI :=
  let fragmentIndex := indexByte b sharp
  let queryIndex :=
    match indexByte b question, fragmentIndex with
    -- a query in the fragment is none
    | some query, some fragment => if query > fragment then none else some query
    | queryIndex, _ => queryIndex
  match queryIndex, fragmentIndex with
  | none, none => { u with pathOriginal := b, path := normalizePath b }
  | some query, none =>
    { u with
      pathOriginal := b.take query
      path := normalizePath (b.take query)
      queryString := b.drop (query + 1) }
  | some query, some fragment =>
    { u with
      pathOriginal := b.take query
      path := normalizePath (b.take query)
      queryString := (b.take fragment).drop (query + 1)
      hash := b.drop (fragment + 1) }
  | none, some fragment =>
    { u with
      pathOriginal := b.take fragment
      path := normalizePath (b.take fragment)
      hash := b.drop (fragment + 1) }

/-- `Parse`. -/
def parse (u : URI) (host uri : Bytes) : URI :=
  match splitHostURI host uri with
  | (scheme, host, b) =>
    parsePath { u.reset with scheme := lowercaseBytes scheme, host := lowercaseBytes host } b

/-- `Path`. -/
def getPath (u : URI) : Bytes := if u.path.length = 0 then strSlash else u.path

/-- `RequestURI`. -/
def requestURI (u : URI) : Bytes :=
  let dst := appendQuotedPath [] u.getPath
  let dst :=
    if u.queryArgs.args.length > 0 then u.queryArgs.appendBytes (dst ++ [question])
    else if u.queryString.length > 0 then dst ++ [question] ++ u.queryString
    else dst
  if u.hash.length > 0 then dst ++ [sharp] ++ u.hash else dst

end URI

/-! ### The pieces of a URI -/

/-- A piece with its mark in front, if there is one. -/
def marked (mark : UInt8) : Option Bytes → Bytes
  | none => []
  | some text => mark :: text

/-- **The pieces of a URI**: a path, a query and a fragment. -/
structure Pieces where
  path : Bytes
  query : Option Bytes
  fragment : Option Bytes
  noQuestion : question ∉ path
  noSharp : sharp ∉ path
  inQuery : ∀ text ∈ query, sharp ∉ text

namespace Pieces

def bytes (p : Pieces) : Bytes := p.path ++ (marked question p.query ++ marked sharp p.fragment)

/-- **Every string has its pieces**: the fragment is split off first, then the query. -/
theorem exists_pieces (b : Bytes) : ∃ p : Pieces, p.bytes = b := by
  obtain ⟨front, fragment, rfl, noSharp⟩ : ∃ front fragment, b = front ++ marked sharp fragment ∧ sharp ∉ front := by
    by_cases there : sharp ∈ b
    · obtain ⟨front, text, rfl, absent⟩ := List.eq_append_cons_of_mem there
      exact ⟨front, some text, rfl, absent⟩
    · exact ⟨b, none, (List.append_nil b).symm, there⟩
  by_cases there : question ∈ front
  · obtain ⟨path, text, rfl, absent⟩ := List.eq_append_cons_of_mem there
    rw [List.mem_append, List.mem_cons, not_or, not_or] at noSharp
    refine ⟨⟨path, some text, fragment, absent, noSharp.1, ?_⟩, ?_⟩
    · rintro _ ⟨⟩
      exact noSharp.2.2
    · simp [bytes, marked]
  · exact ⟨⟨front, none, fragment, there, noSharp, nofun⟩, by simp [bytes, marked]⟩

/-- What `parse` keeps of them. -/
def into (p : Pieces) (u : URI) : URI :=
  { u with
    pathOriginal := p.path
    path := normalizePath p.path
    queryString := p.query.getD []
    hash := p.fragment.getD [] }

theorem indexByte_sharp (p : Pieces) : indexByte p.bytes sharp =
    p.fragment.map fun _ => p.path.length + (marked question p.query).length := by
  have absent : sharp ∉ p.path ++ marked question p.query := by
    rw [List.mem_append, not_or]
    refine ⟨p.noSharp, ?_⟩
    cases query : p.query with
    | none => exact List.not_mem_nil
    | some text =>
      rw [marked, List.mem_cons, not_or]
      exact ⟨by decide, p.inQuery text query⟩
  unfold bytes
  rw [← List.append_assoc]
  cases p.fragment with
  | none => rw [marked, List.append_nil, indexByte_eq_none.mpr absent, Option.map_none]
  | some text => rw [marked, indexByte_append absent, List.length_append, Option.map_some]

theorem indexByte_question {p : Pieces} {text : Bytes} (given : p.query = some text) :
    indexByte p.bytes question = some p.path.length := by
  rw [bytes, given, marked, List.cons_append, indexByte_append p.noQuestion]

theorem behind_sharp {p : Pieces} (given : p.query = none) {n : Nat} (found : indexByte p.bytes question = some n) :
    ∃ text, p.fragment = some text ∧ n > p.path.length := by
  rw [bytes, given, marked, List.nil_append] at found
  obtain ⟨front, back, split, -, rfl⟩ := indexByte_split found
  have mem : question ∈ p.path ++ marked sharp p.fragment := by
    rw [split]
    exact List.mem_append_right _ List.mem_cons_self
  cases fragment : p.fragment with
  | none =>
    rw [fragment, marked, List.append_nil] at mem
    exact absurd mem p.noQuestion
  | some text =>
    refine ⟨text, rfl, ?_⟩
    rw [fragment, marked] at split
    rcases List.append_eq_append_iff.mp split with ⟨more, rfl, rest⟩ | ⟨more, path, rest⟩
    · cases more with
      | nil => exact absurd (List.cons.inj rest).1 (by decide)
      | cons c more => simp
    · cases more with
      | nil => exact absurd (List.cons.inj rest).1 (by decide)
      | cons c more =>
        refine absurd ?_ p.noQuestion
        rw [path, (List.cons.inj rest).1]
        exact List.mem_append_right _ List.mem_cons_self

/-- **The pieces are found.** -/
theorem parsePath_bytes (p : Pieces) {u : URI} (noQuery : u.queryString = []) (noHash : u.hash = []) :
    u.parsePath p.bytes = p.into u := by
  unfold URI.parsePath into
  dsimp only
  rw [indexByte_sharp]
  cases query : p.query with
  | some text =>
    rw [indexByte_question query]
    cases fragment : p.fragment with
    | none => simp [bytes, query, fragment, marked, noHash]
    | some text' =>
      have order : ¬ p.path.length > p.path.length + (marked question (some text)).length := by omega
      have whole : p.bytes = p.path ++ question :: text ++ sharp :: text' := by simp [bytes, query, fragment, marked]
      have size : p.path.length + (marked question (some text)).length = (p.path ++ question :: text).length := by
        simp [marked]
      simp only [Option.map_some, if_neg order]
      rw [size, whole, List.take_left, List.drop_length_add_append, List.drop_length_add_append]
      simp
  | none =>
    cases found : indexByte p.bytes question with
    | none =>
      cases fragment : p.fragment with
      | none => simp [bytes, query, fragment, marked, noHash, noQuery]
      | some text => simp [bytes, query, fragment, marked, noQuery]
    | some n =>
      obtain ⟨text, fragment, behind⟩ := behind_sharp query found
      have order : n > p.path.length + (marked question none).length := behind
      rw [fragment]
      simp only [Option.map_some, if_pos order]
      simp [bytes, query, fragment, marked, noQuery]

end Pieces

/-! ### The round trip -/

theorem splitHostURI_rooted {rest : Bytes} (one : rest.head? ≠ some slash) (host : Bytes) :
    splitHostURI host (slash :: rest) = (strHTTP, host, slash :: rest) := by
  unfold splitHostURI
  cases found : indexOf strSlashSlash (slash :: rest) with
  | none => rfl
  | some n =>
    obtain ⟨front, back, split, rfl⟩ := indexOf_there found
    cases front with
    | nil =>
      refine absurd ?_ one
      rw [(List.cons.inj split).2]
      rfl
    | cons c front =>
      have first : c = slash := (List.cons.inj split).1.symm
      subst first
      rfl

theorem quoted_head {path : Bytes} (one : path.head? ≠ some slash) : (quoted plainPath path).head? ≠ some slash := by
  cases path with
  | nil => exact one
  | cons c path =>
    rw [quoted_cons, quoteByte]
    split
    · exact one
    · simp [slash]

namespace URI

/-- **What holds of a parsed URI**, before its arguments are parsed. -/
structure Parsed (u : URI) : Prop where
  normal : Normal u.path
  noSharp : sharp ∉ u.queryString
  noArgs : u.queryArgs.args = []

theorem parse_eq (u : URI) (host uri : Bytes) : ∃ (p : Pieces) (scheme host' : Bytes),
    splitHostURI host uri = (scheme, host', p.bytes) ∧
      u.parse host uri = p.into { u.reset with scheme := lowercaseBytes scheme, host := lowercaseBytes host' } := by
  obtain ⟨p, whole⟩ := Pieces.exists_pieces (splitHostURI host uri).2.2
  refine ⟨p, (splitHostURI host uri).1, (splitHostURI host uri).2.1, by rw [whole], ?_⟩
  unfold parse
  dsimp only
  rw [← whole]
  exact p.parsePath_bytes rfl rfl

theorem parse_parsed (u : URI) (host uri : Bytes) : (u.parse host uri).Parsed := by
  obtain ⟨p, scheme, host', -, parsed⟩ := u.parse_eq host uri
  rw [parsed]
  refine ⟨normalizePath_normal p.path, ?_, rfl⟩
  change sharp ∉ p.query.getD []
  cases query : p.query with
  | none => exact List.not_mem_nil
  | some text => exact p.inQuery text query

/-- The piece a text stands for: an empty one is left out. -/
def piece (text : Bytes) : Option Bytes := if text.length > 0 then some text else none

theorem piece_getD (text : Bytes) : (piece text).getD [] = text := by
  unfold piece
  split
  · rfl
  · next empty => exact (List.eq_nil_of_length_eq_zero (by omega)).symm

/-- The pieces of the rebuilt URI. -/
def rebuilt (u : URI) (parsed : u.Parsed) : Pieces where
  path := quoted plainPath u.path
  query := piece u.queryString
  fragment := piece u.hash
  noQuestion := not_mem_quoted (by decide) (by decide) (by decide) u.path
  noSharp := not_mem_quoted (by decide) (by decide) (by decide) u.path
  inQuery := by
    intro text there
    unfold piece at there
    split at there
    · cases there
      exact parsed.noSharp
    · cases there

theorem Parsed.requestURI {u : URI} (parsed : u.Parsed) : u.requestURI = (u.rebuilt parsed).bytes := by
  obtain ⟨rest, path⟩ := parsed.normal.rooted
  have given : u.getPath = u.path := if_neg (by simp [path])
  unfold URI.requestURI Pieces.bytes rebuilt piece
  dsimp only
  rw [given, parsed.noArgs, if_neg (show ¬ ([] : List ArgsKV).length > 0 by decide)]
  split_ifs <;> simp [appendQuotedPath, marked]

theorem Parsed.requestURI_rooted {u : URI} (parsed : u.Parsed) :
    ∃ rest, u.requestURI = slash :: rest ∧ rest.head? ≠ some slash := by
  obtain ⟨rest, path⟩ := parsed.normal.rooted
  have one : rest.head? ≠ some slash := by
    intro two
    obtain ⟨more, rfl⟩ := List.head?_eq_some_iff.mp two
    exact parsed.normal.noSlashSlash ⟨[], more, by rw [path]; rfl⟩
  refine ⟨quoted plainPath rest ++ (marked question (piece u.queryString) ++ marked sharp (piece u.hash)), ?_, ?_⟩
  · rw [parsed.requestURI, Pieces.bytes, rebuilt]
    dsimp only
    rw [path, quoted_cons]
    rfl
  · rw [List.head?_append, List.head?_append]
    cases begins : (quoted plainPath rest).head? with
    | some c =>
      have other := quoted_head one
      rw [begins] at other
      exact other
    | none =>
      unfold piece
      split_ifs <;> simp [marked, question, sharp, slash]

/-- **Path, query string and fragment are read back** from the request URI of a parsed URI, with any host. -/
theorem requestURI_round_trip (u₀ u₁ : URI) (host uri host' : Bytes) :
    (u₁.parse host' (u₀.parse host uri).requestURI).getPath = (u₀.parse host uri).getPath ∧
      (u₁.parse host' (u₀.parse host uri).requestURI).queryString = (u₀.parse host uri).queryString ∧
      (u₁.parse host' (u₀.parse host uri).requestURI).hash = (u₀.parse host uri).hash := by
  have parsed := u₀.parse_parsed host uri
  generalize u₀.parse host uri = u at *
  obtain ⟨rest, rooted, one⟩ := parsed.requestURI_rooted
  have again : u₁.parse host' u.requestURI =
      (u.rebuilt parsed).into { u₁.reset with scheme := lowercaseBytes strHTTP, host := lowercaseBytes host' } := by
    unfold parse
    rw [rooted, splitHostURI_rooted one, ← rooted, parsed.requestURI]
    exact (u.rebuilt parsed).parsePath_bytes rfl rfl
  have path : normalizePath (quoted plainPath u.path) = u.path :=
    normalizePath_quoted (by decide) (by decide) parsed.normal
  rw [again]
  refine ⟨?_, piece_getD u.queryString, piece_getD u.hash⟩
  unfold getPath
  change (if (normalizePath (quoted plainPath u.path)).length = 0 then strSlash
    else normalizePath (quoted plainPath u.path)) = _
  rw [path]

end URI

end Strike.Http
