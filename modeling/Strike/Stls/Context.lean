/-
**Which certificate a client gets** (`tls.go`).

`GetConfigForClient` goes through the contexts once and takes the first that knows the server name, one of
its wildcard forms or a protocol of the client. The table it asks, `buildMatch`, holds the names of the
certificates, the protocols and the configured name as they are written.

* `Covers`: a context has a name for the server, whatever the case of its letters.
* `Answers`: the search stops at the context, because of a name (`Written`) or of a protocol (not `Clear`).
* `config_iff`: when the first context that covers the name is the one that is taken.
* `protocol_first`: with a protocol or an upper case letter in the way another one is.
-/

import Strike.Go.Bytes
import Strike.Utils.BytesConv

namespace Strike.Stls

/-- The names in a certificate. -/
structure CertNames where
  commonName : Bytes
  dnsNames : List Bytes := []
  deriving Repr, DecidableEq

/-- What the context manager reads of a `tls.Config`. A certificate that cannot be parsed has no names. -/
structure TLSConfig where
  certificates : List (Option CertNames)
  nextProtos : List Bytes := []
  deriving Repr, DecidableEq

/-- `context`. -/
structure Context where
  tlsConfig : TLSConfig
  serverName : Bytes := []
  deriving Repr, DecidableEq

/-- The names of one certificate that go into the table. -/
def CertNames.names (cert : CertNames) : List Bytes :=
  (if cert.commonName.length > 0 then [cert.commonName] else []) ++ cert.dnsNames

/-- The names a context has: those in its certificates and the configured one. -/
def Context.names (ctx : Context) : List Bytes :=
  (ctx.tlsConfig.certificates.filterMap id).flatMap CertNames.names ++ [ctx.serverName]

/-- `buildMatch`: the keys of `matches`. -/
def Context.buildMatch (ctx : Context) : List Bytes :=
  (ctx.tlsConfig.certificates.filterMap id).flatMap CertNames.names ++ ctx.tlsConfig.nextProtos ++ [ctx.serverName]

/-- `tls.ClientHelloInfo`. -/
structure ClientHelloInfo where
  serverName : Bytes
  supportedProtos : List Bytes := []
  deriving Repr, DecidableEq

/-- The name without the dots at its end. -/
def trimDots (name : Bytes) : Bytes := name.rdropWhile (· = 46)

/-- The wildcard forms of a name, in the order in which they are tried. -/
def candidates (name : Bytes) : List Bytes :=
  let labels := name.splitOn 46
  (List.range (labels.length - 1)).map fun i => [46].intercalate ([42] :: labels.drop (i + 1))

section

variable (toLower : Bytes → Bytes)

/-- The context knows the server name or a protocol of the client. -/
def Context.found (ctx : Context) (info : ClientHelloInfo) : Bool :=
  (info.serverName ≠ [] ∧
      let name := trimDots (toLower info.serverName)
      name ∈ ctx.buildMatch ∨ (candidates name).any (· ∈ ctx.buildMatch)) ∨
    info.supportedProtos.any fun protocol => toLower protocol ∈ ctx.buildMatch

/-- The place of `tlscontext` in the list: the first context that is found, or the first of all. -/
def tlscontext (contexts : List Context) (info : ClientHelloInfo) : Nat :=
  (contexts.findIdx? (·.found toLower info)).getD 0

/-- `GetConfigForClient`, with `strings.ToLower`. -/
def getConfigForClient (contexts : List Context) (info : ClientHelloInfo) : Except GoError TLSConfig :=
  match contexts[tlscontext toLower contexts info]? with
  | none => .error (.new "no certificate context in context manager")
  | some ctx => .ok ctx.tlsConfig

end

/-! ### The manager of a listener -/

/-- `v2.TLSConfig`: what `AddContext` reads itself. The rest is for `newTLSConfig`. -/
structure TLSSettings (κ : Type) where
  status : Bool
  serverName : Bytes := []
  fallback : Bool := false
  rest : κ
  deriving Repr, DecidableEq

/-- `contextManager` of a server. -/
structure ContextManager where
  contexts : List Context := []
  inspector : Bool
  deriving Repr, DecidableEq

/-- `ErrorGetCertificateFailed`. -/
def errorGetCertificateFailed : GoError := .new "get certificate failed"

section

variable {κ : Type} (newTLSConfig : TLSSettings κ → Except GoError TLSConfig)

/-- `AddContext` of a server. -/
def ContextManager.addContext (mgr : ContextManager) (c : TLSSettings κ) : Except GoError ContextManager :=
  if !c.status then .ok mgr
  else
    match newTLSConfig c with
    | .error err => if c.fallback ∧ err = errorGetCertificateFailed then .ok mgr else .error err
    | .ok tlsConfig => .ok { mgr with contexts := mgr.contexts ++ [{ tlsConfig, serverName := c.serverName }] }

/-- `NewTLSServerContextManager`, from what it reads of the listener's config. -/
def newTLSServerContextManager (inspector : Bool) (filterChains : List (TLSSettings κ)) :
    Except GoError ContextManager :=
  filterChains.foldlM (ContextManager.addContext newTLSConfig) { inspector }

end

/-! ### Wildcard forms -/

theorem intercalate_append {front rest : List Bytes} (first : front ≠ []) (last : rest ≠ []) :
    [46].intercalate (front ++ rest) = [46].intercalate front ++ 46 :: [46].intercalate rest := by
  induction front with
  | nil => exact absurd rfl first
  | cons label front ih =>
    rw [List.cons_append]
    by_cases alone : front = []
    · rw [alone, List.nil_append, List.intercalate_singleton, List.intercalate_cons_of_ne_nil last, List.append_assoc]
      rfl
    · rw [List.intercalate_cons_of_ne_nil (List.append_ne_nil_of_left_ne_nil alone rest), ih alone,
        List.intercalate_cons_of_ne_nil alone, List.append_assoc, List.append_assoc, List.append_assoc]

/-- **The wildcard forms of a name**: a star for what is in front of one of its dots. -/
theorem mem_candidates {name candidate : Bytes} :
    candidate ∈ candidates name ↔ ∃ front rest, name = front ++ 46 :: rest ∧ candidate = 42 :: 46 :: rest := by
  unfold candidates
  simp only [List.mem_map, List.mem_range]
  constructor
  · rintro ⟨i, short, rfl⟩
    have behind : (name.splitOn 46).drop (i + 1) ≠ [] := mt List.drop_eq_nil_iff.mp (by omega)
    refine ⟨[46].intercalate ((name.splitOn 46).take (i + 1)), [46].intercalate ((name.splitOn 46).drop (i + 1)), ?_, ?_⟩
    · rw [← intercalate_append (List.ne_nil_of_length_pos (by rw [List.length_take]; omega)) behind,
        List.take_append_drop, List.intercalate_splitOn]
    · rw [List.intercalate_cons_of_ne_nil behind]
      rfl
  · rintro ⟨front, rest, rfl, rfl⟩
    have first := List.length_pos_iff.mpr (List.splitOn_ne_nil 46 front)
    have last := List.length_pos_iff.mpr (List.splitOn_ne_nil 46 rest)
    rw [List.splitOn_append_cons_self]
    refine ⟨(front.splitOn 46).length - 1, ?_, ?_⟩
    · rw [List.length_append]
      omega
    · rw [Nat.sub_add_cancel first, List.drop_left, List.intercalate_cons_of_ne_nil (List.splitOn_ne_nil 46 rest),
        List.intercalate_splitOn]
      rfl

/-! ### Contexts that cover a name -/

/-- A name in the table stands for a server name: it is that name, or a wildcard form of it. -/
def StandsFor (entry name : Bytes) : Prop :=
  entry = name ∨ ∃ front rest, name = front ++ 46 :: rest ∧ entry = 42 :: 46 :: rest

theorem standsFor_iff {entry name : Bytes} : StandsFor entry name ↔ entry = name ∨ entry ∈ candidates name :=
  or_congr Iff.rfl mem_candidates.symm

instance (entry name : Bytes) : Decidable (StandsFor entry name) := decidable_of_iff _ standsFor_iff.symm

variable {toLower : Bytes → Bytes}

variable (toLower) in
/-- **The context covers a server name**, whatever the case of the letters and with dots at the end or
without. -/
def Context.Covers (ctx : Context) (serverName : Bytes) : Prop :=
  ∃ entry ∈ ctx.names, StandsFor (toLower entry) (trimDots (toLower serverName))

instance (ctx : Context) (serverName : Bytes) : Decidable (ctx.Covers toLower serverName) :=
  inferInstanceAs (Decidable (∃ entry ∈ ctx.names, _))

variable {ctx : Context} {info : ClientHelloInfo}

theorem Context.mem_buildMatch {entry : Bytes} :
    entry ∈ ctx.buildMatch ↔ entry ∈ ctx.names ∨ entry ∈ ctx.tlsConfig.nextProtos := by
  unfold buildMatch names
  simp only [List.mem_append]
  tauto

variable (toLower) in
/-- The search stops at the context: an entry of its table stands for the server name, or is a protocol of the
client in lower case. -/
def Context.Answers (ctx : Context) (info : ClientHelloInfo) : Prop :=
  (∃ entry ∈ ctx.buildMatch, StandsFor entry (trimDots (toLower info.serverName))) ∨
    ∃ protocol ∈ info.supportedProtos, toLower protocol ∈ ctx.buildMatch

theorem Context.found_iff (named : info.serverName ≠ []) :
    ctx.found toLower info = true ↔ ctx.Answers toLower info := by
  unfold found Answers
  simp only [named, ne_eq, not_false_eq_true, true_and, Bool.decide_or, Bool.or_eq_true, decide_eq_true_eq,
    List.any_eq_true]
  refine or_congr ?_ Iff.rfl
  constructor
  · rintro (same | ⟨candidate, wild, there⟩)
    · exact ⟨_, same, .inl rfl⟩
    · exact ⟨_, there, standsFor_iff.mpr (.inr wild)⟩
  · rintro ⟨entry, there, stands⟩
    rcases standsFor_iff.mp stands with rfl | wild
    · exact .inl there
    · exact .inr ⟨entry, wild, there⟩

variable (toLower) in
/-- **A name is written in lower case** that covers the server name. -/
def Context.Written (ctx : Context) (serverName : Bytes) : Prop :=
  ∃ entry ∈ ctx.names, toLower entry = entry ∧ StandsFor (toLower entry) (trimDots (toLower serverName))

instance (ctx : Context) (serverName : Bytes) : Decidable (ctx.Written toLower serverName) :=
  inferInstanceAs (Decidable (∃ entry ∈ ctx.names, _))

variable (toLower) in
/-- **No protocol stands in the way**: a context does not have a protocol of the client in its table, nor
the server name or a wildcard form of it among its protocols. -/
def Context.Clear (ctx : Context) (info : ClientHelloInfo) : Prop :=
  (∀ protocol ∈ info.supportedProtos, toLower protocol ∉ ctx.buildMatch) ∧
    ∀ protocol ∈ ctx.tlsConfig.nextProtos, ¬ StandsFor protocol (trimDots (toLower info.serverName))

instance (ctx : Context) (info : ClientHelloInfo) : Decidable (ctx.Clear toLower info) :=
  inferInstanceAs (Decidable ((∀ protocol ∈ info.supportedProtos, _) ∧ ∀ protocol ∈ ctx.tlsConfig.nextProtos, _))

/-- What is assumed of `strings.ToLower`: what stands for a name in lower case is in lower case. -/
def Lowers (toLower : Bytes → Bytes) : Prop :=
  ∀ entry name, StandsFor entry (trimDots (toLower name)) → toLower entry = entry

/-- **Why the search stops at a context.** -/
theorem Context.answers_iff (lowers : Lowers toLower) :
    ctx.Answers toLower info ↔ ctx.Written toLower info.serverName ∨ ¬ ctx.Clear toLower info := by
  unfold Answers Clear
  rw [not_and_or]
  push Not
  constructor
  · rintro (⟨entry, there, stands⟩ | spoken)
    · rcases mem_buildMatch.mp there with own | spoken
      · have lower := lowers _ _ stands
        exact .inl ⟨entry, own, lower, lower.symm ▸ stands⟩
      · exact .inr (.inr ⟨entry, spoken, stands⟩)
    · exact .inr (.inl spoken)
  · rintro (⟨entry, own, lower, stands⟩ | spoken | ⟨protocol, spoken, stands⟩)
    · exact .inl ⟨entry, mem_buildMatch.mpr (.inl own), lower ▸ stands⟩
    · exact .inr spoken
    · exact .inl ⟨protocol, mem_buildMatch.mpr (.inr spoken), stands⟩

/-- A context that does not cover the name is passed where no protocol stands in the way. -/
theorem Context.passed_iff (lowers : Lowers toLower)
    (uncovered : ¬ ctx.Covers toLower info.serverName) : ¬ ctx.Answers toLower info ↔ ctx.Clear toLower info := by
  have unwritten : ¬ ctx.Written toLower info.serverName := fun ⟨entry, own, _, stands⟩ => uncovered ⟨entry, own, stands⟩
  rw [answers_iff lowers, or_iff_right unwritten, not_not]

/-- **The first that answers is taken, or the first of all.** -/
theorem tlscontext_iff {before after : List Context} (named : info.serverName ≠ []) :
    tlscontext toLower (before ++ ctx :: after) info = before.length ↔
      (∀ other ∈ before, ¬ other.Answers toLower info) ∧
        (ctx.Answers toLower info ∨ before = [] ∧ ∀ other ∈ after, ¬ other.Answers toLower info) := by
  have silent (contexts : List Context) : contexts.findIdx? (·.found toLower info) = none ↔
      ∀ other ∈ contexts, ¬ other.Answers toLower info := by
    rw [List.findIdx?_eq_none_iff]
    exact forall₂_congr fun other _ => by rw [← Context.found_iff named, Bool.not_eq_true]
  unfold tlscontext
  rw [List.findIdx?_append]
  cases early : before.findIdx? (·.found toLower info) with
  | some i =>
    obtain ⟨short, -⟩ := List.findIdx?_eq_some_iff_findIdx_eq.mp early
    refine iff_of_false (Nat.ne_of_lt short) fun clear => ?_
    rw [(silent before).mpr clear.1] at early
    cases early
  | none =>
    have clear := (silent before).mp early
    rw [List.findIdx?_cons, and_iff_right clear]
    cases own : ctx.found toLower info with
    | true =>
      refine iff_of_true ?_ (.inl ((Context.found_iff named).mp own))
      simp
    | false =>
      have unanswered : ¬ ctx.Answers toLower info := fun answers =>
        absurd (own.symm.trans ((Context.found_iff named).mpr answers)) (by decide)
      rw [or_iff_right unanswered, ← silent after]
      cases late : after.findIdx? (·.found toLower info) with
      | none => simp [eq_comm, List.length_eq_zero_iff]
      | some j =>
        refine iff_of_false ?_ (by rintro ⟨-, ⟨⟩⟩)
        simp

/-- The context behind those in `before` is the first that covers the name. -/
structure Context.First (toLower : Bytes → Bytes) (before : List Context) (ctx : Context) (serverName : Bytes) : Prop where
  covers : ctx.Covers toLower serverName
  before : ∀ other ∈ before, ¬ other.Covers toLower serverName

/-- **When the server name decides the certificate.** The first context that covers the name is taken, and its
config returned, exactly if no protocol stands in the way in a context before it, and it is found itself: one of
its names that cover the server name is in lower case, or a protocol leads to it, or it is the first of all and
no other is found. -/
theorem config_iff {before after : List Context} {ctx : Context} {info : ClientHelloInfo} (lowers : Lowers toLower)
    (named : info.serverName ≠ []) (first : ctx.First toLower before info.serverName) :
    (tlscontext toLower (before ++ ctx :: after) info = before.length ∧
        getConfigForClient toLower (before ++ ctx :: after) info = .ok ctx.tlsConfig) ↔
      (∀ other ∈ before, other.Clear toLower info) ∧
        (ctx.Written toLower info.serverName ∨ ¬ ctx.Clear toLower info ∨
          before = [] ∧ ∀ other ∈ after, other.Clear toLower info ∧ ¬ other.Written toLower info.serverName) := by
  have taken : tlscontext toLower (before ++ ctx :: after) info = before.length →
      getConfigForClient toLower (before ++ ctx :: after) info = .ok ctx.tlsConfig := fun taken => by
    rw [getConfigForClient, taken, List.getElem?_append_right le_rfl, Nat.sub_self, List.getElem?_cons_zero]
  rw [and_iff_left_of_imp taken, tlscontext_iff named]
  refine and_congr ?_ ?_
  · exact forall₂_congr fun other earlier => Context.passed_iff lowers (first.before other earlier)
  · rw [Context.answers_iff lowers, or_assoc]
    refine or_congr_right (or_congr_right (and_congr_right fun _ => forall₂_congr fun other _ => ?_))
    rw [Context.answers_iff lowers, not_or, not_not, and_comm]

/-- `strings.ToLower` of an ASCII text. -/
def lowerAscii (text : Bytes) : Bytes := text.map Strike.toLower

theorem lowers_lowerAscii : Lowers lowerAscii := by
  have again (c : UInt8) : Strike.toLower (Strike.toLower c) = Strike.toLower c := by
    revert c
    decide +kernel
  have fixed {part whole : Bytes} (within : part ⊆ lowerAscii whole) : lowerAscii part = part := by
    refine (List.map_congr_left fun c there => ?_).trans (List.map_id part)
    obtain ⟨c, -, rfl⟩ := List.mem_map.mp (within there)
    exact again c
  intro entry name stands
  have trimmed : trimDots (lowerAscii name) ⊆ lowerAscii name := (List.rdropWhile_prefix _ _).subset
  rcases stands with rfl | ⟨front, rest, split, rfl⟩
  · exact fixed trimmed
  · have behind : rest ⊆ lowerAscii name := fun c there =>
      trimmed (split ▸ List.mem_append_right _ (List.mem_cons_of_mem _ there))
    show _ :: _ :: lowerAscii rest = _
    rw [fixed behind]
    rfl

/-- A context with one certificate for `name`. -/
def single (name : String) (protocols : List Bytes) : Context where
  tlsConfig := { certificates := [some { commonName := ascii name }], nextProtos := protocols }

/-- The theorem at a wildcard name behind a context whose own name is in upper case. -/
theorem config_iff_wildcard : tlscontext lowerAscii ([single "X.com" [ascii "h2"]] ++ single "*.a.com" [] :: [])
        { serverName := ascii "www.A.com.", supportedProtos := [ascii "http/1.1"] } = 1 ∧
      getConfigForClient lowerAscii ([single "X.com" [ascii "h2"]] ++ single "*.a.com" [] :: [])
        { serverName := ascii "www.A.com.", supportedProtos := [ascii "http/1.1"] } = .ok (single "*.a.com" []).tlsConfig :=
  (config_iff lowers_lowerAscii (by decide) ⟨by decide, by decide⟩).mpr ⟨by decide, .inl (by decide)⟩

/-- **A protocol goes before the name**: the client asks for `b.com` and gets the certificate of `a.com`,
as this context speaks `h2` and comes first. A certificate with upper case letters is not found at all. -/
theorem protocol_first : (¬ (single "a.com" [ascii "h2"]).Covers lowerAscii (ascii "b.com") ∧
      (single "b.com" []).Covers lowerAscii (ascii "b.com") ∧
      getConfigForClient lowerAscii [single "a.com" [ascii "h2"], single "b.com" []]
        { serverName := ascii "b.com", supportedProtos := [ascii "h2"] } = .ok (single "a.com" [ascii "h2"]).tlsConfig) ∧
    ¬ (single "a.com" []).Covers lowerAscii (ascii "b.com") ∧
      (single "B.com" []).Covers lowerAscii (ascii "b.com") ∧
      getConfigForClient lowerAscii [single "a.com" [], single "B.com" []] { serverName := ascii "b.com" } =
        .ok (single "a.com" []).tlsConfig := by
  refine ⟨⟨by decide, by decide, ?_⟩, by decide, by decide, ?_⟩
  · rfl
  · rfl

end Strike.Stls
