/-
**Which config judges a rule.**

`ByOwn` is what the filters are for: a request is refused exactly when the enabled rules, each with its
own config and in list order, refuse it. Since all engines read the last config of the list, this holds
of a list of rules and a request only where the last config gives the same answers.

* `Common.byOwn_iff`: for the common filter, whatever the states of the limiters.
* `Auth.byOwn_iff`: for the auth filter, whatever the tokens say. The two evaluations have to ask for the
  same tokens in the same order (`Auth.questions`). `Auth.askAlike_iff`: what that is rule by rule.
* `judgedByOwn_iff`: both filters.
-/

import Strike.Rules.Engine

namespace Strike.Rules

namespace Common

/-- **Judged by its own config**, for every implementation and every state of the limiters. -/
def ByOwn (rules : List RuleConfig) (headers : CommonHeader) : Prop :=
  ∀ (Limiter : Type) (limiters : Limiters Limiter) (f : Factory RuleConfig Limiter),
    Built limiters rules f →
      ((f.invoke (rule limiters) headers).2.2 = .refuse ↔
        (consult (rule limiters) ((rules.filter (·.enable)).zip f.ruleEngines) headers).2.2 = .refuse)

/-- The rule refuses the request once it is over its limit. -/
def RuleConfig.controls (config : RuleConfig) (headers : CommonHeader) : Bool :=
  config.matches headers && decide (config.runMode = .control)

/-- The last config of the list does for each enabled rule what its own config does. If it does not
control the request, none of them does. If it does, and some enabled rule allows nothing, one such rule
controls the request. Otherwise all of them control it, and those with a limit for each user read the
same user. -/
def JudgedAlike (rules : List RuleConfig) (headers : CommonHeader) : Prop :=
  ∀ last ∈ rules.getLast?,
    (last.controls headers = false → ∀ config ∈ rules.filter (·.enable), config.controls headers = false) ∧
    (last.controls headers = true →
      (∃ config ∈ rules.filter (·.enable), config.limitConfig.maxAllows ≤ 0) →
        ∃ config ∈ rules.filter (·.enable), config.limitConfig.maxAllows ≤ 0 ∧ config.controls headers = true) ∧
    (last.controls headers = true →
      (∀ config ∈ rules.filter (·.enable), 0 < config.limitConfig.maxAllows) →
        ∀ config ∈ rules.filter (·.enable), config.controls headers = true ∧
          (config.limitConfig.limitStrategy = .userQPS → config.limitKey headers = last.limitKey headers))

variable {Limiter : Type}

theorem rule_spec (limiters : Limiters Limiter) (config : RuleConfig) (limiter : Limiter) (headers : CommonHeader) :
    (rule limiters config limiter headers).2 =
      (headers, if config.controls headers = true ∧
        (limiters.tryAcquire limiter (config.limitKey headers)).1 = false then .refuse else .pass) := by
  unfold rule RuleConfig.controls
  cases config.matches headers with
  | false => simp
  | true =>
    cases limiters.tryAcquire limiter (config.limitKey headers) with
    | mk granted limiter' => cases granted <;> simp

/-- **A list of rules refuses if one of them does.** -/
theorem consult_refuse (limiters : Limiters Limiter) (headers : CommonHeader) (rules : List (RuleConfig × Limiter)) :
    (consult (rule limiters) rules headers).2.2 = .refuse ↔
      ∃ pair ∈ rules, pair.1.controls headers = true ∧
        (limiters.tryAcquire pair.2 (pair.1.limitKey headers)).1 = false := by
  induction rules with
  | nil => exact ⟨nofun, fun ⟨_, no, _⟩ => (nomatch no)⟩
  | cons first rest ih =>
    obtain ⟨config, limiter⟩ := first
    have spec := rule_spec limiters config limiter headers
    rw [List.exists_mem_cons_iff]
    unfold consult
    by_cases refuses : config.controls headers = true ∧
        (limiters.tryAcquire limiter (config.limitKey headers)).1 = false
    · rw [if_pos refuses] at spec
      split
      · next got =>
          rw [got] at spec
          cases spec
      · next got =>
          rw [got] at spec
          exact ⟨fun _ => .inl refuses, fun _ => congrArg Prod.snd spec⟩
    · rw [if_neg refuses] at spec
      split
      · next got =>
          rw [got] at spec
          obtain rfl : _ = headers := congrArg Prod.fst spec
          exact ih.trans ⟨.inr, fun either => either.resolve_left refuses⟩
      · next passes got =>
          rw [got] at spec
          exact absurd (congrArg Prod.snd spec) passes

theorem invoke_refuse (limiters : Limiters Limiter) (headers : CommonHeader) {last : RuleConfig}
    {f : Factory RuleConfig Limiter} (config : f.ruleConfig = some last) :
    (f.invoke (rule limiters) headers).2.2 = .refuse ↔
      last.controls headers = true ∧
        ∃ limiter ∈ f.ruleEngines, (limiters.tryAcquire limiter (last.limitKey headers)).1 = false := by
  unfold Factory.invoke
  rw [config]
  dsimp only
  rw [consult_refuse]
  simp only [List.mem_map]
  constructor
  · rintro ⟨pair, ⟨limiter, there, rfl⟩, controls, exceeds⟩
    exact ⟨controls, limiter, there, exceeds⟩
  · rintro ⟨controls, limiter, there, exceeds⟩
    exact ⟨_, ⟨limiter, there, rfl⟩, controls, exceeds⟩

theorem forall₂_zip {A B : Type} {R : A → B → Prop} {as : List A} {bs : List B} (related : List.Forall₂ R as bs) :
    (∀ pair ∈ as.zip bs, R pair.1 pair.2 ∧ pair.1 ∈ as ∧ pair.2 ∈ bs) ∧
      (∀ a ∈ as, ∃ b, (a, b) ∈ as.zip bs) ∧ ∀ b ∈ bs, ∃ a, (a, b) ∈ as.zip bs := by
  induction related with
  | nil => exact ⟨nofun, nofun, nofun⟩
  | @cons a b as bs here later ih =>
    obtain ⟨pairs, lefts, rights⟩ := ih
    refine ⟨?_, ?_, ?_⟩
    · intro pair there
      rcases List.mem_cons.mp there with rfl | there
      · exact ⟨here, List.mem_cons_self, List.mem_cons_self⟩
      · obtain ⟨related, left, right⟩ := pairs pair there
        exact ⟨related, List.mem_cons_of_mem _ left, List.mem_cons_of_mem _ right⟩
    · intro a' there
      rcases List.mem_cons.mp there with rfl | there
      · exact ⟨b, List.mem_cons_self⟩
      · exact (lefts a' there).imp fun _ found => List.mem_cons_of_mem _ found
    · intro b' there
      rcases List.mem_cons.mp there with rfl | there
      · exact ⟨a, List.mem_cons_self⟩
      · exact (rights b' there).imp fun _ found => List.mem_cons_of_mem _ found

theorem byOwn_of_judgedAlike {rules : List RuleConfig} {headers : CommonHeader}
    (alike : JudgedAlike rules headers) : ByOwn rules headers := by
  intro Limiter limiters f built
  cases rules.eq_nil_or_concat with
  | inl empty =>
    subst empty
    have config : f.ruleConfig = none := built.config
    unfold Factory.invoke
    rw [config]
    exact ⟨nofun, nofun⟩
  | inr nonempty =>
    obtain ⟨front, last, rfl⟩ := nonempty
    have config : f.ruleConfig = some last := built.config.trans (by simp)
    obtain ⟨none, closed, open_⟩ := alike last (by simp)
    obtain ⟨pairs, lefts, rights⟩ := forall₂_zip built.fits
    rw [invoke_refuse limiters headers config, consult_refuse]
    cases controls : last.controls headers with
    | false =>
      refine ⟨fun no => (nomatch no.1), ?_⟩
      rintro ⟨pair, there, own, -⟩
      rw [none controls pair.1 (pairs pair there).2.1] at own
      cases own
    | true =>
      by_cases some : ∃ config ∈ (front.concat last).filter (·.enable), config.limitConfig.maxAllows ≤ 0
      · -- A rule that allows nothing refuses on both sides.
        obtain ⟨shut, listed, nothing, own⟩ := closed controls some
        obtain ⟨limiter, there⟩ := lefts shut listed
        have exceeds := limiters.closed (pairs _ there).1 nothing
        exact ⟨fun _ => ⟨_, there, own, exceeds _⟩, fun _ => ⟨rfl, limiter, (pairs _ there).2.2, exceeds _⟩⟩
      · have all := open_ controls fun config listed => by
          by_contra shut
          exact some ⟨config, listed, Int.not_lt.mp shut⟩
        -- Both sides ask the limiters alike.
        have same : ∀ pair ∈ ((front.concat last).filter (·.enable)).zip f.ruleEngines,
            (limiters.tryAcquire pair.2 (pair.1.limitKey headers)).1 =
              (limiters.tryAcquire pair.2 (last.limitKey headers)).1 := by
          intro pair there
          obtain ⟨fits, listed, -⟩ := pairs pair there
          by_cases user : pair.1.limitConfig.limitStrategy = .userQPS
          · rw [(all pair.1 listed).2 user]
          · exact limiters.blind fits user _ _
        constructor
        · rintro ⟨-, limiter, there, exceeds⟩
          obtain ⟨own, paired⟩ := rights limiter there
          exact ⟨_, paired, (all own (pairs _ paired).2.1).1, (same _ paired).trans exceeds⟩
        · rintro ⟨pair, there, -, exceeds⟩
          exact ⟨rfl, pair.2, (pairs pair there).2.2, (same pair there).symm.trans exceeds⟩

/-- Limiters that always answer the same, whatever settings allow. -/
def fixedLimiters : Limiters (Bytes → Bool) where
  newLimitEngine config := if Accepted config then some fun _ => decide (0 < config.maxAllows) else none
  tryAcquire limiter key := (limiter key, limiter)
  Fits config limiter := (config.maxAllows ≤ 0 → ∀ key, limiter key = false) ∧
    (config.limitStrategy ≠ .userQPS → ∀ key key', limiter key = limiter key')
  accepts config := by
    by_cases accepted : Accepted config <;> simp [accepted]
  new_fits made := by
    split at made <;> cases made
    exact ⟨fun nothing _ => decide_eq_false (Int.not_lt.mpr nothing), fun _ _ _ => rfl⟩
  tryAcquire_fits fits _ := fits
  closed fits := fits.1
  blind fits := fits.2

/-- Judged by their own configs, the rules agree with the last config under every choice of answers. -/
theorem ByOwn.answers {rules : List RuleConfig} {headers : CommonHeader} (own : ByOwn rules headers)
    {last : RuleConfig} (isLast : rules.getLast? = some last) (answers : RuleConfig → Bytes → Bool)
    (fits : ∀ config, fixedLimiters.Fits config.limitConfig (answers config)) :
    (last.controls headers = true ∧
        ∃ config ∈ rules.filter (·.enable), answers config (last.limitKey headers) = false) ↔
      ∃ config ∈ rules.filter (·.enable),
        config.controls headers = true ∧ answers config (config.limitKey headers) = false := by
  have built : Built fixedLimiters rules ⟨some last, (rules.filter (·.enable)).map answers⟩ := by
    refine ⟨isLast.symm, List.forall₂_map_right_iff.mpr ?_⟩
    exact List.forall₂_same.mpr fun config _ => fits config
  have agrees := own _ fixedLimiters _ built
  rw [invoke_refuse fixedLimiters headers rfl, consult_refuse, ← List.map_prod_left_eq_zip] at agrees
  simpa [fixedLimiters] using agrees

/-- **When the rules of the common filter are judged by their own configs.** -/
theorem byOwn_iff (rules : List RuleConfig) (headers : CommonHeader) :
    ByOwn rules headers ↔ JudgedAlike rules headers := by
  refine ⟨fun own last isLast => ⟨?_, ?_, ?_⟩, byOwn_of_judgedAlike⟩
  · -- Every limit is exceeded.
    intro loose config listed
    have agrees := own.answers isLast (fun _ _ => false) fun _ => ⟨fun _ _ => rfl, fun _ _ _ => rfl⟩
    by_contra controls
    have refused := agrees.mpr ⟨config, listed, Bool.eq_true_of_not_eq_false controls, rfl⟩
    rw [loose] at refused
    cases refused.1
  · -- Only the limits that allow nothing are.
    rintro controls ⟨shut, listed, nothing⟩
    have agrees := own.answers isLast (fun config _ => decide (0 < config.limitConfig.maxAllows))
      fun config => ⟨fun nothing _ => decide_eq_false (Int.not_lt.mpr nothing), fun _ _ _ => rfl⟩
    obtain ⟨config, there, controlled, exceeds⟩ :=
      agrees.mp ⟨controls, shut, listed, decide_eq_false (Int.not_lt.mpr nothing)⟩
    exact ⟨config, there, Int.not_lt.mp (of_decide_eq_false exceeds), controlled⟩
  · intro controls allSome config listed
    constructor
    · -- Only this rule is, for every user.
      have agrees := own.answers isLast
        (fun other _ => decide (0 < other.limitConfig.maxAllows) && decide (other ≠ config))
        fun other => ⟨fun nothing _ => by simp [Int.not_lt.mpr nothing], fun _ _ _ => rfl⟩
      obtain ⟨other, there, controlled, exceeds⟩ := agrees.mp ⟨controls, config, listed, by simp⟩
      have some := allSome other there
      obtain rfl : other = config := by
        by_contra differ
        simp [some, differ] at exceeds
      exact controlled
    · -- Only this rule is, for the user whom the last config names.
      intro users
      have agrees := own.answers isLast
        (fun other key => decide (0 < other.limitConfig.maxAllows) &&
          decide (other ≠ config ∨ key ≠ last.limitKey headers))
        fun other => ⟨fun nothing _ => by simp [Int.not_lt.mpr nothing], fun noUsers key key' => by
          have differ : other ≠ config := fun same => noUsers (same ▸ users)
          simp [differ]⟩
      obtain ⟨other, there, controlled, exceeds⟩ := agrees.mp ⟨controls, config, listed, by simp⟩
      have some := allSome other there
      simp only [some, decide_true, Bool.true_and, decide_eq_false_iff_not, not_or, not_not] at exceeds
      rw [← exceeds.1]
      exact exceeds.2

end Common

namespace Auth

/-- **Judged by its own config**, whatever the tokens say. -/
def ByOwn (rules : List RuleConfig) (headers : CommonHeader) : Prop :=
  ∀ decode : Question → Decoded,
    ((newFactory rules).invoke (rule decode) headers).2.2 = .refuse ↔
      (consult (rule decode) ((rules.filter (·.enable)).map fun config => (config, ())) headers).2.2 = .refuse

/-- What a rule has to know of a request. -/
inductive Ask where
  | nothing
  | refuses
  | decode (question : Question)
  deriving Repr, DecidableEq

/-- What a rule asks: nothing of a request it is not about, and for no token if there is none. -/
def RuleConfig.ask (config : RuleConfig) (headers : CommonHeader) : Ask :=
  if config.matches headers then
    match headers.get config.tokenKey with
    | some token => .decode ⟨config.publicKey, token⟩
    | none => .refuses
  else .nothing

/-- What the rules of a list ask, one after the other, as long as the tokens are good and carry these names. -/
def asks (name : Question → Bytes) : List RuleConfig → CommonHeader → List Ask
  | [], _ => []
  | config :: rest, headers =>
    match config.ask headers with
    | .decode question => .decode question :: asks name rest (headers.set strikeHeaderUsername (name question))
    | other => other :: asks name rest headers

/-- The tokens to be decoded, each once and in order; and whether a rule without a token refuses the request behind
them. -/
def questions : List Ask → List Question → List Question × Bool
  | [], _ => ([], false)
  | .nothing :: rest, seen => questions rest seen
  | .refuses :: _, _ => ([], true)
  | .decode question :: rest, seen =>
    let (asked, refused) := questions rest (question :: seen)
    (if question ∈ seen then asked else question :: asked, refused)

/-- As many copies of the last config as there are enabled rules ask the same as these rules. -/
def AskAlike (rules : List RuleConfig) (headers : CommonHeader) : Prop :=
  ∀ last ∈ rules.getLast?, ∀ name : Question → Bytes,
    questions (asks name (List.replicate (rules.filter (·.enable)).length last) headers) [] =
      questions (asks name (rules.filter (·.enable)) headers) []

/-- The verdict on a list of questions. -/
def answer (decode : Question → Decoded) : List Question → Bool → Verdict
  | [], refused => if refused then .refuse else .pass
  | question :: rest, refused =>
    match decode question with
    | .badKey => .panics
    | .fails => .refuse
    | .claims none => .panics
    | .claims (some _) => answer decode rest refused

/-- The names are those in the good tokens. -/
def Names (decode : Question → Decoded) (name : Question → Bytes) : Prop :=
  ∀ question orgi, decode question = .claims (some orgi) → name question = orgi

/-- The name in the answer, if there is one. -/
def orgiOf (decode : Question → Decoded) (question : Question) : Bytes :=
  match decode question with
  | .claims (some orgi) => orgi
  | _ => []

theorem names_orgiOf (decode : Question → Decoded) : Names decode (orgiOf decode) := by
  intro question orgi said
  rw [orgiOf, said]

theorem rule_spec (decode : Question → Decoded) (config : RuleConfig) (headers : CommonHeader) :
    rule decode config () headers =
      match config.ask headers with
      | .nothing => ((), headers, .pass)
      | .refuses => ((), headers, .refuse)
      | .decode question =>
        match decode question with
        | .badKey => ((), headers, .panics)
        | .fails => ((), headers, .refuse)
        | .claims none => ((), headers, .panics)
        | .claims (some orgi) => ((), headers.set strikeHeaderUsername orgi, .pass) := by
  unfold rule RuleConfig.ask
  cases config.matches headers with
  | false => rfl
  | true => cases headers.get config.tokenKey <;> rfl

/-- **The verdict of a list of rules is the verdict on its questions.** -/
theorem consult_eq {decode : Question → Decoded} {name : Question → Bytes} (names : Names decode name)
    (rules : List RuleConfig) : ∀ (headers : CommonHeader) (seen : List Question),
      (∀ question ∈ seen, decode question = .claims (some (name question))) →
      (consult (rule decode) (rules.map fun config => (config, ())) headers).2.2 =
        answer decode (questions (asks name rules headers) seen).1 (questions (asks name rules headers) seen).2 := by
  induction rules with
  | nil => exact fun _ _ _ => rfl
  | cons config rest ih =>
    intro headers seen good
    rw [List.map_cons]
    unfold consult asks
    rw [rule_spec]
    cases config.ask headers with
    | nothing => exact ih headers seen good
    | refuses => rfl
    | decode question =>
      unfold questions
      dsimp only
      by_cases again : question ∈ seen
      · rw [good question again, if_pos again]
        exact ih _ _ (List.forall_mem_cons.mpr ⟨good question again, good⟩)
      · rw [if_neg again]
        unfold answer
        cases said : decode question with
        | badKey => rfl
        | fails => rfl
        | claims orgi =>
          cases orgi with
          | none => rfl
          | some orgi =>
            obtain rfl := names question orgi said
            exact ih _ _ (List.forall_mem_cons.mpr ⟨said, good⟩)

theorem questions_nodup (asks : List Ask) :
    ∀ seen, (questions asks seen).1.Nodup ∧ ∀ question ∈ (questions asks seen).1, question ∉ seen := by
  induction asks with
  | nil => exact fun _ => ⟨List.nodup_nil, nofun⟩
  | cons ask rest ih =>
    intro seen
    cases ask with
    | nothing => exact ih seen
    | refuses => exact ⟨List.nodup_nil, nofun⟩
    | decode question =>
      obtain ⟨nodup, fresh⟩ := ih (question :: seen)
      have unseen := fun other there => List.not_mem_of_not_mem_cons (fresh other there)
      unfold questions
      dsimp only
      split
      · exact ⟨nodup, unseen⟩
      · next new =>
          refine ⟨List.nodup_cons.mpr ⟨fun there => ?_, nodup⟩, List.forall_mem_cons.mpr ⟨new, unseen⟩⟩
          exact fresh question there List.mem_cons_self

theorem answer_congr {decode decode' : Question → Decoded} {asked : List Question}
    (same : ∀ question ∈ asked, decode question = decode' question) (refused : Bool) :
    answer decode asked refused = answer decode' asked refused := by
  induction asked with
  | nil => rfl
  | cons question rest ih =>
    obtain ⟨here, later⟩ := List.forall_mem_cons.mp same
    unfold answer
    rw [here, ih later]

/-- **Different questions can be answered differently.** -/
theorem exists_decode (name : Question → Bytes) {asked : List Question} {refused refused' : Bool} :
    ∀ {asked' : List Question}, asked.Nodup → asked'.Nodup → (asked, refused) ≠ (asked', refused') →
      ∃ decode, Names decode name ∧
        ¬ (answer decode asked refused = .refuse ↔ answer decode asked' refused' = .refuse) := by
  -- One question fails, all others panic.
  have one : ∀ question, Names (fun q => if q = question then .fails else .badKey) name := by
    intro question q orgi said
    dsimp only at said
    split at said <;> cases said
  have bad : Names (fun _ => .badKey) name := nofun
  induction asked with
  | nil =>
    intro asked' _ _ differ
    cases asked' with
    | nil =>
      refine ⟨fun _ => .badKey, bad, fun same => differ ?_⟩
      cases refused <;> cases refused' <;> simp [answer] at same ⊢
    | cons question rest =>
      cases refused with
      | true => exact ⟨fun _ => .badKey, bad, by simp [answer]⟩
      | false => exact ⟨_, one question, by simp [answer]⟩
  | cons question rest ih =>
    intro asked' nodup nodup' differ
    cases asked' with
    | nil =>
      cases refused' with
      | true => exact ⟨fun _ => .badKey, bad, by simp [answer]⟩
      | false => exact ⟨_, one question, by simp [answer]⟩
    | cons question' rest' =>
      by_cases equal : question' = question
      · subst equal
        obtain ⟨fresh, nodup⟩ := List.nodup_cons.mp nodup
        obtain ⟨fresh', nodup'⟩ := List.nodup_cons.mp nodup'
        obtain ⟨decode, names, split⟩ := ih nodup nodup' fun same => differ (by
          obtain ⟨rfl, rfl⟩ := Prod.mk.inj same
          rfl)
        -- The common question is answered well.
        refine ⟨fun q => if q = question' then .claims (some (name question')) else decode q, ?_, ?_⟩
        · intro q orgi said
          dsimp only at said
          split at said
          · next same =>
              cases said
              rw [same]
          · exact names q orgi said
        · have keeps : ∀ {questions : List Question}, question' ∉ questions → ∀ q ∈ questions,
              (if q = question' then .claims (some (name question')) else decode q) = decode q :=
            fun absent q there => if_neg fun same : q = question' => absent (same ▸ there)
          unfold answer
          rw [if_pos rfl, answer_congr (keeps fresh), answer_congr (keeps fresh')]
          exact split
      · exact ⟨_, one question, by simp [answer, equal]⟩

theorem invoke_eq (decode : Question → Decoded) {rules : List RuleConfig} {last : RuleConfig}
    (isLast : rules.getLast? = some last) (headers : CommonHeader) :
    (newFactory rules).invoke (rule decode) headers =
      consult (rule decode)
        ((List.replicate (rules.filter (·.enable)).length last).map fun config => (config, ())) headers := by
  have config : (newFactory rules).ruleConfig = some last := (newRuleEngineFactory_config _ _ _).trans isLast
  have engines : (newFactory rules).ruleEngines = List.replicate (rules.filter (·.enable)).length () := by
    unfold newFactory
    rw [newRuleEngineFactory_engines, ← List.map_const', ← List.filterMap_eq_map]
    rfl
  unfold Factory.invoke
  rw [config, engines]
  dsimp only
  rw [List.map_replicate, List.map_replicate]

/-- **When the rules of the auth filter are judged by their own configs.** -/
theorem byOwn_iff (rules : List RuleConfig) (headers : CommonHeader) :
    ByOwn rules headers ↔ AskAlike rules headers := by
  constructor
  · intro own last isLast name
    by_contra differ
    obtain ⟨decode, names, split⟩ := exists_decode name (questions_nodup _ []).1 (questions_nodup _ []).1 differ
    have agrees := own decode
    rw [invoke_eq decode isLast, consult_eq names _ headers [] nofun, consult_eq names _ headers [] nofun] at agrees
    exact split agrees
  · intro alike decode
    cases isLast : rules.getLast? with
    | none =>
      obtain rfl := List.getLast?_eq_none_iff.mp isLast
      constructor <;> rintro ⟨⟩
    | some last =>
      have names := names_orgiOf decode
      rw [invoke_eq decode isLast, consult_eq names _ headers [] nofun, consult_eq names _ headers [] nofun,
        alike last isLast (orgiOf decode)]

/-! ### Rule by rule -/

/-- The user names that earlier rules set do not change what the rule asks. -/
def RuleConfig.Blind (config : RuleConfig) (headers : CommonHeader) : Prop :=
  ∀ names : List Bytes,
    config.ask (names.foldl (fun headers orgi => headers.set strikeHeaderUsername orgi) headers) = config.ask headers

/-- What the rules ask, against what the last config asks. If that is nothing, no rule asks anything. If it refuses,
so does the first rule that asks something. If it is a token, one rule asks for it, and none for another. -/
def Ask.Alike (last : Ask) (asks : List Ask) : Prop :=
  asks = [] ∨
    match last with
    | .nothing => ∀ ask ∈ asks, ask = .nothing
    | .refuses => asks.find? (· ≠ .nothing) = some .refuses
    | .decode question => .decode question ∈ asks ∧ ∀ ask ∈ asks, ask = .nothing ∨ ask = .decode question

theorem asks_of_blind (name : Question → Bytes) (rules : List RuleConfig) :
    ∀ {headers : CommonHeader}, (∀ config ∈ rules, config.Blind headers) →
      asks name rules headers = rules.map (·.ask headers) := by
  induction rules with
  | nil => exact fun _ => rfl
  | cons config rest ih =>
    intro headers blind
    obtain ⟨-, later⟩ := List.forall_mem_cons.mp blind
    rw [List.map_cons]
    unfold asks
    cases config.ask headers with
    | nothing => exact congrArg _ (ih later)
    | refuses => exact congrArg _ (ih later)
    | decode question =>
      refine congrArg _ ((ih fun config there names => ?_).trans (List.map_congr_left fun config there => ?_))
      · exact (later config there (name question :: names)).trans (later config there [_]).symm
      · exact later config there [name question]

theorem questions_eq_nothing {asks : List Ask} : ∀ {seen : List Question}, questions asks seen = ([], false) ↔
      ∀ ask ∈ asks, ask = .nothing ∨ ∃ question ∈ seen, ask = .decode question := by
  induction asks with
  | nil => exact ⟨fun _ => nofun, fun _ => rfl⟩
  | cons ask rest ih =>
    intro seen
    rw [List.forall_mem_cons]
    cases ask with
    | nothing => exact ih.trans ⟨fun later => ⟨.inl rfl, later⟩, And.right⟩
    | refuses => simp [questions]
    | decode question =>
      by_cases again : question ∈ seen
      · have mem : ∀ q, q ∈ question :: seen ↔ q ∈ seen := fun q =>
          ⟨fun there => (List.mem_cons.mp there).elim (fun same => same ▸ again) id, List.mem_cons_of_mem _⟩
        simp only [questions, if_pos again, Prod.mk.eta, ih, mem]
        exact ⟨fun later => ⟨.inr ⟨question, again, rfl⟩, later⟩, And.right⟩
      · simp [questions, again]

theorem questions_eq_refuses {asks : List Ask} :
    questions asks [] = ([], true) ↔ asks.find? (· ≠ .nothing) = some .refuses := by
  induction asks with
  | nil => simp [questions]
  | cons ask rest ih => cases ask <;> simp [questions, ih]

theorem questions_eq_decode {asks : List Ask} {question : Question} : questions asks [] = ([question], false) ↔
      .decode question ∈ asks ∧ ∀ ask ∈ asks, ask = .nothing ∨ ask = .decode question := by
  induction asks with
  | nil => simp [questions]
  | cons ask rest ih =>
    cases ask with
    | nothing => simp [questions, ih]
    | refuses => simp [questions]
    | decode other =>
      have alone : questions rest [other] = ([], false) ↔ _ := questions_eq_nothing
      simp only [List.mem_singleton, exists_eq_left] at alone
      simp only [questions, List.not_mem_nil, if_false, Prod.mk.injEq, List.cons.injEq, List.mem_cons, forall_eq_or_imp]
      constructor
      · rintro ⟨⟨rfl, none_⟩, passes⟩
        exact ⟨.inl rfl, .inr rfl, alone.mp (Prod.ext none_ passes)⟩
      · rintro ⟨-, first, later⟩
        obtain rfl : other = question := by simpa using first
        exact ⟨⟨rfl, congrArg Prod.fst (alone.mpr later)⟩, congrArg Prod.snd (alone.mpr later)⟩

theorem questions_replicate {last : Ask} {asks : List Ask} :
    questions (List.replicate asks.length last) [] = questions asks [] ↔ last.Alike asks := by
  cases asks with
  | nil => exact ⟨fun _ => .inl rfl, fun _ => rfl⟩
  | cons ask rest =>
    have copies {ask} : ask ∈ List.replicate (rest.length + 1) last ↔ ask = last := by simp [List.mem_replicate]
    unfold Ask.Alike
    rw [List.length_cons, or_iff_right (List.cons_ne_nil _ _), eq_comm]
    cases last with
    | nothing =>
      rw [questions_eq_nothing.mpr fun ask there => .inl (copies.mp there), questions_eq_nothing]
      simp
    | refuses => exact questions_eq_refuses
    | decode question =>
      rw [questions_eq_decode.mpr ⟨copies.mpr rfl, fun ask there => .inr (copies.mp there)⟩, questions_eq_decode]

/-- **Rule by rule**, where no rule looks at the user names that the others set. -/
theorem askAlike_iff {rules : List RuleConfig} {headers : CommonHeader} (blind : ∀ config ∈ rules, config.Blind headers) :
    AskAlike rules headers ↔
      ∀ last ∈ rules.getLast?, (last.ask headers).Alike ((rules.filter (·.enable)).map (·.ask headers)) := by
  refine forall₂_congr fun last isLast => ?_
  have enabled : ∀ config ∈ rules.filter (·.enable), config.Blind headers :=
    fun config there => blind config (List.mem_of_mem_filter there)
  have copies : ∀ config ∈ List.replicate (rules.filter (·.enable)).length last, config.Blind headers :=
    fun config there => List.eq_of_mem_replicate there ▸ blind last (List.mem_of_getLast? isLast)
  rw [← questions_replicate, List.length_map]
  simp only [asks_of_blind _ _ enabled, asks_of_blind _ _ copies, List.map_replicate, forall_const]

end Auth

/-- **When rules are judged by their own configs**, for both filters. -/
theorem judgedByOwn_iff (rules : List Common.RuleConfig) (authRules : List Auth.RuleConfig) (headers : CommonHeader) :
    (Common.ByOwn rules headers ↔ Common.JudgedAlike rules headers) ∧
      (Auth.ByOwn authRules headers ↔ Auth.AskAlike authRules headers) :=
  ⟨Common.byOwn_iff rules headers, Auth.byOwn_iff authRules headers⟩

/-- A rule that is about every request and refuses all of them, with a disabled rule behind it. -/
def shutThenDisabled : List Common.RuleConfig :=
  [{ enable := true, runMode := .control, resourceConfigs := [{}],
      limitConfig := { limitStrategy := .qps, periodMs := 1000, maxAllows := 0 } }, {}]

/-- A rule that asks every request for a token, with a disabled rule behind it. -/
def tokenThenDisabled : List Auth.RuleConfig :=
  [{ enable := true, tokenKey := ascii "token", resourceConfigs := [{}] }, {}]

/-- **A disabled rule at the end switches both filters off.** -/
theorem disabled_last_wins : ¬ Common.ByOwn shutThenDisabled .empty ∧ ¬ Auth.ByOwn tokenThenDisabled .empty := by
  constructor
  · rw [Common.byOwn_iff]
    intro alike
    have loose := (alike {} rfl).1 (by decide) _ List.mem_cons_self
    exact absurd loose (by decide)
  · rw [Auth.byOwn_iff]
    intro alike
    have same := alike {} rfl (fun _ => [])
    exact absurd same (by decide)

end Strike.Rules
