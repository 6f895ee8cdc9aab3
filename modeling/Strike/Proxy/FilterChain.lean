/-
**The chain of receiver filters**: what the filters are shown, who holds the stream, and what is handed
to the upstream request.

* `Filtered`: the property of a trace.
* `Line`: what the runs over the chain depend on. `Chain` says how it stands between two runs: the first
  `h` filters have seen the headers, and at most the last of these is stopped.
* `Heading`: a run over the headers; `Pass`: a run over the trailers; `Resume`: a filter that continues.
-/

import Strike.Proxy.Stream

namespace Strike.Proxy

/-! ### The property -/

/-- What a filter is shown. -/
def Effect.sight : Effect → Option (Nat × Part)
  | .shown index part => some (index, part)
  | _ => none

/-- What the filters were shown. -/
def sights (trace : List Effect) : List (Nat × Part) := trace.filterMap Effect.sight

/-- Who holds the stream behind an effect: a filter that answers stop, until it continues. -/
def Effect.holds (held : Nat → Bool) : Effect → Nat → Bool
  | .answered index .stop => Function.update held index true
  | .continued index => Function.update held index false
  | _ => held

/-- The filters that hold the stream. -/
def held (trace : List Effect) : Nat → Bool := trace.foldl Effect.holds fun _ => false

/-- The order of the parts. -/
def Part.rank : Part → Nat
  | .headers => 0
  | .data => 1
  | .trailers => 2

/-- A part goes along the chain, and a filter sees the parts in their order. -/
def Before (a b : Nat × Part) : Prop := (a.2 = b.2 → a.1 < b.1) ∧ (a.1 = b.1 → a.2.rank < b.2.rank)

instance (a b : Nat × Part) : Decidable (Before a b) := inferInstanceAs (Decidable (_ ∧ _))

/-- **Each filter is shown each part at most once and in order, and nothing is handed on while one holds
the stream.** The headers are handed on when all `n` have seen them. -/
structure Filtered (n : Nat) (trace : List Effect) : Prop where
  order : (sights trace).Pairwise Before
  free : ∀ before part, before ++ [.handed part] <+: trace → ∀ i, held before i = false
  seen : ∀ before, before ++ [.handed .headers] <+: trace → ∀ i < n, (i, .headers) ∈ sights before

theorem sights_snoc (trace : List Effect) (e : Effect) : sights (trace ++ [e]) = sights trace ++ e.sight.toList := by
  unfold sights
  rw [List.filterMap_append]
  cases sight : e.sight <;> simp [sight]

theorem held_snoc (trace : List Effect) (e : Effect) : held (trace ++ [e]) = e.holds (held trace) := by
  unfold held
  rw [List.foldl_append]
  rfl

variable {n : Nat} {trace : List Effect}

theorem filtered_nil : Filtered n [] :=
  ⟨List.Pairwise.nil, fun _ _ whole => absurd (List.prefix_nil.mp whole) (by simp),
    fun _ whole => absurd (List.prefix_nil.mp whole) (by simp)⟩

theorem Filtered.snoc {e : Effect} (filtered : Filtered n trace)
    (fits : ∀ sight, e.sight = some sight → ∀ old ∈ sights trace, Before old sight)
    (free : ∀ part, e = .handed part → ∀ i, held trace i = false)
    (seen : e = .handed .headers → ∀ i < n, (i, .headers) ∈ sights trace) : Filtered n (trace ++ [e]) := by
  constructor
  · rw [sights_snoc, List.pairwise_append]
    refine ⟨filtered.order, ?_, fun old there new shown => ?_⟩
    · cases e.sight with
      | none => exact List.Pairwise.nil
      | some sight => exact List.pairwise_singleton _ _
    · exact fits new (Option.mem_toList.mp shown) old there
  · intro before part whole
    rcases List.prefix_concat_iff.mp whole with last | early
    · obtain ⟨rfl, same⟩ := List.append_inj' last rfl
      exact free part (List.cons.inj same).1.symm
    · exact filtered.free before part early
  · intro before whole
    rcases List.prefix_concat_iff.mp whole with last | early
    · obtain ⟨rfl, same⟩ := List.append_inj' last rfl
      exact seen (List.cons.inj same).1.symm
    · exact filtered.seen before early

/-- An effect that is no business of the chain. -/
def Effect.aside : Effect → Bool
  | .shown _ _ => false
  | .answered _ _ => false
  | .continued _ => false
  | .handed _ => false
  | _ => true

theorem sights_aside {e : Effect} (aside : e.aside = true) : sights (trace ++ [e]) = sights trace := by
  rw [sights_snoc]
  cases e <;> first | exact List.append_nil _ | exact absurd aside Bool.false_ne_true

theorem held_aside {e : Effect} (aside : e.aside = true) : held (trace ++ [e]) = held trace := by
  rw [held_snoc]
  cases e <;> first | rfl | exact absurd aside Bool.false_ne_true

theorem Filtered.aside {e : Effect} (filtered : Filtered n trace) (aside : e.aside = true) :
    Filtered n (trace ++ [e]) :=
  filtered.snoc (fun _ sight => by cases e <;> first | exact absurd aside Bool.false_ne_true | exact absurd sight (by simp [Effect.sight]))
    (fun _ same => by rw [same] at aside; cases aside) fun same => by rw [same] at aside; cases aside

namespace Holding

/-! ### The line of filters -/

/-- What the runs over the chain depend on. `started`: the headers have been handled; `closed`: so has
all of the request. -/
structure Line where
  sights : List (Nat × Part)
  held : Nat → Bool
  filters : Nat → ActiveStreamFilter
  upstreamRequest : Bool
  asked : Bool
  started : Bool
  closed : Bool

namespace Line

/-- A filter is shown a part. -/
def see (l : Line) (index : Nat) (part : Part) : Line := { l with sights := l.sights ++ [(index, part)] }

/-- A filter answers or continues. -/
def hear (l : Line) (e : Effect) : Line := { l with held := e.holds l.held }

/-- `World.onFilter`. -/
def onFilter (l : Line) (index : Nat) (f : ActiveStreamFilter → ActiveStreamFilter) : Line :=
  { l with filters := Function.update l.filters index (f (l.filters index)) }

theorem onFilter_of_eq {l : Line} {index : Nat} {f : ActiveStreamFilter → ActiveStreamFilter}
    (same : f (l.filters index) = l.filters index) : l.onFilter index f = l := by
  unfold onFilter
  rw [same, Function.update_eq_self]

theorem onFilter_onFilter (l : Line) (index : Nat) (f g : ActiveStreamFilter → ActiveStreamFilter) :
    (l.onFilter index f).onFilter index g = l.onFilter index fun filter => g (f filter) := by
  unfold onFilter
  simp only [Function.update_idem, Function.update_self]

end Line

/-- Before the headers are handled. -/
structure Waiting (l : Line) : Prop where
  sights : l.sights = []
  free : ∀ i, l.held i = false
  filters : ∀ i, (l.filters i).stopped = false ∧ (l.filters i).headersContinued = false
  upstreamRequest : l.upstreamRequest = false
  started : l.started = false

/-- The first `h` filters of `n` have seen the headers. -/
structure Chain (n h : Nat) (l : Line) : Prop where
  started : l.started = true
  bound : h ≤ n
  heads : ∀ i, (i, .headers) ∈ l.sights ↔ i < h
  tails : ∀ i, (i, .trailers) ∈ l.sights → i < h ∧ l.closed = true
  plain : ∀ i, (i, .data) ∉ l.sights
  stopped : ∀ i, (l.filters i).stopped = true → i + 1 = h ∧ (l.filters i).headersContinued = false
  passed : ∀ i < h, (l.filters i).headersContinued = true ∨ (l.filters i).stopped = true
  unseen : ∀ i, h ≤ i → (l.filters i).headersContinued = false
  holds : ∀ i, l.held i = true → ((l.filters i).stopped = true ∨ (i, .trailers) ∈ l.sights) ∧
    ∀ t, (t, .trailers) ∈ l.sights → t ≤ i
  requested : l.upstreamRequest = true → ∀ i, (l.filters i).stopped = false

/-- The run over the headers has come to a filter that stopped it, or to the end. -/
def Full (n h : Nat) (l : Line) : Prop := (∃ i, (l.filters i).stopped = true) ∨ n ≤ h

/-- Between two runs. -/
def Running (n : Nat) (l : Line) : Prop := ∃ h, Chain n h l ∧ Full n h l

/-- A run over the headers, at the filter `h`, that began at `i`; `late` says that it may be followed by
one over the trailers. -/
structure Heading (n : Nat) (late : Prop) (i h : Nat) (l : Line) : Prop where
  chain : Chain n h l
  before : ∀ t, (t, .trailers) ∈ l.sights → t < i
  start : i ≤ h
  free : ∀ j, l.held j = false
  going : ∀ j, (l.filters j).stopped = false
  fresh : l.upstreamRequest = false
  closed : late → l.closed = true

/-- A run over the trailers may go on at the filter `i`. -/
structure Pass (n : Nat) (late : Prop) (i h : Nat) (l : Line) : Prop where
  chain : Chain n h l
  full : Full n h l
  before : ∀ t, (t, .trailers) ∈ l.sights → t < i
  blocked : ∀ j, l.held j = true ∨ (l.filters j).stopped = true → i ≤ j
  closed : late → l.closed = true

/-- So, whatever `h` is. -/
def Passing (n : Nat) (late : Prop) (i : Nat) (l : Line) : Prop := ∃ h, Pass n late i h l

/-- The filter `k` continues: no filter before it holds the stream. -/
structure Resume (n k h : Nat) (l : Line) : Prop where
  chain : Chain n h l
  full : Full n h l
  seen : k < h
  before : ∀ t, (t, .trailers) ∈ l.sights → t ≤ k
  blocked : ∀ j, l.held j = true ∨ (l.filters j).stopped = true → k ≤ j

variable {h i k : Nat} {late : Prop} {l : Line}

theorem Chain.held_lt (chain : Chain n h l) {j : Nat} (holds : l.held j = true) : j < h := by
  rcases (chain.holds j holds).1 with stopped | shown
  · exact Nat.lt_of_succ_le (chain.stopped j stopped).1.le
  · exact (chain.tails j shown).1

/-! ### A run over the headers -/

theorem Waiting.heading (waiting : Waiting l) (closed : late → l.closed = true) :
    Heading n late 0 0 { l with started := true } where
  chain := {
    started := rfl
    bound := Nat.zero_le n
    heads := fun i => by simp [waiting.sights]
    tails := fun i shown => by simp [waiting.sights] at shown
    plain := fun i => by simp [waiting.sights]
    stopped := fun i stopped => absurd (stopped.symm.trans (waiting.filters i).1) (by decide)
    passed := fun i below => absurd below (Nat.not_lt_zero i)
    unseen := fun i _ => (waiting.filters i).2
    holds := fun i holds => absurd (holds.symm.trans (waiting.free i)) (by decide)
    requested := fun yes => absurd (yes.symm.trans waiting.upstreamRequest) (by decide) }
  before := fun t shown => by simp [waiting.sights] at shown
  start := le_rfl
  free := waiting.free
  going := fun j => (waiting.filters j).1
  fresh := waiting.upstreamRequest
  closed := closed

theorem Heading.fits (heading : Heading n late i h l) : ∀ old ∈ l.sights, Before old (h, .headers) := by
  rintro ⟨a, part⟩ there
  have below : a < h := by
    cases part with
    | headers => exact (heading.chain.heads a).mp there
    | data => exact absurd there (heading.chain.plain a)
    | trailers => exact (heading.chain.tails a there).1
  exact ⟨fun _ => below, fun same => absurd same below.ne⟩

theorem Heading.answered (heading : Heading n late i h l) (room : h < n) {e : Effect}
    {f : ActiveStreamFilter → ActiveStreamFilter}
    (holds : ∀ j, e.holds l.held j = true → j = h ∧ (f (l.filters h)).stopped = true)
    (stopped : (f (l.filters h)).stopped = true → (f (l.filters h)).headersContinued = false)
    (passed : (f (l.filters h)).headersContinued = true ∨ (f (l.filters h)).stopped = true) :
    Chain n (h + 1) (((l.see h .headers).hear e).onFilter h f) := by
  have self : (Function.update l.filters h (f (l.filters h))) h = f (l.filters h) := Function.update_self ..
  have other : ∀ {j}, j ≠ h → (Function.update l.filters h (f (l.filters h))) j = l.filters j :=
    fun different => Function.update_of_ne different ..
  refine ⟨heading.chain.started, room, fun j => ?_, fun j shown => ?_, fun j shown => ?_, fun j stops => ?_,
    fun j below => ?_, fun j above => ?_, fun j keeps => ?_, fun yes => ?_⟩
  · show (j, .headers) ∈ l.sights ++ [(h, .headers)] ↔ _
    rw [List.mem_append, heading.chain.heads, List.mem_singleton, Prod.mk.injEq, Nat.lt_succ_iff_lt_or_eq]
    exact or_congr_right ⟨And.left, fun same => ⟨same, rfl⟩⟩
  · have old : (j, .trailers) ∈ l.sights := by simpa [Line.onFilter, Line.hear, Line.see] using shown
    exact ⟨Nat.lt_succ_of_lt (heading.chain.tails j old).1, (heading.chain.tails j old).2⟩
  · have old : (j, .data) ∈ l.sights := by simpa [Line.onFilter, Line.hear, Line.see] using shown
    exact heading.chain.plain j old
  · have stops : (Function.update l.filters h (f (l.filters h)) j).stopped = true := stops
    show j + 1 = h + 1 ∧ (Function.update l.filters h (f (l.filters h)) j).headersContinued = false
    by_cases same : j = h
    · subst same
      rw [self] at stops ⊢
      exact ⟨rfl, stopped stops⟩
    · rw [other same] at stops
      exact absurd (stops.symm.trans (heading.going j)) (by decide)
  · show (Function.update l.filters h (f (l.filters h)) j).headersContinued = true ∨
      (Function.update l.filters h (f (l.filters h)) j).stopped = true
    by_cases same : j = h
    · subst same
      rw [self]
      exact passed
    · rw [other same]
      exact heading.chain.passed j (Nat.lt_of_le_of_ne (Nat.le_of_lt_succ below) same)
  · show (Function.update l.filters h (f (l.filters h)) j).headersContinued = false
    rw [other (Nat.ne_of_gt above)]
    exact heading.chain.unseen j (Nat.le_of_succ_le above)
  · obtain ⟨rfl, stops⟩ := holds j keeps
    refine ⟨.inl ?_, fun t shown => ?_⟩
    · show (Function.update l.filters j (f (l.filters j)) j).stopped = true
      rw [self]
      exact stops
    · have old : (t, .trailers) ∈ l.sights := by simpa [Line.onFilter, Line.hear, Line.see] using shown
      exact (heading.chain.tails t old).1.le
  · exact absurd (yes.symm.trans heading.fresh) (by decide)

theorem Heading.stop (heading : Heading n late i h l) (room : h < n) :
    Passing n late i (((l.see h .headers).hear (.answered h .stop)).onFilter h fun f => { f with stopped := true }) := by
  have holds : ∀ j, Function.update l.held h true j = true → j = h := by
    intro j keeps
    by_contra different
    rw [Function.update_of_ne different] at keeps
    exact absurd (keeps.symm.trans (heading.free j)) (by decide)
  have unseen : (l.filters h).headersContinued = false := heading.chain.unseen h le_rfl
  refine ⟨h + 1, ⟨heading.answered room (fun j keeps => ⟨holds j keeps, rfl⟩) (fun _ => unseen) (.inr rfl), .inl ⟨h, ?_⟩,
    fun t shown => ?_, fun j blocks => ?_, heading.closed⟩⟩
  · show (Function.update l.filters h _ h).stopped = true
    rw [Function.update_self]
  · exact heading.before t (by simpa [Line.onFilter, Line.hear, Line.see] using shown)
  · rcases blocks with keeps | stops
    · rw [holds j keeps]
      exact heading.start
    · have stops : (Function.update l.filters h { l.filters h with stopped := true } j).stopped = true := stops
      by_cases same : j = h
      · rw [same]
        exact heading.start
      · rw [Function.update_of_ne same] at stops
        exact absurd (stops.symm.trans (heading.going j)) (by decide)

theorem Heading.go (heading : Heading n late i h l) (room : h < n) : Heading n late i (h + 1)
      (((l.see h .headers).hear (.answered h .continue_)).onFilter h fun f => { f with headersContinued := true }) := by
  have stopped : ∀ j, (Function.update l.filters h { l.filters h with headersContinued := true } j).stopped = false := by
    intro j
    rw [Function.update_apply]
    split
    · exact heading.going h
    · exact heading.going j
  refine ⟨heading.answered room (fun j keeps => ?_) (fun stops => ?_) (.inl rfl), fun t shown => ?_,
    heading.start.trans h.le_succ, heading.free, stopped, heading.fresh, heading.closed⟩
  · exact absurd (keeps.symm.trans (heading.free j)) (by decide)
  · exact absurd (stops.symm.trans (heading.going h)) (by decide)
  · exact heading.before t (by simpa [Line.onFilter, Line.hear, Line.see] using shown)

/-- Behind the last filter the stream is free, and a run over the trailers may begin. -/
theorem Heading.pass (heading : Heading n late i h l) (full : n ≤ h) : Passing n late i l :=
  ⟨h, heading.chain, .inr full, heading.before, fun j blocks => blocks.elim
    (fun keeps => absurd (keeps.symm.trans (heading.free j)) (by decide))
    fun stops => absurd (stops.symm.trans (heading.going j)) (by decide), heading.closed⟩

theorem Heading.request (heading : Heading n late i h l) (full : n ≤ h) (asked : Bool) :
    Passing n late i { l with upstreamRequest := true, asked := asked } := by
  obtain ⟨chain, before, _, free, going, _, closed⟩ := heading
  refine ⟨h, ⟨chain.started, chain.bound, chain.heads, chain.tails, chain.plain, chain.stopped, chain.passed,
    chain.unseen, chain.holds, fun _ => going⟩, .inr full, before, fun j blocks => ?_, closed⟩
  rcases blocks with keeps | stops
  · exact absurd (keeps.symm.trans (free j)) (by decide)
  · exact absurd (stops.symm.trans (going j)) (by decide)

/-! ### A run over the trailers -/

/-- While parts of the request are to come, no filter has seen trailers, and a run may begin at the first. -/
theorem Running.pass (running : Running n l) (open_ : l.closed = false) (c : Bool) (closed : late → c = true) :
    Passing n late 0 { l with closed := c } := by
  obtain ⟨h, chain, full⟩ := running
  have none : ∀ t, (t, .trailers) ∉ l.sights := fun t shown =>
    absurd ((chain.tails t shown).2.symm.trans open_) (by decide)
  refine ⟨h, ⟨chain.started, chain.bound, chain.heads, fun t shown => absurd shown (none t), chain.plain, chain.stopped,
    chain.passed, chain.unseen, chain.holds, chain.requested⟩, full, fun t shown => absurd shown (none t),
    fun j _ => j.zero_le, closed⟩

theorem Pass.running (pass : Pass n late i h l) : Running n l := ⟨h, pass.chain, pass.full⟩

/-- Once the upstream is asked, nothing holds the stream in front of such a run. -/
theorem Pass.free (pass : Pass n late i h l) (requested : l.upstreamRequest = true) (j : Nat) : l.held j = false := by
  by_contra keeps
  have keeps : l.held j = true := Bool.eq_true_of_not_eq_false keeps
  rcases (pass.chain.holds j keeps).1 with stops | shown
  · exact absurd (stops.symm.trans (pass.chain.requested requested j)) (by decide)
  · exact absurd (pass.blocked j (.inl keeps)) (Nat.not_le_of_lt (pass.before j shown))

theorem Pass.ended (pass : Pass n late i h l) (passed : n ≤ i) (j : Nat) : l.held j = false := by
  by_contra keeps
  have keeps : l.held j = true := Bool.eq_true_of_not_eq_false keeps
  have below : j < h := pass.chain.held_lt keeps
  exact absurd (pass.blocked j (.inl keeps)) (Nat.not_le_of_lt (below.trans_le (pass.chain.bound.trans passed)))

/-- The next filter does not hold the stream, unless it stopped the headers. -/
theorem Pass.open (pass : Pass n late i h l) (going : (l.filters i).stopped = false) : l.held i = false := by
  by_contra keeps
  have keeps : l.held i = true := Bool.eq_true_of_not_eq_false keeps
  rcases (pass.chain.holds i keeps).1 with stops | shown
  · exact absurd (stops.symm.trans going) (by decide)
  · exact absurd (pass.before i shown) (Nat.lt_irrefl i)

theorem Pass.seen (pass : Pass n late i h l) (room : i < n) : i < h := by
  rcases pass.full with ⟨j, stops⟩ | full
  · exact Nat.lt_of_le_of_lt (pass.blocked j (.inr stops)) (Nat.lt_of_succ_le (pass.chain.stopped j stops).1.le)
  · exact room.trans_le full

theorem Pass.fits (pass : Pass n late i h l) : ∀ old ∈ l.sights, Before old (i, .trailers) := by
  rintro ⟨a, part⟩ there
  cases part with
  | headers => exact ⟨nofun, fun _ => Nat.zero_lt_two⟩
  | data => exact absurd there (pass.chain.plain a)
  | trailers =>
    have below : a < i := pass.before a there
    exact ⟨fun _ => below, fun same => absurd same below.ne⟩

theorem Pass.answered (pass : Pass n True i h l) (room : i < n) {e : Effect}
    (holds : ∀ j, e.holds l.held j = true → j = i ∨ l.held j = true) :
    Resume n i h ((l.see i .trailers).hear e) := by
  have shown : ∀ {t}, (t, Part.trailers) ∈ l.sights ++ [(i, .trailers)] → t ≤ i := by
    intro t there
    rcases List.mem_append.mp there with old | new
    · exact (pass.before t old).le
    · exact (Prod.mk.inj (List.mem_singleton.mp new)).1.le
  have blocks : ∀ j, e.holds l.held j = true ∨ (l.filters j).stopped = true → i ≤ j := by
    rintro j (keeps | stops)
    · rcases holds j keeps with rfl | old
      · exact le_rfl
      · exact pass.blocked j (.inl old)
    · exact pass.blocked j (.inr stops)
  refine ⟨⟨pass.chain.started, pass.chain.bound, fun j => ?_, fun j there => ?_, fun j there => ?_, pass.chain.stopped,
    pass.chain.passed, pass.chain.unseen, fun j keeps => ⟨?_, fun t there => ?_⟩, pass.chain.requested⟩, pass.full,
    pass.seen room, fun t there => shown there, blocks⟩
  · rw [← pass.chain.heads]
    simp [Line.hear, Line.see]
  · rcases List.mem_append.mp there with old | new
    · exact pass.chain.tails j old
    · rw [(Prod.mk.inj (List.mem_singleton.mp new)).1]
      exact ⟨pass.seen room, pass.closed trivial⟩
  · exact pass.chain.plain j (by simpa [Line.hear, Line.see] using there)
  · rcases holds j keeps with rfl | old
    · exact .inr (List.mem_append_right _ (List.mem_singleton_self _))
    · exact (pass.chain.holds j old).1.imp id fun shown => List.mem_append_left _ shown
  · exact (shown there).trans (blocks j (.inl keeps))

theorem Resume.next (resume : Resume n i h l) (free : l.held i = false) (going : (l.filters i).stopped = false)
    (closed : late → l.closed = true) : Pass n late (i + 1) h l :=
  ⟨resume.chain, resume.full, fun t shown => Nat.lt_succ_of_le (resume.before t shown), fun j blocks => by
    refine Nat.lt_of_le_of_ne (resume.blocked j blocks) ?_
    rintro rfl
    rcases blocks with keeps | stops
    · exact absurd (keeps.symm.trans free) (by decide)
    · exact absurd (stops.symm.trans going) (by decide), closed⟩

/-! ### A filter continues -/

theorem Running.resume (running : Running n l) (holds : l.held k = true) (first : ∀ j < k, l.held j = false) :
    ∃ h, Resume n k h l := by
  obtain ⟨h, chain, full⟩ := running
  refine ⟨h, chain, full, chain.held_lt holds, (chain.holds k holds).2, fun j blocks => ?_⟩
  rcases blocks with keeps | stops
  · by_contra before
    exact absurd (keeps.symm.trans (first j (Nat.lt_of_not_le before))) (by decide)
  · exact Nat.le_of_lt_succ ((chain.held_lt holds).trans_eq (chain.stopped j stops).1.symm)

theorem Resume.release (resume : Resume n k h l) : Resume n k h (l.hear (.continued k)) := by
  have holds : ∀ {j}, Function.update l.held k false j = true → l.held j = true := by
    intro j keeps
    rw [Function.update_apply] at keeps
    split at keeps
    · cases keeps
    · exact keeps
  have chain := resume.chain
  exact ⟨⟨chain.started, chain.bound, chain.heads, chain.tails, chain.plain, chain.stopped, chain.passed, chain.unseen,
    fun j keeps => chain.holds j (holds keeps), chain.requested⟩, resume.full, resume.seen, resume.before,
    fun j blocks => resume.blocked j (blocks.imp holds id)⟩

theorem Resume.running (resume : Resume n k h l) : Running n l := ⟨h, resume.chain, resume.full⟩

theorem Resume.proceed (resume : Resume n k h l) (free : l.held k = false)
    (continued : (l.filters k).headersContinued = true) (closed : late → l.closed = true) :
    Passing n late (k + 1) (l.onFilter k fun f => { f with stopped := false }) := by
  have going : (l.filters k).stopped = false := by
    by_contra stops
    have stops : (l.filters k).stopped = true := Bool.eq_true_of_not_eq_false stops
    exact absurd (continued.symm.trans (resume.chain.stopped k stops).2) (by decide)
  rw [Line.onFilter_of_eq (show { l.filters k with stopped := false } = l.filters k by rw [← going])]
  exact ⟨h, resume.next free going closed⟩

theorem Resume.heading (resume : Resume n k h l) (free : l.held k = false)
    (continued : (l.filters k).headersContinued = false) (closed : late → l.closed = true) :
    Heading n late (k + 1) (k + 1)
      ((l.onFilter k fun f => { f with stopped := false }).onFilter k fun f => { f with headersContinued := true }) := by
  have chain := resume.chain
  have stops : (l.filters k).stopped = true := by
    rcases chain.passed k resume.seen with passed | stops
    · exact absurd (passed.symm.trans continued) (by decide)
    · exact stops
  obtain rfl : k + 1 = h := (chain.stopped k stops).1
  have open_ : ∀ j, l.held j = false := by
    intro j
    by_contra keeps
    have keeps : l.held j = true := Bool.eq_true_of_not_eq_false keeps
    have same : j = k :=
      Nat.le_antisymm (Nat.le_of_lt_succ (chain.held_lt keeps)) (resume.blocked j (.inl keeps))
    rw [same, free] at keeps
    cases keeps
  have self : (Function.update l.filters k { l.filters k with stopped := false, headersContinued := true }) k =
      { l.filters k with stopped := false, headersContinued := true } := Function.update_self ..
  have other : ∀ {j}, j ≠ k → (Function.update l.filters k
      { l.filters k with stopped := false, headersContinued := true }) j = l.filters j :=
    fun different => Function.update_of_ne different ..
  have going : ∀ j, (Function.update l.filters k
      { l.filters k with stopped := false, headersContinued := true } j).stopped = false := by
    intro j
    by_cases same : j = k
    · rw [same, self]
    · rw [other same]
      by_contra stopped
      have stopped : (l.filters j).stopped = true := Bool.eq_true_of_not_eq_false stopped
      exact same (Nat.succ_injective (chain.stopped j stopped).1)
  rw [Line.onFilter_onFilter]
  refine ⟨⟨chain.started, chain.bound, chain.heads, chain.tails, chain.plain, fun j stopped => ?_, fun j below => .inl ?_,
    fun j above => ?_, fun j keeps => ?_, fun _ => going⟩, fun t shown => Nat.lt_succ_of_le (resume.before t shown), le_rfl,
    open_, going, ?_, closed⟩
  · exact absurd (stopped.symm.trans (going j)) (by decide)
  · show (Function.update l.filters k _ j).headersContinued = true
    by_cases same : j = k
    · rw [same, self]
    · rw [other same]
      refine (chain.passed j below).resolve_right fun stopped => ?_
      exact same (Nat.succ_injective (chain.stopped j stopped).1)
  · show (Function.update l.filters k _ j).headersContinued = false
    rw [other (Nat.ne_of_gt above)]
    exact chain.unseen j above
  · exact absurd (keeps.symm.trans (open_ j)) (by decide)
  · -- a stopped filter has kept the headers from the upstream
    by_contra requested
    have requested : l.upstreamRequest = true := Bool.eq_true_of_not_eq_false requested
    exact absurd (stops.symm.trans (chain.requested requested k)) (by decide)

end Holding

end Strike.Proxy
