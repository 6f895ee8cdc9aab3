/-
**The limiter of calls per user** (`userqps.go`).

Each key has a token bucket in a cache. A bucket is kept for a fixed time from its creation, however
often it is used, and the next call behind that time starts with a full one. The cache is a parameter
(`Cache`), of which `Cache.Lawful` says what is assumed.

* `Account`: what one user has of a limiter. `view`: each user sees an account of its own, beside whatever
  calls and clean-ups.
* `users_apart`: the answers to one user do not depend on the calls of the others.
* `granted_of_refilled`: the bound of one user, in runs where no bucket expires before it is full again.
* `renewed_early`: without that, two buckets can be emptied at once.
-/

import Strike.Lib.View
import Strike.Limit.QPS
import Strike.Utils.TokenBucket

namespace Strike.Limit

open Strike.Lib Strike.Utils

/-! ### The cache -/

/-- What the limiter calls of `go-cache`. The objects are pointers, and every call has its time. -/
structure Cache (κ : Type) where
  new : κ
  get (c : κ) (key : Bytes) (now : Int) : Option Nat
  set (c : κ) (key : Bytes) (object : Nat) (ttl now : Int) : κ
  deleteExpired (c : κ) (now : Int) : κ

/-- **What is assumed of the cache**: it returns the last object that was set for a key until its time to live
has passed, and not afterwards; and the clean-up takes nothing that later calls would see. -/
structure Cache.Lawful {κ : Type} (cache : Cache κ) : Prop where
  get_new : ∀ key now, cache.get cache.new key now = none
  get_set : ∀ c key object ttl time now,
    cache.get (cache.set c key object ttl time) key now = if now > time + ttl then none else some object
  get_set_of_ne : ∀ c {key key'} object ttl time now, key' ≠ key →
    cache.get (cache.set c key object ttl time) key' now = cache.get c key' now
  get_deleteExpired : ∀ c key {time now}, time ≤ now → cache.get (cache.deleteExpired c time) key now = cache.get c key now

/-! ### The limiter -/

/-- `DefaultTokenBucketTTL`: four hours. -/
def defaultTokenBucketTTL : Int := 4 * 3600 * 1000000000

/-- `UserQPSLimiter`. The cache has pointers to `limiters`, which are all that were made, each with the key it
was made for. -/
structure UserQPSLimiter (κ : Type) where
  maxAllows : Int
  periodMicros : Int
  maxAllowsPerSecond : ℚ
  tokenBuckets : κ
  limiters : List (Bytes × Limiter) := []

variable {κ : Type} (cache : Cache κ)

/-- `NewUserQPSLimiter`. The product `maxAllows*1000` is one of `int64`. -/
def newUserQPSLimiter (maxAllows periodMs : Int) : Except GoError (UserQPSLimiter κ) :=
  if maxAllows < 0 ∨ periodMs ≤ 0 then
    .error (.new "maxAllows must not be negtive, and periodMs be positive")
  else
    .ok { maxAllows := maxAllows
          periodMicros := int64 (periodMs * millisecond)
          maxAllowsPerSecond := int64 (maxAllows * 1000) / periodMs
          tokenBuckets := cache.new }

namespace UserQPSLimiter

variable (round : ℚ → ℚ)

/-- `Set` of a new limiter, where `Get` finds none. -/
def provide (l : UserQPSLimiter κ) (strKey : Bytes) (now : Int) : UserQPSLimiter κ :=
  if (cache.get l.tokenBuckets strKey now).isSome then l
  else
    { l with
      tokenBuckets := cache.set l.tokenBuckets strKey l.limiters.length defaultTokenBucketTTL now
      limiters := l.limiters ++ [(strKey, newLimiter l.maxAllowsPerSecond l.maxAllows)] }

/-- `Allow` of the limiter that `i` points to. -/
def allowAt (l : UserQPSLimiter κ) (i : Nat) (now : Int) : Bool × UserQPSLimiter κ :=
  match l.limiters[i]? with
  | none => (false, l)
  | some (key, limiter) =>
    let (ok, limiter) := limiter.allow round now
    (ok, { l with limiters := l.limiters.set i (key, limiter) })

/-- `TryAcquire` of a key at the time `now`. -/
def tryAcquire (l : UserQPSLimiter κ) (strKey : Bytes) (now : Int) : Bool × UserQPSLimiter κ :=
  if l.maxAllows ≤ 0 then (false, l)
  else
    let l := l.provide cache strKey now
    match cache.get l.tokenBuckets strKey now with
    | none => (false, l)
    | some i => l.allowAt round i now

/-- What happens to a limiter. -/
inductive Event where
  | call (key : Bytes) (now : Int)
  | cleanup (now : Int)
  deriving Repr, DecidableEq

/-- The time of an event. -/
def Event.time : Event → Int
  | .call _ now => now
  | .cleanup now => now

/-- One event. -/
def step (l : UserQPSLimiter κ) : Event → Bool × UserQPSLimiter κ
  | .call key now => l.tryAcquire cache round key now
  | .cleanup now => (false, { l with tokenBuckets := cache.deleteExpired l.tokenBuckets now })

/-- The limiter as a machine. -/
def machine : Machine (UserQPSLimiter κ) Event Bool := ⟨step cache round⟩

/-! ### The account of a user -/

/-- What a user has of a limiter: its settings, and the last bucket of the user with the time it expires. -/
structure Account where
  maxAllows : Int
  rate : ℚ
  bucket : Option (Limiter × Int) := none

/-- The bucket that a call uses: the last one, or a new one when that has expired. -/
def Account.used (a : Account) (now : Int) : Limiter × Int :=
  (a.bucket.filter fun b => !decide (now > b.2)).getD (newLimiter a.rate a.maxAllows, now + defaultTokenBucketTTL)

/-- A call of the user. -/
def Account.tryAcquire (a : Account) (now : Int) : Bool × Account :=
  if a.maxAllows ≤ 0 then (false, a)
  else (((a.used now).1.allow round now).1,
    { a with bucket := some (((a.used now).1.allow round now).2, (a.used now).2) })

/-- The account as a machine. -/
def account : Machine Account Int Bool := ⟨Account.tryAcquire round⟩

/-- The time of a call with a key. -/
def callOf (key : Bytes) : Event → Option Int
  | .call key' now => if key' = key then some now else none
  | .cleanup _ => none

/-- The clock of a clean-up is not ahead of the calls behind it. -/
def Event.Before : Event → Event → Prop
  | .cleanup now, .call _ now' => now ≤ now'
  | _, _ => True

/-- The limiter at `i` is the last that was made for the key. -/
def Newest (limiters : List (Bytes × Limiter)) (key : Bytes) (i : Nat) (limiter : Limiter) : Prop :=
  limiters[i]? = some (key, limiter) ∧ ∀ j > i, ∀ later, limiters[j]? ≠ some (key, later)

/-- The cache has the bucket of an account for the calls of its key that are to come. -/
def Holds (key : Bytes) (events : List Event) (l : UserQPSLimiter κ) : Option (Limiter × Int) → Prop
  | none => (∀ (i : Nat) (limiter : Limiter), l.limiters[i]? ≠ some (key, limiter)) ∧
      ∀ now, Event.call key now ∈ events → cache.get l.tokenBuckets key now = none
  | some (limiter, expiration) => ∃ i, Newest l.limiters key i limiter ∧
      ∀ now, Event.call key now ∈ events →
        cache.get l.tokenBuckets key now = if now > expiration then none else some i

/-- **The account of a key.** No pointer of the cache is to a limiter of another key. -/
structure Accounts (key : Bytes) (events : List Event) (l : UserQPSLimiter κ) (a : Account) : Prop where
  allows : l.maxAllows = a.maxAllows
  rate : l.maxAllowsPerSecond = a.rate
  bucket : Holds cache key events l a.bucket
  own : ∀ key' now (i : Nat), Event.call key' now ∈ events → cache.get l.tokenBuckets key' now = some i →
    ∃ limiter, l.limiters[i]? = some (key', limiter)
  ordered : events.Pairwise Event.Before

variable {cache round} {l : UserQPSLimiter κ} {a : Account} {key : Bytes} {now : Int} {events : List Event}

theorem callOf_eq_some {event : Event} : callOf key event = some now ↔ event = .call key now := by
  cases event with
  | call key' now' =>
    by_cases same : key' = key
    · rw [callOf, if_pos same, same, Option.some.injEq, Event.call.injEq]
      exact ⟨fun equal => ⟨rfl, equal⟩, And.right⟩
    · rw [callOf, if_neg same, Event.call.injEq]
      exact iff_of_false (by rintro ⟨⟩) fun equal => same equal.1
  | cleanup => exact iff_of_false (by rintro ⟨⟩) (by rintro ⟨⟩)

/-! ### Users apart -/

theorem Holds.same {l' : UserQPSLimiter κ} {more : List Event} {bucket : Option (Limiter × Int)}
    (holds : Holds cache key more l bucket) (fewer : events ⊆ more)
    (limiters : ∀ (i : Nat) (limiter : Limiter), l'.limiters[i]? = some (key, limiter) ↔ l.limiters[i]? = some (key, limiter))
    (gets : ∀ now, Event.call key now ∈ events → cache.get l'.tokenBuckets key now = cache.get l.tokenBuckets key now) :
    Holds cache key events l' bucket := by
  match bucket, holds with
  | none, ⟨unmade, absent⟩ =>
    refine ⟨fun i limiter made => unmade i limiter ((limiters i limiter).mp made), fun now there => ?_⟩
    exact (gets now there).trans (absent now (fewer there))
  | some (limiter, expiration), ⟨i, ⟨made, last⟩, found⟩ =>
    refine ⟨i, ⟨(limiters i limiter).mpr made, fun j later limiter made => ?_⟩, fun now there => ?_⟩
    · exact last j later limiter ((limiters j limiter).mp made)
    · exact (gets now there).trans (found now (fewer there))

theorem newest_append (limiters : List (Bytes × Limiter)) (key : Bytes) (limiter : Limiter) :
    Newest (limiters ++ [(key, limiter)]) key limiters.length limiter := by
  refine ⟨List.getElem?_concat_length, fun j later limiter' => ?_⟩
  rw [List.getElem?_eq_none (by rw [List.length_append, List.length_singleton]; omega)]
  exact nofun

variable (lawful : cache.Lawful)
include lawful

theorem get_provided (c : κ) (key : Bytes) (i : Nat) (now : Int) :
    cache.get (cache.set c key i defaultTokenBucketTTL now) key now = some i := by
  rw [lawful.get_set, if_neg]
  unfold defaultTokenBucketTTL
  omega

theorem own_provide {more : List Event}
    (own : ∀ key' now (i : Nat), Event.call key' now ∈ more → cache.get l.tokenBuckets key' now = some i →
      ∃ limiter, l.limiters[i]? = some (key', limiter)) {key' : Bytes} {now' : Int} {i : Nat}
    (there : Event.call key' now' ∈ more) (found : cache.get (l.provide cache key now).tokenBuckets key' now' = some i) :
    ∃ limiter, (l.provide cache key now).limiters[i]? = some (key', limiter) := by
  unfold provide at found ⊢
  split at found
  · next some_ =>
      rw [if_pos some_]
      exact own key' now' i there found
  · next none_ =>
      rw [if_neg none_]
      by_cases same : key' = key
      · subst same
        rw [lawful.get_set, Option.ite_none_left_eq_some, Option.some.injEq] at found
        exact ⟨_, found.2 ▸ List.getElem?_concat_length⟩
      · rw [lawful.get_set_of_ne _ _ _ _ _ same] at found
        obtain ⟨limiter, made⟩ := own key' now' i there found
        exact ⟨limiter, List.getElem?_append_left (List.getElem?_eq_some_iff.mp made).1 ▸ made⟩

variable (cache) in
omit lawful in
/-- The cache has a bucket for a call, and for those behind it. -/
def Has (key : Bytes) (now : Int) (events : List Event) (l : UserQPSLimiter κ) (bucket : Limiter × Int) : Prop :=
  ∃ i, Newest l.limiters key i bucket.1 ∧ cache.get l.tokenBuckets key now = some i ∧
    ∀ now', Event.call key now' ∈ events →
      cache.get l.tokenBuckets key now' = if now' > bucket.2 then none else some i

/-- **The bucket a call uses** is the one of the account. -/
theorem provide_used (accounts : Accounts cache key (.call key now :: events) l a) :
    Has cache key now events (l.provide cache key now) (a.used now) := by
  have fresh (none_ : cache.get l.tokenBuckets key now = none)
      (used : a.used now = (newLimiter a.rate a.maxAllows, now + defaultTokenBucketTTL)) :
      Has cache key now events (l.provide cache key now) (a.used now) := by
    have provided : l.provide cache key now = { l with
        tokenBuckets := cache.set l.tokenBuckets key l.limiters.length defaultTokenBucketTTL now
        limiters := l.limiters ++ [(key, newLimiter a.rate a.maxAllows)] } := by
      rw [provide, none_, accounts.rate, accounts.allows]
      rfl
    rw [provided, used]
    exact ⟨l.limiters.length, newest_append _ _ _, get_provided lawful _ _ _ _, fun now' _ => lawful.get_set ..⟩
  have bucket := accounts.bucket
  cases last : a.bucket with
  | none =>
    rw [last] at bucket
    exact fresh (bucket.2 now List.mem_cons_self) (by rw [Account.used, last]; rfl)
  | some b =>
    obtain ⟨limiter, expiration⟩ := b
    rw [last] at bucket
    obtain ⟨i, newest, found⟩ := bucket
    have here := found now List.mem_cons_self
    by_cases late : now > expiration
    · rw [if_pos late] at here
      exact fresh here (by rw [Account.used, last, Option.filter_some]; simp [late])
    · rw [if_neg late] at here
      have kept : l.provide cache key now = l := by rw [provide, here]; rfl
      have used : a.used now = (limiter, expiration) := by rw [Account.used, last, Option.filter_some]; simp [late]
      rw [kept, used]
      exact ⟨i, newest, here, fun now' there => found now' (List.mem_cons_of_mem _ there)⟩

omit lawful in
theorem allowAt_eq {i : Nat} {limiter : Limiter} (made : l.limiters[i]? = some (key, limiter)) :
    l.allowAt round i now = ((limiter.allow round now).1,
      { l with limiters := l.limiters.set i (key, (limiter.allow round now).2) }) := by
  rw [allowAt, made]

omit lawful in
theorem own_allowed {i j : Nat} {key' : Bytes} {limiter limiter' : Limiter} (made : l.limiters[i]? = some (key, limiter))
    (found : ∃ limiter, l.limiters[j]? = some (key', limiter)) :
    ∃ later, (l.limiters.set i (key, limiter'))[j]? = some (key', later) := by
  obtain ⟨other, there⟩ := found
  rw [List.getElem?_set]
  split
  · next same =>
      subst same
      rw [made, Option.some.injEq, Prod.mk.injEq] at there
      rw [if_pos (List.getElem?_eq_some_iff.mp made).1, there.1]
      exact ⟨_, rfl⟩
  · exact ⟨other, there⟩

omit lawful in
theorem provide_settings (cache : Cache κ) (l : UserQPSLimiter κ) (key : Bytes) (now : Int) :
    (l.provide cache key now).maxAllows = l.maxAllows ∧
      (l.provide cache key now).maxAllowsPerSecond = l.maxAllowsPerSecond := by
  unfold provide
  split <;> exact ⟨rfl, rfl⟩

omit lawful in
theorem tryAcquire_maxAllows (l : UserQPSLimiter κ) (key : Bytes) (now : Int) :
    (l.tryAcquire cache round key now).2.maxAllows = l.maxAllows := by
  have provided := (provide_settings cache l key now).1
  unfold tryAcquire
  split
  · rfl
  · dsimp only
    split
    · exact provided
    · unfold allowAt
      split <;> exact provided

/-- **A call of the user** is one of its account. -/
theorem Accounts.call (accounts : Accounts cache key (.call key now :: events) l a) :
    (l.tryAcquire cache round key now).1 = (a.tryAcquire round now).1 ∧
      Accounts cache key events (l.tryAcquire cache round key now).2 (a.tryAcquire round now).2 := by
  have ordered := (List.pairwise_cons.mp accounts.ordered).2
  unfold tryAcquire Account.tryAcquire
  by_cases closed : l.maxAllows ≤ 0
  · rw [if_pos closed, if_pos (accounts.allows ▸ closed)]
    exact ⟨rfl, accounts.allows, accounts.rate, accounts.bucket.same (List.subset_cons_self _ _) (fun _ _ => Iff.rfl)
      fun _ _ => rfl, fun key' now' i there => accounts.own key' now' i (List.mem_cons_of_mem _ there), ordered⟩
  · rw [if_neg closed, if_neg (accounts.allows ▸ closed)]
    obtain ⟨i, ⟨made, last⟩, here, later⟩ := provide_used lawful accounts
    have bound := (List.getElem?_eq_some_iff.mp made).1
    dsimp only
    rw [here]
    dsimp only
    rw [allowAt_eq made]
    refine ⟨rfl, (provide_settings ..).1.trans accounts.allows, (provide_settings ..).2.trans accounts.rate,
      ⟨i, ⟨?_, fun j behind limiter => ?_⟩, later⟩, fun key' now' j there found => ?_, ordered⟩
    · exact (List.getElem?_set_self bound).trans rfl
    · exact ne_of_eq_of_ne (List.getElem?_set_ne (Nat.ne_of_lt behind)) (last j behind limiter)
    · exact own_allowed made (own_provide lawful accounts.own (List.mem_cons_of_mem _ there) found)

/-- **A call of another user** leaves the account. -/
theorem Accounts.other {key' : Bytes} (accounts : Accounts cache key (.call key' now :: events) l a) (differ : key' ≠ key) :
    Accounts cache key events (l.tryAcquire cache round key' now).2 a := by
  have ordered := (List.pairwise_cons.mp accounts.ordered).2
  have provided : Accounts cache key (.call key' now :: events) (l.provide cache key' now) a := by
    refine ⟨(provide_settings ..).1.trans accounts.allows, (provide_settings ..).2.trans accounts.rate,
      accounts.bucket.same (List.Subset.refl _) (fun i limiter => ?_) (fun now' _ => ?_),
      fun key'' now' i there found => own_provide lawful accounts.own there found, accounts.ordered⟩
    · unfold provide
      split
      · exact Iff.rfl
      · rw [List.getElem?_append]
        split
        · exact Iff.rfl
        · next beyond =>
            rw [List.getElem?_eq_none (not_lt.mp beyond)]
            refine iff_of_false (fun made => ?_) nofun
            obtain ⟨same, -⟩ := Prod.mk.inj (List.mem_singleton.mp (List.mem_of_getElem? made))
            exact differ same.symm
    · unfold provide
      split
      · rfl
      · exact lawful.get_set_of_ne _ _ _ _ _ (Ne.symm differ)
  have kept (l' : UserQPSLimiter κ) (accounts : Accounts cache key (.call key' now :: events) l' a) :
      Accounts cache key events l' a :=
    ⟨accounts.allows, accounts.rate, accounts.bucket.same (List.subset_cons_self _ _) (fun _ _ => Iff.rfl) fun _ _ => rfl,
      fun key'' now' i there => accounts.own key'' now' i (List.mem_cons_of_mem _ there), ordered⟩
  unfold tryAcquire
  split
  · exact kept l accounts
  · dsimp only
    split
    · exact kept _ provided
    · next i found =>
        obtain ⟨limiter, made⟩ := provided.own key' now i List.mem_cons_self found
        rw [allowAt_eq made]
        refine ⟨provided.allows, provided.rate, provided.bucket.same (List.subset_cons_self _ _) (fun j other => ?_)
          fun _ _ => rfl, fun key'' now' j there found => ?_, ordered⟩
        · dsimp only
          by_cases same : i = j
          · subst same
            rw [List.getElem?_set_self (List.getElem?_eq_some_iff.mp made).1, made]
            simp [differ]
          · rw [List.getElem?_set_ne same]
        · exact own_allowed made (provided.own key'' now' j (List.mem_cons_of_mem _ there) found)

/-- **Each user sees an account of its own.** -/
theorem view (key : Bytes) : Machine.View (machine cache round) (account round) (callOf key) (Accounts cache key) where
  out accounts mine := by
    obtain rfl := callOf_eq_some.mp mine
    exact (accounts.call lawful).1
  next accounts mine := by
    obtain rfl := callOf_eq_some.mp mine
    exact (accounts.call lawful).2
  other {event events l a} accounts mine := by
    obtain ⟨before, ordered⟩ := List.pairwise_cons.mp accounts.ordered
    cases event with
    | call key' now =>
      refine accounts.other lawful ?_
      rintro rfl
      rw [callOf, if_pos rfl] at mine
      cases mine
    | cleanup now =>
      have gets {key' now'} (there : Event.call key' now' ∈ events) := lawful.get_deleteExpired l.tokenBuckets key' (before _ there)
      refine ⟨accounts.allows, accounts.rate, accounts.bucket.same (List.subset_cons_self _ _) (fun _ _ => Iff.rfl)
        (fun _ there => gets there), fun key' now' i there found => ?_, ordered⟩
      exact accounts.own key' now' i (List.mem_cons_of_mem _ there) ((gets there).symm.trans found)

/-- The account of every key of a new limiter. -/
theorem newUserQPSLimiter_accounts {maxAllows periodMs : Int} (made : newUserQPSLimiter cache maxAllows periodMs = .ok l)
    (key : Bytes) (ordered : events.Pairwise Event.Before) :
    Accounts cache key events l ⟨maxAllows, int64 (maxAllows * 1000) / periodMs, none⟩ := by
  unfold newUserQPSLimiter at made
  split at made
  · cases made
  · cases made
    refine ⟨rfl, rfl, ⟨fun i limiter => nofun, fun now _ => lawful.get_new key now⟩, fun key' now i _ found => ?_, ordered⟩
    rw [show cache.get cache.new key' now = none from lawful.get_new key' now] at found
    cases found

omit lawful in
/-- **Users do not affect each other's limit.** Two runs of a new limiter with the same calls of one user answer
these calls alike, whatever the others call and wherever the cache is cleaned up. -/
theorem users_apart (lawful : cache.Lawful) (round : ℚ → ℚ) {maxAllows periodMs : Int}
    (made : newUserQPSLimiter cache maxAllows periodMs = .ok l) (key : Bytes) {events events' : List Event}
    (ordered : events.Pairwise Event.Before) (ordered' : events'.Pairwise Event.Before)
    (same : events.filterMap (callOf key) = events'.filterMap (callOf key)) :
    (machine cache round).answers (callOf key) l events = (machine cache round).answers (callOf key) l events' := by
  rw [(view lawful key).answers events (newUserQPSLimiter_accounts lawful made key ordered),
    (view lawful key).answers events' (newUserQPSLimiter_accounts lawful made key ordered'), same]

/-- A cache: an object with the time it expires, for some of the keys. -/
def shelf : Cache (Bytes → Option (Nat × Int)) where
  new := fun _ => none
  get c key now := ((c key).filter fun item => !decide (now > item.2)).map Prod.fst
  set c key object ttl now := Function.update c key (some (object, now + ttl))
  deleteExpired c now := fun key => (c key).filter fun item => !decide (now > item.2)

omit lawful in
theorem shelf_lawful : shelf.Lawful where
  get_new _ _ := rfl
  get_set c key object ttl time now := by
    simp only [shelf, Function.update_self, Option.filter_some, Bool.not_eq_true', decide_eq_false_iff_not]
    split <;> simp_all
  get_set_of_ne c key key' object ttl time now differ := by simp only [shelf, Function.update_of_ne differ]
  get_deleteExpired c key time now soon := by
    simp only [shelf, Option.filter_filter]
    refine congrArg (fun p => ((c key).filter p).map Prod.fst) (funext fun item => ?_)
    rw [Bool.and_eq_right_iff_imp]
    simp only [Bool.not_eq_true', decide_eq_false_iff_not, not_lt]
    exact soon.trans

/-- The limiter of one call in a second. -/
def perSecond : UserQPSLimiter (Bytes → Option (Nat × Int)) :=
  { maxAllows := 1, periodMicros := 1000000000, maxAllowsPerSecond := 1, tokenBuckets := shelf.new }

omit lawful in
theorem newUserQPSLimiter_perSecond : newUserQPSLimiter shelf 1 1000 = .ok perSecond := by
  have period : int64 (1000 * millisecond) = 1000000000 := by decide
  have rate : ((int64 (1 * 1000) : Int) : ℚ) / (1000 : Int) = 1 := by
    rw [show int64 (1 * 1000) = 1000 by decide]
    norm_num
  unfold newUserQPSLimiter perSecond
  rw [if_neg (by decide), period, rate]

omit lawful in
/-- The theorem at two runs, in one of which another user calls and the cache is cleaned up. -/
theorem users_apart_two :
    (machine shelf id).answers (callOf [1]) perSecond [.call [2] 0, .call [1] 1, .cleanup 1, .call [2] 2, .call [1] 3] =
      (machine shelf id).answers (callOf [1]) perSecond [.call [1] 1, .call [1] 3] := by
  refine users_apart shelf_lawful id newUserQPSLimiter_perSecond [1] ?_ ?_ rfl
  · simp [Event.Before]
  · simp [Event.Before]

/-! ### The bound of one user -/

omit lawful

/-- **The last bucket is full again when it has expired.** -/
def Account.Refilled (a : Account) (now : Int) : Prop := ∀ b ∈ a.bucket, now > b.2 → b.1.level now = a.maxAllows

/-- An account with these settings, whose bucket is one of its own. -/
structure Account.Valid (M : Int) (r : ℚ) (a : Account) (now : Int) : Prop where
  allows : a.maxAllows = M
  rate : a.rate = r
  bucket : ∀ b ∈ a.bucket, b.1.Valid now ∧ b.1.limit = r ∧ b.1.burst = M

/-- The tokens of the user. -/
def Account.credit (a : Account) (now : Int) : ℚ := a.bucket.elim a.maxAllows fun b => b.1.level now

variable {M : Int} {r : ℚ}

theorem Account.Valid.used (allows : 1 ≤ M) (fills : 0 < r) (finite : r ≠ inf) (valid : a.Valid M r now) :
    (a.used now).1.Valid now ∧ (a.used now).1.limit = r ∧ (a.used now).1.burst = M := by
  unfold Account.used
  cases found : a.bucket.filter fun b => !decide (now > b.2) with
  | some b => exact valid.bucket b (Option.filter_eq_some_iff.mp found).1
  | none =>
    rw [Option.getD_none, valid.rate, valid.allows]
    refine ⟨⟨finite, fills, allows, le_rfl, Int.cast_nonneg_iff.mpr (zero_le_one.trans allows), ?_⟩, rfl, rfl⟩
    rintro last ⟨⟩

theorem Account.level_used (refilled : a.Refilled now) : (a.used now).1.level now = a.credit now := by
  unfold Account.used Account.credit
  cases last : a.bucket with
  | none => rfl
  | some b =>
    rw [Option.filter_some]
    by_cases late : now > b.2
    · simp only [late, decide_true, Bool.not_true, Bool.false_eq_true, if_false, Option.getD_none]
      exact (refilled b last late).symm
    · simp only [late, decide_false, Bool.not_false, if_true, Option.getD_some]
      rfl

/-- **One call of the user**: it is granted when there is a token, and takes it. -/
theorem Account.Valid.step (allows : 1 ≤ M) (fills : 0 < r) (finite : r ≠ inf) (valid : a.Valid M r now)
    (refilled : a.Refilled now) :
    ((account id).step a now).2.Valid M r now ∧ ((account id).step a now).1 = decide (1 ≤ a.credit now) ∧
      ((account id).step a now).2.credit now = if 1 ≤ a.credit now then a.credit now - 1 else a.credit now := by
  obtain ⟨used, limit, burst⟩ := valid.used allows fills finite
  obtain ⟨limit', burst'⟩ := Limiter.allow_settings used
  rw [show (account id).step a now = _ from if_neg (by rw [valid.allows]; omega), ← Account.level_used refilled]
  refine ⟨⟨valid.allows, valid.rate, ?_⟩, Limiter.allow_ok used, Limiter.level_allow used⟩
  rintro b ⟨⟩
  exact ⟨used.allow, limit'.trans limit, burst'.trans burst⟩

/-- **The user has a credit**, as long as no bucket expires early. -/
theorem meter (allows : 1 ≤ M) (fills : 0 < r) (finite : r ≠ inf) :
    Meter (account id) Account.Refilled (Account.Valid M r) Account.credit M (r / 1000000000) 1 1 where
  later {a now now'} valid soon := by
    refine ⟨valid.allows, valid.rate, fun b there => ?_⟩
    obtain ⟨bucket, settings⟩ := valid.bucket b there
    exact ⟨bucket.later soon, settings⟩
  keeps valid refilled := (valid.step allows fills finite refilled).1
  bounded {a now} valid := by
    unfold Account.credit
    cases last : a.bucket with
    | none => exact (congrArg Int.cast valid.allows).le
    | some b =>
      obtain ⟨-, -, burst⟩ := valid.bucket b last
      exact (Limiter.level_le_burst _ _).trans_eq (congrArg Int.cast burst)
  grows {a now now'} valid soon := by
    unfold Account.credit
    cases last : a.bucket with
    | none =>
      exact le_add_of_nonneg_right
        (mul_nonneg (div_nonneg fills.le (by norm_num)) (sub_nonneg.mpr (Int.cast_le.mpr soon)))
    | some b =>
      obtain ⟨bucket, limit, -⟩ := valid.bucket b last
      exact limit ▸ Limiter.level_grows bucket soon
  finds valid refilled granted := by
    rw [(valid.step allows fills finite refilled).2.1] at granted
    exact of_decide_eq_true granted
  pays valid refilled granted := by
    obtain ⟨-, ok, left⟩ := valid.step allows fills finite refilled
    rw [ok] at granted
    rw [left, if_pos (of_decide_eq_true granted)]
  spares valid refilled refused := by
    obtain ⟨-, ok, left⟩ := valid.step allows fills finite refilled
    rw [ok] at refused
    rw [left, if_neg (of_decide_eq_false refused)]

theorem rate_of_made {maxAllows periodMs : Int} (made : newUserQPSLimiter cache maxAllows periodMs = .ok l)
    (allows : 1 ≤ maxAllows) (fits : maxAllows * 1000 < 2 ^ 63) :
    (int64 (maxAllows * 1000) / periodMs : ℚ) = maxAllows * 1000 / periodMs ∧ 0 < periodMs ∧
      (maxAllows * 1000 / periodMs : ℚ) ≠ inf := by
  have period : 1 ≤ periodMs := not_lt.mp fun zero => by
    rw [newUserQPSLimiter, if_pos (.inr (by omega))] at made
    cases made
  refine ⟨?_, period, ?_⟩
  · rw [int64_of_fits (by omega) fits]
    push_cast
    rfl
  · have small : (maxAllows * 1000 / periodMs : ℚ) ≤ 2 ^ 63 := by
      have high : (maxAllows * 1000 : ℚ) ≤ 2 ^ 63 := by exact_mod_cast fits.le
      have low : (0 : ℚ) ≤ maxAllows * 1000 := by
        have : (0 : ℚ) ≤ maxAllows := by exact_mod_cast zero_le_one.trans allows
        linarith
      exact (div_le_self low (by exact_mod_cast period)).trans high
    exact (small.trans_lt lt_inf).ne

variable (cache) in
/-- **The last bucket of the key is full again where the cache has none**, when the key is used. -/
def Refilled (key : Bytes) (l : UserQPSLimiter κ) : Event → Prop
  | .call key' now => key' = key → cache.get l.tokenBuckets key now = none →
      ∀ i limiter, Newest l.limiters key i limiter → limiter.level now = l.maxAllows
  | .cleanup _ => True

theorem Accounts.refilled (accounts : Accounts cache key (.call key now :: events) l a)
    (refilled : Refilled cache key l (.call key now)) : a.Refilled now := by
  rintro ⟨limiter, expiration⟩ last late
  have bucket := accounts.bucket
  rw [show a.bucket = some (limiter, expiration) from last] at bucket
  obtain ⟨i, newest, found⟩ := bucket
  rw [← accounts.allows]
  exact refilled rfl ((found now List.mem_cons_self).trans (if_pos late)) i limiter newest

/-- **The bound of one user**, over all calls and clean-ups in order, in runs where no bucket of that user expires
before it is full again: how many granted calls of the user a window of length `T` holds. The product with
`1000` has to fit. -/
theorem granted_of_refilled (lawful : cache.Lawful) {maxAllows periodMs : Int}
    (made : newUserQPSLimiter cache maxAllows periodMs = .ok l) (allows : 1 ≤ maxAllows)
    (fits : maxAllows * 1000 < 2 ^ 63) {run : List Event} (ordered : (run.map Event.time).Pairwise (· ≤ ·)) (key : Bytes)
    (refilled : (machine cache id).Admits (Refilled cache key) l run) (start : Int) {T : Int} (long : 0 ≤ T) :
    ((within start (start + T) (((machine cache id).granted l run).filterMap (callOf key))).length : ℚ) ≤
      maxAllows * (1 + T / (periodMs * millisecond)) := by
  have before : run.Pairwise Event.Before := (List.pairwise_map.mp ordered).imp fun {e e'} soon => by
    cases e with
    | call => trivial
    | cleanup now =>
      cases e' with
      | call => exact soon
      | cleanup => trivial
  have sorted : (run.filterMap (callOf key)).Pairwise (· ≤ ·) := by
    refine (List.pairwise_map.mp ordered).filterMap _ ?_
    intro c c' before t mine t' mine'
    obtain rfl := callOf_eq_some.mp mine
    obtain rfl := callOf_eq_some.mp mine'
    exact before
  obtain ⟨rate, positive, finite⟩ := rate_of_made made allows fits
  have accounts := newUserQPSLimiter_accounts lawful made key before
  rw [rate] at accounts
  have seen {event events now l a} : Accounts cache key (event :: events) l a → callOf key event = some now →
      Refilled cache key l event → Account.Refilled a now := fun accounts mine refilled => by
    obtain rfl := callOf_eq_some.mp mine
    exact accounts.refilled refilled
  have admitted := (view lawful key).admits seen run accounts refilled
  rw [(view lawful key).granted run accounts]
  generalize run.filterMap (callOf key) = times at sorted admitted
  have period : (0 : ℚ) < periodMs := Int.cast_pos.mpr positive
  have some_ : (0 : ℚ) < maxAllows := Int.cast_pos.mpr (by omega)
  have fills : (0 : ℚ) < maxAllows * 1000 / periodMs := div_pos (by linarith) period
  by_cases empty : within start (start + T) ((account id).granted ⟨maxAllows, maxAllows * 1000 / periodMs, none⟩ times) = []
  · rw [empty]
    have grown : (0 : ℚ) ≤ T / (periodMs * millisecond) :=
      div_nonneg (Int.cast_nonneg_iff.mpr long) (mul_nonneg period.le (Int.cast_nonneg_iff.mpr (by decide)))
    exact mul_nonneg some_.le (by linarith)
  · cases times with
    | nil => exact absurd rfl empty
    | cons t times =>
      have valid : Account.Valid maxAllows (maxAllows * 1000 / periodMs) ⟨maxAllows, maxAllows * 1000 / periodMs, none⟩ t :=
        ⟨rfl, rfl, by rintro b ⟨⟩⟩
      have few := (meter allows fills finite).within_le valid (pairwise_again sorted) admitted
        (div_nonneg fills.le (by norm_num)) empty
      have bound : (maxAllows : ℚ) + maxAllows * 1000 / periodMs / 1000000000 * ((start + T : Int) - start) =
          maxAllows * (1 + T / (periodMs * millisecond)) := by
        unfold millisecond
        push_cast
        field_simp
        ring
      rw [← bound]
      linarith

/-- The theorem at a user who comes back when the bucket has expired, and would be full. -/
theorem granted_of_refilled_back : ((within 0 (0 + 2 * defaultTokenBucketTTL) (((machine shelf id).granted perSecond
        [.call [] 0, .cleanup 1, .call [] (defaultTokenBucketTTL + 1)]).filterMap (callOf []))).length : ℚ) ≤
      (1 : Int) * (1 + ((2 * defaultTokenBucketTTL : Int) : ℚ) / ((1000 : Int) * millisecond)) := by
  have made : ((machine shelf id).step ((machine shelf id).step perSecond (.call [] 0)).2 (.cleanup 1)).2.limiters =
      [([], ⟨1, 1, 0, some 0, some 0⟩)] := by decide +kernel
  have full : Limiter.level ⟨1, 1, 0, some 0, some 0⟩ (defaultTokenBucketTTL + 1) = (1 : Int) := by decide +kernel
  have refilled : (machine shelf id).Admits (Refilled shelf []) perSecond
      [.call [] 0, .cleanup 1, .call [] (defaultTokenBucketTTL + 1)] := by
    refine ⟨fun _ _ i limiter newest => ?_, trivial, fun _ _ i limiter newest => ?_, trivial⟩
    · exact absurd newest.1 nofun
    · have there := newest.1
      rw [made] at there
      obtain ⟨-, same⟩ := Prod.mk.inj (List.mem_singleton.mp (List.mem_of_getElem? there))
      rw [same]
      exact full
  exact granted_of_refilled shelf_lawful newUserQPSLimiter_perSecond le_rfl (by decide) (by decide) [] refilled 0 (by decide)

/-- **Two buckets at once**: one call in a second is allowed, and two are granted within one nanosecond,
before and behind the end of the first bucket. -/
theorem renewed_early : shelf.Lawful ∧ newUserQPSLimiter shelf 1 1000 = .ok perSecond ∧
      ((machine shelf id).granted perSecond
          [.call [] 0, .call [] defaultTokenBucketTTL, .call [] (defaultTokenBucketTTL + 1)]).filterMap (callOf []) =
        [0, defaultTokenBucketTTL, defaultTokenBucketTTL + 1] ∧
      ¬ (((within defaultTokenBucketTTL (defaultTokenBucketTTL + 1)
          [0, defaultTokenBucketTTL, defaultTokenBucketTTL + 1]).length : ℚ) ≤
        (1 : Int) * (1 + ((1 : Int) : ℚ) / ((1000 : Int) * millisecond))) := by
  refine ⟨shelf_lawful, newUserQPSLimiter_perSecond, by decide +kernel, ?_⟩
  rw [show within defaultTokenBucketTTL (defaultTokenBucketTTL + 1)
      [0, defaultTokenBucketTTL, defaultTokenBucketTTL + 1] = [defaultTokenBucketTTL, defaultTokenBucketTTL + 1] by decide]
  unfold millisecond
  norm_num

end UserQPSLimiter

end Strike.Limit
