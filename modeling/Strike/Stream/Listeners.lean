/-
**The listeners of a stream** (`stream.go`).

The loop of `RemoveEventListener` names its variable like the parameter, so it compares every listener
with itself: the first listener goes, whichever was to be removed.

* `removeEventListener_eq`: that.
* `notified_iff`: so `ResetStream` notifies those who should be, at every moment of a sequence of calls,
  exactly when each call removes the listener that is first at the time.
-/

import Strike.Go.Slice

namespace Strike.Stream

variable {L : Type} [DecidableEq L]

/-- `BaseStream`. -/
structure BaseStream (L : Type) where
  streamListeners : List L := []
  deriving Repr, DecidableEq

/-- What a listener is told, with the text of a reason (`StreamResetReason`). -/
inductive Notice (L : Type) where
  | onResetStream (listener : L) (reason : Bytes)
  | onDestroyStream (listener : L)
  deriving Repr, DecidableEq

namespace BaseStream

/-- `AddEventListener`. -/
def addEventListener (s : BaseStream L) (streamCb : L) : BaseStream L :=
  { s with streamListeners := s.streamListeners ++ [streamCb] }

/-- `RemoveEventListener`. The variable of the loop hides the parameter. -/
def removeEventListener (s : BaseStream L) (_streamCb : L) : BaseStream L :=
  match s.streamListeners.findIdx? fun streamCb => streamCb = streamCb with
  | none => s
  | some cbIdx =>
    { s with streamListeners := s.streamListeners.take cbIdx ++ s.streamListeners.drop (cbIdx + 1) }

/-- `DestroyStream`. -/
def destroyStream (s : BaseStream L) : List (Notice L) := s.streamListeners.map .onDestroyStream

/-- `ResetStream`, which destroys the stream when it returns. -/
def resetStream (s : BaseStream L) (reason : Bytes) : List (Notice L) :=
  s.streamListeners.map (.onResetStream · reason) ++ s.destroyStream

/-- **The first listener goes.** -/
theorem removeEventListener_eq (s : BaseStream L) (streamCb : L) :
    s.removeEventListener streamCb = { s with streamListeners := s.streamListeners.tail } := by
  obtain ⟨listeners⟩ := s
  cases listeners with
  | nil => rfl
  | cons first rest => simp [removeEventListener, List.findIdx?_cons]

/-! ### Sequences of calls -/

/-- A call. -/
inductive Call (L : Type) where
  | add (streamCb : L)
  | remove (streamCb : L)
  deriving Repr, DecidableEq

def apply (s : BaseStream L) : Call L → BaseStream L
  | .add streamCb => s.addEventListener streamCb
  | .remove streamCb => s.removeEventListener streamCb

/-- A new stream behind some calls. -/
def after (calls : List (Call L)) : BaseStream L := calls.foldl apply {}

/-- **Who is registered** after some calls: those added, in order, without the first that is left of each
one removed. -/
def registered (calls : List (Call L)) : List L :=
  calls.foldl (fun listeners call => match call with
    | .add streamCb => listeners ++ [streamCb]
    | .remove streamCb => listeners.erase streamCb) []

theorem after_snoc (calls : List (Call L)) (call : Call L) : after (calls ++ [call]) = (after calls).apply call :=
  List.foldl_concat ..

theorem registered_add (calls : List (Call L)) (streamCb : L) :
    registered (calls ++ [.add streamCb]) = registered calls ++ [streamCb] :=
  List.foldl_concat ..

theorem registered_remove (calls : List (Call L)) (streamCb : L) :
    registered (calls ++ [.remove streamCb]) = (registered calls).erase streamCb :=
  List.foldl_concat ..

/-- The tail of a list is what is left without some element only where that is the first. -/
theorem tail_eq_erase_iff (listeners : List L) (streamCb : L) :
    listeners.tail = listeners.erase streamCb ↔ ∀ first ∈ listeners.head?, first = streamCb := by
  cases listeners with
  | nil => simp
  | cons first rest =>
    rw [List.tail_cons, List.head?_cons]
    constructor
    · intro same other there
      cases there
      by_contra differ
      rw [List.erase_cons_tail (by simpa using differ)] at same
      -- The first listener is as often in the tail with and without the other one.
      have often := congrArg (List.count first) same
      rw [List.count_cons_self, List.count_erase_of_ne differ] at often
      exact absurd often (Nat.succ_ne_self _).symm
    · intro isFirst
      rw [isFirst first rfl, List.erase_cons_head]

omit [DecidableEq L] in
theorem resetStream_inj {s s' : BaseStream L} {reason : Bytes} (same : s.resetStream reason = s'.resetStream reason) :
    s = s' := by
  obtain ⟨listeners⟩ := s
  obtain ⟨listeners'⟩ := s'
  unfold resetStream destroyStream at same
  have lengths := congrArg List.length same
  simp only [List.length_append, List.length_map] at lengths
  have told := (List.append_inj same (by simp only [List.length_map]; omega)).1
  have inj : Function.Injective fun listener : L => Notice.onResetStream listener reason := by
    rintro a b ⟨⟩
    rfl
  exact congrArg BaseStream.mk (inj.list_map told)

/-- **When the right listeners are notified**: at every moment of a sequence of calls, `ResetStream`
notifies exactly those who are registered, if and only if every call removes the listener that is first
at the time, or there is none. -/
theorem notified_iff (calls : List (Call L)) : (∀ front back, calls = front ++ back → ∀ reason,
        (after front).resetStream reason = (⟨registered front⟩ : BaseStream L).resetStream reason) ↔
      ∀ front streamCb back, calls = front ++ .remove streamCb :: back →
        ∀ first ∈ (after front).streamListeners.head?, first = streamCb := by
  constructor
  · intro right front streamCb back split
    have before := resetStream_inj (right front _ split [])
    have behind := resetStream_inj (right (front ++ [.remove streamCb]) back (by rw [split, List.append_assoc]; rfl) [])
    rw [after_snoc, apply, removeEventListener_eq, registered_remove, before, mk.injEq] at behind
    rw [before]
    exact (tail_eq_erase_iff _ _).mp behind
  · intro removes front back split reason
    have same : after front = ⟨registered front⟩ := by
      -- By induction on the calls so far.
      induction front using List.reverseRecOn generalizing back with
      | nil => rfl
      | append_singleton front call ih =>
        rw [List.append_assoc] at split
        have before := ih _ split
        cases call with
        | add streamCb => rw [after_snoc, apply, addEventListener, registered_add, before]
        | remove streamCb =>
          have isFirst := removes front streamCb back split
          rw [before] at isFirst
          rw [after_snoc, apply, removeEventListener_eq, registered_remove, before, mk.injEq]
          exact (tail_eq_erase_iff _ _).mpr isFirst
    rw [same]

/-- **Another listener goes**: of two listeners the second is removed, and it is the one that is notified. -/
theorem first_removed :
    (after [.add 0, .add 1, .remove 1] : BaseStream (Fin 2)).resetStream [] = [.onResetStream 1 [], .onDestroyStream 1] ∧
      registered [.add 0, .add 1, .remove (1 : Fin 2)] = [0] := by
  decide

end BaseStream

end Strike.Stream
