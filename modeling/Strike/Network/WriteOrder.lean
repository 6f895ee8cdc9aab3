/-
**Bytes leave a session in order and once**, as long as no goroutine of `Write` can be overtaken and no
timeout completes a buffer.

* `Ordered`: where every written byte is, in order; kept by every step that meets `Tame`.
* `inOrder_of_tame`: in every run of such steps the connection has accepted a prefix of what was written.
* `inOrder_fails`: a buffer that a timeout completed is written again, and a goroutine is overtaken.
-/

import Strike.Network.Session

namespace Strike.Network

open Lib Go

namespace Session

/-- The bytes the loop has gathered and not written. -/
def unsent (s : Session) : List Byte :=
  match s.loop with
  | .write buffers => buffers.flatten
  | .settle buffers => buffers.flatten
  | _ => s.writeBuffers.flatten

/-- The bytes the loop has received and not gathered. -/
def inHand (s : Session) : List Byte :=
  match s.loop with
  | .holding batch _ => batch.bytes
  | _ => []

/-- **Every written byte is where its turn is.** -/
structure Ordered (s : Session) : Prop where
  conserved : s.written =
    s.accepted ++ s.unsent ++ s.inHand ++ bytesOf (s.writeBufferChan ++ s.blocked ++ s.helpers)
  -- The slice that is written is the batch itself.
  same : ∀ buffers, s.loop = .write buffers → s.writeBuffers = buffers
  -- Goroutines wait at a full channel only.
  full : s.blocked ≠ [] → ¬ s.writeBufferChan.length < chanCap
  one : s.helpers.length ≤ 1
  uncalled : s.closer = .uncalled

/-- **The tame steps.** `Write` is called while no goroutine is on its way to the channel, a timeout
completes no buffer that has bytes, and `Close` is not called. -/
def Tame (s : Session) : Move → Prop
  | .write _ => s.helpers = []
  | .loopWrite (.timeout n) => ∀ buffers, s.loop = .write buffers → ∀ b ∈ whole n buffers, b = []
  | .close _ => False
  | _ => True

theorem ordered_init : ({} : Session).Ordered where
  conserved := rfl
  same := nofun
  full := fun no => absurd rfl no
  one := Nat.zero_le 1
  uncalled := rfl

@[simp] theorem bytesOf_append (first second : List Batch) :
    bytesOf (first ++ second) = bytesOf first ++ bytesOf second := by
  simp [bytesOf]

@[simp] theorem bytesOf_cons (first : Batch) (rest : List Batch) :
    bytesOf (first :: rest) = first.bytes ++ bytesOf rest := rfl

@[simp] theorem bytesOf_nil : bytesOf [] = [] := rfl

theorem Ordered.none_blocked {s : Session} (ordered : s.Ordered) (room : s.writeBufferChan.length < chanCap) :
    s.blocked = [] := by
  by_contra some
  exact ordered.full some room

theorem Ordered.helper {s : Session} (ordered : s.Ordered) {i : Nat} {batch : Batch}
    (helper : s.helpers[i]? = some batch) : s.helpers = [batch] ∧ s.helpers.eraseIdx i = [] := by
  obtain ⟨inside, found⟩ := List.getElem?_eq_some_iff.mp helper
  have one := ordered.one
  obtain rfl : i = 0 := by omega
  obtain ⟨only, helpers⟩ := List.length_eq_one_iff.mp (show s.helpers.length = 1 by omega)
  simp only [helpers, List.getElem_cons_zero] at found
  subst found
  exact ⟨helpers, by rw [helpers]; rfl⟩

/-- **Every tame step keeps the order.** -/
theorem step_ordered {s s' : Session} {move : Move} (ordered : s.Ordered) (tame : s.Tame move)
    (stepped : s.step move = some s') : s'.Ordered := by
  have conserved := ordered.conserved
  cases step_steps stepped with
  | called closer room =>
    have noHelper : s.helpers = [] := tame
    have noBlocked := ordered.none_blocked room
    refine ⟨?_, ordered.same, fun some => absurd noBlocked some, ordered.one, closer⟩
    show s.written ++ _ = s.accepted ++ s.unsent ++ s.inHand ++ bytesOf (_ ++ s.blocked ++ s.helpers)
    rw [conserved, noHelper, noBlocked]
    simp
  | @spawned bufs closer full =>
    have noHelper : s.helpers = [] := tame
    refine ⟨?_, ordered.same, ordered.full, ?_, closer⟩
    · show s.written ++ _ =
        s.accepted ++ s.unsent ++ s.inHand ++ bytesOf (s.writeBufferChan ++ s.blocked ++ (s.helpers ++ _))
      rw [conserved, noHelper]
      simp
    · show (s.helpers ++ _).length ≤ 1
      rw [noHelper]
      exact le_rfl
  | sent helper room =>
    obtain ⟨helpers, none⟩ := ordered.helper helper
    have noBlocked := ordered.none_blocked room
    refine ⟨?_, ordered.same, fun some => absurd noBlocked some, ?_, ordered.uncalled⟩
    · show s.written = s.accepted ++ s.unsent ++ s.inHand ++ bytesOf (_ ++ s.blocked ++ s.helpers.eraseIdx _)
      rw [conserved, none, helpers, noBlocked]
      simp
    · show (s.helpers.eraseIdx _).length ≤ 1
      rw [none]
      exact Nat.zero_le 1
  | blocks helper full =>
    obtain ⟨helpers, none⟩ := ordered.helper helper
    refine ⟨?_, ordered.same, fun _ => full, ?_, ordered.uncalled⟩
    · show s.written =
        s.accepted ++ s.unsent ++ s.inHand ++ bytesOf (s.writeBufferChan ++ _ ++ s.helpers.eraseIdx _)
      rw [conserved, none, helpers]
      simp
    · show (s.helpers.eraseIdx _).length ≤ 1
      rw [none]
      exact Nat.zero_le 1
  | took pc order length =>
    refine ⟨?_, nofun, fun some => ?_, ordered.one, ordered.uncalled⟩
    · rw [conserved, order]
      rcases pc with pc | ⟨j, pc⟩ <;> simp [unsent, inHand, pc]
    · have waits : s.blocked ≠ [] := by
        intro none
        have lengths := congrArg List.length order
        rw [none] at lengths
        simp only [List.append_nil, List.length_cons, List.length_append] at lengths
        have longer := length some
        omega
      rw [length some]
      exact ordered.full waits
  | gathered pc =>
    refine ⟨?_, nofun, ordered.full, ordered.one, ordered.uncalled⟩
    rw [conserved]
    simp [unsent, inHand, pc, Batch.bytes]
  | polled pc next =>
    refine ⟨?_, fun _ no => ?_, ordered.full, ordered.one, ordered.uncalled⟩
    · rw [conserved]
      rcases next with rfl | rfl <;> simp [unsent, inHand, pc]
    · rcases next with rfl | rfl <;> cases no
  | copied pc =>
    refine ⟨?_, fun _ same => (Loop.write.inj same), ordered.full, ordered.one, ordered.uncalled⟩
    rw [conserved]
    simp [unsent, inHand, pc]
  | settled pc =>
    refine ⟨?_, nofun, ordered.full, ordered.one, ordered.uncalled⟩
    rw [conserved]
    simp [unsent, inHand, pc]
  | @wrote buffers n pc taken =>
    refine ⟨?_, nofun, ordered.full, ordered.one, ordered.uncalled⟩
    show s.written = s.accepted ++ buffers.flatten.take n ++ (consume n buffers).flatten ++ [] ++
      bytesOf (s.writeBufferChan ++ s.blocked ++ s.helpers)
    rw [conserved, flatten_consume, List.append_assoc s.accepted (buffers.flatten.take n), List.take_append_drop]
    simp [unsent, inHand, pc]
  | @timedOut buffers n pc taken =>
    have whole := tame buffers pc
    refine ⟨?_, nofun, ordered.full, ordered.one, ordered.uncalled⟩
    show s.written = s.accepted ++ buffers.flatten.take n ++ (inPlace n s.writeBuffers).flatten ++ [] ++
      bytesOf (s.writeBufferChan ++ s.blocked ++ s.helpers)
    rw [conserved, ordered.same buffers pc, flatten_inPlace whole,
      List.append_assoc s.accepted (buffers.flatten.take n), List.take_append_drop]
    simp [unsent, inHand, pc]
  | closes => exact tame.elim
  | checked pc => exact absurd (ordered.uncalled.symm.trans pc) (by decide)
  | closerCopied pc => exact absurd (ordered.uncalled.symm.trans pc) (by decide)
  | closerSettled pc => cases ordered.uncalled.symm.trans pc
  | closerClosed pc => exact absurd (ordered.uncalled.symm.trans pc) (by decide)
  | closerWrote pc => cases ordered.uncalled.symm.trans pc
  | closerTimedOut pc => cases ordered.uncalled.symm.trans pc

/-- **Bytes leave in order and once.** In every run whose steps are all tame, the bytes the connection
has accepted are a prefix of the bytes of the calls. -/
theorem inOrder_of_tame {moves : List Move} {s : Session} (tame : system.Meets Tame {} moves)
    (ran : system.run {} moves = some s) : s.accepted.map Byte.value <+: calls moves := by
  have ordered : s.Ordered := System.run_keeps (m := system) step_ordered ordered_init tame ran
  have written := run_written ran
  rw [show (({} : Session).written.map Byte.value) = [] from rfl, List.nil_append] at written
  rw [← written, ordered.conserved, List.append_assoc, List.append_assoc, List.map_append]
  exact List.prefix_append _ _

instance (s : Session) : ∀ move, Decidable (s.Tame move)
  | .write _ => inferInstanceAs (Decidable (s.helpers = []))
  | .loopWrite (.timeout n) =>
    match pc : s.loop with
    | .write buffers =>
      decidable_of_iff (∀ b ∈ whole n buffers, b = [])
        ⟨fun none _ same => Loop.write.inj (pc.symm.trans same) ▸ none, fun none => none buffers pc⟩
    | .top | .holding _ _ | .polling _ | .copy | .settle _ =>
      isTrue fun _ same => nomatch pc.symm.trans same
  | .loopWrite (.ok _) => isTrue trivial
  | .close _ => isFalse id
  | .arrive _ => isTrue trivial
  | .loop => isTrue trivial
  | .closer => isTrue trivial
  | .closerWrite _ => isTrue trivial

/-- The loop takes the only batch of the channel and comes to the write. -/
def gathers : List Move := List.replicate 14 .loop

/-- A timeout inside a buffer, and the rest with the next call. -/
def resumed : List Move :=
  [.write [some [1, 2]]] ++ gathers ++ [.loopWrite (.timeout 1), .write [some [3]]] ++ gathers ++
    [.loopWrite (.ok 2), .loop]

/-- The theorem at a run with a timeout. -/
theorem inOrder_of_tame_resumed : system.Meets Tame {} resumed ∧
    ∃ s, system.run {} resumed = some s ∧ s.accepted.map Byte.value <+: calls resumed := by
  have tame : system.Meets Tame {} resumed := by decide
  obtain ⟨s, ran⟩ : ∃ s, system.run {} resumed = some s := Option.isSome_iff_exists.mp (by decide)
  exact ⟨tame, s, ran, inOrder_of_tame tame ran⟩

/-- A timeout behind the first of two buffers. -/
def repeated : List Move :=
  [.write [some [1], some [2]]] ++ gathers ++ [.loopWrite (.timeout 1), .write [some [3]]] ++ gathers ++
    [.loopWrite (.ok 3)]

/-- The loop takes eleven batches and writes them. -/
def takesEleven : List Move := List.replicate 24 .loop ++ [.loopWrite (.ok 11), .loop]

/-- The channel is full, and the last call but one has to start a goroutine. -/
def overtaken : List Move :=
  (List.range 33).map (fun i => .write [some [i.toUInt8]]) ++ [.loop, .write [some [33]]] ++
    takesEleven.drop 1 ++ takesEleven ++ takesEleven

/-- **A completed buffer is written again, and a goroutine is overtaken.** -/
theorem inOrder_fails : (∃ s, system.run {} repeated = some s ∧ ¬ s.accepted.map Byte.value <+: calls repeated) ∧
      ∃ s, system.run {} overtaken = some s ∧ ¬ s.accepted.map Byte.value <+: calls overtaken := by
  have fails : ∀ {moves : List Move} (accepted : List UInt8),
      (system.run {} moves).map (fun s => s.accepted.map Byte.value) = some accepted →
      ¬ accepted <+: calls moves →
      ∃ s, system.run {} moves = some s ∧ ¬ s.accepted.map Byte.value <+: calls moves := by
    intro moves accepted ran lost
    obtain ⟨s, reached, rfl⟩ := Option.map_eq_some_iff.mp ran
    exact ⟨s, reached, lost⟩
  constructor
  · exact fails [1, 1, 2, 3] (by decide) (by decide)
  · exact fails ((List.range 32).map Nat.toUInt8 ++ [33]) (by decide) (by decide)

end Session

end Strike.Network
