/-
**`Close` with `FlushWrite`** writes the batch, and only the batch.

* `Placed`: before `Close` every written byte is accepted, in the batch, or waits to be gathered, and
  what waits is nowhere else; kept by every step.
* `closes_alone`: `Close` can run to its end while no other goroutine moves.
* `flushes_iff`: `Close` flushes, under every schedule, exactly when no byte waits outside the batch.
-/

import Strike.Network.WriteOrder

namespace Strike.Network

open Lib Go

namespace Session

/-- The bytes that wait to be gathered: in the hand of the loop, in the channel and with goroutines. -/
def waiting (s : Session) : List Byte := s.inHand ++ bytesOf (s.writeBufferChan ++ s.blocked ++ s.helpers)

/-- The connection accepts everything it is offered, and no call of `Write` follows. -/
def AcceptsAll (s : Session) : Move → Prop
  | .write _ => False
  | .loopWrite result => ∀ buffers, s.loop = .write buffers → result = .ok buffers.flatten.length
  | .closerWrite result => ∀ buffers, s.closer = .write buffers → result = .ok buffers.flatten.length
  | _ => True

/-- **`Close` flushes.** Whatever the schedule from the call of `Close` on, if the connection accepts all
it is offered, then by the time it is closed it has accepted every byte written. -/
def Flushes (s : Session) : Prop :=
  ∀ (s' : Session) (moves : List Move) (t : Session), s.step (.close true) = some s' →
    system.Meets AcceptsAll s' moves → system.run s' moves = some t → t.closer = .closed →
    ∀ b ∈ t.written, b ∈ t.accepted

/-! ### Before `Close` -/

/-- **Where the written bytes are.** -/
structure Placed (s : Session) : Prop where
  placed : ∀ b, b ∈ s.written ↔ b ∈ s.accepted ∨ b ∈ s.writeBuffers.flatten ∨ b ∈ s.waiting
  below : ∀ b ∈ s.written, b.place < s.written.length
  nodup : s.waiting.Nodup
  apart : ∀ b ∈ s.waiting, b ∉ s.accepted ∧ b ∉ s.writeBuffers.flatten
  writing : ∀ buffers, s.loop = .write buffers → s.writeBuffers = buffers
  settling : ∀ buffers, s.loop = .settle buffers →
    (∀ b ∈ s.writeBuffers.flatten, b ∈ s.accepted ∨ b ∈ buffers.flatten) ∧
      ∀ b ∈ buffers.flatten, b ∈ s.writeBuffers.flatten
  uncalled : s.closer = .uncalled

theorem placed_init : ({} : Session).Placed where
  placed := fun b => ⟨nofun, fun no => by rcases no with no | no | no <;> cases no⟩
  below := nofun
  nodup := List.nodup_nil
  apart := nofun
  writing := nofun
  settling := nofun
  uncalled := rfl

theorem bytesOf_perm {first second : List Batch} (perm : first.Perm second) :
    (bytesOf first).Perm (bytesOf second) := (perm.map _).flatten

theorem perm_of_getElem? {batches : List Batch} {i : Nat} {batch : Batch}
    (there : batches[i]? = some batch) : ([batch] ++ batches.eraseIdx i).Perm batches := by
  obtain ⟨inside, rfl⟩ := List.getElem?_eq_some_iff.mp there
  exact List.getElem_cons_eraseIdx_perm inside

theorem mem_stampBytes {bytes : List UInt8} {b : Byte} : ∀ {place}, b ∈ stampBytes place bytes →
    place ≤ b.place ∧ b.place < place + bytes.length := by
  induction bytes with
  | nil => exact nofun
  | cons value bytes ih =>
    intro place there
    rw [List.length_cons]
    rcases List.mem_cons.mp there with rfl | later
    · exact ⟨le_rfl, Nat.lt_add_of_pos_right (Nat.succ_pos _)⟩
    · obtain ⟨from_, below⟩ := ih later
      exact ⟨by omega, by omega⟩

theorem nodup_stampBytes (bytes : List UInt8) : ∀ place, (stampBytes place bytes).Nodup := by
  induction bytes with
  | nil => exact fun _ => List.nodup_nil
  | cons value bytes ih =>
    intro place
    refine List.nodup_cons.mpr ⟨fun there => ?_, ih (place + 1)⟩
    have from_ := (mem_stampBytes there).1
    exact absurd from_ (by simp)

variable {s s' : Session} {s : Session}

/-- Only what waits changes, and it changes its order at most. -/
theorem Placed.of_perm (placed : s.Placed) (perm : s'.waiting.Perm s.waiting)
    (written : s'.written = s.written) (accepted : s'.accepted = s.accepted)
    (buffers : s'.writeBuffers = s.writeBuffers) (closer : s'.closer = s.closer)
    (writing : ∀ buffers, s'.loop = .write buffers → s'.writeBuffers = buffers)
    (settling : ∀ buffers, s'.loop = .settle buffers → s.loop = .settle buffers) : s'.Placed where
  placed b := by rw [written, accepted, buffers, perm.mem_iff, placed.placed]
  below b there := by
    rw [written] at there ⊢
    exact placed.below b there
  nodup := perm.nodup_iff.mpr placed.nodup
  apart b there := by
    rw [accepted, buffers]
    exact placed.apart b (perm.mem_iff.mp there)
  writing := writing
  settling buffers' pc := by
    rw [accepted, buffers]
    exact placed.settling buffers' (settling buffers' pc)
  uncalled := closer.trans placed.uncalled

/-- A call adds new bytes to those that wait. -/
theorem Placed.write (placed : s.Placed) (bufs : List (Option (List UInt8)))
    (perm : s'.waiting.Perm (s.waiting ++ (stamp s.written.length bufs).bytes))
    (written : s'.written = s.written ++ (stamp s.written.length bufs).bytes)
    (accepted : s'.accepted = s.accepted) (buffers : s'.writeBuffers = s.writeBuffers)
    (closer : s'.closer = s.closer) (loop : s'.loop = s.loop) : s'.Placed := by
  rw [bytes_stamp] at perm written
  have new : ∀ b ∈ stampBytes s.written.length (bufs.filterMap id).flatten, b ∉ s.written := by
    intro b there old
    exact absurd (placed.below b old) (Nat.not_lt.mpr (mem_stampBytes there).1)
  refine ⟨fun b => ?_, fun b there => ?_, ?_, fun b there => ?_, ?_, ?_, closer.trans placed.uncalled⟩
  · rw [written, accepted, buffers, perm.mem_iff, List.mem_append, List.mem_append, placed.placed]
    tauto
  · rw [written] at there ⊢
    rw [List.length_append]
    rcases List.mem_append.mp there with old | fresh
    · exact Nat.lt_add_right _ (placed.below b old)
    · have below := (mem_stampBytes fresh).2
      have size := congrArg List.length (stampBytes_value (bufs.filterMap id).flatten s.written.length)
      rw [List.length_map] at size
      rwa [size]
  · rw [perm.nodup_iff, List.nodup_append']
    refine ⟨placed.nodup, nodup_stampBytes _ _, ?_⟩
    intro b old fresh
    exact new b fresh ((placed.placed b).mpr (.inr (.inr old)))
  · rw [accepted, buffers]
    rcases List.mem_append.mp (perm.mem_iff.mp there) with old | fresh
    · exact placed.apart b old
    · have absent := new b fresh
      rw [placed.placed] at absent
      exact ⟨fun no => absent (.inl no), fun no => absent (.inr (.inl no))⟩
  · rw [buffers, loop]
    exact placed.writing
  · rw [accepted, buffers, loop]
    exact placed.settling

/-- A write of the loop: some bytes are accepted, none is lost from the batch. -/
theorem Placed.writeTo (placed : s.Placed) {buffers : List (List Byte)}
    (pc : s.loop = .write buffers) (n : Nat) {loop : Loop}
    (waits : ({ s.writeTo buffers n with loop } : Session).waiting = s.waiting)
    (writing : ∀ buffers, loop ≠ .write buffers)
    (settling : ∀ rest, loop = .settle rest → rest = consume n buffers) :
    ({ s.writeTo buffers n with loop } : Session).Placed := by
  have same := placed.writing buffers pc
  subst same
  have taken : ∀ b ∈ s.writeBuffers.flatten.take n, b ∈ s.writeBuffers.flatten := fun b => List.mem_of_mem_take
  refine ⟨fun b => ?_, placed.below, ?_, fun b there => ?_, fun buffers' pc' => absurd pc' (writing buffers'), ?_,
    placed.uncalled⟩
  · rw [waits]
    show b ∈ s.written ↔ b ∈ s.accepted ++ s.writeBuffers.flatten.take n ∨
      b ∈ (inPlace n s.writeBuffers).flatten ∨ b ∈ s.waiting
    rw [placed.placed, List.mem_append]
    constructor
    · rintro (old | batch | waits)
      · exact .inl (.inl old)
      · exact (mem_inPlace batch).imp .inr .inl
      · exact .inr (.inr waits)
    · rintro ((old | now) | batch | waits)
      · exact .inl old
      · exact .inr (.inl (taken b now))
      · exact .inr (.inl (inPlace_subset batch))
      · exact .inr (.inr waits)
  · rw [waits]
    exact placed.nodup
  · rw [waits] at there
    obtain ⟨notAccepted, notBatch⟩ := placed.apart b there
    refine ⟨fun no => ?_, fun no => notBatch (inPlace_subset no)⟩
    rcases List.mem_append.mp no with old | now
    · exact notAccepted old
    · exact notBatch (taken b now)
  · intro rest pc'
    obtain rfl := settling rest pc'
    have rest : ∀ b ∈ (consume n s.writeBuffers).flatten, b ∈ (inPlace n s.writeBuffers).flatten := by
      intro b there
      rw [inPlace_eq, List.flatten_append]
      exact List.mem_append_right _ there
    refine ⟨fun b there => ?_, rest⟩
    show b ∈ s.accepted ++ s.writeBuffers.flatten.take n ∨ _
    have batch := inPlace_subset there
    rw [← List.take_append_drop n s.writeBuffers.flatten, ← flatten_consume] at batch
    exact (List.mem_append.mp batch).imp_left (List.mem_append_right _)

/-- **Every step but the call of `Close` keeps the places.** -/
theorem step_placed {move : Move} (placed : s.Placed) (stepped : s.step move = some s')
    (before : ∀ flush, move ≠ .close flush) : s'.Placed := by
  cases step_steps stepped with
  | @called bufs closer room =>
    refine placed.write bufs ?_ rfl rfl rfl rfl rfl
    show (s.inHand ++ bytesOf (s.writeBufferChan ++ [_] ++ s.blocked ++ s.helpers)).Perm _
    simp only [waiting, bytesOf_append, bytesOf_cons, bytesOf_nil, List.append_nil, List.append_assoc]
    refine (List.Perm.append_left _ (List.Perm.append_left _ ?_))
    rw [← List.append_assoc (bytesOf s.blocked)]
    exact List.perm_append_comm
  | @spawned bufs closer full =>
    refine placed.write bufs ?_ rfl rfl rfl rfl rfl
    show (s.inHand ++ bytesOf (s.writeBufferChan ++ s.blocked ++ (s.helpers ++ [_]))).Perm _
    simp [waiting]
  | @sent i batch helper room =>
    refine placed.of_perm ?_ rfl rfl rfl rfl placed.writing fun _ pc => pc
    show (s.inHand ++ bytesOf (s.writeBufferChan ++ [batch] ++ s.blocked ++ s.helpers.eraseIdx i)).Perm _
    refine List.Perm.append_left _ (bytesOf_perm ?_)
    rw [List.append_assoc, List.append_assoc, List.append_assoc]
    refine List.Perm.append_left _ ?_
    exact (List.perm_append_comm_assoc [batch] s.blocked _).trans
      (List.Perm.append_left _ (perm_of_getElem? helper))
  | @blocks i batch helper full =>
    refine placed.of_perm ?_ rfl rfl rfl rfl placed.writing fun _ pc => pc
    show (s.inHand ++ bytesOf (s.writeBufferChan ++ (s.blocked ++ [batch]) ++ s.helpers.eraseIdx i)).Perm _
    refine List.Perm.append_left _ (bytesOf_perm ?_)
    rw [List.append_assoc, List.append_assoc, List.append_assoc]
    exact List.Perm.append_left _ (List.Perm.append_left _ (perm_of_getElem? helper))
  | took pc order length =>
    refine placed.of_perm (.of_eq ?_) rfl rfl rfl rfl (fun _ no => (by cases no)) fun _ no => (by cases no)
    rw [waiting, waiting, order]
    rcases pc with pc | ⟨j, pc⟩ <;> simp [inHand, pc]
  | @gathered batch i pc =>
    have hand : s.inHand = batch.bytes := by simp [inHand, pc]
    have waits : s.waiting = batch.bytes ++ bytesOf (s.writeBufferChan ++ s.blocked ++ s.helpers) := by
      rw [waiting, hand]
    have nodup := placed.nodup
    rw [waits, List.nodup_append'] at nodup
    refine ⟨fun b => ?_, placed.below, nodup.2.1, fun b there => ?_, fun _ no => (by cases no),
      fun _ no => (by cases no), placed.uncalled⟩
    · show b ∈ s.written ↔ b ∈ s.accepted ∨ b ∈ (s.writeBuffers ++ batch.buffers).flatten ∨
        b ∈ bytesOf (s.writeBufferChan ++ s.blocked ++ s.helpers)
      rw [placed.placed, waits, List.flatten_append, List.mem_append, List.mem_append, or_assoc]
      rfl
    · obtain ⟨notAccepted, notBatch⟩ := placed.apart b (waits ▸ List.mem_append_right _ there)
      refine ⟨notAccepted, fun no => ?_⟩
      replace no : b ∈ (s.writeBuffers ++ batch.buffers).flatten := no
      rw [List.flatten_append] at no
      rcases List.mem_append.mp no with old | new
      · exact notBatch old
      · exact nodup.2.2 new there
  | polled pc next =>
    refine placed.of_perm (.of_eq ?_) rfl rfl rfl rfl (fun _ no => ?_) fun _ no => ?_
    · rcases next with rfl | rfl <;> simp [waiting, inHand, pc]
    · rcases next with rfl | rfl <;> cases no
    · rcases next with rfl | rfl <;> cases no
  | copied pc =>
    refine placed.of_perm (.of_eq ?_) rfl rfl rfl rfl (fun _ same => Loop.write.inj same) fun _ no => (by cases no)
    simp [waiting, inHand, pc]
  | @settled buffers pc =>
    obtain ⟨covers, inside⟩ := placed.settling buffers pc
    have waits : s.waiting = bytesOf (s.writeBufferChan ++ s.blocked ++ s.helpers) := by
      simp [waiting, inHand, pc]
    have nodup := placed.nodup
    rw [waits] at nodup
    refine ⟨fun b => ?_, placed.below, nodup, fun b there => ?_, fun _ no => (by cases no),
      fun _ no => (by cases no), placed.uncalled⟩
    · show b ∈ s.written ↔ b ∈ s.accepted ∨ b ∈ buffers.flatten ∨
        b ∈ bytesOf (s.writeBufferChan ++ s.blocked ++ s.helpers)
      rw [placed.placed, waits]
      constructor
      · rintro (old | batch | wait)
        · exact .inl old
        · exact (covers b batch).imp_right .inl
        · exact .inr (.inr wait)
      · rintro (old | batch | wait)
        · exact .inl old
        · exact .inr (.inl (inside b batch))
        · exact .inr (.inr wait)
    · obtain ⟨notAccepted, notBatch⟩ := placed.apart b (waits ▸ there)
      exact ⟨notAccepted, fun no => notBatch (inside b no)⟩
  | @wrote buffers n pc taken =>
    refine placed.writeTo pc n ?_ (fun _ no => (by cases no)) fun rest same => (Loop.settle.inj same).symm
    simp [waiting, inHand, pc, Session.writeTo]
  | @timedOut buffers n pc taken =>
    refine placed.writeTo pc n ?_ (fun _ no => (by cases no)) fun rest no => (by cases no)
    simp [waiting, inHand, pc, Session.writeTo]
  | closes => exact absurd rfl (before _)
  | checked pc => exact absurd (placed.uncalled.symm.trans pc) (by decide)
  | closerCopied pc => exact absurd (placed.uncalled.symm.trans pc) (by decide)
  | closerSettled pc => cases placed.uncalled.symm.trans pc
  | closerClosed pc => exact absurd (placed.uncalled.symm.trans pc) (by decide)
  | closerWrote pc => cases placed.uncalled.symm.trans pc
  | closerTimedOut pc => cases placed.uncalled.symm.trans pc

/-! ### From the call of `Close` on -/

/-- Everything written is accepted. -/
def Done (s : Session) : Prop := ∀ b ∈ s.written, b ∈ s.accepted

/-- **`Close` is under way and nothing waits outside the batch.** -/
structure Flushing (s : Session) : Prop where
  still : s.waiting = []
  covered : ∀ b ∈ s.written, b ∈ s.accepted ∨ b ∈ s.writeBuffers.flatten
  writing : ∀ buffers, s.loop = .write buffers →
    ∀ b ∈ s.writeBuffers.flatten, b ∈ s.accepted ∨ b ∈ buffers.flatten
  settling : ∀ buffers, s.loop = .settle buffers →
    (∀ b ∈ s.writeBuffers.flatten, b ∈ s.accepted ∨ b ∈ buffers.flatten) ∧
      ∀ b ∈ buffers.flatten, b ∈ s.writeBuffers.flatten
  closer : s.closer = .check ∨ s.closer = .copy ∨ ∃ buffers, s.closer = .write buffers
  closing : ∀ buffers, s.closer = .write buffers → ∀ b ∈ s.writeBuffers.flatten, b ∈ buffers.flatten

theorem Flushing.of_still (flushing : s.Flushing) (still : s'.waiting = [])
    (written : s'.written = s.written) (accepted : s'.accepted = s.accepted)
    (buffers : s'.writeBuffers.flatten = s.writeBuffers.flatten) (closer : s'.closer = s.closer)
    (writing : ∀ buffers, s'.loop = .write buffers → s.loop = .write buffers ∨ s'.writeBuffers = buffers)
    (settling : ∀ buffers, s'.loop = .settle buffers → s.loop = .settle buffers) : s'.Flushing where
  still := still
  covered := by
    rw [written, accepted, buffers]
    exact flushing.covered
  writing buffers' pc b there := by
    rcases writing buffers' pc with before | same
    · rw [accepted]
      exact flushing.writing buffers' before b (buffers ▸ there)
    · exact .inr (same ▸ there)
  settling buffers' pc := by
    rw [accepted, buffers]
    exact flushing.settling buffers' (settling buffers' pc)
  closer := by
    rw [closer]
    exact flushing.closer
  closing := by
    rw [buffers, closer]
    exact flushing.closing

theorem Flushing.done (flushing : s.Flushing) {buffers : List (List Byte)}
    (takes : ∀ b ∈ s.writeBuffers.flatten, b ∈ s.accepted ∨ b ∈ buffers.flatten) :
    ∀ b ∈ s.written, b ∈ s.accepted ++ buffers.flatten.take buffers.flatten.length := by
  intro b there
  rw [List.take_length]
  rcases flushing.covered b there with old | batch
  · exact List.mem_append_left _ old
  · exact (takes b batch).elim (List.mem_append_left _) (List.mem_append_right _)

/-- **Every step keeps flushing, or everything is accepted by then.** -/
theorem step_flushing {move : Move} (flushing : s.Flushing) (accepts : s.AcceptsAll move)
    (stepped : s.step move = some s') : s'.Done ∨ s'.Flushing := by
  have still := flushing.still
  rw [waiting, List.append_eq_nil_iff] at still
  obtain ⟨noHand, noBytes⟩ := still
  have empty : ∀ {batches : List Batch}, batches.Perm (s.writeBufferChan ++ s.blocked ++ s.helpers) →
      bytesOf batches = [] := by
    intro batches perm
    have bytes := bytesOf_perm perm
    rw [noBytes] at bytes
    exact bytes.eq_nil
  have called : s.closer ≠ .uncalled := by
    intro uncalled
    rcases flushing.closer with pc | pc | ⟨_, pc⟩ <;> cases uncalled.symm.trans pc
  cases step_steps stepped with
  | called => exact accepts.elim
  | spawned => exact accepts.elim
  | @sent i batch helper room =>
    right
    refine flushing.of_still ?_ rfl rfl rfl rfl (fun _ pc => .inl pc) fun _ pc => pc
    show s.inHand ++ bytesOf (s.writeBufferChan ++ [batch] ++ s.blocked ++ s.helpers.eraseIdx i) = []
    rw [noHand, List.nil_append]
    refine empty ?_
    rw [List.append_assoc, List.append_assoc, List.append_assoc]
    exact List.Perm.append_left _ ((List.perm_append_comm_assoc [batch] s.blocked _).trans
      (List.Perm.append_left _ (perm_of_getElem? helper)))
  | @blocks i batch helper full =>
    right
    refine flushing.of_still ?_ rfl rfl rfl rfl (fun _ pc => .inl pc) fun _ pc => pc
    show s.inHand ++ bytesOf (s.writeBufferChan ++ (s.blocked ++ [batch]) ++ s.helpers.eraseIdx i) = []
    rw [noHand, List.nil_append]
    refine empty ?_
    rw [List.append_assoc, List.append_assoc, List.append_assoc]
    exact List.Perm.append_left _ (List.Perm.append_left _ (perm_of_getElem? helper))
  | took pc order length =>
    right
    refine flushing.of_still ?_ rfl rfl rfl rfl (fun _ no => (by cases no)) fun _ no => (by cases no)
    rw [order] at noBytes
    exact noBytes
  | @gathered batch i pc =>
    right
    have nothing : batch.bytes = [] := by
      simpa [inHand, pc] using noHand
    refine flushing.of_still noBytes rfl rfl ?_ rfl (fun _ no => (by cases no)) fun _ no => (by cases no)
    show (s.writeBuffers ++ batch.buffers).flatten = _
    rw [List.flatten_append, show batch.buffers.flatten = [] from nothing, List.append_nil]
  | polled pc next =>
    right
    refine flushing.of_still ?_ rfl rfl rfl rfl (fun _ no => ?_) fun _ no => ?_
    · rcases next with rfl | rfl <;> exact noBytes
    · rcases next with rfl | rfl <;> cases no
    · rcases next with rfl | rfl <;> cases no
  | copied pc =>
    exact .inr (flushing.of_still noBytes rfl rfl rfl rfl (fun _ same => .inr (Loop.write.inj same))
      fun _ no => (by cases no))
  | @settled buffers pc =>
    obtain ⟨covers, inside⟩ := flushing.settling buffers pc
    refine .inr ⟨noBytes, fun b there => ?_, fun _ no => (by cases no), fun _ no => (by cases no),
      flushing.closer, fun local_ at_ b there => flushing.closing local_ at_ b (inside b there)⟩
    exact (flushing.covered b there).elim .inl (covers b)
  | @wrote buffers n pc taken =>
    obtain rfl : n = buffers.flatten.length := Result.ok.inj (accepts buffers pc)
    exact .inl (flushing.done (flushing.writing buffers pc))
  | timedOut pc => cases accepts _ pc
  | closes uncalled => exact absurd uncalled called
  | checked pc =>
    by_cases some : 0 < s.writeBufLen
    · rw [if_pos some]
      exact .inr ⟨flushing.still, flushing.covered, flushing.writing, flushing.settling, .inr (.inl rfl),
        fun _ no => (by cases no)⟩
    · left
      have nothing : s.writeBuffers.flatten = [] := by
        rw [← List.length_eq_zero_iff, List.length_flatten]
        exact Nat.eq_zero_of_not_pos some
      intro b there
      exact (flushing.covered b there).resolve_right (by rw [nothing]; exact List.not_mem_nil)
  | closerCopied pc =>
    exact .inr ⟨flushing.still, flushing.covered, flushing.writing, flushing.settling, .inr (.inr ⟨_, rfl⟩),
      fun _ same _ there => (Closer.write.inj same) ▸ there⟩
  | closerSettled pc => rcases flushing.closer with at_ | at_ | ⟨_, at_⟩ <;> cases pc.symm.trans at_
  | closerClosed pc => rcases flushing.closer with at_ | at_ | ⟨_, at_⟩ <;> cases pc.symm.trans at_
  | @closerWrote buffers n pc taken =>
    obtain rfl : n = buffers.flatten.length := Result.ok.inj (accepts buffers pc)
    exact .inl (flushing.done fun b there => .inr (flushing.closing buffers pc b there))
  | closerTimedOut pc => cases accepts _ pc

theorem step_done {move : Move} (done : s.Done) (accepts : s.AcceptsAll move)
    (stepped : s.step move = some s') : s'.Done := by
  have grows : ∀ more, ∀ b ∈ s.written, b ∈ s.accepted ++ more := fun _ b there =>
    List.mem_append_left _ (done b there)
  cases step_steps stepped with
  | called => exact accepts.elim
  | spawned => exact accepts.elim
  | sent => exact done
  | blocks => exact done
  | took => exact done
  | gathered => exact done
  | polled => exact done
  | copied => exact done
  | settled => exact done
  | wrote => exact grows _
  | timedOut => exact grows _
  | closes => exact done
  | checked => exact done
  | closerCopied => exact done
  | closerSettled => exact done
  | closerClosed => exact done
  | closerWrote => exact grows _
  | closerTimedOut => exact grows _

theorem Placed.flushes (placed : s.Placed) (still : s.waiting = []) : s.Flushes := by
  intro s' moves t called accepts ran closed
  have start : s'.Flushing := by
    cases step_steps called with
    | closes uncalled =>
      refine ⟨still, fun b there => ?_, fun buffers pc b there => ?_, placed.settling, .inl rfl,
        fun _ no => (by cases no)⟩
      · rcases (placed.placed b).mp there with old | batch | waits
        · exact .inl old
        · exact .inr batch
        · rw [still] at waits
          cases waits
      · rw [← placed.writing buffers pc]
        exact .inr there
  have ends : t.Done ∨ t.Flushing :=
    System.run_keeps (m := system) (P := fun r => r.Done ∨ r.Flushing)
      (fun either accepts stepped => either.elim (fun done => .inl (step_done done accepts stepped))
        fun flushing => step_flushing flushing accepts stepped)
      (.inr start) accepts ran
  rcases ends with done | flushing
  · exact done
  · rcases flushing.closer with pc | pc | ⟨_, pc⟩ <;> cases closed.symm.trans pc

/-! ### `Close` alone -/

theorem closerWrite_ok (s : Session) {n : Nat} (taken : n ≤ s.writeBuffers.flatten.length) :
    ({ s with closer := .write s.writeBuffers } : Session).step (.closerWrite (.ok n)) =
      some { s.writeTo s.writeBuffers n with closer := .settle (consume n s.writeBuffers) n } := by
  show (if n ≤ s.writeBuffers.flatten.length then _ else none) = _
  rw [if_pos taken]
  rfl

theorem closes_empty (pc : s.closer = .copy) (nothing : s.writeBuffers.flatten = []) :
    ∃ t, (system.Meets AcceptsAll s [.closer, .closerWrite (.ok 0), .closer, .closer] ∧
        system.run s [.closer, .closerWrite (.ok 0), .closer, .closer] = some t) ∧
      t.closer = .closed ∧ t.written = s.written ∧ t.accepted = s.accepted := by
  have copies : s.step .closer = some { s with closer := .write s.writeBuffers } := by
    show s.closerStep = _
    unfold closerStep
    rw [pc]
  refine ⟨_, System.meets_run_cons trivial copies (System.meets_run_cons ?_ (closerWrite_ok s (Nat.zero_le _))
    (System.meets_run_cons trivial rfl (System.meets_run_cons trivial rfl ⟨trivial, rfl⟩))), rfl, rfl, ?_⟩
  · intro buffers same
    rw [← Closer.write.inj same, nothing]
    rfl
  · exact List.append_nil _

/-- **`Close` can run to its end while no other goroutine moves**, and then offers the batch only. -/
theorem closes_alone (pc : s.closer = .check) : ∃ moves t,
    (system.Meets AcceptsAll s moves ∧ system.run s moves = some t) ∧ t.closer = .closed ∧
      t.written = s.written ∧ ∀ b ∈ t.accepted, b ∈ s.accepted ∨ b ∈ s.writeBuffers.flatten := by
  by_cases bytes : 0 < s.writeBufLen
  · have checks : s.step .closer = some { s with closer := .copy } := by
      show s.closerStep = _
      unfold closerStep
      rw [pc, if_pos bytes]
    let n := s.writeBuffers.flatten.length
    have nonzero : n ≠ 0 := by
      show s.writeBuffers.flatten.length ≠ 0
      rw [List.length_flatten]
      exact bytes.ne'
    have settles : ({ s.writeTo s.writeBuffers n with closer := .settle (consume n s.writeBuffers) n } :
        Session).step .closer =
        some { s.writeTo s.writeBuffers n with writeBuffers := consume n s.writeBuffers, closer := .copy } := by
      show some _ = some _
      rw [if_neg nonzero]
    obtain ⟨t, ran, closed, written, accepted⟩ := closes_empty
      (s := { s.writeTo s.writeBuffers n with writeBuffers := consume n s.writeBuffers, closer := .copy }) rfl
      ((flatten_consume _ _).trans (List.drop_length))
    refine ⟨[.closer, .closer, .closerWrite (.ok n), .closer, .closer, .closerWrite (.ok 0), .closer, .closer], t,
      System.meets_run_cons trivial checks (System.meets_run_cons trivial rfl
      (System.meets_run_cons ?_ (closerWrite_ok s le_rfl) (System.meets_run_cons trivial settles ran))), closed, written,
      fun b there => ?_⟩
    · intro buffers same
      rw [← Closer.write.inj same]
    · rw [accepted] at there
      exact (List.mem_append.mp there).imp_right List.mem_of_mem_take
  · have checks : s.step .closer = some { s with closer := .close } := by
      show s.closerStep = _
      unfold closerStep
      rw [pc, if_neg bytes]
    exact ⟨[.closer, .closer], _, System.meets_run_cons trivial checks
      (System.meets_run_cons trivial rfl ⟨trivial, rfl⟩), rfl, rfl, fun b there => .inl there⟩

/-- **When `Close` flushes.** In every state that calls of `Write`, the write loop and the answers of the
connection can lead to: `Close` with `FlushWrite`, called there, flushes exactly when no byte waits in
the channel, with a goroutine or in the hand of the loop. -/
theorem flushes_iff {moves : List Move} {s : Session} (before : ∀ move ∈ moves, ∀ flush, move ≠ .close flush)
    (ran : system.run {} moves = some s) : s.Flushes ↔ s.waiting = [] := by
  have placed : s.Placed := System.run_keeps (m := system)
    (fun placed before stepped => step_placed placed stepped before) placed_init
    (System.meets_of_forall before _) ran
  refine ⟨fun flushes => ?_, placed.flushes⟩
  by_contra bytes
  obtain ⟨b, waits⟩ := List.exists_mem_of_ne_nil _ bytes
  have called : s.step (.close true) = some { s with closer := .check } := if_pos placed.uncalled
  obtain ⟨moves', t, ⟨accepts, ran'⟩, closed, written, accepted⟩ :=
    closes_alone (s := { s with closer := .check }) rfl
  have there : b ∈ t.written := written ▸ (placed.placed b).mpr (.inr (.inr waits))
  obtain ⟨notAccepted, notBatch⟩ := placed.apart b waits
  exact (accepted b (flushes _ moves' t called accepts ran' closed b there)).elim notAccepted notBatch

/-- The theorem where the loop has gathered what was written. -/
theorem flushes_iff_gathered : ∃ s, system.run {} [.write [some [1, 2]], .loop, .loop] = some s ∧
    s.waiting = [] ∧ (s.Flushes ↔ s.waiting = []) := by
  obtain ⟨s, ran, still⟩ : ∃ s, system.run {} [.write [some [1, 2]], .loop, .loop] = some s ∧ s.waiting = [] :=
    ⟨_, rfl, by decide⟩
  exact ⟨s, ran, still, flushes_iff (by decide) ran⟩

/-- **What was just written is lost**: it is in the channel when `Close` looks at the batch. -/
theorem written_not_flushed : ∃ s, system.run {} [.write [some [1]]] = some s ∧ ¬ s.Flushes := by
  refine ⟨_, rfl, fun flushes => ?_⟩
  have accepted := flushes _ [.closer, .closer] _ rfl ⟨trivial, fun _ _ => ⟨trivial, fun _ _ => trivial⟩⟩ rfl rfl
    ⟨1, 0⟩ (by decide)
  exact absurd accepted (by decide)

end Session

end Strike.Network
