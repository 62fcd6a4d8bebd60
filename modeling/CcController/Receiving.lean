import CcController.QueueDelete
import CcController.Transmission

/-!
# What one call of the receiver comes to

A call of `cc_recv_from_secure_channel` is to queue one message and one job for it, or to
report an error and to leave both queues as they are. The result of `read` is kept in an
unsigned number, so a failure passes for a length, and the job is queued behind a block that a
short read skips; the theorem says exactly when the call does what it is for.
-/

namespace CcController

variable {host : Host} {w : World}

/-- The bytes that have been read are queued as one message, and one job behind the others. -/
structure QueuesOne (chunk : List UInt8) (w w' : World) : Prop where
  message : ∃ old addr, w.recvQueue.Holds old ∧
    w'.recvQueue.Holds (old ++ [⟨addr, some chunk, chunk.length⟩])
  job : w'.ccRecvThreadPool.queue = w.ccRecvThreadPool.queue ++ [.ccOfpmsgRecvHandle]

/-- An error is returned, and neither queue has changed. -/
structure RejectsRead (ret : ℤ) (w w' : World) : Prop where
  error : ret ≠ ccENone
  recvQueue : w'.recvQueue = w.recvQueue
  pool : w'.ccRecvThreadPool = w.ccRecvThreadPool

/-- What a call is for: it returns, and has queued what was read and a job, if that passes for a
message, or reports an error. -/
def ReceivesOrRejects (host : Host) (read : ReadResult) (w : World) : Prop :=
  Program.Reaches (ccRecvFromSecureChannel host read) w (fun ret w' =>
    (∃ chunk, read = .received chunk ∧ PassesForMessage chunk ∧ QueuesOne chunk w w') ∨
      RejectsRead ret w w')

/-- When this holds, a call does what it is for: the stream is at its end; or at least a header
is read, there is memory to read it to and for a copy; and for what passes for a message there is
memory for an element of the queue and for a job, and the queue has not been drained. -/
def ReceivesWhen (read : ReadResult) (w : World) : Prop :=
  ∃ chunk, read = .received chunk ∧ (chunk = [] ∨ 8 ≤ chunk.length ∧ w.Grants 3 ∧
    (PassesForMessage chunk → w.Grants 5 ∧ ¬ w.recvQueue.Drained))

/-- Nothing is queued when nothing is read, whether or not there is memory to read to. -/
theorem ends_ccRecvFromSecureChannel_nil {E : Fault → Prop} {Q : ℤ → World → Prop} :
  Program.Ends E (ccRecvFromSecureChannel host (.received [])) w Q ↔
    Q ccEErr { w with mallocs := fun i => w.mallocs (i + 1) }
  := by
  have hnothing : (ReadResult.received []).length = 0 := rfl
  simp only [ccRecvFromSecureChannel, Program.ends_bind, ends_malloc,
    ReadResult.into_of_length_eq_zero hnothing, if_pos hnothing, Program.ends_pure]

variable {chunk : List UInt8}

/-- What passes for a message is queued, if there is memory and the queue takes messages. -/
theorem receives_message (hpasses : PassesForMessage chunk)
    (hmax : chunk.length ≤ ccRecvBufferSize) (hgrants : w.Grants 5) {bufs : List Buffer}
    (hlinked : w.recvQueue.Linked bufs) :
  ReceivesOrRejects host (.received chunk) w
  := by
  obtain ⟨queue, henqueue, hlinked'⟩ :=
    hlinked.enqueue (hasHeader_received w.nextBuffer hpasses.1)
  apply (ends_ccRecvFromSecureChannel hpasses.1 hmax (hgrants 0 (by omega))
    (hgrants 1 (by omega)) (hgrants 2 (by omega))).mpr
  rw [if_pos hpasses, hgrants 3 (by omega), henqueue, Program.ends_lift_ok]
  apply ends_addRecvWorker.mpr
  constructor
  · intro hfails
    rw [show w.mallocs (0 + 4) = true from hgrants 4 (by omega)] at hfails
    cases hfails
  · intro _
    exact .inl ⟨chunk, rfl, hpasses, ⟨bufs, _, hlinked.holds, hlinked'.holds⟩, rfl⟩

/-- What does not pass for a message is rejected, if there is memory to copy it. -/
theorem rejects_other (hmin : 8 ≤ chunk.length) (hmax : chunk.length ≤ ccRecvBufferSize)
    (hpasses : ¬ PassesForMessage chunk) (hgrants : w.Grants 3) :
  ReceivesOrRejects host (.received chunk) w
  := by
  apply (ends_ccRecvFromSecureChannel hmin hmax (hgrants 0 (by omega))
    (hgrants 1 (by omega)) (hgrants 2 (by omega))).mpr
  rw [if_neg hpasses]
  exact .inr ⟨by decide, rfl, rfl⟩

/-- After a read that is too short for a header a job is queued and no message. -/
theorem not_receives_short (hpos : 0 < chunk.length) (hshort : chunk.length < 8) :
  ¬ ReceivesOrRejects host (.received chunk) w
  := by
  apply Program.not_reaches_of_ensures
  apply ccRecvFromSecureChannel_short hpos hshort
  intro w' _
  rintro (⟨chunk', heq, hpasses, -⟩ | hrejects)
  · obtain rfl := ReadResult.received.inj heq
    have hmin := hpasses.1
    omega
  · exact hrejects.error rfl

/-- A failed read is not survived. -/
theorem not_receives_failed :
  ¬ ReceivesOrRejects host .failed w
  := by
  apply Program.not_reaches_of_ensures
  apply ccRecvFromSecureChannel_failed
  apply ite_self

theorem receivesWhen_of_receives (hmax : chunk.length ≤ ccRecvBufferSize)
    (h : ReceivesOrRejects host (.received chunk) w) :
  ReceivesWhen (.received chunk) w
  := by
  use chunk, rfl
  by_cases hnil : chunk = []
  · exact .inl hnil
  have hpos := List.length_pos_iff.mpr hnil
  have hmin : 8 ≤ chunk.length := by
    by_contra hshort
    exact not_receives_short hpos (Nat.not_le.mp hshort) h
  have hcopied : w.mallocs 0 = true ∧ w.mallocs 1 = true ∧ w.mallocs 2 = true := by
    by_contra hfails
    exact Program.not_reaches_of_ensures (ccRecvFromSecureChannel_no_buffer hmin hfails) h
  obtain ⟨h0, h1, h2⟩ := hcopied
  refine .inr ⟨hmin, World.grants_three h0 h1 h2, ?_⟩
  intro hpasses
  obtain ⟨ret, w', hok, -⟩ := Program.reaches_iff.mp h
  rcases Program.ensures_iff.mp (ccRecvFromSecureChannel_ensures hpos hmax) ret w' hok with
    ⟨-, hgrants, -, henqueue⟩ | ⟨hnot, -⟩
  · use hgrants
    intro hdrained
    obtain ⟨f, hf⟩ := hdrained.enqueue (⟨w.nextBuffer, some chunk, chunk.length⟩ : Buffer) true
    rw [hf] at henqueue
    cases henqueue
  · exact absurd hpasses hnot

/-- Whatever `read` comes to, a call queues one message and one job, or reports an error and
changes neither queue, exactly when all this holds: it did not fail; it returned nothing, or at
least as many bytes as a header has; in this case the allocations that are made succeed; and a
message does not come to a queue that has been drained. -/
theorem ccRecvFromSecureChannel_receives_iff (host : Host) (w : World) (read : ReadResult)
    (hqueue : w.recvQueue.Reached) (hmax : read.data.length ≤ ccRecvBufferSize) :
  ReceivesOrRejects host read w ↔ ReceivesWhen read w
  := by
  constructor
  · intro h
    cases read with
    | received chunk => exact receivesWhen_of_receives hmax h
    | failed => exact absurd h not_receives_failed
  · rintro ⟨chunk, rfl, rfl | ⟨hmin, hcopied, hqueued⟩⟩
    · apply ends_ccRecvFromSecureChannel_nil.mpr
      exact .inr ⟨by decide, rfl, rfl⟩
    · by_cases hpasses : PassesForMessage chunk
      · obtain ⟨hgrants, hdrained⟩ := hqueued hpasses
        obtain ⟨bufs, hlinked⟩ := hqueue.linked_or_drained.resolve_right hdrained
        exact receives_message hpasses hmax hgrants hlinked
      · exact rejects_other hmin hmax hpasses hcopied

/-- A message is received on a new connection. -/
theorem ccRecvFromSecureChannel_receives_hello :
  World.start.recvQueue.Reached ∧ (helloMessage 1).length ≤ ccRecvBufferSize ∧
    ReceivesOrRejects (Host.plain true) (.received (helloMessage 1)) World.start
  := by
  use MessageQueue.reached_create, by decide
  apply (ccRecvFromSecureChannel_receives_iff (Host.plain true) World.start _
    MessageQueue.reached_create (by decide)).mpr
  refine ⟨_, rfl, .inr ⟨by decide, fun _ _ => rfl, fun _ => ⟨fun _ _ => rfl, ?_⟩⟩⟩
  exact MessageQueue.ready_create.linked.not_drained

/-- Four bytes are read, and a job is queued that finds no message; a read that fails is not
survived. -/
theorem ccRecvFromSecureChannel_short_or_failed :
  ¬ ReceivesOrRejects (Host.plain true) (.received [1, 0, 0, 8]) World.start ∧
    ¬ ReceivesOrRejects (Host.plain true) .failed World.start
  := by
  constructor
  · exact not_receives_short (by decide) (by decide)
  · exact not_receives_failed

end CcController
