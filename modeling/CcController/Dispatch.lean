import CcController.SecureChannel

/-!
# What becomes of a received message

Three tables have to agree on a type of message: the switch of the dispatcher, the table of
handlers and the validators the handlers call. They do for all types that have a case but
two (`select_validate_iff`).

A message that is taken from the queue has to be released once. One that has no handler is
not, and one that is handed on to the application is released twice
(`ccOfpmsgRecvHandle_releases_iff`).
-/

namespace CcController

variable {n : ℕ} {mem : Memory}

/-! ### The validators of the handlers -/

/-- There is a handler for the types that have a case in the switch. -/
theorem select_isSome (type : UInt8) :
  (ccRecvOps.select type).isSome ↔
    type = ofptHello ∨ type = ofptEchoRequest ∨ type = ofptEchoReply ∨ type = ofptError
      ∨ type = ofptPacketIn ∨ type = ofptVendor ∨ type = ofptPortStatus
      ∨ type = ofptFlowRemoved ∨ type = ofptStatsReply ∨ type = ofptGetConfigReply
  := by
  constructor
  · intro h
    by_contra hnone
    simp only [not_or] at hnone
    simp [CcRecvOps.select, hnone] at h
  · rintro (rfl | rfl | rfl | rfl | rfl | rfl | rfl | rfl | rfl | rfl) <;> rfl

theorem validateOpenflowMessage_accepts :
  Accepts (validateOpenflowMessage (some n)) mem ↔
    Accepts (validateMessageOfType (mem 1) (some n)) mem
  := by
  simp only [validateOpenflowMessage, unlessNull_some, accepts_bind, Reader.returns_read,
    exists_eq_left]

/-- A header of another type is rejected. -/
theorem validateHeader_rejects (hn : 8 ≤ n) (hversion : mem 0 = ofpVersion)
    (hdefined : mem 1 ≤ ofptQueueGetConfigReply) {type : UInt8} (hne : mem 1 ≠ type)
    {minLength maxLength : ℕ} {rest : MessageReader ℤ} :
  Rejects (passing (validateHeader (some n) type minLength maxLength) rest) mem
  := by
  refine ⟨errorInvalidType, returns_passing.mpr (.inl ⟨?_, by decide⟩), by decide⟩
  simp only [validateHeader, unlessNull_some, Reader.returns_ite, Reader.returns_bind,
    Reader.returns_pure, Reader.returns_read, exists_eq_left]
  have hdefined' : ¬ mem 1 > ofptQueueGetConfigReply := UInt8.not_lt.mpr hdefined
  exact .inr ⟨by omega, .inr ⟨not_not.mpr hversion, .inr ⟨hdefined', .inl ⟨hne, trivial⟩⟩⟩⟩

/-- Every statistics reply has its header checked. -/
theorem validateStatsReply_header (h : Accepts (validateStatsReply (some n)) mem) :
  ∃ maxLength, Accepts (validateHeader (some n) ofptStatsReply 12 maxLength) mem
  := by
  have hof : ∀ {maxLength : ℕ} {flags : UInt16} {body : MessageReader ℤ},
      Accepts (validateStatsReplyOf (some n) maxLength flags body) mem →
        ∃ maxLength, Accepts (validateHeader (some n) ofptStatsReply 12 maxLength) mem := by
    intro maxLength flags body h
    exact ⟨maxLength, (accepts_passing.mp h).1⟩
  simp only [validateStatsReply, unlessNull_some, accepts_bind, accepts_ite, accepts_pure,
    returns_ntohs, exists_eq_left] at h
  rcases h with ⟨-, h⟩ | ⟨-, ⟨-, h⟩ | ⟨-, ⟨-, h⟩ | ⟨-, ⟨-, h⟩ | ⟨-, ⟨-, h⟩ | ⟨-, ⟨-, h⟩
    | ⟨-, ⟨-, h⟩ | ⟨-, h⟩⟩⟩⟩⟩⟩⟩
  case inr.inr.inr.inr.inr.inr.inr => exact absurd (by decide) h
  all_goals apply hof h

/-- A message with a defined header of its own type is rejected by the validator of another
type. -/
theorem rejects_of_header {type type' : UInt8} (htype : type ≤ ofptQueueGetConfigReply)
    (hne : type ≠ type') {minLength maxLength : ℕ}
    (h : Accepts (validateHeader (some n) type minLength maxLength) mem)
    {minLength' maxLength' : ℕ} {rest : MessageReader ℤ} :
  Rejects (passing (validateHeader (some n) type' minLength' maxLength') rest) mem
  := by
  have hn := validateHeader_length h
  have hheader := (validateHeader_accepts hn htype).mp h
  apply validateHeader_rejects hn hheader.version
  · rw [hheader.type]
    apply htype
  · rw [hheader.type]
    apply hne

/-- A message that is accepted as an OpenFlow message is not rejected by the validator of
the handler selected for it, unless it is a flow removed message or a statistics reply:
these are validated as messages of other types. -/
theorem select_validate_iff (handler : RecvHandler)
    (haccepted : Accepts (validateOpenflowMessage (some n)) mem)
    (hselect : ccRecvOps.select (mem 1) = some handler) :
  ¬ Rejects (handler.validate (some n)) mem ↔
    mem 1 ≠ ofptFlowRemoved ∧ mem 1 ≠ ofptStatsReply
  := by
  rw [validateOpenflowMessage_accepts] at haccepted
  have hsome : (ccRecvOps.select (mem 1)).isSome := by
    rw [hselect]
    rfl
  rcases (select_isSome _).mp hsome with h | h | h | h | h | h | h | h | h | h
  case inr.inr.inr.inr.inr.inr.inr.inl =>
    rw [h] at haccepted hselect ⊢
    obtain rfl := Option.some.inj hselect
    have hheader := (accepts_passing.mp haccepted).1
    have hrejects : Rejects (validateFlowMod (some n)) mem :=
      rejects_of_header (by decide) (by decide) hheader
    simp +decide [ccRecvFlowRemoved, hrejects]
  case inr.inr.inr.inr.inr.inr.inr.inr.inl =>
    rw [h] at haccepted hselect ⊢
    obtain rfl := Option.some.inj hselect
    obtain ⟨_, hheader⟩ := validateStatsReply_header haccepted
    have hrejects : Rejects (validatePortStatus (some n)) mem :=
      rejects_of_header (by decide) (by decide) hheader
    simp +decide [ccRecvPortStatus, hrejects]
  all_goals
    rw [h] at haccepted hselect ⊢
    obtain rfl := Option.some.inj hselect
    apply iff_of_true
    · apply Accepts.not_rejects haccepted
    · decide

/-- A description of twelve bytes, without the description. -/
def descStatsReply : List UInt8 := [1, 17, 0, 12, 0, 0, 0, 0, 0, 0, 0, 0]

/-- A hello is not rejected by its handler. -/
theorem select_validate_hello :
  let mem : Memory := fun i => [1, 0, 0, 8].getD i 0
  Accepts (validateOpenflowMessage (some 8)) mem ∧
    ccRecvOps.select (mem 1) = some ccRecvHelloMsg ∧
      (¬ Rejects (ccRecvHelloMsg.validate (some 8)) mem ↔
        mem 1 ≠ ofptFlowRemoved ∧ mem 1 ≠ ofptStatsReply)
  := by
  intro mem
  have haccepted : Accepts (validateOpenflowMessage (some 8)) mem :=
    ⟨0, ⟨0, by decide⟩, by decide⟩
  exact ⟨haccepted, rfl, select_validate_iff ccRecvHelloMsg haccepted rfl⟩

/-- A statistics reply is accepted as an OpenFlow message and rejected by the validator of
the handler selected for it. -/
theorem select_validate_statsReply :
  ¬ ∀ (n : ℕ) (mem : Memory) (handler : RecvHandler),
    Accepts (validateOpenflowMessage (some n)) mem →
      ccRecvOps.select (mem 1) = some handler → ¬ Rejects (handler.validate (some n)) mem
  := by
  intro h
  apply h 12 (fun i => descStatsReply.getD i 0) ccRecvPortStatus
  · exact ⟨0, ⟨0, by decide⟩, by decide⟩
  · rfl
  · exact ⟨errorInvalidType, ⟨0, by decide⟩, by decide⟩

/-! ### Releasing the message -/

/-- The message is accepted by a handler that hands it on to the application. -/
def HandedOn (n : ℕ) (mem : Memory) : Prop :=
  mem 1 = ofptPacketIn ∧ Accepts (validatePacketIn (some n)) mem ∨
  mem 1 = ofptVendor ∧ Accepts (validateVendor (some n)) mem ∨
  mem 1 = ofptPortStatus ∧ Accepts (validatePortStatus (some n)) mem

/-- A validator that checks the header for a type does not accept a message of another. -/
theorem passing_header_type {type : UInt8} (htype : type ≤ ofptQueueGetConfigReply)
    {minLength maxLength : ℕ} {rest : MessageReader ℤ}
    (h : Accepts (passing (validateHeader (some n) type minLength maxLength) rest) mem) :
  mem 1 = type
  := by
  have hheader := (accepts_passing.mp h).1
  apply ((validateHeader_accepts (validateHeader_length hheader) htype).mp hheader).type

section

variable {host : Host} {recvBuf : Buffer} {w : World}

/-- A message that is handed on is released twice, and another once. -/
def ReleasedByHandler (host : Host) (recvBuf : Buffer) (w w' : World) : Prop :=
  HandedOn recvBuf.length (recvBuf.memory host) ∧
      w'.released = w.released ++ [recvBuf.addr, recvBuf.addr] ∨
    ¬ HandedOn recvBuf.length (recvBuf.memory host) ∧
      w'.released = w.released ++ [recvBuf.addr]

/-- Handlers that release the messages they accept once. -/
theorem recv_releases_once {handler : RecvHandler}
    (hnot : ¬ HandedOn recvBuf.length (recvBuf.memory host))
    (haccept : Program.Ensures (handler.accept host recvBuf) w (fun _ w' =>
      w'.released = w.released ++ [recvBuf.addr])) :
  Program.Ensures (handler.recv host recvBuf) w (fun _ w' => ReleasedByHandler host recvBuf w w')
  := by
  apply RecvHandler.recv_ensures
  · intro _
    exact .inr ⟨hnot, rfl⟩
  · intro _
    apply haccept.mono
    intro _ w' hreleased
    exact .inr ⟨hnot, hreleased⟩

/-- Handlers that hand the messages they accept on to the application. -/
theorem recv_releases_forApp {handler : RecvHandler} {failed : ℤ → Bool}
    (hfailed : failed ccEErr = true) (haccept : handler.accept = acceptForApp failed)
    (hiff : HandedOn recvBuf.length (recvBuf.memory host) ↔
      Accepts (handler.validate (some recvBuf.length)) (recvBuf.memory host)) :
  Program.Ensures (handler.recv host recvBuf) w (fun _ w' => ReleasedByHandler host recvBuf w w')
  := by
  apply RecvHandler.recv_ensures
  · intro hrejects
    exact .inr ⟨fun hhanded => (hiff.mp hhanded).not_rejects hrejects, rfl⟩
  · intro haccepts
    rw [haccept]
    apply (acceptForApp_ensures hfailed).mono
    rintro _ w' ⟨hreleased, -⟩
    exact .inl ⟨hiff.mpr haccepts, hreleased⟩

theorem select_releases {handler : RecvHandler}
    (hselect : ccRecvOps.select (recvBuf.memory host 1) = some handler) :
  Program.Ensures (handler.recv host recvBuf) w (fun _ w' => ReleasedByHandler host recvBuf w w')
  := by
  have hsome : (ccRecvOps.select (recvBuf.memory host 1)).isSome := by
    rw [hselect]
    rfl
  rcases (select_isSome _).mp hsome with h | h | h | h | h | h | h | h | h | h
  all_goals
    rw [h] at hselect
    obtain rfl := Option.some.inj hselect
  case inl =>
    apply recv_releases_once (by simp +decide [HandedOn, h])
    apply ccRecvHelloMsg_ensures.mono fun _ _ h => h.1
  case inr.inl =>
    apply recv_releases_once (by simp +decide [HandedOn, h])
    apply ccRecvEchoRequest_ensures.mono fun _ _ h => h.1
  case inr.inr.inl =>
    apply recv_releases_once (by simp +decide [HandedOn, h])
    apply acceptReplyForEcho_ensures.mono fun _ _ h => h.1
  case inr.inr.inr.inl =>
    apply recv_releases_once (by simp +decide [HandedOn, h])
    apply ccRecvErrMsg_ensures.mono fun _ _ h => h.1
  case inr.inr.inr.inr.inl =>
    apply recv_releases_forApp rfl rfl
    simp +decide [HandedOn, h, ccRecvPacketIn]
  case inr.inr.inr.inr.inr.inl =>
    apply recv_releases_forApp rfl rfl
    simp +decide [HandedOn, h, ccRecvVendor]
  case inr.inr.inr.inr.inr.inr.inl =>
    apply recv_releases_forApp rfl rfl
    simp +decide [HandedOn, h, ccRecvPortStatus]
  -- these two validate the message as one of another type and so accept none
  case inr.inr.inr.inr.inr.inr.inr.inl =>
    apply recv_releases_forApp rfl rfl
    apply iff_of_false (by simp +decide [HandedOn, h])
    intro haccepts
    have htype := passing_header_type (by decide) haccepts
    exact absurd (h.symm.trans htype) (by decide)
  case inr.inr.inr.inr.inr.inr.inr.inr.inl =>
    apply recv_releases_forApp rfl rfl
    apply iff_of_false (by simp +decide [HandedOn, h])
    intro haccepts
    have htype := passing_header_type (by decide) haccepts
    exact absurd (h.symm.trans htype) (by decide)
  case inr.inr.inr.inr.inr.inr.inr.inr.inr =>
    apply recv_releases_once (by simp +decide [HandedOn, h])
    apply acceptReplyForEcho_ensures.mono fun _ _ h => h.1

/-- A message is not released at all if there is no handler for it, and else as its handler
releases it. -/
theorem dispatch_releases :
  Program.Ensures (dispatch host recvBuf) w (fun _ w' =>
    ccRecvOps.select (recvBuf.memory host 1) = none ∧ w'.released = w.released ∨
    (ccRecvOps.select (recvBuf.memory host 1)).isSome ∧ ReleasedByHandler host recvBuf w w')
  := by
  simp only [dispatch, Program.ends_bind]
  apply ensures_look
  intro type htype
  obtain rfl := Reader.returns_read.mp htype
  cases hselect : ccRecvOps.select (recvBuf.memory host 1) with
  | none => exact .inl ⟨rfl, rfl⟩
  | some handler =>
      simp only [Program.ends_bind, Program.ends_pure]
      apply (select_releases hselect).mono
      intro _ w' hreleased
      exact .inr ⟨rfl, hreleased⟩

/-- A message taken from the receive queue is released once by the time its dispatch
returns exactly when there is a handler for its type and the message is not handed on to
the application. -/
theorem ccOfpmsgRecvHandle_releases_iff (host : Host) (w w' : World) (ret : ℤ) (recvBuf : Buffer)
    (recvQueue : MessageQueue Buffer) (hhandler : w.recvHandler = true)
    (hlength : w.recvQueue.length ≠ 0)
    (hdequeue : dequeueMessage w.recvQueue = .ok (some recvBuf, recvQueue))
    (hreturns : ccOfpmsgRecvHandle host w = .ok (ret, w')) :
  w'.released.count recvBuf.addr = w.released.count recvBuf.addr + 1 ↔
    (ccRecvOps.select (recvBuf.memory host 1)).isSome ∧
      ¬ HandedOn recvBuf.length (recvBuf.memory host)
  := by
  have hensures : Program.Ensures (ccOfpmsgRecvHandle host) w (fun _ w' =>
      ccRecvOps.select (recvBuf.memory host 1) = none ∧ w'.released = w.released ∨
      (ccRecvOps.select (recvBuf.memory host 1)).isSome ∧
        ReleasedByHandler host recvBuf w w') := by
    simp only [ccOfpmsgRecvHandle, Program.ends_bind, Program.ends_state, Program.ends_ite,
      hhandler, hlength, hdequeue, Program.ends_lift_ok, Program.ends_update, reduceCtorEq,
      false_implies, not_false_eq_true, true_implies, true_and]
    apply dispatch_releases
  rcases Program.ensures_iff.mp hensures ret w' hreturns with ⟨hnone, hreleased⟩ | ⟨hsome, h⟩
  · simp [hreleased, hnone]
  · rcases h with ⟨hhanded, hreleased⟩ | ⟨hnot, hreleased⟩
    · simp [hreleased, hhanded]
    · simp [hreleased, hsome, hnot]

end

/-- A vendor message without a body. -/
def vendorMessage : Buffer where
  addr := 0
  data := some [1, 4, 0, 12, 0, 0, 0, 0, 0, 0, 0, 0]
  length := 12

/-- A connection with a vendor message in its receive queue. -/
def vendorWorld : World where
  __ := World.start
  recvQueue := ((enqueueMessage createMessageQueue (some vendorMessage) true).toOption.map
    Prod.snd).getD createMessageQueue

/-- The theorem applies to the dispatch of a vendor message. -/
theorem ccOfpmsgRecvHandle_releases_vendor :
  ∃ ret w', ccOfpmsgRecvHandle (Host.plain true) vendorWorld = .ok (ret, w') ∧
    (w'.released.count 0 = vendorWorld.released.count 0 + 1 ↔
      (ccRecvOps.select (vendorMessage.memory (Host.plain true) 1)).isSome ∧
        ¬ HandedOn 12 (vendorMessage.memory (Host.plain true)))
  := ⟨_, _, rfl, ccOfpmsgRecvHandle_releases_iff (Host.plain true) vendorWorld _ _ vendorMessage
      _ rfl (by decide) rfl rfl⟩

/-- A vendor message is released twice. -/
theorem ccOfpmsgRecvHandle_releases_twice :
  ¬ ∀ (host : Host) (w w' : World) (ret : ℤ) (recvBuf : Buffer) (recvQueue : MessageQueue Buffer),
    w.recvHandler = true → w.recvQueue.length ≠ 0 →
      dequeueMessage w.recvQueue = .ok (some recvBuf, recvQueue) →
      ccOfpmsgRecvHandle host w = .ok (ret, w') →
      w'.released.count recvBuf.addr = w.released.count recvBuf.addr + 1
  := by
  intro h
  have honce := h (Host.plain true) vendorWorld _ _ vendorMessage _ rfl (by decide) rfl rfl
  exact absurd honce (by decide)

end CcController
