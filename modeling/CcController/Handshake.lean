import CcController.BuilderAccepted
import CcController.BuilderXid
import CcController.QueueDelete
import CcController.Rejection

/-!
# The answer to a hello

A HELLO is to be answered with a HELLO and a FEATURES_REQUEST, whatever its body is, which
OpenFlow has ignored. The handler accepts a HELLO without a body only, and what it then does
hangs on the allocations, none of which is checked in time; the theorem says exactly when a
HELLO is answered.
-/

namespace CcController

variable {host : Host} {w : World}

/-- The buffer holds a hello that fits the receive buffer, with the bytes `bytes`. -/
structure HelloIn (host : Host) (bytes : List UInt8) (buf : Buffer) : Prop where
  data : buf.data = some bytes
  length : buf.length = bytes.length
  header : HeaderOk bytes.length (memoryOf bytes host.beyond) ofptHello 8 1024

/-- The message is accepted by the validator of all messages. -/
def Buffer.Valid (buf : Buffer) (host : Host) : Prop :=
  Accepts (validateOpenflowMessage (some buf.length)) (buf.memory host)

/-- What a hello is to lead to: behind the messages of the send queue are a hello and a features
request, both valid and with different xids; that of the request is the latest one. -/
def Answered (host : Host) (queue queue' : MessageQueue Buffer) (xidLatest : UInt32) : Prop :=
  ∃ old hello features, queue.Holds old ∧ queue'.Holds (old ++ [hello, features]) ∧
    (hello.HasType ofptHello ∧ hello.Valid host) ∧
    (features.HasType ofptFeaturesRequest ∧ features.Valid host) ∧
    hello.xid ≠ features.xid ∧ features.xid = xidLatest

/-- The handler returns with success, and the hello is answered. -/
def AnswersHello (host : Host) (buf : Buffer) (w : World) : Prop :=
  Program.Reaches (ccRecvHelloMsg.recv host buf) w
    (fun ret w' => ret = ccENone ∧ Answered host w.sendQueue w'.sendQueue w'.xidLatest)

/-! ### Sending a header -/

/-- The function makes a message that is a header only, exactly when three allocations succeed
and the block for the header has room for it; it is asked for something that null is not. -/
def MakesHeader (host : Host) (xid : UInt32) (type : UInt8) (create : Action (Option Buffer)) :
    Prop :=
  ∀ (w : World) (Q : Option Buffer → World → Prop), (∀ w', ¬ Q none w') →
    (Program.Reaches create w Q ↔ w.Grants 3 ∧ 8 ≤ host.scratch ∧
      Q (some (headed host xid type 8 w.nextBuffer))
        { w.drawn 3 with nextBuffer := w.nextBuffer + 1 })

theorem ccCreateHeader_makesHeader {xid : UInt32} {type : UInt8} :
  MakesHeader host xid type (ccCreateHeader host xid type 8)
  := by
  intro w Q hQ
  apply ends_ccCreateHeader.trans
  constructor
  · rintro ⟨hfails, hrest⟩
    have h0 := Bool.eq_true_of_not_eq_false hfails
    obtain ⟨hnone, hblock⟩ := hrest h0
    have h2 : w.mallocs 2 = true := by
      apply Bool.eq_true_of_not_eq_false
      intro h2
      exact hQ _ (hnone h2)
    obtain ⟨hscratch, hfill⟩ := hblock h2
    have hroom : max 8 (UInt16.toNat 8) ≤ host.scratch := Nat.not_lt.mp hscratch
    obtain ⟨hfails, hmade⟩ := hfill hroom
    have h1 := Bool.eq_true_of_not_eq_false hfails
    exact ⟨World.grants_three h0 h1 h2, hroom, hmade h1⟩
  · rintro ⟨hgrants, hroom, hmade⟩
    have h0 := hgrants 0 (by omega)
    have h1 := hgrants 1 (by omega)
    have h2 := hgrants 2 (by omega)
    simp only [h0, h1, h2, Bool.true_eq_false, false_implies, true_implies, true_and]
    exact ⟨Nat.not_lt.mpr hroom, fun _ => hmade⟩

theorem ccCreateHello_makesHeader {xid : UInt32} :
  MakesHeader host xid ofptHello (ccCreateHello host xid)
  := ccCreateHeader_makesHeader

theorem ccCreateFeaturesRequest_makesHeader {xid : UInt32} :
  MakesHeader host xid ofptFeaturesRequest (ccCreateFeaturesRequest host xid)
  := by
  intro w Q hQ
  apply Program.ends_bind.trans
  have hstops : ∀ w', ¬ Program.Reaches (Program.stop .null : Action (Option Buffer)) w' Q :=
    fun _ => id
  apply (ccCreateHeader_makesHeader w _ hstops).trans
  apply and_congr_right'
  apply and_congr_right'
  apply Program.ends_bind.trans
  apply ends_look rfl (Reader.yields_read 1)

/-- A message is put on the send queue when there is memory for it and the queue takes it. -/
theorem reaches_ccInsertToSendQueue {buf : Buffer} {Q : ℤ → World → Prop} :
  Program.Reaches (ccInsertToSendQueue buf) w Q ↔
    w.mallocs 0 = true ∧ ∃ queue,
      enqueueMessage w.sendQueue (some buf) true = .ok (ccENone, queue) ∧
      Q ccENone { w.drawn 1 with sendQueue := queue, sent := w.sent ++ [(buf, w.xidTable)] }
  := by
  simp only [ccInsertToSendQueue, Program.ends_bind, ends_malloc, Program.ends_state]
  cases henqueue : enqueueMessage w.sendQueue (some buf) (w.mallocs 0) with
  | error f =>
      constructor
      · intro h
        cases h
      · rintro ⟨h0, queue, hok, -⟩
        rw [h0, hok] at henqueue
        cases henqueue
  | ok r =>
      obtain ⟨ret, queue⟩ := r
      have h0 := enqueueMessage_malloc henqueue
      obtain rfl := (enqueueMessage_ok henqueue).1
      rw [h0] at henqueue
      constructor
      · intro h
        exact ⟨h0, queue, henqueue, h⟩
      · rintro ⟨-, queue', hok, h⟩
        obtain ⟨-, rfl⟩ := Prod.mk.inj (Except.ok.inj (henqueue.symm.trans hok))
        exact h

/-- Sending a header and going on, to something that an error is not. -/
theorem reaches_sendThen {recvData : Buffer} {create : Action (Option Buffer)}
    {rest : ℤ → Action ℤ} {xid : UInt32} {type : UInt8} {Q : ℤ → World → Prop}
    (hcreate : MakesHeader host xid type create) (hQ : ∀ w', ¬ Q ccEErr w') :
  Program.Reaches (sendThen recvData create rest) w Q ↔
    w.Grants 4 ∧ 8 ≤ host.scratch ∧ ∃ queue,
      enqueueMessage w.sendQueue (some (headed host xid type 8 w.nextBuffer)) true
        = .ok (ccENone, queue) ∧
      Program.Reaches (rest ccENone) { w.drawn 4 with
        nextBuffer := w.nextBuffer + 1
        sendQueue := queue
        sent := w.sent ++ [(headed host xid type 8 w.nextBuffer, w.xidTable)] } Q
  := by
  apply Program.ends_bind.trans
  apply (hcreate w _ (fun w' h => hQ _ h)).trans
  have hfour : w.Grants 4 ↔ w.Grants 3 ∧ w.mallocs 3 = true := by
    rw [World.grants_add (k := 3) (l := 1), World.grants_one]
    rfl
  rw [hfour, and_assoc, and_left_comm (a := w.mallocs 3 = true)]
  apply and_congr_right'
  apply and_congr_right'
  apply Program.ends_bind.trans
  apply reaches_ccInsertToSendQueue.trans
  rfl

/-! ### The two messages -/

/-- The second half of the handler sends a features request with the next xid. -/
theorem reaches_features {buf : Buffer} {Q : ℤ → World → Prop} (hQ : ∀ w', ¬ Q ccEErr w') :
  Program.Reaches (do
      Program.update (fun w => { w with xidLatest := w.xidLatest + 1 })
      let world ← Program.state
      sendThen buf (ccCreateFeaturesRequest host world.xidLatest) fun ret =>
      releaseThen buf ret) w Q ↔
    w.Grants 4 ∧ 8 ≤ host.scratch ∧ ∃ queue,
      enqueueMessage w.sendQueue (some (headed host (w.xidLatest + 1) ofptFeaturesRequest 8
        w.nextBuffer)) true = .ok (ccENone, queue) ∧
      Q ccENone (World.release { w.drawn 4 with
        xidLatest := w.xidLatest + 1
        nextBuffer := w.nextBuffer + 1
        sendQueue := queue
        sent := w.sent ++
          [(headed host (w.xidLatest + 1) ofptFeaturesRequest 8 w.nextBuffer, w.xidTable)] } buf)
  := by
  apply Program.ends_bind.trans
  apply Program.ends_update.trans
  apply Program.ends_bind.trans
  apply Program.ends_state.trans
  exact reaches_sendThen ccCreateFeaturesRequest_makesHeader hQ

/-- The handler, having accepted, puts two headers on the send queue. -/
theorem reaches_accept_hello {buf : Buffer} {bytes : List UInt8} (hdata : buf.data = some bytes)
    {P : MessageQueue Buffer → UInt32 → Prop} :
  Program.Reaches (ccRecvHelloMsg.accept host buf) w
      (fun ret w' => ret = ccENone ∧ P w'.sendQueue w'.xidLatest) ↔
    w.Grants 8 ∧ 8 ≤ host.scratch ∧ ∃ queue₁ queue₂,
      enqueueMessage w.sendQueue (some (headed host (buf.replyXid host + 1) ofptHello 8
        w.nextBuffer)) true = .ok (ccENone, queue₁) ∧
      enqueueMessage queue₁ (some (headed host (buf.replyXid host + 1 + 1) ofptFeaturesRequest 8
        (w.nextBuffer + 1))) true = .ok (ccENone, queue₂) ∧
      P queue₂ (buf.replyXid host + 1 + 1)
  := by
  have hQ : ∀ w' : World, ¬ (ccEErr = ccENone ∧ P w'.sendQueue w'.xidLatest) := by
    rintro w' ⟨h, -⟩
    cases h
  apply Program.ends_bind.trans
  apply (ends_look_xid hdata).trans
  apply Program.ends_bind.trans
  apply Program.ends_update.trans
  apply Program.ends_bind.trans
  apply (reaches_sendThen ccCreateHello_makesHeader hQ).trans
  constructor
  · rintro ⟨hfour, hroom, queue₁, henqueue₁, hrest⟩
    obtain ⟨hfour', -, queue₂, henqueue₂, -, hP⟩ := (reaches_features hQ).mp hrest
    exact ⟨World.grants_add.mpr ⟨hfour, hfour'⟩, hroom, queue₁, queue₂, henqueue₁, henqueue₂, hP⟩
  · rintro ⟨height, hroom, queue₁, queue₂, henqueue₁, henqueue₂, hP⟩
    obtain ⟨hfour, hfour'⟩ := World.grants_add.mp (show w.Grants (4 + 4) from height)
    use hfour, hroom, queue₁, henqueue₁
    exact (reaches_features hQ).mpr ⟨hfour', hroom, queue₂, henqueue₂, rfl, hP⟩

/-- A header by itself. -/
theorem headed_created {xid : UInt32} {type : UInt8} {addr : ℕ} :
  Created host xid type [] (headed host xid type 8 addr)
  := by
  have h : UInt16.toNat 8 = 8 + ([] : List UInt8).length := rfl
  have hcreated : Created host xid type []
    (underway addr (UInt16.toNat 8) (ofpHeader host xid type 8 ++ []) 0) := created_underway h
  rw [List.append_nil] at hcreated
  rw [headed_eq h]
  exact hcreated

/-- The validator of all messages takes a message of a known type to that of its type. -/
theorem Created.valid {xid : UInt32} {type : UInt8} {buf : Buffer}
    (h : Created host xid type [] buf) (htype : type ≤ ofptQueueGetConfigReply)
    (hvalidate : validateMessageOfType type (some buf.length)
      = validateHeader (some buf.length) type 8 8) :
  buf.Valid host
  := by
  have hheader : HeaderOk buf.length (buf.memory host) type 8 ushrtMax.toNat :=
    h.headerOk (Nat.le_refl 8)
  have haccepts : Accepts (validateHeader (some buf.length) type 8 8) (buf.memory host) :=
    (validateHeader_accepts hheader.min htype).mpr { hheader with max := Nat.le_of_eq h.length }
  obtain ⟨r, hr, hpos⟩ := haccepts
  refine ⟨r, ?_, hpos⟩
  rw [validateOpenflowMessage, unlessNull_some]
  apply Reader.returns_bind.mpr
  use type
  rw [hvalidate]
  exact ⟨Reader.returns_read.mpr hheader.type.symm, hr⟩

/-! ### Which hellos are answered -/

/-- The two messages, and the queue that has taken them. -/
theorem answered_iff {queue queue₁ queue₂ : MessageQueue Buffer} {xid : UInt32}
    {hello features : Buffer} {bufs : List Buffer} (hqueue : queue.Linked bufs)
    (hhello : enqueueMessage queue (some hello) true = .ok (ccENone, queue₁))
    (hfeatures : enqueueMessage queue₁ (some features) true = .ok (ccENone, queue₂))
    (hcreated : Created host (xid + 1) ofptHello [] hello)
    (hcreated' : Created host (xid + 1 + 1) ofptFeaturesRequest [] features) :
  Answered host queue queue₂ (xid + 1 + 1) ↔
    host.wireXid (xid + 1 + 1) = xid + 1 + 1
  := by
  obtain ⟨queue₁', henqueue₁, hlinked₁⟩ := hqueue.enqueue (enqueueMessage_header hhello)
  obtain ⟨-, rfl⟩ := Prod.mk.inj (Except.ok.inj (hhello.symm.trans henqueue₁))
  obtain ⟨queue₂', henqueue₂, hlinked₂⟩ := hlinked₁.enqueue (enqueueMessage_header hfeatures)
  obtain ⟨-, rfl⟩ := Prod.mk.inj (Except.ok.inj (hfeatures.symm.trans henqueue₂))
  have hholds : queue₂.Holds (bufs ++ [hello, features]) := by
    rw [List.append_cons]
    exact hlinked₂.holds
  constructor
  · rintro ⟨old, hello', features', hold, hnew, -, -, -, hxid⟩
    obtain rfl := hold.unique hqueue.holds
    obtain ⟨-, heq⟩ := List.cons.inj (List.append_cancel_left (hnew.unique hholds))
    obtain ⟨rfl, -⟩ := List.cons.inj heq
    rw [← hcreated'.xid_eq]
    exact hxid
  · intro hxid
    refine ⟨bufs, hello, features, hqueue.holds, hholds,
      ⟨hcreated.hasType_iff.mpr rfl, hcreated.valid (by decide) rfl⟩,
      ⟨hcreated'.hasType_iff.mpr rfl, hcreated'.valid (by decide) rfl⟩, ?_, ?_⟩
    · rw [hcreated.xid_eq, hcreated'.xid_eq]
      intro heq
      have hsame := wireXid_injective heq
      have hone : (1 : UInt32) = 0 := UInt32.add_eq_left.mp hsame.symm
      exact absurd hone (by decide)
    · rw [hcreated'.xid_eq]
      exact hxid

/-- A header that is as it should be is read without a loop. -/
theorem yields_validateHeader {n minLength maxLength : ℕ} {mem : Memory} {type : UInt8}
    (h : HeaderOk n mem type minLength maxLength) (hn : 8 ≤ n)
    (htype : type ≤ ofptQueueGetConfigReply) :
  (validateHeader (some n) type minLength maxLength).Yields mem ([0] ++ ([1] ++ ([2, 3] ++ []))) 0
  := by
  have hlength := h.length
  have hmin := h.min
  have hmax := h.max
  rw [validateHeader, unlessNull_some, if_neg (Nat.not_lt.mpr hn)]
  apply (Reader.yields_read 0).bind
  rw [if_neg (not_not.mpr h.version)]
  apply (Reader.yields_read 1).bind
  rw [h.type, if_neg (UInt8.not_lt.mpr htype), if_neg (not_not.mpr rfl)]
  apply (yields_ntohs 2).bind
  rw [if_neg, if_neg, if_neg, if_neg, if_neg]
  · exact fun _ => rfl
  all_goals omega

variable {bytes : List UInt8} {buf : Buffer}

/-- A hello without a body is accepted. -/
theorem HelloIn.accepted (h : HelloIn host bytes buf) (hlength : bytes.length = 8)
    {Q : ℤ → World → Prop} :
  Program.Reaches (ccRecvHelloMsg.recv host buf) w Q ↔
    Program.Reaches (ccRecvHelloMsg.accept host buf) w Q
  := by
  have hheader : HeaderOk buf.length (memoryOf bytes host.beyond) ofptHello 8 8 := by
    rw [h.length]
    exact { h.header with max := Nat.le_of_eq hlength }
  have hvalidate := yields_validateHeader hheader hheader.min (by decide)
  have hrun : ((validateHello (some buf.length)).run host.fuel (memoryOf bytes host.beyond)).2
      = some 0 := by
    rw [validateHello, unlessNull_some, hvalidate host.fuel]
  apply (recv_ends_iff h.data hrun).trans
  simp

/-- A hello with a body is rejected, whatever the body is. -/
theorem HelloIn.rejected (h : HelloIn host bytes buf) (hlength : bytes.length ≠ 8) :
  ¬ AnswersHello host buf w
  := by
  apply Program.not_reaches_of_ensures
  apply RecvHandler.recv_ensures
  · rintro - ⟨herror, -⟩
    cases herror
  · intro haccepts
    have hhello : Accepts (validateHello (some buf.length)) (buf.memory host) := haccepts
    rw [validateHello, unlessNull_some] at hhello
    have hmin : 8 ≤ buf.length := by
      rw [h.length]
      exact h.header.min
    have hmax := ((validateHeader_accepts hmin (by decide)).mp hhello).max
    rw [h.length] at hmin hmax
    omega

/-- A hello is answered exactly when it has no body, the block that a header is built in has
room for one, the eight allocations for the two messages succeed, the send queue has not been
drained, and the xid of the request is the same in the byte order of the host. -/
theorem ccRecvHelloMsg_answers_iff (host : Host) (w : World) (bytes : List UInt8) (buf : Buffer)
    (hhello : HelloIn host bytes buf) (hqueue : w.sendQueue.Reached) :
  AnswersHello host buf w ↔
    bytes.length = 8 ∧ 8 ≤ host.scratch ∧ w.Grants 8 ∧ ¬ w.sendQueue.Drained ∧
      (host.littleEndian = false ∨
        (htonl (buf.replyXid host + 2)).reverse = htonl (buf.replyXid host + 2))
  := by
  have hnext : buf.replyXid host + 1 + 1 = buf.replyXid host + 2 := by
    rw [UInt32.add_assoc]
    rfl
  by_cases hlength : bytes.length = 8
  · rw [AnswersHello, hhello.accepted hlength, reaches_accept_hello hhello.data]
    rw [← hnext, ← wireXid_eq_iff, and_iff_right hlength]
    constructor
    · rintro ⟨hgrants, hroom, queue₁, queue₂, henqueue₁, henqueue₂, hanswered⟩
      have hdrained : ¬ w.sendQueue.Drained := by
        intro hdrained
        obtain ⟨f, hf⟩ := hdrained.enqueue _ true
        rw [henqueue₁] at hf
        cases hf
      obtain ⟨bufs, hlinked⟩ := hqueue.linked_or_drained.resolve_right hdrained
      exact ⟨hroom, hgrants, hdrained, (answered_iff hlinked henqueue₁ henqueue₂ headed_created
        headed_created).mp hanswered⟩
    · rintro ⟨hroom, hgrants, hdrained, hxid⟩
      obtain ⟨bufs, hlinked⟩ := hqueue.linked_or_drained.resolve_right hdrained
      obtain ⟨queue₁, henqueue₁, hlinked₁⟩ := hlinked.enqueue
        (b := headed host (buf.replyXid host + 1) ofptHello 8 w.nextBuffer)
        headed_created.hasHeader
      obtain ⟨queue₂, henqueue₂, -⟩ := hlinked₁.enqueue
        (b := headed host (buf.replyXid host + 1 + 1) ofptFeaturesRequest 8 (w.nextBuffer + 1))
        headed_created.hasHeader
      exact ⟨hgrants, hroom, queue₁, queue₂, henqueue₁, henqueue₂, (answered_iff hlinked henqueue₁
        henqueue₂ headed_created headed_created).mpr hxid⟩
  · constructor
    · intro h
      exact absurd h (hhello.rejected hlength)
    · rintro ⟨h, -⟩
      exact absurd h hlength

/-- A hello of the bytes that are given, as a buffer. -/
def helloBuffer (bytes : List UInt8) : Buffer where
  addr := 0
  data := some bytes
  length := bytes.length

/-- On a big-endian host a hello without a body is answered on a new connection. -/
theorem ccRecvHelloMsg_answers_empty :
  HelloIn (Host.plain false) [1, 0, 0, 8, 0, 0, 0, 5] (helloBuffer [1, 0, 0, 8, 0, 0, 0, 5]) ∧
    World.start.sendQueue.Reached ∧
    AnswersHello (Host.plain false) (helloBuffer [1, 0, 0, 8, 0, 0, 0, 5]) World.start
  := by
  have hhello : HelloIn (Host.plain false) [1, 0, 0, 8, 0, 0, 0, 5]
      (helloBuffer [1, 0, 0, 8, 0, 0, 0, 5]) :=
    ⟨rfl, rfl, by decide, by decide, by decide, by decide, by decide⟩
  use hhello, MessageQueue.reached_create
  apply (ccRecvHelloMsg_answers_iff _ World.start _ _ hhello MessageQueue.reached_create).mpr
  exact ⟨rfl, by decide, fun _ _ => rfl, MessageQueue.ready_create.linked.not_drained, .inl rfl⟩

/-- A hello with a body of four bytes is not answered. -/
theorem ccRecvHelloMsg_rejects_body :
  HelloIn (Host.plain false) [1, 0, 0, 12, 0, 0, 0, 5, 0, 0, 0, 0]
      (helloBuffer [1, 0, 0, 12, 0, 0, 0, 5, 0, 0, 0, 0]) ∧
    ¬ AnswersHello (Host.plain false) (helloBuffer [1, 0, 0, 12, 0, 0, 0, 5, 0, 0, 0, 0])
      World.start
  := by
  have hhello : HelloIn (Host.plain false) [1, 0, 0, 12, 0, 0, 0, 5, 0, 0, 0, 0]
      (helloBuffer [1, 0, 0, 12, 0, 0, 0, 5, 0, 0, 0, 0]) :=
    ⟨rfl, rfl, by decide, by decide, by decide, by decide, by decide⟩
  use hhello
  exact hhello.rejected (by decide)

end CcController
