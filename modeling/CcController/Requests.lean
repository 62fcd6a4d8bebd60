import CcController.OfMsgRecv

/-!
# Requests and replies

An echo request should be answered with the same xid and the same body; the answer it gets
has another body (`echoRequest_not_replied`).

A request whose reply is looked up in the xid table should have its xid registered there when
it is sent. What the handlers do to the table and to the send queue is said here, message by
message (`arrivalStep_answers`), and so that a registered xid waits for its reply
(`registered_run`).
-/

namespace CcController

variable {host : Host} {w : World}

/-! ### Echo requests -/

/-- The buffer holds a well-formed echo request that fits the receive buffer, with the bytes
`bytes`. -/
structure EchoRequest (host : Host) (bytes : List UInt8) (buf : Buffer) : Prop where
  data : buf.data = some bytes
  length : buf.length = bytes.length
  header : HeaderOk bytes.length (memoryOf bytes host.beyond) ofptEchoRequest 8 1024

/-- The message is an echo reply that has the xid and the body of the request. -/
structure RepliesTo (bytes : List UInt8) (reply : Buffer) (block : List UInt8) : Prop where
  data : reply.data = some block
  type : block[1]? = some ofptEchoReply
  xid : (block.drop 4).take 4 = (bytes.drop 4).take 4
  body : block.drop 8 = bytes.drop 8

/-- The handler returns and has put one message on the send queue, the reply to the
request. -/
def EchoReplied (host : Host) (w : World) (buf : Buffer) (bytes : List UInt8) : Prop :=
  ∃ ret w' reply block, ccRecvEchoRequest.recv host buf w = .ok (ret, w') ∧
    enqueueMessage w.sendQueue (some reply) true = .ok (ccENone, w'.sendQueue) ∧
    RepliesTo bytes reply block

/-- What is put on the send queue for an echo request is an echo reply that has the whole
request for a body. -/
theorem echoRequest_sends {buf reply : Buffer} {ret : ℤ} {w' : World}
    (hrecv : ccRecvEchoRequest.recv host buf w = .ok (ret, w'))
    (hreply : enqueueMessage w.sendQueue (some reply) true = .ok (ccENone, w'.sendQueue)) :
  ∃ xid, Created host xid ofptEchoReply (echoBody host buf) reply
  := by
  have hgrown := (enqueueMessage_ok hreply).2.1
  have hensures : Program.Ensures (ccRecvEchoRequest.recv host buf) w (fun _ w' =>
      w'.sendQueue = w.sendQueue ∨
      ∃ xid sent ok, Created host xid ofptEchoReply (echoBody host buf) sent ∧
        enqueueMessage w.sendQueue (some sent) ok = .ok (ccENone, w'.sendQueue)) := by
    apply RecvHandler.recv_ensures
    · intro _
      exact .inl rfl
    · intro _
      apply ccRecvEchoRequest_ensures.mono
      rintro _ w' ⟨-, _, _, ret, -, new, hsends, rfl | ⟨sent, rfl, hcreated⟩⟩
      · exact .inl hsends.queued
      · obtain ⟨ok, queue, henqueue, rfl⟩ := hsends.queued
        exact .inr ⟨_, sent, ok, hcreated, henqueue⟩
  rcases Program.ensures_iff.mp hensures ret w' hrecv with hsame | ⟨xid, sent, ok, hcreated, hsent⟩
  · rw [hsame] at hgrown
    omega
  · obtain rfl := enqueueMessage_inj hreply hsent
    exact ⟨xid, hcreated⟩

theorem EchoRequest.length_echoBody {buf : Buffer} {bytes : List UInt8}
    (h : EchoRequest host bytes buf) :
  (echoBody host buf).length = bytes.length
  := by
  have hmax := h.header.max
  have hofNat : (UInt16.ofNat bytes.length).toNat = bytes.length :=
    UInt16.toNat_ofNat_of_lt' (by simp [UInt16.size]; omega)
  simp [echoBody, bytesAt, dataLength, h.length, hofNat]

/-- No echo request is answered: the body of the reply is the whole request. -/
theorem echoRequest_not_replied (host : Host) (w : World) (buf : Buffer) (bytes : List UInt8)
    (hrequest : EchoRequest host bytes buf) :
  ¬ EchoReplied host w buf bytes
  := by
  rintro ⟨ret, w', reply, block, hrecv, hreply, hreplies⟩
  obtain ⟨xid, hcreated⟩ := echoRequest_sends hrecv hreply
  have hblock := Option.some.inj (hreplies.data.symm.trans hcreated.data)
  have hbody := congrArg List.length hreplies.body
  rw [hblock, List.drop_left' length_ofpHeader, hrequest.length_echoBody, List.length_drop]
    at hbody
  have hmin := hrequest.header.min
  omega

/-- An echo request without a body. -/
def emptyEchoRequest : Buffer where
  addr := 0
  data := some [1, 2, 0, 8, 0, 0, 0, 7]
  length := 8

theorem emptyEchoRequest_echoRequest :
  EchoRequest (Host.plain false) [1, 2, 0, 8, 0, 0, 0, 7] emptyEchoRequest
  := ⟨rfl, rfl, ⟨by decide, by decide, by decide, by decide, by decide⟩⟩

/-- An empty echo request is not answered. -/
theorem echoRequest_not_replied_empty :
  ¬ EchoReplied (Host.plain false) World.start emptyEchoRequest
    [1, 2, 0, 8, 0, 0, 0, 7]
  := echoRequest_not_replied _ _ _ _ emptyEchoRequest_echoRequest

/-- On a fresh connection an empty echo request gets a reply with a body of eight bytes. -/
theorem echoRequest_reply_body :
  ¬ ∀ (host : Host) (w : World) (buf : Buffer) (bytes : List UInt8),
    EchoRequest host bytes buf → EchoReplied host w buf bytes
  := by
  intro h
  obtain ⟨_, _, reply, block, hrecv, hreply, hreplies⟩ := h (Host.plain false) World.start
    emptyEchoRequest
    [1, 2, 0, 8, 0, 0, 0, 7] emptyEchoRequest_echoRequest
  obtain ⟨xid, hcreated⟩ := echoRequest_sends hrecv hreply
  have hblock := Option.some.inj (hreplies.data.symm.trans hcreated.data)
  have hbody := hreplies.body
  rw [hblock, List.drop_left' length_ofpHeader] at hbody
  exact absurd hbody (by decide)

/-! ### Requests that await a reply -/

/-- The xid that a number is in network order when the host has stored it in its own. -/
def Host.wireXid (host : Host) (xid : UInt32) : UInt32 :=
  be32 (fun i => (host.bytes xid).getD i 0) 0

/-- The xid in the header of a message. -/
def Buffer.xid (buf : Buffer) : UInt32 :=
  be32 (fun i => (buf.data.getD []).getD i 0) 4

/-- The message is of the type `type`. -/
def Buffer.HasType (buf : Buffer) (type : UInt8) : Prop :=
  ∃ block, buf.data = some block ∧ block[1]? = some type

/-- The message is a request whose reply is looked up in the xid table. -/
def Buffer.IsRequest (buf : Buffer) : Prop :=
  buf.HasType ofptFeaturesRequest ∨ buf.HasType ofptEchoRequest

/-- A message that comes in while the connection is on the machine `host`, and the handler
it is given to. -/
structure Arrival where
  handler : RecvHandler
  message : Buffer
  host : Host
  mallocs : ℕ → Bool

def Arrival.xid (a : Arrival) : UInt32 :=
  be32 (a.message.memory a.host) 4

def Arrival.Accepted (a : Arrival) : Prop :=
  Accepts (a.handler.validate (some a.message.length)) (a.message.memory a.host)

/-- The handlers that look up the xid of the message. -/
def ccReplyHandlers : List RecvHandler :=
  [ccRecvEchoReply, ccRecvGetConfigReply, ccRecvBarrierReply, ccRecvFeaturesReply,
    ccRecvStatsReply, ccRecvFlowStatsReply]

/-- The message is a reply that carries the xid. -/
def Arrival.RepliesWith (a : Arrival) (xid : UInt32) : Prop :=
  a.handler ∈ ccReplyHandlers ∧ a.xid = xid

def arrivalStep (w : World) (a : Arrival) : Except Fault (ℤ × World) :=
  a.handler.recv a.host a.message { w with mallocs := a.mallocs }

/-- In every state of the run of `arrivals` from `w`, every request on the send queue was
put there when its xid was registered, and the first reply that carries the xid and comes
within the timeout is not rejected. -/
structure RequestsMatched (w : World) (arrivals : List Arrival) : Prop where
  registered : ∀ pre, pre <+: arrivals → ∀ os w', Machine.run arrivalStep w pre = .ok (os, w') →
    ∀ p ∈ w'.sent, p.1.IsRequest → p.2.Registered p.1.xid
  firstReply : ∀ pre a mid, pre ++ a :: mid <+: arrivals →
    ∀ os w₀, Machine.run arrivalStep w pre = .ok (os, w₀) →
    ∀ r w₁ new, arrivalStep w₀ a = .ok (r, w₁) → w₁.sent = w₀.sent ++ new →
    ∀ os' w₂, Machine.run arrivalStep w₁ mid = .ok (os', w₂) →
    ∀ p ∈ new, p.1.IsRequest → (∀ b ∈ mid, ¬ b.RepliesWith p.1.xid) →
    ∀ now, now - a.host.now ≥ 0 → now - a.host.now < ccXidTimeout →
    ∃ ret xidTable, ccRecvReplyXid w₂.xidTable p.1.xid now = .ok (ret, xidTable) ∧ ¬ ret < 0

theorem Created.hasType_iff {xid : UInt32} {type type' : UInt8} {body : List UInt8}
    {buf : Buffer} (h : Created host xid type body buf) :
  buf.HasType type' ↔ type = type'
  := by
  simp [Buffer.HasType, h.data, ofpHeader]

/-- A message has the xid that the host made of the number it was created with. -/
theorem Created.xid_eq {xid : UInt32} {type : UInt8} {body : List UInt8} {buf : Buffer}
    (h : Created host xid type body buf) :
  buf.xid = host.wireXid xid
  := by
  simp only [Buffer.xid, h.data, Option.getD_some, Host.wireXid, ofpHeader, Host.bytes]
  split <;> rfl

/-- What a handler does to the xid table and to the send queue. -/
structure Answers (w : World) (a : Arrival) (w' : World) : Prop where
  sound : w'.xidTable.Sound
  kept : ∀ xid, ¬ a.RepliesWith xid → w.xidTable.Registered xid → w'.xidTable.Registered xid
  sent : ∃ new : List Buffer, w'.sent = w.sent ++ new.map (fun buf => (buf, w'.xidTable))

section

variable {w' : World} {a : Arrival}

/-- Nothing is sent and the xid table stays as it is. -/
theorem answers_nothing (hsound : w.xidTable.Sound) (htable : w'.xidTable = w.xidTable)
    (hsent : w'.sent = w.sent) :
  Answers w a w'
  := by
  constructor
  · rw [htable]
    apply hsound
  · intro xid _ hxid
    rw [htable]
    apply hxid
  · exact ⟨[], by simpa using hsent⟩

/-- The xid of a reply is looked up. -/
theorem answers_reply (hsound : w.xidTable.Sound) (hhandler : a.handler ∈ ccReplyHandlers)
    {ret : ℤ} (hreply : ccRecvReplyXid w.xidTable a.xid a.host.now = .ok (ret, w'.xidTable))
    {new : List Buffer} (hsent : w'.sent = w.sent ++ new.map (fun buf => (buf, w'.xidTable))) :
  Answers w a w'
  := by
  obtain ⟨r, t, hreply', -, hsound', hkept⟩ :=
    XidTable.ccRecvReplyXid_registered hsound a.xid a.host.now
  rw [hreply] at hreply'
  obtain ⟨-, rfl⟩ := Prod.mk.inj (Except.ok.inj hreply')
  constructor
  · apply hsound'
  · intro xid hxid
    apply hkept xid
    rintro rfl
    exact absurd ⟨hhandler, rfl⟩ hxid
  · exact ⟨new, hsent⟩

/-- Of the messages that a handler creates, hellos, echo replies and set configs are no
requests. -/
theorem Created.not_isRequest {xid : UInt32} {type : UInt8} {body : List UInt8} {buf : Buffer}
    (h : Created host xid type body buf) (hfeatures : type ≠ ofptFeaturesRequest)
    (hecho : type ≠ ofptEchoRequest) :
  ¬ buf.IsRequest
  := by
  rintro (hrequest | hrequest)
  · apply hfeatures (h.hasType_iff.mp hrequest)
  · apply hecho (h.hasType_iff.mp hrequest)

theorem answers_hello (hsound : w.xidTable.Sound) :
  Program.Ensures (ccRecvHelloMsg.accept a.host a.message) { w with mallocs := a.mallocs }
    (fun _ w' => Answers w a w')
  := by
  apply ccRecvHelloMsg_ensures.mono
  rintro _ w' ⟨-, htable, new, hsends, -⟩
  have htable' : w'.xidTable = w.xidTable := htable
  constructor
  · rw [htable']
    apply hsound
  · intro xid _ hxid
    rw [htable']
    apply hxid
  · use new
    rw [htable']
    apply hsends.sent

theorem answers_echoRequest (hsound : w.xidTable.Sound) :
  Program.Ensures (ccRecvEchoRequest.accept a.host a.message) { w with mallocs := a.mallocs }
    (fun _ w' => Answers w a w')
  := by
  apply ccRecvEchoRequest_ensures.mono
  rintro _ w' ⟨-, xid, -, ret, hsend, new, hsends, -⟩
  obtain ⟨hsound', hkept⟩ := XidTable.ccSendReqXid_registered hsound hsend
  exact ⟨hsound', fun xid _ => hkept xid, new, hsends.sent⟩

theorem answers_echo (hsound : w.xidTable.Sound) (hreplies : a.handler ∈ ccReplyHandlers) :
  Program.Ensures (acceptReplyForEcho a.host a.message) { w with mallocs := a.mallocs }
    (fun _ w' => Answers w a w')
  := by
  apply acceptReplyForEcho_ensures.mono
  rintro _ w' ⟨-, ret, hreply, new, hsends, -⟩
  exact answers_reply hsound hreplies hreply hsends.sent

theorem answers_features (hsound : w.xidTable.Sound) (hreplies : a.handler ∈ ccReplyHandlers) :
  Program.Ensures (ccRecvFeaturesReply.accept a.host a.message) { w with mallocs := a.mallocs }
    (fun _ w' => Answers w a w')
  := by
  apply ccRecvFeaturesReply_ensures.mono
  rintro _ w' ⟨-, ⟨ret, hreply⟩, new, hsends, -⟩
  exact answers_reply hsound hreplies hreply hsends.sent

theorem answers_error (hsound : w.xidTable.Sound) :
  Program.Ensures (ccRecvErrMsg.accept a.host a.message) { w with mallocs := a.mallocs }
    (fun _ w' => Answers w a w')
  := by
  apply ccRecvErrMsg_ensures.mono
  rintro _ w' ⟨-, htable, hsends⟩
  apply answers_nothing hsound htable
  simpa using hsends.sent

theorem answers_forApp {failed : ℤ → Bool} (hsound : w.xidTable.Sound)
    (hfailed : failed ccEErr = true) :
  Program.Ensures (acceptForApp failed a.host a.message) { w with mallocs := a.mallocs }
    (fun _ w' => Answers w a w')
  := by
  apply (acceptForApp_ensures hfailed).mono
  rintro _ w' ⟨-, htable, hsends⟩
  apply answers_nothing hsound htable
  simpa using hsends.sent

theorem answers_replyForApp {rejected failed : ℤ → Bool} (hsound : w.xidTable.Sound)
    (hreplies : a.handler ∈ ccReplyHandlers) :
  Program.Ensures (acceptReplyForApp rejected failed a.host a.message)
    { w with mallocs := a.mallocs } (fun _ w' => Answers w a w')
  := by
  apply acceptReplyForApp_ensures.mono
  rintro _ w' ⟨⟨ret, hreply⟩, hsends⟩
  exact answers_reply hsound hreplies hreply hsends.sent

/-- What becomes of a message that its handler rejects, and of one that it accepts. -/
theorem arrivalStep_cases {Q : World → Prop}
    (hrejected : ¬ a.Accepted → Q (World.release { w with mallocs := a.mallocs } a.message))
    (haccepted : a.Accepted → Program.Ensures (a.handler.accept a.host a.message)
      { w with mallocs := a.mallocs } (fun _ w' => Q w'))
    {ret : ℤ} (hstep : arrivalStep w a = .ok (ret, w')) :
  Q w'
  := by
  have hensures : Program.Ensures (a.handler.recv a.host a.message)
      { w with mallocs := a.mallocs } (fun _ w' => Q w') := by
    apply RecvHandler.recv_ensures
    · intro hrejects
      exact hrejected (fun haccepts => haccepts.not_rejects hrejects)
    · exact haccepted
  apply Program.ensures_iff.mp hensures ret w' hstep

/-- Every handler keeps the xids registered but that of a reply. -/
theorem arrivalStep_answers (hhandler : a.handler ∈ ccRecvHandlers) (hsound : w.xidTable.Sound)
    {ret : ℤ} (hstep : arrivalStep w a = .ok (ret, w')) :
  Answers w a w'
  := by
  apply arrivalStep_cases _ _ hstep
  · intro _
    exact answers_nothing hsound rfl rfl
  · intro _
    obtain ⟨handler, message, host, mallocs⟩ := a
    simp only [ccRecvHandlers, List.mem_cons, List.not_mem_nil, or_false] at hhandler
    rcases hhandler with rfl | rfl | rfl | rfl | rfl | rfl | rfl | rfl | rfl | rfl | rfl | rfl | rfl
    · exact answers_hello hsound
    · exact answers_error hsound
    · exact answers_echoRequest hsound
    · exact answers_echo hsound (by simp [ccReplyHandlers])
    · exact answers_forApp hsound rfl
    · exact answers_echo hsound (by simp [ccReplyHandlers])
    · exact answers_forApp hsound rfl
    · exact answers_replyForApp hsound (by simp [ccReplyHandlers])
    · exact answers_features hsound (by simp [ccReplyHandlers])
    · exact answers_forApp hsound rfl
    · exact answers_forApp hsound rfl
    · exact answers_replyForApp hsound (by simp [ccReplyHandlers])
    · exact answers_replyForApp hsound (by simp [ccReplyHandlers])

/-- Whatever other messages come in, a registered xid stays registered until a reply carries
it. -/
theorem registered_run {xid : UInt32} (hsound : w.xidTable.Sound)
    (hxid : w.xidTable.Registered xid) {arrivals : List Arrival}
    (hhandlers : ∀ a ∈ arrivals, a.handler ∈ ccRecvHandlers)
    (hreplies : ∀ a ∈ arrivals, ¬ a.RepliesWith xid) {rets : List ℤ}
    (hrun : Machine.run arrivalStep w arrivals = .ok (rets, w')) :
  w'.xidTable.Sound ∧ w'.xidTable.Registered xid
  := by
  apply Machine.Throughout.run_invariant
    (R := fun w => w.xidTable.Sound ∧ w.xidTable.Registered xid)
    (G := fun _ a => a.handler ∈ ccRecvHandlers ∧ ¬ a.RepliesWith xid) _ ⟨hsound, hxid⟩ _ hrun
  · rintro w a ret w' ⟨hsound, hxid⟩ ⟨hhandler, hreply⟩ hstep
    have hanswers := arrivalStep_answers hhandler hsound hstep
    exact ⟨hanswers.sound, hanswers.kept xid hreply hxid⟩
  · apply Machine.throughout_of_forall
    intro a ha
    exact ⟨hhandlers a ha, hreplies a ha⟩

end

/-- A hello with the xid 5. -/
def helloArrival : Arrival where
  handler := ccRecvHelloMsg
  message := ⟨0, some [1, 0, 0, 8, 0, 0, 0, 5], 8⟩
  host := Host.plain false
  mallocs := fun _ => true

/-- An echo request with the xid 6. -/
def echoArrival : Arrival where
  handler := ccRecvEchoRequest
  message := ⟨1, some [1, 2, 0, 8, 0, 0, 0, 6], 8⟩
  host := Host.plain false
  mallocs := fun _ => true

end CcController
