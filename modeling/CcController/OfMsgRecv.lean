import CcController.OfMsgCheck
import CcController.OfMsgCreate

/-!
# Receiving messages

A handler validates the message it is given, and if it is accepted does what the message
asks for. In the end it has to release the buffer of the message, or to hand it on.
-/

namespace CcController

/-! ### Parts of handlers -/

/-- A handler: the validator it calls first, and what it does with an accepted message. -/
structure RecvHandler where
  validate : Option ℕ → MessageReader ℤ
  accept : Host → Buffer → Action ℤ

/-- A message that is not accepted is released. -/
def RecvHandler.recv (handler : RecvHandler) (host : Host) (recvData : Buffer) : Action ℤ := do
  let ret ← look host recvData (handler.validate (some recvData.length))
  if ret < 0 then do
    freeBuffer (some recvData)
    pure ccEErr
  else handler.accept host recvData

/-- `cc_sw_info->xid_latest = cc_xid_alloc(xid);` -/
def setXidLatest (xid : UInt32) : Action Unit :=
  Program.update (fun w => { w with xidLatest := ccXidAlloc xid })

/-- Create a message, put it on the send queue, and go on with `rest`. Where one of these
fails, the message received is released. -/
def sendThen (recvData : Buffer) (create : Action (Option Buffer)) (rest : ℤ → Action ℤ) :
    Action ℤ := do
  let sendBuf ← create
  match sendBuf with
  | none => do
    freeBuffer (some recvData)
    pure ccEErr
  | some sendBuf => do
    let ret ← ccInsertToSendQueue sendBuf
    if ret < 0 then do
      freeBuffer (some sendBuf)
      freeBuffer (some recvData)
      pure ccEErr
    else rest ret

/-- Release the message received and return. -/
def releaseThen (recvData : Buffer) (ret : ℤ) : Action ℤ := do
  freeBuffer (some recvData)
  pure ret

/-- Look up the xid of a reply and go on with `rest`, unless the result is one that is
`rejected`: then the message is released. -/
def replyThen (host : Host) (recvData : Buffer) (xid : UInt32) (rejected : ℤ → Bool)
    (rest : Action ℤ) : Action ℤ := do
  let world ← Program.state
  let (ret, xidTable) ← Program.lift (ccRecvReplyXid world.xidTable xid host.now)
  Program.update (fun w => { w with xidTable := xidTable })
  if rejected ret then releaseThen recvData ccEErr
  else rest

/-- Hand the message on to the application, and release it when that has `failed`. -/
def toApp (failed : ℤ → Bool) (recvData : Buffer) : Action ℤ := do
  let ret ← ccInsertToAppQueue recvData
  if failed ret then releaseThen recvData ccEErr
  else pure ccENone

/-- What the handlers do that only hand a message on. -/
def acceptForApp (failed : ℤ → Bool) (host : Host) (recvData : Buffer) : Action ℤ := do
  let xid ← look host recvData (ntohl 4)
  setXidLatest xid
  toApp failed recvData

/-- What the handlers do that hand on a reply to a request. -/
def acceptReplyForApp (rejected failed : ℤ → Bool) (host : Host) (recvData : Buffer) :
    Action ℤ := do
  let xid ← look host recvData (ntohl 4)
  replyThen host recvData xid rejected do
  setXidLatest xid
  toApp failed recvData

/-- What the handlers do that answer a reply with the next echo request. -/
def acceptReplyForEcho (host : Host) (recvData : Buffer) : Action ℤ := do
  let xid ← look host recvData (ntohl 4)
  replyThen host recvData xid (fun ret => ret < 0) do
  setXidLatest xid
  let world ← Program.state
  sendThen recvData (ccCreateEchoRequest host world.xidLatest (some recvData)) fun _ =>
  releaseThen recvData ccENone

/-! ### The handlers -/

def ccRecvHelloMsg : RecvHandler where
  validate := validateHello
  accept host recvData := do
    let xid ← look host recvData (ntohl 4)
    setXidLatest xid
    let world ← Program.state
    sendThen recvData (ccCreateHello host world.xidLatest) fun _ => do
    Program.update (fun w => { w with xidLatest := w.xidLatest + 1 })
    let world ← Program.state
    sendThen recvData (ccCreateFeaturesRequest host world.xidLatest) fun ret =>
    releaseThen recvData ret

/-- The fields that are copied from the match of the flow modification that an error message
should have in its data. -/
def errFlow : MessageReader Unit := do
  -- `wildcards`, `in_port`, `dl_src`, `dl_dst`, `dl_vlan` and `dl_vlan_pcp`
  let _ ← bcopy 20 21
  -- `dl_type`
  let _ ← bcopy 42 2
  -- `nw_proto`
  let _ ← bcopy 45 1
  -- `nw_src`, `nw_dst`, `tp_src` and `tp_dst`
  let _ ← bcopy 48 12
  pure ()

def ccRecvErrMsg : RecvHandler where
  validate := validateError
  accept host recvData := do
    let xid ← look host recvData (ntohl 4)
    setXidLatest xid
    let type ← look host recvData (ntohs 8)
    if type = ofpetFlowModFailed then do
      look host recvData errFlow
      -- `cc_dump_flow` writes through a pointer that is never set, or has it logged
      Program.stop .wild
    else releaseThen recvData ccENone

/-- The number that the four bytes at `p` are to the host. -/
def hostLong (host : Host) (p : ℕ) : MessageReader UInt32 := do
  let bytes ← bcopy p 4
  let mem := (if host.littleEndian then bytes.reverse else bytes).getD
  pure (be32 (fun i => mem i 0) 0)

/-- The xid is not converted from network order. What comes back from the xid table is the
xid of the reply. -/
def ccRecvEchoRequest : RecvHandler where
  validate := validateEchoRequest
  accept host recvData := do
    let xid ← look host recvData (hostLong host 4)
    let ok ← malloc
    let world ← Program.state
    let (ret, xidTable) ← Program.lift (ccSendReqXid world.xidTable xid ok host.now)
    Program.update (fun w => { w with
      xidTable := xidTable
      xidLatest := UInt32.ofInt ret })
    let world ← Program.state
    sendThen recvData (ccCreateEchoReply host world.xidLatest (some recvData)) fun _ =>
    releaseThen recvData ccENone

def ccRecvEchoReply : RecvHandler where
  validate := validateEchoReply
  accept := acceptReplyForEcho

def ccRecvVendor : RecvHandler where
  validate := validateVendor
  accept := acceptForApp (fun ret => ret < 0)

def ccRecvGetConfigReply : RecvHandler where
  validate := validateGetConfigReply
  accept := acceptReplyForEcho

/-- The validator is that of another type of message. -/
def ccRecvFlowRemoved : RecvHandler where
  validate := validateFlowMod
  accept := acceptForApp (fun ret => ret = ccEErr)

def ccRecvBarrierReply : RecvHandler where
  validate := validateBarrierReply
  accept := acceptReplyForApp (fun ret => ret < 0) (fun ret => ret = ccEErr)

/-- What a features reply tells about the switch, as it is stored. The version and the
number of buffers are converted as numbers of another width than they have. -/
def featuresOf (host : Host) : MessageReader EachSw := do
  let dpidHigh ← ntohl 8
  let dpidLow ← ntohl 12
  let version ← Reader.read 0
  let nBuffers ← ntohs (if host.littleEndian then 16 else 18)
  let actions ← ntohl 28
  let capabilities ← ntohl 24
  pure {
    dpid := UInt64.ofNat (dpidHigh.toNat * 2 ^ 32 + dpidLow.toNat)
    version := if host.littleEndian then 0 else version
    nBuffers := nBuffers.toUInt32
    actions := actions
    capabilities := capabilities }

abbrev ccDefaultConfigFlags : UInt16 := 0
abbrev ccDefaultMissSendLen : UInt16 := 128

/-- The validator is that of another type of message. -/
def ccRecvFeaturesReply : RecvHandler where
  validate := validateError
  accept host recvData := do
    let xid ← look host recvData (ntohl 4)
    replyThen host recvData xid (fun ret => ret < 0) do
    setXidLatest xid
    let features ← look host recvData (featuresOf host)
    Program.update (fun w => { w with ccSwitch := features })
    let world ← Program.state
    sendThen recvData
      (ccCreateSetConfig host world.xidLatest ccDefaultConfigFlags ccDefaultMissSendLen) fun _ =>
    releaseThen recvData ccENone

def ccRecvPacketIn : RecvHandler where
  validate := validatePacketIn
  accept := acceptForApp (fun ret => ret < 0)

def ccRecvPortStatus : RecvHandler where
  validate := validatePortStatus
  accept := acceptForApp (fun ret => ret < 0)

def ccRecvStatsReply : RecvHandler where
  validate := validateStatsReply
  accept := acceptReplyForApp (fun ret => ret < 0) (fun ret => ret < 0)

/-- The result of the look-up is taken for a truth value, so it rejects `CC_E_NONE` only. -/
def ccRecvFlowStatsReply : RecvHandler where
  validate := validateFlowStatsReply
  accept := acceptReplyForApp (fun ret => ret = 0) (fun ret => ret < 0)

/-! ### The table of handlers -/

/-- The receive functions of a version. -/
structure CcRecvOps where
  recvHello : Option RecvHandler
  recvError : Option RecvHandler
  recvEchoRequest : Option RecvHandler
  recvEchoReply : Option RecvHandler
  recvVendor : Option RecvHandler
  recvGetConfigReply : Option RecvHandler
  recvFlowRm : Option RecvHandler
  recvBarrierReply : Option RecvHandler
  recvPacketIn : Option RecvHandler
  recvPortStatus : Option RecvHandler
  recvFlowStatsReply : Option RecvHandler

def ccRecvOps : CcRecvOps where
  recvHello := ccRecvHelloMsg
  recvError := ccRecvErrMsg
  recvEchoRequest := ccRecvEchoRequest
  recvEchoReply := ccRecvEchoReply
  recvVendor := ccRecvVendor
  recvGetConfigReply := ccRecvGetConfigReply
  recvFlowRm := ccRecvFlowRemoved
  recvBarrierReply := ccRecvBarrierReply
  recvPacketIn := ccRecvPacketIn
  recvPortStatus := ccRecvPortStatus
  recvFlowStatsReply := ccRecvPortStatus

/-- Every handler there is, in the table or not. -/
def ccRecvHandlers : List RecvHandler :=
  [ccRecvHelloMsg, ccRecvErrMsg, ccRecvEchoRequest, ccRecvEchoReply, ccRecvVendor,
    ccRecvGetConfigReply, ccRecvFlowRemoved, ccRecvBarrierReply, ccRecvFeaturesReply,
    ccRecvPacketIn, ccRecvPortStatus, ccRecvStatsReply, ccRecvFlowStatsReply]

/-! ### What the handlers do -/

/-- The messages that are put on a queue one after the other, and the queue after that. -/
def Queued (queue : MessageQueue Buffer) : List Buffer → MessageQueue Buffer → Prop
  | [], queue' => queue' = queue
  | buf :: bufs, queue' =>
    ∃ ok queue₁, enqueueMessage queue (some buf) ok = .ok (ccENone, queue₁) ∧
      Queued queue₁ bufs queue'

/-- The messages `new` have been put on the send queue while the xid table was `xidTable`. -/
structure World.Sends (w w' : World) (xidTable : XidTable) (new : List Buffer) : Prop where
  queued : Queued w.sendQueue new w'.sendQueue
  sent : w'.sent = w.sent ++ new.map (fun buf => (buf, xidTable))

theorem World.sends_nil {w w' : World} {xidTable : XidTable}
    (hqueue : w'.sendQueue = w.sendQueue) (hsent : w'.sent = w.sent) :
  w.Sends w' xidTable []
  := ⟨hqueue, by simpa using hsent⟩

section

variable {host : Host} {recvData : Buffer} {w : World} {Q : ℤ → World → Prop}

/-- A handler releases a message it rejects, and accepts the others. -/
theorem RecvHandler.recv_ensures {handler : RecvHandler}
    (hrejects : Rejects (handler.validate (some recvData.length)) (recvData.memory host) →
      Q ccEErr (w.release recvData))
    (haccepts : Accepts (handler.validate (some recvData.length)) (recvData.memory host) →
      Program.Ensures (handler.accept host recvData) w Q) :
  Program.Ensures (handler.recv host recvData) w Q
  := by
  simp only [RecvHandler.recv, Program.ends_bind]
  apply ensures_look
  intro ret hret
  apply Program.ends_ite.mpr
  constructor
  · intro hneg
    apply hrejects ⟨ret, hret, hneg⟩
  · intro hpos
    apply haccepts ⟨ret, hret, hpos⟩

theorem ensures_sendThen {create : Action (Option Buffer)} {rest : ℤ → Action ℤ} {xid : UInt32}
    {type : UInt8} {body : List UInt8}
    (hcreate : Program.Ensures create w (Creates host xid type body w))
    (hnone : ∀ w', create w = .ok (none, w') → ∀ mallocs nextBuffer, Q ccEErr
      (World.release { w with mallocs := mallocs, nextBuffer := nextBuffer } recvData))
    (hsome : ∀ buf mallocs nextBuffer ok queue, Created host xid type body buf →
      w.mallocs 2 = true → enqueueMessage w.sendQueue (some buf) ok = .ok (ccENone, queue) →
      Program.Ensures (rest ccENone) { w with
        mallocs := mallocs
        nextBuffer := nextBuffer
        sendQueue := queue
        sent := w.sent ++ [(buf, w.xidTable)] } Q) :
  Program.Ensures (sendThen recvData create rest) w Q
  := by
  simp only [sendThen, Program.ends_bind]
  apply hcreate.returning.mono
  rintro (_ | buf) w' ⟨⟨hw', hcreated⟩, hreturns⟩
  · rw [hw']
    apply hnone w' hreturns
  · rw [hw']
    simp only [Program.ends_bind]
    apply ccInsertToSendQueue_ensures
    intro ok queue henqueue
    apply hsome buf _ _ ok queue (hcreated buf rfl).1 (hcreated buf rfl).2 henqueue

theorem ensures_replyThen {xid : UInt32} {rejected : ℤ → Bool} {rest : Action ℤ}
    (hrejected : ∀ ret xidTable, ccRecvReplyXid w.xidTable xid host.now = .ok (ret, xidTable) →
      rejected ret = true → Q ccEErr (World.release { w with xidTable := xidTable } recvData))
    (hrest : ∀ ret xidTable, ccRecvReplyXid w.xidTable xid host.now = .ok (ret, xidTable) →
      rejected ret = false → Program.Ensures rest { w with xidTable := xidTable } Q) :
  Program.Ensures (replyThen host recvData xid rejected rest) w Q
  := by
  simp only [replyThen, Program.ends_bind, Program.ends_state, Program.ensures_lift]
  rintro ⟨ret, xidTable⟩ hreply
  simp only [Program.ends_update, Program.ends_ite, releaseThen, Program.ends_bind,
    ends_freeBuffer, Program.ends_pure]
  constructor
  · intro hret
    apply hrejected ret xidTable hreply hret
  · intro hret
    apply hrest ret xidTable hreply
    simpa using hret

/-- A message handed on to the application is released there and, since that counts as a
failure, once more. -/
theorem acceptForApp_ensures {failed : ℤ → Bool} (hfailed : failed ccEErr = true) :
  Program.Ensures (acceptForApp failed host recvData) w (fun _ w' =>
    w'.released = w.released ++ [recvData.addr, recvData.addr] ∧
    w'.xidTable = w.xidTable ∧ w.Sends w' w.xidTable [])
  := by
  simp only [acceptForApp, Program.ends_bind]
  apply ensures_look
  intro xid _
  simp only [setXidLatest, Program.ends_update, toApp, ccInsertToAppQueue, Program.ends_bind,
    ends_freeBuffer, Program.ends_pure, Program.ends_ite, hfailed, releaseThen, not_true,
    true_implies, false_implies, and_true]
  exact ⟨by simp, rfl, World.sends_nil rfl rfl⟩

theorem acceptReplyForApp_ensures {rejected failed : ℤ → Bool} :
  Program.Ensures (acceptReplyForApp rejected failed host recvData) w (fun _ w' =>
    (∃ ret, ccRecvReplyXid w.xidTable (be32 (recvData.memory host) 4) host.now
      = .ok (ret, w'.xidTable)) ∧ w.Sends w' w'.xidTable [])
  := by
  simp only [acceptReplyForApp, Program.ends_bind]
  apply ensures_look
  intro xid hxid
  obtain rfl := returns_ntohl.mp hxid
  apply ensures_replyThen
  · intro ret xidTable hreply _
    exact ⟨⟨ret, hreply⟩, World.sends_nil rfl rfl⟩
  · intro ret xidTable hreply _
    simp only [setXidLatest, Program.ends_bind, Program.ends_update, toApp, ccInsertToAppQueue,
      ends_freeBuffer, Program.ends_pure, Program.ends_ite, releaseThen]
    exact ⟨fun _ => ⟨⟨ret, hreply⟩, World.sends_nil rfl rfl⟩,
      fun _ => ⟨⟨ret, hreply⟩, World.sends_nil rfl rfl⟩⟩

/-- A reply whose xid is not rejected is answered with the next echo request, unless the block
for its header cannot be allocated. -/
theorem acceptReplyForEcho_answers :
  Program.Ensures (acceptReplyForEcho host recvData) w (fun _ w' =>
    w'.released = w.released ++ [recvData.addr] ∧
    ∃ ret, ccRecvReplyXid w.xidTable (be32 (recvData.memory host) 4) host.now
      = .ok (ret, w'.xidTable) ∧
    ∃ new, w.Sends w' w'.xidTable new ∧ (
      (ret < 0 ∨ w.mallocs 2 = false) ∧ new = [] ∨
      ¬ ret < 0 ∧ w.mallocs 2 = true ∧ ∃ buf, new = [buf] ∧
        Created host (ccXidAlloc (be32 (recvData.memory host) 4)) ofptEchoRequest
          (echoBody host recvData) buf))
  := by
  simp only [acceptReplyForEcho, Program.ends_bind]
  apply ensures_look
  intro xid hxid
  obtain rfl := returns_ntohl.mp hxid
  apply ensures_replyThen
  · intro ret xidTable hreply hret
    exact ⟨rfl, ret, hreply, [], World.sends_nil rfl rfl, .inl ⟨.inl (by simpa using hret), rfl⟩⟩
  · intro ret xidTable hreply hret
    simp only [setXidLatest, Program.ends_bind, Program.ends_update, Program.ends_state]
    apply ensures_sendThen ccCreateEchoRequest_creates
    · intro w' hnone mallocs nextBuffer
      have hfails := Program.ensures_iff.mp ccCreateEchoRequest_none _ _ hnone rfl
      exact ⟨rfl, ret, hreply, [], World.sends_nil rfl rfl, .inl ⟨.inr hfails, rfl⟩⟩
    · intro buf mallocs nextBuffer ok queue hcreated hok henqueue
      simp only [releaseThen, Program.ends_bind, ends_freeBuffer, Program.ends_pure]
      use rfl, ret, hreply, [buf], ⟨⟨ok, queue, henqueue, rfl⟩, rfl⟩
      exact .inr ⟨by simpa using hret, hok, buf, rfl, hcreated⟩

theorem acceptReplyForEcho_ensures :
  Program.Ensures (acceptReplyForEcho host recvData) w (fun _ w' =>
    w'.released = w.released ++ [recvData.addr] ∧
    ∃ ret, ccRecvReplyXid w.xidTable (be32 (recvData.memory host) 4) host.now
      = .ok (ret, w'.xidTable) ∧
    ∃ new, w.Sends w' w'.xidTable new ∧ ∀ buf ∈ new, ¬ ret < 0 ∧
      w.mallocs 2 = true ∧ Created host (ccXidAlloc (be32 (recvData.memory host) 4)) ofptEchoRequest
        (echoBody host recvData) buf)
  := by
  apply acceptReplyForEcho_answers.mono
  rintro _ w' ⟨hreleased, ret, hreply, new, hsends, ⟨-, rfl⟩ | ⟨hret, hok, buf, rfl, hcreated⟩⟩
  · exact ⟨hreleased, ret, hreply, [], hsends, by simp⟩
  · use hreleased, ret, hreply, [buf], hsends
    intro _ hbuf
    obtain rfl := List.mem_singleton.mp hbuf
    exact ⟨hret, hok, hcreated⟩

/-- A hello is answered with a hello and a features request, unless the block for the header
of the former cannot be allocated. -/
theorem ccRecvHelloMsg_answers :
  Program.Ensures (ccRecvHelloMsg.accept host recvData) w (fun _ w' =>
    w'.released = w.released ++ [recvData.addr] ∧ w'.xidTable = w.xidTable ∧
    ∃ new, w.Sends w' w.xidTable new ∧ (
      w.mallocs 2 = false ∧ new = [] ∨
      w.mallocs 2 = true ∧ ∃ hello features, new = [hello, features] ∧
        Created host (ccXidAlloc (be32 (recvData.memory host) 4)) ofptHello [] hello ∧
        Created host (ccXidAlloc (be32 (recvData.memory host) 4) + 1) ofptFeaturesRequest []
          features))
  := by
  simp only [ccRecvHelloMsg, Program.ends_bind]
  apply ensures_look
  intro xid hxid
  obtain rfl := returns_ntohl.mp hxid
  simp only [setXidLatest, Program.ends_update, Program.ends_state]
  apply ensures_sendThen ccCreateHello_creates
  · intro w' hnone mallocs nextBuffer
    have hfails := Program.ensures_iff.mp ccCreateHello_none _ _ hnone rfl
    exact ⟨rfl, rfl, [], World.sends_nil rfl rfl, .inl ⟨hfails, rfl⟩⟩
  · intro hello mallocs nextBuffer ok queue hhello hmallocs henqueue
    simp only [Program.ends_bind, Program.ends_update, Program.ends_state]
    apply ensures_sendThen ccCreateFeaturesRequest_creates
    · intro w' hnone
      exact absurd rfl (Program.ensures_iff.mp ccCreateFeaturesRequest_some _ _ hnone)
    · intro features mallocs nextBuffer ok' queue' hfeatures _ henqueue'
      simp only [releaseThen, Program.ends_bind, ends_freeBuffer, Program.ends_pure]
      exact ⟨rfl, rfl, [hello, features],
        ⟨⟨ok, queue, henqueue, ok', queue', henqueue', rfl⟩, by simp⟩,
        .inr ⟨hmallocs, hello, features, rfl, hhello, hfeatures⟩⟩

theorem ccRecvHelloMsg_ensures :
  Program.Ensures (ccRecvHelloMsg.accept host recvData) w (fun _ w' =>
    w'.released = w.released ++ [recvData.addr] ∧ w'.xidTable = w.xidTable ∧
    ∃ new, w.Sends w' w.xidTable new ∧ ∀ buf ∈ new, w.mallocs 2 = true ∧ (
      Created host (ccXidAlloc (be32 (recvData.memory host) 4)) ofptHello [] buf ∨
      Created host (ccXidAlloc (be32 (recvData.memory host) 4) + 1) ofptFeaturesRequest [] buf))
  := by
  apply ccRecvHelloMsg_answers.mono
  rintro _ w' ⟨hreleased, htable, new, hsends, ⟨-, rfl⟩ | ⟨hok, hello, features, rfl, h⟩⟩
  · exact ⟨hreleased, htable, [], hsends, by simp⟩
  · use hreleased, htable, [hello, features], hsends
    intro _ hbuf
    rcases List.mem_pair.mp hbuf with rfl | rfl
    · exact ⟨hok, .inl h.1⟩
    · exact ⟨hok, .inr h.2⟩

/-- An error message is released, unless it is about a flow modification. -/
theorem ccRecvErrMsg_ensures :
  Program.Ensures (ccRecvErrMsg.accept host recvData) w (fun _ w' =>
    w'.released = w.released ++ [recvData.addr] ∧ w'.xidTable = w.xidTable ∧
    w.Sends w' w.xidTable [])
  := by
  simp only [ccRecvErrMsg, Program.ends_bind]
  apply ensures_look
  intro xid _
  simp only [setXidLatest, Program.ends_update]
  apply ensures_look
  intro type _
  simp only [Program.ends_ite, Program.ends_bind, Program.ends_stop, releaseThen,
    ends_freeBuffer, Program.ends_pure]
  constructor
  · intro _
    apply ensures_look
    intro _ _
    trivial
  · intro _
    exact ⟨rfl, rfl, World.sends_nil rfl rfl⟩

/-- An echo request has the xid after its own registered, and is answered with an echo reply
that has the result of that for an xid and the whole request for a body. -/
theorem ccRecvEchoRequest_ensures :
  Program.Ensures (ccRecvEchoRequest.accept host recvData) w (fun _ w' =>
    w'.released = w.released ++ [recvData.addr] ∧
    ∃ xid, (hostLong host 4).Returns (recvData.memory host) xid ∧
    ∃ ret, ccSendReqXid w.xidTable xid (w.mallocs 0) host.now = .ok (ret, w'.xidTable) ∧
    ∃ new, w.Sends w' w'.xidTable new ∧ (new = [] ∨ ∃ buf, new = [buf] ∧
      Created host (UInt32.ofInt ret) ofptEchoReply (echoBody host recvData) buf))
  := by
  simp only [ccRecvEchoRequest, Program.ends_bind]
  apply ensures_look
  intro xid hxid
  simp only [ends_malloc, Program.ends_state, Program.ensures_lift]
  rintro ⟨ret, xidTable⟩ hsend
  simp only [Program.ends_update]
  apply ensures_sendThen ccCreateEchoReply_creates
  · intro _ _ mallocs nextBuffer
    exact ⟨rfl, xid, hxid, ret, hsend, [], World.sends_nil rfl rfl, .inl rfl⟩
  · intro buf mallocs nextBuffer ok queue hcreated _ henqueue
    simp only [releaseThen, Program.ends_bind, ends_freeBuffer, Program.ends_pure]
    exact ⟨rfl, xid, hxid, ret, hsend, [buf], ⟨⟨ok, queue, henqueue, rfl⟩, rfl⟩,
      .inr ⟨buf, rfl, hcreated⟩⟩

theorem ccRecvFeaturesReply_ensures :
  Program.Ensures (ccRecvFeaturesReply.accept host recvData) w (fun _ w' =>
    w'.released = w.released ++ [recvData.addr] ∧
    (∃ ret, ccRecvReplyXid w.xidTable (be32 (recvData.memory host) 4) host.now
      = .ok (ret, w'.xidTable)) ∧
    ∃ new, w.Sends w' w'.xidTable new ∧ ∀ buf ∈ new, ∃ xid body,
      Created host xid ofptSetConfig body buf)
  := by
  simp only [ccRecvFeaturesReply, Program.ends_bind]
  apply ensures_look
  intro xid hxid
  obtain rfl := returns_ntohl.mp hxid
  apply ensures_replyThen
  · intro ret xidTable hreply _
    exact ⟨rfl, ⟨ret, hreply⟩, [], World.sends_nil rfl rfl, by simp⟩
  · intro ret xidTable hreply _
    simp only [setXidLatest, Program.ends_bind, Program.ends_update]
    apply ensures_look
    intro features _
    simp only [Program.ends_state]
    apply ensures_sendThen ccCreateSetConfig_creates
    · intro _ _ mallocs nextBuffer
      exact ⟨rfl, ⟨ret, hreply⟩, [], World.sends_nil rfl rfl, by simp⟩
    · intro buf mallocs nextBuffer ok queue hcreated _ henqueue
      simp only [releaseThen, Program.ends_bind, ends_freeBuffer, Program.ends_pure]
      use rfl, ⟨ret, hreply⟩, [buf], ⟨⟨ok, queue, henqueue, rfl⟩, rfl⟩
      intro _ hbuf
      obtain rfl := List.mem_singleton.mp hbuf
      exact ⟨_, _, hcreated⟩

end

end CcController
