import CcController.ByteOrder
import CcController.Error
import CcController.OpenFlow

/-!
# Checking messages

The validators get a pointer to a message: `none` is the null pointer, `some length` a
message of that length, whose bytes are those of the memory read. They return an error
below `0`, or `0`.
-/

namespace CcController

/-- `if ( message == NULL ) return CC_E_ERR;` and then `rest`. -/
def unlessNull (message : Option ℕ) (rest : ℕ → MessageReader ℤ) : MessageReader ℤ :=
  match message with
  | none => pure ccEErr
  | some length => rest length

theorem unlessNull_some {length : ℕ} {rest : ℕ → MessageReader ℤ} :
  unlessNull (some length) rest = rest length
  := rfl

/-- `ret = check; if ( ret < 0 ) return ret;` and then `rest`. -/
def passing (check rest : MessageReader ℤ) : MessageReader ℤ := do
  let ret ← check
  if ret < 0 then pure ret else rest

def validateHeader (message : Option ℕ) (type : UInt8) (minLength maxLength : ℕ) :
    MessageReader ℤ :=
  unlessNull message fun length => do
  if length < 8 then pure errorTooShortMessage else do
  let version ← Reader.read 0
  if version ≠ ofpVersion then pure errorUnsupportedVersion else do
  let headerType ← Reader.read 1
  if headerType > ofptQueueGetConfigReply then pure errorUndefinedType
  else if headerType ≠ type then pure errorInvalidType else do
  let headerLength ← ntohs 2
  if headerLength.toNat > maxLength then pure errorTooLongMessage
  else if headerLength.toNat < minLength then pure errorTooShortMessage
  else if headerLength.toNat < length then pure errorTooLongMessage
  else if headerLength.toNat > length then pure errorTooShortMessage
  else if length > maxLength then pure errorTooLongMessage
  else pure 0

/-- The length field of a header that has been checked. -/
def headerLength : MessageReader UInt16 :=
  ntohs 2

/-! ### Messages without a body, or with one that is not checked -/

def validateHello (message : Option ℕ) : MessageReader ℤ :=
  unlessNull message fun _ => validateHeader message ofptHello 8 8

def validateError (message : Option ℕ) : MessageReader ℤ :=
  unlessNull message fun _ =>
  passing (validateHeader message ofptError 12 ushrtMax.toNat) (pure 0)

/-- A message of the type `type` whose body may be anything: the header is checked, and
then once more that its length is the length of the message. -/
def validateAnyBody (message : Option ℕ) (type : UInt8) (minLength : ℕ) : MessageReader ℤ :=
  unlessNull message fun length =>
  passing (validateHeader message type minLength ushrtMax.toNat) do
  let headerLength ← headerLength
  if length ≠ headerLength.toNat then pure errorInvalidLength else pure 0

def validateEchoRequest (message : Option ℕ) : MessageReader ℤ :=
  validateAnyBody message ofptEchoRequest 8

def validateEchoReply (message : Option ℕ) : MessageReader ℤ :=
  validateAnyBody message ofptEchoReply 8

def validateVendor (message : Option ℕ) : MessageReader ℤ :=
  validateAnyBody message ofptVendor 12

def validateFeaturesRequest (message : Option ℕ) : MessageReader ℤ :=
  unlessNull message fun _ => validateHeader message ofptFeaturesRequest 8 8

def validateGetConfigRequest (message : Option ℕ) : MessageReader ℤ :=
  unlessNull message fun _ => validateHeader message ofptGetConfigRequest 8 8

def validateBarrierRequest (message : Option ℕ) : MessageReader ℤ :=
  validateHeader message ofptBarrierRequest 8 8

def validateBarrierReply (message : Option ℕ) : MessageReader ℤ :=
  validateHeader message ofptBarrierReply 8 8

/-! ### Ports -/

def validatePhyPortNo (portNo : UInt16) : ℤ :=
  if portNo = 0 ∨ portNo > ofppMax ∧ portNo < ofppInPort then errorInvalidPortNo else 0

def validatePhyPort (port : ℕ) : MessageReader ℤ := do
  let portH ← ntohPhyPort port
  passing (pure (validatePhyPortNo portH.portNo)) do
  if portH.config &&& ~~~portConfig ≠ 0 then pure errorInvalidPortConfig
  else if portH.state &&& ~~~portState ≠ 0 then pure errorInvalidPortState
  else if portH.curr &&& ~~~portFeatures ≠ 0 ∨ portH.advertised &&& ~~~portFeatures ≠ 0
      ∨ portH.supported &&& ~~~portFeatures ≠ 0 ∨ portH.peer &&& ~~~portFeatures ≠ 0 then
    pure errorInvalidPortFeatures
  else pure 0

/-- Check `n` entries of `size` bytes each from `p` on, up to the first that fails. -/
def validateEach (entry : ℕ → MessageReader ℤ) (size p : ℕ) : ℕ → MessageReader ℤ
  | 0 => pure 0
  | n + 1 => passing (entry p) (validateEach entry size (p + size) n)

def validatePhyPorts (ports nPorts : ℕ) : MessageReader ℤ :=
  validateEach validatePhyPort 48 ports nPorts

def validateFeaturesReply (message : Option ℕ) : MessageReader ℤ :=
  unlessNull message fun _ =>
  passing (validateHeader message ofptFeaturesReply 32 ushrtMax.toNat) do
  let nTables ← Reader.read 20
  if nTables = 0 then pure errorNoTableAvailable else do
  let length ← headerLength
  let portLength := length - 32
  if portLength.toNat % 48 ≠ 0 then pure errorInvalidLength
  else if portLength > 0 then
    passing (validatePhyPorts 32 (portLength.toNat / 48)) (pure 0)
  else pure 0

def validatePortStatus (message : Option ℕ) : MessageReader ℤ :=
  unlessNull message fun _ =>
  passing (validateHeader message ofptPortStatus 64 64) do
  let reason ← Reader.read 8
  if reason > ofpprModify then pure errorInvalidPortStatusReason
  else passing (validatePhyPort 16) (pure 0)

def validatePortMod (message : Option ℕ) : MessageReader ℤ :=
  unlessNull message fun _ =>
  passing (validateHeader message ofptPortMod 32 32) do
  let portNo ← ntohs 8
  passing (pure (validatePhyPortNo portNo)) do
  if portNo > ofppMax ∧ portNo ≠ ofppLocal then pure errorInvalidPortNo else do
  let config ← ntohl 16
  if config &&& ~~~portConfig ≠ 0 then pure errorInvalidPortConfig else do
  let mask ← ntohl 20
  if mask &&& ~~~portConfig ≠ 0 then pure errorInvalidPortMask else do
  let advertise ← ntohl 24
  -- the mask is that of the configuration bits
  if advertise &&& ~~~portConfig ≠ 0 then pure errorInvalidPortFeatures
  else pure 0

/-! ### Configuration and packets -/

def validateSwitchConfig (message : Option ℕ) (type : UInt8) : MessageReader ℤ :=
  unlessNull message fun _ =>
  passing (validateHeader message type 12 12) do
  let flags ← ntohs 8
  if flags > ofpcFragMask then pure errorInvalidSwitchConfig else pure 0

def validateGetConfigReply (message : Option ℕ) : MessageReader ℤ :=
  unlessNull message fun _ => validateSwitchConfig message ofptGetConfigReply

def validateSetConfig (message : Option ℕ) : MessageReader ℤ :=
  unlessNull message fun _ => validateSwitchConfig message ofptSetConfig

def validatePacketIn (message : Option ℕ) : MessageReader ℤ :=
  unlessNull message fun _ =>
  passing (validateHeader message ofptPacketIn 18 ushrtMax.toNat) do
  let inPort ← ntohs 14
  passing (pure (validatePhyPortNo inPort)) do
  let reason ← Reader.read 16
  if reason > ofprAction then pure errorInvalidPacketInReason else do
  let _ ← headerLength
  pure 0

/-! ### Matches -/

def validateWildcards (wildcards : UInt32) : ℤ :=
  if wildcards &&& ~~~ofpfwAll ≠ 0 then errorInvalidWildcards else 0

def validateVlanVid (vid : UInt16) : ℤ :=
  if vid ≠ ushrtMax ∧ vid &&& ~~~vlanVidMask ≠ 0 then errorInvalidVlanVid else 0

def validateVlanPcp (pcp : UInt8) : ℤ :=
  if pcp &&& ~~~vlanPcpMask ≠ 0 then errorInvalidVlanPcp else 0

def validateNwTos (tos : UInt8) : ℤ :=
  if tos &&& ~~~nwTosMask ≠ 0 then errorInvalidNwTos else 0

def validateMatch (m : OfpMatch) : ℤ :=
  if validateWildcards m.wildcards < 0 then validateWildcards m.wildcards
  else if validateVlanVid m.dlVlan < 0 then validateVlanVid m.dlVlan
  else if validateVlanPcp m.dlVlanPcp < 0 then validateVlanPcp m.dlVlanPcp
  else if validateNwTos m.nwTos < 0 then validateNwTos m.nwTos
  else 0

/-- The check, common to three validators, that a flow without wildcards has the highest
priority; the priority at `p` is read only then. -/
def validateFlowPriority (m : OfpMatch) (p : ℕ) : MessageReader ℤ :=
  if m.wildcards &&& ofpfwAll = 0 then do
    let priority ← ntohs p
    if priority ≠ ushrtMax then pure errorInvalidFlowPriority else pure 0
  else pure 0

def validateFlowRemoved (message : Option ℕ) : MessageReader ℤ :=
  unlessNull message fun _ =>
  passing (validateHeader message ofptFlowRemoved 88 88) do
  let m ← ntohMatch 8
  passing (pure (validateMatch m)) do
  passing (validateFlowPriority m 56) do
  let reason ← Reader.read 58
  if reason > ofprrDelete then pure errorInvalidFlowRemovedReason else pure 0

/-! ### Actions -/

/-- The check of one kind of action: its type, its length, and what `checkArgs` says about
its arguments. The whole action is copied before its length is looked at. -/
def validateActionOf {A : Type} (ntoh : ℕ → MessageReader (OfpAction A)) (type size : UInt16)
    (tooShort tooLong : ℤ) (checkArgs : A → ℤ) (action : ℕ) : MessageReader ℤ := do
  let a ← ntoh action
  if a.type ≠ type then pure errorInvalidActionType
  else if a.len < size then pure tooShort
  else if a.len > size then pure tooLong
  else passing (pure (checkArgs a.args)) (pure 0)

def validateActionOutput : ℕ → MessageReader ℤ :=
  validateActionOf ntohActionOutput ofpatOutput 8 errorTooShortActionOutput
    errorTooLongActionOutput (fun args => validatePhyPortNo args.1)

def validateActionSetVlanVid : ℕ → MessageReader ℤ :=
  validateActionOf ntohActionVlanVid ofpatSetVlanVid 8 errorTooShortActionVlanVid
    errorTooLongActionVlanVid validateVlanVid

def validateActionSetVlanPcp : ℕ → MessageReader ℤ :=
  validateActionOf ntohActionVlanPcp ofpatSetVlanPcp 8 errorTooShortActionVlanPcp
    errorTooLongActionVlanPcp validateVlanPcp

def validateActionStripVlan : ℕ → MessageReader ℤ :=
  validateActionOf ntohActionStripVlan ofpatStripVlan 8 errorTooShortActionStripVlan
    errorTooLongActionStripVlan (fun _ => 0)

def validateActionSetDlSrc : ℕ → MessageReader ℤ :=
  validateActionOf ntohActionDlAddr ofpatSetDlSrc 16 errorTooShortActionDlSrc
    errorTooLongActionDlSrc (fun _ => 0)

def validateActionSetDlDst : ℕ → MessageReader ℤ :=
  validateActionOf ntohActionDlAddr ofpatSetDlDst 16 errorTooShortActionDlDst
    errorTooLongActionDlDst (fun _ => 0)

def validateActionSetNwSrc : ℕ → MessageReader ℤ :=
  validateActionOf ntohActionNwAddr ofpatSetNwSrc 8 errorTooShortActionNwSrc
    errorTooLongActionNwSrc (fun _ => 0)

def validateActionSetNwDst : ℕ → MessageReader ℤ :=
  validateActionOf ntohActionNwAddr ofpatSetNwDst 8 errorTooShortActionNwDst
    errorTooLongActionNwDst (fun _ => 0)

/-- The length is compared with the size of another action, which is the same. -/
def validateActionSetNwTos : ℕ → MessageReader ℤ :=
  validateActionOf ntohActionNwTos ofpatSetNwTos 8 errorTooShortActionNwTos
    errorTooLongActionNwTos validateNwTos

def validateActionSetTpSrc : ℕ → MessageReader ℤ :=
  validateActionOf ntohActionTpPort ofpatSetTpSrc 8 errorTooShortActionTpSrc
    errorTooLongActionTpSrc (fun _ => 0)

def validateActionSetTpDst : ℕ → MessageReader ℤ :=
  validateActionOf ntohActionTpPort ofpatSetTpDst 8 errorTooShortActionTpDst
    errorTooLongActionTpDst (fun _ => 0)

def validateActionEnqueue : ℕ → MessageReader ℤ :=
  validateActionOf ntohActionEnqueue ofpatEnqueue 16 errorTooShortActionEnqueue
    errorTooLongActionEnqueue (fun args => validatePhyPortNo args.1)

def validateActionVendor (action : ℕ) : MessageReader ℤ := do
  let type ← ntohs action
  if type ≠ ofpatVendor then pure errorInvalidActionType else do
  let len ← ntohs (action + 2)
  if len < 8 then pure errorTooShortActionVendor else pure 0

def validateAction (action : ℕ) : MessageReader ℤ := do
  let len ← ntohs (action + 2)
  if len < 8 then pure errorTooShortAction else do
  let type ← ntohs action
  if type = ofpatOutput then validateActionOutput action
  else if type = ofpatSetVlanVid then validateActionSetVlanVid action
  else if type = ofpatSetVlanPcp then validateActionSetVlanPcp action
  else if type = ofpatStripVlan then validateActionStripVlan action
  else if type = ofpatSetDlSrc then validateActionSetDlSrc action
  else if type = ofpatSetDlDst then validateActionSetDlDst action
  else if type = ofpatSetNwSrc then validateActionSetNwSrc action
  else if type = ofpatSetNwDst then validateActionSetNwDst action
  else if type = ofpatSetNwTos then validateActionSetNwTos action
  else if type = ofpatSetTpSrc then validateActionSetTpSrc action
  else if type = ofpatSetTpDst then validateActionSetTpDst action
  else if type = ofpatEnqueue then validateActionEnqueue action
  else if type = ofpatVendor then validateActionVendor action
  else pure errorUndefinedActionType

/-- One round of a walk over entries that carry their own length, such as actions: `head` is
where they begin and `length` how many bytes they should take. The offset is a `uint16_t` and
wraps around. -/
def walkRound (entry : ℕ → MessageReader ℤ) (head : ℕ) (length offset : UInt16) :
    MessageReader (ℤ ⊕ UInt16) :=
  if offset < length then do
    let ret ← entry (head + offset.toNat)
    if ret < 0 then pure (.inl ret) else do
    let len ← ntohs (head + offset.toNat + 2)
    pure (.inr (offset + len))
  else pure (.inl 0)

def validateActions (actionsHead : ℕ) (length : UInt16) : MessageReader ℤ :=
  Reader.loop (walkRound validateAction actionsHead length) 0

def validatePacketOut (message : Option ℕ) : MessageReader ℤ :=
  unlessNull message fun _ =>
  passing (validateHeader message ofptPacketOut 16 ushrtMax.toNat) do
  let inPort ← ntohs 12
  passing (pure (validatePhyPortNo inPort)) do
  let actionsLen ← ntohs 14
  passing (if actionsLen > 0 then validateActions 16 actionsLen else pure 0) do
  let _ ← headerLength
  pure 0

def validateFlowMod (message : Option ℕ) : MessageReader ℤ :=
  unlessNull message fun _ =>
  passing (validateHeader message ofptFlowMod 72 ushrtMax.toNat) do
  let m ← ntohMatch 8
  passing (pure (validateMatch m)) do
  let command ← ntohs 56
  if command > ofpfcDeleteStrict then pure errorUndefinedFlowModCommand else do
  passing (validateFlowPriority m 62) do
  passing (if command = ofpfcDelete ∨ command = ofpfcDeleteStrict then do
      let outPort ← ntohs 68
      if outPort ≠ ofppNone then pure (validatePhyPortNo outPort) else pure 0
    else pure 0) do
  let flags ← ntohs 70
  if flags &&& ~~~flowModFlags ≠ 0 then pure errorInvalidFlowModFlags else do
  let length ← headerLength
  let actionsLength := length - 72
  passing (if actionsLength > 0 then validateActions 72 actionsLength else pure 0) (pure 0)

/-! ### Statistics requests -/

/-- A statistics request of the type `type`: its header, type and flags, and then `body`. -/
def validateStatsRequestOf (message : Option ℕ) (type : UInt16) (minLength maxLength : ℕ)
    (body : MessageReader ℤ) : MessageReader ℤ :=
  unlessNull message fun _ =>
  passing (validateHeader message ofptStatsRequest minLength maxLength) do
  let statsType ← ntohs 8
  if statsType ≠ type then pure errorInvalidStatsType else do
  let flags ← ntohs 10
  if flags ≠ 0 then pure errorInvalidStatsRequestFlags else body

def validateDescStatsRequest (message : Option ℕ) : MessageReader ℤ :=
  validateStatsRequestOf message ofpstDesc 12 12 (pure 0)

/-- The body of the requests for flows and for their aggregate. -/
def validateFlowsBody : MessageReader ℤ := do
  let m ← ntohMatch 12
  passing (pure (validateMatch m)) do
  let outPort ← ntohs 54
  passing (pure (validatePhyPortNo outPort)) (pure 0)

def validateFlowStatsRequest (message : Option ℕ) : MessageReader ℤ :=
  validateStatsRequestOf message ofpstFlow 56 56 validateFlowsBody

def validateAggregateStatsRequest (message : Option ℕ) : MessageReader ℤ :=
  validateStatsRequestOf message ofpstAggregate 56 56 validateFlowsBody

def validateTableStatsRequest (message : Option ℕ) : MessageReader ℤ :=
  validateStatsRequestOf message ofpstTable 12 12 (pure 0)

def validatePortStatsRequest (message : Option ℕ) : MessageReader ℤ :=
  validateStatsRequestOf message ofpstPort 20 20 do
  let portNo ← ntohs 12
  passing (pure (validatePhyPortNo portNo)) do
  if portNo > ofppMax ∧ portNo ≠ ofppNone ∧ portNo ≠ ofppLocal then pure errorInvalidPortNo
  else pure 0

def validateQueueStatsRequest (message : Option ℕ) : MessageReader ℤ :=
  validateStatsRequestOf message ofpstQueue 20 20 do
  let portNo ← ntohs 12
  passing (pure (validatePhyPortNo portNo)) (pure 0)

def validateVendorStatsRequest (message : Option ℕ) : MessageReader ℤ :=
  validateStatsRequestOf message ofpstVendor 16 ushrtMax.toNat (pure 0)

/-- The type is read before the length of the message is looked at. -/
def validateStatsRequest (message : Option ℕ) : MessageReader ℤ :=
  unlessNull message fun _ => do
  let type ← ntohs 8
  if type = ofpstDesc then validateDescStatsRequest message
  else if type = ofpstFlow then validateFlowStatsRequest message
  else if type = ofpstAggregate then validateAggregateStatsRequest message
  else if type = ofpstTable then validateTableStatsRequest message
  else if type = ofpstPort then validatePortStatsRequest message
  else if type = ofpstQueue then validateQueueStatsRequest message
  else if type = ofpstVendor then validateVendorStatsRequest message
  else pure errorUnsupportedStatsType

/-! ### Statistics replies -/

/-- A statistics reply: its header, that it has no other flags than `flags`, and then
`body`. -/
def validateStatsReplyOf (message : Option ℕ) (maxLength : ℕ) (flags : UInt16)
    (body : MessageReader ℤ) : MessageReader ℤ :=
  unlessNull message fun _ =>
  passing (validateHeader message ofptStatsReply 12 maxLength) do
  let replyFlags ← ntohs 10
  if replyFlags &&& ~~~flags ≠ 0 then pure errorInvalidStatsReplyFlags else body

def validateDescStatsReply (message : Option ℕ) : MessageReader ℤ :=
  validateStatsReplyOf message (12 + 1056) 0 (pure 0)

/-- What the loop of `validateFlowStatsReply` checks of the entry at `flowStats`. -/
def validateFlowEntry (flowStats : ℕ) : MessageReader ℤ := do
  let m ← ntohMatch (flowStats + 4)
  passing (pure (validateMatch m)) do
  passing (validateFlowPriority m (flowStats + 52)) do
  let length ← ntohs flowStats
  let actionsLength := length - 88
  if actionsLength > 0 then validateActions (flowStats + 88) actionsLength else pure 0

/-- One round of the loop: `flowLength` bytes remain, by the lengths of the entries before,
and the next entry is at `flowStats`. -/
def validateFlowStatsRound (s : UInt16 × ℕ) : MessageReader (ℤ ⊕ UInt16 × ℕ) :=
  let (flowLength, flowStats) := s
  if flowLength > 0 then do
    let ret ← validateFlowEntry flowStats
    if ret < 0 then pure (.inl ret) else do
    let length ← ntohs flowStats
    pure (.inr (flowLength - length, flowStats + length.toNat))
  else pure (.inl 0)

def validateFlowStatsReply (message : Option ℕ) : MessageReader ℤ :=
  validateStatsReplyOf message ushrtMax.toNat ofpsfReplyMore do
  let length ← headerLength
  Reader.loop validateFlowStatsRound (length - 12, 12)

def validateAggregateStatsReply (message : Option ℕ) : MessageReader ℤ :=
  validateStatsReplyOf message (12 + 24) 0 (pure 0)

/-- A body that is a whole number of entries of `size` bytes, each of which passes
`entry`. -/
def validateStatsEntries (entry : ℕ → MessageReader ℤ) (size : ℕ) : MessageReader ℤ := do
  let length ← headerLength
  let bodyLength := length - 12
  if bodyLength.toNat % size ≠ 0 then pure errorInvalidLength
  else validateEach entry size 12 (bodyLength.toNat / size)

def validateTableStatsReply (message : Option ℕ) : MessageReader ℤ :=
  validateStatsReplyOf message ushrtMax.toNat ofpsfReplyMore
    (validateStatsEntries (fun tableStats => do
      let wildcards ← ntohl (tableStats + 36)
      pure (validateWildcards wildcards)) 64)

def validatePortStatsReply (message : Option ℕ) : MessageReader ℤ :=
  validateStatsReplyOf message ushrtMax.toNat ofpsfReplyMore
    (validateStatsEntries (fun portStats => do
      let portNo ← ntohs portStats
      pure (validatePhyPortNo portNo)) 104)

def validateQueueStatsReply (message : Option ℕ) : MessageReader ℤ :=
  validateStatsReplyOf message ushrtMax.toNat ofpsfReplyMore
    (validateStatsEntries (fun queueStats => do
      let portNo ← ntohs queueStats
      pure (validatePhyPortNo portNo)) 32)

def validateVendorStatsReply (message : Option ℕ) : MessageReader ℤ :=
  validateStatsReplyOf message ushrtMax.toNat ofpsfReplyMore do
  let _ ← headerLength
  pure 0

/-- The type is read before the length of the message is looked at. -/
def validateStatsReply (message : Option ℕ) : MessageReader ℤ :=
  unlessNull message fun _ => do
  let type ← ntohs 8
  if type = ofpstDesc then validateDescStatsReply message
  else if type = ofpstFlow then validateFlowStatsReply message
  else if type = ofpstAggregate then validateAggregateStatsReply message
  else if type = ofpstTable then validateTableStatsReply message
  else if type = ofpstPort then validatePortStatsReply message
  else if type = ofpstQueue then validateQueueStatsReply message
  else if type = ofpstVendor then validateVendorStatsReply message
  else pure errorUnsupportedStatsType

/-! ### Queues -/

def validateQueueGetConfigRequest (message : Option ℕ) : MessageReader ℤ :=
  passing (validateHeader message ofptQueueGetConfigRequest 12 12) do
  let port ← ntohs 8
  passing (pure (validatePhyPortNo port)) (pure 0)

def validateQueueProperty (property : ℕ) : MessageReader ℤ := do
  let propertyLength ← ntohs (property + 2)
  if propertyLength < 8 then pure errorTooShortQueueProperty else do
  let type ← ntohs property
  if type = ofpqtNone then
    if propertyLength < 8 then pure errorTooShortQueueProperty
    else if propertyLength > 8 then pure errorTooLongQueueProperty
    else pure 0
  else if type = ofpqtMinRate then
    if propertyLength < 16 then pure errorTooShortQueueProperty
    else if propertyLength > 16 then pure errorTooLongQueueProperty
    else pure 0
  else pure errorUndefinedQueueProperty

def validateQueueProperties (propHead : ℕ) (propertiesLength : UInt16) : MessageReader ℤ :=
  Reader.loop (walkRound validateQueueProperty propHead propertiesLength) 0

def validatePacketQueue (queue : ℕ) : MessageReader ℤ := do
  let len ← ntohs (queue + 4)
  if len < 16 then pure errorTooShortQueueDescription
  else passing (validateQueueProperties (queue + 8) (len - 8)) (pure 0)

def validatePacketQueues (queue : ℕ) : ℕ → MessageReader ℤ
  | 0 => pure 0
  | n + 1 =>
    passing (validatePacketQueue queue) do
    let len ← ntohs (queue + 4)
    validatePacketQueues (queue + len.toNat) n

/-- One round of the loop that counts the queues: `queuesLength` bytes remain, the next queue
is at `queue`, and `nQueues` have been counted. The loop ends with the bytes that remain and
the count. -/
def countQueuesRound (s : UInt16 × ℕ × ℕ) : MessageReader (UInt16 × ℕ ⊕ UInt16 × ℕ × ℕ) :=
  let (queuesLength, queue, nQueues) := s
  if queuesLength > 8 then do
    let len ← ntohs (queue + 4)
    pure (.inr (queuesLength - len, queue + len.toNat, nQueues + 1))
  else pure (.inl (queuesLength, nQueues))

def validateQueueGetConfigReply (message : Option ℕ) : MessageReader ℤ :=
  unlessNull message fun _ =>
  passing (validateHeader message ofptQueueGetConfigReply 24 ushrtMax.toNat) do
  let port ← ntohs 8
  passing (pure (validatePhyPortNo port)) do
  let length ← headerLength
  let (queuesLength, nQueues) ← Reader.loop countQueuesRound (length - 16, 16, 0)
  if queuesLength ≠ 0 then pure errorInvalidLength
  else if nQueues > 0 then passing (validatePacketQueues 16 nQueues) (pure 0)
  else pure 0

/-! ### Any message -/

/-- The switch of `validateOpenflowMessage` over the type. -/
def validateMessageOfType (type : UInt8) (message : Option ℕ) : MessageReader ℤ :=
  if type = ofptHello then validateHello message
  else if type = ofptError then validateError message
  else if type = ofptEchoRequest then validateEchoRequest message
  else if type = ofptEchoReply then validateEchoReply message
  else if type = ofptVendor then validateVendor message
  else if type = ofptFeaturesRequest then validateFeaturesRequest message
  else if type = ofptFeaturesReply then validateFeaturesReply message
  else if type = ofptGetConfigRequest then validateGetConfigRequest message
  else if type = ofptGetConfigReply then validateGetConfigReply message
  else if type = ofptSetConfig then validateSetConfig message
  else if type = ofptPacketIn then validatePacketIn message
  else if type = ofptFlowRemoved then validateFlowRemoved message
  else if type = ofptPortStatus then validatePortStatus message
  else if type = ofptPacketOut then validatePacketOut message
  else if type = ofptFlowMod then validateFlowMod message
  else if type = ofptPortMod then validatePortMod message
  else if type = ofptStatsRequest then validateStatsRequest message
  else if type = ofptStatsReply then validateStatsReply message
  else if type = ofptBarrierRequest then validateBarrierRequest message
  else if type = ofptBarrierReply then validateBarrierReply message
  else if type = ofptQueueGetConfigRequest then validateQueueGetConfigRequest message
  else if type = ofptQueueGetConfigReply then validateQueueGetConfigReply message
  else pure errorUndefinedType

def validateOpenflowMessage (message : Option ℕ) : MessageReader ℤ :=
  unlessNull message fun _ => do
  let type ← Reader.read 1
  validateMessageOfType type message

/-! ### What is accepted -/

section

variable {n : ℕ} {mem : Memory}

/-- The program returns something that is not an error. -/
def Accepts (check : MessageReader ℤ) (mem : Memory) : Prop :=
  ∃ r, check.Returns mem r ∧ ¬ r < 0

/-- The program returns an error. -/
def Rejects (check : MessageReader ℤ) (mem : Memory) : Prop :=
  ∃ r, check.Returns mem r ∧ r < 0

theorem Accepts.not_rejects {check : MessageReader ℤ} (h : Accepts check mem) :
  ¬ Rejects check mem
  := by
  obtain ⟨r, hr, hpos⟩ := h
  rintro ⟨r', hr', hneg⟩
  obtain rfl := hr.unique hr'
  apply hpos hneg

theorem returns_passing {check rest : MessageReader ℤ} {r : ℤ} :
  (passing check rest).Returns mem r ↔
    check.Returns mem r ∧ r < 0 ∨ ∃ ret, check.Returns mem ret ∧ ¬ ret < 0 ∧ rest.Returns mem r
  := by
  simp only [passing, Reader.returns_bind, Reader.returns_ite, Reader.returns_pure]
  constructor
  · rintro ⟨ret, hret, ⟨hneg, rfl⟩ | ⟨hpos, hrest⟩⟩
    · exact .inl ⟨hret, hneg⟩
    · exact .inr ⟨ret, hret, hpos, hrest⟩
  · rintro (⟨hret, hneg⟩ | ⟨ret, hret, hpos, hrest⟩)
    · exact ⟨r, hret, .inl ⟨hneg, rfl⟩⟩
    · exact ⟨ret, hret, .inr ⟨hpos, hrest⟩⟩

theorem accepts_passing {check rest : MessageReader ℤ} :
  Accepts (passing check rest) mem ↔ Accepts check mem ∧ Accepts rest mem
  := by
  simp only [Accepts, returns_passing]
  constructor
  · rintro ⟨r, ⟨-, hneg⟩ | ⟨ret, hret, hpos, hrest⟩, hr⟩
    · exact absurd hneg hr
    · exact ⟨⟨ret, hret, hpos⟩, r, hrest, hr⟩
  · rintro ⟨⟨ret, hret, hpos⟩, r, hrest, hr⟩
    exact ⟨r, .inr ⟨ret, hret, hpos, hrest⟩, hr⟩

theorem accepts_pure {r : ℤ} :
  Accepts (pure r) mem ↔ ¬ r < 0
  := by
  simp [Accepts]

theorem accepts_bind {α : Type} {m : MessageReader α} {f : α → MessageReader ℤ} :
  Accepts (m >>= f) mem ↔ ∃ a, m.Returns mem a ∧ Accepts (f a) mem
  := by
  simp only [Accepts, Reader.returns_bind]
  constructor
  · rintro ⟨r, ⟨a, ha, hr⟩, hpos⟩
    exact ⟨a, ha, r, hr, hpos⟩
  · rintro ⟨a, ha, r, hr, hpos⟩
    exact ⟨r, ⟨a, ha, hr⟩, hpos⟩

theorem accepts_ite {c : Prop} [Decidable c] {m m' : MessageReader ℤ} :
  Accepts (if c then m else m') mem ↔ c ∧ Accepts m mem ∨ ¬ c ∧ Accepts m' mem
  := by
  split
  · next hc => simp [hc]
  · next hc => simp [hc]

/-- The header of the message of length `n` is that of a message of the type `type`, and
its length field is the length, which is in the range. -/
structure HeaderOk (n : ℕ) (mem : Memory) (type : UInt8) (minLength maxLength : ℕ) : Prop where
  version : mem 0 = ofpVersion
  type : mem 1 = type
  length : (be16 mem 2).toNat = n
  min : minLength ≤ n
  max : n ≤ maxLength

variable {type : UInt8} {minLength maxLength : ℕ}

theorem validateHeader_accepts (hn : 8 ≤ n) (htype : type ≤ ofptQueueGetConfigReply) :
  Accepts (validateHeader (some n) type minLength maxLength) mem ↔
    HeaderOk n mem type minLength maxLength
  := by
  simp only [validateHeader, unlessNull_some, accepts_bind, accepts_ite, accepts_pure,
    returns_ntohs, Reader.returns_read, exists_eq_left]
  constructor
  · rintro h
    simp only [not_lt, gt_iff_lt] at h
    simp +decide at h
    obtain ⟨-, hversion, -, htype', hmax, hmin, hge, hle, -⟩ := h
    exact ⟨hversion, htype', by omega, by omega, by omega⟩
  · rintro ⟨hversion, rfl, hlength, hmin, hmax⟩
    simp +decide
    exact ⟨hn, hversion, htype, by omega, by omega, by omega, by omega, hmax⟩

/-- A message too short for a header is not accepted. -/
theorem validateHeader_length
    (h : Accepts (validateHeader (some n) type minLength maxLength) mem) :
  8 ≤ n
  := by
  simp only [validateHeader, unlessNull_some, accepts_ite, accepts_pure] at h
  rcases h with ⟨-, h⟩ | ⟨h, -⟩
  · exact absurd (by decide) h
  · omega

/-- What a checked length field leaves after the first `k` bytes. -/
theorem HeaderOk.length_sub (h : HeaderOk n mem type minLength maxLength) {k : UInt16}
    (hk : k.toNat ≤ minLength) :
  (be16 mem 2 - k).toNat = n - k.toNat
  := by
  have hlength := h.length
  have hmin := h.min
  rw [UInt16.toNat_sub_of_le, hlength]
  rw [UInt16.le_iff_toNat_le]
  omega

end

end CcController
