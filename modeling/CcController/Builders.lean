import CcController.OfAction

/-!
# The other messages

Every function takes the message from `ccCreateHeader`, unchecked, and stores the fields of
the body behind the header. A list is gone through twice, from a copy of its first element:
once for its length, which is counted in a `uint16_t`, and once to store its entries.

A block that an argument points to has an end, and reading behind it is an overrun.
-/

namespace CcController

/-! ### Filling in a message -/

/-- A pointer that is used without a check. -/
def unchecked {α : Type} (buf : Option Buffer) (rest : Buffer → Action α) : Action α :=
  match buf with
  | none => Program.stop .null
  | some buf => rest buf

/-- Store fields one behind the other, the first at `p`. -/
def storeFields (buf : Buffer) (p : ℕ) : List (List UInt8) → Action Buffer
  | [] => pure buf
  | field :: fields => do
    let buf ← fill buf p field
    storeFields buf (p + field.length) fields

/-- Copy the first `n` bytes of a buffer to `p`, if there are any to copy. -/
def storeData (buf : Buffer) (p : ℕ) (data : Option Buffer) (n : UInt16) : Action Buffer :=
  if n > 0 then do
    let bytes ← copyData data n.toNat
    fill buf p bytes
  else pure buf

/-- The copy of the first element of a list. -/
def copyHead {α : Type} (list : List α) : Action Unit :=
  match list with
  | [] => pure ()
  | _ :: _ => mallocUnchecked

/-- A message whose header is made and then `rest` done with it. -/
def createWith (host : Host) (xid : UInt32) (type : UInt8) (length : UInt16)
    (rest : Buffer → Action Buffer) : Action (Option Buffer) := do
  let buf ← ccCreateHeader host xid type length
  unchecked buf fun buf => do
  let buf ← rest buf
  pure (some buf)

/-- The text with the port is not used. For the name, which is the ninth byte and what follows,
all bytes are read up to one that is zero. -/
def phyPortToString (phyPort : List UInt8) : Action Unit :=
  if 0 ∈ phyPort.drop 8 then pure () else Program.stop .overrun

/-- The loop over the ports of a list; `p` is where the next one is put. -/
def storePorts (host : Host) (buf : Buffer) (p : ℕ) :
    List (Record UInt8 ofpPhyPort) → Action Buffer
  | [] => pure buf
  | port :: ports => do
    phyPortToString port.bytes
    let buf ← fill buf p (ofpPhyPort.convert host.littleEndian port.bytes)
    storePorts host buf (p + ofpPhyPort.size) ports

/-- The loop over the actions of a list; `p` is where the next one is put. -/
def storeActions (host : Host) (buf : Buffer) (p : ℕ) : List (List UInt8) → Action Buffer
  | [] => pure buf
  | action :: list => do
    let actionLength ← readShort host action 2
    let bytes ← htonAction host action 0
    let buf ← fill buf p bytes
    storeActions host buf (p + actionLength.toNat) list

/-! ### Entries with entries inside -/

/-- The loop over the actions of a flow entry `fs`, of which `actionsLength` bytes are left,
from `q` on; they go to `p`. An action of length 0 would be copied for ever. -/
def htonFlowActions (host : Host) (fs : List UInt8) :
    ℕ → Buffer → ℕ → ℕ → UInt16 → Action Buffer
  | 0, _, _, _, _ => Program.stop .diverges
  | fuel + 1, buf, p, q, actionsLength =>
    if actionsLength ≥ 8 then do
      let bytes ← htonAction host fs q
      let buf ← fill buf p bytes
      let len ← readShort host fs (q + 2)
      htonFlowActions host fs fuel buf (p + len.toNat) (q + len.toNat) (actionsLength - len)
    else pure buf

/-- The entry is copied first, by its length, and the copy is put into the message at `p`. -/
def htonFlowStats (host : Host) (buf : Buffer) (p : ℕ) (src : List UInt8) : Action Buffer := do
  let length ← readShort host src 0
  mallocUnchecked
  let fs ← copyOut src 0 length.toNat
  let fields ← htonStruct host ofpFlowStats fs 0
  let buf ← fill buf p fields
  htonFlowActions host fs (fs.length + 1) buf (p + 88) 88 (length - 88)

/-- The property at `q` of the queue `pq` is put into the message at `p`. Its padding is not
stored. -/
def htonQueueProperty (host : Host) (buf : Buffer) (p : ℕ) (pq : List UInt8) (q : ℕ) :
    Action Buffer := do
  let len ← readShort host pq (q + 2)
  mallocUnchecked
  let ph ← copyOut pq q len.toNat
  let property ← readShort host ph 0
  let length ← readShort host ph 2
  let buf ← storeFields buf p [htons property, htons length]
  let srcProperty ← readShort host pq q
  if srcProperty = ofpqtMinRate then do
    let rate ← readShort host ph 8
    fill buf (p + 8) (htons rate)
  else pure buf

/-- The loop over the properties of the queue `pq`, of which `propertiesLength` bytes are
left. -/
def htonQueueProperties (host : Host) (pq : List UInt8) :
    ℕ → Buffer → ℕ → ℕ → UInt16 → Action Buffer
  | 0, _, _, _, _ => Program.stop .diverges
  | fuel + 1, buf, p, q, propertiesLength =>
    if propertiesLength ≥ 8 then do
      let buf ← htonQueueProperty host buf p pq q
      let len ← readShort host pq (q + 2)
      htonQueueProperties host pq fuel buf (p + len.toNat) (q + len.toNat)
        (propertiesLength - len)
    else pure buf

/-- The queue is copied first, by its length, and the copy is put into the message at `p`. -/
def htonPacketQueue (host : Host) (buf : Buffer) (p : ℕ) (src : List UInt8) : Action Buffer := do
  let len ← readShort host src 4
  mallocUnchecked
  let pq ← copyOut src 0 len.toNat
  let fields ← htonStruct host ofpPacketQueue pq 0
  let buf ← fill buf p fields
  htonQueueProperties host pq (pq.length + 1) buf (p + 8) 8 (len - 8)

/-- The loop that adds up the lengths of entries, each of which has its length at `o`. -/
def sumEntries (host : Host) (o : ℕ) : List (List UInt8) → UInt16 → Action UInt16
  | [], length => pure length
  | entry :: list, length => do
    let len ← readShort host entry o
    sumEntries host o list (length + len)

/-- The loop over entries, each of which has its length at `o`; the next one goes to `p`. -/
def storeEntries (host : Host) (hton : Buffer → ℕ → List UInt8 → Action Buffer) (o : ℕ)
    (buf : Buffer) (p : ℕ) : List (List UInt8) → Action Buffer
  | [] => pure buf
  | entry :: list => do
    let buf ← hton buf p entry
    let len ← readShort host entry o
    storeEntries host hton o buf (p + len.toNat) list

/-! ### Messages without a list -/

section

variable (host : Host) (xid : UInt32)

/-- As many bytes are copied as the data have, although the length that room is made for is
cut to a `uint16_t`. -/
def ccCreateError (type code : UInt16) (data : Option Buffer) : Action (Option Buffer) :=
  createWith host xid ofptError (12 + dataLength data) fun buf => do
  let buf ← storeFields buf 8 [htons type, htons code]
  if dataLength data > 0 then do
    let bytes ← copyData data ((data.map Buffer.length).getD 0)
    fill buf 12 bytes
  else pure buf

def ccCreateVendor (vendor : UInt32) (data : Option Buffer) : Action (Option Buffer) :=
  createWith host xid ofptVendor (12 + dataLength data) fun buf => do
  let buf ← storeFields buf 8 [htonl vendor]
  storeData buf 12 data (dataLength data)

def ccCreateGetConfigRequest : Action (Option Buffer) :=
  ccCreateHeader host xid ofptGetConfigRequest 8

def ccCreateGetConfigReply (flags missSendLen : UInt16) : Action (Option Buffer) :=
  createWith host xid ofptGetConfigReply 12 fun buf =>
  storeFields buf 8 [htons flags, htons missSendLen]

def ccCreatePacketIn (bufferId : UInt32) (totalLen inPort : UInt16) (reason : UInt8)
    (data : Option Buffer) : Action (Option Buffer) :=
  createWith host xid ofptPacketIn (18 + dataLength data) fun buf => do
  let buf ← storeFields buf 8 [htonl bufferId, htons totalLen, htons inPort, [reason], [0]]
  storeData buf 18 data (dataLength data)

def ccCreateFlowRemoved (m : Record UInt8 ofpMatch) (cookie : UInt64) (priority : UInt16)
    (reason : UInt8) (durationSec durationNsec : UInt32) (idleTimeout : UInt16)
    (packetCount byteCount : UInt64) : Action (Option Buffer) :=
  createWith host xid ofptFlowRemoved 88 fun buf =>
  storeFields buf 8 [ofpMatch.convert host.littleEndian m.bytes, htonll cookie, htons priority,
    [reason], [0], htonl durationSec, htonl durationNsec, htons idleTimeout, [0, 0],
    htonll packetCount, htonll byteCount]

def ccCreatePortStatus (reason : UInt8) (desc : Record UInt8 ofpPhyPort) :
    Action (Option Buffer) := do
  phyPortToString desc.bytes
  createWith host xid ofptPortStatus 64 fun buf =>
  storeFields buf 8 [[reason], List.replicate 7 0,
    ofpPhyPort.convert host.littleEndian desc.bytes]

def ccCreatePortMod (portNo : UInt16) (hwAddr : HwAddr) (config mask advertise : UInt32) :
    Action (Option Buffer) :=
  createWith host xid ofptPortMod 32 fun buf =>
  storeFields buf 8 [htons portNo, hwAddr.bytes, htonl config, htonl mask, htonl advertise,
    List.replicate 4 0]

def ccCreateBarrierRequest : Action (Option Buffer) :=
  ccCreateHeader host xid ofptBarrierRequest 8

def ccCreateBarrierReply : Action (Option Buffer) :=
  ccCreateHeader host xid ofptBarrierReply 8

def ccCreateQueueGetConfigRequest (port : UInt16) : Action (Option Buffer) :=
  createWith host xid ofptQueueGetConfigRequest 12 fun buf =>
  storeFields buf 8 [htons port, [0, 0]]

/-! ### Messages with actions -/

/-- `UINT_MAX` -/
abbrev uintMax : UInt32 := 0xffffffff

/-- The frame checks of `ccCreatePacketOut` fail. -/
def FrameRefused (bufferId : UInt32) (data : Option Buffer) : Prop :=
  bufferId = uintMax ∧ ∀ buf, data = some buf → buf.length + 4 < 64

instance {bufferId : UInt32} {data : Option Buffer} :
    Decidable (FrameRefused bufferId data) :=
  match data with
  | none => decidable_of_iff (bufferId = uintMax) (by simp [FrameRefused])
  | some buf =>
    decidable_of_iff (bufferId = uintMax ∧ buf.length + 4 < 64) (by simp [FrameRefused])

/-- The length of the actions, as a `uint16_t`. -/
def actionsLengthOf (actions : Option OpenflowActions) : Action UInt16 :=
  match actions with
  | none => pure 0
  | some actions => do
    let actionsLength ← getActionsLength host actions
    pure (UInt16.ofInt actionsLength)

/-- The actions, if they have a length, which they have only if there are some. -/
def storeActionsOf (actions : Option OpenflowActions) (actionsLength : UInt16) (buf : Buffer)
    (p : ℕ) : Action Buffer :=
  match actions with
  | none => pure buf
  | some actions =>
    if actionsLength > 0 then storeActions host buf p actions.list else pure buf

/-- When the frame checks fail the pointer returned is `CC_E_ERR`. -/
def ccCreatePacketOut (bufferId : UInt32) (inPort : UInt16) (actions : Option OpenflowActions)
    (data : Option Buffer) : Action (ℤ ⊕ Option Buffer) :=
  if FrameRefused bufferId data then pure (.inl ccEErr) else do
  let actionsLength ← actionsLengthOf host actions
  let buf ← createWith host xid ofptPacketOut (16 + actionsLength + dataLength data) fun buf => do
    let buf ← storeFields buf 8 [htonl bufferId, htons inPort, htons actionsLength]
    let buf ← storeActionsOf host actions actionsLength buf 16
    storeData buf (16 + actionsLength.toNat) data (dataLength data)
  pure (.inr buf)

def ccCreateFlowMod (m : Record UInt8 ofpMatch) (cookie : UInt64)
    (command idleTimeout hardTimeout priority : UInt16) (bufferId : UInt32)
    (outPort flags : UInt16) (actions : Option OpenflowActions) : Action (Option Buffer) := do
  let actionsLength ← actionsLengthOf host actions
  createWith host xid ofptFlowMod (72 + actionsLength) fun buf => do
  let buf ← storeFields buf 8 [ofpMatch.convert host.littleEndian m.bytes, htonll cookie,
    htons command, htons idleTimeout, htons hardTimeout, htons priority, htonl bufferId,
    htons outPort, htons flags]
  storeActionsOf host actions actionsLength buf 72

/-! ### Statistics requests -/

def ccCreateStatsRequest (type length flags : UInt16) : Action (Option Buffer) :=
  createWith host xid ofptStatsRequest length fun buf =>
  storeFields buf 8 [htons type, htons flags]

/-- A request with a body, whose fields are stored behind its type and flags. -/
def statsRequestWith (type length flags : UInt16) (rest : Buffer → Action Buffer) :
    Action (Option Buffer) := do
  let buf ← ccCreateStatsRequest host xid type length flags
  unchecked buf fun buf => do
  let buf ← rest buf
  pure (some buf)

def ccCreateDescStatsRequest (flags : UInt16) : Action (Option Buffer) :=
  ccCreateStatsRequest host xid ofpstDesc 12 flags

def ccCreateFlowStatsRequest (flags : UInt16) (m : Record UInt8 ofpMatch) (tableId : UInt8)
    (outPort : UInt16) : Action (Option Buffer) :=
  statsRequestWith host xid ofpstFlow 56 flags fun buf =>
  storeFields buf 12 [ofpMatch.convert host.littleEndian m.bytes, [tableId], [0],
    htons outPort]

def ccCreateAggregateStatsRequest (flags : UInt16) (m : Record UInt8 ofpMatch) (tableId : UInt8)
    (outPort : UInt16) : Action (Option Buffer) :=
  statsRequestWith host xid ofpstAggregate 56 flags fun buf =>
  storeFields buf 12 [ofpMatch.convert host.littleEndian m.bytes, [tableId], [0],
    htons outPort]

def ccCreateTableStatsRequest (flags : UInt16) : Action (Option Buffer) :=
  ccCreateStatsRequest host xid ofpstTable 12 flags

def ccCreatePortStatsRequest (flags portNo : UInt16) : Action (Option Buffer) :=
  statsRequestWith host xid ofpstPort 20 flags fun buf =>
  storeFields buf 12 [htons portNo, List.replicate 6 0]

def ccCreateQueueStatsRequest (flags portNo : UInt16) (queueId : UInt32) :
    Action (Option Buffer) :=
  statsRequestWith host xid ofpstQueue 20 flags fun buf =>
  storeFields buf 12 [htons portNo, [0, 0], htonl queueId]

def ccCreateVendorStatsRequest (flags : UInt16) (vendor : UInt32) (body : Option Buffer) :
    Action (Option Buffer) :=
  statsRequestWith host xid ofpstVendor (16 + dataLength body) flags fun buf => do
  let buf ← storeFields buf 12 [htonl vendor]
  storeData buf 16 body (dataLength body)

/-! ### Statistics replies -/

def ccCreateStatsReply (type length flags : UInt16) : Action (Option Buffer) :=
  createWith host xid ofptStatsReply length fun buf =>
  storeFields buf 8 [htons type, htons flags]

/-- A reply, whose body is stored behind its type and flags. -/
def statsReplyWith (type length flags : UInt16) (rest : Buffer → Action Buffer) :
    Action (Option Buffer) := do
  let buf ← ccCreateStatsReply host xid type length flags
  unchecked buf fun buf => do
  let buf ← rest buf
  pure (some buf)

/-- As many bytes are copied from `serialNum` as from the other strings. -/
def ccCreateDescStatsReply (flags : UInt16) (mfrDesc hwDesc swDesc serialNum dpDesc : List UInt8) :
    Action (Option Buffer) :=
  statsReplyWith host xid ofpstDesc (12 + 1056) flags fun buf => do
  let bytes ← copyOut mfrDesc 0 256
  let buf ← fill buf 12 bytes
  let bytes ← copyOut hwDesc 0 256
  let buf ← fill buf 268 bytes
  let bytes ← copyOut swDesc 0 256
  let buf ← fill buf 524 bytes
  let bytes ← copyOut serialNum 0 256
  let buf ← fill buf 780 bytes
  let bytes ← copyOut dpDesc 0 256
  fill buf 812 bytes

def ccCreateFlowStatsReply (flags : UInt16) (flows : List (List UInt8)) :
    Action (Option Buffer) := do
  copyHead flows
  let length ← sumEntries host 0 flows 0
  statsReplyWith host xid ofpstFlow (12 + length) flags fun buf =>
  storeEntries host (htonFlowStats host) 0 buf 12 flows

def ccCreateAggregateStatsReply (flags : UInt16) (packetCount byteCount : UInt64)
    (flowCount : UInt32) : Action (Option Buffer) :=
  statsReplyWith host xid ofpstAggregate 36 flags fun buf =>
  storeFields buf 12 [htonll packetCount, htonll byteCount, htonl flowCount,
    List.replicate 4 0]

/-- A reply with a list of entries that are of one size. -/
def statsListReply (type : UInt16) (layout : Struct) (flags : UInt16)
    (entries : List (Record UInt8 layout)) : Action (Option Buffer) := do
  copyHead entries
  let n := UInt16.ofNat entries.length
  statsReplyWith host xid type (12 + UInt16.ofNat layout.size * n) flags fun buf =>
  storeFields buf 12 (entries.map (fun entry => layout.convert host.littleEndian entry.bytes))

def ccCreateTableStatsReply (flags : UInt16) (tables : List (Record UInt8 ofpTableStats)) :
    Action (Option Buffer) :=
  statsListReply host xid ofpstTable ofpTableStats flags tables

def ccCreatePortStatsReply (flags : UInt16) (ports : List (Record UInt8 ofpPortStats)) :
    Action (Option Buffer) :=
  statsListReply host xid ofpstPort ofpPortStats flags ports

def ccCreateQueueStatsReply (flags : UInt16) (queues : List (Record UInt8 ofpQueueStats)) :
    Action (Option Buffer) :=
  statsListReply host xid ofpstQueue ofpQueueStats flags queues

def ccCreateVendorStatsReply (flags : UInt16) (vendor : UInt32) (body : Option Buffer) :
    Action (Option Buffer) :=
  statsReplyWith host xid ofpstVendor (16 + dataLength body) flags fun buf => do
  let buf ← storeFields buf 12 [htonl vendor]
  storeData buf 16 body (dataLength body)

/-! ### Other messages with a list -/

/-- The ports are stored if their count, a `uint16_t`, is not zero. -/
def ccCreateFeaturesReply (datapathId : UInt64) (nBuffers : UInt32) (nTables : UInt8)
    (capabilities actions : UInt32) (ports : List (Record UInt8 ofpPhyPort)) :
    Action (Option Buffer) := do
  copyHead ports
  let nPorts := UInt16.ofNat ports.length
  createWith host xid ofptFeaturesReply (32 + 48 * nPorts) fun buf => do
  let buf ← storeFields buf 8 [htonll datapathId, htonl nBuffers, [nTables], [0, 0, 0],
    htonl capabilities, htonl actions]
  if nPorts ≠ 0 then storePorts host buf 32 ports else pure buf

/-- The queues are stored if their count, a `uint16_t`, is not zero. -/
def ccCreateQueueGetConfigReply (port : UInt16) (queues : List (List UInt8)) :
    Action (Option Buffer) := do
  copyHead queues
  let queuesLength ← sumEntries host 4 queues 0
  createWith host xid ofptQueueGetConfigReply (16 + queuesLength) fun buf => do
  let buf ← storeFields buf 8 [htons port, List.replicate 6 0]
  if UInt16.ofNat queues.length ≠ 0 then
    storeEntries host (htonPacketQueue host) 4 buf 16 queues
  else pure buf

end

/-! ### All of them -/

/-- A call of one of the functions that create messages. -/
inductive Builder where
  | hello
  | error (type code : UInt16) (data : Option Buffer)
  | echoRequest (buf : Option Buffer)
  | echoReply (buf : Option Buffer)
  | vendor (vendorId : UInt32) (data : Option Buffer)
  | featuresRequest
  | featuresReply (datapathId : UInt64) (nBuffers : UInt32) (nTables : UInt8)
      (capabilities actions : UInt32) (ports : List (Record UInt8 ofpPhyPort))
  | getConfigRequest
  | getConfigReply (flags missSendLen : UInt16)
  | setConfig (flags missSendLen : UInt16)
  | packetIn (bufferId : UInt32) (totalLen inPort : UInt16) (reason : UInt8)
      (data : Option Buffer)
  | flowRemoved (m : Record UInt8 ofpMatch) (cookie : UInt64) (priority : UInt16)
      (reason : UInt8) (durationSec durationNsec : UInt32) (idleTimeout : UInt16)
      (packetCount byteCount : UInt64)
  | portStatus (reason : UInt8) (desc : Record UInt8 ofpPhyPort)
  | packetOut (bufferId : UInt32) (inPort : UInt16) (actions : Option OpenflowActions)
      (data : Option Buffer)
  | flowMod (m : Record UInt8 ofpMatch) (cookie : UInt64)
      (command idleTimeout hardTimeout priority : UInt16) (bufferId : UInt32)
      (outPort flags : UInt16) (actions : Option OpenflowActions)
  | portMod (portNo : UInt16) (hwAddr : HwAddr) (config mask advertise : UInt32)
  | descStatsRequest (flags : UInt16)
  | flowStatsRequest (flags : UInt16) (m : Record UInt8 ofpMatch) (tableId : UInt8)
      (outPort : UInt16)
  | aggregateStatsRequest (flags : UInt16) (m : Record UInt8 ofpMatch) (tableId : UInt8)
      (outPort : UInt16)
  | tableStatsRequest (flags : UInt16)
  | portStatsRequest (flags portNo : UInt16)
  | queueStatsRequest (flags portNo : UInt16) (queueId : UInt32)
  | vendorStatsRequest (flags : UInt16) (vendorId : UInt32) (body : Option Buffer)
  | descStatsReply (flags : UInt16) (mfrDesc hwDesc swDesc serialNum dpDesc : List UInt8)
  | flowStatsReply (flags : UInt16) (flows : List (List UInt8))
  | aggregateStatsReply (flags : UInt16) (packetCount byteCount : UInt64) (flowCount : UInt32)
  | tableStatsReply (flags : UInt16) (tables : List (Record UInt8 ofpTableStats))
  | portStatsReply (flags : UInt16) (ports : List (Record UInt8 ofpPortStats))
  | queueStatsReply (flags : UInt16) (queues : List (Record UInt8 ofpQueueStats))
  | vendorStatsReply (flags : UInt16) (vendorId : UInt32) (body : Option Buffer)
  | barrierRequest
  | barrierReply
  | queueGetConfigRequest (port : UInt16)
  | queueGetConfigReply (port : UInt16) (queues : List (List UInt8))

/-- The message that a function other than `ccCreatePacketOut` returns. -/
def created (m : Action (Option Buffer)) : Action (ℤ ⊕ Option Buffer) := do
  let buf ← m
  pure (.inr buf)

def Builder.create (host : Host) (xid : UInt32) : Builder → Action (ℤ ⊕ Option Buffer)
  | hello => created (ccCreateHello host xid)
  | error type code data => created (ccCreateError host xid type code data)
  | echoRequest buf => created (ccCreateEchoRequest host xid buf)
  | echoReply buf => created (ccCreateEchoReply host xid buf)
  | vendor vendorId data => created (ccCreateVendor host xid vendorId data)
  | featuresRequest => created (ccCreateFeaturesRequest host xid)
  | featuresReply datapathId nBuffers nTables capabilities actions ports =>
    created (ccCreateFeaturesReply host xid datapathId nBuffers nTables capabilities actions
      ports)
  | getConfigRequest => created (ccCreateGetConfigRequest host xid)
  | getConfigReply flags missSendLen =>
    created (ccCreateGetConfigReply host xid flags missSendLen)
  | setConfig flags missSendLen => created (ccCreateSetConfig host xid flags missSendLen)
  | packetIn bufferId totalLen inPort reason data =>
    created (ccCreatePacketIn host xid bufferId totalLen inPort reason data)
  | flowRemoved m cookie priority reason durationSec durationNsec idleTimeout packetCount
      byteCount =>
    created (ccCreateFlowRemoved host xid m cookie priority reason durationSec durationNsec
      idleTimeout packetCount byteCount)
  | portStatus reason desc => created (ccCreatePortStatus host xid reason desc)
  | packetOut bufferId inPort actions data =>
    ccCreatePacketOut host xid bufferId inPort actions data
  | flowMod m cookie command idleTimeout hardTimeout priority bufferId outPort flags actions =>
    created (ccCreateFlowMod host xid m cookie command idleTimeout hardTimeout priority bufferId
      outPort flags actions)
  | portMod portNo hwAddr config mask advertise =>
    created (ccCreatePortMod host xid portNo hwAddr config mask advertise)
  | descStatsRequest flags => created (ccCreateDescStatsRequest host xid flags)
  | flowStatsRequest flags m tableId outPort =>
    created (ccCreateFlowStatsRequest host xid flags m tableId outPort)
  | aggregateStatsRequest flags m tableId outPort =>
    created (ccCreateAggregateStatsRequest host xid flags m tableId outPort)
  | tableStatsRequest flags => created (ccCreateTableStatsRequest host xid flags)
  | portStatsRequest flags portNo => created (ccCreatePortStatsRequest host xid flags portNo)
  | queueStatsRequest flags portNo queueId =>
    created (ccCreateQueueStatsRequest host xid flags portNo queueId)
  | vendorStatsRequest flags vendorId body =>
    created (ccCreateVendorStatsRequest host xid flags vendorId body)
  | descStatsReply flags mfrDesc hwDesc swDesc serialNum dpDesc =>
    created (ccCreateDescStatsReply host xid flags mfrDesc hwDesc swDesc serialNum dpDesc)
  | flowStatsReply flags flows => created (ccCreateFlowStatsReply host xid flags flows)
  | aggregateStatsReply flags packetCount byteCount flowCount =>
    created (ccCreateAggregateStatsReply host xid flags packetCount byteCount flowCount)
  | tableStatsReply flags tables => created (ccCreateTableStatsReply host xid flags tables)
  | portStatsReply flags ports => created (ccCreatePortStatsReply host xid flags ports)
  | queueStatsReply flags queues => created (ccCreateQueueStatsReply host xid flags queues)
  | vendorStatsReply flags vendorId body =>
    created (ccCreateVendorStatsReply host xid flags vendorId body)
  | barrierRequest => created (ccCreateBarrierRequest host xid)
  | barrierReply => created (ccCreateBarrierReply host xid)
  | queueGetConfigRequest port => created (ccCreateQueueGetConfigRequest host xid port)
  | queueGetConfigReply port queues =>
    created (ccCreateQueueGetConfigReply host xid port queues)

end CcController
