import CcController.HostOrder
import CcController.MessageBounds

/-!
# Lists of actions

An action in a list is a block of its own, with its numbers in the byte order of the host.
The `append` functions build the block of a new action and put it at the end of a list; what
they do not store in a block stays as it was before, uninitialised. `htonAction` copies an
action into a message and `ntohAction` copies one out.

`HostAction` is a block that holds an action in the length that its type requires. All blocks
that are appended are such.
-/

namespace CcController

/-! ### The structures -/

def ofpActionOutput : Struct :=
  [.number 2, .number 2, .number 2, .number 2]

def ofpActionVlanVid : Struct :=
  [.number 2, .number 2, .number 2, .pad 2]

def ofpActionVlanPcp : Struct :=
  [.number 2, .number 2, .bytes 1, .pad 3]

def ofpActionHeader : Struct :=
  [.number 2, .number 2, .pad 4]

def ofpActionDlAddr : Struct :=
  [.number 2, .number 2, .bytes 6, .pad 6]

def ofpActionNwAddr : Struct :=
  [.number 2, .number 2, .number 4]

def ofpActionNwTos : Struct :=
  [.number 2, .number 2, .bytes 1, .pad 3]

def ofpActionTpPort : Struct :=
  [.number 2, .number 2, .number 2, .pad 2]

def ofpActionEnqueue : Struct :=
  [.number 2, .number 2, .number 2, .pad 6, .number 4]

/-- The part of a vendor's action before its body. -/
def ofpActionVendorHeader : Struct :=
  [.number 2, .number 2, .number 4]

/-- The switch of `htonAction` and `ntohAction` over the types, without the vendor's. -/
def actionStruct (type : UInt16) : Option Struct :=
  if type = ofpatOutput then some ofpActionOutput
  else if type = ofpatSetVlanVid then some ofpActionVlanVid
  else if type = ofpatSetVlanPcp then some ofpActionVlanPcp
  else if type = ofpatStripVlan then some ofpActionHeader
  else if type = ofpatSetDlSrc ∨ type = ofpatSetDlDst then some ofpActionDlAddr
  else if type = ofpatSetNwSrc ∨ type = ofpatSetNwDst then some ofpActionNwAddr
  else if type = ofpatSetNwTos then some ofpActionNwTos
  else if type = ofpatSetTpSrc ∨ type = ofpatSetTpDst then some ofpActionTpPort
  else if type = ofpatEnqueue then some ofpActionEnqueue
  else none

/-! ### Appending -/

/-- A list of actions, with the count that is kept of them. -/
structure OpenflowActions where
  nActions : Int32
  list : List (List UInt8)

def createActions : Action OpenflowActions := do
  mallocUnchecked
  pure { nActions := 0, list := [] }

def appendToTail (list : List (List UInt8)) (data : List UInt8) :
    Action (ℤ × List (List UInt8)) := do
  mallocUnchecked
  pure (ccENone, list ++ [data])

/-- What the `append` functions do with the block they have built. -/
def appendBlock (actions : OpenflowActions) (block : List UInt8) :
    Action (ℤ × OpenflowActions) := do
  let (ret, list) ← appendToTail actions.list block
  if ret ≥ 0 then pure (ret, { nActions := actions.nActions + 1, list := list })
  else pure (ret, { actions with list := list })

/-- An Ethernet address. -/
structure HwAddr where
  bytes : List UInt8
  size : bytes.length = 6

/-- A buffer that has as many bytes as its length says. -/
structure Payload where
  buffer : Buffer
  exact : (buffer.data.getD []).length = buffer.length

/-- The first `n` bytes of a buffer. -/
def copyData (data : Option Buffer) (n : ℕ) : Action (List UInt8) :=
  match data with
  | none => Program.stop .null
  | some data =>
    match data.data with
    | none => Program.stop .null
    | some block => copyOut block 0 n

section

variable (host : Host) (uninit : Memory) (actions : OpenflowActions)

def appendActionOutput (port maxLen : UInt16) : Action (ℤ × OpenflowActions) := do
  mallocUnchecked
  appendBlock actions
    (host.half ofpatOutput ++ host.half 8 ++ host.half port ++ host.half maxLen)

def appendActionSetVlanVid (vlanVid : UInt16) : Action (ℤ × OpenflowActions) := do
  mallocUnchecked
  appendBlock actions
    (host.half ofpatSetVlanVid ++ host.half 8 ++ host.half vlanVid ++ bytesAt uninit 6 2)

def appendActionSetVlanPcp (vlanPcp : UInt8) : Action (ℤ × OpenflowActions) := do
  mallocUnchecked
  appendBlock actions
    (host.half ofpatSetVlanPcp ++ host.half 8 ++ [vlanPcp] ++ bytesAt uninit 5 3)

def appendActionStripVlan : Action (ℤ × OpenflowActions) := do
  mallocUnchecked
  appendBlock actions (host.half ofpatStripVlan ++ host.half 8 ++ bytesAt uninit 4 4)

def appendActionSetDlAddr (type : UInt16) (hwAddr : HwAddr) : Action (ℤ × OpenflowActions) := do
  mallocUnchecked
  appendBlock actions (host.half type ++ host.half 16 ++ hwAddr.bytes ++ bytesAt uninit 10 6)

def appendActionSetDlSrc (hwAddr : HwAddr) : Action (ℤ × OpenflowActions) :=
  appendActionSetDlAddr host uninit actions ofpatSetDlSrc hwAddr

def appendActionSetDlDst (hwAddr : HwAddr) : Action (ℤ × OpenflowActions) :=
  appendActionSetDlAddr host uninit actions ofpatSetDlDst hwAddr

def appendActionSetNwAddr (type : UInt16) (nwAddr : UInt32) : Action (ℤ × OpenflowActions) := do
  mallocUnchecked
  appendBlock actions (host.half type ++ host.half 8 ++ host.bytes nwAddr)

def appendActionSetNwSrc (nwAddr : UInt32) : Action (ℤ × OpenflowActions) :=
  appendActionSetNwAddr host actions ofpatSetNwSrc nwAddr

def appendActionSetNwDst (nwAddr : UInt32) : Action (ℤ × OpenflowActions) :=
  appendActionSetNwAddr host actions ofpatSetNwDst nwAddr

def appendActionSetNwTos (nwTos : UInt8) : Action (ℤ × OpenflowActions) := do
  mallocUnchecked
  appendBlock actions
    (host.half ofpatSetNwTos ++ host.half 8 ++ [nwTos] ++ bytesAt uninit 5 3)

def appendActionSetTpPort (type : UInt16) (tpPort : UInt16) : Action (ℤ × OpenflowActions) := do
  mallocUnchecked
  appendBlock actions (host.half type ++ host.half 8 ++ host.half tpPort ++ bytesAt uninit 6 2)

def appendActionSetTpSrc (tpPort : UInt16) : Action (ℤ × OpenflowActions) :=
  appendActionSetTpPort host uninit actions ofpatSetTpSrc tpPort

def appendActionSetTpDst (tpPort : UInt16) : Action (ℤ × OpenflowActions) :=
  appendActionSetTpPort host uninit actions ofpatSetTpDst tpPort

def appendActionEnqueue (port : UInt16) (queueId : UInt32) : Action (ℤ × OpenflowActions) := do
  mallocUnchecked
  appendBlock actions (host.half ofpatEnqueue ++ host.half 16 ++ host.half port
    ++ bytesAt uninit 6 6 ++ host.bytes queueId)

/-- The length of the body is cut to a `uint16_t`, and so is the length of the action. -/
def appendActionVendor (vendor : UInt32) (body : Option Buffer) :
    Action (ℤ × OpenflowActions) := do
  let bodyLength := dataLength body
  mallocUnchecked
  let header := host.half ofpatVendor ++ host.half (8 + bodyLength) ++ host.bytes vendor
  if bodyLength > 0 then do
    let bytes ← copyData body bodyLength.toNat
    appendBlock actions (header ++ bytes)
  else appendBlock actions header

end

/-- A call of one of the `append` functions. -/
inductive AppendCall where
  | output (port maxLen : UInt16)
  | setVlanVid (vlanVid : UInt16)
  | setVlanPcp (vlanPcp : UInt8)
  | stripVlan
  | setDlSrc (hwAddr : HwAddr)
  | setDlDst (hwAddr : HwAddr)
  | setNwSrc (nwAddr : UInt32)
  | setNwDst (nwAddr : UInt32)
  | setNwTos (nwTos : UInt8)
  | setTpSrc (tpPort : UInt16)
  | setTpDst (tpPort : UInt16)
  | enqueue (port : UInt16) (queueId : UInt32)
  | vendor (vendorId : UInt32) (body : Option Payload)

def AppendCall.run (host : Host) (uninit : Memory) (actions : OpenflowActions) :
    AppendCall → Action (ℤ × OpenflowActions)
  | .output port maxLen => appendActionOutput host actions port maxLen
  | .setVlanVid vlanVid => appendActionSetVlanVid host uninit actions vlanVid
  | .setVlanPcp vlanPcp => appendActionSetVlanPcp host uninit actions vlanPcp
  | .stripVlan => appendActionStripVlan host uninit actions
  | .setDlSrc hwAddr => appendActionSetDlSrc host uninit actions hwAddr
  | .setDlDst hwAddr => appendActionSetDlDst host uninit actions hwAddr
  | .setNwSrc nwAddr => appendActionSetNwSrc host actions nwAddr
  | .setNwDst nwAddr => appendActionSetNwDst host actions nwAddr
  | .setNwTos nwTos => appendActionSetNwTos host uninit actions nwTos
  | .setTpSrc tpPort => appendActionSetTpSrc host uninit actions tpPort
  | .setTpDst tpPort => appendActionSetTpDst host uninit actions tpPort
  | .enqueue port queueId => appendActionEnqueue host uninit actions port queueId
  | .vendor vendorId body => appendActionVendor host actions vendorId (body.map Payload.buffer)

/-- Calls one after the other, each with what its new block holds before it is filled. -/
def appendActions (host : Host) (actions : OpenflowActions) :
    List (Memory × AppendCall) → Action OpenflowActions
  | [] => pure actions
  | (uninit, call) :: calls => do
    let (_, actions) ← call.run host uninit actions
    appendActions host actions calls

/-! ### Lengths and copies -/

/-- Read a 16-bit number of a block. -/
def readShort (host : Host) (block : List UInt8) (p : ℕ) : Action UInt16 :=
  if p + 2 ≤ block.length then pure (host.short block p) else Program.stop .overrun

/-- The loop of `getActionsLength`: a defined type is at most `ofpatEnqueue` or a vendor's. The
sum is an `int`. -/
def sumLengths (host : Host) : List (List UInt8) → Int32 → Action (Option Int32)
  | [], actionsLength => pure (some actionsLength)
  | action :: list, actionsLength => do
    let type ← readShort host action 0
    if type ≤ ofpatEnqueue ∨ type = ofpatVendor then do
      let len ← readShort host action 2
      sumLengths host list (actionsLength + Int32.ofNat len.toNat)
    else pure none

def getActionsLength (host : Host) (actions : OpenflowActions) : Action ℤ := do
  let sum ← sumLengths host actions.list 0
  match sum with
  | none => pure ccEErr
  | some actionsLength =>
    if actionsLength.toInt > ushrtMax.toNat then pure ccEErr
    else pure (UInt16.ofInt actionsLength.toInt).toNat

/-- A structure that begins at `q` in a block, copied into a message. It is read whole. -/
def htonStruct (host : Host) (layout : Struct) (src : List UInt8) (q : ℕ) :
    Action (List UInt8) := do
  let bytes ← copyOut src q layout.size
  pure (layout.convert host.littleEndian bytes)

/-- How many bytes `copy_action_vendor_body` is told to copy; the difference is a `size_t`. -/
def vendorBodyLength (len : UInt16) : ℕ :=
  (len.toNat + (2 ^ 64 - 8)) % 2 ^ 64

theorem vendorBodyLength_toNat {len : UInt16} (h : 8 ≤ len.toNat) :
  vendorBodyLength len = len.toNat - 8
  := by
  have hlt := len.toNat_lt
  rw [vendorBodyLength]
  omega

def htonActionVendor (host : Host) (src : List UInt8) (q : ℕ) : Action (List UInt8) := do
  let header ← htonStruct host ofpActionVendorHeader src q
  let len ← readShort host src (q + 2)
  let body ← copyOut src (q + 8) (vendorBodyLength len)
  pure (header ++ body)

/-- The bytes that are stored for the action at `q` in a block. Another type than the defined
ones ends the process. -/
def htonAction (host : Host) (src : List UInt8) (q : ℕ) : Action (List UInt8) := do
  let type ← readShort host src q
  match actionStruct type with
  | some layout => htonStruct host layout src q
  | none =>
    if type = ofpatVendor then htonActionVendor host src q else Program.stop .diverges

def ntohActionVendor (host : Host) (src : ℕ) : MessageReader (List UInt8) := do
  let header ← ntohStruct host ofpActionVendorHeader src
  let body ← bcopy (src + 8) (vendorBodyLength (host.short header 2))
  pure (header ++ body)

/-- Nothing is stored for another type than the defined ones. -/
def ntohAction (host : Host) (src : ℕ) : MessageReader (Option (List UInt8)) := do
  let type ← ntohs src
  match actionStruct type with
  | some layout => do
    let action ← ntohStruct host layout src
    pure (some action)
  | none =>
    if type = ofpatVendor then do
      let action ← ntohActionVendor host src
      pure (some action)
    else pure none

/-! ### Actions of the right length -/

/-- The fields of an action that has a defined type and the length its type requires. -/
def actionShape (type len : UInt16) : Option Struct :=
  match actionStruct type with
  | some layout => if layout.size = len.toNat then some layout else none
  | none =>
    if type = ofpatVendor ∧ 8 ≤ len then
      some (ofpActionVendorHeader ++ [.bytes (len.toNat - 8)])
    else none

/-- A block with an action in host order. -/
structure HostAction (host : Host) where
  block : List UInt8
  layout : Struct
  shape : actionShape (host.short block 0) (host.short block 2) = some layout
  size : block.length = layout.size

/-- An action of the shape begins with its type and its length. -/
structure Shaped (type len : UInt16) (layout : Struct) : Prop where
  typeField : layout[0]? = some (.number 2)
  lenField : layout[1]? = some (.number 2)
  size : layout.size = len.toNat
  legal : type = ofpatVendor ∧ 8 ≤ len ∨ actionSize type = some len
  min : 8 ≤ layout.size
  defined : type ≤ ofpatEnqueue ∨ type = ofpatVendor

section

variable {host : Host} {type len : UInt16} {layout : Struct}

/-- The structures of the defined types have the sizes that the validators expect. -/
theorem actionStruct_some (h : actionStruct type = some layout) :
  layout[0]? = some (.number 2) ∧ layout[1]? = some (.number 2) ∧ 8 ≤ layout.size ∧
    actionSize type = some (UInt16.ofNat layout.size) ∧ type ≤ ofpatEnqueue
  := by
  rcases actionType_cases type with rfl | rfl | rfl | rfl | rfl | rfl | rfl | rfl | rfl | rfl
    | rfl | rfl | rfl | hnone
  case inr.inr.inr.inr.inr.inr.inr.inr.inr.inr.inr.inr.inr =>
    simp [actionStruct, hnone] at h
  case inr.inr.inr.inr.inr.inr.inr.inr.inr.inr.inr.inr.inl =>
    cases h
  all_goals
    cases h
    decide

theorem shaped_of_shape (h : actionShape type len = some layout) :
  Shaped type len layout
  := by
  unfold actionShape at h
  split at h
  · next layout' hstruct =>
      split at h
      · next hsize =>
          obtain rfl := Option.some.inj h
          obtain ⟨hfirst, hsecond, hmin, hactionSize, htype⟩ := actionStruct_some hstruct
          rw [hsize, UInt16.ofNat_toNat] at hactionSize
          exact ⟨hfirst, hsecond, hsize, .inr hactionSize, hmin, .inl htype⟩
      · cases h
  · split at h
    · next hvendor =>
        obtain rfl := Option.some.inj h
        have hle := UInt16.le_iff_toNat_le.mp hvendor.2
        have height : UInt16.toNat 8 = 8 := rfl
        have hsize : Struct.size (ofpActionVendorHeader ++ [.bytes (len.toNat - 8)])
            = len.toNat := by
          rw [Struct.size_append, Struct.size_cons, Struct.Field.size, Struct.size_nil]
          change 8 + _ = _
          omega
        exact ⟨rfl, rfl, hsize, .inl hvendor, by omega, .inr hvendor.1⟩
    · cases h

theorem Shaped.take_two (h : Shaped type len layout) :
  layout.take 2 = [.number 2, .number 2]
  := by
  match layout, h.typeField, h.lenField with
  | _ :: _ :: _, rfl, rfl => rfl

theorem Shaped.offset_one (h : Shaped type len layout) :
  layout.offset 1 = 2
  := by
  match layout, h.typeField with
  | _ :: _, rfl => rfl

theorem Shaped.offset_two (h : Shaped type len layout) :
  layout.offset 2 = 4
  := by
  rw [Struct.offset, h.take_two]
  rfl

end

namespace HostAction

variable {host : Host} {mem : Memory} {p : ℕ}

abbrev type (a : HostAction host) : UInt16 :=
  host.short a.block 0

abbrev len (a : HostAction host) : UInt16 :=
  host.short a.block 2

/-- What is put into a message for the action. -/
def wire (a : HostAction host) : List UInt8 :=
  a.layout.convert host.littleEndian a.block

/-- The arguments are legal. -/
def Legal (a : HostAction host) : Prop :=
  (a.type = ofpatOutput ∨ a.type = ofpatEnqueue →
    validatePhyPortNo (host.short a.block 4) = 0) ∧
  (a.type = ofpatSetVlanVid → validateVlanVid (host.short a.block 4) = 0) ∧
  (a.type = ofpatSetVlanPcp → validateVlanPcp (a.block.getD 4 0) = 0) ∧
  (a.type = ofpatSetNwTos → validateNwTos (a.block.getD 4 0) = 0)

theorem shaped (a : HostAction host) :
  Shaped a.type a.len a.layout
  := shaped_of_shape a.shape

theorem length_block (a : HostAction host) :
  a.block.length = a.len.toNat
  := a.size.trans a.shaped.size

theorem size_le (a : HostAction host) :
  a.layout.size ≤ a.block.length
  := Nat.le_of_eq a.size.symm

theorem eight_le (a : HostAction host) :
  8 ≤ a.len.toNat
  := by
  rw [← a.shaped.size]
  exact a.shaped.min

@[simp]
theorem length_wire (a : HostAction host) :
  a.wire.length = a.len.toNat
  := by
  rw [wire, Struct.length_convert a.size_le, a.shaped.size]

theorem be16_type {a : HostAction host} (h : Holds mem p a.wire) :
  be16 mem p = a.type
  := be16_hton (o := 0) h a.size_le a.shaped.typeField rfl

theorem be16_len {a : HostAction host} (h : Holds mem p a.wire) :
  be16 mem (p + 2) = a.len
  := be16_hton h a.size_le a.shaped.lenField a.shaped.offset_one

/-- The fields of an action of a type other than the vendor's. -/
theorem layout_eq {a : HostAction host} {layout : Struct} (h : actionStruct a.type = some layout) :
  a.layout = layout
  := by
  have hshape : (if layout.size = a.len.toNat then some layout else none) = some a.layout := by
    rw [← a.shape, actionShape, h]
  split at hshape
  · exact (Option.some.inj hshape).symm
  · cases hshape

/-- A legal action is legal in a message. -/
theorem Legal.legalAction {a : HostAction host} (ha : a.Legal) (h : Holds mem p a.wire) :
  LegalAction mem p
  := by
  rw [LegalAction, be16_type h, be16_len h]
  rcases a.shaped.legal with hvendor | hlen
  · exact .inl hvendor
  · refine .inr ⟨hlen, ?_⟩
    rw [LegalArgs, be16_type h]
    obtain ⟨hport, hvid, hpcp, htos⟩ := ha
    refine ⟨fun htype => ?_, fun htype => ?_, fun htype => ?_, fun htype => ?_⟩
    · rw [be16_hton (k := 2) h a.size_le ?_ a.shaped.offset_two]
      · exact hport htype
      · rcases htype with htype | htype
        · rw [layout_eq (by rw [htype]; rfl)]
          rfl
        · rw [layout_eq (by rw [htype]; rfl)]
          rfl
    · rw [be16_hton (k := 2) h a.size_le ?_ a.shaped.offset_two]
      · exact hvid htype
      · rw [layout_eq (by rw [htype]; rfl)]
        rfl
    · rw [byte_hton (k := 2) h a.size_le ?_ a.shaped.offset_two]
      · exact hpcp htype
      · rw [layout_eq (by rw [htype]; rfl)]
        rfl
    · rw [byte_hton (k := 2) h a.size_le ?_ a.shaped.offset_two]
      · exact htos htype
      · rw [layout_eq (by rw [htype]; rfl)]
        rfl

/-- The fields of a vendor's action. -/
theorem layout_eq_vendor {a : HostAction host} (h : actionStruct a.type = none) :
  a.type = ofpatVendor ∧ a.layout = ofpActionVendorHeader ++ [.bytes (a.len.toNat - 8)]
  := by
  have hshape : (if a.type = ofpatVendor ∧ 8 ≤ a.len then
      some (ofpActionVendorHeader ++ [.bytes (a.len.toNat - 8)]) else none) = some a.layout := by
    rw [← a.shape, actionShape, h]
  split at hshape
  · next hvendor => exact ⟨hvendor.1, (Option.some.inj hshape).symm⟩
  · cases hshape

/-- What is behind the header of a vendor's action is copied as it is. -/
theorem wire_vendor {a : HostAction host} (h : actionStruct a.type = none) (swap : Bool) :
  a.layout.convert swap a.block
    = ofpActionVendorHeader.convert swap a.block ++ a.block.drop 8
  := by
  have hsize : (a.block.drop 8).length = a.len.toNat - 8 := by
    rw [List.length_drop, a.length_block]
  rw [(layout_eq_vendor h).2, Struct.convert_append]
  change _ ++ ((a.block.drop 8).take (a.len.toNat - 8) ++ []) = _
  rw [List.append_nil, ← hsize, List.take_length]

theorem vendorBodyLength_eq (a : HostAction host) :
  vendorBodyLength a.len = a.len.toNat - 8
  := vendorBodyLength_toNat a.eight_le

theorem readShort_eq {a : HostAction host} {before after : List UInt8} {o : ℕ} (ho : o + 2 ≤ 8) :
  readShort host (before ++ (a.block ++ after)) (before.length + o)
    = pure (host.short a.block o)
  := by
  have hmin := a.eight_le
  have hlength := a.length_block
  rw [readShort, if_pos, Host.short_append before after (by omega)]
  rw [List.length_append, List.length_append]
  omega

theorem htonStruct_eq {a : HostAction host} {layout : Struct} (h : layout.size ≤ a.block.length)
    {before after : List UInt8} :
  htonStruct host layout (before ++ (a.block ++ after)) before.length
    = pure (layout.convert host.littleEndian a.block)
  := by
  have hcopy := copyOut_append before after (o := 0)
    (show 0 + layout.size ≤ a.block.length by omega)
  rw [Nat.add_zero, List.drop_zero] at hcopy
  rw [htonStruct, hcopy, pure_bind, Struct.convert_take h]

/-- An action is copied into a message out of any block it is a part of. -/
theorem htonAction_eq (a : HostAction host) (before after : List UInt8) :
  htonAction host (before ++ (a.block ++ after)) before.length = pure a.wire
  := by
  have htype : readShort host (before ++ (a.block ++ after)) before.length = pure a.type :=
    readShort_eq (o := 0) (by omega)
  rw [htonAction, htype, pure_bind]
  cases hstruct : actionStruct a.type with
  | some layout =>
      have hlayout := layout_eq hstruct
      rw [wire, hlayout]
      apply htonStruct_eq
      rw [← hlayout]
      exact a.size_le
  | none =>
      have hmin := a.eight_le
      have hlength := a.length_block
      have hheader : ofpActionVendorHeader.size ≤ a.block.length := by
        rw [hlength]
        exact hmin
      have hbody := copyOut_append before after
        (show 8 + (a.len.toNat - 8) ≤ a.block.length by omega)
      have hrest : (a.block.drop 8).take (a.len.toNat - 8) = a.block.drop 8 := by
        apply List.take_of_length_le
        rw [List.length_drop, hlength]
      simp only [(layout_eq_vendor hstruct).1, if_true]
      rw [htonActionVendor, htonStruct_eq hheader, pure_bind, readShort_eq (by omega),
        pure_bind, vendorBodyLength_eq, hbody, pure_bind, hrest, wire, wire_vendor hstruct]

/-- An action is copied out of a message with its padding cleared. -/
theorem ntohAction_returns {a : HostAction host} (h : Holds mem p a.wire)
    {r : Option (List UInt8)} :
  (ntohAction host p).Returns mem r ↔ r = some (a.layout.clear a.block)
  := by
  rw [ntohAction]
  simp only [Reader.returns_bind, returns_ntohs, exists_eq_left, be16_type h]
  cases hstruct : actionStruct a.type with
  | some layout =>
      have hlayout := layout_eq hstruct
      simp only [Reader.returns_bind, Reader.returns_pure]
      rw [wire, hlayout] at h
      simp only [ntohStruct_returns (hlayout ▸ a.size_le) h, exists_eq_left, hlayout]
  | none =>
      have hsize := a.size_le
      have hlength := a.length_block
      have hmin := a.eight_le
      have hheader : ofpActionVendorHeader.size ≤ a.block.length := by
        rw [hlength]
        exact hmin
      rw [wire, wire_vendor hstruct, holds_append, Struct.length_convert hheader] at h
      simp only [(layout_eq_vendor hstruct).1, if_true, ntohActionVendor, Reader.returns_bind,
        Reader.returns_pure, ntohStruct_returns hheader h.1, exists_eq_left,
        (yields_bcopy _ _).returns]
      have hclear : ofpActionVendorHeader.clear a.block = a.block.take 8 :=
        Struct.clear_eq_take (by simp [ofpActionVendorHeader])
      have hlen : host.short (a.block.take 8) 2 = a.len := by
        have hshort : host.short ([] ++ (a.block.take 8 ++ a.block.drop 8)) (0 + 2)
            = host.short (a.block.take 8) 2 :=
          Host.short_append [] _ (by rw [List.length_take]; omega)
        rw [List.take_append_drop] at hshort
        exact hshort.symm
      have hbody : bytesAt mem (p + 8) (a.len.toNat - 8) = a.block.drop 8 := by
        rw [← hlength, ← List.length_drop]
        exact h.2.map_range'
      have hwire : a.layout.clear a.block = ofpActionVendorHeader.clear a.block ++ a.block.drop 8 :=
        wire_vendor hstruct false
      rw [hwire, hclear, hlen, vendorBodyLength_eq, hbody]

end HostAction

/-! ### What is appended -/

/-- The bytes of the buffer, of which there are none without one. -/
def payloadBytes (payload : Option Payload) : List UInt8 :=
  match payload with
  | none => []
  | some payload => payload.buffer.data.getD []

theorem dataLength_payload {payload : Option Payload} (h : (payloadBytes payload).length < 2 ^ 16) :
  (dataLength (payload.map Payload.buffer)).toNat = (payloadBytes payload).length
  := by
  cases payload with
  | none => rfl
  | some payload =>
      rw [payloadBytes, payload.exact] at h
      rw [payloadBytes, payload.exact]
      exact UInt16.toNat_ofNat_of_lt' h

theorem dataLength_payload_pos {payload : Option Payload}
    (h : (payloadBytes payload).length < 2 ^ 16) :
  dataLength (payload.map Payload.buffer) > 0 ↔ 0 < (payloadBytes payload).length
  := by
  rw [gt_iff_lt, UInt16.lt_iff_toNat_lt, dataLength_payload h]
  rfl

/-- The whole of a buffer is copied. -/
theorem copyData_payload {payload : Option Payload} (hpos : 0 < (payloadBytes payload).length) :
  copyData (payload.map Payload.buffer) (payloadBytes payload).length
    = pure (payloadBytes payload)
  := by
  cases payload with
  | none => exact absurd hpos (Nat.lt_irrefl 0)
  | some payload =>
      obtain ⟨⟨addr, data, length⟩, hexact⟩ := payload
      cases data with
      | none => exact absurd hpos (Nat.lt_irrefl 0)
      | some block => exact copyOut_whole

namespace AppendCall

/-- The block that is appended. -/
def block (host : Host) (uninit : Memory) : AppendCall → List UInt8
  | output port maxLen =>
    host.half ofpatOutput ++ host.half 8 ++ host.half port ++ host.half maxLen
  | setVlanVid vlanVid =>
    host.half ofpatSetVlanVid ++ host.half 8 ++ host.half vlanVid ++ bytesAt uninit 6 2
  | setVlanPcp vlanPcp =>
    host.half ofpatSetVlanPcp ++ host.half 8 ++ [vlanPcp] ++ bytesAt uninit 5 3
  | stripVlan => host.half ofpatStripVlan ++ host.half 8 ++ bytesAt uninit 4 4
  | setDlSrc hwAddr =>
    host.half ofpatSetDlSrc ++ host.half 16 ++ hwAddr.bytes ++ bytesAt uninit 10 6
  | setDlDst hwAddr =>
    host.half ofpatSetDlDst ++ host.half 16 ++ hwAddr.bytes ++ bytesAt uninit 10 6
  | setNwSrc nwAddr => host.half ofpatSetNwSrc ++ host.half 8 ++ host.bytes nwAddr
  | setNwDst nwAddr => host.half ofpatSetNwDst ++ host.half 8 ++ host.bytes nwAddr
  | setNwTos nwTos => host.half ofpatSetNwTos ++ host.half 8 ++ [nwTos] ++ bytesAt uninit 5 3
  | setTpSrc tpPort =>
    host.half ofpatSetTpSrc ++ host.half 8 ++ host.half tpPort ++ bytesAt uninit 6 2
  | setTpDst tpPort =>
    host.half ofpatSetTpDst ++ host.half 8 ++ host.half tpPort ++ bytesAt uninit 6 2
  | enqueue port queueId =>
    host.half ofpatEnqueue ++ host.half 16 ++ host.half port ++ bytesAt uninit 6 6
      ++ host.bytes queueId
  | vendor vendorId body =>
    host.half ofpatVendor ++ host.half (8 + dataLength (body.map Payload.buffer))
      ++ host.bytes vendorId ++ payloadBytes body

/-- The structure of the block that is appended. -/
def layout : AppendCall → Struct
  | output _ _ => ofpActionOutput
  | setVlanVid _ => ofpActionVlanVid
  | setVlanPcp _ => ofpActionVlanPcp
  | stripVlan => ofpActionHeader
  | setDlSrc _ => ofpActionDlAddr
  | setDlDst _ => ofpActionDlAddr
  | setNwSrc _ => ofpActionNwAddr
  | setNwDst _ => ofpActionNwAddr
  | setNwTos _ => ofpActionNwTos
  | setTpSrc _ => ofpActionTpPort
  | setTpDst _ => ofpActionTpPort
  | enqueue _ _ => ofpActionEnqueue
  | vendor _ body => ofpActionVendorHeader ++ [.bytes (payloadBytes body).length]

/-- A vendor's body is not longer than an action can be. -/
def Fits : AppendCall → Prop
  | vendor _ body => (payloadBytes body).length ≤ 65527
  | _ => True

/-- The arguments are legal. -/
def Legal : AppendCall → Prop
  | output port _ => validatePhyPortNo port = 0
  | setVlanVid vlanVid => validateVlanVid vlanVid = 0
  | setVlanPcp vlanPcp => validateVlanPcp vlanPcp = 0
  | setNwTos nwTos => validateNwTos nwTos = 0
  | enqueue port _ => validatePhyPortNo port = 0
  | _ => True

variable {host : Host} {uninit : Memory} {call : AppendCall}

@[simp]
theorem length_bytesAt {mem : Memory} {p n : ℕ} :
  (bytesAt mem p n).length = n
  := by
  simp [bytesAt]

theorem length_block :
  (call.block host uninit).length = call.layout.size
  := by
  cases call with
  | setDlSrc hwAddr => simp [block, layout, hwAddr.size, ofpActionDlAddr, Struct.Field.size]
  | setDlDst hwAddr => simp [block, layout, hwAddr.size, ofpActionDlAddr, Struct.Field.size]
  | vendor vendorId body =>
      simp [block, layout, ofpActionVendorHeader, Struct.Field.size]
  | _ =>
      simp only [block, List.length_append, Host.length_half, Host.length_bytes, length_bytesAt,
        List.length_singleton]
      rfl

/-- The body of a vendor's action does not make its length wrap around. -/
theorem vendor_len {body : Option Payload} (h : (payloadBytes body).length ≤ 65527) :
  (8 + dataLength (body.map Payload.buffer)).toNat = 8 + (payloadBytes body).length
  := by
  rw [UInt16.toNat_add, dataLength_payload (by omega)]
  change (8 + _) % 2 ^ 16 = _
  omega

theorem shape_block (h : call.Fits) :
  actionShape (host.short (call.block host uninit) 0) (host.short (call.block host uninit) 2)
    = some call.layout
  := by
  cases call with
  | vendor vendorId body =>
      have hlen := vendor_len h
      simp only [block, List.append_assoc, Host.short_half, Host.short_half_two]
      have hstruct : actionStruct ofpatVendor = none := rfl
      simp only [actionShape, hstruct, true_and]
      rw [if_pos, hlen, layout, Nat.add_sub_cancel_left]
      rw [UInt16.le_iff_toNat_le, hlen]
      exact Nat.le_add_right 8 _
  | _ =>
      simp only [block, List.append_assoc, Host.short_half, Host.short_half_two]
      rfl

/-- The action that is appended. -/
def action (host : Host) (uninit : Memory) (call : AppendCall) (h : call.Fits) :
    HostAction host where
  block := call.block host uninit
  layout := call.layout
  shape := shape_block h
  size := length_block

/-- The padding of an action is what its block was before, and nothing else of it. -/
theorem clear_block :
  call.layout.clear (call.block host uninit) = call.block host (fun _ => 0)
  := by
  have hnumber : ∀ {n : ℕ} {layout : Struct} {b rest : List UInt8}, b.length = n →
      Struct.convert false (.number n :: layout) (b ++ rest)
        = b ++ layout.convert false rest := fun h => Struct.convert_cons h
  have hbytes : ∀ {n : ℕ} {layout : Struct} {b rest : List UInt8}, b.length = n →
      Struct.convert false (.bytes n :: layout) (b ++ rest)
        = b ++ layout.convert false rest := fun h => Struct.convert_cons h
  have hpad : ∀ {p n : ℕ} {layout : Struct} {rest : List UInt8},
      Struct.convert false (.pad n :: layout) (bytesAt uninit p n ++ rest)
        = bytesAt (fun _ => 0) p n ++ layout.convert false rest := by
    intro p n layout rest
    have hlength : (bytesAt uninit p n).length = (Struct.Field.pad n).size := length_bytesAt
    rw [Struct.convert_cons hlength]
    simp [Struct.Field.convert, bytesAt]
  have hnil : Struct.convert false [] ([] : List UInt8) = [] := rfl
  rw [Struct.clear, ← List.append_nil (call.block host uninit)]
  cases call with
  | setDlSrc hwAddr | setDlDst hwAddr =>
      simp only [layout, block, ofpActionDlAddr, List.append_assoc, hnumber Host.length_half,
        hbytes hwAddr.size, hpad, hnil]
      simp only [List.append_nil]
  | vendor vendorId body =>
      simp only [layout, block, ofpActionVendorHeader, List.cons_append, List.nil_append,
        List.append_assoc, hnumber Host.length_half, hnumber Host.length_bytes, hbytes rfl, hnil]
      simp only [List.append_nil]
  | _ =>
      simp only [layout, block, ofpActionOutput, ofpActionVlanVid, ofpActionVlanPcp,
        ofpActionHeader, ofpActionNwAddr, ofpActionNwTos, ofpActionTpPort, ofpActionEnqueue,
        List.append_assoc, hnumber Host.length_half, hnumber Host.length_bytes,
        hbytes List.length_singleton, hpad, hnil]
      simp only [List.append_nil]

theorem appendBlock_draws {actions : OpenflowActions} {data : List UInt8} :
  Draws 1 (appendBlock actions data)
    (ccENone, { nActions := actions.nActions + 1, list := actions.list ++ [data] })
  := by
  have happend : Draws 1 (appendToTail actions.list data) (ccENone, actions.list ++ [data]) := by
    apply draws_malloc_bind
    exact draws_pure
  apply happend.bind (l := 0)
  exact draws_pure

/-- A call allocates the block of the action and the element of the list. -/
theorem run_draws {actions : OpenflowActions} (h : call.Fits) :
  Draws 2 (call.run host uninit actions)
    (ccENone, { nActions := actions.nActions + 1,
                list := actions.list ++ [call.block host uninit] })
  := by
  cases call with
  | vendor vendorId body =>
      have hlength : (payloadBytes body).length < 2 ^ 16 := by
        have hle : (payloadBytes body).length ≤ 65527 := h
        omega
      have hdata := dataLength_payload hlength
      simp only [run, appendActionVendor, hdata, block]
      apply draws_malloc_bind
      split
      · next hpos =>
          rw [copyData_payload ((dataLength_payload_pos hlength).mp hpos), pure_bind]
          exact appendBlock_draws
      · next hzero =>
          have hnil : payloadBytes body = [] := by
            rw [dataLength_payload_pos hlength] at hzero
            exact List.eq_nil_of_length_eq_zero (by omega)
          rw [hnil, List.append_nil]
          exact appendBlock_draws
  | _ => apply draws_malloc_bind appendBlock_draws

/-- One more is counted first or last. -/
theorem ofNat_succ (n : ℕ) :
  Int32.ofNat (n + 1) = 1 + Int32.ofNat n
  := by
  rw [Nat.add_comm, Int32.ofNat_add]
  rfl

/-- Calls one after the other append their actions in this order. -/
theorem appendActions_draws {calls : List (Memory × AppendCall)}
    (h : ∀ call ∈ calls, call.2.Fits) {actions : OpenflowActions} :
  Draws (2 * calls.length) (appendActions host actions calls)
    { nActions := actions.nActions + .ofNat calls.length,
      list := actions.list ++ calls.map (fun call => call.2.block host call.1) }
  := by
  induction calls generalizing actions with
  | nil =>
      rw [List.map_nil, List.append_nil, List.length_nil,
        show Int32.ofNat 0 = 0 from rfl, Int32.add_zero]
      exact draws_pure
  | cons call calls ih =>
      have hall : Draws (2 + 2 * calls.length) (appendActions host actions (call :: calls)) _ :=
        (run_draws (h call List.mem_cons_self)).bind
          (ih (fun call hcall => h call (List.mem_cons_of_mem _ hcall)))
      rw [List.length_cons, Nat.mul_succ, Nat.add_comm]
      simpa only [List.map_cons, List.append_assoc, List.singleton_append, Int32.add_assoc,
        ofNat_succ] using hall

end AppendCall

/-- Three actions, one of them with a body. -/
def threeCalls : List (Memory × AppendCall) :=
  [(fun _ => 0, .output 1 64), (fun _ => 7, .stripVlan),
    (fun _ => 0, .vendor 5 (some ⟨⟨0, some [1, 2, 3, 4, 5, 6, 7, 8], 8⟩, rfl⟩))]

theorem threeCalls_fit :
  ∀ call ∈ threeCalls, call.2.Fits
  := by
  simp [threeCalls, AppendCall.Fits, payloadBytes]

/-! ### Walks over what has been put into a message -/

section

variable {host : Host} {mem : Memory} {head : ℕ} {Legal : ℕ → Prop}

/-- A walk that has come to `offset` goes on to the end, when from there on there are legal
entries, each as long as its length field says, up to the length. -/
theorem Reached.walkEnds {length offset : UInt16} {entries : List (List UInt8)}
    (hreached : Reached mem Legal head length offset)
    (hholds : Holds mem (head + offset.toNat) entries.flatten)
    (hlegal : ∀ entry ∈ entries, ∀ p, Holds mem p entry → Legal p)
    (hlen : ∀ entry ∈ entries, ∀ p, Holds mem p entry →
      (be16 mem (p + 2)).toNat = entry.length ∧ 0 < entry.length)
    (hlength : offset.toNat + entries.flatten.length = length.toNat) :
  WalkEnds mem Legal head length
  := by
  induction entries generalizing offset with
  | nil =>
      use offset, hreached
      rw [UInt16.lt_iff_toNat_lt]
      simp at hlength
      omega
  | cons entry entries ih =>
      rw [List.flatten_cons, List.length_append] at hlength
      rw [List.flatten_cons, holds_append] at hholds
      obtain ⟨hentry, hpos⟩ := hlen entry List.mem_cons_self _ hholds.1
      have hlt := length.toNat_lt
      have hoffset : (offset + be16 mem (head + offset.toNat + 2)).toNat
          = offset.toNat + entry.length := by
        rw [UInt16.toNat_add, hentry, Nat.mod_eq_of_lt (by omega)]
      have hnext := hreached.next (by rw [UInt16.lt_iff_toNat_lt]; omega)
        (hlegal entry List.mem_cons_self _ hholds.1)
      apply ih hnext
      · rw [hoffset, ← Nat.add_assoc]
        exact hholds.2
      · intro entry' hmem
        apply hlegal entry' (List.mem_cons_of_mem _ hmem)
      · intro entry' hmem
        apply hlen entry' (List.mem_cons_of_mem _ hmem)
      · omega

variable {actions : List (HostAction host)}

/-- The actions as they are in a message. -/
def wires (actions : List (HostAction host)) : List UInt8 :=
  (actions.map HostAction.wire).flatten

/-- How long the actions are together. -/
def sizes (actions : List (HostAction host)) : ℕ :=
  (actions.map (fun a => a.len.toNat)).sum

@[simp]
theorem length_wires :
  (wires actions).length = sizes actions
  := by
  apply length_flatten_map
  intro a _
  exact a.length_wire

/-- Legal actions are accepted where they lie in a message. -/
theorem actions_walkEnds {length : UInt16} (hlegal : ∀ a ∈ actions, a.Legal)
    (hholds : Holds mem head (wires actions)) (hlength : sizes actions = length.toNat) :
  WalkEnds mem (LegalAction mem) head length
  := by
  have hentries : Holds mem (head + UInt16.toNat 0) (actions.map HostAction.wire).flatten :=
    hholds
  apply Reached.walkEnds .start hentries
  · simp only [List.forall_mem_map]
    intro a ha p hp
    apply (hlegal a ha).legalAction hp
  · simp only [List.forall_mem_map]
    intro a ha p hp
    rw [HostAction.be16_len hp, HostAction.length_wire]
    exact ⟨rfl, Nat.lt_of_lt_of_le (by decide) a.eight_le⟩
  · rw [← hlength, ← length_wires, wires]
    apply Nat.zero_add

/-- One round of a walk over the actions up to `n` that decodes each and goes on by its
length. The walk comes to a place and to the actions before it. -/
def decodeRound (host : Host) (n : ℕ) (s : ℕ × List (List UInt8)) :
    MessageReader ((ℕ × List (List UInt8)) ⊕ (ℕ × List (List UInt8))) :=
  if s.1 < n then do
    let action ← ntohAction host s.1
    match action with
    | none => pure (.inl s)
    | some action => pure (.inr (s.1 + (host.short action 2).toNat, s.2 ++ [action]))
  else pure (.inl s)

def decodeActions (host : Host) (p n : ℕ) : MessageReader (ℕ × List (List UInt8)) :=
  Reader.loop (decodeRound host n) (p, [])

/-- The length of an action is kept when its padding is cleared. -/
theorem HostAction.short_clear (a : HostAction host) :
  host.short (a.layout.clear a.block) 2 = a.len
  := by
  have hmin := a.eight_le
  have hlength := a.length_block
  have hfields : (((a.layout.clear a.block).drop 2).take 2) = (a.block.drop 2).take 2 := by
    match a.layout, a.shaped.typeField, a.shaped.lenField with
    | _ :: _ :: rest, rfl, rfl =>
        have hfirst : (a.block.take 2).length = 2 := by
          rw [List.length_take]
          omega
        have hsecond : ((a.block.drop 2).take 2).length = 2 := by
          rw [List.length_take, List.length_drop]
          omega
        change ((a.block.take 2 ++ ((a.block.drop 2).take 2 ++ _)).drop 2).take 2 = _
        rw [List.drop_left' hfirst, List.take_left' hsecond]
  rw [HostAction.len, Host.short, Host.short, hfields]

/-- The walk decodes the actions in their order, with their padding cleared, and comes to
where they end. -/
theorem decodeActions_returns {p n : ℕ} (hholds : Holds mem p (wires actions))
    (hn : p + sizes actions = n) :
  (decodeActions host p n).Returns mem (n, actions.map (fun a => a.layout.clear a.block))
  := by
  have hgeneral : ∀ (decoded : List (List UInt8)),
      (Reader.loop (decodeRound host n) (p, decoded)).Returns mem
        (n, decoded ++ actions.map (fun a => a.layout.clear a.block)) := by
    induction actions generalizing p with
    | nil =>
        intro decoded
        obtain rfl : p = n := hn
        apply Reader.returns_loop_of_inl
        simp [decodeRound]
    | cons a actions ih =>
        intro decoded
        rw [wires, List.map_cons, List.flatten_cons, holds_append, HostAction.length_wire]
          at hholds
        have hsize : sizes (a :: actions) = a.len.toNat + sizes actions := by
          simp [sizes]
        have hmin := a.eight_le
        have hround : Reader.Round (decodeRound host n) mem (p, decoded)
            (p + a.len.toNat, decoded ++ [a.layout.clear a.block]) := by
          rw [Reader.Round, decodeRound, if_pos (by omega), Reader.returns_bind]
          use some (a.layout.clear a.block), (HostAction.ntohAction_returns hholds.1).mpr rfl
          simp [a.short_clear]
        have hrest := ih hholds.2 (by omega) (decoded ++ [a.layout.clear a.block])
        rw [List.append_assoc] at hrest
        apply Reader.returns_loop_of_round hround hrest
  rw [decodeActions]
  simpa using hgeneral []

/-- The lengths that stand in the blocks, added up. -/
def lenSum (host : Host) (list : List (List UInt8)) : ℕ :=
  (list.map (fun block => (host.short block 2).toNat)).sum

/-- The type of an action is one of those that `getActionsLength` accepts. -/
def TypeDefined (host : Host) (block : List UInt8) : Prop :=
  host.short block 0 ≤ ofpatEnqueue ∨ host.short block 0 = ofpatVendor

instance : DecidablePred (TypeDefined host) :=
  fun _ => inferInstanceAs (Decidable (_ ∨ _))

theorem readShort_eq {block : List UInt8} {p : ℕ} (h : p + 2 ≤ block.length) :
  readShort host block p = pure (host.short block p)
  := if_pos h

/-- The lengths of actions of defined types are added up, modulo `2 ^ 32`. -/
theorem sumLengths_defined {list : List (List UInt8)} (hblocks : ∀ block ∈ list, 4 ≤ block.length)
    (hdefined : ∀ block ∈ list, TypeDefined host block) (m : ℕ) :
  sumLengths host list (Int32.ofNat m) = pure (some (Int32.ofNat (m + lenSum host list)))
  := by
  induction list generalizing m with
  | nil => rfl
  | cons block list ih =>
      obtain ⟨hblock, hblocks⟩ := List.forall_mem_cons.mp hblocks
      obtain ⟨hdef, hdefined⟩ := List.forall_mem_cons.mp hdefined
      rw [TypeDefined] at hdef
      rw [sumLengths, readShort_eq (by omega), pure_bind, if_pos hdef, readShort_eq (by omega),
        pure_bind, ← Int32.ofNat_add, ih hblocks hdefined, Nat.add_assoc]
      rfl

/-- The length of actions of defined types, if it is an `int`. -/
theorem getActionsLength_defined {n : Int32} {list : List (List UInt8)}
    (hblocks : ∀ block ∈ list, 4 ≤ block.length)
    (hdefined : ∀ block ∈ list, TypeDefined host block) (hsum : lenSum host list < 2 ^ 31) :
  getActionsLength host ⟨n, list⟩
    = pure (if lenSum host list ≤ 65535 then (lenSum host list : ℤ) else ccEErr)
  := by
  have hzero := sumLengths_defined hblocks hdefined 0
  rw [Nat.zero_add] at hzero
  have htoInt : (Int32.ofNat (lenSum host list)).toInt = lenSum host list :=
    Int32.toInt_ofNat_of_lt hsum
  rw [getActionsLength, show (0 : Int32) = Int32.ofNat 0 from rfl, hzero, pure_bind]
  simp only [htoInt]
  by_cases hlong : lenSum host list ≤ 65535
  · have hmax : ¬ (lenSum host list : ℤ) > ushrtMax.toNat := by
      change ¬ (lenSum host list : ℤ) > 65535
      omega
    have hcut : (UInt16.ofInt (lenSum host list)).toNat = lenSum host list := by
      have hmod : ((lenSum host list : ℤ) % 2 ^ 16).toNat = lenSum host list := by omega
      rw [UInt16.ofInt, hmod, UInt16.toNat_ofNat_of_lt' (Nat.lt_succ_of_le hlong)]
    rw [if_neg hmax, if_pos hlong, hcut]
  · have hmax : (lenSum host list : ℤ) > ushrtMax.toNat := by
      change (lenSum host list : ℤ) > 65535
      omega
    rw [if_pos hmax, if_neg hlong]

/-! ### Actions that keep to their length -/

/-- How many bytes of an action are copied into a message. -/
def storedLength (type len : UInt16) : Option ℕ :=
  match actionStruct type with
  | some layout => some layout.size
  | none => if type = ofpatVendor then some (8 + vendorBodyLength len) else none

/-- The block has the bytes of the action that are copied, and its length field says that there
are at least as many. -/
def KeepsLength (host : Host) (block : List UInt8) : Prop :=
  ∃ n, storedLength (host.short block 0) (host.short block 2) = some n ∧ n ≤ block.length ∧
    n ≤ (host.short block 2).toNat

/-- What is copied into a message for the action in a block. -/
def storedBytes (host : Host) (block : List UInt8) : List UInt8 :=
  match actionStruct (host.short block 0) with
  | some layout => layout.convert host.littleEndian block
  | none =>
    ofpActionVendorHeader.convert host.littleEndian block
      ++ (block.drop 8).take (vendorBodyLength (host.short block 2))

section

variable {α β : Type} {block : List UInt8} {p n : ℕ}

theorem stop_ne_pure {fault : Fault} {a : α} :
  (Program.stop fault : Action α) ≠ pure a
  := by
  intro h
  cases congrFun h World.start

theorem pure_eq_pure {a b : α} :
  (pure a : Action α) = pure b ↔ a = b
  := by
  constructor
  · intro h
    exact (Prod.mk.inj (Except.ok.inj (congrFun h World.start))).1
  · rintro rfl
    rfl

theorem readShort_bind_eq_pure {f : UInt16 → Action β} {b : β} :
  (readShort host block p >>= f) = pure b ↔
    p + 2 ≤ block.length ∧ f (host.short block p) = pure b
  := by
  rw [readShort]
  split
  · next hle => rw [pure_bind, and_iff_right hle]
  · next hlt =>
      apply iff_of_false
      · exact stop_ne_pure
      · exact fun h => hlt h.1

theorem copyOut_bind_eq_pure {f : List UInt8 → Action β} {b : β} :
  (copyOut block p n >>= f) = pure b ↔
    p + n ≤ block.length ∧ f ((block.drop p).take n) = pure b
  := by
  rw [copyOut]
  split
  · next hle => rw [pure_bind, and_iff_right hle]
  · next hlt =>
      apply iff_of_false
      · exact stop_ne_pure
      · exact fun h => hlt h.1

theorem htonStruct_bind_eq_pure {layout : Struct} {f : List UInt8 → Action β} {b : β} :
  (htonStruct host layout block 0 >>= f) = pure b ↔
    layout.size ≤ block.length ∧ f (layout.convert host.littleEndian block) = pure b
  := by
  rw [htonStruct, bind_assoc, copyOut_bind_eq_pure, Nat.zero_add, List.drop_zero, pure_bind]
  apply and_congr_right
  intro hle
  rw [Struct.convert_take hle]

/-- An action is copied if its type is defined and the block has all bytes that are copied. -/
theorem htonAction_eq_pure {bytes : List UInt8} :
  htonAction host block 0 = pure bytes ↔
    (∃ n, storedLength (host.short block 0) (host.short block 2) = some n ∧ n ≤ block.length) ∧
      bytes = storedBytes host block
  := by
  rw [htonAction, readShort_bind_eq_pure, storedLength, storedBytes]
  cases hstruct : actionStruct (host.short block 0) with
  | some layout =>
      have hmin := (actionStruct_some hstruct).2.2.1
      have hcopied : (htonStruct host layout block 0 >>= pure) = pure bytes ↔
          layout.size ≤ block.length ∧
            (pure (layout.convert host.littleEndian block) : Action (List UInt8)) = pure bytes :=
        htonStruct_bind_eq_pure
      rw [bind_pure, pure_eq_pure] at hcopied
      simp only [hcopied, Option.some.injEq, exists_eq_left']
      constructor
      · rintro ⟨-, hle, rfl⟩
        exact ⟨hle, rfl⟩
      · rintro ⟨hle, rfl⟩
        exact ⟨by omega, hle, rfl⟩
  | none =>
      by_cases hvendor : host.short block 0 = ofpatVendor
      · have hheader : ofpActionVendorHeader.size = 8 := rfl
        simp only [hvendor, if_true, htonActionVendor, htonStruct_bind_eq_pure,
          readShort_bind_eq_pure, copyOut_bind_eq_pure, pure_eq_pure, hheader,
          Option.some.injEq, exists_eq_left']
        constructor
        · rintro ⟨-, -, -, hle, rfl⟩
          exact ⟨hle, rfl⟩
        · rintro ⟨hle, rfl⟩
          exact ⟨by omega, by omega, by omega, hle, rfl⟩
      · simp only [hvendor, if_false, reduceCtorEq, false_and, exists_false, iff_false,
          not_and]
        exact fun _ => stop_ne_pure

theorem length_storedBytes {n : ℕ}
    (h : storedLength (host.short block 0) (host.short block 2) = some n)
    (hle : n ≤ block.length) :
  (storedBytes host block).length = n ∧ 8 ≤ n
  := by
  rw [storedLength] at h
  rw [storedBytes]
  cases hstruct : actionStruct (host.short block 0) with
  | some layout =>
      rw [hstruct] at h
      obtain rfl := Option.some.inj h
      exact ⟨Struct.length_convert hle, (actionStruct_some hstruct).2.2.1⟩
  | none =>
      rw [hstruct] at h
      change (if _ then _ else _) = _ at h
      split at h
      · obtain rfl := Option.some.inj h
        have hheader : ofpActionVendorHeader.size ≤ block.length := by
          change 8 ≤ _
          omega
        refine ⟨?_, by omega⟩
        rw [List.length_append, Struct.length_convert hheader, List.length_take,
          List.length_drop, Nat.min_eq_left (by omega)]
        rfl
      · cases h

/-- What an action takes in a message: what is copied for it and zeros up to its length. -/
def slot (host : Host) (block : List UInt8) : List UInt8 :=
  storedBytes host block
    ++ List.replicate ((host.short block 2).toNat - (storedBytes host block).length) 0

/-- An output action may be longer than its fields. -/
example : KeepsLength (Host.plain true) [0, 0, 16, 0, 1, 0, 0, 0] :=
  ⟨8, rfl, by decide, by decide⟩

namespace KeepsLength

theorem hton (h : KeepsLength host block) :
  htonAction host block 0 = pure (storedBytes host block)
  := by
  obtain ⟨n, hn, hblock, -⟩ := h
  exact htonAction_eq_pure.mpr ⟨⟨n, hn, hblock⟩, rfl⟩

theorem bounds (h : KeepsLength host block) :
  8 ≤ (storedBytes host block).length ∧ (storedBytes host block).length ≤ block.length ∧
    (storedBytes host block).length ≤ (host.short block 2).toNat
  := by
  obtain ⟨n, hn, hblock, hlen⟩ := h
  obtain ⟨rfl, hmin⟩ := length_storedBytes hn hblock
  exact ⟨hmin, hblock, hlen⟩

theorem length_slot (h : KeepsLength host block) :
  (slot host block).length = (host.short block 2).toNat
  := by
  rw [slot, List.length_append, List.length_replicate]
  have := h.bounds
  omega

theorem typeDefined (h : KeepsLength host block) :
  TypeDefined host block
  := by
  obtain ⟨n, hn, -⟩ := h
  rw [storedLength] at hn
  cases hstruct : actionStruct (host.short block 0) with
  | some layout => exact .inl (actionStruct_some hstruct).2.2.2.2
  | none =>
      rw [hstruct] at hn
      change (if _ then _ else _) = _ at hn
      split at hn
      · next hvendor => exact .inr hvendor
      · cases hn

end KeepsLength

/-- The actions that keep to their length are those that what is copied for them fits into. -/
theorem keepsLength_iff :
  KeepsLength host block ↔
    ∃ bytes, htonAction host block 0 = pure bytes ∧ bytes.length ≤ (host.short block 2).toNat
  := by
  constructor
  · intro h
    exact ⟨_, h.hton, h.bounds.2.2⟩
  · rintro ⟨bytes, hbytes, hlen⟩
    obtain ⟨⟨n, hn, hblock⟩, rfl⟩ := htonAction_eq_pure.mp hbytes
    obtain ⟨rfl, -⟩ := length_storedBytes hn hblock
    exact ⟨_, hn, hblock, hlen⟩

/-- An action of the length that its type requires keeps to it, and takes what it is long. -/
theorem HostAction.keepsLength (a : HostAction host) :
  KeepsLength host a.block ∧ slot host a.block = a.wire
  := by
  have hhton : htonAction host a.block 0 = pure a.wire := by
    simpa using a.htonAction_eq [] []
  have hbytes := (htonAction_eq_pure.mp hhton).2
  refine ⟨keepsLength_iff.mpr ⟨_, hhton, Nat.le_of_eq a.length_wire⟩, ?_⟩
  rw [slot, ← hbytes, a.length_wire, Nat.sub_self, List.replicate_zero, List.append_nil]

end

variable {blocks : List (List UInt8)}

/-- The actions as they are in a message, each in the room that its length field gives it. -/
def slots (host : Host) (blocks : List (List UInt8)) : List UInt8 :=
  (blocks.map (slot host)).flatten

theorem length_slots (h : ∀ block ∈ blocks, KeepsLength host block) :
  (slots host blocks).length = lenSum host blocks
  := length_flatten_map (fun block hblock => (h block hblock).length_slot)

/-- The length of actions that keep to theirs. -/
theorem getActionsLength_keeps {n : Int32} (h : ∀ block ∈ blocks, KeepsLength host block)
    (hsize : lenSum host blocks < 2 ^ 16) :
  getActionsLength host ⟨n, blocks⟩ = pure (lenSum host blocks : ℤ)
  := by
  have hblocks : ∀ block ∈ blocks, 4 ≤ block.length := by
    intro block hblock
    have := (h block hblock).bounds
    omega
  rw [getActionsLength_defined hblocks (fun block hblock => (h block hblock).typeDefined)
    (by omega), if_pos (by omega)]

theorem lenSum_hostActions :
  lenSum host (actions.map HostAction.block) = sizes actions
  := by
  rw [lenSum, List.map_map]
  rfl

theorem slots_hostActions :
  slots host (actions.map HostAction.block) = wires actions
  := by
  rw [slots, wires, List.map_map]
  congr 1
  apply List.map_congr_left
  intro a _
  exact a.keepsLength.2

theorem hostActions_keepLength :
  ∀ block ∈ actions.map HostAction.block, KeepsLength host block
  := by
  intro block hblock
  obtain ⟨a, -, rfl⟩ := List.mem_map.mp hblock
  exact a.keepsLength.1

end

end CcController
