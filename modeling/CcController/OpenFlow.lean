import Mathlib.Data.Int.Notation

/-!
# OpenFlow 1.0

The constants of the wire protocol that the code uses, and the return codes of its message
checks.
-/

namespace CcController

abbrev ofpVersion : UInt8 := 1

/-! ### Message types -/

abbrev ofptHello : UInt8 := 0
abbrev ofptError : UInt8 := 1
abbrev ofptEchoRequest : UInt8 := 2
abbrev ofptEchoReply : UInt8 := 3
abbrev ofptVendor : UInt8 := 4
abbrev ofptFeaturesRequest : UInt8 := 5
abbrev ofptFeaturesReply : UInt8 := 6
abbrev ofptGetConfigRequest : UInt8 := 7
abbrev ofptGetConfigReply : UInt8 := 8
abbrev ofptSetConfig : UInt8 := 9
abbrev ofptPacketIn : UInt8 := 10
abbrev ofptFlowRemoved : UInt8 := 11
abbrev ofptPortStatus : UInt8 := 12
abbrev ofptPacketOut : UInt8 := 13
abbrev ofptFlowMod : UInt8 := 14
abbrev ofptPortMod : UInt8 := 15
abbrev ofptStatsRequest : UInt8 := 16
abbrev ofptStatsReply : UInt8 := 17
abbrev ofptBarrierRequest : UInt8 := 18
abbrev ofptBarrierReply : UInt8 := 19
abbrev ofptQueueGetConfigRequest : UInt8 := 20
abbrev ofptQueueGetConfigReply : UInt8 := 21

/-! ### Ports -/

abbrev ofppMax : UInt16 := 0xff00
abbrev ofppInPort : UInt16 := 0xfff8
abbrev ofppLocal : UInt16 := 0xfffe
abbrev ofppNone : UInt16 := 0xffff

/-- `PORT_CONFIG`, the union of the bits of `enum ofp_port_config` -/
abbrev portConfig : UInt32 := 0x7f

/-- `PORT_STATE`, the union of the bits of `enum ofp_port_state` -/
abbrev portState : UInt32 := 0x301

/-- `PORT_FEATURES`, the union of the bits of `enum ofp_port_features` -/
abbrev portFeatures : UInt32 := 0xfff

/-! ### Matches and flows -/

abbrev ofpfwAll : UInt32 := 0x3fffff
abbrev vlanVidMask : UInt16 := 0x0fff
abbrev vlanPcpMask : UInt8 := 0x07
abbrev nwTosMask : UInt8 := 0xfc

abbrev ofpfcDelete : UInt16 := 3
abbrev ofpfcDeleteStrict : UInt16 := 4

/-- `FLOW_MOD_FLAGS`, the union of the bits of `enum ofp_flow_mod_flags` -/
abbrev flowModFlags : UInt16 := 7

/-! ### Actions -/

abbrev ofpatOutput : UInt16 := 0
abbrev ofpatSetVlanVid : UInt16 := 1
abbrev ofpatSetVlanPcp : UInt16 := 2
abbrev ofpatStripVlan : UInt16 := 3
abbrev ofpatSetDlSrc : UInt16 := 4
abbrev ofpatSetDlDst : UInt16 := 5
abbrev ofpatSetNwSrc : UInt16 := 6
abbrev ofpatSetNwDst : UInt16 := 7
abbrev ofpatSetNwTos : UInt16 := 8
abbrev ofpatSetTpSrc : UInt16 := 9
abbrev ofpatSetTpDst : UInt16 := 10
abbrev ofpatEnqueue : UInt16 := 11
abbrev ofpatVendor : UInt16 := 0xffff

/-! ### Statistics, configuration, reasons and queues -/

abbrev ofpstDesc : UInt16 := 0
abbrev ofpstFlow : UInt16 := 1
abbrev ofpstAggregate : UInt16 := 2
abbrev ofpstTable : UInt16 := 3
abbrev ofpstPort : UInt16 := 4
abbrev ofpstQueue : UInt16 := 5
abbrev ofpstVendor : UInt16 := 0xffff

abbrev ofpsfReplyMore : UInt16 := 1

abbrev ofpcFragMask : UInt16 := 3

abbrev ofprAction : UInt8 := 1
abbrev ofprrDelete : UInt8 := 2
abbrev ofpprModify : UInt8 := 2

abbrev ofpqtNone : UInt16 := 0
abbrev ofpqtMinRate : UInt16 := 1

/-! ### Error messages -/

abbrev ofpetHelloFailed : UInt16 := 0
abbrev ofpetBadRequest : UInt16 := 1
abbrev ofpetBadAction : UInt16 := 2
abbrev ofpetFlowModFailed : UInt16 := 3
abbrev ofpetPortModFailed : UInt16 := 4
abbrev ofpetQueueOpFailed : UInt16 := 5

abbrev ofphfcIncompatible : UInt16 := 0

abbrev ofpbrcBadVersion : UInt16 := 0
abbrev ofpbrcBadType : UInt16 := 1
abbrev ofpbrcBadStat : UInt16 := 2
abbrev ofpbrcEperm : UInt16 := 5
abbrev ofpbrcBadLen : UInt16 := 6

abbrev ofpbacBadType : UInt16 := 0
abbrev ofpbacBadLen : UInt16 := 1
abbrev ofpbacBadOutPort : UInt16 := 4
abbrev ofpbacBadArgument : UInt16 := 5

abbrev ofpfmfcEperm : UInt16 := 2
abbrev ofpfmfcBadCommand : UInt16 := 4

abbrev ofppmfcBadPort : UInt16 := 0

abbrev ofpqofcBadPort : UInt16 := 0

/-! ### What the message checks return -/

abbrev success : ℤ := 0
abbrev errorUnsupportedVersion : ℤ := -60
abbrev errorInvalidLength : ℤ := -59
abbrev errorTooShortMessage : ℤ := -58
abbrev errorTooLongMessage : ℤ := -57
abbrev errorInvalidType : ℤ := -56
abbrev errorUndefinedType : ℤ := -55
abbrev errorUnsupportedType : ℤ := -54
abbrev errorNoTableAvailable : ℤ := -53
abbrev errorInvalidPortNo : ℤ := -52
abbrev errorInvalidPortConfig : ℤ := -51
abbrev errorInvalidPortState : ℤ := -50
abbrev errorInvalidPortFeatures : ℤ := -49
abbrev errorInvalidSwitchConfig : ℤ := -48
abbrev errorInvalidPacketInReason : ℤ := -47
abbrev errorInvalidFlowRemovedReason : ℤ := -46
abbrev errorInvalidWildcards : ℤ := -45
abbrev errorInvalidVlanVid : ℤ := -44
abbrev errorInvalidVlanPcp : ℤ := -43
abbrev errorInvalidNwTos : ℤ := -42
abbrev errorInvalidPortStatusReason : ℤ := -41
abbrev errorTooShortQueueDescription : ℤ := -40
abbrev errorTooShortQueueProperty : ℤ := -39
abbrev errorTooLongQueueProperty : ℤ := -38
abbrev errorUndefinedQueueProperty : ℤ := -37
abbrev errorTooShortAction : ℤ := -36
abbrev errorUndefinedActionType : ℤ := -35
abbrev errorInvalidActionType : ℤ := -34
abbrev errorTooShortActionOutput : ℤ := -33
abbrev errorTooLongActionOutput : ℤ := -32
abbrev errorTooShortActionVlanVid : ℤ := -31
abbrev errorTooLongActionVlanVid : ℤ := -30
abbrev errorTooShortActionVlanPcp : ℤ := -29
abbrev errorTooLongActionVlanPcp : ℤ := -28
abbrev errorTooShortActionStripVlan : ℤ := -27
abbrev errorTooLongActionStripVlan : ℤ := -26
abbrev errorTooShortActionDlSrc : ℤ := -25
abbrev errorTooLongActionDlSrc : ℤ := -24
abbrev errorTooShortActionDlDst : ℤ := -23
abbrev errorTooLongActionDlDst : ℤ := -22
abbrev errorTooShortActionNwSrc : ℤ := -21
abbrev errorTooLongActionNwSrc : ℤ := -20
abbrev errorTooShortActionNwDst : ℤ := -19
abbrev errorTooLongActionNwDst : ℤ := -18
abbrev errorTooShortActionNwTos : ℤ := -17
abbrev errorTooLongActionNwTos : ℤ := -16
abbrev errorTooShortActionTpSrc : ℤ := -15
abbrev errorTooLongActionTpSrc : ℤ := -14
abbrev errorTooShortActionTpDst : ℤ := -13
abbrev errorTooLongActionTpDst : ℤ := -12
abbrev errorTooShortActionEnqueue : ℤ := -11
abbrev errorTooLongActionEnqueue : ℤ := -10
abbrev errorTooShortActionVendor : ℤ := -9
abbrev errorUnsupportedStatsType : ℤ := -8
abbrev errorInvalidStatsReplyFlags : ℤ := -7
abbrev errorInvalidFlowPriority : ℤ := -6
abbrev errorInvalidFlowModFlags : ℤ := -5
abbrev errorInvalidPortMask : ℤ := -4
abbrev errorInvalidStatsType : ℤ := -3
abbrev errorInvalidStatsRequestFlags : ℤ := -2
abbrev errorUndefinedFlowModCommand : ℤ := -1
abbrev errorUnexpectedError : ℤ := -255

abbrev ushrtMax : UInt16 := 0xffff

end CcController
