import CcController.MessageBounds

/-!
# Translating the errors of the validators

For a message that is rejected the switch gets an error message, whose type and code are
looked up in a table by the type of the message and the error. `errorMaps` has rows for the
errors of the header in every message type, and for some of the other errors.

`LacksRow` says which check of a message, when it is the first to fail, has an error without
a row, and `errors_translated_iff` that it says so exactly.
-/

namespace CcController

variable {n : ℕ} {mem : Memory}

/-! ### The table -/

structure Map where
  errorNo : ℤ
  errorType : UInt16
  errorCode : UInt16

structure ErrorMap where
  type : UInt8
  maps : List Map

/-- The rows for an unsupported version are the only ones of the header that differ. -/
def headerMaps (versionType versionCode : UInt16) : List Map :=
  [⟨errorUnsupportedVersion, versionType, versionCode⟩,
    ⟨errorTooShortMessage, ofpetBadRequest, ofpbrcBadLen⟩,
    ⟨errorTooLongMessage, ofpetBadRequest, ofpbrcBadLen⟩,
    ⟨errorUndefinedType, ofpetBadRequest, ofpbrcBadType⟩,
    ⟨errorInvalidType, ofpetBadRequest, ofpbrcBadType⟩]

/-- The rows for actions, the same for the two message types that have them. The row for an
invalid port is there twice. -/
def actionMaps : List Map :=
  [⟨errorInvalidActionType, ofpetBadAction, ofpbacBadType⟩,
    ⟨errorTooShortActionOutput, ofpetBadAction, ofpbacBadLen⟩,
    ⟨errorTooLongActionOutput, ofpetBadAction, ofpbacBadLen⟩,
    ⟨errorInvalidPortNo, ofpetBadAction, ofpbacBadOutPort⟩,
    ⟨errorTooShortActionVlanVid, ofpetBadAction, ofpbacBadLen⟩,
    ⟨errorTooLongActionVlanVid, ofpetBadAction, ofpbacBadLen⟩,
    ⟨errorInvalidVlanVid, ofpetBadAction, ofpbacBadArgument⟩,
    ⟨errorTooShortActionVlanPcp, ofpetBadAction, ofpbacBadLen⟩,
    ⟨errorTooLongActionVlanPcp, ofpetBadAction, ofpbacBadLen⟩,
    ⟨errorInvalidVlanPcp, ofpetBadAction, ofpbacBadArgument⟩,
    ⟨errorTooShortActionStripVlan, ofpetBadAction, ofpbacBadLen⟩,
    ⟨errorTooLongActionStripVlan, ofpetBadAction, ofpbacBadLen⟩,
    ⟨errorTooShortActionDlSrc, ofpetBadAction, ofpbacBadLen⟩,
    ⟨errorTooLongActionDlSrc, ofpetBadAction, ofpbacBadLen⟩,
    ⟨errorTooShortActionDlDst, ofpetBadAction, ofpbacBadLen⟩,
    ⟨errorTooLongActionDlDst, ofpetBadAction, ofpbacBadLen⟩,
    ⟨errorTooShortActionNwSrc, ofpetBadAction, ofpbacBadLen⟩,
    ⟨errorTooLongActionNwSrc, ofpetBadAction, ofpbacBadLen⟩,
    ⟨errorTooShortActionNwDst, ofpetBadAction, ofpbacBadLen⟩,
    ⟨errorTooLongActionNwDst, ofpetBadAction, ofpbacBadLen⟩,
    ⟨errorTooShortActionNwTos, ofpetBadAction, ofpbacBadLen⟩,
    ⟨errorTooLongActionNwTos, ofpetBadAction, ofpbacBadLen⟩,
    ⟨errorTooShortActionTpSrc, ofpetBadAction, ofpbacBadLen⟩,
    ⟨errorTooLongActionTpSrc, ofpetBadAction, ofpbacBadLen⟩,
    ⟨errorTooShortActionTpDst, ofpetBadAction, ofpbacBadLen⟩,
    ⟨errorTooLongActionTpDst, ofpetBadAction, ofpbacBadLen⟩,
    ⟨errorTooShortActionEnqueue, ofpetBadAction, ofpbacBadLen⟩,
    ⟨errorTooLongActionEnqueue, ofpetBadAction, ofpbacBadLen⟩,
    ⟨errorInvalidPortNo, ofpetBadAction, ofpbacBadOutPort⟩,
    ⟨errorTooShortActionVendor, ofpetBadAction, ofpbacBadLen⟩,
    ⟨errorUndefinedActionType, ofpetBadAction, ofpbacBadType⟩]

/-- The rows of a message type: those of the header, the others, and the row that ends
them. -/
def requestMap (type : UInt8) (maps : List Map) : ErrorMap where
  type := type
  maps := headerMaps ofpetBadRequest ofpbrcBadVersion ++ maps ++ [⟨0, 0, 0⟩]

def errorMaps : List ErrorMap :=
  [⟨ofptHello, headerMaps ofpetHelloFailed ofphfcIncompatible ++ [⟨0, 0, 0⟩]⟩,
    requestMap ofptError [],
    requestMap ofptEchoRequest [],
    requestMap ofptEchoReply [],
    requestMap ofptVendor [],
    requestMap ofptFeaturesRequest [],
    requestMap ofptFeaturesReply [],
    requestMap ofptGetConfigRequest [],
    requestMap ofptGetConfigReply [],
    requestMap ofptSetConfig
      [⟨errorInvalidSwitchConfig, ofpetBadRequest, ofpbrcEperm⟩],
    requestMap ofptPacketIn
      [⟨errorInvalidPacketInReason, ofpetBadRequest, ofpbrcEperm⟩],
    requestMap ofptFlowRemoved
      [⟨errorInvalidFlowPriority, ofpetBadRequest, ofpbrcEperm⟩,
        ⟨errorInvalidFlowRemovedReason, ofpetBadRequest, ofpbrcEperm⟩],
    requestMap ofptPortStatus
      [⟨errorInvalidPortStatusReason, ofpetBadRequest, ofpbrcEperm⟩],
    requestMap ofptPacketOut actionMaps,
    requestMap ofptFlowMod (actionMaps ++
      [⟨errorInvalidWildcards, ofpetFlowModFailed, ofpfmfcEperm⟩,
        ⟨errorUndefinedFlowModCommand, ofpetFlowModFailed, ofpfmfcBadCommand⟩,
        ⟨errorInvalidFlowPriority, ofpetFlowModFailed, ofpfmfcEperm⟩,
        ⟨errorInvalidFlowModFlags, ofpetFlowModFailed, ofpfmfcEperm⟩]),
    requestMap ofptPortMod
      [⟨errorInvalidPortNo, ofpetPortModFailed, ofppmfcBadPort⟩,
        ⟨errorInvalidPortConfig, ofpetBadRequest, ofpbrcEperm⟩,
        ⟨errorInvalidPortMask, ofpetBadRequest, ofpbrcEperm⟩,
        ⟨errorInvalidPortFeatures, ofpetBadRequest, ofpbrcEperm⟩],
    requestMap ofptStatsRequest
      [⟨errorUnsupportedStatsType, ofpetBadRequest, ofpbrcBadStat⟩,
        ⟨errorInvalidStatsType, ofpetBadRequest, ofpbrcBadStat⟩,
        ⟨errorInvalidStatsRequestFlags, ofpetBadRequest, ofpbrcEperm⟩,
        ⟨errorInvalidPortNo, ofpetBadRequest, ofpbrcEperm⟩,
        ⟨errorInvalidWildcards, ofpetBadRequest, ofpbrcEperm⟩,
        ⟨errorInvalidVlanVid, ofpetBadRequest, ofpbrcEperm⟩,
        ⟨errorInvalidVlanPcp, ofpetBadRequest, ofpbrcEperm⟩,
        ⟨errorInvalidNwTos, ofpetBadRequest, ofpbrcEperm⟩],
    requestMap ofptStatsReply [],
    requestMap ofptBarrierRequest [],
    requestMap ofptBarrierReply [],
    requestMap ofptQueueGetConfigRequest
      [⟨errorInvalidPortNo, ofpetQueueOpFailed, ofpqofcBadPort⟩],
    requestMap ofptQueueGetConfigReply []]

/-- The loop over the rows: it ends at a row for the error 0. -/
def findRow (errorNo : ℤ) : List Map → Option (UInt16 × UInt16)
  | [] => none
  | map :: maps =>
    if map.errorNo = 0 then none
    else if errorNo = map.errorNo then some (map.errorType, map.errorCode)
    else findRow errorNo maps

/-- The return code, and the type and code of the error if they are set. -/
def ccTransErrorTypeAndCode (type : UInt8) (errorNo : ℤ) : ℤ × Option (UInt16 × UInt16) :=
  if type > ofptQueueGetConfigReply then (ccENone, some (ofpetBadRequest, ofpbrcBadType))
  else
    match findRow errorNo (errorMaps.getD type.toNat ⟨0, []⟩).maps with
    | some (errorType, errorCode) => (ccENone, some (errorType, errorCode))
    | none => (ccEErr, none)

/-- The table is indexed by the type. -/
example : ∀ type : Fin errorMaps.length, (errorMaps.get type).type.toNat = type := by decide

/-- The error is translated to the type and the code of an OpenFlow error. -/
def Translates (type : UInt8) (errorNo : ℤ) : Prop :=
  ∃ error, ccTransErrorTypeAndCode type errorNo = (ccENone, some error)

theorem translates_iff {type : UInt8} {errorNo : ℤ} :
  Translates type errorNo ↔ (ccTransErrorTypeAndCode type errorNo).1 = ccENone
  := by
  unfold Translates ccTransErrorTypeAndCode
  split
  · simp
  · split <;> simp

instance (type : UInt8) (errorNo : ℤ) : Decidable (Translates type errorNo) :=
  decidable_of_iff _ translates_iff.symm

/-! ### What the validators report -/

/-- The check returns 0 or one of the errors. -/
abbrev Reports (errors : List ℤ) (check : MessageReader ℤ) (mem : Memory) : Prop :=
  Reader.Within (fun _ => True) check mem (fun r => r = 0 ∨ r ∈ errors)

section

variable {errors errors' : List ℤ} {check rest : MessageReader ℤ}

theorem Reports.subset (h : Reports errors check mem) (hsub : errors ⊆ errors') :
  Reports errors' check mem
  := by
  apply Reader.Within.mono h
  intro r _ hr
  apply hr.imp_right
  apply hsub

theorem Reports.returns (h : Reports errors check mem) {r : ℤ} (hr : check.Returns mem r)
    (hneg : r < 0) :
  r ∈ errors
  := by
  rcases h.2 r hr with rfl | hmem
  · omega
  · apply hmem

theorem reports_passing (hcheck : Reports errors check mem)
    (hrest : Accepts check mem → Reports errors rest mem) :
  Reports errors (passing check rest) mem
  := by
  simp only [Reports, passing, Reader.within_bind, Reader.within_ite, Reader.within_pure]
  apply Reader.Within.mono hcheck
  intro r hr hmem
  constructor
  · intro _
    apply hmem
  · intro hpos
    apply hrest ⟨r, hr, hpos⟩

end

/-- The errors of a header. -/
abbrev headerErrors : List ℤ :=
  [errorUnsupportedVersion, errorTooShortMessage, errorTooLongMessage, errorUndefinedType,
    errorInvalidType]

/-- A check of a header reports an error exactly when the header is not right. -/
theorem returns_header (hn : 8 ≤ n) {type : UInt8} (htype : type ≤ ofptQueueGetConfigReply)
    {minLength maxLength : ℕ} {rest : MessageReader ℤ} {r : ℤ}
    (hr : (passing (validateHeader (some n) type minLength maxLength) rest).Returns mem r) :
  ¬ HeaderOk n mem type minLength maxLength ∧ r ∈ headerErrors ∨
    HeaderOk n mem type minLength maxLength ∧ rest.Returns mem r
  := by
  have hreports : Reports headerErrors (validateHeader (some n) type minLength maxLength) mem := by
    simp [validateHeader, unlessNull_some]
  rcases returns_passing.mp hr with ⟨hreturns, hneg⟩ | ⟨ret, hreturns, hpos, hrest⟩
  · left
    use fun h => ((validateHeader_accepts hn htype).mpr h).not_rejects ⟨r, hreturns, hneg⟩
    apply hreports.returns hreturns hneg
  · right
    use (validateHeader_accepts hn htype).mp ⟨ret, hreturns, hpos⟩

abbrev portErrors : List ℤ :=
  [errorInvalidPortNo, errorInvalidPortConfig, errorInvalidPortState, errorInvalidPortFeatures]

abbrev matchErrors : List ℤ :=
  [errorInvalidWildcards, errorInvalidVlanVid, errorInvalidVlanPcp, errorInvalidNwTos]

/-- The errors of an action that have rows. -/
abbrev actionErrors : List ℤ :=
  actionMaps.map Map.errorNo

theorem validatePhyPortNo_cases (portNo : UInt16) :
  validatePhyPortNo portNo = 0 ∨ validatePhyPortNo portNo = errorInvalidPortNo
  := by
  unfold validatePhyPortNo
  split <;> simp

theorem validateVlanVid_cases (vid : UInt16) :
  validateVlanVid vid = 0 ∨ validateVlanVid vid = errorInvalidVlanVid
  := by
  unfold validateVlanVid
  split <;> simp

theorem validateVlanPcp_cases (pcp : UInt8) :
  validateVlanPcp pcp = 0 ∨ validateVlanPcp pcp = errorInvalidVlanPcp
  := by
  unfold validateVlanPcp
  split <;> simp

theorem validateNwTos_cases (tos : UInt8) :
  validateNwTos tos = 0 ∨ validateNwTos tos = errorInvalidNwTos
  := by
  unfold validateNwTos
  split <;> simp

theorem validateWildcards_cases (wildcards : UInt32) :
  validateWildcards wildcards = 0 ∨ validateWildcards wildcards = errorInvalidWildcards
  := by
  unfold validateWildcards
  split <;> simp

theorem validateMatch_cases (m : OfpMatch) :
  validateMatch m = 0 ∨ validateMatch m ∈ matchErrors
  := by
  unfold validateMatch
  rcases validateWildcards_cases m.wildcards with hw | hw
  · rcases validateVlanVid_cases m.dlVlan with hv | hv
    · rcases validateVlanPcp_cases m.dlVlanPcp with hp | hp
      · rcases validateNwTos_cases m.nwTos with ht | ht <;> simp [hw, hv, hp, ht]
      · simp [hw, hv, hp]
    · simp [hw, hv]
  · simp [hw]

/-- What is checked of one field, in a list of errors. -/
theorem reports_check {errors : List ℤ} {r : ℤ} (h : r = 0 ∨ r ∈ errors) :
  Reports errors (pure r) mem
  := Reader.within_pure.mpr h

theorem reports_port {errors : List ℤ} (hin : errorInvalidPortNo ∈ errors) (portNo : UInt16) :
  Reports errors (pure (validatePhyPortNo portNo)) mem
  := by
  apply reports_check
  rcases validatePhyPortNo_cases portNo with h | h
  · exact .inl h
  · rw [h]
    exact .inr hin

theorem reports_match {errors : List ℤ} (hsub : matchErrors ⊆ errors) (m : OfpMatch) :
  Reports errors (pure (validateMatch m)) mem
  := by
  apply reports_check
  apply (validateMatch_cases m).imp_right
  apply hsub

theorem validatePhyPort_reports (p : ℕ) :
  Reports portErrors (validatePhyPort p) mem
  := by
  simp only [validatePhyPort, Reports, Reader.within_bind]
  constructor
  · simp
  · intro port _
    apply reports_passing
    · apply reports_port (by simp)
    · intro _
      simp

/-- Entries report what each of them reports. -/
theorem validateEach_reports {errors : List ℤ} {entry : ℕ → MessageReader ℤ} {size : ℕ}
    (hentry : ∀ p, Reports errors (entry p) mem) (p k : ℕ) :
  Reports errors (validateEach entry size p k) mem
  := by
  induction k generalizing p with
  | zero =>
      apply reports_check
      exact .inl rfl
  | succ k ih =>
      apply reports_passing
      · apply hentry
      · intro _
        apply ih

/-! ### Actions -/

/-- The action at `p` has an error without a row: it is shorter than any action, or it sets
the type of service to an illegal value. -/
def ActionLacksRow (mem : Memory) (p : ℕ) : Prop :=
  be16 mem (p + 2) < 8 ∨
    be16 mem p = ofpatSetNwTos ∧ be16 mem (p + 2) = 8 ∧ validateNwTos (mem (p + 4)) ≠ 0

/-- What an action of the right length has for an error is that of its arguments. -/
theorem validateActionOf_reports {A : Type} {errors : List ℤ} {args : ℕ → MessageReader A}
    {type size : UInt16} {tooShort tooLong : ℤ} {checkArgs : A → ℤ} {p : ℕ}
    (htype : errorInvalidActionType ∈ errors) (hshort : tooShort ∈ errors)
    (hlong : tooLong ∈ errors)
    (hargs : be16 mem p = type → be16 mem (p + 2) = size →
      ∀ a, (args (p + 4)).Returns mem a → checkArgs a = 0 ∨ checkArgs a ∈ errors) :
  Reports errors (validateActionOf (ntohActionWith args) type size tooShort tooLong checkArgs p)
    mem
  := by
  simp only [validateActionOf, Reports, Reader.within_bind]
  constructor
  · simp
  · intro a ha
    obtain ⟨hatype, halen, hreturns⟩ := returns_ntohActionWith.mp ha
    simp only [Reader.within_ite, Reader.within_pure]
    refine ⟨fun _ => .inr htype, fun hsame => ⟨fun _ => .inr hshort, fun hge =>
      ⟨fun _ => .inr hlong, fun hle => ?_⟩⟩⟩
    apply reports_passing
    · apply reports_check
      apply hargs
      · rw [← hatype]
        simpa using hsame
      · rw [← halen, ← UInt16.toNat_inj]
        rw [UInt16.lt_iff_toNat_lt] at hge
        rw [gt_iff_lt, UInt16.lt_iff_toNat_lt] at hle
        omega
      · apply hreturns
    · intro _
      apply reports_check
      exact .inl rfl

/-- An action whose arguments may be anything. -/
theorem validatePlainAction_reports {A : Type} {errors : List ℤ} {args : ℕ → MessageReader A}
    {type size : UInt16} {tooShort tooLong : ℤ} {p : ℕ}
    (htype : errorInvalidActionType ∈ errors) (hshort : tooShort ∈ errors)
    (hlong : tooLong ∈ errors) :
  Reports errors (validateActionOf (ntohActionWith args) type size tooShort tooLong (fun _ => 0) p)
    mem
  := by
  apply validateActionOf_reports htype hshort hlong
  intro _ _ _ _
  exact .inl rfl

theorem validateAction_reports {errors : List ℤ} (hsub : actionErrors ⊆ errors) {p : ℕ}
    (hlacks : ActionLacksRow mem p →
      errorTooShortAction ∈ errors ∧ errorInvalidNwTos ∈ errors) :
  Reports errors (validateAction p) mem
  := by
  have hmem : ∀ {e : ℤ}, e ∈ actionErrors → e ∈ errors := fun he => hsub he
  have hport : ∀ portNo, validatePhyPortNo portNo = 0 ∨ validatePhyPortNo portNo ∈ errors := by
    intro portNo
    apply (validatePhyPortNo_cases portNo).imp_right
    intro h
    rw [h]
    apply hmem (by decide)
  simp only [validateAction, Reports, Reader.within_bind, within_ntohs, Reader.within_ite,
    Reader.within_pure, and_self, true_and]
  constructor
  · intro hshort
    exact .inr (hlacks (.inl hshort)).1
  intro hlen
  refine ⟨fun _ => ?_, fun _ => ⟨fun _ => ?_, fun _ => ⟨fun _ => ?_, fun _ => ⟨fun _ => ?_,
    fun _ => ⟨fun _ => ?_, fun _ => ⟨fun _ => ?_, fun _ => ⟨fun _ => ?_, fun _ => ⟨fun _ => ?_,
    fun _ => ⟨fun _ => ?_, fun _ => ⟨fun _ => ?_, fun _ => ⟨fun _ => ?_, fun _ => ⟨fun _ => ?_,
    fun _ => ⟨fun _ => ?_, fun _ => ?_⟩⟩⟩⟩⟩⟩⟩⟩⟩⟩⟩⟩⟩
  · apply validateActionOf_reports (hmem (by decide)) (hmem (by decide)) (hmem (by decide))
    intro _ _ a _
    apply hport
  · apply validateActionOf_reports (hmem (by decide)) (hmem (by decide)) (hmem (by decide))
    intro _ _ vid _
    apply (validateVlanVid_cases vid).imp_right
    intro h
    rw [h]
    apply hmem (by decide)
  · apply validateActionOf_reports (hmem (by decide)) (hmem (by decide)) (hmem (by decide))
    intro _ _ pcp _
    apply (validateVlanPcp_cases pcp).imp_right
    intro h
    rw [h]
    apply hmem (by decide)
  · apply validatePlainAction_reports (hmem (by decide)) (hmem (by decide)) (hmem (by decide))
  · apply validatePlainAction_reports (hmem (by decide)) (hmem (by decide)) (hmem (by decide))
  · apply validatePlainAction_reports (hmem (by decide)) (hmem (by decide)) (hmem (by decide))
  · apply validatePlainAction_reports (hmem (by decide)) (hmem (by decide)) (hmem (by decide))
  · apply validatePlainAction_reports (hmem (by decide)) (hmem (by decide)) (hmem (by decide))
  · apply validateActionOf_reports (hmem (by decide)) (hmem (by decide)) (hmem (by decide))
    intro htype hsize tos htos
    obtain rfl := Reader.returns_read.mp htos
    rcases validateNwTos_cases (mem (p + 4)) with h | h
    · exact .inl h
    · rw [h]
      exact .inr (hlacks (.inr ⟨htype, hsize, by rw [h]; decide⟩)).2
  · apply validatePlainAction_reports (hmem (by decide)) (hmem (by decide)) (hmem (by decide))
  · apply validatePlainAction_reports (hmem (by decide)) (hmem (by decide)) (hmem (by decide))
  · apply validateActionOf_reports (hmem (by decide)) (hmem (by decide)) (hmem (by decide))
    intro _ _ a _
    apply hport
  · simp only [validateActionVendor, Reader.within_bind, within_ntohs, Reader.within_ite,
      Reader.within_pure, and_self, true_and]
    exact ⟨fun _ => .inr (hmem (by decide)), fun _ => ⟨fun _ => .inr (hmem (by decide)),
      fun _ => .inl trivial⟩⟩
  · exact .inr (hmem (by decide))

theorem validateActionOf_returns {A : Type} {args : ℕ → MessageReader A}
    {type size : UInt16} {tooShort tooLong : ℤ} {checkArgs : A → ℤ} {p : ℕ} {a : A}
    (htype : be16 mem p = type) (hsize : be16 mem (p + 2) = size)
    (hargs : (args (p + 4)).Returns mem a) (hneg : checkArgs a < 0) :
  (validateActionOf (ntohActionWith args) type size tooShort tooLong checkArgs p).Returns mem
    (checkArgs a)
  := by
  simp only [validateActionOf, Reader.returns_bind, Reader.returns_ite, Reader.returns_pure,
    returns_ntohActionWith, returns_passing]
  refine ⟨⟨type, size, a⟩, ⟨htype.symm, hsize.symm, hargs⟩, ?_⟩
  simp [hneg]

/-- An action that lacks a row is reported with one of two errors. -/
theorem ActionLacksRow.returns {p : ℕ} (h : ActionLacksRow mem p) :
  ∃ r, (validateAction p).Returns mem r ∧ r ∈ [errorTooShortAction, errorInvalidNwTos]
  := by
  rcases h with hshort | ⟨htype, hsize, htos⟩
  · use errorTooShortAction
    simp [validateAction, Reader.returns_ite, hshort]
  · have hcases := (validateNwTos_cases (mem (p + 4))).resolve_left htos
    have hreturns : (validateActionSetNwTos p).Returns mem (validateNwTos (mem (p + 4))) := by
      apply validateActionOf_returns htype hsize
      · apply Reader.returns_read.mpr rfl
      · rw [hcases]
        decide
    rw [hcases] at hreturns
    use errorInvalidNwTos
    simp +decide [validateAction, Reader.returns_ite, htype, hsize, hreturns]

/-- The walk over the actions comes to one that lacks a row. -/
def ActionsLackRow (mem : Memory) (head : ℕ) (length : UInt16) : Prop :=
  ∃ offset, Reached mem (LegalAction mem) head length offset ∧ offset < length ∧
    ActionLacksRow mem (head + offset.toNat)

/-- What a round of a walk ends the walk with. -/
theorem walkRound_returns {entry : ℕ → MessageReader ℤ} {head : ℕ} {length offset : UInt16}
    {r : ℤ} :
  (walkRound entry head length offset).Returns mem (.inl r) ↔
    offset < length ∧ (entry (head + offset.toNat)).Returns mem r ∧ r < 0 ∨
      ¬ offset < length ∧ r = 0
  := by
  simp only [walkRound, Reader.returns_ite, Reader.returns_bind, Reader.returns_pure,
    Sum.inl.injEq, reduceCtorEq, and_false, exists_false, or_false]
  apply or_congr_left
  apply and_congr_right
  intro _
  constructor
  · rintro ⟨ret, hret, hneg, rfl⟩
    exact ⟨hret, hneg⟩
  · rintro ⟨hret, hneg⟩
    exact ⟨r, hret, hneg, rfl⟩

/-- The errors of a list of actions have rows, unless the walk comes to an action that lacks
one. -/
theorem validateActions_reports {head : ℕ} {length : UInt16} (errors : List ℤ)
    (hsub : actionErrors ⊆ errors) (hlacks : ActionsLackRow mem head length →
      errorTooShortAction ∈ errors ∧ errorInvalidNwTos ∈ errors) :
  Reports errors (validateActions head length) mem
  := by
  refine ⟨fun _ _ => trivial, fun r hr => ?_⟩
  obtain ⟨offset, hvisits, hround⟩ := Reader.returns_loop.mp hr
  have hreached := (visits_walkRound validateAction_accepts).mp hvisits
  rcases walkRound_returns.mp hround with ⟨hlt, hentry, -⟩ | ⟨-, rfl⟩
  · apply (validateAction_reports hsub _).2 r hentry
    intro haction
    apply hlacks ⟨offset, hreached, hlt, haction⟩
  · exact .inl rfl

theorem ActionsLackRow.returns {head : ℕ} {length : UInt16} (h : ActionsLackRow mem head length) :
  ∃ r, (validateActions head length).Returns mem r ∧ r ∈ [errorTooShortAction, errorInvalidNwTos]
  := by
  obtain ⟨offset, hreached, hlt, haction⟩ := h
  obtain ⟨r, hr, hmem⟩ := haction.returns
  have hneg : r < 0 := by
    simp only [List.mem_cons, List.not_mem_nil, or_false] at hmem
    rcases hmem with rfl | rfl <;> decide
  refine ⟨r, Reader.returns_loop.mpr ⟨offset, ?_, walkRound_returns.mpr (.inl ⟨hlt, hr, hneg⟩)⟩,
    hmem⟩
  apply (visits_walkRound validateAction_accepts).mpr hreached

/-! ### Messages -/

/-- How long a statistics reply of the type may be; none for an unsupported type. -/
def statsReplyMax (type : UInt16) : Option ℕ :=
  if type = ofpstDesc then some 1068
  else if type = ofpstAggregate then some 36
  else if type = ofpstFlow ∨ type = ofpstTable ∨ type = ofpstPort ∨ type = ofpstQueue
    ∨ type = ofpstVendor then some ushrtMax.toNat
  else none

/-- What makes the first error of a message of the type one without a row. The replies of
four types have no row for anything but their header. -/
def LacksRow (n : ℕ) (mem : Memory) (type : UInt8) : Prop :=
  if type = ofptFeaturesReply then HeaderOk n mem type 32 ushrtMax.toNat
  else if type = ofptGetConfigReply then HeaderOk n mem type 12 12
  else if type = ofptPacketIn then
    HeaderOk n mem type 18 ushrtMax.toNat ∧ validatePhyPortNo (be16 mem 14) ≠ 0
  else if type = ofptFlowRemoved then
    HeaderOk n mem type 88 88 ∧ validateMatch (matchAt mem 8) ≠ 0
  else if type = ofptPortStatus then HeaderOk n mem type 64 64 ∧ ¬ mem 8 > ofpprModify
  else if type = ofptPacketOut then
    HeaderOk n mem type 16 ushrtMax.toNat ∧ validatePhyPortNo (be16 mem 12) = 0 ∧
      ActionsLackRow mem 16 (be16 mem 14)
  else if type = ofptFlowMod then
    HeaderOk n mem type 72 ushrtMax.toNat ∧
      (validateMatch (matchAt mem 8) = errorInvalidNwTos ∨
        LegalFlowMod mem ∧ ActionsLackRow mem 72 (be16 mem 2 - 72))
  else if type = ofptStatsReply then
    ∀ max ∈ statsReplyMax (be16 mem 8), HeaderOk n mem type 12 max
  else if type = ofptQueueGetConfigReply then HeaderOk n mem type 24 ushrtMax.toNat
  else False

/-- The message types there are. -/
abbrev messageTypes : List UInt8 :=
  [ofptHello, ofptError, ofptEchoRequest, ofptEchoReply, ofptVendor, ofptFeaturesRequest,
    ofptFeaturesReply, ofptGetConfigRequest, ofptGetConfigReply, ofptSetConfig, ofptPacketIn,
    ofptFlowRemoved, ofptPortStatus, ofptPacketOut, ofptFlowMod, ofptPortMod, ofptStatsRequest,
    ofptStatsReply, ofptBarrierRequest, ofptBarrierReply, ofptQueueGetConfigRequest,
    ofptQueueGetConfigReply]

theorem mem_messageTypes {type : UInt8} (h : type ≤ ofptQueueGetConfigReply) :
  type ∈ messageTypes
  := by
  rw [UInt8.le_iff_toNat_le] at h
  have hmax : UInt8.toNat ofptQueueGetConfigReply = 21 := rfl
  have hall : messageTypes = (List.range 22).map UInt8.ofNat := by decide
  rw [hall]
  apply List.mem_map.mpr
  refine ⟨type.toNat, ?_, UInt8.ofNat_toNat⟩
  rw [List.mem_range]
  omega

set_option maxRecDepth 4000 in
theorem translates_header :
  ∀ type ∈ messageTypes, ∀ e ∈ headerErrors, Translates type e
  := by
  decide

section

variable {type : UInt8} {minLength maxLength : ℕ} {rest : MessageReader ℤ} {r : ℤ}

/-- The errors of a message with an illegal header are translated; of the others it depends
on the rest. -/
theorem translates_iff_of_header (hn : 8 ≤ n) (htype : type ≤ ofptQueueGetConfigReply)
    (hr : (passing (validateHeader (some n) type minLength maxLength) rest).Returns mem r)
    {P : Prop}
    (hrest : HeaderOk n mem type minLength maxLength → rest.Returns mem r →
      (Translates type r ↔ ¬ P)) :
  Translates type r ↔ ¬ (HeaderOk n mem type minLength maxLength ∧ P)
  := by
  rcases returns_header hn htype hr with ⟨hnot, hmem⟩ | ⟨h, hreturns⟩
  · have htranslates := translates_header type (mem_messageTypes htype) r hmem
    exact iff_of_true htranslates (fun h => hnot h.1)
  · rw [hrest h hreturns]
    simp [h]

/-- Where all errors of the rest have rows. -/
theorem translates_of_reports (hn : 8 ≤ n) (htype : type ≤ ofptQueueGetConfigReply)
    (hr : (passing (validateHeader (some n) type minLength maxLength) rest).Returns mem r)
    (hneg : r < 0) (errors : List ℤ) (hreports : Reports errors rest mem)
    (hrows : ∀ e ∈ errors, Translates type e) :
  Translates type r
  := by
  rcases returns_header hn htype hr with ⟨-, hmem⟩ | ⟨-, hreturns⟩
  · apply translates_header type (mem_messageTypes htype) r hmem
  · apply hrows r (hreports.returns hreturns hneg)

/-- Where no error of the rest has a row. -/
theorem translates_iff_of_reports (hn : 8 ≤ n) (htype : type ≤ ofptQueueGetConfigReply)
    (hr : (passing (validateHeader (some n) type minLength maxLength) rest).Returns mem r)
    (hneg : r < 0) (errors : List ℤ) (hreports : Reports errors rest mem)
    (hrows : ∀ e ∈ errors, ¬ Translates type e) :
  Translates type r ↔ ¬ HeaderOk n mem type minLength maxLength
  := by
  have h := translates_iff_of_header hn htype hr (P := True) (fun _ hreturns => iff_of_false
    (hrows r (hreports.returns hreturns hneg)) (not_not.mpr trivial))
  simpa using h

/-- A message that is a header only. -/
theorem translates_bare (hn : 8 ≤ n) (htype : type ≤ ofptQueueGetConfigReply)
    (hr : (validateHeader (some n) type minLength maxLength).Returns mem r) (hneg : r < 0) :
  Translates type r
  := by
  have hpass : (passing (validateHeader (some n) type minLength maxLength) (pure 0)).Returns
      mem r :=
    returns_passing.mpr (.inl ⟨hr, hneg⟩)
  apply translates_of_reports hn htype hpass hneg []
  · apply reports_check (.inl rfl)
  · simp

/-- A message whose body may be anything. -/
theorem translates_anyBody (hn : 8 ≤ n) (htype : type ≤ ofptQueueGetConfigReply)
    (hr : (validateAnyBody (some n) type minLength).Returns mem r) (hneg : r < 0) :
  Translates type r
  := by
  have hiff := translates_iff_of_header hn htype hr (P := False) (fun h hreturns => ?_)
  · simpa using hiff
  · have hlength := h.length
    simp only [headerLength, Reader.returns_bind, returns_ntohs, exists_eq_left,
      Reader.returns_ite, hlength, ne_eq, not_true, false_and, false_or, Reader.returns_pure]
      at hreturns
    omega

theorem translates_featuresReply (hn : 8 ≤ n)
    (hr : (validateFeaturesReply (some n)).Returns mem r) (hneg : r < 0) :
  Translates ofptFeaturesReply r ↔ ¬ LacksRow n mem ofptFeaturesReply
  := by
  apply translates_iff_of_reports hn (by decide) hr hneg
    ([errorNoTableAvailable, errorInvalidLength] ++ portErrors)
  · simp only [Reports, headerLength, Reader.within_bind, Reader.within_read, within_ntohs,
      Reader.within_ite, Reader.within_pure, true_and]
    refine ⟨fun _ => by simp, fun _ => ⟨fun _ => by simp, fun _ => ⟨fun _ => ?_, fun _ => ?_⟩⟩⟩
    · apply reports_passing
      · apply validateEach_reports
        intro p
        apply (validatePhyPort_reports p).subset
        apply List.subset_append_right
      · intro _
        apply reports_check (.inl rfl)
    · simp
  · decide

theorem translates_getConfigReply (hn : 8 ≤ n)
    (hr : (validateGetConfigReply (some n)).Returns mem r) (hneg : r < 0) :
  Translates ofptGetConfigReply r ↔ ¬ LacksRow n mem ofptGetConfigReply
  := by
  apply translates_iff_of_reports hn (by decide) hr hneg [errorInvalidSwitchConfig]
  · simp
  · decide

theorem translates_setConfig (hn : 8 ≤ n)
    (hr : (validateSetConfig (some n)).Returns mem r) (hneg : r < 0) :
  Translates ofptSetConfig r
  := by
  apply translates_of_reports hn (by decide) hr hneg [errorInvalidSwitchConfig]
  · simp
  · decide

/-- What a check reports after an earlier one has failed or passed. -/
theorem translates_passing {check : MessageReader ℤ} {P : Prop}
    (hr : (passing check rest).Returns mem r)
    (hfails : check.Returns mem r → (Translates type r ↔ ¬ P))
    (hpasses : Accepts check mem → rest.Returns mem r → (Translates type r ↔ ¬ P)) :
  Translates type r ↔ ¬ P
  := by
  rcases returns_passing.mp hr with ⟨hreturns, -⟩ | ⟨ret, hreturns, hpos, hrest⟩
  · apply hfails hreturns
  · apply hpasses ⟨ret, hreturns, hpos⟩ hrest

theorem translates_packetIn (hn : 8 ≤ n)
    (hr : (validatePacketIn (some n)).Returns mem r) (hneg : r < 0) :
  Translates ofptPacketIn r ↔ ¬ LacksRow n mem ofptPacketIn
  := by
  apply translates_iff_of_header hn (by decide) hr
  intro _ hreturns
  simp only [Reader.returns_bind, returns_ntohs, exists_eq_left] at hreturns
  apply translates_passing hreturns
  · intro hport
    obtain rfl := Reader.returns_pure.mp hport
    have herror : validatePhyPortNo (be16 mem 14) ≠ 0 := by omega
    rw [(validatePhyPortNo_cases _).resolve_left herror]
    decide
  · intro hport hrest
    rw [accepts_pure, Int.not_lt, validatePhyPortNo_nonneg] at hport
    have hreports : Reports [errorInvalidPacketInReason] (do
        let reason ← Reader.read 16
        if reason > ofprAction then pure errorInvalidPacketInReason else do
        let _ ← headerLength
        pure 0) mem := by
      simp [Reports, headerLength]
    obtain rfl := List.mem_singleton.mp (hreports.returns hrest hneg)
    simp only [hport]
    decide

theorem validateFlowPriority_reports (m : OfpMatch) (p : ℕ) :
  Reports [errorInvalidFlowPriority] (validateFlowPriority m p) mem
  := by
  simp [validateFlowPriority]

theorem translates_flowRemoved (hn : 8 ≤ n)
    (hr : (validateFlowRemoved (some n)).Returns mem r) (hneg : r < 0) :
  Translates ofptFlowRemoved r ↔ ¬ LacksRow n mem ofptFlowRemoved
  := by
  apply translates_iff_of_header hn (by decide) hr
  intro _ hreturns
  simp only [Reader.returns_bind, returns_ntohMatch, exists_eq_left] at hreturns
  apply translates_passing hreturns
  · intro hmatch
    obtain rfl := Reader.returns_pure.mp hmatch
    have herror : validateMatch (matchAt mem 8) ≠ 0 := by omega
    have hrows : ∀ e ∈ matchErrors, ¬ Translates ofptFlowRemoved e := by decide
    exact iff_of_false (hrows _ ((validateMatch_cases _).resolve_left herror)) (not_not.mpr herror)
  · intro hmatch hrest
    rw [accepts_pure, Int.not_lt, validateMatch_nonneg] at hmatch
    have hreports : Reports [errorInvalidFlowPriority, errorInvalidFlowRemovedReason]
        (passing (validateFlowPriority (matchAt mem 8) 56) do
          let reason ← Reader.read 58
          if reason > ofprrDelete then pure errorInvalidFlowRemovedReason else pure 0) mem := by
      apply reports_passing
      · apply (validateFlowPriority_reports _ _).subset
        simp
      · intro _
        simp
    have hrows : ∀ e ∈ [errorInvalidFlowPriority, errorInvalidFlowRemovedReason],
        Translates ofptFlowRemoved e := by decide
    exact iff_of_true (hrows r (hreports.returns hrest hneg)) (not_not.mpr hmatch)

theorem translates_portStatus (hn : 8 ≤ n)
    (hr : (validatePortStatus (some n)).Returns mem r) (hneg : r < 0) :
  Translates ofptPortStatus r ↔ ¬ LacksRow n mem ofptPortStatus
  := by
  apply translates_iff_of_header hn (by decide) hr
  intro _ hreturns
  simp only [Reader.returns_bind, Reader.returns_read, exists_eq_left, Reader.returns_ite,
    Reader.returns_pure] at hreturns
  rcases hreturns with ⟨hreason, rfl⟩ | ⟨hreason, hport⟩
  · exact iff_of_true (by decide) (not_not.mpr hreason)
  · have hreports : Reports portErrors (passing (validatePhyPort 16) (pure 0)) mem := by
      apply reports_passing
      · apply validatePhyPort_reports
      · intro _
        apply reports_check (.inl rfl)
    have hrows : ∀ e ∈ portErrors, ¬ Translates ofptPortStatus e := by decide
    exact iff_of_false (hrows r (hreports.returns hport hneg)) (not_not.mpr hreason)

set_option maxRecDepth 4000 in
theorem translates_actionErrors :
  ∀ type ∈ [ofptPacketOut, ofptFlowMod], ∀ e ∈ actionErrors, Translates type e
  := by
  decide

set_option maxRecDepth 4000 in
/-- The error of a list of actions is translated, unless the walk comes to an action that
lacks a row. -/
theorem translates_actions {head : ℕ} {length : UInt16}
    (htype : type ∈ [ofptPacketOut, ofptFlowMod])
    (hr : (if length > 0 then validateActions head length else pure 0).Returns mem r)
    (hneg : r < 0) :
  Translates type r ↔ ¬ ActionsLackRow mem head length
  := by
  have hactions : (validateActions head length).Returns mem r := by
    rcases Reader.returns_ite.mp hr with ⟨-, hactions⟩ | ⟨-, hzero⟩
    · apply hactions
    · obtain rfl := Reader.returns_pure.mp hzero
      exact absurd hneg (by decide)
  constructor
  · intro htranslates hlacks
    obtain ⟨r', hr', hmem⟩ := hlacks.returns
    obtain rfl := hactions.unique hr'
    have hrows : ∀ type ∈ [ofptPacketOut, ofptFlowMod],
        ∀ e ∈ [errorTooShortAction, errorInvalidNwTos], ¬ Translates type e := by decide
    apply hrows type htype r hmem htranslates
  · intro hnot
    have hreports := validateActions_reports actionErrors (List.Subset.refl _)
      (fun hlacks => absurd hlacks hnot)
    apply translates_actionErrors type htype r (hreports.returns hactions hneg)

theorem translates_packetOut (hn : 8 ≤ n)
    (hr : (validatePacketOut (some n)).Returns mem r) (hneg : r < 0) :
  Translates ofptPacketOut r ↔ ¬ LacksRow n mem ofptPacketOut
  := by
  apply translates_iff_of_header hn (by decide) hr
  intro _ hreturns
  simp only [Reader.returns_bind, returns_ntohs, exists_eq_left] at hreturns
  apply translates_passing hreturns
  · intro hport
    obtain rfl := Reader.returns_pure.mp hport
    have herror : validatePhyPortNo (be16 mem 12) ≠ 0 := by omega
    rw [(validatePhyPortNo_cases _).resolve_left herror]
    exact iff_of_true (by decide) (fun h => absurd h.1 (by decide))
  · intro hport hrest
    rw [accepts_pure, Int.not_lt, validatePhyPortNo_nonneg] at hport
    simp only [hport, true_and]
    apply translates_passing hrest
    · intro hactions
      apply translates_actions (by simp) hactions hneg
    · intro _ hzero
      simp only [headerLength, Reader.returns_bind, returns_ntohs, exists_eq_left,
        Reader.returns_pure] at hzero
      omega

theorem validateMatch_translates {m : OfpMatch} (h : validateMatch m < 0) :
  Translates ofptFlowMod (validateMatch m) ↔ ¬ validateMatch m = errorInvalidNwTos
  := by
  have hrows : ∀ e ∈ matchErrors, Translates ofptFlowMod e ↔ ¬ e = errorInvalidNwTos := by decide
  apply hrows
  apply (validateMatch_cases m).resolve_left
  omega

theorem translates_flowMod (hn : 8 ≤ n)
    (hr : (validateFlowMod (some n)).Returns mem r) (hneg : r < 0) :
  Translates ofptFlowMod r ↔ ¬ LacksRow n mem ofptFlowMod
  := by
  apply translates_iff_of_header hn (by decide) hr
  intro _ hreturns
  simp only [Reader.returns_bind, returns_ntohMatch, exists_eq_left] at hreturns
  apply translates_passing hreturns
  · intro hmatch
    obtain rfl := Reader.returns_pure.mp hmatch
    rw [validateMatch_translates hneg, not_or]
    constructor
    · intro h
      exact ⟨h, fun hlegal => by rw [hlegal.1.match_legal] at hneg; omega⟩
    · exact fun h => h.1
  · intro hmatch hrest
    rw [accepts_pure, Int.not_lt, validateMatch_nonneg] at hmatch
    have hnotos : ¬ validateMatch (matchAt mem 8) = errorInvalidNwTos := by
      rw [hmatch]
      decide
    simp only [hnotos, false_or]
    -- an error of a field: it has a row, and the fields are not legal
    have hfield : r ∈ [errorUndefinedFlowModCommand, errorInvalidFlowPriority, errorInvalidPortNo,
        errorInvalidFlowModFlags] → ¬ LegalFlowMod mem →
        (Translates ofptFlowMod r ↔ ¬ (LegalFlowMod mem ∧
          ActionsLackRow mem 72 (be16 mem 2 - 72))) := by
      intro hmem hillegal
      have hrows : ∀ e ∈ [errorUndefinedFlowModCommand, errorInvalidFlowPriority,
          errorInvalidPortNo, errorInvalidFlowModFlags], Translates ofptFlowMod e := by decide
      exact iff_of_true (hrows r hmem) (fun h => hillegal h.1)
    simp only [Reader.returns_bind, returns_ntohs, exists_eq_left] at hrest
    rcases Reader.returns_ite.mp hrest with ⟨hcommand, hr'⟩ | ⟨hcommand, hrest⟩
    · obtain rfl := Reader.returns_pure.mp hr'
      apply hfield (by simp) (fun h => h.command hcommand)
    apply translates_passing hrest
    · intro hpriority
      have hmem := (validateFlowPriority_reports _ _).returns hpriority hneg
      apply hfield
      · simp only [List.mem_singleton] at hmem
        simp [hmem]
      · intro h
        apply (validateFlowPriority_accepts.mpr h.priority).not_rejects ⟨r, hpriority, hneg⟩
    intro hpriority hrest
    apply translates_passing hrest
    · intro hport
      simp only [Reader.returns_ite, Reader.returns_bind, returns_ntohs, exists_eq_left,
        Reader.returns_pure] at hport
      have hportNo : r = validatePhyPortNo (be16 mem 68) ∧ be16 mem 68 ≠ ofppNone ∧
          (be16 mem 56 = ofpfcDelete ∨ be16 mem 56 = ofpfcDeleteStrict) := by
        rcases hport with ⟨hdelete, ⟨hnone, rfl⟩ | ⟨-, rfl⟩⟩ | ⟨-, rfl⟩
        · exact ⟨rfl, hnone, hdelete⟩
        · omega
        · omega
      obtain ⟨rfl, hnone, hdelete⟩ := hportNo
      have herror : validatePhyPortNo (be16 mem 68) ≠ 0 := by omega
      apply hfield
      · rw [(validatePhyPortNo_cases _).resolve_left herror]
        simp
      · intro h
        apply herror (h.outPort hdelete hnone)
    intro hport hrest
    simp only [Reader.returns_bind, returns_ntohs, exists_eq_left, headerLength] at hrest
    rcases Reader.returns_ite.mp hrest with ⟨hflags, hr'⟩ | ⟨hflags, hrest⟩
    · obtain rfl := Reader.returns_pure.mp hr'
      apply hfield (by simp) (fun h => hflags h.flags)
    have hlegal : LegalFlowMod mem := by
      refine ⟨hmatch, hcommand, validateFlowPriority_accepts.mp hpriority, fun hdelete hnone => ?_,
        not_not.mp hflags⟩
      simp only [accepts_ite, accepts_bind, accepts_pure, returns_ntohs, exists_eq_left, hdelete,
        hnone, ne_eq, not_false_eq_true, true_and, not_true, false_and, or_false, Int.not_lt,
        validatePhyPortNo_nonneg] at hport
      apply hport
    simp only [hlegal, true_and]
    apply translates_passing hrest
    · intro hactions
      apply translates_actions (by simp) hactions hneg
    · intro _ hzero
      obtain rfl := Reader.returns_pure.mp hzero
      exact absurd hneg (by decide)

theorem translates_portMod (hn : 8 ≤ n)
    (hr : (validatePortMod (some n)).Returns mem r) (hneg : r < 0) :
  Translates ofptPortMod r
  := by
  apply translates_of_reports hn (by decide) hr hneg
    [errorInvalidPortNo, errorInvalidPortConfig, errorInvalidPortMask,
      errorInvalidPortFeatures]
  · simp only [Reports, Reader.within_bind, within_ntohs, and_self, true_and]
    apply reports_passing
    · apply reports_port (by simp)
    · intro _
      simp
  · decide

/-- The errors of statistics requests. -/
abbrev statsRequestErrors : List ℤ :=
  [errorUnsupportedStatsType, errorInvalidStatsType, errorInvalidStatsRequestFlags,
    errorInvalidPortNo] ++ matchErrors

theorem translates_statsRequestOf (hn : 8 ≤ n) {statsType : UInt16} {body : MessageReader ℤ}
    (hr : (validateStatsRequestOf (some n) statsType minLength maxLength body).Returns mem r)
    (hneg : r < 0) (hbody : Reports statsRequestErrors body mem) :
  Translates ofptStatsRequest r
  := by
  apply translates_of_reports hn (by decide) hr hneg statsRequestErrors
  · simp only [Reports, Reader.within_bind, within_ntohs, and_self, true_and, Reader.within_ite,
      Reader.within_pure]
    exact ⟨fun _ => by simp, fun _ => ⟨fun _ => by simp, fun _ => hbody⟩⟩
  · decide

theorem validateFlowsBody_reports :
  Reports statsRequestErrors validateFlowsBody mem
  := by
  simp only [validateFlowsBody, Reports, Reader.within_bind]
  refine ⟨fun _ _ => trivial, fun m _ => ?_⟩
  apply reports_passing
  · apply reports_match (by simp)
  · intro _
    simp only [Reader.within_bind, within_ntohs, and_self, true_and]
    apply reports_passing
    · apply reports_port (by simp)
    · intro _
      apply reports_check (.inl rfl)

theorem translates_statsRequest (hn : 8 ≤ n)
    (hr : (validateStatsRequest (some n)).Returns mem r) (hneg : r < 0) :
  Translates ofptStatsRequest r
  := by
  have hzero : Reports statsRequestErrors (pure 0) mem := reports_check (.inl rfl)
  simp only [validateStatsRequest, unlessNull_some, Reader.returns_bind, returns_ntohs,
    exists_eq_left] at hr
  rcases Reader.returns_ite.mp hr with ⟨-, hr⟩ | ⟨-, hr⟩
  · apply translates_statsRequestOf hn hr hneg hzero
  rcases Reader.returns_ite.mp hr with ⟨-, hr⟩ | ⟨-, hr⟩
  · apply translates_statsRequestOf hn hr hneg validateFlowsBody_reports
  rcases Reader.returns_ite.mp hr with ⟨-, hr⟩ | ⟨-, hr⟩
  · apply translates_statsRequestOf hn hr hneg validateFlowsBody_reports
  rcases Reader.returns_ite.mp hr with ⟨-, hr⟩ | ⟨-, hr⟩
  · apply translates_statsRequestOf hn hr hneg hzero
  rcases Reader.returns_ite.mp hr with ⟨-, hr⟩ | ⟨-, hr⟩
  · apply translates_statsRequestOf hn hr hneg
    simp only [Reports, Reader.within_bind, within_ntohs, and_self, true_and]
    apply reports_passing
    · apply reports_port (by simp)
    · intro _
      simp
  rcases Reader.returns_ite.mp hr with ⟨-, hr⟩ | ⟨-, hr⟩
  · apply translates_statsRequestOf hn hr hneg
    simp only [Reports, Reader.within_bind, within_ntohs, and_self, true_and]
    apply reports_passing
    · apply reports_port (by simp)
    · intro _
      apply reports_check (.inl rfl)
  rcases Reader.returns_ite.mp hr with ⟨-, hr⟩ | ⟨-, hr⟩
  · apply translates_statsRequestOf hn hr hneg hzero
  · obtain rfl := Reader.returns_pure.mp hr
    decide

theorem translates_queueGetConfigRequest (hn : 8 ≤ n)
    (hr : (validateQueueGetConfigRequest (some n)).Returns mem r) (hneg : r < 0) :
  Translates ofptQueueGetConfigRequest r
  := by
  apply translates_of_reports hn (by decide) hr hneg [errorInvalidPortNo]
  · simp only [Reports, Reader.within_bind, within_ntohs, and_self, true_and]
    apply reports_passing
    · apply reports_port (by simp)
    · intro _
      apply reports_check (.inl rfl)
  · decide

/-- The errors of the bodies of statistics replies. -/
abbrev statsReplyErrors : List ℤ :=
  [errorInvalidStatsReplyFlags, errorInvalidLength, errorInvalidPortNo, errorInvalidFlowPriority,
    errorTooShortAction, errorInvalidNwTos] ++ matchErrors ++ actionErrors

theorem validateFlowEntry_reports (p : ℕ) :
  Reports statsReplyErrors (validateFlowEntry p) mem
  := by
  simp only [validateFlowEntry, Reports, Reader.within_bind]
  refine ⟨fun _ _ => trivial, fun m _ => ?_⟩
  apply reports_passing
  · apply reports_match (by simp)
  · intro _
    apply reports_passing
    · apply (validateFlowPriority_reports _ _).subset
      simp
    · intro _
      simp only [Reader.within_bind, within_ntohs, and_self, true_and, Reader.within_ite,
        Reader.within_pure, true_or, implies_true, and_true]
      intro _
      apply validateActions_reports _ (List.subset_append_right _ _)
      intro _
      exact ⟨by simp, by simp⟩

theorem validateFlowStats_reports (s : UInt16 × ℕ) :
  Reports statsReplyErrors (Reader.loop validateFlowStatsRound s) mem
  := by
  apply Reader.within_loop.mpr
  rintro ⟨flowLength, flowStats⟩ _
  simp only [validateFlowStatsRound, Reader.within_ite, Reader.within_bind, Reader.within_pure,
    within_ntohs, and_self, Sum.inl.injEq, reduceCtorEq, false_implies, implies_true, forall_eq',
    true_or, and_true]
  intro _
  apply Reader.Within.mono (validateFlowEntry_reports flowStats)
  intro ret _ hret _
  exact hret

theorem validateStatsEntries_reports {entry : ℕ → MessageReader ℤ} {size : ℕ}
    (hentry : ∀ p, Reports statsReplyErrors (entry p) mem) :
  Reports statsReplyErrors (validateStatsEntries entry size) mem
  := by
  simp only [validateStatsEntries, Reports, headerLength, Reader.within_bind, within_ntohs,
    and_self, true_and, Reader.within_ite, Reader.within_pure]
  refine ⟨fun _ => by simp, fun _ => ?_⟩
  apply validateEach_reports hentry

/-- No error of the body of a statistics reply has a row. -/
theorem translates_statsReplyOf (hn : 8 ≤ n) {flags : UInt16} {body : MessageReader ℤ}
    (hr : (validateStatsReplyOf (some n) maxLength flags body).Returns mem r) (hneg : r < 0)
    (hbody : Reports statsReplyErrors body mem) {statsType : UInt16}
    (htype : be16 mem 8 = statsType) (hmax : statsReplyMax statsType = some maxLength) :
  Translates ofptStatsReply r ↔ ¬ LacksRow n mem ofptStatsReply
  := by
  have hlacks : LacksRow n mem ofptStatsReply ↔ HeaderOk n mem ofptStatsReply 12 maxLength := by
    have hunfold : LacksRow n mem ofptStatsReply ↔
        ∀ max ∈ statsReplyMax (be16 mem 8), HeaderOk n mem ofptStatsReply 12 max := Iff.rfl
    rw [hunfold, htype, hmax]
    simp
  rw [hlacks]
  apply translates_iff_of_reports hn (by decide) hr hneg statsReplyErrors
  · simp only [Reports, Reader.within_bind, within_ntohs, and_self, true_and, Reader.within_ite,
      Reader.within_pure]
    exact ⟨fun _ => by simp, fun _ => hbody⟩
  · decide

theorem translates_statsReply (hn : 8 ≤ n)
    (hr : (validateStatsReply (some n)).Returns mem r) (hneg : r < 0) :
  Translates ofptStatsReply r ↔ ¬ LacksRow n mem ofptStatsReply
  := by
  have hzero : Reports statsReplyErrors (pure 0) mem := reports_check (.inl rfl)
  simp only [validateStatsReply, unlessNull_some, Reader.returns_bind, returns_ntohs,
    exists_eq_left] at hr
  rcases Reader.returns_ite.mp hr with ⟨htype, hr⟩ | ⟨hdesc, hr⟩
  · apply translates_statsReplyOf hn hr hneg hzero htype rfl
  rcases Reader.returns_ite.mp hr with ⟨htype, hr⟩ | ⟨hflow, hr⟩
  · apply translates_statsReplyOf hn hr hneg _ htype rfl
    simp only [Reports, headerLength, Reader.within_bind, within_ntohs, and_self, true_and]
    apply validateFlowStats_reports
  rcases Reader.returns_ite.mp hr with ⟨htype, hr⟩ | ⟨haggregate, hr⟩
  · apply translates_statsReplyOf hn hr hneg hzero htype rfl
  rcases Reader.returns_ite.mp hr with ⟨htype, hr⟩ | ⟨htable, hr⟩
  · apply translates_statsReplyOf hn hr hneg _ htype rfl
    apply validateStatsEntries_reports
    intro p
    simp only [Reports, Reader.within_bind, within_ntohl, and_self, true_and]
    apply reports_check
    rcases validateWildcards_cases (be32 mem (p + 36)) with h | h <;> simp [h]
  rcases Reader.returns_ite.mp hr with ⟨htype, hr⟩ | ⟨hport, hr⟩
  · apply translates_statsReplyOf hn hr hneg _ htype rfl
    apply validateStatsEntries_reports
    intro p
    simp only [Reports, Reader.within_bind, within_ntohs, and_self, true_and]
    apply reports_port (by simp)
  rcases Reader.returns_ite.mp hr with ⟨htype, hr⟩ | ⟨hqueue, hr⟩
  · apply translates_statsReplyOf hn hr hneg _ htype rfl
    apply validateStatsEntries_reports
    intro p
    simp only [Reports, Reader.within_bind, within_ntohs, and_self, true_and]
    apply reports_port (by simp)
  rcases Reader.returns_ite.mp hr with ⟨htype, hr⟩ | ⟨hvendor, hr⟩
  · apply translates_statsReplyOf hn hr hneg _ htype rfl
    simp [Reports, headerLength]
  · obtain rfl := Reader.returns_pure.mp hr
    have hunfold : LacksRow n mem ofptStatsReply ↔
        ∀ max ∈ statsReplyMax (be16 mem 8), HeaderOk n mem ofptStatsReply 12 max := Iff.rfl
    rw [hunfold]
    apply iff_of_false (by decide)
    simp [statsReplyMax, hdesc, hflow, haggregate, htable, hport, hqueue, hvendor]

/-- The errors of the queues of a queue configuration reply. -/
abbrev queueErrors : List ℤ :=
  [errorInvalidPortNo, errorInvalidLength, errorTooShortQueueDescription,
    errorTooShortQueueProperty, errorTooLongQueueProperty, errorUndefinedQueueProperty]

theorem validateQueueProperties_reports (head : ℕ) (length : UInt16) :
  Reports queueErrors (validateQueueProperties head length) mem
  := by
  refine ⟨fun _ _ => trivial, fun r hr => ?_⟩
  obtain ⟨offset, -, hround⟩ := Reader.returns_loop.mp hr
  have hproperty : ∀ p, Reports queueErrors (validateQueueProperty p) mem := by
    intro p
    simp [validateQueueProperty]
  rcases walkRound_returns.mp hround with ⟨-, hentry, -⟩ | ⟨-, rfl⟩
  · apply (hproperty _).2 r hentry
  · exact .inl rfl

theorem validatePacketQueues_reports (p k : ℕ) :
  Reports queueErrors (validatePacketQueues p k) mem
  := by
  induction k generalizing p with
  | zero => apply reports_check (.inl rfl)
  | succ k ih =>
      apply reports_passing
      · simp only [validatePacketQueue, Reports, Reader.within_bind, within_ntohs, and_self,
          true_and, Reader.within_ite, Reader.within_pure]
        refine ⟨fun _ => by simp, fun _ => ?_⟩
        apply reports_passing
        · apply validateQueueProperties_reports
        · intro _
          apply reports_check (.inl rfl)
      · intro _
        simp only [Reader.within_bind, within_ntohs, and_self, true_and]
        apply ih

theorem translates_queueGetConfigReply (hn : 8 ≤ n)
    (hr : (validateQueueGetConfigReply (some n)).Returns mem r) (hneg : r < 0) :
  Translates ofptQueueGetConfigReply r ↔ ¬ LacksRow n mem ofptQueueGetConfigReply
  := by
  apply translates_iff_of_reports hn (by decide) hr hneg queueErrors
  · simp only [Reports, Reader.within_bind, within_ntohs, and_self, true_and]
    apply reports_passing
    · apply reports_port (by simp)
    · intro _
      simp only [headerLength, Reader.within_bind, within_ntohs, and_self, true_and]
      refine ⟨fun _ _ => trivial, fun counted _ => ?_⟩
      simp only [Reader.within_ite, Reader.within_pure, true_or, implies_true, and_true]
      refine ⟨fun _ => by simp, fun _ _ => ?_⟩
      apply reports_passing
      · apply validatePacketQueues_reports
      · intro _
        apply reports_check (.inl rfl)
  · decide

/-- The types of the messages all of whose errors have rows. -/
abbrev completeTypes : List UInt8 :=
  [ofptHello, ofptError, ofptEchoRequest, ofptEchoReply, ofptVendor, ofptFeaturesRequest,
    ofptGetConfigRequest, ofptSetConfig, ofptPortMod, ofptStatsRequest, ofptBarrierRequest,
    ofptBarrierReply, ofptQueueGetConfigRequest]

theorem not_lacksRow (htype : type ∈ completeTypes) :
  ¬ LacksRow n mem type
  := by
  simp only [List.mem_cons, List.not_mem_nil, or_false] at htype
  rcases htype with rfl | rfl | rfl | rfl | rfl | rfl | rfl | rfl | rfl | rfl | rfl | rfl | rfl <;>
    exact id

theorem translates_error (hn : 8 ≤ n) (hr : (validateError (some n)).Returns mem r)
    (hneg : r < 0) :
  Translates ofptError r
  := by
  apply translates_of_reports hn (by decide) hr hneg []
  · apply reports_check (.inl rfl)
  · simp

/-- One case for each type. -/
theorem translates_ofType (hn : 8 ≤ n) (htype : type ∈ messageTypes)
    (hr : (validateMessageOfType type (some n)).Returns mem r) (hneg : r < 0) :
  Translates type r ↔ ¬ LacksRow n mem type
  := by
  have hcomplete : type ∈ completeTypes → Translates type r →
      (Translates type r ↔ ¬ LacksRow n mem type) :=
    fun hmem htranslates => iff_of_true htranslates (not_lacksRow hmem)
  simp only [messageTypes, List.mem_cons, List.not_mem_nil, or_false] at htype
  rcases htype with rfl | rfl | rfl | rfl | rfl | rfl | rfl | rfl | rfl | rfl | rfl | rfl | rfl
    | rfl | rfl | rfl | rfl | rfl | rfl | rfl | rfl | rfl
  · apply hcomplete (by simp)
    apply translates_bare hn (by decide) hr hneg
  · apply hcomplete (by simp)
    apply translates_error hn hr hneg
  · apply hcomplete (by simp)
    apply translates_anyBody hn (by decide) hr hneg
  · apply hcomplete (by simp)
    apply translates_anyBody hn (by decide) hr hneg
  · apply hcomplete (by simp)
    apply translates_anyBody hn (by decide) hr hneg
  · apply hcomplete (by simp)
    apply translates_bare hn (by decide) hr hneg
  · apply translates_featuresReply hn hr hneg
  · apply hcomplete (by simp)
    apply translates_bare hn (by decide) hr hneg
  · apply translates_getConfigReply hn hr hneg
  · apply hcomplete (by simp)
    apply translates_setConfig hn hr hneg
  · apply translates_packetIn hn hr hneg
  · apply translates_flowRemoved hn hr hneg
  · apply translates_portStatus hn hr hneg
  · apply translates_packetOut hn hr hneg
  · apply translates_flowMod hn hr hneg
  · apply hcomplete (by simp)
    apply translates_portMod hn hr hneg
  · apply hcomplete (by simp)
    apply translates_statsRequest hn hr hneg
  · apply translates_statsReply hn hr hneg
  · apply hcomplete (by simp)
    apply translates_bare hn (by decide) hr hneg
  · apply hcomplete (by simp)
    apply translates_bare hn (by decide) hr hneg
  · apply hcomplete (by simp)
    apply translates_queueGetConfigRequest hn hr hneg
  · apply translates_queueGetConfigReply hn hr hneg

end

/-- The error of a rejected message has a translation exactly when it does not come from a
check that lacks a row. -/
theorem errors_translated_iff (n : ℕ) (hn : 8 ≤ n) (mem : Memory)
    (htype : mem 1 ≤ ofptQueueGetConfigReply) (e : ℤ) (he : e < 0)
    (hreturns : (validateOpenflowMessage (some n)).Returns mem e) :
  Translates (mem 1) e ↔ ¬ LacksRow n mem (mem 1)
  := by
  simp only [validateOpenflowMessage, unlessNull_some, Reader.returns_bind, Reader.returns_read,
    exists_eq_left] at hreturns
  apply translates_ofType hn (mem_messageTypes htype) hreturns he

/-- A features reply of 32 bytes with no table. -/
def noTableReply : List UInt8 :=
  [1, 6, 0, 32, 0, 0, 0, 0, 0, 0, 0, 0, 0, 0, 0, 0, 0, 0, 0, 0, 0, 0, 0, 0, 0, 0, 0, 0, 0, 0, 0, 0]

/-- The error of a hello that is said to have nine bytes is translated. -/
theorem errors_translated_hello :
  errorTooLongMessage < 0 ∧
    (validateOpenflowMessage (some 8)).Returns (fun i => [1, 0, 0, 9].getD i 0)
      errorTooLongMessage ∧
    Translates ofptHello errorTooLongMessage
  := by
  have hreturns : (validateOpenflowMessage (some 8)).Returns (fun i => [1, 0, 0, 9].getD i 0)
      errorTooLongMessage := ⟨0, by decide⟩
  use by decide, hreturns
  apply (errors_translated_iff 8 (Nat.le_refl 8) (fun i => [1, 0, 0, 9].getD i 0) (by decide) _
    (by decide) hreturns).mpr
  exact id

/-- The error of a features reply without tables is not translated. -/
theorem noTableReply_not_translated :
  ¬ ∀ n ≥ 8, ∀ mem : Memory, mem 1 ≤ ofptQueueGetConfigReply → ∀ e < 0,
    (validateOpenflowMessage (some n)).Returns mem e → Translates (mem 1) e
  := by
  intro h
  have htranslates := h 32 (by decide) (fun i => noTableReply.getD i 0) (by decide)
    errorNoTableAvailable (by decide) ⟨0, by decide⟩
  exact absurd htranslates (by decide)

end CcController
