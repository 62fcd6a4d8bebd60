import CcController.OfMsgCheck

/-!
# Which bytes the validators read

A validator stays inside a message of `n` bytes when every place it reads is below `n`. Most
validators look at the length of the message before anything else and then read fields at
fixed places, so they always stay inside.

The others follow lengths that stand in the message itself and compare them with each other,
not with the length of the message: a list of actions, the entries of a flow statistics
reply, the queues of a queue configuration reply. And the type of a statistics message is
read before any length is looked at. `StaysInside` says what has to hold of the message for
them to stay inside, and `validateOpenflowMessage_within_iff` that it is exactly that.
-/

namespace CcController

variable {n : ℕ} {mem : Memory}

section

variable {S : ℕ → Prop}

/-- Checking and then going on reads in `S` exactly when the check does and, unless it
fails, the rest does. -/
theorem within_passing {check rest : MessageReader ℤ} :
  Reader.Within S (passing check rest) mem (fun _ => True) ↔
    Reader.Within S check mem (fun _ => True) ∧
      (Accepts check mem → Reader.Within S rest mem (fun _ => True))
  := by
  simp only [passing, Reader.within_bind, Reader.within_ite, Reader.within_pure, implies_true,
    true_and]
  constructor
  · rintro ⟨hcheck, hrest⟩
    use ⟨hcheck, fun _ _ => trivial⟩
    rintro ⟨r, hr, hpos⟩
    apply hrest r hr hpos
  · rintro ⟨hcheck, hrest⟩
    exact ⟨hcheck.1, fun r hr hpos => hrest ⟨r, hr, hpos⟩⟩

end

/-! ### Actions -/

/-- The size of an action of the type, other than a vendor's. -/
def actionSize (type : UInt16) : Option UInt16 :=
  if type = ofpatOutput ∨ type = ofpatSetVlanVid ∨ type = ofpatSetVlanPcp ∨ type = ofpatStripVlan
    ∨ type = ofpatSetNwSrc ∨ type = ofpatSetNwDst ∨ type = ofpatSetNwTos
    ∨ type = ofpatSetTpSrc ∨ type = ofpatSetTpDst then some 8
  else if type = ofpatSetDlSrc ∨ type = ofpatSetDlDst ∨ type = ofpatEnqueue then some 16
  else none

/-- The arguments of the action at `p` are legal. -/
def LegalArgs (mem : Memory) (p : ℕ) : Prop :=
  (be16 mem p = ofpatOutput ∨ be16 mem p = ofpatEnqueue →
    validatePhyPortNo (be16 mem (p + 4)) = 0) ∧
  (be16 mem p = ofpatSetVlanVid → validateVlanVid (be16 mem (p + 4)) = 0) ∧
  (be16 mem p = ofpatSetVlanPcp → validateVlanPcp (mem (p + 4)) = 0) ∧
  (be16 mem p = ofpatSetNwTos → validateNwTos (mem (p + 4)) = 0)

/-- The action at `p` has a defined type, the length its type requires, and legal
arguments. -/
def LegalAction (mem : Memory) (p : ℕ) : Prop :=
  be16 mem p = ofpatVendor ∧ 8 ≤ be16 mem (p + 2) ∨
    actionSize (be16 mem p) = some (be16 mem (p + 2)) ∧ LegalArgs mem p

/-- How many bytes from the start of an action its validator looks at. -/
def actionExtent (mem : Memory) (p : ℕ) : ℕ :=
  let type := be16 mem p
  if be16 mem (p + 2) < 8 then 4
  else if type = ofpatOutput ∨ type = ofpatSetNwSrc ∨ type = ofpatSetNwDst then 8
  else if type = ofpatSetVlanVid ∨ type = ofpatSetTpSrc ∨ type = ofpatSetTpDst then 6
  else if type = ofpatSetVlanPcp ∨ type = ofpatSetNwTos then 5
  else if type = ofpatSetDlSrc ∨ type = ofpatSetDlDst then 10
  else if type = ofpatEnqueue then 16
  else 4

/-- A type is one of the defined ones or none of them. -/
theorem actionType_cases (type : UInt16) :
  type = ofpatOutput ∨ type = ofpatSetVlanVid ∨ type = ofpatSetVlanPcp ∨ type = ofpatStripVlan
    ∨ type = ofpatSetDlSrc ∨ type = ofpatSetDlDst ∨ type = ofpatSetNwSrc
    ∨ type = ofpatSetNwDst ∨ type = ofpatSetNwTos ∨ type = ofpatSetTpSrc
    ∨ type = ofpatSetTpDst ∨ type = ofpatEnqueue ∨ type = ofpatVendor
    ∨ (type ≠ ofpatOutput ∧ type ≠ ofpatSetVlanVid ∧ type ≠ ofpatSetVlanPcp
      ∧ type ≠ ofpatStripVlan ∧ type ≠ ofpatSetDlSrc ∧ type ≠ ofpatSetDlDst
      ∧ type ≠ ofpatSetNwSrc ∧ type ≠ ofpatSetNwDst ∧ type ≠ ofpatSetNwTos
      ∧ type ≠ ofpatSetTpSrc ∧ type ≠ ofpatSetTpDst ∧ type ≠ ofpatEnqueue
      ∧ type ≠ ofpatVendor)
  := by
  grind

theorem validateActionOf_within {A : Type} {ntoh : ℕ → MessageReader (OfpAction A)}
    {type size : UInt16} {tooShort tooLong : ℤ} {checkArgs : A → ℤ} {action : ℕ} {S : ℕ → Prop} :
  Reader.Within S (validateActionOf ntoh type size tooShort tooLong checkArgs action) mem
      (fun _ => True) ↔
    Reader.Within S (ntoh action) mem (fun _ => True)
  := by
  simp [validateActionOf, within_passing]

/-- The validator of an action looks at `actionExtent` bytes. -/
theorem validateAction_within (p : ℕ) :
  Reader.Within (· < n) (validateAction p) mem (fun _ => True) ↔ p + actionExtent mem p ≤ n
  := by
  simp only [validateAction, validateActionOutput, validateActionSetVlanVid,
    validateActionSetVlanPcp, validateActionStripVlan, validateActionSetDlSrc,
    validateActionSetDlDst, validateActionSetNwSrc, validateActionSetNwDst,
    validateActionSetNwTos, validateActionSetTpSrc, validateActionSetTpDst,
    validateActionEnqueue, validateActionVendor, Reader.within_bind, within_ntohs,
    Reader.within_ite, Reader.within_pure, validateActionOf_within, ntohActionOutput,
    ntohActionVlanVid, ntohActionVlanPcp, ntohActionStripVlan, ntohActionDlAddr,
    ntohActionNwAddr, ntohActionNwTos, ntohActionTpPort, ntohActionEnqueue,
    within_ntohActionWith, within_bcopy, within_ntohl, Reader.within_read, actionExtent]
  generalize be16 mem p = type
  generalize be16 mem (p + 2) = len
  by_cases hlen : len < 8
  · simp only [hlen, if_true]
    simp
    omega
  · simp only [hlen, if_false, not_false_eq_true]
    rcases actionType_cases type with rfl | rfl | rfl | rfl | rfl | rfl | rfl | rfl | rfl | rfl
      | rfl | rfl | rfl | hnone
    case inr.inr.inr.inr.inr.inr.inr.inr.inr.inr.inr.inr.inr =>
      simp [hnone]
      omega
    all_goals
      simp +decide
      omega

@[simp]
theorem validatePhyPortNo_nonneg {portNo : UInt16} :
  0 ≤ validatePhyPortNo portNo ↔ validatePhyPortNo portNo = 0
  := by
  unfold validatePhyPortNo
  split <;> simp

@[simp]
theorem validateWildcards_nonneg {wildcards : UInt32} :
  0 ≤ validateWildcards wildcards ↔ validateWildcards wildcards = 0
  := by
  unfold validateWildcards
  split <;> simp

@[simp]
theorem validateVlanVid_nonneg {vid : UInt16} :
  0 ≤ validateVlanVid vid ↔ validateVlanVid vid = 0
  := by
  unfold validateVlanVid
  split <;> simp

@[simp]
theorem validateVlanPcp_nonneg {pcp : UInt8} :
  0 ≤ validateVlanPcp pcp ↔ validateVlanPcp pcp = 0
  := by
  unfold validateVlanPcp
  split <;> simp

@[simp]
theorem validateNwTos_nonneg {tos : UInt8} :
  0 ≤ validateNwTos tos ↔ validateNwTos tos = 0
  := by
  unfold validateNwTos
  split <;> simp

theorem validateActionOf_accepts {A : Type} {args : ℕ → MessageReader A} {type size : UInt16}
    {tooShort tooLong : ℤ} {checkArgs : A → ℤ} {action : ℕ} (hshort : tooShort < 0)
    (hlong : tooLong < 0) :
  Accepts (validateActionOf (ntohActionWith args) type size tooShort tooLong checkArgs action)
      mem ↔
    be16 mem action = type ∧ be16 mem (action + 2) = size ∧
      ∃ a, (args (action + 4)).Returns mem a ∧ ¬ checkArgs a < 0
  := by
  have hnot : ∀ {a b : UInt16}, a = b ↔ ¬ a < b ∧ ¬ a > b := by
    intro a b
    rw [UInt16.lt_iff_toNat_lt, gt_iff_lt, UInt16.lt_iff_toNat_lt, ← UInt16.toNat_inj]
    omega
  simp only [validateActionOf, accepts_bind, accepts_ite, accepts_passing, accepts_pure,
    returns_ntohActionWith, hshort, hlong, not_true, and_false, false_or]
  constructor
  · rintro ⟨a, ⟨htype, hlen, hargs⟩, ⟨-, hcode⟩ | ⟨hsame, hge, hle, hcheck, -⟩⟩
    · simp at hcode
    · rw [← htype, ← hlen]
      exact ⟨not_not.mp hsame, hnot.mpr ⟨hge, hle⟩, a.args, hargs, hcheck⟩
  · rintro ⟨htype, hlen, a, hargs, hcheck⟩
    refine ⟨⟨_, _, a⟩, ⟨rfl, rfl, hargs⟩, .inr ⟨not_not.mpr htype, ?_⟩⟩
    obtain ⟨hge, hle⟩ := hnot.mp hlen
    exact ⟨hge, hle, hcheck, by simp⟩

/-- The validator of an action accepts exactly the legal ones. -/
theorem validateAction_accepts (p : ℕ) :
  Accepts (validateAction p) mem ↔ LegalAction mem p
  := by
  simp only [validateAction, accepts_bind, accepts_ite, accepts_pure, returns_ntohs,
    exists_eq_left, validateActionOutput, validateActionSetVlanVid, validateActionSetVlanPcp,
    validateActionStripVlan, validateActionSetDlSrc, validateActionSetDlDst,
    validateActionSetNwSrc, validateActionSetNwDst, validateActionSetNwTos,
    validateActionSetTpSrc, validateActionSetTpDst, validateActionEnqueue,
    validateActionVendor, ntohActionOutput, ntohActionVlanVid, ntohActionVlanPcp,
    ntohActionStripVlan, ntohActionDlAddr, ntohActionNwAddr, ntohActionNwTos,
    ntohActionTpPort, ntohActionEnqueue]
  rcases actionType_cases (be16 mem p) with h | h | h | h | h | h | h | h | h | h | h | h | h | h
  case inr.inr.inr.inr.inr.inr.inr.inr.inr.inr.inr.inr.inr =>
    simp [h, LegalAction, actionSize]
  case inr.inr.inr.inr.inr.inr.inr.inr.inr.inr.inr.inr.inl =>
    simp +decide [h, LegalAction, actionSize]
  all_goals
    simp +decide [h, LegalAction, actionSize, LegalArgs, validateActionOf_accepts,
      (yields_bcopy _ _).returns]
    grind

theorem four_le_actionExtent (p : ℕ) :
  4 ≤ actionExtent mem p
  := by
  unfold actionExtent
  grind

/-! ### Walks over entries -/

/-- The offsets a walk comes to, when the entries before are legal. -/
inductive Reached (mem : Memory) (Legal : ℕ → Prop) (head : ℕ) (length : UInt16) :
    UInt16 → Prop where
  | start : Reached mem Legal head length 0
  | next {offset : UInt16} (reached : Reached mem Legal head length offset)
      (lt : offset < length) (legal : Legal (head + offset.toNat)) :
      Reached mem Legal head length (offset + be16 mem (head + offset.toNat + 2))

/-- The walk comes to the end of its entries. -/
def WalkEnds (mem : Memory) (Legal : ℕ → Prop) (head : ℕ) (length : UInt16) : Prop :=
  ∃ offset, Reached mem Legal head length offset ∧ ¬ offset < length

/-- Every entry the walk comes to lies below `n`, as far as it is looked at. -/
def WalkInside (n : ℕ) (mem : Memory) (Legal : ℕ → Prop) (extent : ℕ → ℕ) (head : ℕ)
    (length : UInt16) : Prop :=
  ∀ offset, Reached mem Legal head length offset → offset < length →
    head + offset.toNat + extent (head + offset.toNat) ≤ n

section

variable {entry : ℕ → MessageReader ℤ} {Legal : ℕ → Prop} {head : ℕ} {length : UInt16}

theorem round_walkRound {offset offset' : UInt16} :
  Reader.Round (walkRound entry head length) mem offset offset' ↔
    offset < length ∧ Accepts (entry (head + offset.toNat)) mem ∧
      offset' = offset + be16 mem (head + offset.toNat + 2)
  := by
  simp only [Reader.Round, walkRound, Reader.returns_ite, Reader.returns_bind,
    Reader.returns_pure, returns_ntohs, exists_eq_left, Sum.inr.injEq, reduceCtorEq, and_false,
    false_or, or_false, Accepts]
  constructor
  · rintro ⟨hlt, ret, hret, hpos, rfl⟩
    exact ⟨hlt, ⟨ret, hret, hpos⟩, rfl⟩
  · rintro ⟨hlt, ⟨ret, hret, hpos⟩, rfl⟩
    exact ⟨hlt, ret, hret, hpos, rfl⟩

theorem visits_walkRound (hlegal : ∀ p, Accepts (entry p) mem ↔ Legal p) {offset : UInt16} :
  Reader.Visits (walkRound entry head length) mem 0 offset ↔
    Reached mem Legal head length offset
  := by
  constructor
  · intro h
    induction h with
    | refl => exact .start
    | tail _ hround ih =>
        obtain ⟨hlt, haccepts, rfl⟩ := round_walkRound.mp hround
        exact .next ih hlt ((hlegal _).mp haccepts)
  · intro h
    induction h with
    | start => exact .refl
    | next _ hlt hl ih =>
        exact ih.tail (round_walkRound.mpr ⟨hlt, (hlegal _).mpr hl, rfl⟩)

/-- A walk accepts its entries exactly when it comes to their end. -/
theorem walk_accepts (hlegal : ∀ p, Accepts (entry p) mem ↔ Legal p) :
  Accepts (Reader.loop (walkRound entry head length) 0) mem ↔ WalkEnds mem Legal head length
  := by
  simp only [Accepts, Reader.returns_loop, visits_walkRound hlegal, WalkEnds, walkRound,
    Reader.returns_ite, Reader.returns_bind, Reader.returns_pure, Sum.inl.injEq]
  constructor
  · rintro ⟨r, ⟨offset, hreached, ⟨hlt, ret, hret, ⟨hneg, rfl⟩ | ⟨-, _, -, hr⟩⟩ | ⟨hge, -⟩⟩, hr⟩
    · exact absurd hneg hr
    · cases hr
    · exact ⟨offset, hreached, hge⟩
  · rintro ⟨offset, hreached, hge⟩
    exact ⟨0, ⟨offset, hreached, .inr ⟨hge, rfl⟩⟩, by simp⟩

/-- A walk reads below `n` exactly when every entry it comes to lies below `n`. -/
theorem walk_within (hlegal : ∀ p, Accepts (entry p) mem ↔ Legal p) {extent : ℕ → ℕ}
    (hwithin : ∀ p, Reader.Within (· < n) (entry p) mem (fun _ => True) ↔ p + extent p ≤ n)
    (hextent : ∀ p, 4 ≤ extent p) :
  Reader.Within (· < n) (Reader.loop (walkRound entry head length) 0) mem (fun _ => True) ↔
    WalkInside n mem Legal extent head length
  := by
  rw [Reader.within_loop]
  simp only [visits_walkRound hlegal, WalkInside]
  apply forall_congr'
  intro offset
  apply imp_congr_right
  intro _
  simp only [walkRound, Reader.within_ite, Reader.within_bind, Reader.within_pure,
    within_ntohs, implies_true, and_true]
  apply imp_congr_right
  intro _
  rw [← hwithin]
  constructor
  · intro h
    exact ⟨h.1, fun _ _ => trivial⟩
  · intro h
    apply h.mono
    intro _ _ _
    refine ⟨trivial, fun _ => ?_⟩
    have hle := (hwithin _).mp h
    have hfour := hextent (head + offset.toNat)
    omega

end

/-- The property at `p` has a defined type and the length its type requires. -/
def LegalProperty (mem : Memory) (p : ℕ) : Prop :=
  be16 mem p = ofpqtNone ∧ be16 mem (p + 2) = 8 ∨
    be16 mem p = ofpqtMinRate ∧ be16 mem (p + 2) = 16

theorem validateQueueProperty_within (p : ℕ) :
  Reader.Within (· < n) (validateQueueProperty p) mem (fun _ => True) ↔ p + 4 ≤ n
  := by
  simp only [validateQueueProperty, Reader.within_bind, Reader.within_ite, Reader.within_pure,
    within_ntohs, implies_true, and_true]
  constructor
  · rintro ⟨h, -⟩
    omega
  · intro h
    exact ⟨by omega, trivial, fun _ => by omega⟩

theorem validateQueueProperty_accepts (p : ℕ) :
  Accepts (validateQueueProperty p) mem ↔ LegalProperty mem p
  := by
  simp only [validateQueueProperty, accepts_bind, accepts_ite, accepts_pure, returns_ntohs,
    exists_eq_left, LegalProperty]
  simp +decide
  grind

/-! ### Headers -/

section

variable {type : UInt8} {minLength maxLength : ℕ}

/-- The check of a header looks at the first four bytes only. -/
theorem validateHeader_within (hn : 8 ≤ n) :
  Reader.Within (· < n) (validateHeader (some n) type minLength maxLength) mem (fun _ => True)
  := by
  simp only [validateHeader, unlessNull_some, Reader.within_bind, Reader.within_ite,
    Reader.within_pure, Reader.within_read, within_ntohs, implies_true, and_true, true_and]
  omega

/-- What comes after the check of the header has a message with that header. -/
theorem within_header (hn : 8 ≤ n) (htype : type ≤ ofptQueueGetConfigReply)
    {rest : MessageReader ℤ} :
  Reader.Within (· < n) (passing (validateHeader (some n) type minLength maxLength) rest) mem
      (fun _ => True) ↔
    (HeaderOk n mem type minLength maxLength →
      Reader.Within (· < n) rest mem (fun _ => True))
  := by
  rw [within_passing, validateHeader_accepts hn htype]
  apply and_iff_right
  apply validateHeader_within hn

end

/-! ### Validators that always stay inside -/

/-- The validator of a message that is a header only. -/
theorem validateBare_within (hn : 8 ≤ n) {type : UInt8} {minLength maxLength : ℕ} :
  Reader.Within (· < n)
    (unlessNull (some n) fun _ => validateHeader (some n) type minLength maxLength) mem
    (fun _ => True)
  := by
  rw [unlessNull_some]
  apply validateHeader_within hn

theorem validateError_within (hn : 8 ≤ n) :
  Reader.Within (· < n) (validateError (some n)) mem (fun _ => True)
  := by
  refine within_passing.mpr ⟨?_, fun _ => ?_⟩
  · apply validateHeader_within hn
  · apply Reader.within_pure.mpr trivial

theorem validateAnyBody_within (hn : 8 ≤ n) {type : UInt8} {minLength : ℕ}
    (htype : type ≤ ofptQueueGetConfigReply) :
  Reader.Within (· < n) (validateAnyBody (some n) type minLength) mem (fun _ => True)
  := by
  simp only [validateAnyBody, unlessNull_some, within_header hn htype]
  intro h
  simp only [headerLength, Reader.within_bind, within_ntohs, Reader.within_ite,
    Reader.within_pure, implies_true, and_true]
  omega

theorem validatePhyPort_within {p : ℕ} (hp : p + 48 ≤ n) :
  Reader.Within (· < n) (validatePhyPort p) mem (fun _ => True)
  := by
  simp only [validatePhyPort, Reader.within_bind, within_ntohPhyPort, within_passing,
    Reader.within_ite, Reader.within_pure, implies_true, and_true]
  exact hp

/-- Entries that lie below `n`, each of which is checked inside itself. -/
theorem validateEach_within {entry : ℕ → MessageReader ℤ} {size : ℕ}
    (hentry : ∀ p, p + size ≤ n → Reader.Within (· < n) (entry p) mem (fun _ => True))
    {p k : ℕ} (hp : p + k * size ≤ n) :
  Reader.Within (· < n) (validateEach entry size p k) mem (fun _ => True)
  := by
  induction k generalizing p with
  | zero => simp [validateEach]
  | succ k ih =>
      rw [Nat.add_mul, Nat.one_mul] at hp
      simp only [validateEach, within_passing]
      constructor
      · apply hentry
        omega
      · intro _
        apply ih
        omega

theorem validateFeaturesReply_within (hn : 8 ≤ n) :
  Reader.Within (· < n) (validateFeaturesReply (some n)) mem (fun _ => True)
  := by
  simp only [validateFeaturesReply, unlessNull_some,
    within_header hn (show ofptFeaturesReply ≤ ofptQueueGetConfigReply by decide)]
  intro h
  have hmin := h.min
  have hlength := h.length_sub (k := 32) (by decide)
  simp only [headerLength, Reader.within_bind, within_ntohs, Reader.within_ite,
    Reader.within_pure, Reader.within_read, within_passing, implies_true, and_true, true_and]
  refine ⟨by omega, fun _ => ⟨by omega, fun _ _ => ?_⟩⟩
  apply validateEach_within (fun p hp => validatePhyPort_within hp)
  have hle := Nat.div_mul_le_self (be16 mem 2 - 32).toNat 48
  rw [hlength] at hle ⊢
  have hk : UInt16.toNat 32 = 32 := rfl
  omega

theorem validatePortStatus_within (hn : 8 ≤ n) :
  Reader.Within (· < n) (validatePortStatus (some n)) mem (fun _ => True)
  := by
  simp only [validatePortStatus, unlessNull_some,
    within_header hn (show ofptPortStatus ≤ ofptQueueGetConfigReply by decide)]
  intro h
  have hmin := h.min
  simp only [Reader.within_bind, Reader.within_ite, Reader.within_pure, Reader.within_read,
    within_passing, implies_true, and_true]
  refine ⟨by omega, trivial, fun _ => ?_⟩
  apply validatePhyPort_within
  omega

theorem validatePortMod_within (hn : 8 ≤ n) :
  Reader.Within (· < n) (validatePortMod (some n)) mem (fun _ => True)
  := by
  simp only [validatePortMod, unlessNull_some,
    within_header hn (show ofptPortMod ≤ ofptQueueGetConfigReply by decide)]
  intro h
  have hmin := h.min
  simp only [Reader.within_bind, Reader.within_ite, Reader.within_pure, within_ntohs,
    within_ntohl, within_passing, implies_true, and_true, true_and]
  refine ⟨by omega, fun _ _ => ⟨by omega, fun _ => ⟨by omega, fun _ => by omega⟩⟩⟩

theorem validateSwitchConfig_within (hn : 8 ≤ n) {type : UInt8}
    (htype : type ≤ ofptQueueGetConfigReply) :
  Reader.Within (· < n) (validateSwitchConfig (some n) type) mem (fun _ => True)
  := by
  simp only [validateSwitchConfig, unlessNull_some, within_header hn htype]
  intro h
  have hmin := h.min
  simp only [Reader.within_bind, Reader.within_ite, Reader.within_pure, within_ntohs,
    implies_true, and_true]
  omega

theorem validatePacketIn_within (hn : 8 ≤ n) :
  Reader.Within (· < n) (validatePacketIn (some n)) mem (fun _ => True)
  := by
  simp only [validatePacketIn, unlessNull_some,
    within_header hn (show ofptPacketIn ≤ ofptQueueGetConfigReply by decide)]
  intro h
  have hmin := h.min
  simp only [headerLength, Reader.within_bind, Reader.within_ite, Reader.within_pure,
    Reader.within_read, within_ntohs, within_passing, implies_true, and_true, true_and]
  refine ⟨by omega, fun _ => ⟨by omega, fun _ => by omega⟩⟩

/-- The priority is looked at for a flow without wildcards only. -/
theorem validateFlowPriority_within {m : OfpMatch} {p : ℕ} :
  Reader.Within (· < n) (validateFlowPriority m p) mem (fun _ => True) ↔
    (m.wildcards &&& ofpfwAll = 0 → p + 2 ≤ n)
  := by
  simp only [validateFlowPriority, Reader.within_bind, Reader.within_ite, Reader.within_pure,
    within_ntohs, implies_true, and_true]
  apply imp_congr_right
  intro _
  omega

theorem validateFlowRemoved_within (hn : 8 ≤ n) :
  Reader.Within (· < n) (validateFlowRemoved (some n)) mem (fun _ => True)
  := by
  simp only [validateFlowRemoved, unlessNull_some,
    within_header hn (show ofptFlowRemoved ≤ ofptQueueGetConfigReply by decide)]
  intro h
  have hmin := h.min
  simp only [Reader.within_bind, Reader.within_ite, Reader.within_pure, Reader.within_read,
    within_ntohMatch, within_passing, validateFlowPriority_within, implies_true, and_true,
    true_and]
  refine ⟨by omega, fun _ => ⟨fun _ => by omega, fun _ => by omega⟩⟩

theorem validateQueueGetConfigRequest_within (hn : 8 ≤ n) :
  Reader.Within (· < n) (validateQueueGetConfigRequest (some n)) mem (fun _ => True)
  := by
  simp only [validateQueueGetConfigRequest,
    within_header hn (show ofptQueueGetConfigRequest ≤ ofptQueueGetConfigReply by decide)]
  intro h
  have hmin := h.min
  simp only [Reader.within_bind, Reader.within_pure, within_ntohs, within_passing,
    implies_true, and_true]
  omega

/-- A statistics request reads its header, its type and its flags, and then its body. -/
theorem validateStatsRequestOf_within (hn : 8 ≤ n) {type : UInt16} {minLength maxLength : ℕ}
    (hmin : 12 ≤ minLength) {body : MessageReader ℤ}
    (hbody : minLength ≤ n → Reader.Within (· < n) body mem (fun _ => True)) :
  Reader.Within (· < n) (validateStatsRequestOf (some n) type minLength maxLength body) mem
    (fun _ => True)
  := by
  simp only [validateStatsRequestOf, unlessNull_some,
    within_header hn (show ofptStatsRequest ≤ ofptQueueGetConfigReply by decide)]
  intro h
  have hle := h.min
  simp only [Reader.within_bind, Reader.within_ite, Reader.within_pure, within_ntohs,
    implies_true, true_and]
  refine ⟨by omega, fun _ => ⟨by omega, fun _ => hbody hle⟩⟩

theorem validateFlowsBody_within (hn : 56 ≤ n) :
  Reader.Within (· < n) validateFlowsBody mem (fun _ => True)
  := by
  simp only [validateFlowsBody, Reader.within_bind, Reader.within_pure, within_ntohMatch,
    within_ntohs, within_passing, implies_true, and_true, true_and]
  refine ⟨by omega, fun _ => by omega⟩

/-- A statistics request stays inside exactly when its type does. -/
theorem validateStatsRequest_within (hn : 8 ≤ n) :
  Reader.Within (· < n) (validateStatsRequest (some n)) mem (fun _ => True) ↔ 10 ≤ n
  := by
  simp only [validateStatsRequest, unlessNull_some, Reader.within_bind, within_ntohs,
    Reader.within_ite, Reader.within_pure, implies_true, and_true]
  constructor
  · rintro ⟨h, -⟩
    omega
  · intro h
    use by omega
    refine ⟨fun _ => ?_, fun _ => ⟨fun _ => ?_, fun _ => ⟨fun _ => ?_, fun _ => ⟨fun _ => ?_,
      fun _ => ⟨fun _ => ?_, fun _ => ⟨fun _ => ?_, fun _ _ => ?_⟩⟩⟩⟩⟩⟩
    · apply validateStatsRequestOf_within hn (by omega)
      simp
    · apply validateStatsRequestOf_within hn (by omega) validateFlowsBody_within
    · apply validateStatsRequestOf_within hn (by omega) validateFlowsBody_within
    · apply validateStatsRequestOf_within hn (by omega)
      simp
    · apply validateStatsRequestOf_within hn (by omega)
      intro hle
      simp only [Reader.within_bind, Reader.within_ite, Reader.within_pure, within_ntohs,
        within_passing, implies_true, and_true]
      omega
    · apply validateStatsRequestOf_within hn (by omega)
      intro hle
      simp only [Reader.within_bind, Reader.within_pure, within_ntohs, within_passing,
        implies_true, and_true]
      omega
    · apply validateStatsRequestOf_within hn (by omega)
      simp

/-! ### Statistics replies -/

/-- A statistics reply reads its header and its flags, and then its body. -/
theorem validateStatsReplyOf_within (hn : 8 ≤ n) {maxLength : ℕ} {flags : UInt16}
    {body : MessageReader ℤ} :
  Reader.Within (· < n) (validateStatsReplyOf (some n) maxLength flags body) mem
      (fun _ => True) ↔
    (HeaderOk n mem ofptStatsReply 12 maxLength → be16 mem 10 &&& ~~~flags = 0 →
      Reader.Within (· < n) body mem (fun _ => True))
  := by
  simp only [validateStatsReplyOf, unlessNull_some,
    within_header hn (show ofptStatsReply ≤ ofptQueueGetConfigReply by decide)]
  apply imp_congr_right
  intro h
  have hmin := h.min
  simp only [Reader.within_bind, Reader.within_ite, Reader.within_pure, within_ntohs,
    implies_true, true_and, ne_eq, not_not]
  apply and_iff_right
  omega

theorem validateStatsEntries_within {maxLength : ℕ}
    (h : HeaderOk n mem ofptStatsReply 12 maxLength) {entry : ℕ → MessageReader ℤ} {size : ℕ}
    (hentry : ∀ p, p + size ≤ n → Reader.Within (· < n) (entry p) mem (fun _ => True)) :
  Reader.Within (· < n) (validateStatsEntries entry size) mem (fun _ => True)
  := by
  have hmin := h.min
  have hlength := h.length_sub (k := 12) (by decide)
  simp only [validateStatsEntries, headerLength, Reader.within_bind, Reader.within_ite,
    Reader.within_pure, within_ntohs, implies_true, true_and]
  refine ⟨by omega, fun _ => ?_⟩
  apply validateEach_within hentry
  have hle := Nat.div_mul_le_self (be16 mem 2 - 12).toNat size
  rw [hlength] at hle ⊢
  have hk : UInt16.toNat 12 = 12 := rfl
  omega

/-- The actions at `head` stay below `n`. -/
abbrev ActionsInside (n : ℕ) (mem : Memory) (head : ℕ) (length : UInt16) : Prop :=
  WalkInside n mem (LegalAction mem) (actionExtent mem) head length

theorem validateActions_within (head : ℕ) (length : UInt16) :
  Reader.Within (· < n) (validateActions head length) mem (fun _ => True) ↔
    ActionsInside n mem head length
  := walk_within validateAction_accepts validateAction_within four_le_actionExtent

theorem validateActions_accepts (head : ℕ) (length : UInt16) :
  Accepts (validateActions head length) mem ↔ WalkEnds mem (LegalAction mem) head length
  := walk_accepts validateAction_accepts

@[simp]
theorem validateMatch_nonneg {m : OfpMatch} :
  0 ≤ validateMatch m ↔ validateMatch m = 0
  := by
  unfold validateMatch
  split
  · omega
  split
  · omega
  split
  · omega
  split
  · omega
  simp

theorem validateFlowPriority_accepts {m : OfpMatch} {p : ℕ} :
  Accepts (validateFlowPriority m p) mem ↔
    (m.wildcards &&& ofpfwAll = 0 → be16 mem p = ushrtMax)
  := by
  simp only [validateFlowPriority, accepts_ite, accepts_bind, accepts_pure, returns_ntohs,
    exists_eq_left]
  by_cases h : m.wildcards &&& ofpfwAll = 0 <;> simp [h]

/-- The flow entry at `p` has a legal match and priority, and its actions are legal. -/
structure LegalFlow (mem : Memory) (p : ℕ) : Prop where
  match_legal : validateMatch (matchAt mem (p + 4)) = 0
  priority : (matchAt mem (p + 4)).wildcards &&& ofpfwAll = 0 → be16 mem (p + 52) = ushrtMax
  actions : be16 mem p - 88 > 0 → WalkEnds mem (LegalAction mem) (p + 88) (be16 mem p - 88)

/-- The flow entry at `p` lies below `n`, as far as it is looked at. -/
structure FlowInside (n : ℕ) (mem : Memory) (p : ℕ) : Prop where
  fields : p + 44 ≤ n
  priority : validateMatch (matchAt mem (p + 4)) = 0 →
    (matchAt mem (p + 4)).wildcards &&& ofpfwAll = 0 → p + 54 ≤ n
  actions : validateMatch (matchAt mem (p + 4)) = 0 →
    ((matchAt mem (p + 4)).wildcards &&& ofpfwAll = 0 → be16 mem (p + 52) = ushrtMax) →
    be16 mem p - 88 > 0 → ActionsInside n mem (p + 88) (be16 mem p - 88)

theorem validateFlowEntry_accepts (p : ℕ) :
  Accepts (validateFlowEntry p) mem ↔ LegalFlow mem p
  := by
  simp only [validateFlowEntry, accepts_bind, accepts_passing, accepts_pure, accepts_ite,
    returns_ntohMatch, returns_ntohs, exists_eq_left, validateFlowPriority_accepts,
    validateActions_accepts, Int.not_lt, validateMatch_nonneg]
  constructor
  · rintro ⟨hmatch, hpriority, hactions⟩
    refine ⟨hmatch, hpriority, fun hpos => ?_⟩
    rcases hactions with ⟨-, hactions⟩ | ⟨hzero, -⟩
    · apply hactions
    · apply absurd hpos hzero
  · rintro ⟨hmatch, hpriority, hactions⟩
    use hmatch, hpriority
    by_cases hpos : be16 mem p - 88 > 0
    · exact .inl ⟨hpos, hactions hpos⟩
    · exact .inr ⟨hpos, by simp⟩

theorem validateFlowEntry_within (p : ℕ) :
  Reader.Within (· < n) (validateFlowEntry p) mem (fun _ => True) ↔ FlowInside n mem p
  := by
  simp only [validateFlowEntry, Reader.within_bind, within_ntohMatch, within_passing,
    Reader.within_pure, accepts_pure, Int.not_lt, validateMatch_nonneg, validateFlowPriority_within,
    validateFlowPriority_accepts, within_ntohs, Reader.within_ite, validateActions_within,
    implies_true, and_true, true_and]
  constructor
  · rintro ⟨hfields, h⟩
    refine ⟨by omega, fun hmatch => ?_, fun hmatch hpriority => ?_⟩
    · intro hwild
      have hle := (h hmatch).1 hwild
      omega
    · apply ((h hmatch).2 hpriority).2
  · rintro ⟨hfields, hpriority, hactions⟩
    refine ⟨by omega, fun hmatch => ⟨?_, ?_⟩⟩
    · intro hwild
      have hle := hpriority hmatch hwild
      omega
    · intro hlegal
      exact ⟨by omega, hactions hmatch hlegal⟩

/-- The bytes remaining and the entries that the walk over flow entries comes to. -/
inductive FlowReached (mem : Memory) (length : UInt16) : UInt16 → ℕ → Prop where
  | start : FlowReached mem length length 12
  | next {remaining : UInt16} {p : ℕ} (reached : FlowReached mem length remaining p)
      (pos : remaining > 0) (legal : LegalFlow mem p) :
      FlowReached mem length (remaining - be16 mem p) (p + (be16 mem p).toNat)

/-- Every flow entry the walk comes to lies below `n`, as far as it is looked at. -/
def FlowsInside (n : ℕ) (mem : Memory) (length : UInt16) : Prop :=
  ∀ remaining p, FlowReached mem length remaining p → remaining > 0 → FlowInside n mem p

theorem round_validateFlowStatsRound {s s' : UInt16 × ℕ} :
  Reader.Round validateFlowStatsRound mem s s' ↔
    s.1 > 0 ∧ LegalFlow mem s.2 ∧ s' = (s.1 - be16 mem s.2, s.2 + (be16 mem s.2).toNat)
  := by
  simp only [Reader.Round, validateFlowStatsRound, Reader.returns_ite, Reader.returns_bind,
    Reader.returns_pure, returns_ntohs, exists_eq_left, Sum.inr.injEq, reduceCtorEq, and_false,
    false_or, or_false, ← validateFlowEntry_accepts, Accepts]
  constructor
  · rintro ⟨hpos, ret, hret, hok, rfl⟩
    exact ⟨hpos, ⟨ret, hret, hok⟩, rfl⟩
  · rintro ⟨hpos, ⟨ret, hret, hok⟩, rfl⟩
    exact ⟨hpos, ret, hret, hok, rfl⟩

theorem visits_validateFlowStatsRound {length : UInt16} {s : UInt16 × ℕ} :
  Reader.Visits validateFlowStatsRound mem (length, 12) s ↔ FlowReached mem length s.1 s.2
  := by
  constructor
  · intro h
    induction h with
    | refl => exact .start
    | tail _ hround ih =>
        obtain ⟨hpos, hlegal, rfl⟩ := round_validateFlowStatsRound.mp hround
        exact .next ih hpos hlegal
  · obtain ⟨remaining, p⟩ := s
    intro h
    simp only at h
    induction h with
    | start => exact .refl
    | next _ hpos hlegal ih =>
        exact ih.tail (round_validateFlowStatsRound.mpr ⟨hpos, hlegal, rfl⟩)

theorem validateFlowStats_within (length : UInt16) :
  Reader.Within (· < n) (Reader.loop validateFlowStatsRound (length, 12)) mem (fun _ => True) ↔
    FlowsInside n mem length
  := by
  rw [Reader.within_loop]
  simp only [visits_validateFlowStatsRound, FlowsInside, Prod.forall, validateFlowStatsRound,
    Reader.within_ite, Reader.within_bind, Reader.within_pure, within_ntohs, implies_true,
    and_true]
  apply forall_congr'
  intro remaining
  apply forall_congr'
  intro p
  apply imp_congr_right
  intro _
  apply imp_congr_right
  intro _
  rw [← validateFlowEntry_within]
  constructor
  · intro h
    exact ⟨h.1, fun _ _ => trivial⟩
  · intro h
    apply h.mono
    intro _ _ _
    refine ⟨trivial, fun _ => ?_⟩
    have hle := (validateFlowEntry_within p).mp h
    have hfields := hle.fields
    omega

/-! ### Queues -/

/-- The properties at `head` stay below `n`. -/
abbrev PropertiesInside (n : ℕ) (mem : Memory) (head : ℕ) (length : UInt16) : Prop :=
  WalkInside n mem (LegalProperty mem) (fun _ => 4) head length

theorem validateQueueProperties_within (head : ℕ) (length : UInt16) :
  Reader.Within (· < n) (validateQueueProperties head length) mem (fun _ => True) ↔
    PropertiesInside n mem head length
  := walk_within validateQueueProperty_accepts validateQueueProperty_within (fun _ => by omega)

theorem validateQueueProperties_accepts (head : ℕ) (length : UInt16) :
  Accepts (validateQueueProperties head length) mem ↔
    WalkEnds mem (LegalProperty mem) head length
  := walk_accepts validateQueueProperty_accepts

/-- The queue at `p` has room for a property, and its properties are legal. -/
def LegalQueue (mem : Memory) (p : ℕ) : Prop :=
  ¬ be16 mem (p + 4) < 16 ∧ WalkEnds mem (LegalProperty mem) (p + 8) (be16 mem (p + 4) - 8)

/-- The first `k` queues from `p` on lie below `n`, as far as they are looked at: up to the
first that is not legal. -/
def QueuesInside (n : ℕ) (mem : Memory) : ℕ → ℕ → Prop
  | _, 0 => True
  | p, k + 1 =>
    p + 6 ≤ n ∧
      (¬ be16 mem (p + 4) < 16 → PropertiesInside n mem (p + 8) (be16 mem (p + 4) - 8)) ∧
      (LegalQueue mem p → QueuesInside n mem (p + (be16 mem (p + 4)).toNat) k)

theorem validatePacketQueue_accepts (p : ℕ) :
  Accepts (validatePacketQueue p) mem ↔ LegalQueue mem p
  := by
  simp only [validatePacketQueue, accepts_bind, accepts_ite, accepts_passing, accepts_pure,
    returns_ntohs, exists_eq_left, validateQueueProperties_accepts, LegalQueue]
  simp +decide

theorem validatePacketQueues_within (p k : ℕ) :
  Reader.Within (· < n) (validatePacketQueues p k) mem (fun _ => True) ↔
    QueuesInside n mem p k
  := by
  induction k generalizing p with
  | zero => simp [validatePacketQueues, QueuesInside]
  | succ k ih =>
      simp only [validatePacketQueues, QueuesInside, within_passing, validatePacketQueue_accepts]
      simp only [validatePacketQueue, Reader.within_bind, within_ntohs, Reader.within_ite,
        within_passing, Reader.within_pure, validateQueueProperties_within, ih, implies_true,
        and_true, true_and]
      constructor
      · rintro ⟨⟨hlen, hproperties⟩, hrest⟩
        exact ⟨by omega, hproperties, fun hlegal => (hrest hlegal).2⟩
      · rintro ⟨hlen, hproperties, hrest⟩
        exact ⟨⟨by omega, hproperties⟩, fun hlegal => ⟨by omega, hrest hlegal⟩⟩

/-- The bytes remaining, the queue and the number of queues before it that the loop counting
the queues comes to. -/
inductive CountReached (mem : Memory) (length : UInt16) : UInt16 → ℕ → ℕ → Prop where
  | start : CountReached mem length length 16 0
  | next {remaining : UInt16} {p k : ℕ} (reached : CountReached mem length remaining p k)
      (pos : remaining > 8) :
      CountReached mem length (remaining - be16 mem (p + 4)) (p + (be16 mem (p + 4)).toNat)
        (k + 1)

theorem round_countQueuesRound {s s' : UInt16 × ℕ × ℕ} :
  Reader.Round countQueuesRound mem s s' ↔ s.1 > 8 ∧
    s' = (s.1 - be16 mem (s.2.1 + 4), s.2.1 + (be16 mem (s.2.1 + 4)).toNat, s.2.2 + 1)
  := by
  simp [Reader.Round, countQueuesRound, Reader.returns_ite]

theorem visits_countQueuesRound {length : UInt16} {s : UInt16 × ℕ × ℕ} :
  Reader.Visits countQueuesRound mem (length, 16, 0) s ↔
    CountReached mem length s.1 s.2.1 s.2.2
  := by
  constructor
  · intro h
    induction h with
    | refl => exact .start
    | tail _ hstep ih =>
        obtain ⟨hpos, rfl⟩ := round_countQueuesRound.mp hstep
        exact .next ih hpos
  · obtain ⟨remaining, p, k⟩ := s
    intro h
    simp only at h
    induction h with
    | start => exact .refl
    | next _ hpos ih => exact ih.tail (round_countQueuesRound.mpr ⟨hpos, rfl⟩)

/-- The queues of a queue configuration reply lie below `n`, as far as they are looked at:
every queue that is counted and, when the counting ends with the body used up, every queue
that is checked. -/
structure QueueConfigInside (n : ℕ) (mem : Memory) (length : UInt16) : Prop where
  counted : ∀ remaining p k, CountReached mem length remaining p k → remaining > 8 → p + 6 ≤ n
  checked : ∀ p k, CountReached mem length 0 p k → QueuesInside n mem 16 k

theorem validateQueueGetConfigReply_within (hn : 8 ≤ n) :
  Reader.Within (· < n) (validateQueueGetConfigReply (some n)) mem (fun _ => True) ↔
    (HeaderOk n mem ofptQueueGetConfigReply 24 ushrtMax.toNat →
      validatePhyPortNo (be16 mem 8) = 0 → QueueConfigInside n mem (be16 mem 2 - 16))
  := by
  simp only [validateQueueGetConfigReply, unlessNull_some,
    within_header hn (show ofptQueueGetConfigReply ≤ ofptQueueGetConfigReply by decide)]
  apply imp_congr_right
  intro h
  have hmin := h.min
  simp only [headerLength, Reader.within_bind, within_ntohs, within_passing, Reader.within_pure,
    accepts_pure, Int.not_lt, validatePhyPortNo_nonneg, true_and, Reader.within_loop,
    visits_countQueuesRound, Prod.forall]
  simp only [countQueuesRound, Reader.within_ite, Reader.within_bind, within_ntohs,
    Reader.within_pure, within_passing, validatePacketQueues_within, reduceCtorEq,
    Sum.inl.injEq, Prod.mk.injEq, implies_true, and_true, true_and, forall_false, ne_eq, not_not]
  constructor
  · intro hall hport
    obtain ⟨-, hqueues⟩ := hall.2 hport
    constructor
    · intro remaining p k hreached hpos
      have hread := (hqueues remaining p k hreached).1 hpos
      omega
    · intro p k hreached
      have hend := (hqueues 0 p k hreached).2 (by decide) 0 k ⟨rfl, rfl⟩ rfl
      cases k with
      | zero => trivial
      | succ k => apply hend (Nat.succ_pos k)
  · intro hinside
    refine ⟨by omega, fun hport => ⟨by omega, ?_⟩⟩
    obtain ⟨hcounted, hchecked⟩ := hinside hport
    intro remaining p k hreached
    constructor
    · intro hpos
      have hle := hcounted remaining p k hreached hpos
      omega
    · rintro - _ _ ⟨rfl, rfl⟩ rfl _
      apply hchecked p k hreached

/-! ### Messages that carry actions -/

theorem walkInside_zero {Legal : ℕ → Prop} {extent : ℕ → ℕ} {head : ℕ} {length : UInt16}
    (h : ¬ length > 0) :
  WalkInside n mem Legal extent head length
  := by
  intro offset _ hlt
  rw [gt_iff_lt, UInt16.lt_iff_toNat_lt] at h
  rw [UInt16.lt_iff_toNat_lt] at hlt
  have hzero : UInt16.toNat 0 = 0 := rfl
  omega

theorem validatePacketOut_within (hn : 8 ≤ n) :
  Reader.Within (· < n) (validatePacketOut (some n)) mem (fun _ => True) ↔
    (HeaderOk n mem ofptPacketOut 16 ushrtMax.toNat → validatePhyPortNo (be16 mem 12) = 0 →
      ActionsInside n mem 16 (be16 mem 14))
  := by
  simp only [validatePacketOut, unlessNull_some,
    within_header hn (show ofptPacketOut ≤ ofptQueueGetConfigReply by decide)]
  apply imp_congr_right
  intro h
  have hmin := h.min
  simp only [headerLength, Reader.within_bind, within_ntohs, within_passing, Reader.within_pure,
    accepts_pure, Int.not_lt, validatePhyPortNo_nonneg, Reader.within_ite,
    validateActions_within, implies_true, and_true, true_and]
  constructor
  · rintro ⟨-, hactions⟩ hport
    by_cases hpos : be16 mem 14 > 0
    · apply (hactions hport).2.1 hpos
    · apply walkInside_zero hpos
  · intro hactions
    exact ⟨by omega, fun hport => ⟨by omega, fun _ => hactions hport, fun _ => by omega⟩⟩

/-- What a flow modification has to meet for its actions to be looked at. -/
structure LegalFlowMod (mem : Memory) : Prop where
  match_legal : validateMatch (matchAt mem 8) = 0
  command : ¬ be16 mem 56 > ofpfcDeleteStrict
  priority : (matchAt mem 8).wildcards &&& ofpfwAll = 0 → be16 mem 62 = ushrtMax
  outPort : be16 mem 56 = ofpfcDelete ∨ be16 mem 56 = ofpfcDeleteStrict →
    be16 mem 68 ≠ ofppNone → validatePhyPortNo (be16 mem 68) = 0
  flags : be16 mem 70 &&& ~~~flowModFlags = 0

theorem validateFlowMod_within (hn : 8 ≤ n) :
  Reader.Within (· < n) (validateFlowMod (some n)) mem (fun _ => True) ↔
    (HeaderOk n mem ofptFlowMod 72 ushrtMax.toNat → LegalFlowMod mem →
      ActionsInside n mem 72 (be16 mem 2 - 72))
  := by
  simp only [validateFlowMod, unlessNull_some,
    within_header hn (show ofptFlowMod ≤ ofptQueueGetConfigReply by decide)]
  apply imp_congr_right
  intro h
  have hmin := h.min
  simp only [headerLength, Reader.within_bind, within_ntohs, within_ntohMatch, within_passing,
    Reader.within_pure, accepts_pure, accepts_ite, accepts_bind, returns_ntohs, exists_eq_left,
    Int.not_lt, validateMatch_nonneg, validatePhyPortNo_nonneg, validateFlowPriority_within,
    validateFlowPriority_accepts, Reader.within_ite, validateActions_within, implies_true,
    and_true, true_and]
  have hport : ∀ {a b c : Prop}, a ∧ (b ∧ c ∨ ¬ b ∧ (0 : ℤ) ≤ 0) ∨ ¬ a ∧ (0 : ℤ) ≤ 0 ↔
      (a → b → c) := by
    intro a b c
    simp only [Int.le_refl, and_true]
    tauto
  rw [hport]
  constructor
  · rintro ⟨-, hall⟩ ⟨hmatch, hcommand, hpriority, houtPort, hflags⟩
    by_cases hpos : be16 mem 2 - 72 > 0
    · have hrest := ((hall hmatch).2 hcommand).2 hpriority
      apply ((hrest.2 houtPort).2 (not_not.mpr hflags)).2 hpos
    · apply walkInside_zero hpos
  · intro hactions
    refine ⟨by omega, fun hmatch => ⟨by omega, fun hcommand => ⟨fun _ => by omega,
      fun hpriority => ⟨fun _ => by omega, fun houtPort => ⟨by omega, fun hflags =>
        ⟨by omega, fun _ => ?_⟩⟩⟩⟩⟩⟩
    apply hactions ⟨hmatch, hcommand, hpriority, houtPort, not_not.mp hflags⟩

theorem validateStatsReply_within (hn : 8 ≤ n) :
  Reader.Within (· < n) (validateStatsReply (some n)) mem (fun _ => True) ↔
    10 ≤ n ∧ (be16 mem 8 = ofpstFlow → HeaderOk n mem ofptStatsReply 12 ushrtMax.toNat →
      be16 mem 10 &&& ~~~ofpsfReplyMore = 0 → FlowsInside n mem (be16 mem 2 - 12))
  := by
  simp only [validateStatsReply, unlessNull_some, Reader.within_bind, within_ntohs,
    Reader.within_ite, Reader.within_pure, implies_true, and_true]
  constructor
  · rintro ⟨hread, hdesc, hrest⟩
    refine ⟨by omega, fun hflow h hflags => ?_⟩
    have hne : ¬ be16 mem 8 = ofpstDesc := by
      rw [hflow]
      decide
    have hbody := validateStatsReplyOf_within hn |>.mp ((hrest hne).1 hflow) h hflags
    simp only [headerLength, Reader.within_bind, within_ntohs, validateFlowStats_within] at hbody
    apply hbody.2
  · rintro ⟨hlen, hflows⟩
    use by omega
    refine ⟨fun _ => ?_, fun _ => ⟨fun hflow => ?_, fun _ => ⟨fun _ => ?_, fun _ =>
      ⟨fun _ => ?_, fun _ => ⟨fun _ => ?_, fun _ => ⟨fun _ => ?_, fun _ _ => ?_⟩⟩⟩⟩⟩⟩
    · apply (validateStatsReplyOf_within hn).mpr
      simp
    · apply (validateStatsReplyOf_within hn).mpr
      intro h hflags
      have hmin := h.min
      simp only [headerLength, Reader.within_bind, within_ntohs, validateFlowStats_within]
      exact ⟨by omega, hflows hflow h hflags⟩
    · apply (validateStatsReplyOf_within hn).mpr
      simp
    · apply (validateStatsReplyOf_within hn).mpr
      intro h _
      apply validateStatsEntries_within h
      intro p hp
      simp only [Reader.within_bind, within_ntohl, Reader.within_pure, and_true]
      omega
    · apply (validateStatsReplyOf_within hn).mpr
      intro h _
      apply validateStatsEntries_within h
      intro p hp
      simp only [Reader.within_bind, within_ntohs, Reader.within_pure, and_true]
      omega
    · apply (validateStatsReplyOf_within hn).mpr
      intro h _
      apply validateStatsEntries_within h
      intro p hp
      simp only [Reader.within_bind, within_ntohs, Reader.within_pure, and_true]
      omega
    · apply (validateStatsReplyOf_within hn).mpr
      intro h _
      have hmin := h.min
      simp only [headerLength, Reader.within_bind, within_ntohs, Reader.within_pure, and_true]
      omega

/-! ### Any message -/

/-- What has to hold of the message of length `n` for the validators to stay inside it:
statistics messages are long enough to have a type, and the entries that the other messages
with entries are made of lie inside, as far as they are looked at. -/
structure StaysInside (n : ℕ) (mem : Memory) : Prop where
  packetOut : HeaderOk n mem ofptPacketOut 16 ushrtMax.toNat →
    validatePhyPortNo (be16 mem 12) = 0 → ActionsInside n mem 16 (be16 mem 14)
  flowMod : HeaderOk n mem ofptFlowMod 72 ushrtMax.toNat → LegalFlowMod mem →
    ActionsInside n mem 72 (be16 mem 2 - 72)
  statsRequest : mem 1 = ofptStatsRequest → 10 ≤ n
  statsReply : mem 1 = ofptStatsReply → 10 ≤ n
  flowStatsReply : be16 mem 8 = ofpstFlow → HeaderOk n mem ofptStatsReply 12 ushrtMax.toNat →
    be16 mem 10 &&& ~~~ofpsfReplyMore = 0 → FlowsInside n mem (be16 mem 2 - 12)
  queueGetConfigReply : HeaderOk n mem ofptQueueGetConfigReply 24 ushrtMax.toNat →
    validatePhyPortNo (be16 mem 8) = 0 → QueueConfigInside n mem (be16 mem 2 - 16)

/-- The validators read only bytes of the message exactly when the message meets
`StaysInside`. -/
theorem validateOpenflowMessage_within_iff (n : ℕ) (hn : 8 ≤ n) (mem : Memory) :
  (∀ i, (validateOpenflowMessage (some n)).Reads mem i → i < n) ↔ StaysInside n mem
  := by
  have hiff : (∀ i, (validateOpenflowMessage (some n)).Reads mem i → i < n) ↔
      Reader.Within (· < n) (validateMessageOfType (mem 1) (some n)) mem (fun _ => True) := by
    simp only [Reader.Within, validateOpenflowMessage, unlessNull_some, Reader.reads_bind,
      Reader.reads_read, Reader.returns_read, exists_eq_left, implies_true, and_true]
    constructor
    · intro h i hi
      apply h i (.inr hi)
    · rintro h i (rfl | hi)
      · omega
      · apply h i hi
  rw [hiff]
  constructor
  · intro h
    constructor
    · intro hheader
      rw [hheader.type] at h
      apply (validatePacketOut_within hn).mp h hheader
    · intro hheader
      rw [hheader.type] at h
      apply (validateFlowMod_within hn).mp h hheader
    · intro htype
      rw [htype] at h
      apply (validateStatsRequest_within hn).mp h
    · intro htype
      rw [htype] at h
      apply ((validateStatsReply_within hn).mp h).1
    · intro hflow hheader
      rw [hheader.type] at h
      apply ((validateStatsReply_within hn).mp h).2 hflow hheader
    · intro hheader
      rw [hheader.type] at h
      apply (validateQueueGetConfigReply_within hn).mp h hheader
  · intro h
    unfold validateMessageOfType
    refine Reader.within_ite.mpr ⟨fun _ => ?_, fun _ => ?_⟩
    · apply validateBare_within hn
    refine Reader.within_ite.mpr ⟨fun _ => ?_, fun _ => ?_⟩
    · apply validateError_within hn
    refine Reader.within_ite.mpr ⟨fun _ => ?_, fun _ => ?_⟩
    · apply validateAnyBody_within hn (by decide)
    refine Reader.within_ite.mpr ⟨fun _ => ?_, fun _ => ?_⟩
    · apply validateAnyBody_within hn (by decide)
    refine Reader.within_ite.mpr ⟨fun _ => ?_, fun _ => ?_⟩
    · apply validateAnyBody_within hn (by decide)
    refine Reader.within_ite.mpr ⟨fun _ => ?_, fun _ => ?_⟩
    · apply validateBare_within hn
    refine Reader.within_ite.mpr ⟨fun _ => ?_, fun _ => ?_⟩
    · apply validateFeaturesReply_within hn
    refine Reader.within_ite.mpr ⟨fun _ => ?_, fun _ => ?_⟩
    · apply validateBare_within hn
    refine Reader.within_ite.mpr ⟨fun _ => ?_, fun _ => ?_⟩
    · apply validateSwitchConfig_within hn (by decide)
    refine Reader.within_ite.mpr ⟨fun _ => ?_, fun _ => ?_⟩
    · apply validateSwitchConfig_within hn (by decide)
    refine Reader.within_ite.mpr ⟨fun _ => ?_, fun _ => ?_⟩
    · apply validatePacketIn_within hn
    refine Reader.within_ite.mpr ⟨fun _ => ?_, fun _ => ?_⟩
    · apply validateFlowRemoved_within hn
    refine Reader.within_ite.mpr ⟨fun _ => ?_, fun _ => ?_⟩
    · apply validatePortStatus_within hn
    refine Reader.within_ite.mpr ⟨fun _ => ?_, fun _ => ?_⟩
    · apply (validatePacketOut_within hn).mpr h.packetOut
    refine Reader.within_ite.mpr ⟨fun _ => ?_, fun _ => ?_⟩
    · apply (validateFlowMod_within hn).mpr h.flowMod
    refine Reader.within_ite.mpr ⟨fun _ => ?_, fun _ => ?_⟩
    · apply validatePortMod_within hn
    refine Reader.within_ite.mpr ⟨fun htype => ?_, fun _ => ?_⟩
    · apply (validateStatsRequest_within hn).mpr (h.statsRequest htype)
    refine Reader.within_ite.mpr ⟨fun htype => ?_, fun _ => ?_⟩
    · apply (validateStatsReply_within hn).mpr ⟨h.statsReply htype, h.flowStatsReply⟩
    refine Reader.within_ite.mpr ⟨fun _ => ?_, fun _ => ?_⟩
    · apply validateHeader_within hn
    refine Reader.within_ite.mpr ⟨fun _ => ?_, fun _ => ?_⟩
    · apply validateHeader_within hn
    refine Reader.within_ite.mpr ⟨fun _ => ?_, fun _ => ?_⟩
    · apply validateQueueGetConfigRequest_within hn
    refine Reader.within_ite.mpr ⟨fun _ => ?_, fun _ => ?_⟩
    · apply (validateQueueGetConfigReply_within hn).mpr h.queueGetConfigReply
    apply Reader.within_pure.mpr trivial

/-- A statistics request of eight bytes. -/
def shortStatsRequest : List UInt8 := [1, 16, 0, 8, 0, 0, 0, 0]

/-- A packet that is output to port 1 and sent on with the VLAN 5. -/
def taggedPacket : List UInt8 :=
  [1, 13, 0, 32, 0, 0, 0, 1, 0, 0, 0, 1, 0, 1, 0, 16] ++ [0, 0, 0, 8, 0, 1, 0, 0] ++
    [0, 1, 0, 8, 0, 5, 0, 0]

/-- The walk over the two actions comes to their beginnings and to the end of the message. -/
theorem taggedPacket_reached {offset : UInt16} {Legal : ℕ → Prop}
    (h : Reached (fun i => taggedPacket.getD i 0) Legal 16 16 offset) :
  offset = 0 ∨ offset = 8 ∨ offset = 16
  := by
  induction h with
  | start => exact .inl rfl
  | next _ hlt _ ih =>
      rcases ih with rfl | rfl | rfl
      · exact .inr (.inl (by decide))
      · exact .inr (.inr (by decide))
      · exact absurd hlt (by decide)

/-- A packet with two actions stays inside. -/
theorem validateOpenflowMessage_within_tagged :
  8 ≤ 32 ∧ ∀ i, (validateOpenflowMessage (some 32)).Reads (fun i => taggedPacket.getD i 0) i →
    i < 32
  := by
  refine ⟨by decide, (validateOpenflowMessage_within_iff 32 (by decide) _).mpr ?_⟩
  refine ⟨fun _ _ => ?_, fun h => absurd h.type (by decide), fun h => absurd h (by decide),
    fun h => absurd h (by decide), fun h => absurd h (by decide),
    fun h => absurd h.type (by decide)⟩
  intro offset hreached hlt
  rcases taggedPacket_reached hreached with rfl | rfl | rfl
  · decide
  · decide
  · exact absurd hlt (by decide)

/-- The type of a statistics request of eight bytes is read from behind its end. -/
theorem validateOpenflowMessage_reads_beyond :
  ¬ ∀ n ≥ 8, ∀ mem : Memory, ∀ i, (validateOpenflowMessage (some n)).Reads mem i → i < n
  := by
  intro h
  have hread : (validateOpenflowMessage (some 8)).Reads (fun i => shortStatsRequest.getD i 0) 8 :=
    ⟨0, by decide⟩
  have hlt := h 8 (Nat.le_refl 8) _ 8 hread
  omega

end CcController
