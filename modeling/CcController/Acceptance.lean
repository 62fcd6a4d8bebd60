import CcController.Dispatch
import CcController.Termination

/-!
# What acceptance means

A message that the validators accept has a checked header, and where the struct of its type has
a fixed size it has that size (`validateOpenflowMessage_length`).

For lists of actions acceptance should mean that the bytes are tiled by legal actions. The walk
asks only that each action begins below the end, so the last one may reach over it
(`validateActions_exact_iff`). In a packet-out the declared end of the actions is not compared
with the end of the message either (`validatePacketOut_area_iff`).
-/

open Relation

namespace CcController

variable {n : ℕ} {mem : Memory}

/-! ### Lengths -/

/-- The size of a message of the type, where its struct has a fixed size. -/
def messageSize (type : UInt8) : Option ℕ :=
  if type = ofptHello ∨ type = ofptFeaturesRequest ∨ type = ofptGetConfigRequest
    ∨ type = ofptBarrierRequest ∨ type = ofptBarrierReply then some 8
  else if type = ofptGetConfigReply ∨ type = ofptSetConfig
    ∨ type = ofptQueueGetConfigRequest then some 12
  else if type = ofptFlowRemoved then some 88
  else if type = ofptPortStatus then some 64
  else if type = ofptPortMod then some 32
  else none

/-- The size of the body of a statistics request of the type, where its struct has a fixed
size. -/
def statsRequestSize (type : UInt16) : Option ℕ :=
  if type = ofpstDesc ∨ type = ofpstTable then some 0
  else if type = ofpstFlow ∨ type = ofpstAggregate then some 44
  else if type = ofpstPort ∨ type = ofpstQueue then some 8
  else none

/-- A message of `n` bytes has a header that says so, and the size of its type. -/
structure LengthOk (n : ℕ) (mem : Memory) : Prop where
  version : mem 0 = ofpVersion
  type : mem 1 ≤ ofptQueueGetConfigReply
  length : (be16 mem 2).toNat = n
  fixed : ∀ size, messageSize (mem 1) = some size → n = size
  statsRequest : mem 1 = ofptStatsRequest →
    ∀ size, statsRequestSize (be16 mem 8) = some size → n = 12 + size

/-- The header of a message is accepted exactly if it is that of the message. -/
theorem validateHeader_accepts_iff {type : UInt8} {minLength maxLength : ℕ}
    (hmin : 8 ≤ minLength) (htype : type ≤ ofptQueueGetConfigReply) :
  Accepts (validateHeader (some n) type minLength maxLength) mem ↔
    HeaderOk n mem type minLength maxLength
  := by
  constructor
  · intro h
    apply (validateHeader_accepts (validateHeader_length h) htype).mp h
  · intro h
    apply (validateHeader_accepts (hmin.trans h.min) htype).mpr h

theorem accepts_header {type : UInt8} (htype : type ≤ ofptQueueGetConfigReply)
    {minLength maxLength : ℕ} {rest : MessageReader ℤ}
    (h : Accepts (passing (validateHeader (some n) type minLength maxLength) rest) mem) :
  HeaderOk n mem type minLength maxLength
  := by
  have hheader := (accepts_passing.mp h).1
  apply (validateHeader_accepts (validateHeader_length hheader) htype).mp hheader

/-- A checked header is enough for the types other than statistics requests. -/
theorem HeaderOk.lengthOk {type : UInt8} {minLength maxLength : ℕ}
    (h : HeaderOk n mem type minLength maxLength) (htype : type ≤ ofptQueueGetConfigReply)
    (hne : type ≠ ofptStatsRequest)
    (hsize : ∀ size, messageSize type = some size → minLength = size ∧ maxLength = size) :
  LengthOk n mem
  := by
  have hmin := h.min
  have hmax := h.max
  refine ⟨h.version, ?_, h.length, fun size heq => ?_, fun heq => ?_⟩
  · rw [h.type]
    apply htype
  · rw [h.type] at heq
    obtain ⟨hlow, hhigh⟩ := hsize size heq
    omega
  · exact absurd (h.type.symm.trans heq) hne

theorem validateHeader_lengthOk {type : UInt8} {minLength maxLength : ℕ}
    (h : Accepts (validateHeader (some n) type minLength maxLength) mem)
    (htype : type ≤ ofptQueueGetConfigReply) (hne : type ≠ ofptStatsRequest)
    (hsize : ∀ size, messageSize type = some size → minLength = size ∧ maxLength = size) :
  LengthOk n mem
  := ((validateHeader_accepts (validateHeader_length h) htype).mp h).lengthOk htype hne hsize

theorem passing_lengthOk {type : UInt8} {minLength maxLength : ℕ} {rest : MessageReader ℤ}
    (h : Accepts (passing (validateHeader (some n) type minLength maxLength) rest) mem)
    (htype : type ≤ ofptQueueGetConfigReply) (hne : type ≠ ofptStatsRequest)
    (hsize : ∀ size, messageSize type = some size → minLength = size ∧ maxLength = size) :
  LengthOk n mem
  := (accepts_header htype h).lengthOk htype hne hsize

theorem validateStatsRequestOf_lengthOk {type : UInt16} {minLength maxLength : ℕ}
    {body : MessageReader ℤ}
    (h : Accepts (validateStatsRequestOf (some n) type minLength maxLength body) mem)
    (hsize : ∀ size, statsRequestSize type = some size →
      minLength = 12 + size ∧ maxLength = 12 + size) :
  LengthOk n mem
  := by
  rw [validateStatsRequestOf, unlessNull_some] at h
  have hheader := accepts_header (by decide) h
  have hmin := hheader.min
  have hmax := hheader.max
  refine ⟨hheader.version, ?_, hheader.length, fun size heq => ?_, fun _ size heq => ?_⟩
  · rw [hheader.type]
    decide
  · rw [hheader.type] at heq
    cases heq
  · have htype := (accepts_passing.mp h).2
    simp only [accepts_bind, returns_ntohs, exists_eq_left, accepts_ite, accepts_pure] at htype
    rcases htype with ⟨-, hcode⟩ | ⟨htype, -⟩
    · exact absurd (by decide) hcode
    · rw [not_not.mp htype] at heq
      obtain ⟨hlow, hhigh⟩ := hsize size heq
      omega

theorem validateStatsRequest_lengthOk (h : Accepts (validateStatsRequest (some n)) mem) :
  LengthOk n mem
  := by
  simp only [validateStatsRequest, unlessNull_some, accepts_bind, accepts_ite, accepts_pure,
    returns_ntohs, exists_eq_left] at h
  rcases h with ⟨-, h⟩ | ⟨-, ⟨-, h⟩ | ⟨-, ⟨-, h⟩ | ⟨-, ⟨-, h⟩ | ⟨-, ⟨-, h⟩ | ⟨-, ⟨-, h⟩
    | ⟨-, ⟨-, h⟩ | ⟨-, h⟩⟩⟩⟩⟩⟩⟩
  case inr.inr.inr.inr.inr.inr.inr => exact absurd (by decide) h
  all_goals
    apply validateStatsRequestOf_lengthOk h
    decide

theorem validateStatsReply_lengthOk (h : Accepts (validateStatsReply (some n)) mem) :
  LengthOk n mem
  := by
  obtain ⟨_, hheader⟩ := validateStatsReply_header h
  apply validateHeader_lengthOk hheader (by decide) (by decide)
  intro size hsize
  cases hsize

/-- An accepted message has a checked header and the size of its type. -/
theorem validateOpenflowMessage_lengthOk (h : Accepts (validateOpenflowMessage (some n)) mem) :
  LengthOk n mem
  := by
  rw [validateOpenflowMessage_accepts] at h
  unfold validateMessageOfType at h
  simp only [accepts_ite] at h
  rcases h with ⟨-, h⟩ | ⟨-, ⟨-, h⟩ | ⟨-, ⟨-, h⟩ | ⟨-, ⟨-, h⟩ | ⟨-, ⟨-, h⟩ | ⟨-, ⟨-, h⟩
    | ⟨-, ⟨-, h⟩ | ⟨-, ⟨-, h⟩ | ⟨-, ⟨-, h⟩ | ⟨-, ⟨-, h⟩ | ⟨-, ⟨-, h⟩ | ⟨-, ⟨-, h⟩
    | ⟨-, ⟨-, h⟩ | ⟨-, ⟨-, h⟩ | ⟨-, ⟨-, h⟩ | ⟨-, ⟨-, h⟩ | ⟨-, ⟨-, h⟩ | ⟨-, ⟨-, h⟩
    | ⟨-, ⟨-, h⟩ | ⟨-, ⟨-, h⟩ | ⟨-, ⟨-, h⟩ | ⟨-, ⟨-, h⟩ | ⟨-, h⟩⟩⟩⟩⟩⟩⟩⟩⟩⟩⟩⟩⟩⟩⟩⟩⟩⟩⟩⟩⟩⟩
  · rw [validateHello, unlessNull_some] at h
    exact validateHeader_lengthOk h (by decide) (by decide) (by decide)
  · exact passing_lengthOk h (by decide) (by decide) (by decide)
  · exact passing_lengthOk h (by decide) (by decide) (by decide)
  · exact passing_lengthOk h (by decide) (by decide) (by decide)
  · exact passing_lengthOk h (by decide) (by decide) (by decide)
  · rw [validateFeaturesRequest, unlessNull_some] at h
    exact validateHeader_lengthOk h (by decide) (by decide) (by decide)
  · exact passing_lengthOk h (by decide) (by decide) (by decide)
  · rw [validateGetConfigRequest, unlessNull_some] at h
    exact validateHeader_lengthOk h (by decide) (by decide) (by decide)
  · exact passing_lengthOk h (by decide) (by decide) (by decide)
  · exact passing_lengthOk h (by decide) (by decide) (by decide)
  · exact passing_lengthOk h (by decide) (by decide) (by decide)
  · exact passing_lengthOk h (by decide) (by decide) (by decide)
  · exact passing_lengthOk h (by decide) (by decide) (by decide)
  · exact passing_lengthOk h (by decide) (by decide) (by decide)
  · exact passing_lengthOk h (by decide) (by decide) (by decide)
  · exact passing_lengthOk h (by decide) (by decide) (by decide)
  · exact validateStatsRequest_lengthOk h
  · exact validateStatsReply_lengthOk h
  · exact validateHeader_lengthOk h (by decide) (by decide) (by decide)
  · exact validateHeader_lengthOk h (by decide) (by decide) (by decide)
  · exact passing_lengthOk h (by decide) (by decide) (by decide)
  · exact passing_lengthOk h (by decide) (by decide) (by decide)
  · exact absurd (by decide) (accepts_pure.mp h)

/-- A message for which the validators return zero is there, and has a checked header with its
length, and the size of its type where that is fixed. -/
theorem validateOpenflowMessage_length (message : Option ℕ) (mem : Memory)
    (h : (validateOpenflowMessage message).Returns mem 0) :
  ∃ n, message = some n ∧ LengthOk n mem
  := by
  cases message with
  | none => cases Reader.returns_pure.mp h
  | some n => exact ⟨n, rfl, validateOpenflowMessage_lengthOk ⟨0, h, by decide⟩⟩

/-- A request for the statistics of port one. -/
def portStatsRequest : Memory := fun i => [1, 16, 0, 20, 0, 0, 0, 0, 0, 4, 0, 0, 0, 1].getD i 0

/-- A request for the statistics of a port has twenty bytes. -/
theorem validateOpenflowMessage_length_port :
  ∃ n, some 20 = some n ∧ LengthOk n portStatsRequest
  := validateOpenflowMessage_length (some 20) portStatsRequest ⟨0, by decide⟩

/-! ### Lists of actions -/

/-- A legal entry takes the bytes from `p` up to `q`. -/
structure Fills (mem : Memory) (Legal : ℕ → Prop) (p q : ℕ) : Prop where
  legal : Legal p
  eq : q = p + (be16 mem (p + 2)).toNat

/-- Legal entries, one right behind another, take the bytes from `p` up to `q`. -/
abbrev Tiles (mem : Memory) (Legal : ℕ → Prop) : ℕ → ℕ → Prop :=
  ReflTransGen (Fills mem Legal)

section

variable {Legal : ℕ → Prop} {head : ℕ} {length : UInt16}

theorem tiles_le {p q : ℕ} (h : Tiles mem Legal p q) :
  p ≤ q
  := by
  induction h with
  | refl => exact Nat.le_refl p
  | tail _ hfills ih =>
      rw [hfills.eq]
      omega

/-- As long as the offset has not wrapped around, the entries taken are tiles. -/
theorem tiles_of_taken {total : ℕ} (h : Taken mem Legal head length total)
    (htotal : total < 65536) :
  Tiles mem Legal head (head + total)
  := by
  induction h with
  | refl => exact .refl
  | @tail t t' _ hstep ih =>
      have ht : (UInt16.ofNat t).toNat = t := by
        rw [UInt16.toNat_ofNat']
        have hle := hstep.eq
        omega
      obtain ⟨-, hlegal, rfl⟩ := hstep
      rw [ht] at hlegal htotal ⊢
      exact (ih (by omega)).tail ⟨hlegal, by omega⟩

/-- Tiles up to the end of the list are taken. -/
theorem taken_of_tiles (hpos : ∀ p, Legal p → 0 < (be16 mem (p + 2)).toNat)
    (h : Tiles mem Legal head (head + length.toNat)) :
  Taken mem Legal head length length.toNat
  := by
  have hfrom : ∀ p, Tiles mem Legal p (head + length.toNat) → ∀ t, p = head + t →
      Taken mem Legal head length t → Taken mem Legal head length length.toNat := by
    intro p hp
    induction hp using ReflTransGen.head_induction_on with
    | refl =>
        intro t heq htaken
        obtain rfl : length.toNat = t := by omega
        exact htaken
    | @head p q hfills hrest ih =>
        rintro t rfl htaken
        obtain ⟨hlegal, rfl⟩ := hfills
        have hlen := hpos _ hlegal
        have hle := tiles_le hrest
        have hbound := length.toNat_lt
        have ht : (UInt16.ofNat t).toNat = t := by
          rw [UInt16.toNat_ofNat']
          omega
        apply ih (t + (be16 mem (head + t + 2)).toNat) (by omega)
        apply htaken.tail
        refine ⟨?_, ?_, ?_⟩
        · rw [UInt16.lt_iff_toNat_lt, ht]
          omega
        · rw [ht]
          exact hlegal
        · rw [ht]
  exact hfrom head h 0 rfl .refl

/-- A walk stops at one place. -/
theorem taken_end_unique {total total' : ℕ} (h : Taken mem Legal head length total)
    (h' : Taken mem Legal head length total') (hend : ¬ UInt16.ofNat total < length)
    (hend' : ¬ UInt16.ofNat total' < length) :
  total = total'
  := by
  rcases ReflTransGen.total_of_right_unique takes_rightUnique h h' with hsteps | hsteps
  · apply (eq_of_reflTransGen_end (fun _ hstep => hend hstep.lt) hsteps).symm
  · apply eq_of_reflTransGen_end (fun _ hstep => hend' hstep.lt) hsteps

variable {entry : ℕ → MessageReader ℤ}

/-- A walk returns an error or zero. -/
theorem walk_returns {r : ℤ} (h : (Reader.loop (walkRound entry head length) 0).Returns mem r) :
  r < 0 ∨ r = 0
  := by
  obtain ⟨offset, -, hreturns⟩ := Reader.returns_loop.mp h
  simp only [walkRound, Reader.returns_ite, Reader.returns_bind, Reader.returns_pure,
    Sum.inl.injEq, reduceCtorEq, and_false, exists_false, or_false] at hreturns
  rcases hreturns with ⟨-, ret, -, hneg, rfl⟩ | ⟨-, rfl⟩
  · exact .inl hneg
  · exact .inr rfl

end

theorem validateActions_returns_zero {head : ℕ} {length : UInt16} :
  (validateActions head length).Returns mem 0 ↔
    ∃ total, Taken mem (LegalAction mem) head length total ∧ ¬ UInt16.ofNat total < length
  := by
  have haccepts : (validateActions head length).Returns mem 0 ↔
      Accepts (validateActions head length) mem := by
    constructor
    · intro h
      exact ⟨0, h, by decide⟩
    · rintro ⟨r, hr, hpos⟩
      rcases walk_returns hr with hneg | rfl
      · exact absurd hneg hpos
      · exact hr
  rw [haccepts, validateActions_accepts]
  constructor
  · rintro ⟨offset, hreached, hend⟩
    obtain ⟨total, htaken, rfl⟩ := reached_iff_taken.mp hreached
    exact ⟨total, htaken, hend⟩
  · rintro ⟨total, htaken, hend⟩
    exact ⟨_, reached_iff_taken.mpr ⟨total, htaken, rfl⟩, hend⟩

/-- Tiles up to the end of the list are the entries the walk takes. -/
theorem taken_length_iff {head : ℕ} {length : UInt16} :
  Tiles mem (LegalAction mem) head (head + length.toNat) ↔
    Taken mem (LegalAction mem) head length length.toNat
  := ⟨taken_of_tiles (fun _ => legalAction_pos), fun h => tiles_of_taken h length.toNat_lt⟩

/-- What the validator of actions returns is zero exactly for tiles of legal actions and else
an error, unless the actions come to their end with another total length than that of the
list. -/
theorem validateActions_exact_iff (mem : Memory) (head : ℕ) (length : UInt16) :
  (∀ r, (validateActions head length).Returns mem r →
    (r = 0 ↔ Tiles mem (LegalAction mem) head (head + length.toNat)) ∧ (r ≠ 0 → r < 0)) ↔
  ¬ ∃ total, Taken mem (LegalAction mem) head length total ∧
    ¬ UInt16.ofNat total < length ∧ total ≠ length.toNat
  := by
  have hend : ¬ UInt16.ofNat length.toNat < length := by
    rw [UInt16.ofNat_toNat]
    apply UInt16.lt_irrefl
  constructor
  · rintro hexact ⟨total, htaken, hdone, hne⟩
    have hzero := validateActions_returns_zero.mpr ⟨total, htaken, hdone⟩
    have htiles := (hexact 0 hzero).1.mp rfl
    apply hne (taken_end_unique htaken (taken_length_iff.mp htiles) hdone hend)
  · intro hnone r hr
    refine ⟨⟨?_, ?_⟩, fun hne => ?_⟩
    · rintro rfl
      obtain ⟨total, htaken, hdone⟩ := validateActions_returns_zero.mp hr
      have htotal : total = length.toNat := by
        by_contra hne
        exact hnone ⟨total, htaken, hdone, hne⟩
      rw [htotal] at htaken
      exact taken_length_iff.mpr htaken
    · intro htiles
      have hzero := validateActions_returns_zero.mpr ⟨_, taken_length_iff.mp htiles, hend⟩
      exact hr.unique hzero
    · exact (walk_returns hr).resolve_right hne

/-- An action that sends a packet to port one. -/
def outputAction : Memory := fun i => [0, 0, 0, 8, 0, 1, 0, 0].getD i 0

/-- An action of eight bytes is accepted as a list of four. -/
theorem validateActions_overruns :
  ¬ ∀ (mem : Memory) (head : ℕ) (length : UInt16) (r : ℤ),
    (validateActions head length).Returns mem r →
      (r = 0 ↔ Tiles mem (LegalAction mem) head (head + length.toNat)) ∧ (r ≠ 0 → r < 0)
  := by
  intro h
  have hstep : Takes outputAction (LegalAction outputAction) 0 4 0 8 :=
    ⟨by decide, .inr ⟨by decide, by decide, by decide, by decide, by decide⟩, by decide⟩
  have hzero := validateActions_returns_zero.mpr ⟨8, .single hstep, by decide⟩
  have htiles := taken_length_iff.mp ((h outputAction 0 4 0 hzero).1.mp rfl)
  have heq := taken_end_unique (.single hstep) htiles (by decide) (by decide)
  cases heq

/-! ### Packets to send -/

/-- The actions of the packet-out lie inside the message, what is behind them is its payload,
and no byte of that is read as an action. -/
structure ActionAreaOk (n : ℕ) (mem : Memory) : Prop where
  inside : 16 + (be16 mem 14).toNat ≤ (be16 mem 2).toNat
  payload : (be16 mem 2 - 16 - be16 mem 14).toNat + (16 + (be16 mem 14).toNat) = n
  reads : be16 mem 14 > 0 →
    ∀ i, (validateActions 16 (be16 mem 14)).Reads mem i → i < 16 + (be16 mem 14).toNat

theorem returns_zero_passing {check rest : MessageReader ℤ} :
  (passing check rest).Returns mem 0 ↔ Accepts check mem ∧ rest.Returns mem 0
  := by
  rw [returns_passing]
  constructor
  · rintro (⟨-, hneg⟩ | ⟨ret, hret, hpos, hrest⟩)
    · cases hneg
    · exact ⟨⟨ret, hret, hpos⟩, hrest⟩
  · rintro ⟨⟨ret, hret, hpos⟩, hrest⟩
    exact .inr ⟨ret, hret, hpos, hrest⟩

/-- A statistics reply is accepted when its header and flags are legal and its body is
accepted. -/
theorem validateStatsReplyOf_returns_zero {maxLength : ℕ} {flags : UInt16}
    {body : MessageReader ℤ} :
  (validateStatsReplyOf (some n) maxLength flags body).Returns mem 0 ↔
    HeaderOk n mem ofptStatsReply 12 maxLength ∧ be16 mem 10 &&& ~~~flags = 0 ∧
      body.Returns mem 0
  := by
  simp only [validateStatsReplyOf, unlessNull_some, returns_zero_passing,
    validateHeader_accepts_iff (n := n) (show 8 ≤ 12 by decide)
      (show ofptStatsReply ≤ ofptQueueGetConfigReply by decide),
    Reader.returns_bind, Reader.returns_ite, Reader.returns_pure, returns_ntohs, exists_eq_left,
    ne_eq, not_not]
  simp +decide only [and_false, false_or]

/-- A packet-out is accepted when its header and its port are legal and the walk over its
actions comes to an end. -/
theorem validatePacketOut_returns_zero :
  (validatePacketOut (some n)).Returns mem 0 ↔
    HeaderOk n mem ofptPacketOut 16 ushrtMax.toNat ∧ validatePhyPortNo (be16 mem 12) = 0 ∧
      WalkEnds mem (LegalAction mem) 16 (be16 mem 14)
  := by
  have hnone : ¬ be16 mem 14 > 0 → WalkEnds mem (LegalAction mem) 16 (be16 mem 14) := by
    intro hpos
    refine ⟨0, .start, hpos⟩
  simp only [validatePacketOut, unlessNull_some, returns_zero_passing, headerLength,
    Reader.returns_bind, Reader.returns_pure, returns_ntohs, exists_eq_left, accepts_pure,
    accepts_ite, Int.not_lt, validatePhyPortNo_nonneg, validateActions_accepts, Int.le_refl,
    exists_eq, and_true]
  rw [validateHeader_accepts_iff (by decide) (by decide)]
  apply and_congr_right
  intro _
  apply and_congr_right
  intro _
  constructor
  · rintro (⟨-, hends⟩ | hzero)
    · exact hends
    · exact hnone hzero
  · intro hends
    by_cases hpos : be16 mem 14 > 0
    · exact .inl ⟨hpos, hends⟩
    · exact .inr hpos

/-- The validator of packets to send keeps the actions inside the message exactly when the
message is rejected for its header, its port or an illegal action, or its length leaves room
for the actions and no action that is looked at reaches over their end. -/
theorem validatePacketOut_area_iff (n : ℕ) (mem : Memory) :
  ((validatePacketOut (some n)).Returns mem 0 → ActionAreaOk n mem) ↔
    (HeaderOk n mem ofptPacketOut 16 ushrtMax.toNat → validatePhyPortNo (be16 mem 12) = 0 →
      WalkEnds mem (LegalAction mem) 16 (be16 mem 14) →
      16 + (be16 mem 14).toNat ≤ n ∧
        ∀ offset, Reached mem (LegalAction mem) 16 (be16 mem 14) offset → offset < be16 mem 14 →
          offset.toNat + actionExtent mem (16 + offset.toNat) ≤ (be16 mem 14).toNat)
  := by
  rw [validatePacketOut_returns_zero, and_imp, and_imp]
  apply imp_congr_right
  intro hheader
  apply imp_congr_right
  intro _
  apply imp_congr_right
  intro _
  have hlength := hheader.length
  have hreads : (∀ i, (validateActions 16 (be16 mem 14)).Reads mem i →
        i < 16 + (be16 mem 14).toNat) ↔
      ActionsInside (16 + (be16 mem 14).toNat) mem 16 (be16 mem 14) := by
    rw [← validateActions_within]
    simp [Reader.Within]
  constructor
  · rintro ⟨hinside, -, hactions⟩
    refine ⟨by omega, fun offset hreached hlt => ?_⟩
    have hpos : be16 mem 14 > 0 := by
      rw [gt_iff_lt, UInt16.lt_iff_toNat_lt]
      rw [UInt16.lt_iff_toNat_lt] at hlt
      have hzero : UInt16.toNat 0 = 0 := rfl
      omega
    have hle := hreads.mp (hactions hpos) offset hreached hlt
    omega
  · rintro ⟨hinside, hactions⟩
    refine ⟨by omega, ?_, fun _ => ?_⟩
    · have hsixteen : UInt16.toNat 16 = 16 := rfl
      have hrest := hheader.length_sub (k := 16) (by decide)
      rw [UInt16.toNat_sub_of_le, hrest]
      · omega
      · rw [UInt16.le_iff_toNat_le, hrest]
        omega
    · apply hreads.mpr
      intro offset hreached hlt
      have hle := hactions offset hreached hlt
      omega

/-- A packet-out of sixteen bytes that declares eight bytes of actions, found behind it. -/
def shortPacketOut : Memory := fun i =>
  [1, 13, 0, 16, 0, 0, 0, 0, 0, 0, 0, 0, 0, 1, 0, 8, 0, 0, 0, 8, 0, 1, 0, 0].getD i 0

/-- A packet-out whose actions lie behind the message is accepted. -/
theorem validatePacketOut_area_beyond :
  ¬ ∀ (n : ℕ) (mem : Memory), (validatePacketOut (some n)).Returns mem 0 → ActionAreaOk n mem
  := by
  intro h
  have hzero : (validatePacketOut (some 16)).Returns shortPacketOut 0 := ⟨2, by decide⟩
  exact absurd (h 16 shortPacketOut hzero).inside (by decide)

end CcController
