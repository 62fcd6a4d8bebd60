import CcController.Lib.Ending
import CcController.MessageBounds

/-!
# Which validators end

Most validators read fields at fixed places, and end. The others follow lengths that stand in
the message and count in 16 bits, so that a walk may come back to where it was: past actions
that take a multiple of 65536 bytes together, past an entry of length zero. The theorems say
exactly when that happens.
-/

open Relation

namespace CcController

variable {n : ℕ} {mem : Memory}

/-! ### Walks over entries -/

/-- A walk whose entries have taken `total` bytes is below `length`, as the 16-bit offset counts
it, and takes a legal entry there. -/
structure Takes (mem : Memory) (Legal : ℕ → Prop) (head : ℕ) (length : UInt16)
    (total total' : ℕ) : Prop where
  lt : UInt16.ofNat total < length
  legal : Legal (head + (UInt16.ofNat total).toNat)
  eq : total' = total + (be16 mem (head + (UInt16.ofNat total).toNat + 2)).toNat

/-- So many bytes the first entries of a walk take. -/
abbrev Taken (mem : Memory) (Legal : ℕ → Prop) (head : ℕ) (length : UInt16) : ℕ → Prop :=
  ReflTransGen (Takes mem Legal head length) 0

/-- The entries between two places of a walk take a multiple of 65536 bytes, so the offset is
the same at both. -/
def GoesRound (mem : Memory) (Legal : ℕ → Prop) (head : ℕ) (length : UInt16) : Prop :=
  ∃ total total', Taken mem Legal head length total ∧ Taken mem Legal head length total' ∧
    total < total' ∧ 65536 ∣ total' - total

section

variable {Legal : ℕ → Prop} {head : ℕ} {length : UInt16}

theorem takes_rightUnique :
  Relator.RightUnique (Takes mem Legal head length)
  := by
  intro total total₁ total₂ h₁ h₂
  rw [h₁.eq, h₂.eq]

/-- The offset counts the bytes taken, modulo 65536. -/
theorem offset_next (total : ℕ) (len : UInt16) :
  UInt16.ofNat (total + len.toNat) = UInt16.ofNat total + len
  := by
  rw [UInt16.ofNat_add, UInt16.ofNat_toNat]

theorem offset_eq_iff {total total' : ℕ} (hle : total ≤ total') :
  UInt16.ofNat total = UInt16.ofNat total' ↔ 65536 ∣ total' - total
  := by
  rw [← UInt16.toNat_inj, UInt16.toNat_ofNat', UInt16.toNat_ofNat']
  omega

/-- The offsets a walk comes to are those of the bytes its first entries take. -/
theorem reached_iff_taken {offset : UInt16} :
  Reached mem Legal head length offset ↔
    ∃ total, Taken mem Legal head length total ∧ UInt16.ofNat total = offset
  := by
  constructor
  · intro h
    induction h with
    | start => exact ⟨0, .refl, rfl⟩
    | next _ hlt hlegal ih =>
        obtain ⟨total, htaken, rfl⟩ := ih
        exact ⟨_, htaken.tail ⟨hlt, hlegal, rfl⟩, offset_next _ _⟩
  · rintro ⟨total, htaken, rfl⟩
    induction htaken with
    | refl => exact .start
    | tail _ hstep ih =>
        rw [hstep.eq, offset_next]
        exact .next ih hstep.lt hstep.legal

/-- The entries of a walk that has taken fewer bytes come first. -/
theorem taken_le {total total' : ℕ} (h : ReflTransGen (Takes mem Legal head length) total total') :
  total ≤ total'
  := by
  induction h with
  | refl => exact Nat.le_refl total
  | tail _ hstep ih =>
      rw [hstep.eq]
      omega

theorem taken_of_lt {total total' : ℕ} (h : Taken mem Legal head length total)
    (h' : Taken mem Legal head length total') (hlt : total < total') :
  TransGen (Takes mem Legal head length) total total'
  := by
  have hsteps : ReflTransGen (Takes mem Legal head length) total total' := by
    rcases ReflTransGen.total_of_right_unique takes_rightUnique h h' with hle | hge
    · exact hle
    · have hback := taken_le hge
      omega
  rcases reflTransGen_iff_eq_or_transGen.mp hsteps with rfl | hsteps
  · omega
  · exact hsteps

variable {entry : ℕ → MessageReader ℤ}

theorem round_of_takes (hlegal : ∀ p, Accepts (entry p) mem ↔ Legal p) {total total' : ℕ}
    (h : Takes mem Legal head length total total') :
  Reader.Round (walkRound entry head length) mem (UInt16.ofNat total) (UInt16.ofNat total')
  := by
  rw [round_walkRound, h.eq, offset_next]
  exact ⟨h.lt, (hlegal _).mpr h.legal, rfl⟩

/-- Rounds from the offset of the bytes taken take more bytes. -/
theorem taken_of_rounds (hlegal : ∀ p, Accepts (entry p) mem ↔ Legal p)
    (hpos : ∀ p, Legal p → 0 < (be16 mem (p + 2)).toNat) {total : ℕ}
    (htaken : Taken mem Legal head length total) {offset : UInt16}
    (h : TransGen (Reader.Round (walkRound entry head length) mem) (UInt16.ofNat total) offset) :
  ∃ total' > total, Taken mem Legal head length total' ∧ UInt16.ofNat total' = offset
  := by
  have hstep : ∀ {t : ℕ} {offset : UInt16}, Taken mem Legal head length t →
      Reader.Round (walkRound entry head length) mem (UInt16.ofNat t) offset →
      ∃ t' > t, Taken mem Legal head length t' ∧ UInt16.ofNat t' = offset := by
    intro t offset ht hround
    obtain ⟨hlt, haccepts, rfl⟩ := round_walkRound.mp hround
    have hl := (hlegal _).mp haccepts
    have hlen := hpos _ hl
    refine ⟨_, ?_, ht.tail ⟨hlt, hl, rfl⟩, offset_next _ _⟩
    omega
  induction h with
  | single hround => exact hstep htaken hround
  | tail _ hround ih =>
      obtain ⟨t, hgt, ht, rfl⟩ := ih
      obtain ⟨t', hgt', ht', heq⟩ := hstep ht hround
      exact ⟨t', by omega, ht', heq⟩

/-- A walk over entries that have a length ends exactly when it does not go round. -/
theorem walk_ends (hlegal : ∀ p, Accepts (entry p) mem ↔ Legal p)
    (hpos : ∀ p, Legal p → 0 < (be16 mem (p + 2)).toNat)
    (hends : ∀ p, (entry p).Ends mem) :
  (Reader.loop (walkRound entry head length) 0).Ends mem ↔ ¬ GoesRound mem Legal head length
  := by
  have hrounds : ∀ offset, (walkRound entry head length offset).Ends mem := by
    intro offset
    simp only [walkRound, Reader.ends_ite, Reader.ends_pure, implies_true, and_true]
    intro _
    apply (Reader.ends_bind_of_forall _).mpr (hends (head + offset.toNat))
    intro ret
    simp [Reader.ends_ite, Reader.ends_bind, returns_ntohs]
  have : Finite UInt16 := Finite.of_injective UInt16.toFin (fun _ _ => UInt16.toFin_inj.mp)
  rw [Reader.ends_loop, comesToEnd_iff_no_cycle Reader.round_rightUnique,
    and_iff_right (fun s _ => hrounds s), not_iff_not]
  constructor
  · rintro ⟨offset, hvisits, hcycle⟩
    obtain ⟨total, htaken, rfl⟩ := reached_iff_taken.mp ((visits_walkRound hlegal).mp hvisits)
    obtain ⟨total', hgt, htaken', heq⟩ := taken_of_rounds hlegal hpos htaken hcycle
    exact ⟨total, total', htaken, htaken', hgt,
      (offset_eq_iff (Nat.le_of_lt hgt)).mp heq.symm⟩
  · rintro ⟨total, total', htaken, htaken', hlt, hdvd⟩
    have heq := (offset_eq_iff (Nat.le_of_lt hlt)).mpr hdvd
    use UInt16.ofNat total
    constructor
    · exact (visits_walkRound hlegal).mpr (reached_iff_taken.mpr ⟨total, htaken, rfl⟩)
    · have hround : ∀ t t', Takes mem Legal head length t t' → Reader.Round
          (walkRound entry head length) mem (UInt16.ofNat t) (UInt16.ofNat t') :=
        fun _ _ => round_of_takes hlegal
      have hcycle : TransGen (Reader.Round (walkRound entry head length) mem)
          (UInt16.ofNat total) (UInt16.ofNat total') :=
        (taken_of_lt htaken htaken' hlt).lift UInt16.ofNat hround
      rw [← heq] at hcycle
      exact hcycle

end

/-! ### Actions -/

theorem ends_passing {check rest : MessageReader ℤ} :
  (passing check rest).Ends mem ↔
    check.Ends mem ∧ (Accepts check mem → rest.Ends mem)
  := by
  simp only [passing, Reader.ends_bind, Reader.ends_ite, Reader.ends_pure, implies_true,
    true_and]
  constructor
  · rintro ⟨ret, hret, hrest⟩
    use ⟨ret, hret⟩
    rintro ⟨ret', hret', hpos⟩
    obtain rfl := hret.unique hret'
    exact hrest hpos
  · rintro ⟨⟨ret, hret⟩, hrest⟩
    exact ⟨ret, hret, fun hpos => hrest ⟨ret, hret, hpos⟩⟩

theorem validateActionOf_ends {A : Type} {args : ℕ → MessageReader A} {type size : UInt16}
    {tooShort tooLong : ℤ} {checkArgs : A → ℤ} {action : ℕ}
    (hargs : ∃ a, (args (action + 4)).Returns mem a) :
  (validateActionOf (ntohActionWith args) type size tooShort tooLong checkArgs action).Ends mem
  := by
  obtain ⟨a, ha⟩ := hargs
  apply Reader.ends_bind.mpr
  use ⟨be16 mem action, be16 mem (action + 2), a⟩, returns_ntohActionWith.mpr ⟨rfl, rfl, ha⟩
  simp [Reader.ends_ite, ends_passing]

/-- The validator of one action ends. -/
theorem validateAction_ends (p : ℕ) :
  (validateAction p).Ends mem
  := by
  simp only [validateAction, Reader.ends_bind, Reader.ends_ite, Reader.ends_pure, returns_ntohs,
    exists_eq_left, validateActionVendor, implies_true, true_and, and_true]
  intro _
  refine ⟨fun _ => ?_, fun _ => ⟨fun _ => ?_, fun _ => ⟨fun _ => ?_, fun _ => ⟨fun _ => ?_,
    fun _ => ⟨fun _ => ?_, fun _ => ⟨fun _ => ?_, fun _ => ⟨fun _ => ?_, fun _ => ⟨fun _ => ?_,
    fun _ => ⟨fun _ => ?_, fun _ => ⟨fun _ => ?_, fun _ => ⟨fun _ => ?_,
    fun _ => ⟨fun _ => ?_, fun _ _ _ => ⟨_, rfl⟩⟩⟩⟩⟩⟩⟩⟩⟩⟩⟩⟩⟩
  all_goals
    apply validateActionOf_ends
    simp [(yields_bcopy _ _).returns]

/-- A legal action has at least the bytes of a header. -/
theorem eight_le_of_legalAction {p : ℕ} (h : LegalAction mem p) :
  8 ≤ (be16 mem (p + 2)).toNat
  := by
  have hsize : ∀ {type size : UInt16}, actionSize type = some size → 8 ≤ size.toNat := by
    intro type size h
    unfold actionSize at h
    split at h
    · obtain rfl := Option.some.inj h
      decide
    split at h
    · obtain rfl := Option.some.inj h
      decide
    · cases h
  rcases h with ⟨-, hlen⟩ | ⟨hlen, -⟩
  · apply UInt16.le_iff_toNat_le.mp hlen
  · apply hsize hlen

theorem legalAction_pos {p : ℕ} (h : LegalAction mem p) :
  0 < (be16 mem (p + 2)).toNat
  := Nat.lt_of_lt_of_le (by decide) (eight_le_of_legalAction h)

theorem validateActions_ends {head : ℕ} {length : UInt16} :
  (validateActions head length).Ends mem ↔ ¬ GoesRound mem (LegalAction mem) head length
  := walk_ends validateAction_accepts (fun _ => legalAction_pos) validateAction_ends

/-- The validator of actions returns exactly when no two of the places it comes to, past legal
actions that each begin below the end, are a positive multiple of 65536 bytes apart. -/
theorem validateActions_returns_iff (mem : Memory) (head : ℕ) (length : UInt16) :
  (∃ r, (validateActions head length).Returns mem r) ↔
    ¬ ∃ total total', Taken mem (LegalAction mem) head length total ∧
      Taken mem (LegalAction mem) head length total' ∧ total < total' ∧ 65536 ∣ total' - total
  := validateActions_ends

/-- Two vendor actions of 32768 bytes each, again and again. -/
def vendorActions : Memory := fun i =>
  if i % 32768 < 2 then 255 else if i % 32768 = 2 then 128 else 0

/-- The walk over two long vendor actions does not end. -/
theorem validateActions_no_return :
  ¬ ∀ (mem : Memory) (head : ℕ) (length : UInt16),
    ∃ r, (validateActions head length).Returns mem r
  := by
  intro h
  apply validateActions_ends.mp (h vendorActions 0 65535)
  have hfirst : Takes vendorActions (LegalAction vendorActions) 0 65535 0 32768 :=
    ⟨by decide, .inl (by decide), by decide⟩
  have hsecond : Takes vendorActions (LegalAction vendorActions) 0 65535 32768 65536 :=
    ⟨by decide, .inl (by decide), by decide⟩
  exact ⟨0, 65536, .refl, (ReflTransGen.single hfirst).tail hsecond, by decide, by decide⟩

/-! ### Flow statistics -/

/-- What keeps the walk over the flow entries of a reply from ending. -/
inductive FlowsGoOn (mem : Memory) (length : UInt16) : Prop where
  /-- It comes to a legal entry of length zero, and stays there. -/
  | zero {remaining : UInt16} {p : ℕ} (reached : FlowReached mem length remaining p)
      (pos : remaining > 0) (legal : LegalFlow mem p) (eq_zero : be16 mem p = 0)
  /-- It comes to an entry whose actions go round. -/
  | actions {remaining : UInt16} {p : ℕ} (reached : FlowReached mem length remaining p)
      (pos : remaining > 0) (match_legal : validateMatch (matchAt mem (p + 4)) = 0)
      (priority : (matchAt mem (p + 4)).wildcards &&& ofpfwAll = 0 →
        be16 mem (p + 52) = ushrtMax)
      (long : be16 mem p - 88 > 0)
      (round : GoesRound mem (LegalAction mem) (p + 88) (be16 mem p - 88))
  /-- One legal entry follows another beyond any address. -/
  | beyond (unbounded : ∀ bound, ∃ remaining p, FlowReached mem length remaining p ∧ bound < p)

/-- The check of a flow entry ends unless its actions are looked at and go round. -/
theorem validateFlowEntry_ends (p : ℕ) :
  (validateFlowEntry p).Ends mem ↔
    (validateMatch (matchAt mem (p + 4)) = 0 →
      ((matchAt mem (p + 4)).wildcards &&& ofpfwAll = 0 → be16 mem (p + 52) = ushrtMax) →
      be16 mem p - 88 > 0 → ¬ GoesRound mem (LegalAction mem) (p + 88) (be16 mem p - 88))
  := by
  simp only [validateFlowEntry, Reader.ends_bind, returns_ntohMatch, returns_ntohs,
    exists_eq_left, ends_passing, Reader.ends_ite, Reader.ends_pure, accepts_pure, Int.not_lt,
    validateMatch_nonneg, validateFlowPriority_accepts, validateActions_ends, implies_true,
    and_true, true_and]
  have hpriority : (validateFlowPriority (matchAt mem (p + 4)) (p + 52)).Ends mem := by
    simp [validateFlowPriority, Reader.ends_ite, Reader.ends_bind, returns_ntohs]
  simp only [hpriority, true_and]

theorem round_le {s s' : UInt16 × ℕ} (h : Reader.Round validateFlowStatsRound mem s s') :
  s.2 ≤ s'.2
  := by
  obtain ⟨-, -, rfl⟩ := round_validateFlowStatsRound.mp h
  simp

/-- A round that does not move is followed by another that does not. -/
theorem round_stays {s s' : UInt16 × ℕ} (h : Reader.Round validateFlowStatsRound mem s s')
    (heq : s'.2 = s.2) :
  ∃ s'', Reader.Round validateFlowStatsRound mem s' s'' ∧ s''.2 = s'.2
  := by
  obtain ⟨remaining, p⟩ := s
  obtain ⟨hpos, hlegal, rfl⟩ := round_validateFlowStatsRound.mp h
  have hzero : be16 mem p = 0 := by
    rw [← UInt16.toNat_inj]
    simpa using heq
  simp only [hzero, UInt16.toNat_zero, Nat.add_zero, UInt16.sub_zero] at h ⊢
  exact ⟨_, h, rfl⟩

theorem validateFlowStats_ends {length : UInt16} :
  (Reader.loop validateFlowStatsRound (length, 12)).Ends mem ↔ ¬ FlowsGoOn mem length
  := by
  have hround : ∀ remaining p, (validateFlowStatsRound (remaining, p)).Ends mem ↔
      (remaining > 0 → (validateFlowEntry p).Ends mem) := by
    intro remaining p
    simp only [validateFlowStatsRound, Reader.ends_ite, Reader.ends_pure, implies_true, and_true]
    apply imp_congr_right
    intro _
    apply Reader.ends_bind_of_forall
    intro ret
    simp [Reader.ends_ite, Reader.ends_bind, returns_ntohs]
  rw [Reader.ends_loop, comesToEnd_iff_of_position Reader.round_rightUnique
    (fun _ _ => round_le) (fun _ _ => round_stays)]
  simp only [Prod.forall, visits_validateFlowStatsRound, hround, validateFlowEntry_ends,
    round_validateFlowStatsRound]
  constructor
  · rintro ⟨hactions, hmoves, bound, hbound⟩ hgoes
    cases hgoes with
    | zero hreached hpos hlegal hzero =>
        apply hmoves _ _ _ _ hreached ⟨hpos, hlegal, rfl⟩
        simp [hzero]
    | actions hreached hpos hmatch hpriority hlong hgoes =>
        apply hactions _ _ hreached hpos hmatch hpriority hlong hgoes
    | beyond hunbounded =>
        obtain ⟨remaining, p, hreached, hlt⟩ := hunbounded bound
        have hle := hbound remaining p hreached
        omega
  · intro hends
    refine ⟨fun remaining p hreached hpos hmatch hpriority hlong hgoes => ?_,
      fun remaining p remaining' p' hreached hstep heq => ?_, ?_⟩
    · apply hends (.actions hreached hpos hmatch hpriority hlong hgoes)
    · obtain ⟨hpos, hlegal, hnext⟩ := hstep
      obtain ⟨-, rfl⟩ := Prod.mk.inj hnext
      apply hends (.zero hreached hpos hlegal _)
      rw [← UInt16.toNat_inj]
      simpa using heq
    · by_contra hnone
      push Not at hnone
      apply hends (.beyond hnone)

theorem validateFlowStatsReply_ends
    (hheader : Accepts (validateHeader (some n) ofptStatsReply 12 ushrtMax.toNat) mem) :
  (validateFlowStatsReply (some n)).Ends mem ↔
    (be16 mem 10 &&& ~~~ofpsfReplyMore = 0 → ¬ FlowsGoOn mem (be16 mem 2 - 12))
  := by
  have hends : (validateHeader (some n) ofptStatsReply 12 ushrtMax.toNat).Ends mem := by
    obtain ⟨r, hr, -⟩ := hheader
    exact ⟨r, hr⟩
  simp only [validateFlowStatsReply, validateStatsReplyOf, unlessNull_some, ends_passing, hends,
    hheader, headerLength, Reader.ends_bind, Reader.ends_ite, Reader.ends_pure, returns_ntohs,
    exists_eq_left, validateFlowStats_ends, true_and, true_implies, implies_true, ne_eq, not_not]

/-- With a legal header, the validator of flow statistics returns exactly when the flags are
illegal or the walk over the entries meets nothing that keeps it from ending. -/
theorem validateFlowStatsReply_returns_iff (n : ℕ) (mem : Memory)
    (hheader : Accepts (validateHeader (some n) ofptStatsReply 12 ushrtMax.toNat) mem) :
  (∃ r, (validateFlowStatsReply (some n)).Returns mem r) ↔
    (be16 mem 10 &&& ~~~ofpsfReplyMore = 0 → ¬ FlowsGoOn mem (be16 mem 2 - 12))
  := validateFlowStatsReply_ends hheader

/-- A flow statistics reply whose only entry has the length zero, and a vendor action of 65448
bytes, of which four are there. -/
def zeroFlowStats : Memory := fun i =>
  [1, 17, 0, 104, 0, 0, 0, 0, 0, 1, 0, 0, 0, 0, 0, 0, 0, 0, 0, 1].getD i
    (if i = 100 ∨ i = 101 ∨ i = 102 then 255 else if i = 103 then 168 else 0)

theorem zeroFlowStats_header :
  Accepts (validateHeader (some 104) ofptStatsReply 12 ushrtMax.toNat) zeroFlowStats
  := (validateHeader_accepts (by decide) (by decide)).mpr
    ⟨by decide, by decide, by decide, by decide, by decide⟩

/-- The theorem applies to the reply with an entry of length zero. -/
theorem validateFlowStatsReply_returns_zeroEntry :
  (∃ r, (validateFlowStatsReply (some 104)).Returns zeroFlowStats r) ↔
    (be16 zeroFlowStats 10 &&& ~~~ofpsfReplyMore = 0 →
      ¬ FlowsGoOn zeroFlowStats (be16 zeroFlowStats 2 - 12))
  := validateFlowStatsReply_returns_iff 104 zeroFlowStats zeroFlowStats_header

/-- The validator of flow statistics does not come past an entry of length zero. -/
theorem validateFlowStatsReply_no_return :
  ¬ ∀ (n : ℕ) (mem : Memory),
    Accepts (validateHeader (some n) ofptStatsReply 12 ushrtMax.toNat) mem →
      ∃ r, (validateFlowStatsReply (some n)).Returns mem r
  := by
  intro h
  have hends := h 104 zeroFlowStats zeroFlowStats_header
  apply (validateFlowStatsReply_ends zeroFlowStats_header).mp hends (by decide)
  apply FlowsGoOn.zero .start (by decide) ⟨by decide, by decide, fun _ => ?_⟩ (by decide)
  exact ⟨_, .next .start (by decide) (.inl (by decide)), by decide⟩

/-! ### Queues -/

theorem validateQueueProperty_ends (p : ℕ) :
  (validateQueueProperty p).Ends mem
  := by
  simp [validateQueueProperty, Reader.ends_bind, Reader.ends_ite, returns_ntohs]

theorem legalProperty_pos {p : ℕ} (h : LegalProperty mem p) :
  0 < (be16 mem (p + 2)).toNat
  := by
  rcases h with ⟨-, hlen⟩ | ⟨-, hlen⟩
  · rw [hlen]
    decide
  · rw [hlen]
    decide

theorem validateQueueProperties_ends {head : ℕ} {length : UInt16} :
  (validateQueueProperties head length).Ends mem ↔
    ¬ GoesRound mem (LegalProperty mem) head length
  := walk_ends validateQueueProperty_accepts (fun _ => legalProperty_pos)
    validateQueueProperty_ends

/-- One of the first `k` queues from `p` on is looked at and has properties that go round. -/
def QueuesGoRound (mem : Memory) : ℕ → ℕ → Prop
  | _, 0 => False
  | p, k + 1 =>
    ¬ be16 mem (p + 4) < 16 ∧ GoesRound mem (LegalProperty mem) (p + 8) (be16 mem (p + 4) - 8) ∨
      LegalQueue mem p ∧ QueuesGoRound mem (p + (be16 mem (p + 4)).toNat) k

theorem validatePacketQueues_ends (p k : ℕ) :
  (validatePacketQueues p k).Ends mem ↔ ¬ QueuesGoRound mem p k
  := by
  induction k generalizing p with
  | zero => simp [validatePacketQueues, QueuesGoRound]
  | succ k ih =>
      simp only [validatePacketQueues, QueuesGoRound, ends_passing, validatePacketQueue_accepts,
        Reader.ends_bind, returns_ntohs, exists_eq_left, ih, not_or]
      apply and_congr
      · simp only [validatePacketQueue, Reader.ends_bind, Reader.ends_ite, Reader.ends_pure,
          returns_ntohs, exists_eq_left, ends_passing, validateQueueProperties_ends,
          implies_true, and_true, true_and, not_and]
      · rw [not_and]

/-- What keeps the validator of queues from ending. -/
inductive QueuesGoOn (mem : Memory) (length : UInt16) : Prop where
  /-- It counts a queue of length zero, again and again. -/
  | zero {remaining : UInt16} {p k : ℕ} (reached : CountReached mem length remaining p k)
      (pos : remaining > 8) (eq_zero : be16 mem (p + 4) = 0)
  /-- It counts queues beyond any address. -/
  | beyond (unbounded : ∀ bound, ∃ remaining p k,
      CountReached mem length remaining p k ∧ bound < p)
  /-- The count comes out, and the properties of a queue that is checked go round. -/
  | properties {p k : ℕ} (counted : CountReached mem length 0 p k)
      (round : QueuesGoRound mem 16 k)

theorem countRound_le {s s' : UInt16 × ℕ × ℕ} (h : Reader.Round countQueuesRound mem s s') :
  s.2.1 ≤ s'.2.1
  := by
  obtain ⟨-, rfl⟩ := round_countQueuesRound.mp h
  simp

theorem countRound_stays {s s' : UInt16 × ℕ × ℕ} (h : Reader.Round countQueuesRound mem s s')
    (heq : s'.2.1 = s.2.1) :
  ∃ s'', Reader.Round countQueuesRound mem s' s'' ∧ s''.2.1 = s'.2.1
  := by
  obtain ⟨remaining, p, k⟩ := s
  obtain ⟨hpos, rfl⟩ := round_countQueuesRound.mp h
  have hzero : be16 mem (p + 4) = 0 := by
    rw [← UInt16.toNat_inj]
    simpa using heq
  simp only [hzero, UInt16.toNat_zero, Nat.add_zero, UInt16.sub_zero]
  refine ⟨_, round_countQueuesRound.mpr ⟨hpos, rfl⟩, ?_⟩
  simp [hzero]

/-- The count ends unless it stays at a queue or goes on beyond any address. -/
theorem countQueues_ends {length : UInt16} :
  (Reader.loop countQueuesRound (length, 16, 0)).Ends mem ↔
    (¬ ∃ remaining p k, CountReached mem length remaining p k ∧ remaining > 8 ∧
      be16 mem (p + 4) = 0) ∧
    ¬ ∀ bound, ∃ remaining p k, CountReached mem length remaining p k ∧ bound < p
  := by
  have hround : ∀ s, (countQueuesRound s).Ends mem := by
    intro s
    simp [countQueuesRound, Reader.ends_ite, Reader.ends_bind, returns_ntohs]
  rw [Reader.ends_loop, comesToEnd_iff_of_position Reader.round_rightUnique
    (fun _ _ => countRound_le) (fun _ _ => countRound_stays),
    and_iff_right (fun s _ => hround s)]
  simp only [Prod.forall, visits_countQueuesRound, round_countQueuesRound]
  apply and_congr
  · constructor
    · rintro hmoves ⟨remaining, p, k, hreached, hpos, hzero⟩
      apply hmoves remaining p k _ _ _ hreached ⟨hpos, rfl⟩
      simp [hzero]
    · rintro hnone remaining p k remaining' p' k' hreached ⟨hpos, hnext⟩ heq
      obtain ⟨-, hp, -⟩ : _ ∧ p' = p + (be16 mem (p + 4)).toNat ∧ _ := by
        simpa using hnext
      apply hnone ⟨remaining, p, k, hreached, hpos, _⟩
      rw [← UInt16.toNat_inj]
      have hzero : (be16 mem (p + 4)).toNat = 0 := by omega
      simpa using hzero
  · push Not
    rfl

theorem countQueues_returns_iff {length remaining : UInt16} {k : ℕ} :
  (Reader.loop countQueuesRound (length, 16, 0)).Returns mem (remaining, k) ↔
    ∃ p, CountReached mem length remaining p k ∧ ¬ remaining > 8
  := by
  simp only [Reader.returns_loop, Prod.exists, visits_countQueuesRound, countQueuesRound,
    Reader.returns_ite, Reader.returns_bind, Reader.returns_pure, reduceCtorEq, and_false,
    exists_false, false_or, Sum.inl.injEq, Prod.mk.injEq]
  constructor
  · rintro ⟨_, p, _, hreached, hdone, rfl, rfl⟩
    exact ⟨p, hreached, hdone⟩
  · rintro ⟨p, hreached, hdone⟩
    exact ⟨remaining, p, k, hreached, hdone, rfl, rfl⟩

theorem validateQueueGetConfigReply_ends
    (hheader : Accepts (validateHeader (some n) ofptQueueGetConfigReply 24 ushrtMax.toNat) mem)
    (hport : validatePhyPortNo (be16 mem 8) = 0) :
  (validateQueueGetConfigReply (some n)).Ends mem ↔ ¬ QueuesGoOn mem (be16 mem 2 - 16)
  := by
  have hends : (validateHeader (some n) ofptQueueGetConfigReply 24 ushrtMax.toNat).Ends mem := by
    obtain ⟨r, hr, -⟩ := hheader
    exact ⟨r, hr⟩
  simp only [validateQueueGetConfigReply, unlessNull_some, ends_passing, hends, hheader,
    headerLength, Reader.ends_bind, Reader.ends_ite, Reader.ends_pure, returns_ntohs,
    exists_eq_left, validatePacketQueues_ends, accepts_pure, hport, true_and, true_implies,
    implies_true, and_true, ne_eq, not_not, Int.lt_irrefl, not_false_eq_true, Prod.exists]
  constructor
  · rintro ⟨remaining, k, hreturns, hqueues⟩ hgoes
    obtain ⟨hmoves, hbounded⟩ := countQueues_ends.mp ⟨_, hreturns⟩
    cases hgoes with
    | zero hreached hpos hzero => exact hmoves ⟨_, _, _, hreached, hpos, hzero⟩
    | beyond hunbounded => exact hbounded hunbounded
    | properties hcounted hround =>
        have hcount := countQueues_returns_iff.mpr ⟨_, hcounted, by decide⟩
        obtain ⟨rfl, rfl⟩ := Prod.mk.inj (hreturns.unique hcount)
        apply hqueues rfl _ hround
        cases k with
        | zero => exact hround.elim
        | succ k => apply Nat.succ_pos
  · intro hgoes
    have hcount : (Reader.loop countQueuesRound (be16 mem 2 - 16, 16, 0)).Ends mem := by
      apply countQueues_ends.mpr
      constructor
      · rintro ⟨remaining, p, k, hreached, hpos, hzero⟩
        exact hgoes (.zero hreached hpos hzero)
      · intro hunbounded
        exact hgoes (.beyond hunbounded)
    obtain ⟨⟨remaining, k⟩, hreturns⟩ := hcount
    use remaining, k, hreturns
    rintro rfl - hround
    obtain ⟨p, hcounted, -⟩ := countQueues_returns_iff.mp hreturns
    exact hgoes (.properties hcounted hround)

/-- With a legal header and port, the validator of queues returns exactly when it meets nothing
that keeps it from ending. -/
theorem validateQueueGetConfigReply_returns_iff (n : ℕ) (mem : Memory)
    (hheader : Accepts (validateHeader (some n) ofptQueueGetConfigReply 24 ushrtMax.toNat) mem)
    (hport : validatePhyPortNo (be16 mem 8) = 0) :
  (∃ r, (validateQueueGetConfigReply (some n)).Returns mem r) ↔
    ¬ QueuesGoOn mem (be16 mem 2 - 16)
  := validateQueueGetConfigReply_ends hheader hport

/-- A queue configuration reply of 32 bytes for the port one, whose queue has no length. -/
def zeroQueueConfig : Memory := fun i => [1, 21, 0, 32, 0, 0, 0, 0, 0, 1].getD i 0

theorem zeroQueueConfig_header :
  Accepts (validateHeader (some 32) ofptQueueGetConfigReply 24 ushrtMax.toNat) zeroQueueConfig
  := (validateHeader_accepts (by decide) (by decide)).mpr
    ⟨by decide, by decide, by decide, by decide, by decide⟩

/-- The theorem applies to the reply with a queue of length zero. -/
theorem validateQueueGetConfigReply_returns_zeroQueue :
  (∃ r, (validateQueueGetConfigReply (some 32)).Returns zeroQueueConfig r) ↔
    ¬ QueuesGoOn zeroQueueConfig (be16 zeroQueueConfig 2 - 16)
  := validateQueueGetConfigReply_returns_iff 32 zeroQueueConfig zeroQueueConfig_header (by decide)

/-- The validator of queues does not come past a queue of length zero. -/
theorem validateQueueGetConfigReply_no_return :
  ¬ ∀ (n : ℕ) (mem : Memory),
    Accepts (validateHeader (some n) ofptQueueGetConfigReply 24 ushrtMax.toNat) mem →
      validatePhyPortNo (be16 mem 8) = 0 →
      ∃ r, (validateQueueGetConfigReply (some n)).Returns mem r
  := by
  intro h
  have hends := h 32 zeroQueueConfig zeroQueueConfig_header (by decide)
  apply (validateQueueGetConfigReply_ends zeroQueueConfig_header (by decide)).mp hends
  exact .zero .start (by decide) (by decide)

end CcController
