import CcController.Acceptance
import CcController.ReplyAccepted

/-!
# The bodies of replies

A features reply and the statistics replies about tables, ports and queues end in a list of
entries of one size. Their validators accept exactly the messages of that format, look at
every entry and stay inside the message.

Every statistics reply is asked to be at least as long as its fixed part. That is enough where
the body is a list. A description, an aggregate and a vendor's body may be cut short.
-/

namespace CcController

variable {n : ℕ} {mem : Memory}

/-! ### Lists of entries -/

section

variable {entry : ℕ → MessageReader ℤ} {size p k : ℕ}

theorem reads_passing {check rest : MessageReader ℤ} {i : ℕ} :
  (passing check rest).Reads mem i ↔ check.Reads mem i ∨ Accepts check mem ∧ rest.Reads mem i
  := by
  simp only [passing, Reader.reads_bind]
  apply or_congr_right
  constructor
  · rintro ⟨ret, hret, hreads⟩
    by_cases hneg : ret < 0
    · rw [if_pos hneg] at hreads
      exact absurd hreads Reader.reads_pure
    · rw [if_neg hneg] at hreads
      exact ⟨⟨ret, hret, hneg⟩, hreads⟩
  · rintro ⟨⟨ret, hret, hpos⟩, hreads⟩
    use ret, hret
    rwa [if_neg hpos]

/-- Entries are accepted exactly if each of them is. -/
theorem validateEach_accepts :
  Accepts (validateEach entry size p k) mem ↔ ∀ i < k, Accepts (entry (p + size * i)) mem
  := by
  constructor
  · intro h i hi
    induction k generalizing p i with
    | zero => exact absurd hi (Nat.not_lt_zero i)
    | succ k ih =>
        rw [validateEach, accepts_passing] at h
        cases i with
        | zero => exact h.1
        | succ i =>
            have hnext := ih h.2 i (Nat.lt_of_succ_lt_succ hi)
            rwa [Nat.add_assoc, Nat.add_comm size, ← Nat.mul_succ] at hnext
  · intro h
    exact ⟨0, validateEach_returns h, Int.lt_irrefl 0⟩

theorem validateEach_returns_zero :
  (validateEach entry size p k).Returns mem 0 ↔ ∀ i < k, Accepts (entry (p + size * i)) mem
  := by
  constructor
  · intro h
    apply validateEach_accepts.mp
    exact ⟨0, h, Int.lt_irrefl 0⟩
  · exact validateEach_returns

/-- What is read of an entry is read when all entries are accepted. -/
theorem validateEach_reads (h : ∀ i < k, Accepts (entry (p + size * i)) mem) {i place : ℕ}
    (hi : i < k) (hreads : (entry (p + size * i)).Reads mem place) :
  (validateEach entry size p k).Reads mem place
  := by
  induction k generalizing p i with
  | zero => exact absurd hi (Nat.not_lt_zero i)
  | succ k ih =>
      rw [validateEach, reads_passing]
      cases i with
      | zero => exact .inl hreads
      | succ i =>
          right
          use h 0 (Nat.succ_pos k)
          have hnext : ∀ j, p + size * (j + 1) = p + size + size * j := by
            intro j
            rw [Nat.mul_succ, Nat.add_comm (size * j), Nat.add_assoc]
          apply ih _ (Nat.lt_of_succ_lt_succ hi)
          · rwa [← hnext]
          · intro j hj
            rw [← hnext]
            exact h (j + 1) (Nat.succ_lt_succ hj)

end

/-! ### Formats with a list of entries -/

/-- A format: `fixed` bytes, of which a check other than that of the header is `gate`, and
entries of `size` bytes, which are legal by what they have at `inspected`. -/
structure EntryFormat where
  type : UInt8
  fixed : ℕ
  size : ℕ
  gate : Memory → Prop
  Legal : Memory → ℕ → Prop
  inspected : ℕ → Prop

/-- The message of `n` bytes has the format. -/
structure EntryFormat.Ok (format : EntryFormat) (n : ℕ) (mem : Memory) : Prop where
  header : Accepts (validateHeader (some n) format.type format.fixed ushrtMax.toNat) mem
  gate : format.gate mem
  whole : format.size ∣ n - format.fixed
  legal : ∀ i < (n - format.fixed) / format.size,
    format.Legal mem (format.fixed + format.size * i)

/-- The check accepts exactly the messages of the format. It looks at all entries of those, and
never behind the message. -/
structure EntryFormat.Checks (format : EntryFormat) (n : ℕ) (mem : Memory)
    (check : MessageReader ℤ) : Prop where
  accepts : check.Returns mem 0 ↔ format.Ok n mem
  inspects : check.Returns mem 0 → ∀ i < (n - format.fixed) / format.size,
    ∀ offset, format.inspected offset →
      check.Reads mem (format.fixed + format.size * i + offset)
  inside : ∀ place, check.Reads mem place → place < n

def featuresFormat : EntryFormat where
  type := ofptFeaturesReply
  fixed := 32
  size := 48
  gate mem := mem 20 ≠ 0
  Legal mem p := LegalPort (phyPortAt mem p)
  inspected offset := offset < 48

/-- A statistics reply whose only flag may be that more follow. -/
def statsFormat (size : ℕ) (Legal : Memory → ℕ → Prop) (inspected : ℕ → Prop) : EntryFormat where
  type := ofptStatsReply
  fixed := 12
  size := size
  gate mem := be16 mem 10 &&& ~~~ofpsfReplyMore = 0
  Legal := Legal
  inspected := inspected

def tableStatsFormat : EntryFormat :=
  statsFormat 64 (fun mem p => validateWildcards (be32 mem (p + 36)) = 0)
    (fun offset => 36 ≤ offset ∧ offset < 40)

/-- The entries of a reply about ports or queues begin with the number of the port. -/
def portNoFormat (size : ℕ) : EntryFormat :=
  statsFormat size (fun mem p => validatePhyPortNo (be16 mem p) = 0) (fun offset => offset < 2)

def portStatsFormat : EntryFormat := portNoFormat 104

def queueStatsFormat : EntryFormat := portNoFormat 32

section

variable {p : ℕ}

/-- The validator of a port accepts exactly the legal ones. -/
theorem validatePhyPort_accepts :
  Accepts (validatePhyPort p) mem ↔ LegalPort (phyPortAt mem p)
  := by
  constructor
  · intro h
    simp only [validatePhyPort, accepts_bind, returns_ntohPhyPort, exists_eq_left,
      accepts_passing, accepts_ite, accepts_pure, Int.not_lt, validatePhyPortNo_nonneg] at h
    simp +decide only [false_or, and_false, and_true, ne_eq, not_or, not_not] at h
    obtain ⟨hport, hconfig, hstate, hcurr, hadvertised, hsupported, hpeer⟩ := h
    exact ⟨hport, hconfig, hstate, hcurr, hadvertised, hsupported, hpeer⟩
  · exact LegalPort.accepts

/-- All of a port is copied before it is checked. -/
theorem validatePhyPort_reads {offset : ℕ} (h : offset < 48) :
  (validatePhyPort p).Reads mem (p + offset)
  := by
  rw [validatePhyPort, Reader.reads_bind]
  left
  simp only [ntohPhyPort, Reader.reads_bind, (yields_ntohs _).reads, (yields_ntohl _).reads,
    (yields_bcopy _ _).reads, (yields_ntohs _).returns, (yields_ntohl _).returns,
    (yields_bcopy _ _).returns, exists_eq_left, List.mem_cons, List.mem_range'_1,
    List.not_mem_nil]
  omega

/-- A message too short for a header is not read. -/
theorem validateHeader_inside {type : UInt8} {minLength maxLength : ℕ} (hn : n < 8)
    {rest : MessageReader ℤ} :
  Reader.Within (· < n) (passing (validateHeader (some n) type minLength maxLength) rest) mem
    (fun _ => True)
  := by
  rw [within_passing]
  constructor
  · rw [validateHeader, unlessNull_some, if_pos hn]
    exact Reader.within_pure.mpr trivial
  · intro h
    exact absurd (validateHeader_length h) (Nat.not_le_of_lt hn)

end

/-! ### The features of a switch -/

theorem validateFeaturesReply_returns_zero :
  (validateFeaturesReply (some n)).Returns mem 0 ↔ featuresFormat.Ok n mem
  := by
  have hlength : Accepts (validateHeader (some n) ofptFeaturesReply 32 ushrtMax.toNat) mem →
      (be16 mem 2 - 32).toNat = n - 32 :=
    fun h => ((validateHeader_accepts_iff (by decide) (by decide)).mp h).length_sub
      (k := 32) (by decide)
  simp only [validateFeaturesReply, unlessNull_some, returns_zero_passing, headerLength,
    Reader.returns_bind, Reader.returns_ite, Reader.returns_pure, Reader.returns_read,
    returns_ntohs, exists_eq_left, validatePhyPorts, validateEach_accepts,
    validatePhyPort_accepts]
  simp +decide only [and_false, false_or, and_true]
  constructor
  · rintro ⟨hheader, htables, hwhole, hports⟩
    have hbody := hlength hheader
    rw [hbody, not_not] at hwhole
    refine ⟨hheader, htables, Nat.dvd_of_mod_eq_zero hwhole, fun i hi => ?_⟩
    rcases hports with ⟨-, hports⟩ | hnone
    · rw [hbody] at hports
      exact hports i hi
    · -- without ports there is no `i`
      rw [gt_iff_lt, UInt16.lt_iff_toNat_lt, hbody] at hnone
      have hzero : n - 32 = 0 := Nat.eq_zero_of_not_pos hnone
      exact absurd hi (by rw [featuresFormat, hzero]; exact Nat.not_lt_zero i)
  · rintro ⟨hheader, htables, hwhole, hports⟩
    use hheader, htables
    rw [hlength hheader]
    use not_not.mpr (Nat.mod_eq_zero_of_dvd hwhole)
    by_cases hpos : be16 mem 2 - 32 > 0
    · exact .inl ⟨hpos, hports⟩
    · exact .inr hpos

theorem validateFeaturesReply_checks :
  featuresFormat.Checks n mem (validateFeaturesReply (some n))
  := by
  constructor
  · exact validateFeaturesReply_returns_zero
  · intro haccepted i hi offset hoffset
    obtain ⟨hheader, htables, hwhole, hports⟩ := validateFeaturesReply_returns_zero.mp haccepted
    have hbody : (be16 mem 2 - 32).toNat = n - 32 :=
      ((validateHeader_accepts_iff (by decide) (by decide)).mp hheader).length_sub
        (k := 32) (by decide)
    have hmod : (n - 32) % 48 = 0 := Nat.mod_eq_zero_of_dvd hwhole
    have hpos : be16 mem 2 - 32 > 0 := by
      rw [gt_iff_lt, UInt16.lt_iff_toNat_lt, hbody]
      exact Nat.pos_of_div_pos (Nat.zero_lt_of_lt hi)
    rw [validateFeaturesReply, unlessNull_some, reads_passing]
    right
    use hheader
    simp only [headerLength, Reader.reads_bind, Reader.returns_read, returns_ntohs,
      exists_eq_left, if_neg htables, hbody]
    right
    right
    rw [if_neg (not_not.mpr hmod), if_pos hpos, reads_passing]
    left
    apply validateEach_reads _ hi (validatePhyPort_reads hoffset)
    intro j hj
    exact validatePhyPort_accepts.mpr (hports j hj)
  · have hinside : Reader.Within (· < n) (validateFeaturesReply (some n)) mem
        (fun _ => True) := by
      by_cases hn : 8 ≤ n
      · exact validateFeaturesReply_within hn
      · rw [validateFeaturesReply, unlessNull_some]
        exact validateHeader_inside (Nat.lt_of_not_le hn)
    exact hinside.1

/-! ### Lists of statistics -/

section

variable {entry : ℕ → MessageReader ℤ} {size : ℕ} {Legal : Memory → ℕ → Prop}
  {inspected : ℕ → Prop}

theorem statsFormat_ok :
  (statsFormat size Legal inspected).Ok n mem ↔
    HeaderOk n mem ofptStatsReply 12 ushrtMax.toNat ∧ be16 mem 10 &&& ~~~ofpsfReplyMore = 0 ∧
      size ∣ n - 12 ∧ ∀ i < (n - 12) / size, Legal mem (12 + size * i)
  := by
  rw [← validateHeader_accepts_iff (by decide) (by decide)]
  constructor
  · rintro ⟨hheader, hflags, hwhole, hlegal⟩
    exact ⟨hheader, hflags, hwhole, hlegal⟩
  · rintro ⟨hheader, hflags, hwhole, hlegal⟩
    exact ⟨hheader, hflags, hwhole, hlegal⟩

theorem validateStatsEntries_returns_zero (hheader : HeaderOk n mem ofptStatsReply 12
      ushrtMax.toNat) :
  (validateStatsEntries entry size).Returns mem 0 ↔
    size ∣ n - 12 ∧ ∀ i < (n - 12) / size, Accepts (entry (12 + size * i)) mem
  := by
  have hbody : (be16 mem 2 - 12).toNat = n - 12 := hheader.length_sub (k := 12) (by decide)
  simp only [validateStatsEntries, headerLength, Reader.returns_bind, Reader.returns_ite,
    Reader.returns_pure, returns_ntohs, exists_eq_left, hbody, validateEach_returns_zero,
    Nat.dvd_iff_mod_eq_zero, ne_eq, not_not]
  simp +decide only [and_false, false_or]

/-- The validator of a list of statistics, from what the validator of an entry accepts and
reads. -/
theorem validateStatsReplyOf_checks (haccepts : ∀ p, Accepts (entry p) mem ↔ Legal mem p)
    (hreads : ∀ p offset, inspected offset → (entry p).Reads mem (p + offset))
    (hinside : ∀ p, p + size ≤ n → Reader.Within (· < n) (entry p) mem (fun _ => True)) :
  (statsFormat size Legal inspected).Checks n mem
    (validateStatsReplyOf (some n) ushrtMax.toNat ofpsfReplyMore
      (validateStatsEntries entry size))
  := by
  have hiff : (validateStatsReplyOf (some n) ushrtMax.toNat ofpsfReplyMore
      (validateStatsEntries entry size)).Returns mem 0 ↔
        (statsFormat size Legal inspected).Ok n mem := by
    rw [validateStatsReplyOf_returns_zero, statsFormat_ok]
    apply and_congr_right
    intro hheader
    rw [validateStatsEntries_returns_zero hheader]
    simp only [haccepts]
  constructor
  · exact hiff
  · intro haccepted i hi offset hoffset
    obtain ⟨hheader, hflags, hwhole, hentries⟩ := statsFormat_ok.mp (hiff.mp haccepted)
    have hbody : (be16 mem 2 - 12).toNat = n - 12 := hheader.length_sub (k := 12) (by decide)
    have hmod : (n - 12) % size = 0 := Nat.mod_eq_zero_of_dvd hwhole
    rw [validateStatsReplyOf, unlessNull_some, reads_passing]
    right
    use (validateHeader_accepts_iff (by decide) (by decide)).mpr hheader
    rw [Reader.reads_bind]
    right
    use be16 mem 10, returns_ntohs.mpr rfl
    rw [if_neg (not_not.mpr hflags), validateStatsEntries, Reader.reads_bind]
    right
    use be16 mem 2, returns_ntohs.mpr rfl
    simp only [hbody]
    rw [if_neg (not_not.mpr hmod)]
    apply validateEach_reads _ hi (hreads _ offset hoffset)
    intro j hj
    exact (haccepts _).mpr (hentries j hj)
  · have hwithin : Reader.Within (· < n) (validateStatsReplyOf (some n) ushrtMax.toNat
        ofpsfReplyMore (validateStatsEntries entry size)) mem (fun _ => True) := by
      by_cases hn : 8 ≤ n
      · rw [validateStatsReplyOf_within hn]
        intro hheader _
        exact validateStatsEntries_within hheader hinside
      · rw [validateStatsReplyOf, unlessNull_some]
        exact validateHeader_inside (Nat.lt_of_not_le hn)
    exact hwithin.1

theorem validateTableStatsReply_checks :
  tableStatsFormat.Checks n mem (validateTableStatsReply (some n))
  := by
  apply validateStatsReplyOf_checks
  · intro p
    simp only [accepts_bind, returns_ntohl, exists_eq_left, accepts_pure, Int.not_lt,
      validateWildcards_nonneg]
  · intro p offset hoffset
    rw [Reader.reads_bind]
    left
    rw [(yields_ntohl _).reads]
    simp only [List.mem_cons, List.not_mem_nil, or_false]
    omega
  · intro p hp
    simp only [Reader.within_bind, within_ntohl, Reader.within_pure, and_true]
    omega

/-- The validator of statistics whose entries begin with the number of a port. -/
theorem portNo_checks (hsize : 2 ≤ size) :
  (portNoFormat size).Checks n mem
    (validateStatsReplyOf (some n) ushrtMax.toNat ofpsfReplyMore
      (validateStatsEntries (fun p => do
        let portNo ← ntohs p
        pure (validatePhyPortNo portNo)) size))
  := by
  apply validateStatsReplyOf_checks
  · intro p
    simp only [accepts_bind, returns_ntohs, exists_eq_left, accepts_pure, Int.not_lt,
      validatePhyPortNo_nonneg]
  · intro p offset hoffset
    rw [Reader.reads_bind]
    left
    rw [(yields_ntohs p).reads, List.mem_pair]
    omega
  · intro p hp
    simp only [Reader.within_bind, within_ntohs, Reader.within_pure, and_true]
    omega

end

/-- A features reply and a statistics reply about tables, ports or queues are accepted exactly
if they are of the format, and then all of their entries are looked at. Nothing behind the
message is read. -/
theorem entryReplies_checked (n : ℕ) (mem : Memory) :
  featuresFormat.Checks n mem (validateFeaturesReply (some n)) ∧
  tableStatsFormat.Checks n mem (validateTableStatsReply (some n)) ∧
  portStatsFormat.Checks n mem (validatePortStatsReply (some n)) ∧
  queueStatsFormat.Checks n mem (validateQueueStatsReply (some n))
  := by
  refine ⟨validateFeaturesReply_checks, validateTableStatsReply_checks, ?_, ?_⟩
  · exact portNo_checks (by decide)
  · exact portNo_checks (by decide)

/-! ### Complete bodies -/

/-- A body of `b` bytes is complete for a type of statistics. -/
structure BodyComplete (type : UInt16) (b : ℕ) : Prop where
  desc : type = ofpstDesc → b = 1056
  aggregate : type = ofpstAggregate → b = 24
  table : type = ofpstTable → 64 ∣ b
  port : type = ofpstPort → 104 ∣ b
  queue : type = ofpstQueue → 32 ∣ b
  vendor : type = ofpstVendor → 4 ≤ b

/-- A reply of `n` bytes consists of its fixed part and a complete body. -/
def ReplyComplete (type : UInt16) (n : ℕ) : Prop :=
  ∃ b, n = 12 + b ∧ BodyComplete type b

theorem bodyComplete_desc :
  BodyComplete ofpstDesc 1056
  := by
  constructor
  case desc => exact fun _ => rfl
  all_goals exact fun h => absurd h (by decide)

theorem bodyComplete_flow {b : ℕ} :
  BodyComplete ofpstFlow b
  := by
  constructor
  all_goals exact fun h => absurd h (by decide)

theorem bodyComplete_aggregate :
  BodyComplete ofpstAggregate 24
  := by
  constructor
  case aggregate => exact fun _ => rfl
  all_goals exact fun h => absurd h (by decide)

theorem bodyComplete_table {b : ℕ} (h : 64 ∣ b) :
  BodyComplete ofpstTable b
  := by
  constructor
  case table => exact fun _ => h
  all_goals exact fun h => absurd h (by decide)

theorem bodyComplete_port {b : ℕ} (h : 104 ∣ b) :
  BodyComplete ofpstPort b
  := by
  constructor
  case port => exact fun _ => h
  all_goals exact fun h => absurd h (by decide)

theorem bodyComplete_queue {b : ℕ} (h : 32 ∣ b) :
  BodyComplete ofpstQueue b
  := by
  constructor
  case queue => exact fun _ => h
  all_goals exact fun h => absurd h (by decide)

theorem bodyComplete_vendor {b : ℕ} (h : 4 ≤ b) :
  BodyComplete ofpstVendor b
  := by
  constructor
  case vendor => exact fun _ => h
  all_goals exact fun h => absurd h (by decide)

/-- The header and the flags of the reply are legal, but it ends before its body does. -/
structure CutShort (n : ℕ) (mem : Memory) : Prop where
  header : HeaderOk n mem ofptStatsReply 12 ushrtMax.toNat
  short : be16 mem 8 = ofpstDesc ∧ be16 mem 10 = 0 ∧ n < 12 + 1056 ∨
    be16 mem 8 = ofpstAggregate ∧ be16 mem 10 = 0 ∧ n < 12 + 24 ∨
    be16 mem 8 = ofpstVendor ∧ be16 mem 10 &&& ~~~ofpsfReplyMore = 0 ∧ n < 12 + 4

theorem HeaderOk.anyLength {type : UInt8} {minLength maxLength : ℕ}
    (h : HeaderOk n mem type minLength maxLength) :
  HeaderOk n mem type minLength ushrtMax.toNat
  := by
  have hlength := h.length
  have hlt := (be16 mem 2).toNat_lt
  have hmax : ushrtMax.toNat = 65535 := rfl
  exact ⟨h.version, h.type, hlength, h.min, by omega⟩

/-- What the types of statistics replies have to be like to be accepted. -/
theorem validateStatsReply_cases (h : (validateStatsReply (some n)).Returns mem 0) :
  be16 mem 8 = ofpstDesc ∧ (validateDescStatsReply (some n)).Returns mem 0 ∨
  be16 mem 8 = ofpstFlow ∧ (validateFlowStatsReply (some n)).Returns mem 0 ∨
  be16 mem 8 = ofpstAggregate ∧ (validateAggregateStatsReply (some n)).Returns mem 0 ∨
  be16 mem 8 = ofpstTable ∧ (validateTableStatsReply (some n)).Returns mem 0 ∨
  be16 mem 8 = ofpstPort ∧ (validatePortStatsReply (some n)).Returns mem 0 ∨
  be16 mem 8 = ofpstQueue ∧ (validateQueueStatsReply (some n)).Returns mem 0 ∨
  be16 mem 8 = ofpstVendor ∧ (validateVendorStatsReply (some n)).Returns mem 0
  := by
  rw [validateStatsReply, unlessNull_some, Reader.returns_bind] at h
  obtain ⟨type, htype, h⟩ := h
  rw [← returns_ntohs.mp htype]
  split at h
  · next hdesc => exact .inl ⟨hdesc, h⟩
  · right
    split at h
    · next hflow => exact .inl ⟨hflow, h⟩
    · right
      split at h
      · next haggregate => exact .inl ⟨haggregate, h⟩
      · right
        split at h
        · next htable => exact .inl ⟨htable, h⟩
        · right
          split at h
          · next hport => exact .inl ⟨hport, h⟩
          · right
            split at h
            · next hqueue => exact .inl ⟨hqueue, h⟩
            · split at h
              · next hvendor => exact .inr ⟨hvendor, h⟩
              · cases Reader.returns_pure.mp h

theorem validateDescStatsReply_returns_zero :
  (validateDescStatsReply (some n)).Returns mem 0 ↔
    HeaderOk n mem ofptStatsReply 12 (12 + 1056) ∧ be16 mem 10 = 0
  := by
  rw [validateDescStatsReply, validateStatsReplyOf_returns_zero]
  simp

theorem validateAggregateStatsReply_returns_zero :
  (validateAggregateStatsReply (some n)).Returns mem 0 ↔
    HeaderOk n mem ofptStatsReply 12 (12 + 24) ∧ be16 mem 10 = 0
  := by
  rw [validateAggregateStatsReply, validateStatsReplyOf_returns_zero]
  simp

theorem validateVendorStatsReply_returns_zero :
  (validateVendorStatsReply (some n)).Returns mem 0 ↔
    HeaderOk n mem ofptStatsReply 12 ushrtMax.toNat ∧ be16 mem 10 &&& ~~~ofpsfReplyMore = 0
  := by
  rw [validateVendorStatsReply, validateStatsReplyOf_returns_zero]
  simp [headerLength]

/-- A reply that is cut short is accepted. -/
theorem CutShort.accepted (h : CutShort n mem) :
  (validateStatsReply (some n)).Returns mem 0
  := by
  obtain ⟨hheader, hshort⟩ := h
  simp only [validateStatsReply, unlessNull_some, Reader.returns_bind, returns_ntohs,
    exists_eq_left]
  rcases hshort with ⟨htype, hflags, hlt⟩ | ⟨htype, hflags, hlt⟩ | ⟨htype, hflags, -⟩
  · rw [if_pos htype, validateDescStatsReply_returns_zero]
    exact ⟨⟨hheader.version, hheader.type, hheader.length, hheader.min, hlt.le⟩, hflags⟩
  · rw [htype, if_neg (by decide), if_neg (by decide), if_pos rfl,
      validateAggregateStatsReply_returns_zero]
    exact ⟨⟨hheader.version, hheader.type, hheader.length, hheader.min, hlt.le⟩, hflags⟩
  · rw [htype, if_neg (by decide), if_neg (by decide), if_neg (by decide), if_neg (by decide),
      if_neg (by decide), if_neg (by decide), if_pos rfl, validateVendorStatsReply_returns_zero]
    exact ⟨hheader, hflags⟩

theorem CutShort.not_complete (h : CutShort n mem) :
  ¬ ReplyComplete (be16 mem 8) n
  := by
  rintro ⟨b, hlength, hcomplete⟩
  rcases h.short with ⟨htype, -, hlt⟩ | ⟨htype, -, hlt⟩ | ⟨htype, -, hlt⟩
  · have hsize := hcomplete.desc htype
    omega
  · have hsize := hcomplete.aggregate htype
    omega
  · have hsize := hcomplete.vendor htype
    omega

/-- Where the format asks for whole entries, the body is complete. -/
theorem whole_of_ok {size : ℕ} {Legal : Memory → ℕ → Prop} {inspected : ℕ → Prop}
    (h : (statsFormat size Legal inspected).Ok n mem) :
  ∃ b, n = 12 + b ∧ size ∣ b
  := by
  obtain ⟨hheader, -, hwhole, -⟩ := statsFormat_ok.mp h
  exact ⟨n - 12, (Nat.add_sub_of_le hheader.min).symm, hwhole⟩

/-- A reply that is accepted and not cut short is complete. -/
theorem replyComplete_of_returns (h : (validateStatsReply (some n)).Returns mem 0)
    (hshort : ¬ CutShort n mem) :
  ReplyComplete (be16 mem 8) n
  := by
  rcases validateStatsReply_cases h with ⟨htype, hdesc⟩ | ⟨htype, hflow⟩ | ⟨htype, haggregate⟩
    | ⟨htype, htable⟩ | ⟨htype, hport⟩ | ⟨htype, hqueue⟩ | ⟨htype, hvendor⟩
  · obtain ⟨hheader, hflags⟩ := validateDescStatsReply_returns_zero.mp hdesc
    have hle : 12 + 1056 ≤ n := by
      by_contra hlt
      exact hshort ⟨hheader.anyLength, .inl ⟨htype, hflags, Nat.lt_of_not_le hlt⟩⟩
    rw [htype]
    exact ⟨1056, Nat.le_antisymm hheader.max hle, bodyComplete_desc⟩
  · rw [validateFlowStatsReply, validateStatsReplyOf_returns_zero] at hflow
    obtain ⟨hheader, -⟩ := hflow
    rw [htype]
    exact ⟨n - 12, (Nat.add_sub_of_le hheader.min).symm, bodyComplete_flow⟩
  · obtain ⟨hheader, hflags⟩ := validateAggregateStatsReply_returns_zero.mp haggregate
    have hle : 12 + 24 ≤ n := by
      by_contra hlt
      exact hshort ⟨hheader.anyLength, .inr (.inl ⟨htype, hflags, Nat.lt_of_not_le hlt⟩)⟩
    rw [htype]
    exact ⟨24, Nat.le_antisymm hheader.max hle, bodyComplete_aggregate⟩
  · obtain ⟨b, hlength, hwhole⟩ := whole_of_ok (validateTableStatsReply_checks.accepts.mp htable)
    rw [htype]
    exact ⟨b, hlength, bodyComplete_table hwhole⟩
  · obtain ⟨b, hlength, hwhole⟩ := whole_of_ok ((portNo_checks (by decide)).accepts.mp hport)
    rw [htype]
    exact ⟨b, hlength, bodyComplete_port hwhole⟩
  · obtain ⟨b, hlength, hwhole⟩ := whole_of_ok ((portNo_checks (by decide)).accepts.mp hqueue)
    rw [htype]
    exact ⟨b, hlength, bodyComplete_queue hwhole⟩
  · obtain ⟨hheader, hflags⟩ := validateVendorStatsReply_returns_zero.mp hvendor
    have hle : 12 + 4 ≤ n := by
      by_contra hlt
      exact hshort ⟨hheader, .inr (.inr ⟨htype, hflags, Nat.lt_of_not_le hlt⟩)⟩
    rw [htype]
    exact ⟨n - 12, by omega, bodyComplete_vendor (by omega)⟩

/-! ### Bodies that are built -/

/-- Whatever the program returns is a complete reply. -/
def BuildsComplete (type : UInt16) (m : Action (Option Buffer)) : Prop :=
  ∀ w, Program.Ensures m w
    (fun result _ => ∀ buf, result = some buf → ReplyComplete type buf.length)

/-- The builders of statistics replies, other than of flows, make complete bodies if the
message has no more than 65535 bytes. -/
structure BuildersComplete (host : Host) (xid : UInt32) : Prop where
  desc : ∀ (flags : UInt16) (mfrDesc hwDesc swDesc serialNum dpDesc : List UInt8),
    BuildsComplete ofpstDesc
      (ccCreateDescStatsReply host xid flags mfrDesc hwDesc swDesc serialNum dpDesc)
  aggregate : ∀ (flags : UInt16) (packetCount byteCount : UInt64) (flowCount : UInt32),
    BuildsComplete ofpstAggregate
      (ccCreateAggregateStatsReply host xid flags packetCount byteCount flowCount)
  table : ∀ (flags : UInt16) (tables : List (Record UInt8 ofpTableStats)),
    12 + 64 * tables.length < 2 ^ 16 →
    BuildsComplete ofpstTable (ccCreateTableStatsReply host xid flags tables)
  port : ∀ (flags : UInt16) (ports : List (Record UInt8 ofpPortStats)),
    12 + 104 * ports.length < 2 ^ 16 →
    BuildsComplete ofpstPort (ccCreatePortStatsReply host xid flags ports)
  queue : ∀ (flags : UInt16) (queues : List (Record UInt8 ofpQueueStats)),
    12 + 32 * queues.length < 2 ^ 16 →
    BuildsComplete ofpstQueue (ccCreateQueueStatsReply host xid flags queues)
  vendor : ∀ (flags : UInt16) (vendor : UInt32) (data : Option Payload),
    16 + (payloadBytes data).length < 2 ^ 16 →
    BuildsComplete ofpstVendor
      (ccCreateVendorStatsReply host xid flags vendor (data.map Payload.buffer))

section

variable {host : Host} {xid : UInt32} {w : World}

theorem Makes.buildsComplete {type flags : UInt16} {body : List UInt8} {k : ℕ}
    {m : Action (Option Buffer)}
    (hm : Makes host xid ofptStatsReply ([htons type, htons flags].flatten ++ body) k m)
    (hbody : BodyComplete type body.length) :
  BuildsComplete type m
  := by
  intro w
  apply hm
  · intro _ _ buf _ hbuf buf' heq
    obtain rfl := Option.some.inj heq
    use body.length
    rw [hbuf.length, statsReply_length]
    exact ⟨rfl, hbody⟩
  · exact fun _ => trivial
  · exact fun _ => ⟨trivial, trivial⟩

/-- Filling a buffer does not change its length. -/
theorem fill_length {buf : Buffer} {p : ℕ} {bytes : List UInt8} :
  Program.Ensures (fill buf p bytes) w (fun buf' _ => buf'.length = buf.length)
  := ensures_fill (fun _ _ _ => rfl)

theorem storeFields_length {buf : Buffer} {p : ℕ} {fields : List (List UInt8)} :
  Program.Ensures (storeFields buf p fields) w (fun buf' _ => buf'.length = buf.length)
  := by
  induction fields generalizing buf p w with
  | nil => exact Program.ends_pure.mpr rfl
  | cons field fields ih =>
      apply Program.ends_bind.mpr
      apply fill_length.mono
      intro buf' w' h
      rw [← h]
      exact ih

/-- A string that is copied does not change the length. -/
theorem copied_length {block : List UInt8} {p m : ℕ} {buf : Buffer}
    {rest : Buffer → Action Buffer}
    (hrest : ∀ buf w, Program.Ensures (rest buf) w (fun buf' _ => buf'.length = buf.length)) :
  Program.Ensures (do
    let bytes ← copyOut block 0 m
    let buf ← fill buf p bytes
    rest buf) w (fun buf' _ => buf'.length = buf.length)
  := by
  apply Program.ensures_bind_any
  intro bytes w'
  apply Program.ends_bind.mpr
  apply fill_length.mono
  intro buf' w'' h
  rw [← h]
  exact hrest buf' w''

/-- A message is as long as its header says. -/
theorem createWith_length {type : UInt8} {length : UInt16} {rest : Buffer → Action Buffer}
    (hrest : ∀ buf w, Program.Ensures (rest buf) w (fun buf' _ => buf'.length = buf.length)) :
  Program.Ensures (createWith host xid type length rest) w
    (fun result _ => ∀ buf, result = some buf → buf.length = length.toNat)
  := by
  apply Program.ends_bind.mpr
  apply ends_ccCreateHeader.mpr
  refine ⟨fun _ => trivial, fun _ => ⟨fun _ => trivial, fun _ => ⟨fun _ => trivial, fun _ =>
    ⟨fun _ => trivial, fun _ => ?_⟩⟩⟩⟩
  apply Program.ends_bind.mpr
  apply (hrest _ _).mono
  intro buf w' h
  apply Program.ends_pure.mpr
  intro buf' heq
  obtain rfl := Option.some.inj heq
  exact h

theorem ccCreateDescStatsReply_complete {flags : UInt16}
    {mfrDesc hwDesc swDesc serialNum dpDesc : List UInt8} :
  BuildsComplete ofpstDesc
    (ccCreateDescStatsReply host xid flags mfrDesc hwDesc swDesc serialNum dpDesc)
  := by
  intro w
  rw [ccCreateDescStatsReply, statsReplyWith_eq]
  apply Program.Ends.mono (createWith_length ?_)
  · intro result _ h buf hbuf
    exact ⟨1056, h buf hbuf, bodyComplete_desc⟩
  · intro buf w'
    apply Program.ends_bind.mpr
    apply storeFields_length.mono
    intro buf' w'' h
    rw [← h]
    apply copied_length
    intro buf w
    apply copied_length
    intro buf w
    apply copied_length
    intro buf w
    apply copied_length
    intro buf w
    apply Program.ensures_bind_any
    intro bytes w
    exact fill_length

/-- Entries that are stored are a whole number of them. -/
theorem statsListReply_complete {stats flags : UInt16} {layout : Struct}
    {entries : List (Record UInt8 layout)} (hsize : 12 + layout.size * entries.length < 2 ^ 16)
    (hcomplete : ∀ b, layout.size ∣ b → BodyComplete stats b) :
  BuildsComplete stats (statsListReply host xid stats layout flags entries)
  := by
  apply (statsListReply_makes hsize).buildsComplete
  rw [length_entryWires]
  exact hcomplete _ (Nat.dvd_mul_right _ _)

theorem buildersComplete (host : Host) (xid : UInt32) :
  BuildersComplete host xid
  := by
  constructor
  case desc =>
    intros
    exact ccCreateDescStatsReply_complete
  case aggregate =>
    intros
    apply (statsReplyWith_makes rfl).buildsComplete
    exact bodyComplete_aggregate
  case table =>
    intro flags tables hsize
    apply statsListReply_complete
    · exact hsize
    · exact fun b => bodyComplete_table
  case port =>
    intro flags ports hsize
    apply statsListReply_complete
    · exact hsize
    · exact fun b => bodyComplete_port
  case queue =>
    intro flags queues hsize
    apply statsListReply_complete
    · exact hsize
    · exact fun b => bodyComplete_queue
  case vendor =>
    intro flags vendor data hsize
    apply (ccCreateVendorStatsReply_makes hsize).buildsComplete
    apply bodyComplete_vendor
    rw [List.length_append]
    exact Nat.le_add_right 4 _

end

/-- A statistics reply that is accepted has the complete body that the builders of replies
make exactly if it is not cut short. -/
theorem validateStatsReply_complete_iff (host : Host) (xid : UInt32) (n : ℕ) (mem : Memory) :
  (((validateStatsReply (some n)).Returns mem 0 → ReplyComplete (be16 mem 8) n) ↔
    ¬ CutShort n mem) ∧
  BuildersComplete host xid
  := by
  refine ⟨⟨?_, ?_⟩, buildersComplete host xid⟩
  · intro hcomplete hshort
    exact hshort.not_complete (hcomplete hshort.accepted)
  · intro hshort haccepted
    exact replyComplete_of_returns haccepted hshort

/-- A description of nothing but the fixed part. -/
def emptyDescStats : Memory := fun i => [1, 17, 0, 12].getD i 0

/-- A description without a body is accepted. -/
theorem validateStatsReply_complete_empty :
  ¬ ∀ (n : ℕ) (mem : Memory), (validateStatsReply (some n)).Returns mem 0 →
    ReplyComplete (be16 mem 8) n
  := by
  intro h
  have hshort : CutShort 12 emptyDescStats :=
    ⟨⟨by decide, by decide, by decide, by decide, by decide⟩, .inl (by decide)⟩
  exact hshort.not_complete (h 12 emptyDescStats hshort.accepted)

end CcController
