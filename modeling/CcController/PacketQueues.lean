import CcController.BuilderMessages
import CcController.FlowStats

/-!
# Queues

A queue with its properties is copied out of a queue configuration reply property by property,
as far as the lengths say. That stays inside the queue, and ends, when the properties are tiles
of it. The validator of the reply counts queues modulo 65536 and does not compare the last
property of a queue with the end of the queue, so it makes sure of the tiling for some replies
only.
-/

open Relation

namespace CcController

/-! ### Decoding -/

/-- The property at `p` of a queue, put into `dst` at the same place. It is copied into a block
of its own first; `beyond` is what lies behind that block. Its padding is not stored. -/
def ntohQueueProperty (host : Host) (beyond dst : Memory) (p : ℕ) : MessageReader Memory := do
  let len ← ntohs (p + 2)
  let _ ← bcopy p len.toNat
  Reader.via (p + ·) (fun i byte => if i < len.toNat then byte else beyond i) do
  let property ← ntohs 0
  let length ← ntohs 2
  let dst := stored dst p (host.half property ++ host.half length)
  if property = ofpqtMinRate then do
    let rate ← ntohs 8
    pure (stored dst (p + 8) (host.half rate))
  else pure dst

/-- One round of the loop over the properties of a queue: `propertiesLength` bytes are left, and
the next property is at `ph`, in the queue as in its copy. What lies behind the blocks of this
property and of those after it is `beyonds`. -/
def ntohPropertiesRound (host : Host) (s : UInt16 × ℕ × Memory × (ℕ → Memory)) :
    MessageReader (Memory ⊕ UInt16 × ℕ × Memory × (ℕ → Memory)) :=
  let (propertiesLength, ph, dst, beyonds) := s
  if propertiesLength ≥ 8 then do
    let dst ← ntohQueueProperty host (beyonds 0) dst ph
    let len := host.short (bytesAt dst ph 4) 2
    pure (.inr (propertiesLength - len, ph + len.toNat, dst, fun k => beyonds (k + 1)))
  else pure (.inl dst)

/-- What `ntohPacketQueue` does with the copy of the queue, the memory it reads. -/
def ntohQueueFields (host : Host) (beyonds : ℕ → Memory) (dst : Memory) :
    MessageReader Memory := do
  let fields ← ntohStruct host ofpPacketQueue 0
  let dst := stored dst 0 fields
  let len := host.short (bytesAt dst 0 8) 4
  Reader.loop (ntohPropertiesRound host) (len - 8, 8, dst, beyonds)

/-- The queue at `src`, put into `dst`. It is copied into a block of its own first; `beyond` is
what lies behind that block, and `beyonds` behind those of its properties. -/
def ntohPacketQueue (host : Host) (beyond : Memory) (beyonds : ℕ → Memory) (dst : Memory)
    (src : ℕ) : MessageReader Memory := do
  let len ← ntohs (src + 4)
  let _ ← bcopy src len.toNat
  Reader.via (src + ·) (fun i byte => if i < len.toNat then byte else beyond i)
    (ntohQueueFields host beyonds dst)

/-! ### What is stored -/

section

variable {dst : Memory} {p q n : ℕ} {bytes : List UInt8}

/-- What has been stored is found where it is. -/
theorem bytesAt_stored (h : bytes.length = n) :
  bytesAt (stored dst p bytes) p n = bytes
  := by
  subst h
  apply List.ext_getElem
  · simp [bytesAt]
  · intro i hi hi'
    simp [bytesAt, stored, hi']

/-- Memories that are the same up to the end of some bytes have the same bytes. -/
theorem bytesAt_congr {dst' : Memory} (h : ∀ i < q + n, dst' i = dst i) :
  bytesAt dst' q n = bytesAt dst q n
  := by
  apply List.map_congr_left
  intro i hi
  rw [List.mem_range'_1] at hi
  exact h i hi.2

/-- What is before the bytes that are stored stays as it is. -/
theorem bytesAt_stored_before (h : q + n ≤ p) :
  bytesAt (stored dst p bytes) q n = bytesAt dst q n
  := by
  apply bytesAt_congr
  intro i hi
  exact if_neg (by omega)

end

/-! ### Decoding tiles -/

section

variable {host : Host} {mem : Memory} {n p : ℕ} {beyond dst : Memory}

theorem ntohQueueProperty_ends :
  (ntohQueueProperty host beyond dst p).Ends mem
  := by
  simp only [ntohQueueProperty, Reader.ends_bind, Reader.ends_via, Reader.ends_ite,
    Reader.ends_pure, returns_ntohs, (yields_bcopy _ _).returns, exists_eq, implies_true,
    and_true]

theorem eight_le_of_legalProperty (h : LegalProperty mem p) :
  8 ≤ (be16 mem (p + 2)).toNat
  := by
  rcases h with ⟨-, hlen⟩ | ⟨-, hlen⟩
  · rw [hlen]
    decide
  · rw [hlen]
    decide

/-- Copying a legal property reads inside it, and stores its length. -/
theorem ntohQueueProperty_within (h : LegalProperty mem p)
    (hle : p + (be16 mem (p + 2)).toNat ≤ n) :
  Reader.Within (· < n) (ntohQueueProperty host beyond dst p) mem
    (fun dst' => host.short (bytesAt dst' p 4) 2 = be16 mem (p + 2))
  := by
  have hmin := eight_le_of_legalProperty h
  have hrate : be16 mem p = ofpqtMinRate → (be16 mem (p + 2)).toNat = 16 := by
    intro htype
    rcases h with ⟨hnone, -⟩ | ⟨-, hlen⟩
    · exact absurd (htype.symm.trans hnone) (by decide)
    · rw [hlen]
      rfl
  have hlength : ∀ v, host.short (bytesAt (stored dst p (host.half v
      ++ host.half (be16 mem (p + 2)))) p 4) 2 = be16 mem (p + 2) := by
    intro v
    rw [short_stored (by simp), ← List.append_nil (host.half (be16 mem (p + 2)))]
    exact Host.short_half_two
  simp only [ntohQueueProperty, Reader.within_bind, within_ntohs, within_bcopy,
    Reader.within_via, Reader.within_ite, Reader.within_pure]
  generalize hlen : (be16 mem (p + 2)).toNat = len at hle hmin hrate
  have hblock : ∀ a, a + 2 ≤ len → be16 (Reader.view (fun i => p + i)
      (fun i byte => if i < len then byte else beyond i) mem) a = be16 mem (p + a) := by
    intro a ha
    apply be16_congr
    · exact if_pos (by omega)
    · exact if_pos (by omega)
  rw [hblock 0 (by omega), hblock 2 (by omega)]
  refine ⟨by omega, by omega, by omega, by omega, fun htype => ⟨?_, ?_⟩, fun _ => ?_⟩
  · have hsixteen := hrate htype
    omega
  · rw [bytesAt_stored_before (by omega)]
    exact hlength _
  · exact hlength _

/-- The properties from a place on take the rest of the queue, which is what is left. -/
structure PropertiesInv (pq : Memory) (n : ℕ) (s : UInt16 × ℕ × Memory × (ℕ → Memory)) : Prop where
  left : s.1.toNat + s.2.1 = n
  tiles : Tiles pq (LegalProperty pq) s.2.1 n

/-- While eight bytes are left there is a legal property, which a round reads and goes past. -/
theorem PropertiesInv.round {s : UInt16 × ℕ × Memory × (ℕ → Memory)}
    (h : PropertiesInv mem n s) :
  Reader.Within (· < n) (ntohPropertiesRound host s) mem (fun r =>
    ∀ s', r = .inr s' → PropertiesInv mem n s' ∧ s.2.1 < s'.2.1)
  := by
  obtain ⟨propertiesLength, ph, dst, beyonds⟩ := s
  obtain ⟨hleft, htiles⟩ := h
  simp only at hleft htiles
  by_cases hs : propertiesLength ≥ 8
  · have hmin := UInt16.le_iff_toNat_le.mp hs
    have height : UInt16.toNat 8 = 8 := rfl
    rcases htiles.cases_head with heq | ⟨q, ⟨hlegal, rfl⟩, hrest⟩
    · omega
    · have hle := tiles_le hrest
      have hpos := legalProperty_pos hlegal
      simp only [ntohPropertiesRound, hs, if_true, Reader.within_bind, Reader.within_pure]
      apply (ntohQueueProperty_within hlegal hle).mono
      rintro dst' - hlen s' heq
      obtain rfl := Sum.inr.inj heq
      simp only [hlen]
      exact ⟨⟨left_after hleft hle, hrest⟩, Nat.lt_add_of_pos_right hpos⟩
  · rw [ntohPropertiesRound, if_neg hs]
    exact Reader.within_pure.mpr (fun _ heq => by cases heq)

/-- The loop over tiles of legal properties ends and stays inside the queue. -/
theorem ntohProperties_inside {s : UInt16 × ℕ × Memory × (ℕ → Memory)}
    (h : PropertiesInv mem n s) :
  (Reader.loop (ntohPropertiesRound host) s).Ends mem ∧
    ∀ i, (Reader.loop (ntohPropertiesRound host) s).Reads mem i → i < n
  := by
  have hbound : ∀ t : UInt16 × ℕ × Memory × (ℕ → Memory), PropertiesInv mem n t → t.2.1 ≤ n :=
    fun t hinv => Nat.le_of_add_left_le hinv.left.le
  apply Reader.loop_inside _ (fun _ hinv => hinv.round) hbound h
  intro t _
  simp only [ntohPropertiesRound, Reader.ends_ite, Reader.ends_pure, implies_true, and_true]
  intro _
  exact (Reader.ends_bind_of_forall (fun _ => Reader.ends_pure)).mpr ntohQueueProperty_ends

/-- The length of a queue is decoded from its second field. -/
theorem short_convert_len {pq : Memory} :
  host.short (ofpPacketQueue.convert host.littleEndian (bytesAt pq 0 8)) 4 = be16 pq 4
  := by
  change host.short (reorder host.littleEndian [pq 0, pq 1, pq 2, pq 3]
    ++ (reorder host.littleEndian [pq 4, pq 5] ++ _)) 4 = _
  have hfour : 4 = (reorder host.littleEndian [pq 0, pq 1, pq 2, pq 3]).length + 0 := by simp
  have hhalf : reorder host.littleEndian [pq 4, pq 5] = host.half (be16 pq 4) := by
    rw [← htons_ofNat]
    rfl
  rw [hhalf, hfour, Host.short_append _ _ (by simp)]
  rw [← List.append_nil (host.half _)]
  exact Host.short_half

/-- Whether a property is legal is a matter of its first four bytes. -/
theorem legalProperty_congr {pq : Memory} {a : ℕ}
    (h : ∀ i < 8, pq (a + i) = mem (p + (a + i))) (hlegal : LegalProperty mem (p + a)) :
  LegalProperty pq a
  := by
  have htype : be16 pq a = be16 mem (p + a) := be16_congr (h 0 (by decide)) (h 1 (by decide))
  have hlen : be16 pq (a + 2) = be16 mem (p + a + 2) :=
    be16_congr (h 2 (by decide)) (h 3 (by decide))
  rw [LegalProperty, htype, hlen]
  exact hlegal

/-- A queue takes the bytes from `p` up to `q`: the first eight, and then tiles of legal
properties. -/
structure QueueTile (mem : Memory) (p q : ℕ) : Prop where
  min : 8 ≤ (be16 mem (p + 4)).toNat
  eq : q = p + (be16 mem (p + 4)).toNat
  properties : Tiles mem (LegalProperty mem) (p + 8) q

/-- Decoding a copy that holds tiles ends and stays inside the copy. -/
theorem ntohQueueFields_inside {beyonds : ℕ → Memory} (hlength : (be16 mem 4).toNat = n)
    (hmin : 8 ≤ n) (htiles : Tiles mem (LegalProperty mem) 8 n) :
  (ntohQueueFields host beyonds dst).Ends mem ∧
    ∀ i, (ntohQueueFields host beyonds dst).Reads mem i → i < n
  := by
  have hfields : (ofpPacketQueue.convert host.littleEndian (bytesAt mem 0 8)).length = 8 :=
    Struct.length_convert (Nat.le_refl 8)
  have hlen : host.short (bytesAt (stored dst 0
      (ofpPacketQueue.convert host.littleEndian (bytesAt mem 0 8))) 0 8) 4 = be16 mem 4 := by
    rw [bytesAt_stored hfields, short_convert_len]
  have hinv : PropertiesInv mem n (be16 mem 4 - 8, 8, stored dst 0
      (ofpPacketQueue.convert host.littleEndian (bytesAt mem 0 8)), beyonds) := by
    have height : 0 + UInt16.toNat 8 ≤ n := hmin
    exact ⟨left_after hlength height, htiles⟩
  obtain ⟨hends, hreads⟩ : _ ∧
      ∀ i, (Reader.loop (ntohPropertiesRound host) _).Reads mem i → i < n :=
    ntohProperties_inside hinv
  have hsize : ofpPacketQueue.size = 8 := rfl
  constructor
  · simp only [ntohQueueFields, ntohStruct, Reader.ends_bind, Reader.returns_bind,
      (yields_bcopy _ _).returns, Reader.returns_pure, exists_eq_left, hsize, hlen]
    exact hends
  · have hwithin : Reader.Within (· < n) (ntohQueueFields host beyonds dst) mem
        (fun _ => True) := by
      simp only [ntohQueueFields, Reader.within_bind,
        ntohStruct_within (show 0 + ofpPacketQueue.size ≤ n from hmin), hsize, hlen]
      exact ⟨hreads, fun _ _ => trivial⟩
    exact hwithin.1

/-- Decoding a queue that is a tile ends and stays inside the queue. -/
theorem ntohPacketQueue_inside {q : ℕ} (h : QueueTile mem p q) (beyond : Memory)
    (beyonds : ℕ → Memory) (dst : Memory) :
  (ntohPacketQueue host beyond beyonds dst p).Ends mem ∧
    ∀ i, (ntohPacketQueue host beyond beyonds dst p).Reads mem i → p ≤ i ∧ i < q
  := by
  obtain ⟨hmin, rfl, hproperties⟩ := h
  generalize hn : (be16 mem (p + 4)).toNat = n at hmin hproperties
  have hcopy : ∀ i < n, copyAt mem p n beyond i = mem (p + i) := by
    intro i hi
    apply if_pos hi
  have hlength : be16 (copyAt mem p n beyond) 4 = be16 mem (p + 4) :=
    be16_congr (hcopy 4 (by omega)) (hcopy 5 (by omega))
  have htiles : Tiles (copyAt mem p n beyond) (LegalProperty (copyAt mem p n beyond)) 8 n :=
    tiles_copy hcopy (fun _ => eight_le_of_legalProperty) (fun _ => legalProperty_congr)
      hproperties
  exact copied_inside hn (by omega)
    (ntohQueueFields_inside (by rw [hlength, hn]) hmin htiles) rfl

end

/-! ### Validating -/

section

variable {mem : Memory} {n p q k : ℕ} {length remaining : UInt16}

/-- The body of a message of `n` bytes is tiled by queues, and decoding any of them ends and
stays inside it. -/
structure QueueBodyOk (n : ℕ) (mem : Memory) : Prop where
  tiled : ReflTransGen (QueueTile mem) 16 n
  decodes : ∀ p q, ReflTransGen (QueueTile mem) 16 p → QueueTile mem p q → q ≤ n →
    ∀ (host : Host) (beyond : Memory) (beyonds : ℕ → Memory) (dst : Memory),
      (ntohPacketQueue host beyond beyonds dst p).Ends mem ∧
      ∀ i, (ntohPacketQueue host beyond beyonds dst p).Reads mem i → p ≤ i ∧ i < q

/-- The queue at `p` is not longer than what remains of the body, and its properties do not
come to their end anywhere but at its end. -/
structure QueueFits (mem : Memory) (remaining : UInt16) (p : ℕ) : Prop where
  max : be16 mem (p + 4) ≤ remaining
  properties : ∀ total,
    Taken mem (LegalProperty mem) (p + 8) (be16 mem (p + 4) - 8) total →
    ¬ UInt16.ofNat total < be16 mem (p + 4) - 8 → total = (be16 mem (p + 4) - 8).toNat

/-- The first `k` queues from `p` on are legal. -/
def QueuesLegal (mem : Memory) : ℕ → ℕ → Prop
  | _, 0 => True
  | p, k + 1 => LegalQueue mem p ∧ QueuesLegal mem (p + (be16 mem (p + 4)).toNat) k

theorem validatePacketQueues_accepts :
  Accepts (validatePacketQueues p k) mem ↔ QueuesLegal mem p k
  := by
  induction k generalizing p with
  | zero => simp [validatePacketQueues, QueuesLegal, accepts_pure]
  | succ k ih =>
      simp only [validatePacketQueues, QueuesLegal, accepts_passing, validatePacketQueue_accepts,
        accepts_bind, returns_ntohs, exists_eq_left, ih]

/-- A reply is accepted when its header and port are legal, the count of its queues comes out,
and all of them are legal. -/
theorem validateQueueGetConfigReply_returns_zero :
  (validateQueueGetConfigReply (some n)).Returns mem 0 ↔
    HeaderOk n mem ofptQueueGetConfigReply 24 ushrtMax.toNat ∧
      validatePhyPortNo (be16 mem 8) = 0 ∧
      ∃ p k, CountReached mem (be16 mem 2 - 16) 0 p k ∧ QueuesLegal mem 16 k
  := by
  simp only [validateQueueGetConfigReply, unlessNull_some, returns_zero_passing,
    validateHeader_accepts_iff (n := n) (show 8 ≤ 24 by decide)
      (show ofptQueueGetConfigReply ≤ ofptQueueGetConfigReply by decide),
    headerLength, Reader.returns_bind, Reader.returns_ite, Reader.returns_pure, returns_ntohs,
    exists_eq_left, accepts_pure, Int.not_lt, validatePhyPortNo_nonneg, Prod.exists,
    countQueues_returns_iff, validatePacketQueues_accepts, ne_eq]
  simp +decide only [and_false, false_or, and_true, not_not]
  apply and_congr_right
  intro _
  apply and_congr_right
  intro _
  constructor
  · rintro ⟨remaining, k, ⟨p, hcounted, -⟩, rfl, hlegal⟩
    use p, k, hcounted
    rcases hlegal with ⟨-, hlegal⟩ | hnone
    · exact hlegal
    · obtain rfl : k = 0 := Nat.eq_zero_of_not_pos hnone
      trivial
  · rintro ⟨p, k, hcounted, hlegal⟩
    refine ⟨0, k, ⟨p, hcounted, by decide⟩, rfl, ?_⟩
    by_cases hk : k > 0
    · exact .inl ⟨hk, hlegal⟩
    · exact .inr hk

theorem queueTiles_le (h : ReflTransGen (QueueTile mem) p q) :
  p ≤ q
  := by
  induction h with
  | refl => exact Nat.le_refl p
  | tail _ htile ih =>
      rw [htile.eq]
      omega

/-- What the length of a queue leaves for its properties. -/
theorem toNat_sub_eight (h : 8 ≤ (be16 mem (p + 4)).toNat) :
  p + 8 + (be16 mem (p + 4) - 8).toNat = p + (be16 mem (p + 4)).toNat
  := by
  have height : UInt16.toNat 8 = 8 := rfl
  have hleft := left_after (Nat.add_comm _ p) (Nat.add_le_add_left (height ▸ h) p)
  omega

theorem LegalQueue.eight_le (h : LegalQueue mem p) :
  8 ≤ (be16 mem (p + 4)).toNat
  := by
  have hmin := h.1
  rw [UInt16.lt_iff_toNat_lt] at hmin
  have hsixteen : UInt16.toNat 16 = 16 := rfl
  omega

/-- A legal queue that fits is a tile. -/
theorem LegalQueue.queueTile (h : LegalQueue mem p) (hfits : QueueFits mem remaining p) :
  QueueTile mem p (p + (be16 mem (p + 4)).toNat)
  := by
  refine ⟨h.eight_le, rfl, ?_⟩
  obtain ⟨offset, hreached, hend⟩ := h.2
  obtain ⟨total, htaken, rfl⟩ := reached_iff_taken.mp hreached
  obtain rfl := hfits.properties total htaken hend
  rw [← toNat_sub_eight h.eight_le]
  exact tiles_of_taken htaken (UInt16.toNat_lt _)

/-- The queue at the head of a tiling fits. -/
theorem QueueTile.fits (h : QueueTile mem p q) (hle : q ≤ p + remaining.toNat) :
  QueueFits mem remaining p
  := by
  obtain ⟨hmin, rfl, hproperties⟩ := h
  refine ⟨UInt16.le_iff_toNat_le.mpr (by omega), ?_⟩
  intro total htaken hend
  rw [← toNat_sub_eight hmin] at hproperties
  have hdone : ¬ UInt16.ofNat (be16 mem (p + 4) - 8).toNat < be16 mem (p + 4) - 8 := by
    rw [UInt16.ofNat_toNat]
    apply UInt16.lt_irrefl
  have htiles := taken_of_tiles (fun _ => legalProperty_pos) hproperties
  exact taken_end_unique htaken htiles hend hdone

/-- In a tiled body the count comes to tiles only. -/
theorem CountReached.on_tiles (hlength : length.toNat + 16 = n)
    (htiled : ReflTransGen (QueueTile mem) 16 n) (h : CountReached mem length remaining p k) :
  ReflTransGen (QueueTile mem) p n ∧ remaining.toNat + p = n
  := by
  induction h with
  | start => exact ⟨htiled, hlength⟩
  | @next remaining p _ _ hpos ih =>
      obtain ⟨hrest, hsum⟩ := ih
      rw [gt_iff_lt, UInt16.lt_iff_toNat_lt] at hpos
      rcases hrest.cases_head with heq | ⟨q, htile, hrest⟩
      · omega
      · obtain rfl := htile.eq
        exact ⟨hrest, left_after hsum (queueTiles_le hrest)⟩

/-- Queues are counted one by one. -/
theorem countVisits_le {s t : UInt16 × ℕ × ℕ} (h : Reader.Visits countQueuesRound mem s t) :
  s.2.2 ≤ t.2.2
  := by
  induction h with
  | refl => exact Nat.le_refl _
  | tail _ hround ih =>
      obtain ⟨-, rfl⟩ := round_countQueuesRound.mp hround
      exact Nat.le_succ_of_le ih

/-- When all queues fit, those that are counted up to the end of the body are tiles of it. The
induction is on the rest of the count. -/
theorem CountReached.tiled {s : UInt16 × ℕ × ℕ} {last : ℕ}
    (hvisits : Reader.Visits countQueuesRound mem s (0, last, k))
    (hs : CountReached mem length s.1 s.2.1 s.2.2)
    (hfits : ∀ remaining p j, CountReached mem length remaining p j → remaining > 8 →
      QueueFits mem remaining p) :
  ∀ m, s.2.2 + m = k → QueuesLegal mem s.2.1 m → s.1.toNat + s.2.1 = n →
    ReflTransGen (QueueTile mem) s.2.1 n
  := by
  induction hvisits using ReflTransGen.head_induction_on with
  | refl =>
      intro m _ _ hsum
      obtain rfl : last = n := by simpa using hsum
      exact .refl
  | @head s s' hround hrest ih =>
      obtain ⟨remaining, p, j⟩ := s
      obtain ⟨hpos, rfl⟩ := round_countQueuesRound.mp hround
      simp only at hpos hs ih ⊢
      intro m hm hlegal hsum
      have hle : j + 1 ≤ k := countVisits_le hrest
      obtain ⟨m, rfl⟩ : ∃ m', m = m' + 1 := ⟨m - 1, by omega⟩
      have hentry := hfits _ _ _ hs hpos
      have htile := hlegal.1.queueTile hentry
      have hmax := UInt16.le_iff_toNat_le.mp hentry.max
      apply ReflTransGen.head htile
      apply ih (.next hs hpos) m (by omega) hlegal.2
      rw [UInt16.toNat_sub_of_le _ _ hentry.max]
      omega

/-- The validator of queues makes sure of the tiling that the decoder relies on exactly when the
reply is rejected, for its header, its port, its count of queues or an illegal queue, or every
queue that is counted fits. -/
theorem validateQueueGetConfigReply_body_iff (n : ℕ) (mem : Memory) :
  ((validateQueueGetConfigReply (some n)).Returns mem 0 → QueueBodyOk n mem) ↔
    (HeaderOk n mem ofptQueueGetConfigReply 24 ushrtMax.toNat →
      validatePhyPortNo (be16 mem 8) = 0 →
      (∃ p k, CountReached mem (be16 mem 2 - 16) 0 p k ∧ QueuesLegal mem 16 k) →
      ∀ remaining p k, CountReached mem (be16 mem 2 - 16) remaining p k → remaining > 8 →
        QueueFits mem remaining p)
  := by
  rw [validateQueueGetConfigReply_returns_zero, and_imp, and_imp]
  apply imp_congr_right
  intro hheader
  apply imp_congr_right
  intro _
  apply imp_congr_right
  rintro ⟨last, k, hlast, hlegal⟩
  have hlength : (be16 mem 2 - 16).toNat + 16 = n := by
    have hmin := hheader.min
    have hsixteen : UInt16.toNat 16 = 16 := rfl
    rw [hheader.length_sub (by decide)]
    omega
  constructor
  · rintro ⟨htiled, -⟩ remaining p j hreached hpos
    obtain ⟨hrest, hsum⟩ := hreached.on_tiles hlength htiled
    rw [gt_iff_lt, UInt16.lt_iff_toNat_lt] at hpos
    rcases hrest.cases_head with heq | ⟨q, htile, hrest⟩
    · omega
    · apply htile.fits
      have hle := queueTiles_le hrest
      omega
  · intro hfits
    have hvisits : Reader.Visits countQueuesRound mem (be16 mem 2 - 16, 16, 0) (0, last, k) :=
      visits_countQueuesRound.mpr hlast
    refine ⟨?_, fun p q _ htile _ host beyond beyonds dst => ?_⟩
    · exact CountReached.tiled hvisits .start hfits k (Nat.zero_add k) hlegal hlength
    · exact ntohPacketQueue_inside htile beyond beyonds dst

end

/-- A queue configuration reply of 36 bytes for the port one, whose queue of 20 bytes has a
property of 16 bytes behind its first eight. -/
def longQueueConfig : Memory := fun i =>
  [1, 21, 0, 36, 0, 0, 0, 0, 0, 1, 0, 0, 0, 0, 0, 0, 0, 0, 0, 0, 0, 20, 0, 0, 0, 1, 0, 16].getD i 0

/-- A property that passes the end of its queue is accepted. -/
theorem validateQueueGetConfigReply_body_long :
  ¬ ∀ (n : ℕ) (mem : Memory),
    (validateQueueGetConfigReply (some n)).Returns mem 0 → QueueBodyOk n mem
  := by
  intro h
  have hproperty : LegalProperty longQueueConfig 24 := .inr (by decide)
  have hlegal : LegalQueue longQueueConfig 16 :=
    ⟨by decide, _, .next .start (by decide) hproperty, by decide⟩
  have hcounted : CountReached longQueueConfig 20 0 36 1 := .next .start (by decide)
  have hreturns : (validateQueueGetConfigReply (some 36)).Returns longQueueConfig 0 := by
    apply validateQueueGetConfigReply_returns_zero.mpr
    exact ⟨⟨by decide, by decide, by decide, by decide, by decide⟩, by decide, 36, 1, hcounted,
      hlegal, trivial⟩
  obtain ⟨htiled, -⟩ := h 36 longQueueConfig hreturns
  have hstart : CountReached longQueueConfig 20 20 16 0 := .start
  obtain ⟨hrest, -⟩ := hstart.on_tiles (by decide) htiled
  rcases hrest.cases_head with heq | ⟨q, htile, -⟩
  · cases heq
  · have hfits : QueueFits longQueueConfig 20 16 :=
      htile.fits (Nat.le_of_eq htile.eq)
    have hsixteen := hfits.properties 16 (.tail .refl ⟨by decide, hproperty, by decide⟩) (by decide)
    exact absurd hsixteen (by decide)

end CcController
