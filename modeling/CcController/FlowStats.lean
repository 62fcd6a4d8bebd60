import CcController.Acceptance
import CcController.OfAction

/-!
# Flow statistics replies

`ntohFlowStats` decodes an entry by walking over its actions with the lengths that stand in
them. It ends and stays inside the entry when legal actions take the bytes of the entry behind
the first 88 (`ntohFlowStats_inside`), and relies on the validator for that.

The validator compares the lengths in a reply only with zero, so it accepts entries that are too
short or reach over the end of the reply, and actions that reach over the end of their entry.
`validateFlowStatsReply_body_iff` says that nothing else is wrong with it.
-/

open Relation

namespace CcController

/-! ### Decoding -/

/-- What is in memory after `bytes` have been stored at `p`. -/
def stored (dst : Memory) (p : ℕ) (bytes : List UInt8) : Memory :=
  fun i => if p ≤ i ∧ i < p + bytes.length then bytes.getD (i - p) 0 else dst i

/-- One round of the loop over the actions of an entry: `actionsLength` bytes are left, and the
next action is at `ah`, in the entry as in its copy. Nothing is stored for an undefined
action, so its length is what was there before. -/
def ntohFlowActionsRound (host : Host) (s : UInt16 × ℕ × Memory) :
    MessageReader (Memory ⊕ UInt16 × ℕ × Memory) :=
  let (actionsLength, ah, dst) := s
  if actionsLength ≥ 8 then do
    let action ← ntohAction host ah
    let dst := match action with
      | some bytes => stored dst ah bytes
      | none => dst
    let len := host.short (bytesAt dst ah 4) 2
    pure (.inr (actionsLength - len, ah + len.toNat, dst))
  else pure (.inl dst)

/-- What `ntohFlowStats` does with the copy `fs` of the entry, the memory it reads. -/
def ntohFlowFields (host : Host) (dst : Memory) : MessageReader Memory := do
  let fields ← ntohStruct host ofpFlowStats 0
  let length ← ntohs 0
  Reader.loop (ntohFlowActionsRound host) (length - 88, 88, stored dst 0 fields)

/-- The entry at `src`, put into `dst`. It is copied into a block of its own first; `beyond` is
what lies behind that block. Reading a byte of the block counts as reading the byte of the
entry it is a copy of. -/
def ntohFlowStats (host : Host) (beyond dst : Memory) (src : ℕ) : MessageReader Memory := do
  let length ← ntohs src
  let _ ← bcopy src length.toNat
  Reader.via (src + ·) (fun i byte => if i < length.toNat then byte else beyond i)
    (ntohFlowFields host dst)

/-- The copy of the `n` bytes at `p`, with `beyond` behind. -/
abbrev copyAt (mem : Memory) (p n : ℕ) (beyond : Memory) : Memory :=
  Reader.view (p + ·) (fun i byte => if i < n then byte else beyond i) mem

section

variable {host : Host} {mem : Memory} {n p : ℕ}

/-- The length of an action is decoded from its second field. -/
theorem short_convert {layout : Struct} (htype : layout[0]? = some (.number 2))
    (hlen : layout[1]? = some (.number 2)) {after : List UInt8} :
  host.short (layout.convert host.littleEndian (bytesAt mem p layout.size) ++ after) 2
    = be16 mem (p + 2)
  := by
  match layout, htype, hlen with
  | _ :: _ :: rest, rfl, rfl =>
      have hsize : Struct.size (.number 2 :: .number 2 :: rest) = Struct.size rest + 4 := by
        rw [Struct.size_cons, Struct.size_cons, Struct.Field.size]
        omega
      rw [hsize]
      change host.short ((reorder host.littleEndian [mem p, mem (p + 1)]
        ++ (reorder host.littleEndian [mem (p + 2), mem (p + 3)] ++ _)) ++ after) 2 = _
      rw [← htons_ofNat, ← htons_ofNat, List.append_assoc, List.append_assoc]
      exact Host.short_half_two

theorem ntohStruct_within {layout : Struct} {Q : List UInt8 → Prop} (hle : p + layout.size ≤ n) :
  Reader.Within (· < n) (ntohStruct host layout p) mem Q ↔
    Q (layout.convert host.littleEndian (bytesAt mem p layout.size))
  := by
  simp [ntohStruct, within_bcopy, hle]

/-- The structure that a defined action of the right length is copied by. -/
theorem actionStruct_of_size {type len : UInt16} (h : actionSize type = some len) :
  ∃ layout, actionStruct type = some layout ∧ layout.size = len.toNat
  := by
  rcases actionType_cases type with rfl | rfl | rfl | rfl | rfl | rfl | rfl | rfl | rfl | rfl
    | rfl | rfl | rfl | hnone
  case inr.inr.inr.inr.inr.inr.inr.inr.inr.inr.inr.inr.inr =>
    simp [actionSize, hnone] at h
  case inr.inr.inr.inr.inr.inr.inr.inr.inr.inr.inr.inr.inl =>
    cases h
  all_goals
    obtain rfl := Option.some.inj h
    exact ⟨_, rfl, rfl⟩

/-- Copying a legal action reads inside it, and stores its length. -/
theorem ntohAction_within (h : LegalAction mem p) (hle : p + (be16 mem (p + 2)).toNat ≤ n) :
  Reader.Within (· < n) (ntohAction host p) mem (fun r => ∃ bytes, r = some bytes ∧
    host.short bytes 2 = be16 mem (p + 2) ∧ 4 ≤ bytes.length)
  := by
  have hpos := legalAction_pos h
  rcases h with ⟨htype, hlen⟩ | ⟨hsize, -⟩
  · rw [UInt16.le_iff_toNat_le] at hlen
    have height : UInt16.toNat 8 = 8 := rfl
    have hbody : vendorBodyLength (be16 mem (p + 2)) = (be16 mem (p + 2)).toNat - 8 :=
      vendorBodyLength_toNat hlen
    have hvendor : ofpActionVendorHeader.size = 8 := rfl
    have hshort : ∀ after, host.short (ofpActionVendorHeader.convert host.littleEndian
        (bytesAt mem p ofpActionVendorHeader.size) ++ after) 2 = be16 mem (p + 2) :=
      fun after => short_convert rfl rfl
    have hfirst := hshort []
    rw [List.append_nil] at hfirst
    have hnone : actionStruct ofpatVendor = none := by decide
    have hconvert : (ofpActionVendorHeader.convert host.littleEndian
        (bytesAt mem p ofpActionVendorHeader.size)).length = 8 :=
      Struct.length_convert (by simp [bytesAt])
    simp only [ntohAction, Reader.within_bind, within_ntohs, htype, hnone, if_true,
      ntohActionVendor, Reader.within_pure, within_bcopy]
    refine ⟨by omega, (ntohStruct_within (by omega)).mpr ⟨?_, ?_⟩⟩
    · rw [hfirst, hbody]
      omega
    · refine ⟨_, rfl, hshort _, ?_⟩
      rw [List.length_append, hconvert]
      omega
  · obtain ⟨layout, hstruct, hlayout⟩ := actionStruct_of_size hsize
    obtain ⟨hfirst, hsecond, hmin, -⟩ := actionStruct_some hstruct
    have hshort : host.short (layout.convert host.littleEndian (bytesAt mem p layout.size) ++ []) 2
        = be16 mem (p + 2) := short_convert hfirst hsecond
    rw [List.append_nil] at hshort
    simp only [ntohAction, Reader.within_bind, within_ntohs, hstruct, Reader.within_pure]
    refine ⟨by omega, (ntohStruct_within (by omega)).mpr ⟨_, rfl, hshort, ?_⟩⟩
    rw [Struct.length_convert (by simp [bytesAt])]
    omega

/-- Copying an action ends. -/
theorem ntohAction_ends :
  (ntohAction host p).Ends mem
  := by
  have hstruct : ∀ layout, ∃ bytes, (ntohStruct host layout p).Returns mem bytes := by
    intro layout
    simp [ntohStruct, (yields_bcopy _ _).returns]
  simp only [ntohAction, Reader.ends_bind, returns_ntohs, exists_eq_left]
  cases actionStruct (be16 mem p) with
  | some layout =>
      obtain ⟨bytes, hbytes⟩ := hstruct layout
      exact Reader.ends_bind.mpr ⟨bytes, hbytes, Reader.ends_pure⟩
  | none =>
      simp only [Reader.ends_ite, Reader.ends_pure, implies_true, and_true]
      intro _
      apply (Reader.ends_bind_of_forall (fun _ => Reader.ends_pure)).mpr
      obtain ⟨bytes, hbytes⟩ := hstruct ofpActionVendorHeader
      apply Reader.ends_bind.mpr ⟨bytes, hbytes, _⟩
      simp [Reader.ends_bind, (yields_bcopy _ _).returns]

end

/-! ### Decoding tiles -/

section

variable {host : Host} {mem fs : Memory} {n p q : ℕ}

theorem short_stored {dst : Memory} {bytes : List UInt8} (h : 4 ≤ bytes.length) :
  host.short (bytesAt (stored dst p bytes) p 4) 2 = host.short bytes 2
  := by
  match bytes, h with
  | a :: b :: c :: d :: rest, _ =>
      have hbyte : ∀ k < 4, stored dst p (a :: b :: c :: d :: rest) (p + k)
          = (a :: b :: c :: d :: rest).getD k 0 := by
        intro k hk
        rw [stored, if_pos ⟨by omega, by simp only [List.length_cons]; omega⟩,
          Nat.add_sub_cancel_left]
      have hbytes : bytesAt (stored dst p (a :: b :: c :: d :: rest)) p 4 = [a, b, c, d] := by
        change [stored _ _ _ (p + 0), stored _ _ _ (p + 1), stored _ _ _ (p + 2),
          stored _ _ _ (p + 3)] = _
        rw [hbyte 0 (by decide), hbyte 1 (by decide), hbyte 2 (by decide), hbyte 3 (by decide)]
        rfl
      rw [hbytes]
      rfl

/-- The actions from `ah` on take the rest of the entry, which is what is left. -/
structure DecodeInv (fs : Memory) (n : ℕ) (s : UInt16 × ℕ × Memory) : Prop where
  left : s.1.toNat + s.2.1 = n
  tiles : Tiles fs (LegalAction fs) s.2.1 n

/-- While eight bytes are left there is a legal action, which a round reads and goes past. -/
theorem DecodeInv.round {s : UInt16 × ℕ × Memory} (h : DecodeInv fs n s) (hs : s.1 ≥ 8) :
  Reader.Within (· < n) (ntohFlowActionsRound host s) fs (fun r =>
    ∃ s', r = .inr s' ∧ DecodeInv fs n s' ∧ s.2.1 < s'.2.1)
  := by
  obtain ⟨actionsLength, ah, dst⟩ := s
  obtain ⟨hleft, htiles⟩ := h
  simp only at hs hleft htiles
  have height : UInt16.toNat 8 = 8 := rfl
  have hmin := UInt16.le_iff_toNat_le.mp hs
  rcases htiles.cases_head with heq | ⟨q, ⟨hlegal, rfl⟩, hrest⟩
  · omega
  · have hle := tiles_le hrest
    have hpos := legalAction_pos hlegal
    simp only [ntohFlowActionsRound, hs, if_true, Reader.within_bind, Reader.within_pure]
    apply (ntohAction_within hlegal hle).mono
    rintro r - ⟨bytes, rfl, hlen, hfour⟩
    simp only [short_stored hfour, hlen]
    exact ⟨_, rfl, ⟨left_after hleft hle, hrest⟩, Nat.lt_add_of_pos_right hpos⟩

/-- The loop over tiles of legal actions ends and stays inside the entry. -/
theorem ntohFlowActions_inside {s : UInt16 × ℕ × Memory} (h : DecodeInv fs n s) :
  (Reader.loop (ntohFlowActionsRound host) s).Ends fs ∧
    ∀ i, (Reader.loop (ntohFlowActionsRound host) s).Reads fs i → i < n
  := by
  have hbound : ∀ t : UInt16 × ℕ × Memory, DecodeInv fs n t → t.2.1 ≤ n :=
    fun t hinv => Nat.le_of_add_left_le hinv.left.le
  apply Reader.loop_inside _ _ hbound h
  · intro t _
    simp only [ntohFlowActionsRound, Reader.ends_ite, Reader.ends_pure, implies_true, and_true]
    intro _
    apply (Reader.ends_bind_of_forall (fun _ => Reader.ends_pure)).mpr ntohAction_ends
  · intro t hinv
    by_cases ht : t.1 ≥ 8
    · apply (hinv.round ht).mono
      rintro r - ⟨t', rfl, hinv', hlt⟩ t'' heq
      obtain rfl := Sum.inr.inj heq
      exact ⟨hinv', hlt⟩
    · rw [ntohFlowActionsRound, if_neg ht]
      exact Reader.within_pure.mpr (fun _ heq => by cases heq)

/-- A reader that works on a copy, whose length it reads first, ends and stays inside what is
copied when it does so on the copy. -/
theorem copied_inside {α : Type} {m : MessageReader α} {beyond : Memory} {o : ℕ}
    (hn : (be16 mem (p + o)).toNat = n) (ho : o + 2 ≤ n)
    (h : m.Ends (copyAt mem p n beyond) ∧ ∀ i, m.Reads (copyAt mem p n beyond) i → i < n)
    {copied : MessageReader α} (hcopied : copied = (do
      let len ← ntohs (p + o)
      let _ ← bcopy p len.toNat
      Reader.via (p + ·) (fun i byte => if i < len.toNat then byte else beyond i) m)) :
  copied.Ends mem ∧ ∀ i, copied.Reads mem i → p ≤ i ∧ i < p + n
  := by
  obtain ⟨hends, hreads⟩ := h
  subst hcopied
  constructor
  · simp only [Reader.ends_bind, returns_ntohs, exists_eq_left, (yields_bcopy _ _).returns, hn,
      Reader.ends_via]
    exact hends
  · intro i hi
    simp only [Reader.reads_bind, returns_ntohs, exists_eq_left, (yields_bcopy _ _).returns,
      (yields_ntohs _).reads, (yields_bcopy _ _).reads, Reader.reads_via, hn, List.mem_range'_1,
      List.mem_cons, List.not_mem_nil, or_false] at hi
    rcases hi with hi | hi | ⟨j, hj, rfl⟩
    · omega
    · exact hi
    · have hlt := hreads j hj
      omega

/-- An entry takes the bytes from `p` up to `q`: the first 88, and then tiles of legal
actions. -/
structure FlowTile (mem : Memory) (p q : ℕ) : Prop where
  min : 88 ≤ (be16 mem p).toNat
  eq : q = p + (be16 mem p).toNat
  actions : Tiles mem (LegalAction mem) (p + 88) q

theorem be16_congr {a : ℕ} (hfirst : fs a = mem (p + a))
    (hsecond : fs (a + 1) = mem (p + (a + 1))) :
  be16 fs a = be16 mem (p + a)
  := by
  rw [be16, be16, hfirst, hsecond, Nat.add_assoc]

/-- Whether an action is legal is a matter of its first eight bytes. -/
theorem legalAction_congr {a : ℕ} (h : ∀ i < 8, fs (a + i) = mem (p + (a + i)))
    (hlegal : LegalAction mem (p + a)) :
  LegalAction fs a
  := by
  have htype : be16 fs a = be16 mem (p + a) := be16_congr (h 0 (by decide)) (h 1 (by decide))
  have hlen : be16 fs (a + 2) = be16 mem (p + a + 2) :=
    be16_congr (h 2 (by decide)) (h 3 (by decide))
  have harg : be16 fs (a + 4) = be16 mem (p + a + 4) :=
    be16_congr (h 4 (by decide)) (h 5 (by decide))
  have hbyte : fs (a + 4) = mem (p + a + 4) := h 4 (by decide)
  rw [LegalAction, LegalArgs] at hlegal ⊢
  rw [htype, hlen, harg, hbyte]
  exact hlegal

/-- The tiles of an entry are tiles of its copy, when whether one is legal is a matter of its
first eight bytes. -/
theorem tiles_copy {Legal Legal' : ℕ → Prop} (hcopy : ∀ i < n, fs i = mem (p + i))
    (hlen : ∀ a, Legal a → 8 ≤ (be16 mem (a + 2)).toNat)
    (hcongr : ∀ a, (∀ i < 8, fs (a + i) = mem (p + (a + i))) → Legal (p + a) → Legal' a) {a : ℕ}
    (h : Tiles mem Legal (p + a) (p + n)) :
  Tiles fs Legal' a n
  := by
  have hfrom : ∀ x, Tiles mem Legal x (p + n) → ∀ a, x = p + a → Tiles fs Legal' a n := by
    intro x hx
    induction hx using ReflTransGen.head_induction_on with
    | refl =>
        intro a heq
        obtain rfl : n = a := by omega
        exact .refl
    | @head x y hfills hrest ih =>
        rintro a rfl
        obtain ⟨hlegal, rfl⟩ := hfills
        have hmin := hlen _ hlegal
        have hle := tiles_le hrest
        have hlegal' : Legal' a := hcongr a (fun i hi => hcopy _ (by omega)) hlegal
        have heq : be16 fs (a + 2) = be16 mem (p + a + 2) :=
          be16_congr (hcopy _ (by omega)) (hcopy _ (by omega))
        exact .head ⟨hlegal', rfl⟩ (ih _ (by rw [heq]; omega))
  exact hfrom _ h a rfl

/-- Decoding a copy that holds tiles ends and stays inside the copy. -/
theorem ntohFlowFields_inside {dst : Memory} (hlength : (be16 fs 0).toNat = n) (hmin : 88 ≤ n)
    (htiles : Tiles fs (LegalAction fs) 88 n) :
  (ntohFlowFields host dst).Ends fs ∧ ∀ i, (ntohFlowFields host dst).Reads fs i → i < n
  := by
  have hfields : 0 + ofpFlowStats.size ≤ n := hmin
  have hinv : DecodeInv fs n (be16 fs 0 - 88, 88,
      stored dst 0 (ofpFlowStats.convert host.littleEndian (bytesAt fs 0 ofpFlowStats.size))) := by
    have heighty : 0 + UInt16.toNat 88 ≤ n := hmin
    exact ⟨left_after hlength heighty, htiles⟩
  obtain ⟨hends, hreads⟩ : _ ∧
      ∀ i, (Reader.loop (ntohFlowActionsRound host) _).Reads fs i → i < n :=
    ntohFlowActions_inside hinv
  constructor
  · simp only [ntohFlowFields, ntohStruct, Reader.ends_bind, returns_ntohs, exists_eq_left,
      Reader.returns_bind, (yields_bcopy _ _).returns, Reader.returns_pure]
    exact hends
  · have hwithin : Reader.Within (· < n) (ntohFlowFields host dst) fs (fun _ => True) := by
      simp only [ntohFlowFields, Reader.within_bind, ntohStruct_within hfields, within_ntohs]
      exact ⟨by omega, hreads, fun _ _ => trivial⟩
    exact hwithin.1

/-- Decoding an entry that is a tile ends and stays inside the entry. -/
theorem ntohFlowStats_inside (h : FlowTile mem p q) (beyond dst : Memory) :
  (ntohFlowStats host beyond dst p).Ends mem ∧
    ∀ i, (ntohFlowStats host beyond dst p).Reads mem i → p ≤ i ∧ i < q
  := by
  obtain ⟨hmin, rfl, hactions⟩ := h
  generalize hn : (be16 mem p).toNat = n at hmin hactions
  have hcopy : ∀ i < n, copyAt mem p n beyond i = mem (p + i) := by
    intro i hi
    apply if_pos hi
  have hlength : be16 (copyAt mem p n beyond) 0 = be16 mem p :=
    be16_congr (hcopy 0 (by omega)) (hcopy 1 (by omega))
  have htiles : Tiles (copyAt mem p n beyond) (LegalAction (copyAt mem p n beyond)) 88 n :=
    tiles_copy hcopy (fun _ => eight_le_of_legalAction) (fun _ => legalAction_congr) hactions
  exact copied_inside (o := 0) hn (by omega)
    (ntohFlowFields_inside (by rw [hlength, hn]) hmin htiles) rfl

end

/-! ### Validating -/

section

variable {mem : Memory} {n p q : ℕ} {length remaining : UInt16}

/-- The body of a message of `n` bytes is tiled by entries, and decoding any of them ends and
stays inside it. -/
structure FlowBodyOk (n : ℕ) (mem : Memory) : Prop where
  tiled : ReflTransGen (FlowTile mem) 12 n
  decodes : ∀ p q, ReflTransGen (FlowTile mem) 12 p → FlowTile mem p q → q ≤ n →
    ∀ (host : Host) (beyond dst : Memory), (ntohFlowStats host beyond dst p).Ends mem ∧
      ∀ i, (ntohFlowStats host beyond dst p).Reads mem i → p ≤ i ∧ i < q

/-- The entry at `p` is as long as the fields before its actions, is not longer than what
remains of the body, and its actions do not come to their end anywhere but at its end. -/
structure FlowFits (mem : Memory) (remaining : UInt16) (p : ℕ) : Prop where
  min : 88 ≤ be16 mem p
  max : be16 mem p ≤ remaining
  actions : ∀ total, Taken mem (LegalAction mem) (p + 88) (be16 mem p - 88) total →
    ¬ UInt16.ofNat total < be16 mem p - 88 → total = (be16 mem p - 88).toNat

theorem flowTiles_le (h : ReflTransGen (FlowTile mem) p q) :
  p ≤ q
  := by
  induction h with
  | refl => exact Nat.le_refl p
  | tail _ htile ih =>
      rw [htile.eq]
      omega

theorem toNat_sub_heighty (h : 88 ≤ (be16 mem p).toNat) :
  p + 88 + (be16 mem p - 88).toNat = p + (be16 mem p).toNat
  := by
  have heighty : UInt16.toNat 88 = 88 := rfl
  have hleft := left_after (Nat.add_comm _ p) (Nat.add_le_add_left (heighty ▸ h) p)
  omega

/-- A legal entry that fits is a tile. -/
theorem LegalFlow.flowTile (h : LegalFlow mem p) (hfits : FlowFits mem remaining p) :
  FlowTile mem p (p + (be16 mem p).toNat)
  := by
  have hmin := UInt16.le_iff_toNat_le.mp hfits.min
  have hends : WalkEnds mem (LegalAction mem) (p + 88) (be16 mem p - 88) := by
    by_cases hpos : be16 mem p - 88 > 0
    · exact h.actions hpos
    · exact ⟨0, .start, hpos⟩
  refine ⟨hmin, rfl, ?_⟩
  obtain ⟨offset, hreached, hend⟩ := hends
  obtain ⟨total, htaken, rfl⟩ := reached_iff_taken.mp hreached
  obtain rfl := hfits.actions total htaken hend
  rw [← toNat_sub_heighty hmin]
  exact taken_length_iff.mpr htaken

/-- The entry at the head of a tiling fits. -/
theorem FlowTile.fits (h : FlowTile mem p q) (hle : q ≤ p + remaining.toNat) :
  FlowFits mem remaining p
  := by
  obtain ⟨hmin, rfl, hactions⟩ := h
  refine ⟨UInt16.le_iff_toNat_le.mpr hmin, UInt16.le_iff_toNat_le.mpr (by omega), ?_⟩
  intro total htaken hend
  rw [← toNat_sub_heighty hmin] at hactions
  have hdone : ¬ UInt16.ofNat (be16 mem p - 88).toNat < be16 mem p - 88 := by
    rw [UInt16.ofNat_toNat]
    apply UInt16.lt_irrefl
  apply taken_end_unique htaken (taken_length_iff.mp hactions) hend hdone

theorem validateFlowStatsReply_returns_zero :
  (validateFlowStatsReply (some n)).Returns mem 0 ↔
    HeaderOk n mem ofptStatsReply 12 ushrtMax.toNat ∧ be16 mem 10 &&& ~~~ofpsfReplyMore = 0 ∧
      ∃ p, FlowReached mem (be16 mem 2 - 12) 0 p
  := by
  have hloop : (Reader.loop validateFlowStatsRound (be16 mem 2 - 12, 12)).Returns mem 0 ↔
      ∃ p, FlowReached mem (be16 mem 2 - 12) 0 p := by
    simp only [Reader.returns_loop, Prod.exists, visits_validateFlowStatsRound,
      validateFlowStatsRound, Reader.returns_ite, Reader.returns_bind, Reader.returns_pure,
      Sum.inl.injEq, reduceCtorEq, and_false, exists_false, or_false]
    constructor
    · rintro ⟨remaining, p, hreached, ⟨-, ret, -, hneg, rfl⟩ | ⟨hzero, -⟩⟩
      · cases hneg
      · obtain rfl : remaining = 0 := by
          rw [gt_iff_lt, UInt16.lt_iff_toNat_lt] at hzero
          rw [← UInt16.toNat_inj]
          have hnil : UInt16.toNat 0 = 0 := rfl
          omega
        exact ⟨p, hreached⟩
    · rintro ⟨p, hreached⟩
      exact ⟨0, p, hreached, .inr ⟨by decide, trivial⟩⟩
  rw [validateFlowStatsReply, validateStatsReplyOf_returns_zero]
  simp only [headerLength, Reader.returns_bind, returns_ntohs, exists_eq_left, hloop]

/-- When all entries fit, those before a place of the walk are tiles, and what remains is the
rest of the body. -/
theorem FlowReached.tiled (hlength : length.toNat + 12 = n)
    (hfits : ∀ remaining p, FlowReached mem length remaining p → remaining > 0 →
      FlowFits mem remaining p)
    (h : FlowReached mem length remaining p) :
  ReflTransGen (FlowTile mem) 12 p ∧ remaining.toNat + p = n
  := by
  induction h with
  | start => exact ⟨.refl, hlength⟩
  | next hreached hpos hlegal ih =>
      have hentry := hfits _ _ hreached hpos
      obtain ⟨htiled, hrest⟩ := ih
      use htiled.tail (hlegal.flowTile hentry)
      rw [UInt16.toNat_sub_of_le _ _ hentry.max]
      have hmax := UInt16.le_iff_toNat_le.mp hentry.max
      omega

/-- In a tiled body the walk comes to tiles only. -/
theorem FlowReached.on_tiles (hlength : length.toNat + 12 = n)
    (htiled : ReflTransGen (FlowTile mem) 12 n) (h : FlowReached mem length remaining p) :
  ReflTransGen (FlowTile mem) p n ∧ remaining.toNat + p = n
  := by
  induction h with
  | start => exact ⟨htiled, hlength⟩
  | @next remaining p _ hpos _ ih =>
      obtain ⟨hrest, hsum⟩ := ih
      rw [gt_iff_lt, UInt16.lt_iff_toNat_lt] at hpos
      rcases hrest.cases_head with heq | ⟨q, htile, hrest⟩
      · omega
      · obtain rfl := htile.eq
        exact ⟨hrest, left_after hsum (flowTiles_le hrest)⟩

/-- The validator of flow statistics makes sure of the tiling that the decoder relies on
exactly when the reply is rejected, for its header, its flags or an illegal entry, or every
entry that the walk comes to fits. -/
theorem validateFlowStatsReply_body_iff (n : ℕ) (mem : Memory) :
  ((validateFlowStatsReply (some n)).Returns mem 0 → FlowBodyOk n mem) ↔
    (HeaderOk n mem ofptStatsReply 12 ushrtMax.toNat → be16 mem 10 &&& ~~~ofpsfReplyMore = 0 →
      (∃ p, FlowReached mem (be16 mem 2 - 12) 0 p) →
      ∀ remaining p, FlowReached mem (be16 mem 2 - 12) remaining p → remaining > 0 →
        FlowFits mem remaining p)
  := by
  rw [validateFlowStatsReply_returns_zero, and_imp, and_imp]
  apply imp_congr_right
  intro hheader
  apply imp_congr_right
  intro _
  apply imp_congr_right
  rintro ⟨last, hlast⟩
  have hlength : (be16 mem 2 - 12).toNat + 12 = n := by
    have hmin := hheader.min
    have htwelve : UInt16.toNat 12 = 12 := rfl
    rw [hheader.length_sub (by decide)]
    omega
  constructor
  · rintro ⟨htiled, -⟩ remaining p hreached hpos
    obtain ⟨hrest, hsum⟩ := hreached.on_tiles hlength htiled
    rw [gt_iff_lt, UInt16.lt_iff_toNat_lt] at hpos
    rcases hrest.cases_head with heq | ⟨q, htile, hrest⟩
    · omega
    · apply htile.fits
      have hle := flowTiles_le hrest
      omega
  · intro hfits
    obtain ⟨htiled, hsum⟩ := hlast.tiled hlength hfits
    obtain rfl : last = n := by simpa using hsum
    refine ⟨htiled, fun p q _ htile _ host beyond dst => ?_⟩
    apply ntohFlowStats_inside htile

end

/-- A flow statistics reply of 108 bytes, with an entry that declares a length of eight and
another right behind those eight bytes. The last eight bytes of the other are also a vendor
action of the first, of 65456 bytes. -/
def shortFlowStats : Memory := fun i =>
  [1, 17, 0, 108, 0, 0, 0, 0, 0, 1, 0, 0, 0, 8, 0, 0, 0, 0, 0, 1, 0, 88, 0, 0, 0, 0, 0, 1].getD i
    (if i = 100 ∨ i = 101 ∨ i = 102 then 255 else if i = 103 then 176 else 0)

/-- An entry shorter than its fields is accepted. -/
theorem validateFlowStatsReply_body_short :
  ¬ ∀ (n : ℕ) (mem : Memory), (validateFlowStatsReply (some n)).Returns mem 0 → FlowBodyOk n mem
  := by
  intro h
  have hfirst : LegalFlow shortFlowStats 12 := by
    refine ⟨by decide, by decide, fun _ => ?_⟩
    exact ⟨_, .next .start (by decide) (.inl (by decide)), by decide⟩
  have hsecond : LegalFlow shortFlowStats 20 :=
    ⟨by decide, by decide, fun hpos => absurd hpos (by decide)⟩
  have hreached : FlowReached shortFlowStats 96 0 108 :=
    .next (.next .start (by decide) hfirst) (by decide) hsecond
  have hzero : (validateFlowStatsReply (some 108)).Returns shortFlowStats 0 :=
    validateFlowStatsReply_returns_zero.mpr ⟨⟨by decide, by decide, by decide, by decide,
      by decide⟩, by decide, 108, hreached⟩
  rcases (h 108 shortFlowStats hzero).tiled.cases_head with heq | ⟨q, htile, -⟩
  · cases heq
  · exact absurd htile.min (by decide)

end CcController
