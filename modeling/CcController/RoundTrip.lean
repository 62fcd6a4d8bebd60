import CcController.PacketQueues
import CcController.ReplyAccepted

/-!
# Out of memory and back

A flow entry or a queue is put into a message by one loop and copied out of it by another. The
first takes each step from the length that the host has stored, the second from the length that
it has just decoded. Both come to the end of the entry with nothing left, and what has been
copied out is what was put in, but for the padding.
-/

open Relation

namespace CcController

section

variable {mem beyond dst : Memory} {p n a : ℕ} {bytes : List UInt8}

/-- What is held by the memory is held by the copy. -/
theorem holds_copyAt (h : Holds mem (p + a) bytes) (hn : a + bytes.length ≤ n) :
  Holds (copyAt mem p n beyond) a bytes
  := by
  apply h.congr
  intro i hi
  rw [Nat.add_assoc]
  exact if_pos (by omega)

/-- Some of the bytes at a place. -/
theorem bytesAt_part {j k : ℕ} (hle : j + k ≤ n) :
  ((bytesAt mem p n).drop j).take k = bytesAt mem (p + j) k
  := by
  apply List.ext_getElem
  · simp [bytesAt]
    omega
  · intro i hi hi'
    simp [bytesAt, Nat.add_assoc]

/-- What is stored next to what has just been stored. -/
theorem stored_stored {after : List UInt8} (ha : p + bytes.length = a) :
  stored (stored dst p bytes) a after = stored dst p (bytes ++ after)
  := by
  subst ha
  funext i
  rw [stored, stored, stored, List.length_append, List.getD_eq_getElem?_getD,
    List.getD_eq_getElem?_getD, List.getD_eq_getElem?_getD]
  by_cases hbefore : i < p + bytes.length
  · rw [if_neg (by omega)]
    by_cases hp : p ≤ i
    · rw [if_pos ⟨hp, hbefore⟩, if_pos (by omega), List.getElem?_append_left (by omega)]
    · rw [if_neg (by omega), if_neg (by omega)]
  · by_cases hafter : i < p + bytes.length + after.length
    · rw [if_pos (by omega), if_pos (by omega), List.getElem?_append_right (by omega), Nat.sub_sub]
    · rw [if_neg (by omega), if_neg (by omega), if_neg (by omega)]

end

/-! ### Flow entries -/

namespace FlowEntry

variable {host : Host}

/-- The actions with their padding cleared. -/
def clearActions (actions : List (HostAction host)) : List UInt8 :=
  (actions.map (fun action => action.layout.clear action.block)).flatten

/-- The entry with its padding cleared. -/
def clear (entry : FlowEntry host) : List UInt8 :=
  ofpFlowStats.clear entry.fields.bytes ++ clearActions entry.actions

/-- As many rounds as there are actions copy them out in their order and leave nothing of the
entry. -/
theorem ntohFlowActions_visits {actions : List (HostAction host)} {fs dst : Memory} {a : ℕ}
    {left : UInt16} (h : Holds fs a (wires actions)) (hleft : left.toNat = sizes actions) :
  Reader.Visits (ntohFlowActionsRound host) fs (left, a, dst)
    (0, a + sizes actions, stored dst a (clearActions actions))
  := by
  have height : UInt16.toNat 8 = 8 := rfl
  induction actions generalizing dst a left with
  | nil =>
      obtain rfl : left = 0 := UInt16.toNat_inj.mp hleft
      have hnone : stored dst a [] = dst := by
        funext i
        exact if_neg (by simp)
      simp only [clearActions, List.map_nil, List.flatten_nil, hnone]
      exact .refl
  | cons action actions ih =>
      have hsizes : sizes (action :: actions) = action.len.toNat + sizes actions := by
        simp [sizes]
      rw [wires, List.map_cons, List.flatten_cons, holds_append,
        HostAction.length_wire] at h
      rw [hsizes] at hleft ⊢
      have hmin := action.eight_le
      have hlength : (action.layout.clear action.block).length = action.len.toNat := by
        rw [Struct.length_convert action.size_le, action.shaped.size]
      have hrest : (left - action.len).toNat = sizes actions :=
        toNat_sub_of_eq_add hleft
      have hround : Reader.Round (ntohFlowActionsRound host) fs (left, a, dst)
          (left - action.len, a + action.len.toNat,
            stored dst a (action.layout.clear action.block)) := by
        have hge : left ≥ 8 := by
          rw [ge_iff_le, UInt16.le_iff_toNat_le]
          omega
        simp only [Reader.Round, ntohFlowActionsRound, if_pos hge, Reader.returns_bind,
          HostAction.ntohAction_returns h.1, exists_eq_left, Reader.returns_pure]
        rw [short_stored (by omega), action.short_clear]
      apply ReflTransGen.head hround
      rw [← Nat.add_assoc, clearActions, List.map_cons, List.flatten_cons,
        ← stored_stored (show a + _ = a + action.len.toNat by rw [hlength])]
      exact ih h.2 hrest

/-- An entry that is put into a buffer at `p`, over what is there, and copied out of it again.
After its fields have been stored the buffer is `begun`, after its actions `built`. -/
structure RoundTrip (entry : FlowEntry host) (buf begun built : Buffer) (p : ℕ)
    (beyond dst : Memory) : Prop where
  fields : fill buf p (ofpFlowStats.convert host.littleEndian entry.fields.bytes) = pure begun
  htonRounds : ∀ fuel, htonFlowActions host entry.block (entry.actions.length + fuel) begun
      (p + 88) 88 (host.short entry.fields.bytes 0 - 88)
    = htonFlowActions host entry.block fuel built (p + entry.block.length) entry.block.length 0
  hton : Draws 1 (htonFlowStats host buf p entry.block) built
  ntohRounds : Reader.Visits (ntohFlowActionsRound host)
    (copyAt (built.memory host) p entry.block.length beyond)
    (host.short entry.fields.bytes 0 - 88, 88,
      stored dst 0 (ofpFlowStats.clear entry.fields.bytes))
    (0, entry.block.length, stored dst 0 entry.clear)
  ntoh : (ntohFlowStats host beyond dst p).Returns (built.memory host)
    (stored dst 0 entry.clear)

variable {entry : FlowEntry host} {mem beyond dst : Memory} {p : ℕ}

theorem length_block_eq :
  entry.block.length = 88 + sizes entry.actions
  := length_block.trans entry.length

theorem length_wire_eq :
  entry.wire.length = entry.block.length
  := length_wire.trans length_block.symm

theorem holds_copy (h : Holds mem p entry.wire) :
  Holds (copyAt mem p entry.block.length beyond) 0 entry.wire
  := by
  have hzero : Holds mem (p + 0) entry.wire := h
  apply holds_copyAt hzero
  rw [length_wire_eq, Nat.zero_add]

theorem ntohRounds_of_holds (h : Holds mem p entry.wire) :
  Reader.Visits (ntohFlowActionsRound host) (copyAt mem p entry.block.length beyond)
    (host.short entry.fields.bytes 0 - 88, 88,
      stored dst 0 (ofpFlowStats.clear entry.fields.bytes))
    (0, entry.block.length, stored dst 0 entry.clear)
  := by
  have hclear : 0 + (ofpFlowStats.clear entry.fields.bytes).length = 88 := by
    rw [Nat.zero_add, Struct.length_convert (Nat.le_of_eq entry.fields.size.symm)]
    rfl
  rw [clear, ← stored_stored hclear, length_block_eq]
  apply ntohFlowActions_visits _ entry.actionsLength
  rw [← length_block_eq]
  exact (FlowEntry.holds (holds_copy h)).2

/-- An entry is copied out of a message with its padding cleared. -/
theorem ntohFlowStats_returns (h : Holds mem p entry.wire) :
  (ntohFlowStats host beyond dst p).Returns mem (stored dst 0 entry.clear)
  := by
  have hlength : (host.short entry.fields.bytes 0).toNat = entry.block.length :=
    length_block.symm
  have hcopy : Holds (copyAt mem p entry.block.length beyond) 0 entry.wire := holds_copy h
  have hfirst : be16 (copyAt mem p entry.block.length beyond) 0
      = host.short entry.fields.bytes 0 := FlowEntry.be16_length hcopy
  simp only [ntohFlowStats, Reader.returns_bind, returns_ntohs, exists_eq_left,
    (yields_bcopy _ _).returns, FlowEntry.be16_length h, hlength, Reader.returns_via,
    ntohFlowFields, ntohStruct_returns (Nat.le_of_eq entry.fields.size.symm)
      (FlowEntry.holds hcopy).1, hfirst]
  rw [Reader.returns_loop]
  use (0, entry.block.length, stored dst 0 entry.clear), ntohRounds_of_holds h
  rw [ntohFlowActionsRound, if_neg (by decide)]
  exact Reader.returns_pure.mpr rfl

end FlowEntry

/-- What has been written at the end is held by the memory. -/
theorem holds_partway {host : Host} {addr length p : ℕ} {done bytes rest : List UInt8}
    (hp : done.length = p) :
  Holds ((partway addr length (done ++ bytes) rest).memory host) p bytes
  := by
  have hdata : (partway addr length (done ++ bytes) rest).data.getD []
      = done ++ (bytes ++ rest) := List.append_assoc done bytes rest
  have hholds : Holds (memoryOf (done ++ (bytes ++ rest)) host.beyond) done.length
      (bytes ++ rest) := holds_getD (bytes ++ rest) host.beyond done
  rw [Buffer.memory, hdata, ← hp]
  exact (holds_append.mp hholds).1

/-- A block with room for `n` bytes at `p`, cut there. -/
theorem eq_partway {buf : Buffer} {block : List UInt8} {p n : ℕ} (hblock : buf.data = some block)
    (hroom : p + n ≤ block.length) :
  ∃ done rest, buf = partway buf.addr buf.length done rest ∧ done.length = p ∧ n ≤ rest.length
  := by
  use block.take p, block.drop p
  refine ⟨?_, ?_, ?_⟩
  · rw [partway, List.take_append_drop, ← hblock]
  · rw [List.length_take]
    omega
  · rw [List.length_drop]
    omega

/-- A flow entry that has been put into a buffer is copied out of it as it was, but for the
padding, which is cleared, and both loops come to the end of the entry with nothing left. -/
theorem flowStats_roundTrip (host : Host) (entry : FlowEntry host) (buf : Buffer)
    (block : List UInt8) (p : ℕ) (beyond dst : Memory) (hblock : buf.data = some block)
    (hroom : p + entry.block.length ≤ block.length) :
  ∃ begun built, entry.RoundTrip buf begun built p beyond dst
  := by
  obtain ⟨done, rest, hbuf, hp, hrest⟩ := eq_partway hblock hroom
  have hfields : entry.fields.bytes.length = 88 := entry.fields.size
  have hconvert : (ofpFlowStats.convert host.littleEndian entry.fields.bytes).length = 88 :=
    Record.length_convert
  have hsize : entry.block.length = 88 + sizes entry.actions := FlowEntry.length_block_eq
  have hp' : (done ++ ofpFlowStats.convert host.littleEndian entry.fields.bytes).length
      = p + 88 := by
    rw [List.length_append, hp, hconvert]
  have hrest' : sizes entry.actions ≤ (rest.drop 88).length := by
    rw [List.length_drop]
    omega
  rw [hbuf]
  refine ⟨_, _, fill_partway hp (by omega), fun fuel => ?_,
    FlowEntry.htonFlowStats_partway hp (by rwa [FlowEntry.length_wire_eq]),
    FlowEntry.ntohRounds_of_holds (holds_partway hp),
    FlowEntry.ntohFlowStats_returns (holds_partway hp)⟩
  have hblocks : entry.block
      = entry.fields.bytes ++ (entry.actions.map HostAction.block).flatten := rfl
  rw [FlowEntry.length_wire_eq, hsize, hconvert, hblocks,
    htonFlowActions_rounds hp' hfields hrest' entry.actionsLength, List.drop_drop,
    List.append_assoc, Nat.add_assoc]
  rfl

/-- The entry in a block of its own size. -/
theorem flowStats_roundTrip_vendor :
  ∃ begun built, vendorFlow.RoundTrip (partway 0 108 [] vendorFlow.block) begun built 0
    (fun _ => 0) (fun _ => 0)
  := flowStats_roundTrip Host.roomy vendorFlow (partway 0 108 [] vendorFlow.block)
    vendorFlow.block 0 (fun _ => 0) (fun _ => 0) rfl (Nat.le_of_eq (Nat.zero_add _))

/-! ### Queues -/

section

variable {host : Host} {dst dst' : Memory} {p a : ℕ}

/-- From `p` on, the memory has the properties but for their padding. -/
def HoldsProperties (dst : Memory) : ℕ → List (QueueProperty host) → Prop
  | _, [] => True
  | p, property :: properties =>
    property.layout.clear (bytesAt dst p property.layout.size)
        = property.layout.clear property.block ∧
      HoldsProperties dst (p + property.layout.size) properties

/-- What the host stores of a number is where it had it. -/
theorem half_short {block : List UInt8} {o : ℕ} (ho : o + 2 ≤ block.length) :
  host.half (host.short block o) = (block.drop o).take 2
  := by
  rw [Host.half, htons_short ho, reorder_reorder]

theorem clear_header {block : List UInt8} :
  ofpQueuePropHeader.clear block
    = block.take 2 ++ ((block.drop 2).take 2 ++ List.replicate 4 0)
  := rfl

theorem clear_minRate {block : List UInt8} :
  ofpQueuePropMinRate.clear block
    = ofpQueuePropHeader.clear block ++ ((block.drop 8).take 2 ++ List.replicate 6 0)
  := Struct.convert_append

namespace QueueProperty

variable (property : QueueProperty host)

/-- What is in memory after the property has been copied to `a`. -/
def copied (dst : Memory) (a : ℕ) : Memory :=
  let dst := stored dst a (host.half (host.short property.block 0)
    ++ host.half (host.short property.block 2))
  if host.short property.block 0 = ofpqtMinRate then
    stored dst (a + 8) (host.half (host.short property.block 8))
  else dst

/-- Copying a property changes nothing but the place of the property. -/
theorem copied_elsewhere {i : ℕ} (hi : i < a ∨ a + property.layout.size ≤ i) :
  property.copied dst a i = dst i
  := by
  have hmin := property.eight_le
  have hfour : (host.half (host.short property.block 0)
      ++ host.half (host.short property.block 2)).length = 4 := by simp
  have hhead : stored dst a (host.half (host.short property.block 0)
      ++ host.half (host.short property.block 2)) i = dst i := by
    rw [stored, hfour]
    exact if_neg (by omega)
  rw [copied]
  rcases property.size_cases with ⟨htype, -, -⟩ | ⟨htype, -, hsixteen⟩
  · rw [htype, if_neg (by decide), ← htype]
    exact hhead
  · rw [if_pos htype, stored, Host.length_half, if_neg (by omega)]
    exact hhead

theorem copied_head :
  bytesAt (property.copied dst a) a 4 = property.block.take 4
  := by
  have hmin := property.eight_le
  have hsize := property.size
  have hfour : (host.half (host.short property.block 0)
      ++ host.half (host.short property.block 2)).length = 4 := by simp
  have htake : host.half (host.short property.block 0) ++ host.half (host.short property.block 2)
      = property.block.take 4 := by
    rw [half_short (by omega), half_short (by omega), List.drop_zero]
    exact List.take_add.symm
  rw [copied]
  split
  · rw [bytesAt_stored_before (by omega), bytesAt_stored hfour, htake]
  · rw [bytesAt_stored hfour, htake]

/-- The numbers of the property are in the copy. -/
theorem copied_part {j : ℕ} (hj : j + 2 ≤ 4 ∨ host.short property.block 0 = ofpqtMinRate ∧ j = 8) :
  bytesAt (property.copied dst a) (a + j) 2 = (property.block.drop j).take 2
  := by
  rcases hj with hj | ⟨htype, rfl⟩
  · have hhead : ((property.block.take 4).drop j).take 2
        = bytesAt (property.copied dst a) (a + j) 2 := by
      rw [← property.copied_head, bytesAt_part hj]
    rw [← hhead, List.drop_take, List.take_take, Nat.min_eq_left (by omega)]
  · have hsize := property.size
    have hsixteen : property.layout.size = 16 := by
      rcases property.size_cases with ⟨hnone, -, -⟩ | ⟨-, -, hsixteen⟩
      · exact absurd (hnone.symm.trans htype) (by decide)
      · exact hsixteen
    rw [copied, if_pos htype, bytesAt_stored Host.length_half, half_short (by omega)]

/-- The property is copied but for its padding. -/
theorem copied_clear :
  property.layout.clear (bytesAt (property.copied dst a) a property.layout.size)
    = property.layout.clear property.block
  := by
  have hmin := property.eight_le
  have hhead : ∀ j, j + 2 ≤ 4 →
      ((bytesAt (property.copied dst a) a property.layout.size).drop j).take 2
        = (property.block.drop j).take 2 := by
    intro j hj
    rw [bytesAt_part (by omega), property.copied_part (.inl hj)]
  have hheader : ofpQueuePropHeader.clear
      (bytesAt (property.copied dst a) a property.layout.size)
        = ofpQueuePropHeader.clear property.block := by
    have hzero := hhead 0 (by decide)
    rw [List.drop_zero, List.drop_zero] at hzero
    rw [clear_header, clear_header, hzero, hhead 2 (by decide)]
  rcases property.size_cases with ⟨-, hlayout, -⟩ | ⟨htype, hlayout, hsixteen⟩
  · rw [hlayout] at hheader ⊢
    exact hheader
  · have hrate : ((bytesAt (property.copied dst a) a 16).drop 8).take 2
        = bytesAt (property.copied dst a) (a + 8) 2 := bytesAt_part (by decide)
    rw [property.copied_part (.inr ⟨htype, rfl⟩), ← hsixteen] at hrate
    rw [hlayout] at hheader hrate ⊢
    rw [clear_minRate, clear_minRate, hheader, hrate]

theorem short_copied :
  host.short (bytesAt (property.copied dst a) a 4) 2 = host.short property.block 2
  := by
  have hsize := property.size
  have hmin := property.eight_le
  have hfour : (property.block.take 4).length = 4 := by
    rw [List.length_take]
    omega
  have hshort : host.short ([] ++ (property.block.take 4 ++ property.block.drop 4)) (0 + 2)
      = host.short (property.block.take 4) 2 := Host.short_append [] _ (by omega)
  rw [List.take_append_drop] at hshort
  rw [copied_head]
  exact hshort.symm

variable {mem beyond : Memory} {old : List UInt8}

/-- The numbers of a property that has been stored. -/
theorem over_numbers (hold : property.layout.size ≤ old.length)
    (h : Holds mem a (property.storedOver old)) :
  be16 mem a = host.short property.block 0 ∧ be16 mem (a + 2) = host.short property.block 2 ∧
    (host.short property.block 0 = ofpqtMinRate →
      be16 mem (a + 8) = host.short property.block 8)
  := by
  have hmin := property.eight_le
  rw [storedOver, holds_append, holds_append, holds_append] at h
  obtain ⟨⟨⟨htype, hlen⟩, -⟩, hrate⟩ := h
  refine ⟨be16_of_holds htype, be16_of_holds hlen, ?_⟩
  intro hminRate
  have height : (htons (host.short property.block 0) ++ htons (host.short property.block 2)
      ++ (old.drop 4).take 4).length = 8 := by
    simp only [List.length_append, length_htons, List.length_take, List.length_drop]
    omega
  rw [if_pos hminRate, height, holds_append] at hrate
  exact be16_of_holds hrate.1

/-- A property that has been stored is copied out as it was. -/
theorem ntohQueueProperty_returns (hold : property.layout.size ≤ old.length)
    (h : Holds mem a (property.storedOver old)) :
  (ntohQueueProperty host beyond dst a).Returns mem (property.copied dst a)
  := by
  have hmin := property.eight_le
  obtain ⟨htype, hlen, hrate⟩ := property.over_numbers hold h
  have hlength : (be16 mem (a + 2)).toNat = property.layout.size := by rw [hlen, property.len]
  have hcopy : ∀ o, o + 2 ≤ property.layout.size →
      be16 (copyAt mem a property.layout.size beyond) o = be16 mem (a + o) := by
    intro o ho
    apply be16_congr
    · exact if_pos (by omega)
    · exact if_pos (by omega)
  have hzero : be16 (copyAt mem a property.layout.size beyond) 0 = host.short property.block 0 :=
    (hcopy 0 (by omega)).trans htype
  have htwo : be16 (copyAt mem a property.layout.size beyond) 2 = host.short property.block 2 :=
    (hcopy 2 (by omega)).trans hlen
  simp only [ntohQueueProperty, Reader.returns_bind, returns_ntohs, exists_eq_left,
    (yields_bcopy _ _).returns, Reader.returns_via, Reader.returns_ite, Reader.returns_pure,
    hlength, hzero, htwo, copied]
  rcases property.size_cases with ⟨hnone, -, -⟩ | ⟨hminRate, -, hsixteen⟩
  · rw [hnone]
    refine .inr ⟨by decide, ?_⟩
    rw [if_neg (by decide)]
  · rw [hcopy 8 (by omega), hrate hminRate, if_pos hminRate]
    exact .inl ⟨hminRate, rfl⟩

end QueueProperty

/-- What is in memory after the properties have been copied to `a`, one behind the other. -/
def propertiesCopied : List (QueueProperty host) → Memory → ℕ → Memory
  | [], dst, _ => dst
  | property :: properties, dst, a =>
    propertiesCopied properties (property.copied dst a) (a + property.layout.size)

variable {properties : List (QueueProperty host)}

theorem propertiesCopied_elsewhere {i : ℕ} (hi : i < a ∨ a + propertySizes properties ≤ i) :
  propertiesCopied properties dst a i = dst i
  := by
  induction properties generalizing dst a with
  | nil => rfl
  | cons property properties ih =>
      rw [propertySizes_cons] at hi
      rw [propertiesCopied, ih (by omega), property.copied_elsewhere (by omega)]

theorem holdsProperties_copied :
  HoldsProperties (propertiesCopied properties dst a) a properties
  := by
  induction properties generalizing dst a with
  | nil => trivial
  | cons property properties ih =>
      have hfirst : bytesAt (propertiesCopied (property :: properties) dst a) a
          property.layout.size = bytesAt (property.copied dst a) a property.layout.size := by
        apply bytesAt_congr
        intro i hi
        exact propertiesCopied_elsewhere (.inl hi)
      constructor
      · rw [hfirst, property.copied_clear]
      · exact ih

variable {mem : Memory} {old : List UInt8} {left : UInt16} {beyonds : ℕ → Memory}

/-- As many rounds as there are properties copy them out in their order and leave nothing of the
queue. -/
theorem ntohProperties_visits (hold : propertySizes properties ≤ old.length)
    (h : Holds mem a (propertiesOver properties old))
    (hleft : left.toNat = propertySizes properties) :
  Reader.Visits (ntohPropertiesRound host) mem (left, a, dst, beyonds)
    (0, a + propertySizes properties, propertiesCopied properties dst a,
      fun k => beyonds (k + properties.length))
  := by
  have height : UInt16.toNat 8 = 8 := rfl
  induction properties generalizing dst a old left beyonds with
  | nil =>
      obtain rfl : left = 0 := UInt16.toNat_inj.mp hleft
      exact .refl
  | cons property properties ih =>
      have hmin := property.eight_le
      rw [propertySizes_cons] at hold hleft ⊢
      rw [propertiesOver, holds_append, property.length_over (by omega)] at h
      have hrest : propertySizes properties ≤ (old.drop property.layout.size).length := by
        rw [List.length_drop]
        omega
      have hround : Reader.Round (ntohPropertiesRound host) mem (left, a, dst, beyonds)
          (left - host.short property.block 2, a + property.layout.size, property.copied dst a,
            fun k => beyonds (k + 1)) := by
        have hge : left ≥ 8 := by
          rw [ge_iff_le, UInt16.le_iff_toNat_le]
          omega
        simp only [Reader.Round, ntohPropertiesRound, if_pos hge, Reader.returns_bind,
          Reader.returns_pure]
        use property.copied dst a, property.ntohQueueProperty_returns (by omega) h.1
        rw [property.short_copied, property.len]
      apply ReflTransGen.head hround
      rw [← Nat.add_assoc, propertiesCopied]
      apply ih hrest h.2
      apply toNat_sub_of_eq_add
      rw [hleft, property.len]

namespace PacketQueue

variable {queue : PacketQueue host} {mem beyond : Memory} {beyonds : ℕ → Memory}
  {rest : List UInt8}

theorem length_block_eq :
  queue.block.length = 8 + propertySizes queue.properties
  := length_block.trans queue.len

theorem length_over (hrest : queue.block.length ≤ rest.length) :
  (queue.storedOver rest).length = queue.block.length
  := by
  rw [length_block_eq] at hrest ⊢
  rw [storedOver, List.length_append, Record.length_convert, length_propertiesOver]
  · rfl
  · rw [List.length_drop]
    omega

/-- A queue that has been put into a message is the fields and then the properties. -/
theorem holds_over (h : Holds mem p (queue.storedOver rest)) :
  Holds mem p (ofpPacketQueue.convert host.littleEndian queue.fields.bytes) ∧
    Holds mem (p + 8) (propertiesOver queue.properties (rest.drop 8))
  := by
  have hconvert : (ofpPacketQueue.convert host.littleEndian queue.fields.bytes).length = 8 :=
    Record.length_convert
  rw [storedOver, holds_append, hconvert] at h
  exact h

/-- The length is the same when the padding has been cleared. -/
theorem short_clear :
  host.short (ofpPacketQueue.clear queue.fields.bytes) 4 = host.short queue.fields.bytes 4
  := by
  have hsize : queue.fields.bytes.length = 8 := queue.fields.size
  have hfour : (queue.fields.bytes.take 4).length = 4 := by
    rw [List.length_take, hsize]
    rfl
  have htwo : ((queue.fields.bytes.drop 4).take 2).length = 2 := by
    rw [List.length_take, List.length_drop, hsize]
    rfl
  have hshort : host.short (queue.fields.bytes.take 4
      ++ ((queue.fields.bytes.drop 4).take 2 ++ List.replicate 2 0))
        ((queue.fields.bytes.take 4).length + 0)
      = host.short ((queue.fields.bytes.drop 4).take 2) 0 :=
    Host.short_append _ _ (Nat.le_of_eq htwo.symm)
  rw [hfour] at hshort
  apply hshort.trans
  rw [Host.short, Host.short, List.drop_zero, List.take_take, Nat.min_self]

/-- The copy of a queue that has been put into a message. -/
theorem holds_copy (hrest : queue.block.length ≤ rest.length)
    (h : Holds mem p (queue.storedOver rest)) :
  Holds (copyAt mem p queue.block.length beyond) 0 (queue.storedOver rest)
  := by
  have hzero : Holds mem (p + 0) (queue.storedOver rest) := h
  apply holds_copyAt hzero
  rw [length_over hrest, Nat.zero_add]

theorem ntohRounds_of_holds (hrest : queue.block.length ≤ rest.length)
    (h : Holds mem p (queue.storedOver rest)) :
  Reader.Visits (ntohPropertiesRound host) (copyAt mem p queue.block.length beyond)
    (host.short queue.fields.bytes 4 - 8, 8, dst, beyonds)
    (0, queue.block.length, propertiesCopied queue.properties dst 8,
      fun k => beyonds (k + queue.properties.length))
  := by
  have hcopy : Holds (copyAt mem p queue.block.length beyond) 0 (queue.storedOver rest) :=
    holds_copy hrest h
  have hproperties := (holds_over hcopy).2
  rw [length_block_eq] at hrest hproperties ⊢
  apply ntohProperties_visits _ hproperties queue.propertiesLength
  rw [List.length_drop]
  omega

/-- A queue is copied out of a message as it was, but for its padding. -/
theorem ntohPacketQueue_returns (hrest : queue.block.length ≤ rest.length)
    (h : Holds mem p (queue.storedOver rest)) :
  (ntohPacketQueue host beyond beyonds dst p).Returns mem (propertiesCopied queue.properties
    (stored dst 0 (ofpPacketQueue.clear queue.fields.bytes)) 8)
  := by
  have hsize : ofpPacketQueue.size ≤ queue.fields.bytes.length :=
    Nat.le_of_eq queue.fields.size.symm
  have hlen : be16 mem (p + 4) = host.short queue.fields.bytes 4 :=
    be16_hton (k := 1) (holds_over h).1 hsize rfl rfl
  have hlength : (host.short queue.fields.bytes 4).toNat = queue.block.length :=
    length_block.symm
  have hclear : (ofpPacketQueue.clear queue.fields.bytes).length = 8 :=
    Struct.length_convert hsize
  simp only [ntohPacketQueue, Reader.returns_bind, returns_ntohs, exists_eq_left,
    (yields_bcopy _ _).returns, hlen, hlength, Reader.returns_via, ntohQueueFields,
    ntohStruct_returns hsize (holds_over (holds_copy hrest h)).1, bytesAt_stored hclear,
    short_clear]
  rw [Reader.returns_loop]
  refine ⟨_, ntohRounds_of_holds hrest h, ?_⟩
  rw [ntohPropertiesRound, if_neg (by decide)]
  exact Reader.returns_pure.mpr rfl

/-- A queue that is put into a buffer at `p`, over what is there, and copied out of it again.
After its fields have been stored the buffer is `begun`, after its properties `built`; `dst'` is
what the queue is copied to. -/
structure RoundTrip (queue : PacketQueue host) (buf begun built : Buffer) (p : ℕ)
    (beyond : Memory) (beyonds : ℕ → Memory) (dst dst' : Memory) : Prop where
  fields : fill buf p (ofpPacketQueue.convert host.littleEndian queue.fields.bytes) = pure begun
  htonRounds : ∀ fuel, GoesOn queue.properties.length
    (htonQueueProperties host queue.block (queue.properties.length + fuel) begun (p + 8) 8
      (host.short queue.fields.bytes 4 - 8))
    (htonQueueProperties host queue.block fuel built (p + queue.block.length)
      queue.block.length 0)
  hton : Draws (queue.properties.length + 1) (htonPacketQueue host buf p queue.block) built
  ntohRounds : Reader.Visits (ntohPropertiesRound host)
    (copyAt (built.memory host) p queue.block.length beyond)
    (host.short queue.fields.bytes 4 - 8, 8,
      stored dst 0 (ofpPacketQueue.clear queue.fields.bytes), beyonds)
    (0, queue.block.length, dst', fun k => beyonds (k + queue.properties.length))
  ntoh : (ntohPacketQueue host beyond beyonds dst p).Returns (built.memory host) dst'
  head : bytesAt dst' 0 8 = ofpPacketQueue.clear queue.fields.bytes
  properties : HoldsProperties dst' 8 queue.properties
  elsewhere : ∀ i, queue.block.length ≤ i → dst' i = dst i

end PacketQueue

/-- A queue that has been put into a buffer is copied out of it as it was, but for the padding,
and both loops come to the end of the queue with nothing left. -/
theorem packetQueue_roundTrip (host : Host) (queue : PacketQueue host) (buf : Buffer)
    (block : List UInt8) (p : ℕ) (beyond : Memory) (beyonds : ℕ → Memory) (dst : Memory)
    (hblock : buf.data = some block) (hroom : p + queue.block.length ≤ block.length) :
  ∃ begun built dst', queue.RoundTrip buf begun built p beyond beyonds dst dst'
  := by
  obtain ⟨done, rest, hbuf, hp, hrest⟩ := eq_partway hblock hroom
  have hfields : queue.fields.bytes.length = 8 := queue.fields.size
  have hclear : (ofpPacketQueue.clear queue.fields.bytes).length = 8 :=
    Struct.length_convert (Nat.le_of_eq hfields.symm)
  have hconvert : (ofpPacketQueue.convert host.littleEndian queue.fields.bytes).length = 8 :=
    Record.length_convert
  have hsize : queue.block.length = 8 + propertySizes queue.properties :=
    PacketQueue.length_block_eq
  have hp' : (done ++ ofpPacketQueue.convert host.littleEndian queue.fields.bytes).length
      = p + 8 := by
    rw [List.length_append, hp, hconvert]
  have hrest' : propertySizes queue.properties ≤ (rest.drop 8).length := by
    rw [List.length_drop]
    omega
  have hblocks : queue.block
      = queue.fields.bytes ++ (queue.properties.map QueueProperty.block).flatten := rfl
  rw [hbuf]
  refine ⟨_, _, _, fill_partway hp (by omega), fun fuel => ?_,
    PacketQueue.htonPacketQueue_partway hp hrest,
    PacketQueue.ntohRounds_of_holds hrest (holds_partway hp),
    PacketQueue.ntohPacketQueue_returns hrest (holds_partway hp), ?_, holdsProperties_copied, ?_⟩
  · rw [hconvert, hsize, hblocks, PacketQueue.storedOver, ← List.append_assoc, ← List.drop_drop,
      ← Nat.add_assoc]
    exact htonQueueProperties_rounds hp' hfields hrest' queue.propertiesLength
  · have hhead : bytesAt (propertiesCopied queue.properties
        (stored dst 0 (ofpPacketQueue.clear queue.fields.bytes)) 8) 0 8
          = bytesAt (stored dst 0 (ofpPacketQueue.clear queue.fields.bytes)) 0 8 := by
      apply bytesAt_congr
      intro i hi
      exact propertiesCopied_elsewhere (.inl hi)
    rw [hhead, bytesAt_stored hclear]
  · intro i hi
    rw [propertiesCopied_elsewhere (by omega), stored, hclear, if_neg (by omega)]

/-- The queue in a block of its own size. -/
theorem packetQueue_roundTrip_rate :
  ∃ begun built dst', rateQueue.RoundTrip (partway 0 32 [] rateQueue.block) begun built 0
    (fun _ => 0) (fun _ _ => 0) (fun _ => 0) dst'
  := packetQueue_roundTrip Host.roomy rateQueue (partway 0 32 [] rateQueue.block)
    rateQueue.block 0 (fun _ => 0) (fun _ _ => 0) (fun _ => 0) rfl
    (Nat.le_of_eq (Nat.zero_add _))

end

end CcController
