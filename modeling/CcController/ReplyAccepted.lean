import CcController.BuilderAccepted

/-!
# The replies with lists are accepted

Flow entries, queues with their properties and entries of a fixed size lie in a reply one
behind the other, in the order of the list that the builder was given. The validators walk
over them by the lengths that stand in the reply, which are those of the entries, and so
come to every entry and to the end.
-/

namespace CcController

/-! ### Flow entries -/

/-- The match, the priority and the actions of the entry are legal. -/
structure FlowEntry.Legal {host : Host} (entry : FlowEntry host) : Prop where
  matchLegal : LegalMatch (host.matchOf (entry.fields.bytes.drop 4))
  highestPriority : (host.matchOf (entry.fields.bytes.drop 4)).wildcards &&& ofpfwAll = 0 →
    host.short entry.fields.bytes 52 = 0xffff
  actionsLegal : ∀ a ∈ entry.actions, a.Legal

section

variable {host : Host} {mem : Memory} {p : ℕ}

theorem FlowEntry.holds {entry : FlowEntry host} (h : Holds mem p entry.wire) :
  Holds mem p (ofpFlowStats.convert host.littleEndian entry.fields.bytes) ∧
    Holds mem (p + 88) (wires entry.actions)
  := by
  rw [FlowEntry.wire, holds_append, Record.length_convert] at h
  exact h

theorem FlowEntry.be16_length {entry : FlowEntry host} (h : Holds mem p entry.wire) :
  be16 mem p = host.short entry.fields.bytes 0
  := be16_hton (k := 0) (o := 0) (FlowEntry.holds h).1 (Nat.le_of_eq entry.fields.size.symm) rfl
    rfl

/-- Where the match of an entry is. -/
theorem FlowEntry.matchAt_eq {entry : FlowEntry host} (h : Holds mem p entry.wire) :
  matchAt mem (p + 4) = host.matchOf (entry.fields.bytes.drop 4)
  := by
  have hfields := (FlowEntry.holds h).1
  have hsize : entry.fields.bytes.length = 88 := entry.fields.size
  have hhead : (Struct.convert host.littleEndian [.number 2, .bytes 1, .pad 1]
      entry.fields.bytes).length = 4 := Struct.length_convert (by rw [hsize]; decide)
  have hsplit : ofpFlowStats.convert host.littleEndian entry.fields.bytes
      = Struct.convert host.littleEndian ([.number 2, .bytes 1, .pad 1] ++ (ofpMatch
        ++ ofpFlowStats.drop 18)) entry.fields.bytes := rfl
  rw [hsplit, Struct.convert_append, holds_append, hhead, Struct.convert_append,
    holds_append] at hfields
  apply matchAt_hton _ hfields.2.1
  rw [List.length_drop, hsize]
  decide

/-- A legal entry is legal in a reply. -/
theorem FlowEntry.Legal.legalFlow {entry : FlowEntry host} (hlegal : entry.Legal)
    (h : Holds mem p entry.wire) :
  LegalFlow mem p
  := by
  have hsize := Nat.le_of_eq entry.fields.size.symm
  have hpriority : be16 mem (p + 52) = host.short entry.fields.bytes 52 :=
    be16_hton (k := 20) (FlowEntry.holds h).1 hsize rfl rfl
  refine ⟨?_, ?_, ?_⟩
  · rw [FlowEntry.matchAt_eq h]
    exact hlegal.matchLegal.validateMatch_eq
  · rw [FlowEntry.matchAt_eq h, hpriority]
    exact hlegal.highestPriority
  · intro _
    rw [FlowEntry.be16_length h]
    exact actions_walkEnds hlegal.actionsLegal (FlowEntry.holds h).2 entry.actionsLength.symm

/-- The walk over legal entries comes to their end. -/
theorem validateFlowStats_returns {flows : List (FlowEntry host)} {remaining : UInt16}
    (hlegal : ∀ flow ∈ flows, flow.Legal) (h : Holds mem p (flows.map FlowEntry.wire).flatten)
    (hremaining : remaining.toNat = (flows.map FlowEntry.wire).flatten.length) :
  (Reader.loop validateFlowStatsRound (remaining, p)).Returns mem 0
  := by
  induction flows generalizing remaining p with
  | nil =>
      have hzero : remaining = 0 := UInt16.toNat_inj.mp hremaining
      subst hzero
      apply Reader.returns_loop_of_inl
      simp [validateFlowStatsRound]
  | cons flow flows ih =>
      rw [List.map_cons, List.flatten_cons, holds_append] at h
      rw [List.map_cons, List.flatten_cons, List.length_append] at hremaining
      have hlength : (be16 mem p).toNat = flow.wire.length := by
        rw [FlowEntry.be16_length h.1, FlowEntry.length_wire]
      have hmin : 88 ≤ flow.wire.length := by
        rw [FlowEntry.length_wire, flow.length]
        omega
      have hrest : (remaining - be16 mem p).toNat
          = (flows.map FlowEntry.wire).flatten.length := by
        apply toNat_sub_of_eq_add
        rw [hremaining, hlength]
      have hnext : Reader.Round validateFlowStatsRound mem (remaining, p)
          (remaining - be16 mem p, p + flow.wire.length) := by
        rw [round_validateFlowStatsRound, hlength]
        refine ⟨?_, (hlegal flow List.mem_cons_self).legalFlow h.1, rfl⟩
        rw [gt_iff_lt, UInt16.lt_iff_toNat_lt]
        change 0 < remaining.toNat
        omega
      apply Reader.returns_loop_of_round hnext
      apply ih (fun flow' hflow' => hlegal flow' (List.mem_cons_of_mem _ hflow')) h.2 hrest

end

/-! ### Statistics replies -/

section

variable {host : Host} {xid : UInt32} {type flags : UInt16} {body : List UInt8} {buf : Buffer}

/-- What a statistics reply holds. -/
theorem Created.statsReply (h : Created host xid ofptStatsReply
      ([htons type, htons flags].flatten ++ body) buf) :
  be16 (buf.memory host) 8 = type ∧ be16 (buf.memory host) 10 = flags ∧
    Holds (buf.memory host) 12 body
  := by
  have hbody := h.holds.2
  simp only [List.flatten_cons, List.flatten_nil, List.append_nil, List.append_assoc,
    holds_append, length_htons, Nat.reduceAdd] at hbody
  exact ⟨be16_of_holds hbody.1, be16_of_holds hbody.2.1, hbody.2.2⟩

/-- How long a statistics reply is. -/
theorem statsReply_length :
  8 + ([htons type, htons flags].flatten ++ body).length = 12 + body.length
  := by
  rw [List.length_append]
  change 8 + (4 + _) = _
  omega

/-- A statistics reply with legal flags and a body that is accepted is accepted. -/
theorem Created.validateStatsReplyOf_returns (h : Created host xid ofptStatsReply
      ([htons type, htons flags].flatten ++ body) buf)
    (hflags : flags = 0 ∨ flags = ofpsfReplyMore) {check : MessageReader ℤ}
    (hcheck : check.Returns (buf.memory host) 0) :
  (validateStatsReplyOf (some buf.length) ushrtMax.toNat ofpsfReplyMore check).Returns
    (buf.memory host) 0
  := by
  have hmask : flags &&& ~~~ofpsfReplyMore = 0 := by
    rcases hflags with rfl | rfl
    · rfl
    · rfl
  rw [validateStatsReplyOf, unlessNull_some]
  apply returns_zero_header h (by decide) (by rw [statsReply_length]; omega)
  simp only [Reader.returns_bind, returns_ntohs, exists_eq_left, h.statsReply.2.1]
  rw [Reader.returns_ite]
  exact .inr ⟨not_not.mpr hmask, hcheck⟩

/-- A reply of flow statistics is accepted when its entries are legal. -/
theorem Created.validateFlowStatsReply_returns {flows : List (FlowEntry host)}
    (h : Created host xid ofptStatsReply
      ([htons ofpstFlow, htons flags].flatten ++ (flows.map FlowEntry.wire).flatten) buf)
    (hflags : flags = 0 ∨ flags = ofpsfReplyMore) (hlegal : ∀ flow ∈ flows, flow.Legal) :
  (validateStatsReply (some buf.length)).Returns (buf.memory host) 0
  := by
  have hflow : (validateFlowStatsReply (some buf.length)).Returns
      (buf.memory host) 0 := by
    apply h.validateStatsReplyOf_returns hflags
    simp only [headerLength, Reader.returns_bind, returns_ntohs, exists_eq_left]
    apply validateFlowStats_returns hlegal h.statsReply.2.2
    exact h.length_sub statsReply_length
  simp +decide only [validateStatsReply, unlessNull_some, Reader.returns_bind, returns_ntohs,
    exists_eq_left, h.statsReply.1, if_true, if_false]
  exact hflow

end

/-- A reply of flow statistics is accepted when the entries that it is created with are
legal. -/
theorem flowStatsReply_accepted (host : Host) (xid : UInt32) (flags : UInt16)
    (hflags : flags = 0 ∨ flags = ofpsfReplyMore) (flows : List (FlowEntry host))
    (hlegal : ∀ flow ∈ flows, flow.Legal)
    (hsize : 12 + (flows.map (fun flow => flow.block.length)).sum < 2 ^ 16)
    (hroom : 12 + (flows.map (fun flow => flow.block.length)).sum ≤ host.scratch) (w : World) :
  Delivers (min 1 flows.length + (3 + flows.length))
    (ccCreateFlowStatsReply host xid flags (flows.map FlowEntry.block)) w
    (fun result => ∃ buf, result = some buf ∧
      (validateStatsReply (some buf.length)).Returns (buf.memory host) 0)
  := by
  have hwires : (flows.map (fun flow => flow.block.length)).sum
      = (flows.map FlowEntry.wire).flatten.length := by
    symm
    apply length_flatten_map
    intro flow _
    rw [FlowEntry.length_wire, FlowEntry.length_block]
  rw [hwires] at hsize hroom
  apply (ccCreateFlowStatsReply_makes hsize).delivers
  · rwa [statsReply_length]
  · intro buf hbuf
    exact ⟨buf, rfl, hbuf.validateFlowStatsReply_returns hflags hlegal⟩

/-- An entry of 88 bytes without actions, whose match has a wildcard. -/
def plainFlow : FlowEntry Host.roomy where
  fields := { bytes := [88, 0, 0, 0, 1] ++ List.replicate 83 0, size := rfl }
  actions := []
  length := by decide

theorem plainFlow_legal :
  plainFlow.Legal
  := by
  have hmatch : LegalMatch (Host.roomy.matchOf (plainFlow.fields.bytes.drop 4)) :=
    ⟨by decide, by decide, by decide, by decide⟩
  refine ⟨hmatch, by decide, ?_⟩
  intro a ha
  cases ha

/-- An entry of 108 bytes whose actions are an output to port 1 and a vendor action with a body
of four bytes. -/
def vendorFlow : FlowEntry Host.roomy where
  fields := { bytes := [108, 0, 0, 7, 1] ++ List.replicate 83 0, size := rfl }
  actions :=
    [⟨[0, 0, 8, 0, 1, 0, 0, 0], _, rfl, rfl⟩,
      ⟨[255, 255, 12, 0, 1, 0, 0, 0, 9, 8, 7, 6], _, rfl, rfl⟩]
  length := by decide

theorem vendorFlow_legal :
  vendorFlow.Legal
  := by
  have hmatch : LegalMatch (Host.roomy.matchOf (vendorFlow.fields.bytes.drop 4)) :=
    ⟨by decide, by decide, by decide, by decide⟩
  refine ⟨hmatch, by decide, ?_⟩
  intro a ha
  obtain rfl | rfl := List.mem_pair.mp ha
  · exact ⟨fun _ => by decide, by decide, by decide, by decide⟩
  · exact ⟨by decide, by decide, by decide, by decide⟩

set_option maxRecDepth 4000 in
/-- A reply with two entries, the second one with actions. -/
theorem flowStatsReply_accepted_two :
  Delivers (min 1 [plainFlow, vendorFlow].length + (3 + [plainFlow, vendorFlow].length))
    (ccCreateFlowStatsReply Host.roomy 1 0 ([plainFlow, vendorFlow].map FlowEntry.block))
    World.start (fun result => ∃ buf, result = some buf ∧
      (validateStatsReply (some buf.length)).Returns (buf.memory Host.roomy) 0)
  := by
  have hlegal : ∀ flow ∈ [plainFlow, vendorFlow], flow.Legal := by
    intro flow hflow
    obtain rfl | rfl := List.mem_pair.mp hflow
    · exact plainFlow_legal
    · exact vendorFlow_legal
  exact flowStatsReply_accepted Host.roomy 1 0 (.inl rfl) [plainFlow, vendorFlow] hlegal
    (by decide) (by decide) World.start

/-! ### Queues -/

section

variable {host : Host} {mem : Memory} {p : ℕ}

theorem QueueProperty.holds {property : QueueProperty host} (h : Holds mem p property.wire) :
  be16 mem p = host.short property.block 0 ∧ be16 mem (p + 2) = host.short property.block 2
  := by
  rw [property.wire_eq, List.append_assoc, List.append_assoc, holds_append, holds_append] at h
  exact ⟨be16_of_holds h.1, be16_of_holds h.2.1⟩

/-- A property is legal in a reply. -/
theorem QueueProperty.legalProperty {property : QueueProperty host}
    (h : Holds mem p property.wire) :
  LegalProperty mem p
  := by
  obtain ⟨htype, hlen⟩ := QueueProperty.holds h
  have hsize := property.len
  rw [LegalProperty, htype, hlen]
  rcases property.size_cases with ⟨hnone, -, height⟩ | ⟨hrate, -, hsixteen⟩
  · left
    use hnone
    rw [← UInt16.toNat_inj, hsize, height]
    rfl
  · right
    use hrate
    rw [← UInt16.toNat_inj, hsize, hsixteen]
    rfl

/-- The walk over properties comes to their end. -/
theorem properties_walkEnds {properties : List (QueueProperty host)} {length : UInt16}
    (h : Holds mem p (propertyWires properties))
    (hlength : propertySizes properties = length.toNat) :
  WalkEnds mem (LegalProperty mem) p length
  := by
  have hentries : Holds mem (p + UInt16.toNat 0) (properties.map QueueProperty.wire).flatten := h
  apply Reached.walkEnds .start hentries
  · simp only [List.forall_mem_map]
    intro property _ p' hp'
    exact QueueProperty.legalProperty hp'
  · simp only [List.forall_mem_map]
    intro property _ p' hp'
    have hmin := property.eight_le
    rw [(QueueProperty.holds hp').2, property.len, property.length_wire]
    exact ⟨rfl, by omega⟩
  · rw [← hlength, ← length_propertyWires]
    apply Nat.zero_add

theorem PacketQueue.holds {queue : PacketQueue host} (h : Holds mem p queue.wire) :
  Holds mem p (ofpPacketQueue.convert host.littleEndian queue.fields.bytes) ∧
    Holds mem (p + 8) (propertyWires queue.properties)
  := by
  rw [PacketQueue.wire, holds_append, Record.length_convert] at h
  exact h

theorem PacketQueue.be16_len {queue : PacketQueue host} (h : Holds mem p queue.wire) :
  be16 mem (p + 4) = host.short queue.fields.bytes 4
  := be16_hton (k := 1) (PacketQueue.holds h).1 (Nat.le_of_eq queue.fields.size.symm) rfl rfl

theorem PacketQueue.toNat_len {queue : PacketQueue host} (h : Holds mem p queue.wire) :
  (be16 mem (p + 4)).toNat = queue.wire.length
  := by
  rw [PacketQueue.be16_len h, PacketQueue.length_wire]

/-- A queue with a property is as long as the validator requires. -/
theorem PacketQueue.sixteen_le {queue : PacketQueue host} (hne : queue.properties ≠ []) :
  16 ≤ queue.wire.length
  := by
  rw [PacketQueue.length_wire, queue.len]
  obtain ⟨property, properties, hcons⟩ := List.exists_cons_of_ne_nil hne
  have hsizes : propertySizes queue.properties
      = property.layout.size + propertySizes properties := by
    rw [hcons, propertySizes, List.map_cons, List.sum_cons, propertySizes]
  have hmin := property.eight_le
  omega

/-- A queue with a property is legal in a reply. -/
theorem PacketQueue.legalQueue {queue : PacketQueue host} (hne : queue.properties ≠ [])
    (h : Holds mem p queue.wire) :
  LegalQueue mem p
  := by
  have hmin := PacketQueue.sixteen_le hne
  have hlen := PacketQueue.toNat_len h
  have height : UInt16.toNat 8 = 8 := rfl
  have hsixteen : UInt16.toNat 16 = 16 := rfl
  constructor
  · rw [UInt16.lt_iff_toNat_lt]
    omega
  · apply properties_walkEnds (PacketQueue.holds h).2
    rw [PacketQueue.be16_len h, queue.propertiesLength]

/-- The loop that counts the queues of a reply comes to their end and counts all of them. -/
theorem countQueues_returns {queues : List (PacketQueue host)} {remaining : UInt16} {k : ℕ}
    (hne : ∀ queue ∈ queues, queue.properties ≠ [])
    (h : Holds mem p (queues.map PacketQueue.wire).flatten)
    (hremaining : remaining.toNat = (queues.map PacketQueue.wire).flatten.length) :
  (Reader.loop countQueuesRound (remaining, p, k)).Returns mem (0, k + queues.length)
  := by
  have height : UInt16.toNat 8 = 8 := rfl
  induction queues generalizing remaining p k with
  | nil =>
      have hzero : remaining = 0 := UInt16.toNat_inj.mp hremaining
      subst hzero
      apply Reader.returns_loop_of_inl
      simp [countQueuesRound]
  | cons queue queues ih =>
      rw [List.map_cons, List.flatten_cons, holds_append] at h
      rw [List.map_cons, List.flatten_cons, List.length_append] at hremaining
      have hmin := PacketQueue.sixteen_le (hne queue List.mem_cons_self)
      have hlen := PacketQueue.toNat_len h.1
      have hrest : (remaining - be16 mem (p + 4)).toNat
          = (queues.map PacketQueue.wire).flatten.length := by
        apply toNat_sub_of_eq_add
        rw [hremaining, hlen]
      have hnext : Reader.Round countQueuesRound mem (remaining, p, k)
          (remaining - be16 mem (p + 4), p + queue.wire.length, k + 1) := by
        have hpos : remaining > 8 := by
          rw [gt_iff_lt, UInt16.lt_iff_toNat_lt]
          omega
        rw [← hlen]
        simp [Reader.Round, countQueuesRound, hpos]
      apply Reader.returns_loop_of_round hnext
      rw [List.length_cons, Nat.add_comm queues.length, ← Nat.add_assoc]
      apply ih (fun queue' hqueue' => hne queue' (List.mem_cons_of_mem _ hqueue')) h.2 hrest

/-- The queues of a reply are accepted one after the other. -/
theorem validatePacketQueues_returns {queues : List (PacketQueue host)}
    (hne : ∀ queue ∈ queues, queue.properties ≠ [])
    (h : Holds mem p (queues.map PacketQueue.wire).flatten) :
  (validatePacketQueues p queues.length).Returns mem 0
  := by
  induction queues generalizing p with
  | nil => exact Reader.returns_pure.mpr rfl
  | cons queue queues ih =>
      rw [List.map_cons, List.flatten_cons, holds_append] at h
      have hlegal := PacketQueue.legalQueue (hne queue List.mem_cons_self) h.1
      rw [List.length_cons, validatePacketQueues]
      apply returns_zero ((validatePacketQueue_accepts p).mpr hlegal)
      simp only [Reader.returns_bind, returns_ntohs, exists_eq_left, PacketQueue.toNat_len h.1]
      exact ih (fun queue' hqueue' => hne queue' (List.mem_cons_of_mem _ hqueue')) h.2

end

section

variable {host : Host} {xid : UInt32} {port : UInt16} {queues : List (PacketQueue host)}
  {buf : Buffer}

/-- How long a reply with queues is. -/
theorem queueGetConfigReply_length {body : List UInt8} :
  8 + ([htons port, List.replicate 6 0].flatten ++ body).length = 16 + body.length
  := by
  rw [List.length_append]
  change 8 + (8 + _) = _
  omega

/-- What a reply with queues holds. -/
theorem Created.queueGetConfigReply {body : List UInt8}
    (h : Created host xid ofptQueueGetConfigReply
      ([htons port, List.replicate 6 0].flatten ++ body) buf) :
  be16 (buf.memory host) 8 = port ∧ Holds (buf.memory host) 16 body
  := by
  have hbody := h.holds.2
  simp only [List.flatten_cons, List.flatten_nil, List.append_nil, List.append_assoc,
    holds_append, length_htons, List.length_replicate, Nat.reduceAdd] at hbody
  exact ⟨be16_of_holds hbody.1, hbody.2.2⟩

/-- The loop that counts the queues of a reply counts the queues that it was created with. -/
theorem Created.countQueues (h : Created host xid ofptQueueGetConfigReply
      ([htons port, List.replicate 6 0].flatten ++ (queues.map PacketQueue.wire).flatten) buf)
    (hproperties : ∀ queue ∈ queues, queue.properties ≠ []) :
  (Reader.loop countQueuesRound (be16 (buf.memory host) 2 - 16, 16, 0)).Returns
    (buf.memory host) (0, queues.length)
  := by
  have hcount := countQueues_returns (k := 0) hproperties h.queueGetConfigReply.2
    (h.length_sub queueGetConfigReply_length)
  rwa [Nat.zero_add] at hcount

/-- A reply with queues that have properties is accepted. -/
theorem Created.validateQueueGetConfigReply_returns (h : Created host xid ofptQueueGetConfigReply
      ([htons port, List.replicate 6 0].flatten ++ (queues.map PacketQueue.wire).flatten) buf)
    (hport : validatePhyPortNo port = 0) (hqueues : queues ≠ [])
    (hproperties : ∀ queue ∈ queues, queue.properties ≠ []) :
  (validateQueueGetConfigReply (some buf.length)).Returns (buf.memory host) 0
  := by
  have hmin : 16 ≤ (queues.map PacketQueue.wire).flatten.length := by
    obtain ⟨queue, rest, rfl⟩ := List.exists_cons_of_ne_nil hqueues
    have hle := PacketQueue.sixteen_le (hproperties queue List.mem_cons_self)
    rw [List.map_cons, List.flatten_cons, List.length_append]
    omega
  rw [validateQueueGetConfigReply, unlessNull_some]
  apply returns_zero_header h (by decide) (by rw [queueGetConfigReply_length]; omega)
  simp only [Reader.returns_bind, returns_ntohs, exists_eq_left, h.queueGetConfigReply.1]
  apply returns_zero
  · rw [accepts_pure, hport]
    decide
  simp only [headerLength, Reader.returns_bind, returns_ntohs, exists_eq_left]
  use (0, queues.length), h.countQueues hproperties
  have hpos : queues.length > 0 := List.length_pos_iff.mpr hqueues
  rw [if_neg (not_not.mpr rfl), if_pos hpos]
  apply returns_zero
  · exact ⟨0, validatePacketQueues_returns hproperties h.queueGetConfigReply.2, by decide⟩
  · exact Reader.returns_pure.mpr rfl

end

/-- A reply with queues that have properties is accepted, and the loop of its validator
counts the queues that it was created with. -/
theorem queueGetConfigReply_accepted (host : Host) (xid : UInt32) (port : UInt16)
    (hport : validatePhyPortNo port = 0) (queues : List (PacketQueue host))
    (hqueues : queues ≠ []) (hproperties : ∀ queue ∈ queues, queue.properties ≠ [])
    (hsize : 16 + (queues.map (fun queue => queue.block.length)).sum < 2 ^ 16)
    (hroom : 16 + (queues.map (fun queue => queue.block.length)).sum ≤ host.scratch)
    (w : World) :
  Delivers (min 1 queues.length +
      (3 + (queues.map (fun queue => queue.properties.length + 1)).sum))
    (ccCreateQueueGetConfigReply host xid port (queues.map PacketQueue.block)) w
    (fun result => ∃ buf, result = some buf ∧
      (validateQueueGetConfigReply (some buf.length)).Returns (buf.memory host) 0 ∧
      (Reader.loop countQueuesRound (be16 (buf.memory host) 2 - 16, 16, 0)).Returns
        (buf.memory host) (0, queues.length))
  := by
  have hwires : (queues.map (fun queue => queue.block.length)).sum
      = (queues.map PacketQueue.wire).flatten.length := by
    symm
    apply length_flatten_map
    intro queue _
    rw [PacketQueue.length_wire, PacketQueue.length_block]
  rw [hwires] at hsize hroom
  apply (ccCreateQueueGetConfigReply_makes hsize).delivers
  · rwa [queueGetConfigReply_length]
  · intro buf hbuf
    exact ⟨buf, rfl, hbuf.validateQueueGetConfigReply_returns hport hqueues hproperties,
      hbuf.countQueues hproperties⟩

/-- A property that sets no rate. -/
def noneProperty : QueueProperty Host.roomy where
  block := [0, 0, 8, 0, 0, 0, 0, 0]
  layout := ofpQueuePropHeader
  shape := .inl ⟨by decide, rfl⟩
  size := rfl
  len := by decide

/-- A queue of 16 bytes with one property. -/
def plainQueue : PacketQueue Host.roomy where
  fields := { bytes := [1, 0, 0, 0, 16, 0, 0, 0], size := rfl }
  properties := [noneProperty]
  len := by decide

/-- A queue of 32 bytes, with a property of each type. -/
def rateQueue : PacketQueue Host.roomy where
  fields := { bytes := [2, 0, 0, 0, 32, 0, 0, 0], size := rfl }
  properties :=
    [noneProperty,
      ⟨[1, 0, 16, 0, 0, 0, 0, 0, 5, 0, 0, 0, 0, 0, 0, 0], _, .inr ⟨by decide, rfl⟩, rfl,
        by decide⟩]
  len := by decide

set_option maxRecDepth 4000 in
/-- A reply with two queues, the second one with two properties. -/
theorem queueGetConfigReply_accepted_two :
  Delivers (min 1 [plainQueue, rateQueue].length +
      (3 + ([plainQueue, rateQueue].map (fun queue => queue.properties.length + 1)).sum))
    (ccCreateQueueGetConfigReply Host.roomy 1 1 ([plainQueue, rateQueue].map PacketQueue.block))
    World.start (fun result => ∃ buf, result = some buf ∧
      (validateQueueGetConfigReply (some buf.length)).Returns (buf.memory Host.roomy) 0 ∧
      (Reader.loop countQueuesRound (be16 (buf.memory Host.roomy) 2 - 16, 16, 0)).Returns
        (buf.memory Host.roomy) (0, [plainQueue, rateQueue].length))
  := by
  have hproperties : ∀ queue ∈ [plainQueue, rateQueue], queue.properties ≠ [] := by
    intro queue hqueue
    obtain rfl | rfl := List.mem_pair.mp hqueue
    · exact List.cons_ne_nil _ _
    · exact List.cons_ne_nil _ _
  exact queueGetConfigReply_accepted Host.roomy 1 1 (by decide) [plainQueue, rateQueue]
    (List.cons_ne_nil _ _) hproperties (by decide) (by decide) World.start

/-! ### Entries of one size -/

section

variable {host : Host} {mem : Memory} {p : ℕ} {layout : Struct}

/-- Where the entries of a list are. -/
theorem holds_entryWires {entries : List (Record UInt8 layout)}
    (h : Holds mem p (entryWires host entries)) {i : ℕ} (hi : i < entries.length) :
  Holds mem (p + layout.size * i) (layout.convert host.littleEndian entries[i].bytes)
  := by
  induction entries generalizing p i with
  | nil => exact absurd hi (Nat.not_lt_zero i)
  | cons entry entries ih =>
      have hsplit : entryWires host (entry :: entries)
          = layout.convert host.littleEndian entry.bytes ++ entryWires host entries := rfl
      rw [hsplit, holds_append, Record.length_convert] at h
      cases i with
      | zero => exact h.1
      | succ i =>
          have hnext := ih h.2 (Nat.lt_of_succ_lt_succ hi)
          rwa [Nat.add_assoc, Nat.add_comm layout.size, ← Nat.mul_succ] at hnext

/-- Entries that are accepted one by one are accepted. -/
theorem validateEach_returns {entry : ℕ → MessageReader ℤ} {size n : ℕ}
    (h : ∀ i < n, Accepts (entry (p + size * i)) mem) :
  (validateEach entry size p n).Returns mem 0
  := by
  induction n generalizing p with
  | zero => exact Reader.returns_pure.mpr rfl
  | succ n ih =>
      apply returns_zero (h 0 (Nat.succ_pos n))
      apply ih
      intro i hi
      have hnext := h (i + 1) (Nat.succ_lt_succ hi)
      rwa [Nat.mul_succ, Nat.add_comm (size * i), ← Nat.add_assoc] at hnext

/-- An entry that begins with a legal port number is accepted. -/
theorem portNo_accepts {entry : Record UInt8 layout} (hlayout : layout[0]? = some (.number 2))
    (h : Holds mem p (layout.convert host.littleEndian entry.bytes))
    (hlegal : validatePhyPortNo (host.short entry.bytes 0) = 0) :
  Accepts (do
    let portNo ← ntohs p
    pure (validatePhyPortNo portNo)) mem
  := by
  have hport : be16 mem p = host.short entry.bytes 0 :=
    be16_hton (k := 0) (o := 0) h (Nat.le_of_eq entry.size.symm) hlayout rfl
  simp only [accepts_bind, returns_ntohs, exists_eq_left, hport, accepts_pure, hlegal]
  decide

/-- The message has one entry after the other behind its first `c` bytes and nothing more,
and each is decoded where it is. -/
structure EntriesDecoded {α : Type} (host : Host) (c : ℕ) (decode : ℕ → MessageReader α)
    (value : List UInt8 → α) (entries : List (Record UInt8 layout)) (buf : Buffer) : Prop where
  length : buf.length = c + layout.size * entries.length
  decoded : ∀ i (hi : i < entries.length),
    (decode (c + layout.size * i)).Returns (buf.memory host) (value entries[i].bytes)

variable {xid : UInt32} {stats flags : UInt16} {entries : List (Record UInt8 layout)}
  {buf : Buffer}

theorem Created.entriesDecoded (h : Created host xid ofptStatsReply
      ([htons stats, htons flags].flatten ++ entryWires host entries) buf) :
  EntriesDecoded host 12 (ntohStruct host layout) layout.clear entries buf
  := by
  constructor
  · rw [h.length, statsReply_length, length_entryWires]
  · intro i hi
    rw [ntohStruct_returns (Nat.le_of_eq entries[i].size.symm)
      (holds_entryWires h.statsReply.2.2 hi)]

/-- A statistics reply is accepted when its entries are accepted one by one. -/
theorem Created.validateStatsEntries_returns (h : Created host xid ofptStatsReply
      ([htons stats, htons flags].flatten ++ entryWires host entries) buf)
    (hflags : flags = 0 ∨ flags = ofpsfReplyMore) (hsize : 0 < layout.size)
    {check : ℕ → MessageReader ℤ}
    (hcheck : ∀ i < entries.length, Accepts (check (12 + layout.size * i)) (buf.memory host)) :
  (validateStatsReplyOf (some buf.length) ushrtMax.toNat ofpsfReplyMore
    (validateStatsEntries check layout.size)).Returns (buf.memory host) 0
  := by
  have hbody : (be16 (buf.memory host) 2 - 12).toNat = layout.size * entries.length := by
    have hlength : (entryWires host entries).length = layout.size * entries.length :=
      length_entryWires
    rw [← hlength]
    exact h.length_sub statsReply_length
  apply h.validateStatsReplyOf_returns hflags
  simp only [validateStatsEntries, headerLength, Reader.returns_bind,
    returns_ntohs, exists_eq_left, hbody, Nat.mul_mod_right, ne_eq, not_true_eq_false, if_false,
    Nat.mul_div_cancel_left _ hsize]
  exact validateEach_returns hcheck

/-- A statistics reply that is created from a list of entries. -/
theorem statsListReply_delivers {w : World} {Legal : Record UInt8 layout → Prop}
    {check : ℕ → MessageReader ℤ} (hsize : 0 < layout.size)
    (hcheck : ∀ (entry : Record UInt8 layout) (mem : Memory) (p : ℕ),
      Holds mem p (layout.convert host.littleEndian entry.bytes) → Legal entry →
      Accepts (check p) mem)
    (hlength : 12 + layout.size * entries.length < 2 ^ 16)
    (hroom : 12 + layout.size * entries.length ≤ host.scratch) :
  Delivers (min 1 entries.length + 3) (statsListReply host xid stats layout flags entries) w
    (fun result => ∃ buf, result = some buf ∧
      EntriesDecoded host 12 (ntohStruct host layout) layout.clear entries buf ∧
      (flags = 0 ∨ flags = ofpsfReplyMore → (∀ entry ∈ entries, Legal entry) →
        (validateStatsReplyOf (some buf.length) ushrtMax.toNat ofpsfReplyMore
          (validateStatsEntries check layout.size)).Returns (buf.memory host) 0))
  := by
  apply (statsListReply_makes hlength).delivers
  · rwa [statsReply_length, length_entryWires]
  · intro buf hbuf
    refine ⟨buf, rfl, hbuf.entriesDecoded, fun hflags hlegal => ?_⟩
    apply hbuf.validateStatsEntries_returns hflags hsize
    intro i hi
    apply hcheck entries[i]
    · exact holds_entryWires hbuf.statsReply.2.2 hi
    · exact hlegal entries[i] (List.getElem_mem hi)

end

/-! ### Ports of a switch -/

/-- The fields of a port that are checked are legal. -/
structure LegalPort (port : OfpPhyPort) : Prop where
  portNo : validatePhyPortNo port.portNo = 0
  config : port.config &&& ~~~portConfig = 0
  state : port.state &&& ~~~portState = 0
  curr : port.curr &&& ~~~portFeatures = 0
  advertised : port.advertised &&& ~~~portFeatures = 0
  supported : port.supported &&& ~~~portFeatures = 0
  peer : port.peer &&& ~~~portFeatures = 0

theorem LegalPort.accepts {mem : Memory} {p : ℕ} (h : LegalPort (phyPortAt mem p)) :
  Accepts (validatePhyPort p) mem
  := by
  use 0
  simp only [validatePhyPort, Reader.returns_bind, returns_ntohPhyPort, exists_eq_left,
    returns_passing, Reader.returns_pure, h.portNo, h.config, h.state, h.curr, h.advertised,
    h.supported, h.peer, ne_eq, not_true_eq_false, or_self, if_false]
  simp

section

variable {host : Host} {xid : UInt32} {datapathId : UInt64} {nBuffers : UInt32}
  {nTables : UInt8} {capabilities actions : UInt32} {ports : List (Record UInt8 ofpPhyPort)}
  {buf : Buffer}

/-- How long a reply with the features of a switch is. -/
theorem featuresReply_length :
  8 + ([htonll datapathId, htonl nBuffers, [nTables], [0, 0, 0], htonl capabilities,
    htonl actions].flatten ++ entryWires host ports).length = 32 + 48 * ports.length
  := by
  rw [List.length_append, length_entryWires]
  change 8 + (24 + 48 * _) = _
  omega

/-- What a reply with the features of a switch holds. -/
theorem Created.featuresReply (h : Created host xid ofptFeaturesReply
      ([htonll datapathId, htonl nBuffers, [nTables], [0, 0, 0], htonl capabilities,
        htonl actions].flatten ++ entryWires host ports) buf) :
  buf.memory host 20 = nTables ∧ Holds (buf.memory host) 32 (entryWires host ports)
  := by
  have hbody := h.holds.2
  simp only [List.flatten_cons, List.flatten_nil, List.append_nil, List.append_assoc,
    holds_append, length_htonll, length_htonl, List.length_cons, List.length_nil,
    Nat.reduceAdd] at hbody
  obtain ⟨-, -, htables, -, -, -, hports⟩ := hbody
  exact ⟨htables.1, hports⟩

/-- Where a port of the reply is. -/
theorem Created.phyPortAt (h : Created host xid ofptFeaturesReply
      ([htonll datapathId, htonl nBuffers, [nTables], [0, 0, 0], htonl capabilities,
        htonl actions].flatten ++ entryWires host ports) buf) {i : ℕ} (hi : i < ports.length) :
  phyPortAt (buf.memory host) (32 + 48 * i) = host.phyPort ports[i].bytes
  := phyPortAt_hton (Nat.le_of_eq ports[i].size.symm) (holds_entryWires h.featuresReply.2 hi)

/-- A reply with tables and legal ports is accepted. -/
theorem Created.validateFeaturesReply_returns (h : Created host xid ofptFeaturesReply
      ([htonll datapathId, htonl nBuffers, [nTables], [0, 0, 0], htonl capabilities,
        htonl actions].flatten ++ entryWires host ports) buf)
    (htables : nTables ≠ 0) (hports : ∀ port ∈ ports, LegalPort (host.phyPort port.bytes)) :
  (validateFeaturesReply (some buf.length)).Returns (buf.memory host) 0
  := by
  have hlength : (be16 (buf.memory host) 2 - 32).toNat = 48 * ports.length :=
    h.length_sub featuresReply_length
  rw [validateFeaturesReply, unlessNull_some]
  apply returns_zero_header h (by decide) (by rw [featuresReply_length]; omega)
  simp only [headerLength, Reader.returns_bind, Reader.returns_read, returns_ntohs,
    exists_eq_left, h.featuresReply.1, if_neg htables, hlength, Nat.mul_mod_right, ne_eq,
    not_true_eq_false, if_false, Nat.mul_div_cancel_left _ (show 0 < 48 by decide)]
  split
  · apply returns_zero
    · refine ⟨0, validateEach_returns fun i hi => ?_, by decide⟩
      apply LegalPort.accepts
      rw [h.phyPortAt hi]
      exact hports ports[i] (List.getElem_mem hi)
    · exact Reader.returns_pure.mpr rfl
  · exact Reader.returns_pure.mpr rfl

end

/-! ### Replies with entries of one size -/

/-- A reply with entries of one size consists of its entries, which are decoded where they
are. If the fields that its validator checks are legal, it is accepted. -/
theorem fixedReplies_decoded (host : Host) (xid : UInt32) (w : World) :
  (∀ (datapathId : UInt64) (nBuffers : UInt32) (nTables : UInt8)
      (capabilities actions : UInt32) (ports : List PhyPort),
    32 + 48 * ports.length < 2 ^ 16 → 32 + 48 * ports.length ≤ host.scratch →
    Delivers (min 1 ports.length + 3)
      (ccCreateFeaturesReply host xid datapathId nBuffers nTables capabilities actions
        (ports.map PhyPort.toRecord)) w
      (fun result => ∃ buf, result = some buf ∧
        EntriesDecoded host 32 ntohPhyPort host.phyPort (ports.map PhyPort.toRecord) buf ∧
        (nTables ≠ 0 → (∀ port ∈ ports, LegalPort (host.phyPort port.bytes)) →
          (validateFeaturesReply (some buf.length)).Returns (buf.memory host) 0))) ∧
  (∀ (flags : UInt16) (tables : List (Record UInt8 ofpTableStats)),
    12 + 64 * tables.length < 2 ^ 16 → 12 + 64 * tables.length ≤ host.scratch →
    Delivers (min 1 tables.length + 3) (ccCreateTableStatsReply host xid flags tables) w
      (fun result => ∃ buf, result = some buf ∧
        EntriesDecoded host 12 (ntohTableStats host) ofpTableStats.clear tables buf ∧
        (flags = 0 ∨ flags = ofpsfReplyMore →
          (∀ table ∈ tables, validateWildcards (host.long table.bytes 36) = 0) →
          (validateTableStatsReply (some buf.length)).Returns (buf.memory host) 0))) ∧
  (∀ (flags : UInt16) (ports : List (Record UInt8 ofpPortStats)),
    12 + 104 * ports.length < 2 ^ 16 → 12 + 104 * ports.length ≤ host.scratch →
    Delivers (min 1 ports.length + 3) (ccCreatePortStatsReply host xid flags ports) w
      (fun result => ∃ buf, result = some buf ∧
        EntriesDecoded host 12 (ntohPortStats host) ofpPortStats.clear ports buf ∧
        (flags = 0 ∨ flags = ofpsfReplyMore →
          (∀ port ∈ ports, validatePhyPortNo (host.short port.bytes 0) = 0) →
          (validatePortStatsReply (some buf.length)).Returns (buf.memory host) 0))) ∧
  (∀ (flags : UInt16) (queues : List (Record UInt8 ofpQueueStats)),
    12 + 32 * queues.length < 2 ^ 16 → 12 + 32 * queues.length ≤ host.scratch →
    Delivers (min 1 queues.length + 3) (ccCreateQueueStatsReply host xid flags queues) w
      (fun result => ∃ buf, result = some buf ∧
        EntriesDecoded host 12 (ntohQueueStats host) ofpQueueStats.clear queues buf ∧
        (flags = 0 ∨ flags = ofpsfReplyMore →
          (∀ queue ∈ queues, validatePhyPortNo (host.short queue.bytes 0) = 0) →
          (validateQueueStatsReply (some buf.length)).Returns (buf.memory host) 0)))
  := by
  refine ⟨?_, ?_, ?_, ?_⟩
  · intro datapathId nBuffers nTables capabilities actions ports hsize hroom
    apply (ccCreateFeaturesReply_makes hsize).delivers
    · rwa [featuresReply_length, List.length_map]
    · intro buf hbuf
      refine ⟨buf, rfl, ⟨?_, ?_⟩, ?_⟩
      · rw [hbuf.length, featuresReply_length]
        rfl
      · intro i hi
        rw [returns_ntohPhyPort]
        exact (hbuf.phyPortAt hi).symm
      · intro htables hlegal
        apply hbuf.validateFeaturesReply_returns htables
        simpa using hlegal
  · intro flags tables hsize hroom
    refine statsListReply_delivers (by decide) ?_ hsize hroom
    intro entry mem p hp hlegal
    have hwildcards : be32 mem (p + 36) = host.long entry.bytes 36 :=
      be32_hton (k := 3) hp (Nat.le_of_eq entry.size.symm) rfl rfl
    simp only [accepts_bind, returns_ntohl, exists_eq_left, hwildcards, accepts_pure, hlegal]
    decide
  · intro flags ports hsize hroom
    refine statsListReply_delivers (by decide) ?_ hsize hroom
    intro entry mem p
    exact portNo_accepts rfl
  · intro flags queues hsize hroom
    refine statsListReply_delivers (by decide) ?_ hsize hroom
    intro entry mem p
    exact portNo_accepts rfl

/-- A table of which nothing is known but its number. -/
def plainTable (n : UInt8) : Record UInt8 ofpTableStats where
  bytes := [n] ++ List.replicate 63 0
  size := rfl

def plainPortStats (n : UInt8) : Record UInt8 ofpPortStats := portEntry n ofpPortStats (by decide)

def plainQueueStats (n : UInt8) : Record UInt8 ofpQueueStats :=
  portEntry n ofpQueueStats (by decide)

set_option maxRecDepth 4000 in
/-- Replies with two entries each. -/
theorem fixedReplies_decoded_plain :
  Delivers 4 (ccCreateFeaturesReply Host.roomy 1 1 0 1 0 0
      ([plainPort 1, plainPort 2].map PhyPort.toRecord)) World.start
    (fun result => ∃ buf, result = some buf ∧
      EntriesDecoded Host.roomy 32 ntohPhyPort Host.roomy.phyPort
        ([plainPort 1, plainPort 2].map PhyPort.toRecord) buf ∧
      (validateFeaturesReply (some buf.length)).Returns (buf.memory Host.roomy) 0) ∧
  Delivers 4 (ccCreateTableStatsReply Host.roomy 1 0 [plainTable 0, plainTable 1]) World.start
    (fun result => ∃ buf, result = some buf ∧
      EntriesDecoded Host.roomy 12 (ntohTableStats Host.roomy) ofpTableStats.clear
        [plainTable 0, plainTable 1] buf ∧
      (validateTableStatsReply (some buf.length)).Returns (buf.memory Host.roomy) 0) ∧
  Delivers 4 (ccCreatePortStatsReply Host.roomy 1 1 [plainPortStats 1, plainPortStats 2])
      World.start
    (fun result => ∃ buf, result = some buf ∧
      EntriesDecoded Host.roomy 12 (ntohPortStats Host.roomy) ofpPortStats.clear
        [plainPortStats 1, plainPortStats 2] buf ∧
      (validatePortStatsReply (some buf.length)).Returns (buf.memory Host.roomy) 0) ∧
  Delivers 4 (ccCreateQueueStatsReply Host.roomy 1 0 [plainQueueStats 1, plainQueueStats 2])
      World.start
    (fun result => ∃ buf, result = some buf ∧
      EntriesDecoded Host.roomy 12 (ntohQueueStats Host.roomy) ofpQueueStats.clear
        [plainQueueStats 1, plainQueueStats 2] buf ∧
      (validateQueueStatsReply (some buf.length)).Returns (buf.memory Host.roomy) 0)
  := by
  obtain ⟨hfeatures, htable, hport, hqueue⟩ := fixedReplies_decoded Host.roomy 1 World.start
  have hlegal : ∀ n ∈ [(1 : UInt8), 2], LegalPort (Host.roomy.phyPort (plainPort n).bytes) := by
    intro n hn
    obtain rfl | rfl := List.mem_pair.mp hn
    · exact ⟨by decide, by decide, by decide, by decide, by decide, by decide, by decide⟩
    · exact ⟨by decide, by decide, by decide, by decide, by decide, by decide, by decide⟩
  refine ⟨?_, ?_, ?_, ?_⟩
  · apply (hfeatures 1 0 1 0 0 [plainPort 1, plainPort 2] (by decide) (by decide)).mono
    rintro result _ ⟨buf, hbuf, hdecoded, haccepted⟩
    refine ⟨buf, hbuf, hdecoded, haccepted (by decide) ?_⟩
    intro port hport
    obtain rfl | rfl := List.mem_pair.mp hport
    · exact hlegal 1 (by simp)
    · exact hlegal 2 (by simp)
  · apply (htable 0 [plainTable 0, plainTable 1] (by decide) (by decide)).mono
    rintro result _ ⟨buf, hbuf, hdecoded, haccepted⟩
    exact ⟨buf, hbuf, hdecoded, haccepted (.inl rfl) (by decide)⟩
  · apply (hport 1 [plainPortStats 1, plainPortStats 2] (by decide) (by decide)).mono
    rintro result _ ⟨buf, hbuf, hdecoded, haccepted⟩
    exact ⟨buf, hbuf, hdecoded, haccepted (.inr rfl) (by decide)⟩
  · apply (hqueue 0 [plainQueueStats 1, plainQueueStats 2] (by decide) (by decide)).mono
    rintro result _ ⟨buf, hbuf, hdecoded, haccepted⟩
    exact ⟨buf, hbuf, hdecoded, haccepted (.inl rfl) (by decide)⟩

end CcController
