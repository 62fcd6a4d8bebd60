import CcController.Encoding

/-!
# The message that a builder is asked for

`Asks` says, for the arguments that a builder may be given, which message it is asked for and
how many allocations it takes. When the message fits into 65535 bytes and into the block that
the header is built in, every builder makes this message if its allocations succeed.
-/

namespace CcController

/-! ### The functions one by one -/

section

variable {host : Host} {xid : UInt32} {payload : Option Payload}

/-- A length with a body that does not make it wrap around. -/
theorem toNat_add_dataLength {c : UInt16} (h : c.toNat + (payloadBytes payload).length < 2 ^ 16) :
  (c + dataLength (payload.map Payload.buffer)).toNat
    = c.toNat + (payloadBytes payload).length
  := by
  rw [UInt16.toNat_add, dataLength_payload (by omega), Nat.mod_eq_of_lt h]

/-- Storing a body that takes all the room there is. -/
theorem storeData_draws {addr length p : ℕ} {done : List UInt8} (hp : done.length = p)
    (hsize : (payloadBytes payload).length < 2 ^ 16) :
  Draws 0 (storeData (underway addr length done (payloadBytes payload).length) p
      (payload.map Payload.buffer) (dataLength (payload.map Payload.buffer)))
    (underway addr length (done ++ payloadBytes payload) 0)
  := by
  rw [storeData_underway hp (Nat.le_refl _) hsize, Nat.sub_self]
  exact draws_pure

theorem storeFields_draws {addr length p : ℕ} {done : List UInt8} {fields : List (List UInt8)}
    (hp : done.length = p) :
  Draws 0 (storeFields (underway addr length done fields.flatten.length) p fields)
    (underway addr length (done ++ fields.flatten) 0)
  := by
  rw [storeFields_underway hp (Nat.le_refl _), Nat.sub_self]
  exact draws_pure

/-- A message whose body is fields and then data, behind the first `c` bytes. -/
theorem createWith_data {c : UInt16} {p : ℕ} {type : UInt8} {fields : List (List UInt8)}
    (hp : c.toNat = p) (hc : p = 8 + fields.flatten.length)
    (h : p + (payloadBytes payload).length < 2 ^ 16) :
  Makes host xid type (fields.flatten ++ payloadBytes payload) 3
    (createWith host xid type (c + dataLength (payload.map Payload.buffer)) (fun buf => do
      let buf ← storeFields buf 8 fields
      storeData buf p (payload.map Payload.buffer) (dataLength (payload.map Payload.buffer))))
  := by
  apply createWith_fields_then (k := 0)
  · rw [toNat_add_dataLength (by omega), List.length_append]
    omega
  · intro addr done hdone
    exact storeData_draws (hdone.trans hc.symm) (by omega)

theorem ccCreateError_makes {type code : UInt16} (h : 12 + (payloadBytes payload).length < 2 ^ 16) :
  Makes host xid ofptError ([htons type, htons code].flatten ++ payloadBytes payload) 3
    (ccCreateError host xid type code (payload.map Payload.buffer))
  := by
  have hdata : ((payload.map Payload.buffer).map Buffer.length).getD 0
      = (dataLength (payload.map Payload.buffer)).toNat := by
    rw [dataLength_payload (by omega)]
    cases payload with
    | none => rfl
    | some payload => exact payload.exact.symm
  rw [ccCreateError, hdata]
  exact createWith_data rfl rfl h

theorem ccCreateVendor_makes {vendor : UInt32} (h : 12 + (payloadBytes payload).length < 2 ^ 16) :
  Makes host xid ofptVendor ([htonl vendor].flatten ++ payloadBytes payload) 3
    (ccCreateVendor host xid vendor (payload.map Payload.buffer))
  := createWith_data rfl rfl h

theorem ccCreatePacketIn_makes {bufferId : UInt32} {totalLen inPort : UInt16} {reason : UInt8}
    (h : 18 + (payloadBytes payload).length < 2 ^ 16) :
  Makes host xid ofptPacketIn
    ([htonl bufferId, htons totalLen, htons inPort, [reason], [0]].flatten
      ++ payloadBytes payload) 3
    (ccCreatePacketIn host xid bufferId totalLen inPort reason (payload.map Payload.buffer))
  := createWith_data rfl rfl h

/-- A statistics message whose body is fields and then other data. -/
theorem statsFields_makes {k : ℕ} {type : UInt8} {stats length flags : UInt16}
    {fields : List (List UInt8)} {rest : Buffer → Action Buffer} {more : List UInt8}
    (hlength : length.toNat = 12 + (fields.flatten ++ more).length)
    (hrest : ∀ (addr : ℕ) (done : List UInt8), done.length = 12 + fields.flatten.length →
      Draws k (rest (underway addr length.toNat done more.length))
        (underway addr length.toNat (done ++ more) 0)) :
  Makes host xid type ([htons stats, htons flags].flatten ++ (fields.flatten ++ more)) (3 + k)
    (createWith host xid type length (fun buf => do
      let buf ← storeFields buf 8 [htons stats, htons flags]
      let buf ← storeFields buf 12 fields
      rest buf))
  := by
  apply createWith_fields_then
  · rw [List.length_append, hlength]
    change 12 + _ = 8 + (4 + _)
    omega
  · intro addr done hdone
    have hp : done.length = 12 := hdone
    rw [List.length_append, storeFields_underway hp (Nat.le_add_right _ _), pure_bind,
      Nat.add_sub_cancel_left, ← List.append_assoc]
    apply hrest
    rw [List.length_append, hp]

/-- A statistics message with the data of a vendor. -/
theorem vendorStats_makes {type : UInt8} {flags : UInt16} {vendor : UInt32}
    (h : 16 + (payloadBytes payload).length < 2 ^ 16) :
  Makes host xid type
    ([htons ofpstVendor, htons flags].flatten ++ ([htonl vendor].flatten ++ payloadBytes payload))
    3 (createWith host xid type (16 + dataLength (payload.map Payload.buffer)) (fun buf => do
      let buf ← storeFields buf 8 [htons ofpstVendor, htons flags]
      let buf ← storeFields buf 12 [htonl vendor]
      storeData buf 16 (payload.map Payload.buffer) (dataLength (payload.map Payload.buffer))))
  := by
  apply statsFields_makes (k := 0)
  · rw [toNat_add_dataLength (c := 16) h, List.length_append]
    change 16 + _ = 12 + (4 + _)
    omega
  · intro addr done hdone
    exact storeData_draws hdone (by omega)

theorem ccCreateVendorStatsRequest_makes {flags : UInt16} {vendor : UInt32}
    (h : 16 + (payloadBytes payload).length < 2 ^ 16) :
  Makes host xid ofptStatsRequest
    ([htons ofpstVendor, htons flags].flatten ++ ([htonl vendor].flatten ++ payloadBytes payload))
    3 (ccCreateVendorStatsRequest host xid flags vendor (payload.map Payload.buffer))
  := by
  rw [ccCreateVendorStatsRequest, statsRequestWith_eq]
  exact vendorStats_makes h

theorem ccCreateVendorStatsReply_makes {flags : UInt16} {vendor : UInt32}
    (h : 16 + (payloadBytes payload).length < 2 ^ 16) :
  Makes host xid ofptStatsReply
    ([htons ofpstVendor, htons flags].flatten ++ ([htonl vendor].flatten ++ payloadBytes payload))
    3 (ccCreateVendorStatsReply host xid flags vendor (payload.map Payload.buffer))
  := by
  rw [ccCreateVendorStatsReply, statsReplyWith_eq]
  exact vendorStats_makes h

/-- Entries of one size in network order. -/
def entryWires (host : Host) {layout : Struct} (entries : List (Record UInt8 layout)) :
    List UInt8 :=
  (entries.map (fun entry => layout.convert host.littleEndian entry.bytes)).flatten

@[simp]
theorem length_entryWires {layout : Struct} {entries : List (Record UInt8 layout)} :
  (entryWires host entries).length = layout.size * entries.length
  := by
  rw [entryWires, length_flatten_map (fun entry _ => entry.length_convert), List.map_const',
    List.sum_replicate_nat, Nat.mul_comm]

theorem copyHead_draws {α : Type} {list : List α} :
  Draws (min 1 list.length) (copyHead list) ()
  := by
  cases list with
  | nil => exact draws_pure
  | cons a list =>
      rw [List.length_cons, Nat.min_eq_left (Nat.le_add_left 1 _)]
      exact draws_malloc

theorem toNat_add_mul {c n size : ℕ} (h : c + size * n < 2 ^ 16) :
  (UInt16.ofNat c + UInt16.ofNat size * UInt16.ofNat n).toNat = c + size * n
  := by
  rw [← UInt16.ofNat_mul, ← UInt16.ofNat_add, UInt16.toNat_ofNat_of_lt' h]

theorem toNat_add_ofNat {c n : ℕ} (h : c + n < 2 ^ 16) :
  (UInt16.ofNat c + UInt16.ofNat n).toNat = c + n
  := by
  rw [← UInt16.ofNat_add, UInt16.toNat_ofNat_of_lt' h]

theorem PhyPort.toString_eq (port : PhyPort) :
  phyPortToString port.bytes = pure ()
  := if_pos port.named

/-- The loop over ports stores them one behind the other. -/
theorem storePorts_eq (host : Host) (buf : Buffer) (p : ℕ) (ports : List PhyPort) :
  storePorts host buf p (ports.map PhyPort.toRecord)
    = storeFields buf p ((ports.map PhyPort.toRecord).map
        (fun port => ofpPhyPort.convert host.littleEndian port.bytes))
  := by
  induction ports generalizing buf p with
  | nil => rfl
  | cons port ports ih =>
      rw [List.map_cons, List.map_cons, storePorts, storeFields, port.toString_eq, pure_bind,
        Record.length_convert]
      congr 1
      funext buf
      exact ih buf _

theorem ccCreateFeaturesReply_makes {datapathId : UInt64} {nBuffers : UInt32} {nTables : UInt8}
    {capabilities actions : UInt32} {ports : List PhyPort}
    (h : 32 + 48 * ports.length < 2 ^ 16) :
  Makes host xid ofptFeaturesReply
    ([htonll datapathId, htonl nBuffers, [nTables], [0, 0, 0], htonl capabilities,
      htonl actions].flatten ++ entryWires host (ports.map PhyPort.toRecord))
    (min 1 ports.length + 3)
    (ccCreateFeaturesReply host xid datapathId nBuffers nTables capabilities actions
      (ports.map PhyPort.toRecord))
  := by
  have hcopy : Draws (min 1 (ports.map PhyPort.toRecord).length)
      (copyHead (ports.map PhyPort.toRecord)) () := copyHead_draws
  rw [List.length_map] at hcopy
  apply Makes.after hcopy
  apply createWith_fields_then (k := 0)
  · have hlength : (32 + 48 * UInt16.ofNat ports.length).toNat = 32 + 48 * ports.length :=
      toNat_add_mul h
    rw [List.length_map, hlength, List.length_append, length_entryWires, List.length_map]
    change 32 + 48 * _ = 8 + (24 + 48 * _)
    omega
  · intro addr done hdone
    rw [List.length_map]
    split
    · rw [storePorts_eq]
      exact storeFields_draws hdone
    · next hzero =>
        have hnil : ports = [] := by
          apply List.eq_nil_of_length_eq_zero
          rw [not_not, ← UInt16.toNat_inj, UInt16.toNat_ofNat_of_lt' (by
            simp only [UInt16.size]
            omega)] at hzero
          exact hzero
        subst hnil
        rw [entryWires, List.map_nil, List.map_nil, List.flatten_nil, List.append_nil]
        exact draws_pure

theorem statsListReply_makes {stats flags : UInt16} {layout : Struct}
    {entries : List (Record UInt8 layout)} (h : 12 + layout.size * entries.length < 2 ^ 16) :
  Makes host xid ofptStatsReply
    ([htons stats, htons flags].flatten ++ entryWires host entries) (min 1 entries.length + 3)
    (statsListReply host xid stats layout flags entries)
  := by
  apply Makes.after copyHead_draws
  rw [statsReplyWith_eq]
  apply createWith_fields_then (k := 0)
  · have hlength : (12 + UInt16.ofNat layout.size * UInt16.ofNat entries.length).toNat
        = 12 + layout.size * entries.length := toNat_add_mul h
    rw [hlength, List.length_append, length_entryWires]
    change 12 + _ = 8 + (4 + _)
    omega
  · intro addr done hdone
    exact storeFields_draws hdone

theorem ccCreateFlowStatsReply_makes {flags : UInt16} {flows : List (FlowEntry host)}
    (h : 12 + (flows.map FlowEntry.wire).flatten.length < 2 ^ 16) :
  Makes host xid ofptStatsReply
    ([htons ofpstFlow, htons flags].flatten ++ (flows.map FlowEntry.wire).flatten)
    (min 1 flows.length + (3 + flows.length))
    (ccCreateFlowStatsReply host xid flags (flows.map FlowEntry.block))
  := by
  have hread : ∀ flow : FlowEntry host,
      readShort host flow.block 0 = pure (UInt16.ofNat flow.wire.length) := by
    intro flow
    rw [FlowEntry.readShort_length, FlowEntry.length_wire, UInt16.ofNat_toNat]
  have hhead : Draws (min 1 (flows.map FlowEntry.block).length)
      (copyHead (flows.map FlowEntry.block)) () := copyHead_draws
  rw [List.length_map] at hhead
  apply Makes.after hhead
  rw [sumEntries_eq (fun flow _ => hread flow), pure_bind, statsReplyWith_eq, UInt16.zero_add]
  apply createWith_fields_then
  · have hlength : (12 + UInt16.ofNat (flows.map FlowEntry.wire).flatten.length).toNat
        = 12 + (flows.map FlowEntry.wire).flatten.length := toNat_add_ofNat h
    rw [hlength, List.length_append]
    change 12 + _ = 8 + (4 + _)
    omega
  · intro addr done hdone
    have hsum : flows.length = (flows.map (fun _ => 1)).sum := by
      rw [List.map_const', List.sum_replicate_nat, Nat.mul_one]
    have hlengths : ∀ flow ∈ flows, readShort host flow.block 0
        = pure (UInt16.ofNat flow.wire.length) ∧ flow.wire.length < 2 ^ 16 := by
      intro flow _
      use hread flow
      rw [FlowEntry.length_wire]
      exact UInt16.toNat_lt _
    rw [hsum]
    apply storeEntries_whole _ _ hlengths hdone
    intro flow _ done n p hp hn
    exact flow.htonFlowStats_draws hp hn

theorem ccCreateQueueGetConfigReply_makes {port : UInt16} {queues : List (PacketQueue host)}
    (h : 16 + (queues.map PacketQueue.wire).flatten.length < 2 ^ 16) :
  Makes host xid ofptQueueGetConfigReply
    ([htons port, List.replicate 6 0].flatten ++ (queues.map PacketQueue.wire).flatten)
    (min 1 queues.length + (3 + (queues.map (fun queue => queue.properties.length + 1)).sum))
    (ccCreateQueueGetConfigReply host xid port (queues.map PacketQueue.block))
  := by
  have hread : ∀ queue : PacketQueue host,
      readShort host queue.block 4 = pure (UInt16.ofNat queue.wire.length) := by
    intro queue
    rw [PacketQueue.readShort_len, PacketQueue.length_wire, UInt16.ofNat_toNat]
  have hhead : Draws (min 1 (queues.map PacketQueue.block).length)
      (copyHead (queues.map PacketQueue.block)) () := copyHead_draws
  rw [List.length_map] at hhead
  apply Makes.after hhead
  rw [sumEntries_eq (fun queue _ => hread queue), pure_bind, UInt16.zero_add]
  apply createWith_fields_then
  · have hlength : (16 + UInt16.ofNat (queues.map PacketQueue.wire).flatten.length).toNat
        = 16 + (queues.map PacketQueue.wire).flatten.length := toNat_add_ofNat h
    rw [hlength, List.length_append]
    change 16 + _ = 8 + (8 + _)
    omega
  · intro addr done hdone
    have hlengths : ∀ queue ∈ queues, readShort host queue.block 4
        = pure (UInt16.ofNat queue.wire.length) ∧ queue.wire.length < 2 ^ 16 := by
      intro queue _
      use hread queue
      rw [PacketQueue.length_wire]
      exact UInt16.toNat_lt _
    split
    · apply storeEntries_whole _ _ hlengths hdone
      intro queue _ done n p hp hn
      exact queue.htonPacketQueue_draws hp hn
    · next hzero =>
        -- every queue takes room, so there are less than 65536 of them
        have hcount : queues.length ≤ (queues.map PacketQueue.wire).flatten.length := by
          have hle : ((queues.map PacketQueue.wire).map List.length).length
              ≤ ((queues.map PacketQueue.wire).map List.length).sum := by
            apply List.length_le_sum_of_one_le
            intro n hn
            rw [List.map_map] at hn
            obtain ⟨queue, -, rfl⟩ := List.mem_map.mp hn
            change 1 ≤ queue.wire.length
            rw [PacketQueue.length_wire, queue.len]
            omega
          rwa [List.length_map, List.length_map, ← List.length_flatten] at hle
        have hnil : queues = [] := by
          apply List.eq_nil_of_length_eq_zero
          rw [not_not, List.length_map, ← UInt16.toNat_inj, UInt16.toNat_ofNat_of_lt' (by
            simp only [UInt16.size]
            omega)] at hzero
          exact hzero
        subst hnil
        simpa using draws_pure

/-! ### Messages with actions that are made -/

/-- The blocks of the actions that a builder is given. -/
def blocksOf (actions : Option OpenflowActions) : List (List UInt8) :=
  (actions.map OpenflowActions.list).getD []

section

variable {actions : Option OpenflowActions}

theorem actionsLengthOf_eq (hkeeps : ∀ block ∈ blocksOf actions, KeepsLength host block)
    (h : lenSum host (blocksOf actions) < 2 ^ 16) :
  actionsLengthOf host actions = pure (UInt16.ofNat (lenSum host (blocksOf actions)))
  := by
  cases actions with
  | none => rfl
  | some a =>
      change ∀ block ∈ a.list, KeepsLength host block at hkeeps
      change lenSum host a.list < 2 ^ 16 at h
      have hlength : getActionsLength host ⟨a.nActions, a.list⟩
          = pure (lenSum host a.list : ℤ) := getActionsLength_keeps hkeeps h
      have hofInt : UInt16.ofInt (lenSum host a.list : ℤ) = UInt16.ofNat (lenSum host a.list) := by
        have hmod : ((lenSum host a.list : ℤ) % 2 ^ 16).toNat = lenSum host a.list := by
          omega
        rw [UInt16.ofInt, hmod]
      change (getActionsLength host ⟨a.nActions, a.list⟩ >>= _) = _
      rw [hlength, pure_bind, hofInt]
      rfl

theorem storeActionsOf_underway {addr length n p : ℕ} {done : List UInt8}
    (hkeeps : ∀ block ∈ blocksOf actions, KeepsLength host block) (hp : done.length = p)
    (hn : lenSum host (blocksOf actions) ≤ n) (h : lenSum host (blocksOf actions) < 2 ^ 16) :
  storeActionsOf host actions (UInt16.ofNat (lenSum host (blocksOf actions)))
      (underway addr length done n) p
    = pure (underway addr length (done ++ slots host (blocksOf actions))
        (n - lenSum host (blocksOf actions)))
  := by
  cases actions with
  | none => simp [blocksOf, storeActionsOf, slots, lenSum]
  | some a =>
      have hall : blocksOf (some a) = a.list := rfl
      rw [hall] at hkeeps hn h ⊢
      change (if UInt16.ofNat (lenSum host a.list) > 0 then _ else _) = _
      split
      · exact storeActions_underway hkeeps hp hn
      · next hzero =>
          have hsum : lenSum host a.list = 0 := by
            rw [gt_iff_lt, UInt16.lt_iff_toNat_lt, UInt16.toNat_ofNat_of_lt' h] at hzero
            have hz : UInt16.toNat 0 = 0 := rfl
            omega
          have hnil : slots host a.list = [] := by
            apply List.eq_nil_of_length_eq_zero
            rw [length_slots hkeeps, hsum]
          rw [hnil, hsum, List.append_nil, Nat.sub_zero]

/-- A flow modification with actions that keep to their length. -/
theorem ccCreateFlowMod_slots {m : Record UInt8 ofpMatch} {cookie : UInt64}
    {command idleTimeout hardTimeout priority : UInt16} {bufferId : UInt32}
    {outPort flags : UInt16} (hkeeps : ∀ block ∈ blocksOf actions, KeepsLength host block)
    (h : 72 + lenSum host (blocksOf actions) < 2 ^ 16) :
  Makes host xid ofptFlowMod
    ([ofpMatch.convert host.littleEndian m.bytes, htonll cookie, htons command,
      htons idleTimeout, htons hardTimeout, htons priority, htonl bufferId, htons outPort,
      htons flags].flatten ++ slots host (blocksOf actions)) 3
    (ccCreateFlowMod host xid m cookie command idleTimeout hardTimeout priority bufferId outPort
      flags actions)
  := by
  have hslots := length_slots hkeeps
  rw [ccCreateFlowMod, actionsLengthOf_eq hkeeps (by omega), pure_bind]
  have hmatch : (ofpMatch.convert host.littleEndian m.bytes).length = 40 := Record.length_convert
  apply createWith_fields_then (k := 0)
  · have hlength : (72 + UInt16.ofNat (lenSum host (blocksOf actions))).toNat
        = 72 + lenSum host (blocksOf actions) := toNat_add_ofNat h
    rw [hlength, List.length_append, hslots, List.flatten_cons, List.length_append, hmatch]
    change 72 + _ = 8 + (40 + 24 + _)
    omega
  · intro addr done hdone
    have hp : done.length = 72 := by
      rw [hdone, List.flatten_cons, List.length_append, hmatch]
      rfl
    rw [hslots, storeActionsOf_underway hkeeps hp (Nat.le_refl _) (by omega), Nat.sub_self]
    exact draws_pure

/-- A packet with actions that keep to their length. -/
theorem ccCreatePacketOut_slots (xid : UInt32) {bufferId : UInt32} (inPort : UInt16)
    (payload : Option Payload) (hkeeps : ∀ block ∈ blocksOf actions, KeepsLength host block)
    (hframe : ¬ FrameRefused bufferId (payload.map Payload.buffer))
    (h : 16 + lenSum host (blocksOf actions) + (payloadBytes payload).length < 2 ^ 16) :
  ∃ m, ccCreatePacketOut host xid bufferId inPort actions (payload.map Payload.buffer)
      = created m ∧
    Makes host xid ofptPacketOut
      ([htonl bufferId, htons inPort,
          htons (UInt16.ofNat (lenSum host (blocksOf actions)))].flatten
        ++ (slots host (blocksOf actions) ++ payloadBytes payload)) 3 m
  := by
  have hslots := length_slots hkeeps
  rw [ccCreatePacketOut, if_neg hframe, actionsLengthOf_eq hkeeps (by omega), pure_bind]
  refine ⟨_, rfl, ?_⟩
  have hactions : (UInt16.ofNat (lenSum host (blocksOf actions))).toNat
      = lenSum host (blocksOf actions) :=
    UInt16.toNat_ofNat_of_lt' (by simp only [UInt16.size]; omega)
  have hsum : (16 + UInt16.ofNat (lenSum host (blocksOf actions))).toNat
      = 16 + lenSum host (blocksOf actions) := toNat_add_ofNat (c := 16) (by omega)
  apply createWith_fields_then (k := 0)
  · rw [toNat_add_dataLength (by rw [hsum]; exact h), hsum, List.length_append,
      List.length_append, hslots]
    change _ = 8 + (8 + _)
    omega
  · intro addr done hdone
    have hp : done.length = 16 := hdone
    have hp' : (done ++ slots host (blocksOf actions)).length
        = 16 + lenSum host (blocksOf actions) := by
      rw [List.length_append, hp, hslots]
    rw [List.length_append, hslots,
      storeActionsOf_underway hkeeps hp (Nat.le_add_right _ _) (by omega), pure_bind,
      Nat.add_sub_cancel_left, ← List.append_assoc, hactions]
    exact storeData_draws hp' (by omega)

end

/-- The actions that a message is given, if any, and how many its list says there are. -/
abbrev ActionList (host : Host) := Option (Int32 × List (HostAction host))

/-- The list as the builders are given it. -/
def ActionList.toActions (actions : ActionList host) : Option OpenflowActions :=
  Option.map (fun a => ⟨a.1, a.2.map HostAction.block⟩) actions

/-- The actions of the list. -/
def ActionList.all (actions : ActionList host) : List (HostAction host) :=
  (Option.map Prod.snd actions).getD []

theorem ActionList.blocksOf_toActions {actions : ActionList host} :
  blocksOf actions.toActions = actions.all.map HostAction.block
  := by
  cases actions with
  | none => rfl
  | some a => rfl

theorem ccCreateFlowMod_makes {m : Record UInt8 ofpMatch} {cookie : UInt64}
    {command idleTimeout hardTimeout priority : UInt16} {bufferId : UInt32}
    {outPort flags : UInt16} {actions : ActionList host} (h : 72 + sizes actions.all < 2 ^ 16) :
  Makes host xid ofptFlowMod
    ([ofpMatch.convert host.littleEndian m.bytes, htonll cookie, htons command,
      htons idleTimeout, htons hardTimeout, htons priority, htonl bufferId, htons outPort,
      htons flags].flatten ++ wires actions.all) 3
    (ccCreateFlowMod host xid m cookie command idleTimeout hardTimeout priority bufferId outPort
      flags actions.toActions)
  := by
  have hblocks := actions.blocksOf_toActions
  rw [← slots_hostActions, ← hblocks]
  apply ccCreateFlowMod_slots
  · rw [hblocks]
    exact hostActions_keepLength
  · rwa [hblocks, lenSum_hostActions]

theorem ccCreatePacketOut_makes (xid : UInt32) {bufferId : UInt32} (inPort : UInt16)
    (actions : ActionList host)
    (hframe : ¬ FrameRefused bufferId (payload.map Payload.buffer))
    (h : 16 + sizes actions.all + (payloadBytes payload).length < 2 ^ 16) :
  ∃ m, ccCreatePacketOut host xid bufferId inPort actions.toActions
      (payload.map Payload.buffer) = created m ∧
    Makes host xid ofptPacketOut
      ([htonl bufferId, htons inPort, htons (UInt16.ofNat (sizes actions.all))].flatten
        ++ (wires actions.all ++ payloadBytes payload)) 3 m
  := by
  have hblocks := actions.blocksOf_toActions
  rw [← slots_hostActions, ← lenSum_hostActions, ← hblocks]
  apply ccCreatePacketOut_slots
  · rw [hblocks]
    exact hostActions_keepLength
  · exact hframe
  · rwa [hblocks, lenSum_hostActions]

/-! ### Messages that may be null -/

/-- What fails is the allocation of the block for the header. -/
def World.HeaderFails (w : World) : Prop :=
  w.mallocs 0 = true ∧ w.mallocs 2 = false

/-- As `Makes`, except that the result is null when the block for the header cannot be
allocated. -/
def MakesOrNull (host : Host) (xid : UInt32) (type : UInt8) (body : List UInt8)
    (m : Action (Option Buffer)) : Prop :=
  ∀ (E : Fault → Prop) (w : World) (Q : Option Buffer → World → Prop),
    (w.HeaderFails → ∀ w', Q none w') →
    (8 + body.length ≤ host.scratch → w.Grants 3 →
      ∀ buf w', Created host xid type body buf → Q (some buf) w') →
    (¬ w.HeaderFails → ¬ w.Grants 3 → E .null) →
    (¬ w.HeaderFails → host.scratch < 8 + body.length → E .null ∧ E .overrun) →
    Program.Ends E m w Q

section

variable {type : UInt8} {body : List UInt8}

/-- A header, with which something is done that does not fail once the header is there. -/
theorem header_makesOrNull {length : UInt16} {f : Option Buffer → Action (Option Buffer)}
    (hlength : length.toNat = 8 + body.length) (hnone : f none = pure none)
    (hsome : ∀ addr, f (some (underway addr length.toNat (ofpHeader host xid type length)
        body.length))
      = pure (some (underway addr length.toNat (ofpHeader host xid type length ++ body) 0))) :
  MakesOrNull host xid type body (ccCreateHeader host xid type length >>= f)
  := by
  intro E w Q hfails hmade hnull hscratch
  have hmax : max 8 length.toNat = 8 + body.length := by omega
  rw [Program.ends_bind, ends_ccCreateHeader, hmax, hnone]
  constructor
  · intro h0
    apply hnull
    · rintro ⟨h, -⟩
      rw [h] at h0
      cases h0
    · intro hgrants
      rw [hgrants 0 (by omega)] at h0
      cases h0
  intro h0
  constructor
  · intro h2
    exact hfails ⟨h0, h2⟩ _
  intro h2
  have hno : ¬ w.HeaderFails := by
    rintro ⟨-, h⟩
    rw [h] at h2
    cases h2
  use fun hlt => (hscratch hno hlt).2
  intro hle
  constructor
  · intro h1
    apply hnull hno
    intro hgrants
    rw [hgrants 1 (by omega)] at h1
    cases h1
  · intro h1
    rw [headed_eq hlength, hsome]
    apply hmade hle (World.grants_three h0 h1 h2)
    apply created_underway hlength

/-- A message that is a header only. -/
theorem ccCreateHeader_makesOrNull :
  MakesOrNull host xid type [] (ccCreateHeader host xid type 8)
  := by
  rw [← bind_pure (ccCreateHeader host xid type 8)]
  apply header_makesOrNull rfl rfl
  intro addr
  rw [List.append_nil]
  rfl

/-- The whole of a buffer is read. -/
theorem look_payload {p : Payload} (hpos : 0 < (payloadBytes (some p)).length) :
  look host p.buffer (bcopy 0 (payloadBytes (some p)).length) = pure (payloadBytes (some p))
  := by
  obtain ⟨⟨addr, data, length⟩, hexact⟩ := p
  cases data with
  | none => exact absurd hpos (Nat.lt_irrefl 0)
  | some block =>
      have hblock : Holds (memoryOf block host.beyond) 0 block := holds_getD block host.beyond []
      have hbytes : bytesAt (memoryOf block host.beyond) 0 block.length = block :=
        hblock.map_range'
      have hyields : (bcopy 0 block.length).Yields (memoryOf block host.beyond) _ _ :=
        yields_bcopy 0 block.length
      simp only [look, payloadBytes, Option.getD_some, hyields host.fuel, hbytes]

theorem copyBody_payload {addr length : ℕ} {header : List UInt8} (hheader : header.length = 8)
    (hsize : (payloadBytes payload).length < 2 ^ 16) :
  copyBody host (underway addr length header (payloadBytes payload).length)
      (payload.map Payload.buffer)
    = pure (underway addr length (header ++ payloadBytes payload) 0)
  := by
  cases payload with
  | none => simp [copyBody, payloadBytes]
  | some p =>
      have hlength := dataLength_payload hsize
      have hpos := dataLength_payload_pos hsize
      rw [Option.map_some] at hlength hpos ⊢
      rw [copyBody]
      split
      · next hp =>
          rw [hlength, look_payload (hpos.mp hp), pure_bind,
            fill_underway hheader (Nat.le_refl _), Nat.sub_self]
      · next hzero =>
          have hnil : payloadBytes (some p) = [] := by
            rw [hpos] at hzero
            exact List.eq_nil_of_length_eq_zero (by omega)
          rw [hnil, List.append_nil, List.length_nil]

theorem ccCreateEchoRequest_makesOrNull (h : 8 + (payloadBytes payload).length < 2 ^ 16) :
  MakesOrNull host xid ofptEchoRequest (payloadBytes payload)
    (ccCreateEchoRequest host xid (payload.map Payload.buffer))
  := by
  apply header_makesOrNull
  · exact toNat_add_dataLength (c := 8) h
  · rfl
  · intro addr
    simp only [copyBody_payload length_ofpHeader (show (payloadBytes payload).length < 2 ^ 16 by
      omega), pure_bind]

theorem ccCreateEchoReply_makesOrNull (hempty : payloadBytes payload = []) :
  MakesOrNull host xid ofptEchoReply (payloadBytes payload)
    (ccCreateEchoReply host xid (payload.map Payload.buffer))
  := by
  have hsize : 8 + (payloadBytes payload).length < 2 ^ 16 := by
    rw [hempty]
    decide
  have hzero : ¬ dataLength (payload.map Payload.buffer) > 0 := by
    rw [dataLength_payload_pos (by omega), hempty]
    exact Nat.lt_irrefl 0
  apply header_makesOrNull
  · exact toNat_add_dataLength (c := 8) hsize
  · exact if_neg hzero
  · intro addr
    simp only [copyBody_payload length_ofpHeader (show (payloadBytes payload).length < 2 ^ 16 by
      omega), pure_bind]

theorem ccCreateEchoReply_makes (hpos : 0 < (payloadBytes payload).length)
    (h : 8 + (payloadBytes payload).length < 2 ^ 16) :
  Makes host xid ofptEchoReply (payloadBytes payload) 3
    (ccCreateEchoReply host xid (payload.map Payload.buffer))
  := by
  have hsize : (payloadBytes payload).length < 2 ^ 16 := by omega
  have hdata := (dataLength_payload_pos hsize).mpr hpos
  have hunchecked : ccCreateEchoReply host xid (payload.map Payload.buffer)
      = createWith host xid ofptEchoReply (8 + dataLength (payload.map Payload.buffer))
          (fun buf => copyBody host buf (payload.map Payload.buffer)) := by
    rw [ccCreateEchoReply, createWith]
    congr 1
    funext buf
    cases buf with
    | none => exact if_pos hdata
    | some buf => rfl
  rw [hunchecked]
  apply createWith_makes (k := 0) (toNat_add_dataLength (c := 8) h)
  intro addr
  rw [copyBody_payload length_ofpHeader hsize]
  exact draws_pure

end

/-! ### Messages of fields only -/

theorem ccCreateFeaturesRequest_makes :
  Makes host xid ofptFeaturesRequest [] 3 (ccCreateFeaturesRequest host xid)
  := by
  have hunchecked : ccCreateFeaturesRequest host xid
      = createWith host xid ofptFeaturesRequest 8 (fun buf => do
        let _ ← look host buf (Reader.read 1)
        pure buf) := by
    rw [ccCreateFeaturesRequest, createWith]
    congr 1
    funext buf
    cases buf with
    | none => rfl
    | some buf => simp only [unchecked, bind_assoc, pure_bind]
  rw [hunchecked]
  apply createWith_makes (k := 0) rfl
  intro addr
  rw [List.append_nil]
  exact draws_pure

theorem ccCreateSetConfig_makes {flags missSendLen : UInt16} :
  Makes host xid ofptSetConfig [htons flags, htons missSendLen].flatten 3
    (ccCreateSetConfig host xid flags missSendLen)
  := by
  have hunchecked : ccCreateSetConfig host xid flags missSendLen
      = createWith host xid ofptSetConfig 12
          (fun buf => storeFields buf 8 [htons flags, htons missSendLen]) := by
    rw [ccCreateSetConfig, createWith]
    congr 1
    funext buf
    cases buf with
    | none => rfl
    | some buf =>
        simp only [unchecked, storeFields, bind_assoc, pure_bind]
        rfl
  rw [hunchecked]
  exact createWith_fields rfl

/-- A statistics message whose body is fields only. -/
theorem statsWith_makes {type : UInt8} {stats length flags : UInt16} {fields : List (List UInt8)}
    (hlength : length.toNat = 12 + fields.flatten.length) :
  Makes host xid type ([htons stats, htons flags].flatten ++ fields.flatten) 3
    (createWith host xid type length (fun buf => do
      let buf ← storeFields buf 8 [htons stats, htons flags]
      storeFields buf 12 fields))
  := by
  apply createWith_fields_then (k := 0)
  · rw [List.length_append, hlength]
    change 12 + _ = 8 + (4 + _)
    omega
  · intro addr done hdone
    exact storeFields_draws hdone

theorem statsRequestWith_makes {stats length flags : UInt16} {fields : List (List UInt8)}
    (hlength : length.toNat = 12 + fields.flatten.length) :
  Makes host xid ofptStatsRequest ([htons stats, htons flags].flatten ++ fields.flatten) 3
    (statsRequestWith host xid stats length flags (fun buf => storeFields buf 12 fields))
  := by
  rw [statsRequestWith_eq]
  exact statsWith_makes hlength

theorem statsReplyWith_makes {stats length flags : UInt16} {fields : List (List UInt8)}
    (hlength : length.toNat = 12 + fields.flatten.length) :
  Makes host xid ofptStatsReply ([htons stats, htons flags].flatten ++ fields.flatten) 3
    (statsReplyWith host xid stats length flags (fun buf => storeFields buf 12 fields))
  := by
  rw [statsReplyWith_eq]
  exact statsWith_makes hlength

end

/-! ### All of them -/

/-- With these arguments the builder is asked for the message of a type with a body, which
takes a number of allocations. The lists are of actions, entries and queues that are as long
as they say, the buffers have as many bytes as they say, and the names of ports end. -/
inductive Asks (host : Host) : Builder → UInt8 → List UInt8 → ℕ → Prop where
  | hello : Asks host .hello ofptHello [] 3
  | error (type code : UInt16) (data : Option Payload) :
    Asks host (.error type code (data.map Payload.buffer)) ofptError
      ([htons type, htons code].flatten ++ payloadBytes data) 3
  | echoRequest (data : Option Payload) :
    Asks host (.echoRequest (data.map Payload.buffer)) ofptEchoRequest (payloadBytes data) 3
  | echoReply (data : Option Payload) :
    Asks host (.echoReply (data.map Payload.buffer)) ofptEchoReply (payloadBytes data) 3
  | vendor (vendorId : UInt32) (data : Option Payload) :
    Asks host (.vendor vendorId (data.map Payload.buffer)) ofptVendor
      ([htonl vendorId].flatten ++ payloadBytes data) 3
  | featuresRequest : Asks host .featuresRequest ofptFeaturesRequest [] 3
  | featuresReply (datapathId : UInt64) (nBuffers : UInt32) (nTables : UInt8)
      (capabilities actions : UInt32) (ports : List PhyPort) :
    Asks host (.featuresReply datapathId nBuffers nTables capabilities actions
        (ports.map PhyPort.toRecord)) ofptFeaturesReply
      ([htonll datapathId, htonl nBuffers, [nTables], [0, 0, 0], htonl capabilities,
        htonl actions].flatten ++ entryWires host (ports.map PhyPort.toRecord))
      (min 1 ports.length + 3)
  | getConfigRequest : Asks host .getConfigRequest ofptGetConfigRequest [] 3
  | getConfigReply (flags missSendLen : UInt16) :
    Asks host (.getConfigReply flags missSendLen) ofptGetConfigReply
      [htons flags, htons missSendLen].flatten 3
  | setConfig (flags missSendLen : UInt16) :
    Asks host (.setConfig flags missSendLen) ofptSetConfig
      [htons flags, htons missSendLen].flatten 3
  | packetIn (bufferId : UInt32) (totalLen inPort : UInt16) (reason : UInt8)
      (data : Option Payload) :
    Asks host (.packetIn bufferId totalLen inPort reason (data.map Payload.buffer)) ofptPacketIn
      ([htonl bufferId, htons totalLen, htons inPort, [reason], [0]].flatten
        ++ payloadBytes data) 3
  | flowRemoved (m : Record UInt8 ofpMatch) (cookie : UInt64) (priority : UInt16)
      (reason : UInt8) (durationSec durationNsec : UInt32) (idleTimeout : UInt16)
      (packetCount byteCount : UInt64) :
    Asks host (.flowRemoved m cookie priority reason durationSec durationNsec idleTimeout
      packetCount byteCount) ofptFlowRemoved
      [ofpMatch.convert host.littleEndian m.bytes, htonll cookie, htons priority, [reason], [0],
        htonl durationSec, htonl durationNsec, htons idleTimeout, [0, 0], htonll packetCount,
        htonll byteCount].flatten 3
  | portStatus (reason : UInt8) (desc : PhyPort) :
    Asks host (.portStatus reason desc.toRecord) ofptPortStatus
      [[reason], List.replicate 7 0, ofpPhyPort.convert host.littleEndian desc.bytes].flatten 3
  | packetOut (bufferId : UInt32) (inPort : UInt16) (actions : ActionList host)
      (data : Option Payload) (hframe : ¬ FrameRefused bufferId (data.map Payload.buffer)) :
    Asks host (.packetOut bufferId inPort actions.toActions (data.map Payload.buffer))
      ofptPacketOut
      ([htonl bufferId, htons inPort, htons (UInt16.ofNat (sizes actions.all))].flatten
        ++ (wires actions.all ++ payloadBytes data)) 3
  | flowMod (m : Record UInt8 ofpMatch) (cookie : UInt64)
      (command idleTimeout hardTimeout priority : UInt16) (bufferId : UInt32)
      (outPort flags : UInt16) (actions : ActionList host) :
    Asks host (.flowMod m cookie command idleTimeout hardTimeout priority bufferId outPort flags
      actions.toActions) ofptFlowMod
      ([ofpMatch.convert host.littleEndian m.bytes, htonll cookie, htons command,
        htons idleTimeout, htons hardTimeout, htons priority, htonl bufferId, htons outPort,
        htons flags].flatten ++ wires actions.all) 3
  | portMod (portNo : UInt16) (hwAddr : HwAddr) (config mask advertise : UInt32) :
    Asks host (.portMod portNo hwAddr config mask advertise) ofptPortMod
      [htons portNo, hwAddr.bytes, htonl config, htonl mask, htonl advertise,
        List.replicate 4 0].flatten 3
  | descStatsRequest (flags : UInt16) :
    Asks host (.descStatsRequest flags) ofptStatsRequest
      [htons ofpstDesc, htons flags].flatten 3
  | flowStatsRequest (flags : UInt16) (m : Record UInt8 ofpMatch) (tableId : UInt8)
      (outPort : UInt16) :
    Asks host (.flowStatsRequest flags m tableId outPort) ofptStatsRequest
      ([htons ofpstFlow, htons flags].flatten
        ++ [ofpMatch.convert host.littleEndian m.bytes, [tableId], [0], htons outPort].flatten) 3
  | aggregateStatsRequest (flags : UInt16) (m : Record UInt8 ofpMatch) (tableId : UInt8)
      (outPort : UInt16) :
    Asks host (.aggregateStatsRequest flags m tableId outPort) ofptStatsRequest
      ([htons ofpstAggregate, htons flags].flatten
        ++ [ofpMatch.convert host.littleEndian m.bytes, [tableId], [0], htons outPort].flatten) 3
  | tableStatsRequest (flags : UInt16) :
    Asks host (.tableStatsRequest flags) ofptStatsRequest
      [htons ofpstTable, htons flags].flatten 3
  | portStatsRequest (flags portNo : UInt16) :
    Asks host (.portStatsRequest flags portNo) ofptStatsRequest
      ([htons ofpstPort, htons flags].flatten ++ [htons portNo, List.replicate 6 0].flatten) 3
  | queueStatsRequest (flags portNo : UInt16) (queueId : UInt32) :
    Asks host (.queueStatsRequest flags portNo queueId) ofptStatsRequest
      ([htons ofpstQueue, htons flags].flatten ++ [htons portNo, [0, 0], htonl queueId].flatten) 3
  | vendorStatsRequest (flags : UInt16) (vendorId : UInt32) (data : Option Payload) :
    Asks host (.vendorStatsRequest flags vendorId (data.map Payload.buffer)) ofptStatsRequest
      ([htons ofpstVendor, htons flags].flatten
        ++ ([htonl vendorId].flatten ++ payloadBytes data)) 3
  | flowStatsReply (flags : UInt16) (flows : List (FlowEntry host)) :
    Asks host (.flowStatsReply flags (flows.map FlowEntry.block)) ofptStatsReply
      ([htons ofpstFlow, htons flags].flatten ++ (flows.map FlowEntry.wire).flatten)
      (min 1 flows.length + (3 + flows.length))
  | aggregateStatsReply (flags : UInt16) (packetCount byteCount : UInt64) (flowCount : UInt32) :
    Asks host (.aggregateStatsReply flags packetCount byteCount flowCount) ofptStatsReply
      ([htons ofpstAggregate, htons flags].flatten
        ++ [htonll packetCount, htonll byteCount, htonl flowCount,
          List.replicate 4 0].flatten) 3
  | tableStatsReply (flags : UInt16) (tables : List (Record UInt8 ofpTableStats)) :
    Asks host (.tableStatsReply flags tables) ofptStatsReply
      ([htons ofpstTable, htons flags].flatten ++ entryWires host tables)
      (min 1 tables.length + 3)
  | portStatsReply (flags : UInt16) (ports : List (Record UInt8 ofpPortStats)) :
    Asks host (.portStatsReply flags ports) ofptStatsReply
      ([htons ofpstPort, htons flags].flatten ++ entryWires host ports)
      (min 1 ports.length + 3)
  | queueStatsReply (flags : UInt16) (queues : List (Record UInt8 ofpQueueStats)) :
    Asks host (.queueStatsReply flags queues) ofptStatsReply
      ([htons ofpstQueue, htons flags].flatten ++ entryWires host queues)
      (min 1 queues.length + 3)
  | vendorStatsReply (flags : UInt16) (vendorId : UInt32) (data : Option Payload) :
    Asks host (.vendorStatsReply flags vendorId (data.map Payload.buffer)) ofptStatsReply
      ([htons ofpstVendor, htons flags].flatten
        ++ ([htonl vendorId].flatten ++ payloadBytes data)) 3
  | barrierRequest : Asks host .barrierRequest ofptBarrierRequest [] 3
  | barrierReply : Asks host .barrierReply ofptBarrierReply [] 3
  | queueGetConfigRequest (port : UInt16) :
    Asks host (.queueGetConfigRequest port) ofptQueueGetConfigRequest
      [htons port, [0, 0]].flatten 3
  | queueGetConfigReply (port : UInt16) (queues : List (PacketQueue host)) :
    Asks host (.queueGetConfigReply port (queues.map PacketQueue.block)) ofptQueueGetConfigReply
      ([htons port, List.replicate 6 0].flatten ++ (queues.map PacketQueue.wire).flatten)
      (min 1 queues.length + (3 + (queues.map (fun queue => queue.properties.length + 1)).sum))

/-- The builder returns null when the block for the header cannot be allocated; the others
use the header that they get unchecked. -/
def Builder.PassesNull : Builder → Prop
  | hello | getConfigRequest | barrierRequest | barrierReply | echoRequest _ => True
  | echoReply buf => dataLength buf = 0
  | _ => False

/-- Every builder makes the message that it is asked for. -/
theorem Asks.makes {host : Host} (xid : UInt32) {builder : Builder} {type : UInt8}
    {body : List UInt8} {k : ℕ} (h : Asks host builder type body k)
    (hsize : 8 + body.length < 2 ^ 16) (hnull : ¬ builder.PassesNull) :
  ∃ m, builder.create host xid = created m ∧ Makes host xid type body k m
  := by
  cases h with
  | hello | getConfigRequest | barrierRequest | barrierReply | echoRequest =>
      exact absurd trivial hnull
  | error type code data =>
      refine ⟨_, rfl, ccCreateError_makes ?_⟩
      rw [List.length_append] at hsize
      change 8 + (4 + _) < _ at hsize
      omega
  | echoReply data =>
      have hlength : (payloadBytes data).length < 2 ^ 16 := by omega
      have hpos : 0 < (payloadBytes data).length := by
        rw [← dataLength_payload hlength, Nat.pos_iff_ne_zero]
        intro hzero
        apply hnull
        apply UInt16.toNat_inj.mp hzero
      exact ⟨_, rfl, ccCreateEchoReply_makes hpos hsize⟩
  | vendor vendorId data =>
      refine ⟨_, rfl, ccCreateVendor_makes ?_⟩
      rw [List.length_append] at hsize
      change 8 + (4 + _) < _ at hsize
      omega
  | featuresRequest => exact ⟨_, rfl, ccCreateFeaturesRequest_makes⟩
  | featuresReply datapathId nBuffers nTables capabilities actions ports =>
      refine ⟨_, rfl, ccCreateFeaturesReply_makes ?_⟩
      rw [List.length_append, length_entryWires, List.length_map] at hsize
      change 8 + (24 + 48 * _) < _ at hsize
      omega
  | getConfigReply flags missSendLen => exact ⟨_, rfl, createWith_fields rfl⟩
  | setConfig flags missSendLen => exact ⟨_, rfl, ccCreateSetConfig_makes⟩
  | packetIn bufferId totalLen inPort reason data =>
      refine ⟨_, rfl, ccCreatePacketIn_makes ?_⟩
      rw [List.length_append] at hsize
      change 8 + (10 + _) < _ at hsize
      omega
  | flowRemoved m cookie priority reason durationSec durationNsec idleTimeout packetCount
      byteCount =>
      refine ⟨_, rfl, createWith_fields ?_⟩
      rw [List.flatten_cons, List.length_append, Record.length_convert]
      rfl
  | portStatus reason desc =>
      refine ⟨_, rfl, ?_⟩
      rw [ccCreatePortStatus, desc.toString_eq, pure_bind]
      apply createWith_fields
      rw [List.flatten_cons, List.flatten_cons, List.flatten_cons, List.length_append,
        List.length_append, List.length_append, Record.length_convert]
      rfl
  | packetOut bufferId inPort actions data hframe =>
      apply ccCreatePacketOut_makes xid inPort actions hframe
      rw [List.length_append, List.length_append, length_wires] at hsize
      change 8 + (8 + _) < _ at hsize
      omega
  | flowMod m cookie command idleTimeout hardTimeout priority bufferId outPort flags actions =>
      refine ⟨_, rfl, ccCreateFlowMod_makes ?_⟩
      rw [List.length_append, length_wires, List.flatten_cons, List.length_append,
        Record.length_convert] at hsize
      change 8 + (40 + 24 + _) < _ at hsize
      omega
  | portMod portNo hwAddr config mask advertise =>
      refine ⟨_, rfl, createWith_fields ?_⟩
      rw [List.flatten_cons, List.flatten_cons, List.length_append, List.length_append,
        hwAddr.size]
      rfl
  | descStatsRequest flags => exact ⟨_, rfl, createWith_fields rfl⟩
  | flowStatsRequest flags m tableId outPort =>
      refine ⟨_, rfl, statsRequestWith_makes ?_⟩
      rw [List.flatten_cons, List.length_append, Record.length_convert]
      rfl
  | aggregateStatsRequest flags m tableId outPort =>
      refine ⟨_, rfl, statsRequestWith_makes ?_⟩
      rw [List.flatten_cons, List.length_append, Record.length_convert]
      rfl
  | tableStatsRequest flags => exact ⟨_, rfl, createWith_fields rfl⟩
  | portStatsRequest flags portNo => exact ⟨_, rfl, statsRequestWith_makes rfl⟩
  | queueStatsRequest flags portNo queueId => exact ⟨_, rfl, statsRequestWith_makes rfl⟩
  | vendorStatsRequest flags vendorId data =>
      refine ⟨_, rfl, ccCreateVendorStatsRequest_makes ?_⟩
      rw [List.length_append, List.length_append] at hsize
      change 8 + (4 + (4 + _)) < _ at hsize
      omega
  | flowStatsReply flags flows =>
      refine ⟨_, rfl, ccCreateFlowStatsReply_makes ?_⟩
      rw [List.length_append] at hsize
      change 8 + (4 + _) < _ at hsize
      omega
  | aggregateStatsReply flags packetCount byteCount flowCount =>
      exact ⟨_, rfl, statsReplyWith_makes rfl⟩
  | tableStatsReply flags tables =>
      refine ⟨_, rfl, statsListReply_makes ?_⟩
      rw [List.length_append, length_entryWires] at hsize
      change 8 + (4 + _) < _ at hsize
      omega
  | portStatsReply flags ports =>
      refine ⟨_, rfl, statsListReply_makes ?_⟩
      rw [List.length_append, length_entryWires] at hsize
      change 8 + (4 + _) < _ at hsize
      omega
  | queueStatsReply flags queues =>
      refine ⟨_, rfl, statsListReply_makes ?_⟩
      rw [List.length_append, length_entryWires] at hsize
      change 8 + (4 + _) < _ at hsize
      omega
  | vendorStatsReply flags vendorId data =>
      refine ⟨_, rfl, ccCreateVendorStatsReply_makes ?_⟩
      rw [List.length_append, List.length_append] at hsize
      change 8 + (4 + (4 + _)) < _ at hsize
      omega
  | queueGetConfigRequest port => exact ⟨_, rfl, createWith_fields rfl⟩
  | queueGetConfigReply port queues =>
      refine ⟨_, rfl, ccCreateQueueGetConfigReply_makes ?_⟩
      rw [List.length_append] at hsize
      change 8 + (8 + _) < _ at hsize
      omega

/-- Every builder that passes a null pointer on makes the message that it is asked for or
returns null. -/
theorem Asks.makesOrNull {host : Host} (xid : UInt32) {builder : Builder} {type : UInt8}
    {body : List UInt8} {k : ℕ} (h : Asks host builder type body k)
    (hsize : 8 + body.length < 2 ^ 16) (hnull : builder.PassesNull) :
  k = 3 ∧ ∃ m, builder.create host xid = created m ∧ MakesOrNull host xid type body m
  := by
  cases h with
  | hello | getConfigRequest | barrierRequest | barrierReply =>
      exact ⟨rfl, _, rfl, ccCreateHeader_makesOrNull⟩
  | echoRequest data => exact ⟨rfl, _, rfl, ccCreateEchoRequest_makesOrNull hsize⟩
  | echoReply data =>
      have hlength : (payloadBytes data).length < 2 ^ 16 := by omega
      have hempty : payloadBytes data = [] := by
        apply List.eq_nil_of_length_eq_zero
        rw [← dataLength_payload hlength]
        exact congrArg UInt16.toNat hnull
      exact ⟨rfl, _, rfl, ccCreateEchoReply_makesOrNull hempty⟩
  | _ => exact hnull.elim

end CcController
