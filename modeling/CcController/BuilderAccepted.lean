import CcController.BuilderResults

/-!
# The messages with actions are accepted

The bytes of a message that has been made are in the memory that a validator reads, field
after field. A validator of a message with actions accepts it when the fields and the actions
are legal, and a walk that decodes the actions gives back what was appended.
-/

namespace CcController

/-! ### Messages in memory -/

section

variable {host : Host} {xid : UInt32} {type : UInt8} {body : List UInt8} {buf : Buffer}

theorem Created.holds (h : Created host xid type body buf) :
  Holds (buf.memory host) 0 (ofpHeader host xid type (UInt16.ofNat (8 + body.length))) ∧
    Holds (buf.memory host) 8 body
  := by
  have hblock : Holds (buf.memory host) 0
      (ofpHeader host xid type (UInt16.ofNat (8 + body.length)) ++ body) := by
    rw [Buffer.memory, h.data, Option.getD_some]
    exact holds_getD _ host.beyond []
  rw [holds_append, length_ofpHeader] at hblock
  exact hblock

/-- The length field of a message. -/
theorem Created.be16_length (h : Created host xid type body buf) :
  be16 (buf.memory host) 2 = UInt16.ofNat (8 + body.length)
  := be16_htons h.holds.1.2.2.1 h.holds.1.2.2.2.1

theorem Created.headerOk (h : Created host xid type body buf) {minLength : ℕ}
    (hmin : minLength ≤ 8 + body.length) :
  HeaderOk buf.length (buf.memory host) type minLength ushrtMax.toNat
  := by
  have hsize := h.size
  refine ⟨h.holds.1.1, h.holds.1.2.1, ?_, ?_, ?_⟩
  · rw [h.be16_length, UInt16.toNat_ofNat_of_lt' hsize, h.length]
  · rw [h.length]
    exact hmin
  · rw [h.length]
    change _ ≤ 65535
    omega

/-- What the length of a message leaves after its first `c` bytes. -/
theorem Created.length_sub (h : Created host xid type body buf) {c n : ℕ}
    (hbody : 8 + body.length = c + n) :
  (be16 (buf.memory host) 2 - UInt16.ofNat c).toNat = n
  := by
  have hsize := h.size
  rw [h.be16_length, hbody, UInt16.ofNat_add, UInt16.add_comm, UInt16.add_sub_cancel,
    UInt16.toNat_ofNat_of_lt' (by simp only [UInt16.size]; omega)]

end

/-- A check that accepts is passed. -/
theorem returns_zero {mem : Memory} {check rest : MessageReader ℤ} (hcheck : Accepts check mem)
    (hrest : rest.Returns mem 0) :
  (passing check rest).Returns mem 0
  := by
  obtain ⟨ret, hret, hpos⟩ := hcheck
  exact returns_passing.mpr (.inr ⟨ret, hret, hpos, hrest⟩)

/-- The header of a message that has been made is passed. -/
theorem returns_zero_header {host : Host} {xid : UInt32} {type : UInt8} {body : List UInt8}
    {buf : Buffer} (h : Created host xid type body buf) (htype : type ≤ ofptQueueGetConfigReply)
    {minLength : ℕ} (hmin : minLength ≤ 8 + body.length) {rest : MessageReader ℤ}
    (hrest : rest.Returns (buf.memory host) 0) :
  (passing (validateHeader (some buf.length) type minLength ushrtMax.toNat) rest).Returns
    (buf.memory host) 0
  := by
  have hlength : 8 ≤ buf.length := by
    rw [h.length]
    omega
  exact returns_zero ((validateHeader_accepts hlength htype).mpr (h.headerOk hmin)) hrest

/-! ### Legal fields -/

/-- The fields of a match that are checked are legal. -/
structure LegalMatch (m : OfpMatch) : Prop where
  wildcards : m.wildcards &&& ~~~ofpfwAll = 0
  dlVlan : m.dlVlan = ushrtMax ∨ m.dlVlan &&& ~~~vlanVidMask = 0
  dlVlanPcp : m.dlVlanPcp &&& ~~~vlanPcpMask = 0
  nwTos : m.nwTos &&& ~~~nwTosMask = 0

theorem LegalMatch.validateMatch_eq {m : OfpMatch} (h : LegalMatch m) :
  validateMatch m = 0
  := by
  have hwildcards : validateWildcards m.wildcards = 0 := if_neg (not_not.mpr h.wildcards)
  have hvid : validateVlanVid m.dlVlan = 0 := by
    apply if_neg
    rintro ⟨hne, hmask⟩
    rcases h.dlVlan with heq | hzero
    · exact hne heq
    · exact hmask hzero
  have hpcp : validateVlanPcp m.dlVlanPcp = 0 := if_neg (not_not.mpr h.dlVlanPcp)
  have htos : validateNwTos m.nwTos = 0 := if_neg (not_not.mpr h.nwTos)
  rw [validateMatch, hwildcards, hvid, hpcp, htos]
  rfl

/-- A call with legal arguments appends a legal action. -/
theorem AppendCall.Legal.action {host : Host} {uninit : Memory} {call : AppendCall}
    (h : call.Legal) (hfits : call.Fits) :
  (call.action host uninit hfits).Legal
  := by
  have hfour : ∀ (a b : UInt16) (after : List UInt8) (v : UInt16),
      host.short (host.half a ++ (host.half b ++ (host.half v ++ after))) 4 = v := by
    intro a b after v
    have hshort : host.short ((host.half a ++ host.half b) ++ ((host.half v ++ after) ++ []))
        ((host.half a ++ host.half b).length + 0) = host.short (host.half v ++ after) 0 :=
      Host.short_append _ _ (by simp)
    rw [Host.short_half, List.append_nil, List.append_assoc] at hshort
    simpa using hshort
  have hbyte : ∀ (a b : UInt16) (after : List UInt8) (v : UInt8),
      (host.half a ++ (host.half b ++ ([v] ++ after))).getD 4 0 = v := by
    intro a b after v
    rw [← List.append_assoc]
    have hlength : (host.half a ++ host.half b).length = 4 := by simp
    rw [List.getD_eq_getElem?_getD, List.getElem?_append_right (Nat.le_of_eq hlength), hlength]
    rfl
  have hblock : (call.action host uninit hfits).block = call.block host uninit := rfl
  rw [HostAction.Legal, HostAction.type, hblock]
  cases call with
  | output port _ | enqueue port _ =>
      simp +decide only [AppendCall.block, List.append_assoc, Host.short_half, hfour,
        forall_const, false_implies, and_true]
      exact h
  | setVlanVid vlanVid =>
      simp +decide only [AppendCall.block, List.append_assoc, Host.short_half, hfour,
        forall_const, false_implies, and_true, true_and]
      exact h
  | setVlanPcp vlanPcp =>
      simp +decide only [AppendCall.block, List.append_assoc, Host.short_half, hbyte,
        forall_const, false_implies, and_true, true_and]
      exact h
  | setNwTos nwTos =>
      simp +decide only [AppendCall.block, List.append_assoc, Host.short_half, hbyte,
        forall_const, false_implies, true_and]
      exact h
  | _ =>
      simp +decide only [AppendCall.block, List.append_assoc, Host.short_half, false_implies,
        and_true]

/-! ### Flow modifications -/

/-- The fields of a flow modification that are checked are legal. -/
structure LegalFlowModArgs (m : OfpMatch) (command priority outPort flags : UInt16) : Prop where
  matchLegal : LegalMatch m
  commandDefined : command ≤ ofpfcDeleteStrict
  highestPriority : m.wildcards &&& ofpfwAll = 0 → priority = 0xffff
  outPortLegal : command = ofpfcDelete ∨ command = ofpfcDeleteStrict →
    outPort ≠ ofppNone → validatePhyPortNo outPort = 0
  flagsDefined : flags &&& ~~~flowModFlags = 0

section

variable {host : Host} {xid : UInt32}

/-- How long a flow modification is. -/
theorem flowMod_length {m : Record UInt8 ofpMatch} {cookie : UInt64}
    {command idleTimeout hardTimeout priority : UInt16} {bufferId : UInt32}
    {outPort flags : UInt16} {actions : List (HostAction host)} :
  8 + ([ofpMatch.convert host.littleEndian m.bytes, htonll cookie, htons command,
      htons idleTimeout, htons hardTimeout, htons priority, htonl bufferId, htons outPort,
      htons flags].flatten ++ wires actions).length = 72 + sizes actions
  := by
  rw [List.length_append, length_wires, List.flatten_cons, List.length_append,
    Record.length_convert]
  change 8 + (40 + 24 + _) = _
  omega

/-- Where the actions of a flow modification are. -/
theorem Created.flowMod_wires {m : Record UInt8 ofpMatch} {cookie : UInt64}
    {command idleTimeout hardTimeout priority : UInt16} {bufferId : UInt32}
    {outPort flags : UInt16} {actions : List (HostAction host)} {buf : Buffer}
    (h : Created host xid ofptFlowMod
      ([ofpMatch.convert host.littleEndian m.bytes, htonll cookie, htons command,
        htons idleTimeout, htons hardTimeout, htons priority, htonl bufferId, htons outPort,
        htons flags].flatten ++ wires actions) buf) :
  Holds (buf.memory host) 72 (wires actions)
  := by
  have hwires := (holds_append.mp h.holds.2).2
  rwa [List.flatten_cons, List.length_append, Record.length_convert] at hwires

/-- A flow modification with legal fields and actions is accepted. -/
theorem Created.validateFlowMod_returns {m : Record UInt8 ofpMatch}
    {cookie : UInt64} {command idleTimeout hardTimeout priority : UInt16} {bufferId : UInt32}
    {outPort flags : UInt16} {actions : List (HostAction host)} {buf : Buffer}
    (h : Created host xid ofptFlowMod
      ([ofpMatch.convert host.littleEndian m.bytes, htonll cookie, htons command,
        htons idleTimeout, htons hardTimeout, htons priority, htonl bufferId, htons outPort,
        htons flags].flatten ++ wires actions) buf)
    (hlegal : LegalFlowModArgs (host.matchOf m.bytes) command priority outPort flags)
    (hactions : ∀ a ∈ actions, a.Legal) :
  (validateFlowMod (some buf.length)).Returns (buf.memory host) 0
  := by
  have hsize : ofpMatch.size = 40 := rfl
  have hbody := h.holds.2
  simp only [List.flatten_cons, List.flatten_nil, List.append_nil, List.append_assoc,
    holds_append, Record.length_convert, length_htonll, length_htons, length_htonl, hsize,
    Nat.reduceAdd] at hbody
  obtain ⟨hmatch, -, hcommand, -, -, hpriority, -, hport, hflags, hwires⟩ := hbody
  have hmatchAt : matchAt (buf.memory host) 8 = host.matchOf m.bytes :=
    matchAt_hton (Nat.le_of_eq m.size.symm) hmatch
  have hrest : (be16 (buf.memory host) 2 - 72).toNat = sizes actions := h.length_sub flowMod_length
  rw [validateFlowMod, unlessNull_some]
  apply returns_zero_header h (by decide) (by rw [flowMod_length]; omega)
  simp only [Reader.returns_bind, returns_ntohMatch, exists_eq_left, hmatchAt]
  apply returns_zero
  · rw [accepts_pure, hlegal.matchLegal.validateMatch_eq]
    decide
  simp only [Reader.returns_bind, returns_ntohs, exists_eq_left, be16_of_holds hcommand]
  rw [Reader.returns_ite]
  refine .inr ⟨by rw [gt_iff_lt, UInt16.not_lt]; exact hlegal.commandDefined, ?_⟩
  apply returns_zero
  · rw [validateFlowPriority_accepts, be16_of_holds hpriority]
    exact hlegal.highestPriority
  apply returns_zero
  · simp only [accepts_ite, accepts_bind, returns_ntohs, exists_eq_left, accepts_pure,
      be16_of_holds hport, Int.not_lt, validatePhyPortNo_nonneg]
    by_cases hdelete : command = ofpfcDelete ∨ command = ofpfcDeleteStrict
    · left
      use hdelete
      by_cases hnone : outPort ≠ ofppNone
      · exact .inl ⟨hnone, hlegal.outPortLegal hdelete hnone⟩
      · exact .inr ⟨hnone, Int.le_refl 0⟩
    · exact .inr ⟨hdelete, Int.le_refl 0⟩
  simp only [Reader.returns_bind, returns_ntohs, exists_eq_left, be16_of_holds hflags]
  rw [Reader.returns_ite]
  refine .inr ⟨not_not.mpr hlegal.flagsDefined, ?_⟩
  simp only [headerLength, Reader.returns_bind, returns_ntohs, exists_eq_left]
  apply returns_zero
  · rw [accepts_ite, validateActions_accepts, accepts_pure]
    by_cases hpos : be16 (buf.memory host) 2 - 72 > 0
    · exact .inl ⟨hpos, actions_walkEnds hactions hwires hrest.symm⟩
    · exact .inr ⟨hpos, Int.lt_irrefl 0⟩
  · exact Reader.returns_pure.mpr rfl

/-! ### Packets -/

/-- How long a packet is. -/
theorem packetOut_length {bufferId : UInt32} {inPort : UInt16}
    {actions : List (HostAction host)} {data : List UInt8} :
  8 + ([htonl bufferId, htons inPort, htons (UInt16.ofNat (sizes actions))].flatten
      ++ (wires actions ++ data)).length = 16 + sizes actions + data.length
  := by
  rw [List.length_append, List.length_append, length_wires]
  change 8 + (8 + _) = _
  omega

/-- A packet with a legal port and legal actions is accepted. -/
theorem Created.validatePacketOut_returns {bufferId : UInt32} {inPort : UInt16}
    {actions : List (HostAction host)} {data : List UInt8} {buf : Buffer}
    (h : Created host xid ofptPacketOut
      ([htonl bufferId, htons inPort, htons (UInt16.ofNat (sizes actions))].flatten
        ++ (wires actions ++ data)) buf)
    (hport : validatePhyPortNo inPort = 0) (hactions : ∀ a ∈ actions, a.Legal) :
  (validatePacketOut (some buf.length)).Returns (buf.memory host) 0
  := by
  have hsize := h.size
  rw [packetOut_length] at hsize
  have hbody := h.holds.2
  simp only [List.flatten_cons, List.flatten_nil, List.append_nil, List.append_assoc,
    holds_append, length_htons, length_htonl, Nat.reduceAdd] at hbody
  obtain ⟨-, hin, hlen, hwires, -⟩ := hbody
  have hsizes : (UInt16.ofNat (sizes actions)).toNat = sizes actions :=
    UInt16.toNat_ofNat_of_lt' (by simp only [UInt16.size]; omega)
  rw [validatePacketOut, unlessNull_some]
  apply returns_zero_header h (by decide) (by rw [packetOut_length]; omega)
  simp only [Reader.returns_bind, returns_ntohs, exists_eq_left, be16_of_holds hin]
  apply returns_zero
  · rw [accepts_pure, hport]
    decide
  simp only [Reader.returns_bind, returns_ntohs, exists_eq_left, be16_of_holds hlen]
  apply returns_zero
  · rw [accepts_ite, validateActions_accepts, accepts_pure]
    by_cases hpos : UInt16.ofNat (sizes actions) > 0
    · exact .inl ⟨hpos, actions_walkEnds hactions hwires hsizes.symm⟩
    · exact .inr ⟨hpos, Int.lt_irrefl 0⟩
  · simp only [headerLength, Reader.returns_bind, returns_ntohs, exists_eq_left,
      Reader.returns_pure]

end

/-! ### Actions that have been appended -/

/-- The list that calls of the `append` functions build, one after the other. -/
def builtActions (host : Host) (calls : List (Memory × AppendCall)) : Action OpenflowActions := do
  let actions ← createActions
  appendActions host actions calls

/-- How long the actions are together that the calls append. -/
def callsLength (host : Host) (calls : List (Memory × AppendCall)) : ℕ :=
  (calls.map (fun call => (call.2.block host call.1).length)).sum

/-- The actions that the calls append. -/
def hostActions (host : Host) (calls : List (Memory × AppendCall))
    (h : ∀ call ∈ calls, call.2.Fits) : ActionList host :=
  some (.ofNat calls.length, calls.pmap (fun call hfits => call.2.action host call.1 hfits) h)

section

variable {host : Host} {xid : UInt32} {type : UInt8} {body : List UInt8} {k : ℕ} {w : World}
  {calls : List (Memory × AppendCall)} {h : ∀ call ∈ calls, call.2.Fits}

theorem builtActions_draws (h : ∀ call ∈ calls, call.2.Fits) :
  Draws (2 * calls.length + 1) (builtActions host calls)
    { nActions := .ofNat calls.length, list := calls.map (fun call => call.2.block host call.1) }
  := by
  have hcreate : Draws 1 createActions { nActions := 0, list := [] } := by
    apply draws_malloc_bind (l := 0)
    exact draws_pure
  have happend : Draws (2 * calls.length) (appendActions host { nActions := 0, list := [] } calls)
      { nActions := 0 + .ofNat calls.length,
        list := [] ++ calls.map (fun call => call.2.block host call.1) } :=
    AppendCall.appendActions_draws h
  rw [Int32.zero_add, List.nil_append] at happend
  rw [Nat.add_comm]
  exact hcreate.bind happend

theorem toActions_hostActions :
  (hostActions host calls h).toActions = some
    { nActions := .ofNat calls.length, list := calls.map (fun call => call.2.block host call.1) }
  := by
  rw [hostActions, ActionList.toActions, Option.map_some, List.map_pmap]
  simp only [AppendCall.action, List.pmap_eq_map]

theorem sizes_hostActions :
  sizes (hostActions host calls h).all = callsLength host calls
  := by
  change ((calls.pmap _ h).map _).sum = _
  rw [List.map_pmap, callsLength]
  simp only [← HostAction.length_block, AppendCall.action, List.pmap_eq_map]

theorem decoded_hostActions :
  (hostActions host calls h).all.map (fun a => a.layout.clear a.block)
    = calls.map (fun call => call.2.block host (fun _ => 0))
  := by
  change (calls.pmap _ h).map _ = _
  rw [List.map_pmap]
  simp only [AppendCall.action, AppendCall.clear_block, List.pmap_eq_map]

theorem hostActions_legal (hlegal : ∀ call ∈ calls, call.2.Legal) :
  ∀ a ∈ (hostActions host calls h).all, a.Legal
  := by
  intro a ha
  obtain ⟨call, hcall, rfl⟩ := List.mem_pmap.mp ha
  exact (hlegal call hcall).action (h call hcall)

/-! ### Flow modifications and packets -/

/-- A flow modification with the actions that have been appended. -/
theorem builtFlowMod_makes (h : ∀ call ∈ calls, call.2.Fits) {m : Record UInt8 ofpMatch}
    {cookie : UInt64} {command idleTimeout hardTimeout priority : UInt16} {bufferId : UInt32}
    {outPort flags : UInt16} (hsize : 72 + callsLength host calls < 2 ^ 16) :
  Makes host xid ofptFlowMod
    ([ofpMatch.convert host.littleEndian m.bytes, htonll cookie, htons command,
      htons idleTimeout, htons hardTimeout, htons priority, htonl bufferId, htons outPort,
      htons flags].flatten ++ wires (hostActions host calls h).all) (2 * calls.length + 4) (do
    let actions ← builtActions host calls
    ccCreateFlowMod host xid m cookie command idleTimeout hardTimeout priority bufferId outPort
      flags (some actions))
  := by
  apply Makes.after (builtActions_draws h) (k := 3)
  rw [← toActions_hostActions (h := h)]
  apply ccCreateFlowMod_makes
  rwa [sizes_hostActions]

end

/-- Flow modifications and packets with legal fields, and with actions that calls of the
`append` functions with legal arguments have built, are accepted by their validators. -/
theorem builtActions_accepted (host : Host) (xid : UInt32) (calls : List (Memory × AppendCall))
    (hfits : ∀ call ∈ calls, call.2.Fits) (hlegal : ∀ call ∈ calls, call.2.Legal) (w : World) :
  (∀ (m : Record UInt8 ofpMatch) (cookie : UInt64)
      (command idleTimeout hardTimeout priority : UInt16) (bufferId : UInt32)
      (outPort flags : UInt16),
    LegalFlowModArgs (host.matchOf m.bytes) command priority outPort flags →
    72 + callsLength host calls < 2 ^ 16 → 72 + callsLength host calls ≤ host.scratch →
    Delivers (2 * calls.length + 4) (do
        let actions ← builtActions host calls
        ccCreateFlowMod host xid m cookie command idleTimeout hardTimeout priority bufferId
          outPort flags (some actions)) w
      (fun result => ∃ buf, result = some buf ∧
        (validateFlowMod (some buf.length)).Returns (buf.memory host) 0)) ∧
  (∀ (bufferId : UInt32) (inPort : UInt16) (data : Option Payload),
    ¬ FrameRefused bufferId (data.map Payload.buffer) → validatePhyPortNo inPort = 0 →
    16 + callsLength host calls + (payloadBytes data).length < 2 ^ 16 →
    16 + callsLength host calls + (payloadBytes data).length ≤ host.scratch →
    Delivers (2 * calls.length + 4) (do
        let actions ← builtActions host calls
        ccCreatePacketOut host xid bufferId inPort (some actions) (data.map Payload.buffer)) w
      (fun result => ∃ buf, result = .inr (some buf) ∧
        (validatePacketOut (some buf.length)).Returns (buf.memory host) 0))
  := by
  have hsizes : sizes (hostActions host calls hfits).all = callsLength host calls :=
    sizes_hostActions
  constructor
  · intro m cookie command idleTimeout hardTimeout priority bufferId outPort flags hargs hsize
      hroom
    apply (builtFlowMod_makes hfits hsize).delivers
    · rwa [flowMod_length, hsizes]
    · intro buf hbuf
      exact ⟨buf, rfl, hbuf.validateFlowMod_returns hargs (hostActions_legal hlegal)⟩
  · intro bufferId inPort data hframe hport hsize hroom
    rw [← hsizes] at hsize hroom
    obtain ⟨m, hcreate, hm⟩ := ccCreatePacketOut_makes xid inPort (hostActions host calls hfits)
      hframe hsize
    rw [toActions_hostActions] at hcreate
    apply Delivers.after (builtActions_draws hfits) (k := 3)
    intro w'
    rw [hcreate, delivers_created]
    apply hm.delivers
    · rwa [packetOut_length]
    · intro buf hbuf
      exact ⟨buf, rfl, hbuf.validatePacketOut_returns hport (hostActions_legal hlegal)⟩

/-- A match of nothing but zeros. -/
def zeroMatch : Record UInt8 ofpMatch where
  bytes := List.replicate 40 0
  size := rfl

theorem threeCalls_legal :
  ∀ call ∈ threeCalls, call.2.Legal
  := by
  have hport : validatePhyPortNo 1 = 0 := by decide
  simp [threeCalls, AppendCall.Legal, hport]

set_option maxRecDepth 4000 in
/-- A flow modification and a packet with three actions. -/
theorem builtActions_accepted_three :
  Delivers (2 * threeCalls.length + 4) (do
      let actions ← builtActions Host.roomy threeCalls
      ccCreateFlowMod Host.roomy 1 zeroMatch 0 0 0 0 0xffff 0 ofppNone 0 (some actions))
    World.start (fun result => ∃ buf, result = some buf ∧
      (validateFlowMod (some buf.length)).Returns (buf.memory Host.roomy) 0) ∧
  Delivers (2 * threeCalls.length + 4) (do
      let actions ← builtActions Host.roomy threeCalls
      ccCreatePacketOut Host.roomy 1 0 1 (some actions)
        ((none : Option Payload).map Payload.buffer))
    World.start (fun result => ∃ buf, result = .inr (some buf) ∧
      (validatePacketOut (some buf.length)).Returns (buf.memory Host.roomy) 0)
  := by
  have haccepted := builtActions_accepted Host.roomy 1 threeCalls threeCalls_fit
    threeCalls_legal World.start
  have hargs : LegalFlowModArgs (Host.roomy.matchOf zeroMatch.bytes) 0 0xffff ofppNone 0 :=
    ⟨⟨by decide, by decide, by decide, by decide⟩, by decide, fun _ => rfl, by decide, by decide⟩
  exact ⟨haccepted.1 zeroMatch 0 0 0 0 0xffff 0 ofppNone 0 hargs (by decide) (by decide),
    haccepted.2 0 1 none (fun h => absurd h.1 (by decide)) (by decide) (by decide) (by decide)⟩

/-- A walk over the actions of a flow modification decodes the actions that have been
appended, in the order of the calls and with zeros in their padding, and ends with the
message. -/
theorem builtActions_decoded (host : Host) (xid : UInt32) (calls : List (Memory × AppendCall))
    (hfits : ∀ call ∈ calls, call.2.Fits) (m : Record UInt8 ofpMatch) (cookie : UInt64)
    (command idleTimeout hardTimeout priority : UInt16) (bufferId : UInt32)
    (outPort flags : UInt16) (hsize : 72 + callsLength host calls < 2 ^ 16)
    (hroom : 72 + callsLength host calls ≤ host.scratch) (w : World) :
  Delivers (2 * calls.length + 4) (do
      let actions ← builtActions host calls
      ccCreateFlowMod host xid m cookie command idleTimeout hardTimeout priority bufferId
        outPort flags (some actions)) w
    (fun result => ∃ buf, result = some buf ∧
      (decodeActions host 72 buf.length).Returns (buf.memory host)
        (buf.length, calls.map (fun call => call.2.block host (fun _ => 0))))
  := by
  apply (builtFlowMod_makes hfits hsize).delivers
  · rwa [flowMod_length, sizes_hostActions]
  · intro buf hbuf
    refine ⟨buf, rfl, ?_⟩
    rw [← decoded_hostActions (h := hfits)]
    apply decodeActions_returns hbuf.flowMod_wires
    rw [hbuf.length, flowMod_length]

set_option maxRecDepth 4000 in
/-- The three actions are decoded, the last one with its body. -/
theorem builtActions_decoded_three :
  Delivers (2 * threeCalls.length + 4) (do
      let actions ← builtActions Host.roomy threeCalls
      ccCreateFlowMod Host.roomy 1 zeroMatch 0 0 0 0 0xffff 0 ofppNone 0 (some actions))
    World.start (fun result => ∃ buf, result = some buf ∧
      (decodeActions Host.roomy 72 buf.length).Returns (buf.memory Host.roomy)
        (buf.length, [[0, 0, 8, 0, 1, 0, 64, 0], [3, 0, 8, 0, 0, 0, 0, 0],
          [0xff, 0xff, 16, 0, 5, 0, 0, 0, 1, 2, 3, 4, 5, 6, 7, 8]]))
  := builtActions_decoded Host.roomy 1 threeCalls threeCalls_fit zeroMatch 0 0 0 0 0xffff
    0 ofppNone 0 (by decide) (by decide) World.start

end CcController
