import CcController.Builders
import CcController.Requests

/-!
# The xid of a message that is created

The header has the xid in the byte order of the host, and whatever a builder stores it stores
behind the header. So the xid that a handler reads from the message is `Host.wireXid` of the
one it was created with: the same number on a big-endian host, and on a little-endian one
exactly if its bytes read the same backwards.
-/

namespace CcController

/-- The xid keeps its value when the host is big-endian, or when its bytes read the same
backwards. -/
theorem wireXid_eq_iff {host : Host} {xid : UInt32} :
  host.wireXid xid = xid ↔ host.littleEndian = false ∨ (htonl xid).reverse = htonl xid
  := by
  rw [Host.wireXid, Host.bytes_eq]
  cases host.littleEndian with
  | false =>
      simp only [true_or, iff_true]
      exact be32_htonl xid
  | true =>
      simp only [Bool.true_eq_false, false_or]
      change be32 (fun i => ((htonl xid).reverse).getD i 0) 0 = xid ↔ _
      constructor
      · intro h
        rw [← htonl_be32 (show (htonl xid).reverse.length = 4 from rfl), h]
      · intro h
        rw [h, be32_htonl]

/-- Different numbers are different in network order too. -/
theorem wireXid_injective {host : Host} {xid xid' : UInt32}
    (h : host.wireXid xid = host.wireXid xid') :
  xid = xid'
  := by
  have hbytes := congrArg htonl h
  rw [Host.wireXid, Host.wireXid, htonl_be32 host.length_bytes, htonl_be32 host.length_bytes,
    Host.bytes_eq, Host.bytes_eq] at hbytes
  have horder := congrArg (reorder host.littleEndian) hbytes
  rw [reorder_reorder, reorder_reorder] at horder
  rw [← be32_htonl xid, horder, be32_htonl]

/-! ### What stays of the header -/

/-- If the block has room for a header, then the xid is in its place. -/
def XidIfHeader (host : Host) (xid : UInt32) (buf : Buffer) : Prop :=
  ∀ block, buf.data = some block → 8 ≤ block.length → (block.drop 4).take 4 = host.bytes xid

/-- The block has room for a header, and the xid is in its place. -/
def HasXid (host : Host) (xid : UInt32) (buf : Buffer) : Prop :=
  ∃ block, buf.data = some block ∧ 8 ≤ block.length ∧ (block.drop 4).take 4 = host.bytes xid

section

variable {host : Host} {xid : UInt32} {buf : Buffer} {w : World}

theorem HasXid.ifHeader (h : HasXid host xid buf) :
  XidIfHeader host xid buf
  := by
  obtain ⟨block, hdata, -, hxid⟩ := h
  intro block' hdata' _
  obtain rfl := Option.some.inj (hdata.symm.trans hdata')
  exact hxid

/-- Once something has been stored behind the header, there is room for the header. -/
theorem fill_hasXid {p : ℕ} {bytes : List UInt8} (hp : 8 ≤ p) (h : XidIfHeader host xid buf) :
  Program.Ensures (fill buf p bytes) w (fun buf' _ => HasXid host xid buf')
  := by
  apply ensures_fill
  intro block hdata hfits
  have hlong : 8 ≤ block.length := by omega
  have htake : (block.take p).length = p := by
    rw [List.length_take]
    omega
  refine ⟨_, rfl, ?_, ?_⟩
  · simp only [List.length_append, List.length_drop, htake]
    omega
  · rw [← h block hdata hlong, List.append_assoc, List.drop_append_of_le_length (by omega),
      List.take_append_of_le_length (by rw [List.length_drop]; omega), List.drop_take,
      List.take_take, Nat.min_eq_left (by omega)]

theorem storeFields_hasXid {fields : List (List UInt8)} {p : ℕ} (hp : 8 ≤ p)
    (h : HasXid host xid buf) :
  Program.Ensures (storeFields buf p fields) w (fun buf' _ => HasXid host xid buf')
  := by
  induction fields generalizing buf p w with
  | nil => exact h
  | cons field fields ih =>
      apply Program.ends_bind.mpr
      apply (fill_hasXid hp h.ifHeader).mono
      intro buf' w' h'
      apply ih (by omega) h'

theorem storeFields_cons_hasXid {field : List UInt8} {fields : List (List UInt8)} {p : ℕ}
    (hp : 8 ≤ p) (h : XidIfHeader host xid buf) :
  Program.Ensures (storeFields buf p (field :: fields)) w (fun buf' _ => HasXid host xid buf')
  := by
  apply Program.ends_bind.mpr
  apply (fill_hasXid hp h).mono
  intro buf' w' h'
  apply storeFields_hasXid (by omega) h'

theorem storeData_hasXid {p : ℕ} {data : Option Buffer} {n : UInt16} (hp : 8 ≤ p)
    (h : HasXid host xid buf) :
  Program.Ensures (storeData buf p data n) w (fun buf' _ => HasXid host xid buf')
  := by
  apply Program.ends_ite.mpr
  constructor
  · intro _
    apply Program.ensures_bind_any
    intro bytes w'
    apply fill_hasXid hp h.ifHeader
  · intro _
    exact h

theorem storeActions_hasXid {list : List (List UInt8)} {p : ℕ} (hp : 8 ≤ p)
    (h : HasXid host xid buf) :
  Program.Ensures (storeActions host buf p list) w (fun buf' _ => HasXid host xid buf')
  := by
  induction list generalizing buf p w with
  | nil => exact h
  | cons action list ih =>
      apply Program.ensures_bind_any
      intro len w₁
      apply Program.ensures_bind_any
      intro bytes w₂
      apply Program.ends_bind.mpr
      apply (fill_hasXid hp h.ifHeader).mono
      intro buf' w' h'
      apply ih (by omega) h'

theorem storeActionsOf_hasXid {actions : Option OpenflowActions} {actionsLength : UInt16} {p : ℕ}
    (hp : 8 ≤ p) (h : HasXid host xid buf) :
  Program.Ensures (storeActionsOf host actions actionsLength buf p) w
    (fun buf' _ => HasXid host xid buf')
  := by
  cases actions with
  | none => exact h
  | some actions =>
      apply Program.ends_ite.mpr
      exact ⟨fun _ => storeActions_hasXid hp h, fun _ => h⟩

theorem htonFlowActions_hasXid {fs : List UInt8} {fuel p q : ℕ} {actionsLength : UInt16}
    (hp : 8 ≤ p) (h : HasXid host xid buf) :
  Program.Ensures (htonFlowActions host fs fuel buf p q actionsLength) w
    (fun buf' _ => HasXid host xid buf')
  := by
  induction fuel generalizing buf p q actionsLength w with
  | zero => trivial
  | succ fuel ih =>
      apply Program.ends_ite.mpr
      constructor
      · intro _
        apply Program.ensures_bind_any
        intro bytes w₁
        apply Program.ends_bind.mpr
        apply (fill_hasXid hp h.ifHeader).mono
        intro buf' w' h'
        apply Program.ensures_bind_any
        intro len w₂
        apply ih (by omega) h'
      · intro _
        exact h

theorem htonFlowStats_hasXid {p : ℕ} {src : List UInt8} (hp : 8 ≤ p) (h : HasXid host xid buf) :
  Program.Ensures (htonFlowStats host buf p src) w (fun buf' _ => HasXid host xid buf')
  := by
  apply Program.ensures_bind_any
  intro length w₁
  apply Program.ensures_bind_any
  intro _ w₂
  apply Program.ensures_bind_any
  intro fs w₃
  apply Program.ensures_bind_any
  intro fields w₄
  apply Program.ends_bind.mpr
  apply (fill_hasXid hp h.ifHeader).mono
  intro buf' w' h'
  apply htonFlowActions_hasXid (by omega) h'

theorem htonQueueProperty_hasXid {p q : ℕ} {pq : List UInt8} (hp : 8 ≤ p)
    (h : HasXid host xid buf) :
  Program.Ensures (htonQueueProperty host buf p pq q) w (fun buf' _ => HasXid host xid buf')
  := by
  apply Program.ensures_bind_any
  intro len w₁
  apply Program.ensures_bind_any
  intro _ w₂
  apply Program.ensures_bind_any
  intro ph w₃
  apply Program.ensures_bind_any
  intro property w₄
  apply Program.ensures_bind_any
  intro length w₅
  apply Program.ends_bind.mpr
  apply (storeFields_hasXid hp h).mono
  intro buf' w' h'
  apply Program.ensures_bind_any
  intro srcProperty w₆
  apply Program.ends_ite.mpr
  constructor
  · intro _
    apply Program.ensures_bind_any
    intro rate w₇
    apply fill_hasXid (by omega) h'.ifHeader
  · intro _
    exact h'

theorem htonQueueProperties_hasXid {pq : List UInt8} {fuel p q : ℕ} {propertiesLength : UInt16}
    (hp : 8 ≤ p) (h : HasXid host xid buf) :
  Program.Ensures (htonQueueProperties host pq fuel buf p q propertiesLength) w
    (fun buf' _ => HasXid host xid buf')
  := by
  induction fuel generalizing buf p q propertiesLength w with
  | zero => trivial
  | succ fuel ih =>
      apply Program.ends_ite.mpr
      constructor
      · intro _
        apply Program.ends_bind.mpr
        apply (htonQueueProperty_hasXid hp h).mono
        intro buf' w' h'
        apply Program.ensures_bind_any
        intro len w₂
        apply ih (by omega) h'
      · intro _
        exact h

theorem htonPacketQueue_hasXid {p : ℕ} {src : List UInt8} (hp : 8 ≤ p)
    (h : HasXid host xid buf) :
  Program.Ensures (htonPacketQueue host buf p src) w (fun buf' _ => HasXid host xid buf')
  := by
  apply Program.ensures_bind_any
  intro len w₁
  apply Program.ensures_bind_any
  intro _ w₂
  apply Program.ensures_bind_any
  intro pq w₃
  apply Program.ensures_bind_any
  intro fields w₄
  apply Program.ends_bind.mpr
  apply (fill_hasXid hp h.ifHeader).mono
  intro buf' w' h'
  apply htonQueueProperties_hasXid (by omega) h'

theorem storeEntries_hasXid {hton : Buffer → ℕ → List UInt8 → Action Buffer} {o p : ℕ}
    {list : List (List UInt8)}
    (hton_hasXid : ∀ {buf : Buffer} {p : ℕ} {src : List UInt8} {w : World}, 8 ≤ p →
      HasXid host xid buf →
        Program.Ensures (hton buf p src) w (fun buf' _ => HasXid host xid buf'))
    (hp : 8 ≤ p) (h : HasXid host xid buf) :
  Program.Ensures (storeEntries host hton o buf p list) w (fun buf' _ => HasXid host xid buf')
  := by
  induction list generalizing buf p w with
  | nil => exact h
  | cons entry list ih =>
      apply Program.ends_bind.mpr
      apply (hton_hasXid hp h).mono
      intro buf' w' h'
      apply Program.ensures_bind_any
      intro len w₁
      apply ih (by omega) h'

end

/-! ### Messages that are created -/

/-- If a message is created it has the xid. -/
def CreatesXid (host : Host) (xid : UInt32) (result : Option Buffer) : Prop :=
  ∀ buf, result = some buf → HasXid host xid buf

section

variable {host : Host} {xid : UInt32} {type : UInt8} {w : World}

theorem headed_xid {length : UInt16} {addr : ℕ} :
  XidIfHeader host xid (headed host xid type length addr)
  := by
  rintro _ ⟨⟩ hlong
  rw [List.length_take] at hlong
  have hheader : (ofpHeader host xid type length).drop 4 = host.bytes xid := rfl
  rw [List.drop_take, List.take_take, List.drop_append_of_le_length (by simp), hheader,
    Nat.min_eq_left (by omega), List.take_left' Host.length_bytes]

/-- A message that is a header only has room for it. -/
theorem headed_hasXid {addr : ℕ} :
  HasXid host xid (headed host xid type 8 addr)
  := by
  have hlong : ((ofpHeader host xid type 8 ++ List.replicate (UInt16.toNat 8 - 8) 0).take
      (UInt16.toNat 8)).length = 8 := by
    rw [List.length_take, List.length_append, length_ofpHeader]
    rfl
  have hle := Nat.le_of_eq hlong.symm
  have hxid : XidIfHeader host xid (headed host xid type 8 addr) := headed_xid
  exact ⟨_, rfl, hle, hxid _ rfl hle⟩

/-- What is created is a header with zeros behind it. -/
theorem ccCreateHeader_headed {length : UInt16} {P : Buffer → Prop}
    (h : ∀ addr, P (headed host xid type length addr)) :
  Program.Ensures (ccCreateHeader host xid type length) w
    (fun result _ => ∀ buf, result = some buf → P buf)
  := by
  apply ends_ccCreateHeader.mpr
  refine ⟨fun _ => trivial, fun _ => ⟨fun _ _ h => ?_, fun _ => ⟨fun _ => trivial, fun _ =>
    ⟨fun _ => trivial, fun _ buf hbuf => ?_⟩⟩⟩⟩
  · cases h
  · cases hbuf
    exact h _

theorem ccCreateHeader_xid {length : UInt16} :
  Program.Ensures (ccCreateHeader host xid type length) w
    (fun result _ => ∀ buf, result = some buf → XidIfHeader host xid buf)
  := ccCreateHeader_headed (fun _ => headed_xid)

/-- A message that is a header only. -/
theorem ccCreateHeader_hasXid :
  Program.Ensures (ccCreateHeader host xid type 8) w (fun result _ => CreatesXid host xid result)
  := ccCreateHeader_headed (fun _ => headed_hasXid)

/-- A message whose body is stored behind the header. -/
theorem createWith_xid {length : UInt16} {rest : Buffer → Action Buffer}
    (hrest : ∀ (buf : Buffer) (w : World), XidIfHeader host xid buf →
      Program.Ensures (rest buf) w (fun buf' _ => HasXid host xid buf')) :
  Program.Ensures (createWith host xid type length rest) w
    (fun result _ => CreatesXid host xid result)
  := by
  apply Program.ends_bind.mpr
  apply ccCreateHeader_xid.mono
  rintro (_ | buf) w' h
  · trivial
  · apply Program.ends_bind.mpr
    apply (hrest buf w' (h buf rfl)).mono
    rintro buf' w'' h' _ ⟨⟩
    exact h'

/-- A message to which a body is added. -/
theorem unchecked_xid {m : Action (Option Buffer)} {rest : Buffer → Action Buffer}
    (hm : Program.Ensures m w (fun result _ => CreatesXid host xid result))
    (hrest : ∀ (buf : Buffer) (w : World), HasXid host xid buf →
      Program.Ensures (rest buf) w (fun buf' _ => HasXid host xid buf')) :
  Program.Ensures (do
      let buf ← m
      unchecked buf fun buf => do
      let buf ← rest buf
      pure (some buf)) w
    (fun result _ => CreatesXid host xid result)
  := by
  apply Program.ends_bind.mpr
  apply hm.mono
  rintro (_ | buf) w' h
  · trivial
  · apply Program.ends_bind.mpr
    apply (hrest buf w' (h buf rfl)).mono
    rintro buf' w'' h' _ ⟨⟩
    exact h'

theorem statsRequest_xid {type length flags : UInt16} :
  Program.Ensures (ccCreateStatsRequest host xid type length flags) w
    (fun result _ => CreatesXid host xid result)
  := createWith_xid (fun _ _ h => storeFields_cons_hasXid (Nat.le_refl 8) h)

theorem statsReply_xid {type length flags : UInt16} :
  Program.Ensures (ccCreateStatsReply host xid type length flags) w
    (fun result _ => CreatesXid host xid result)
  := createWith_xid (fun _ _ h => storeFields_cons_hasXid (Nat.le_refl 8) h)

/-- Fields and then other data behind the header. -/
theorem fields_then_xid {field : List UInt8} {fields : List (List UInt8)}
    {rest : Buffer → Action Buffer} {buf : Buffer} (h : XidIfHeader host xid buf)
    (hrest : ∀ (buf : Buffer) (w : World), HasXid host xid buf →
      Program.Ensures (rest buf) w (fun buf' _ => HasXid host xid buf')) :
  Program.Ensures (do
      let buf ← storeFields buf 8 (field :: fields)
      rest buf) w
    (fun buf' _ => HasXid host xid buf')
  := by
  apply Program.ends_bind.mpr
  apply (storeFields_cons_hasXid (Nat.le_refl 8) h).mono
  intro buf' w' h'
  apply hrest buf' w' h'

/-- Fields and then other data behind fields that are there already. -/
theorem storeFields_then_xid {fields : List (List UInt8)} {rest : Buffer → Action Buffer}
    {buf : Buffer} (h : HasXid host xid buf)
    (hrest : ∀ (buf : Buffer) (w : World), HasXid host xid buf →
      Program.Ensures (rest buf) w (fun buf' _ => HasXid host xid buf')) :
  Program.Ensures (do
      let buf ← storeFields buf 12 fields
      rest buf) w
    (fun buf' _ => HasXid host xid buf')
  := by
  apply Program.ends_bind.mpr
  apply (storeFields_hasXid (by omega) h).mono
  intro buf' w' h'
  apply hrest buf' w' h'

/-- What has been copied out of a block and then other data behind the header. -/
theorem copied_then_xid {block : List UInt8} {o n p : ℕ} {rest : Buffer → Action Buffer}
    {buf : Buffer} (hp : 8 ≤ p) (h : HasXid host xid buf)
    (hrest : ∀ (buf : Buffer) (w : World), HasXid host xid buf →
      Program.Ensures (rest buf) w (fun buf' _ => HasXid host xid buf')) :
  Program.Ensures (do
      let bytes ← copyOut block o n
      let buf ← fill buf p bytes
      rest buf) w
    (fun buf' _ => HasXid host xid buf')
  := by
  apply Program.ensures_bind_any
  intro bytes w'
  apply Program.ends_bind.mpr
  apply (fill_hasXid hp h.ifHeader).mono
  intro buf' w'' h'
  apply hrest buf' w'' h'

theorem statsListReply_xid {type flags : UInt16} {layout : Struct}
    {entries : List (Record UInt8 layout)} :
  Program.Ensures (statsListReply host xid type layout flags entries) w
    (fun result _ => CreatesXid host xid result)
  := by
  apply Program.ensures_bind_any
  intro _ w'
  apply unchecked_xid statsReply_xid
  intro buf w'' h
  apply storeFields_hasXid (by omega) h

/-- The body of an echo message is copied behind the header, which is all there is otherwise. -/
theorem copyBody_xid {data : Option Buffer} {buf : Buffer}
    (h : XidIfHeader host xid buf) (hnone : ¬ dataLength data > 0 → HasXid host xid buf) :
  Program.Ensures (copyBody host buf data) w (fun buf' _ => HasXid host xid buf')
  := by
  cases data with
  | none => exact hnone (by decide)
  | some data =>
      apply Program.ends_ite.mpr
      constructor
      · intro _
        apply Program.ensures_bind_any
        intro body w'
        apply fill_hasXid (Nat.le_refl 8) h
      · intro hzero
        exact hnone hzero

theorem dataLength_zero {data : Option Buffer} (h : ¬ dataLength data > 0) :
  dataLength data = 0
  := by
  rw [← UInt16.toNat_inj]
  rw [gt_iff_lt, UInt16.lt_iff_toNat_lt] at h
  have hz : UInt16.toNat 0 = 0 := rfl
  omega

/-- The header of an echo message has the xid; without a body there is room for it. -/
theorem echoHeader_xid {data : Option Buffer} :
  Program.Ensures (ccCreateHeader host xid type (8 + dataLength data)) w
    (fun result _ => ∀ buf, result = some buf →
      XidIfHeader host xid buf ∧ (¬ dataLength data > 0 → HasXid host xid buf))
  := by
  by_cases hzero : dataLength data > 0
  · apply ccCreateHeader_xid.mono
    intro result w' h buf hbuf
    exact ⟨h buf hbuf, fun hnot => absurd hzero hnot⟩
  · rw [dataLength_zero hzero, UInt16.add_zero]
    apply ccCreateHeader_hasXid.mono
    intro result w' h buf hbuf
    exact ⟨(h buf hbuf).ifHeader, fun _ => h buf hbuf⟩

theorem ccCreateEchoRequest_xid {data : Option Buffer} :
  Program.Ensures (ccCreateEchoRequest host xid data) w
    (fun result _ => CreatesXid host xid result)
  := by
  apply Program.ends_bind.mpr
  apply echoHeader_xid.mono
  rintro (_ | buf) w' h
  · rintro _ ⟨⟩
  · apply Program.ends_bind.mpr
    obtain ⟨hif, hnone⟩ := h buf rfl
    apply (copyBody_xid hif hnone).mono
    rintro buf' w'' h' _ ⟨⟩
    exact h'

theorem ccCreateEchoReply_xid {data : Option Buffer} :
  Program.Ensures (ccCreateEchoReply host xid data) w
    (fun result _ => CreatesXid host xid result)
  := by
  apply Program.ends_bind.mpr
  apply echoHeader_xid.mono
  rintro (_ | buf) w' h
  · apply Program.ends_ite.mpr
    exact ⟨fun _ => trivial, fun _ _ h => by cases h⟩
  · apply Program.ends_bind.mpr
    obtain ⟨hif, hnone⟩ := h buf rfl
    apply (copyBody_xid hif hnone).mono
    rintro buf' w'' h' _ ⟨⟩
    exact h'

theorem ccCreateFeaturesRequest_xid :
  Program.Ensures (ccCreateFeaturesRequest host xid) w
    (fun result _ => CreatesXid host xid result)
  := by
  apply Program.ends_bind.mpr
  apply ccCreateHeader_hasXid.mono
  rintro (_ | buf) w' h
  · trivial
  · apply Program.ensures_bind_any
    intro _ _
    exact h

theorem ccCreateSetConfig_xid {flags missSendLen : UInt16} :
  Program.Ensures (ccCreateSetConfig host xid flags missSendLen) w
    (fun result _ => CreatesXid host xid result)
  := by
  apply Program.ends_bind.mpr
  apply ccCreateHeader_xid.mono
  rintro (_ | buf) w' h
  · trivial
  · apply Program.ends_bind.mpr
    apply (fill_hasXid (Nat.le_refl 8) (h buf rfl)).mono
    intro buf' w'' h'
    apply Program.ends_bind.mpr
    apply (fill_hasXid (show 8 ≤ 10 by omega) h'.ifHeader).mono
    rintro buf'' w''' h'' _ ⟨⟩
    exact h''

theorem created_xid {m : Action (Option Buffer)}
    (h : Program.Ensures m w (fun result _ => CreatesXid host xid result)) :
  Program.Ensures (created m) w
    (fun result _ => ∀ buf, result = .inr (some buf) → HasXid host xid buf)
  := by
  apply Program.ends_bind.mpr
  apply h.mono
  rintro result w' h' buf hbuf
  apply h' buf
  simpa using hbuf

theorem ccCreateError_xid {type code : UInt16} {data : Option Buffer} :
  Program.Ensures (ccCreateError host xid type code data) w
    (fun result _ => CreatesXid host xid result)
  := by
  apply createWith_xid
  intro buf w' h
  apply fields_then_xid h
  intro buf w'' h
  apply Program.ends_ite.mpr
  constructor
  · intro _
    exact Program.ensures_bind_any (fun _ _ => fill_hasXid (by omega) h.ifHeader)
  · intro _
    exact h

theorem ccCreateVendor_xid {vendor : UInt32} {data : Option Buffer} :
  Program.Ensures (ccCreateVendor host xid vendor data) w
    (fun result _ => CreatesXid host xid result)
  := by
  apply createWith_xid
  intro buf w' h
  apply fields_then_xid h
  intro buf w'' h
  apply storeData_hasXid (by omega) h

theorem storePorts_hasXid {buf : Buffer} {p : ℕ} (hp : 8 ≤ p) (h : HasXid host xid buf)
    {ports : List (Record UInt8 ofpPhyPort)} :
  Program.Ensures (storePorts host buf p ports) w (fun buf' _ => HasXid host xid buf')
  := by
  induction ports generalizing buf p w with
  | nil => exact h
  | cons port ports ih =>
      apply Program.ensures_bind_any
      intro _ w'
      apply Program.ends_bind.mpr
      apply (fill_hasXid hp h.ifHeader).mono
      intro buf' w'' h'
      exact ih (by omega) h'

theorem ccCreateFeaturesReply_xid {datapathId : UInt64} {nBuffers : UInt32} {nTables : UInt8}
    {capabilities actions : UInt32} {ports : List (Record UInt8 ofpPhyPort)} :
  Program.Ensures
    (ccCreateFeaturesReply host xid datapathId nBuffers nTables capabilities actions ports) w
    (fun result _ => CreatesXid host xid result)
  := by
  apply Program.ensures_bind_any
  intro _ w'
  apply createWith_xid
  intro buf w'' h
  apply fields_then_xid h
  intro buf w₃ h
  apply Program.ends_ite.mpr
  constructor
  · intro _
    apply storePorts_hasXid (by omega) h
  · intro _
    exact h

theorem ccCreatePortStatus_xid {reason : UInt8} {desc : Record UInt8 ofpPhyPort} :
  Program.Ensures (ccCreatePortStatus host xid reason desc) w
    (fun result _ => CreatesXid host xid result)
  := by
  apply Program.ensures_bind_any
  intro _ w'
  apply createWith_xid
  intro buf w'' h
  exact storeFields_cons_hasXid (Nat.le_refl 8) h

theorem ccCreatePacketIn_xid {bufferId : UInt32} {totalLen inPort : UInt16} {reason : UInt8}
    {data : Option Buffer} :
  Program.Ensures (ccCreatePacketIn host xid bufferId totalLen inPort reason data) w
    (fun result _ => CreatesXid host xid result)
  := by
  apply createWith_xid
  intro buf w' h
  apply fields_then_xid h
  intro buf w'' h
  apply storeData_hasXid (by omega) h

theorem ccCreatePacketOut_xid {bufferId : UInt32} {inPort : UInt16}
    {actions : Option OpenflowActions} {data : Option Buffer} :
  Program.Ensures (ccCreatePacketOut host xid bufferId inPort actions data) w
    (fun result _ => ∀ buf, result = .inr (some buf) → HasXid host xid buf)
  := by
  apply Program.ends_ite.mpr
  constructor
  · rintro _ _ ⟨⟩
  · intro _
    apply Program.ensures_bind_any
    intro actionsLength w'
    apply created_xid
    apply createWith_xid
    intro buf w'' h
    apply fields_then_xid h
    intro buf w₃ h
    apply Program.ends_bind.mpr
    apply (storeActionsOf_hasXid (by omega) h).mono
    intro buf w₄ h
    apply storeData_hasXid (by omega) h

theorem ccCreateFlowMod_xid {m : Record UInt8 ofpMatch} {cookie : UInt64}
    {command idleTimeout hardTimeout priority : UInt16} {bufferId : UInt32}
    {outPort flags : UInt16} {actions : Option OpenflowActions} :
  Program.Ensures (ccCreateFlowMod host xid m cookie command idleTimeout hardTimeout priority
      bufferId outPort flags actions) w
    (fun result _ => CreatesXid host xid result)
  := by
  apply Program.ensures_bind_any
  intro actionsLength w'
  apply createWith_xid
  intro buf w'' h
  apply fields_then_xid h
  intro buf w₃ h
  apply storeActionsOf_hasXid (by omega) h

theorem ccCreateVendorStatsRequest_xid {flags : UInt16} {vendor : UInt32}
    {body : Option Buffer} :
  Program.Ensures (ccCreateVendorStatsRequest host xid flags vendor body) w
    (fun result _ => CreatesXid host xid result)
  := by
  apply unchecked_xid statsRequest_xid
  intro buf w' h
  apply storeFields_then_xid h
  intro buf w'' h
  apply storeData_hasXid (by omega) h

theorem ccCreateDescStatsReply_xid {flags : UInt16}
    {mfrDesc hwDesc swDesc serialNum dpDesc : List UInt8} :
  Program.Ensures
    (ccCreateDescStatsReply host xid flags mfrDesc hwDesc swDesc serialNum dpDesc) w
    (fun result _ => CreatesXid host xid result)
  := by
  apply unchecked_xid statsReply_xid
  intro buf w' h
  apply copied_then_xid (by omega) h
  intro buf w₁ h
  apply copied_then_xid (by omega) h
  intro buf w₂ h
  apply copied_then_xid (by omega) h
  intro buf w₃ h
  apply copied_then_xid (by omega) h
  intro buf w₄ h
  apply Program.ensures_bind_any
  intro bytes w₅
  apply fill_hasXid (by omega) h.ifHeader

theorem ccCreateFlowStatsReply_xid {flags : UInt16} {flows : List (List UInt8)} :
  Program.Ensures (ccCreateFlowStatsReply host xid flags flows) w
    (fun result _ => CreatesXid host xid result)
  := by
  apply Program.ensures_bind_any
  intro _ w'
  apply Program.ensures_bind_any
  intro length w''
  apply unchecked_xid statsReply_xid
  intro buf w₃ h
  apply storeEntries_hasXid htonFlowStats_hasXid (by omega) h

theorem ccCreateVendorStatsReply_xid {flags : UInt16} {vendor : UInt32} {body : Option Buffer} :
  Program.Ensures (ccCreateVendorStatsReply host xid flags vendor body) w
    (fun result _ => CreatesXid host xid result)
  := by
  apply unchecked_xid statsReply_xid
  intro buf w' h
  apply storeFields_then_xid h
  intro buf w'' h
  apply storeData_hasXid (by omega) h

theorem ccCreateQueueGetConfigReply_xid {port : UInt16} {queues : List (List UInt8)} :
  Program.Ensures (ccCreateQueueGetConfigReply host xid port queues) w
    (fun result _ => CreatesXid host xid result)
  := by
  apply Program.ensures_bind_any
  intro _ w'
  apply Program.ensures_bind_any
  intro queuesLength w''
  apply createWith_xid
  intro buf w₃ h
  apply fields_then_xid h
  intro buf w₄ h
  apply Program.ends_ite.mpr
  constructor
  · intro _
    apply storeEntries_hasXid htonPacketQueue_hasXid (by omega) h
  · intro _
    exact h

end

/-- Whatever builder creates a message, the message has the xid. -/
theorem Builder.create_hasXid (host : Host) (xid : UInt32) (builder : Builder) (w : World) :
  Program.Ensures (builder.create host xid) w
    (fun result _ => ∀ buf, result = .inr (some buf) → HasXid host xid buf)
  := by
  have hfields : ∀ {type : UInt8} {length : UInt16} {field : List UInt8}
      {fields : List (List UInt8)},
      Program.Ensures (createWith host xid type length
        (fun buf => storeFields buf 8 (field :: fields))) w
        (fun result _ => CreatesXid host xid result) :=
    createWith_xid (fun _ _ h => storeFields_cons_hasXid (Nat.le_refl 8) h)
  have hbody : ∀ {buf : Buffer} {fields : List (List UInt8)} {w : World}, HasXid host xid buf →
      Program.Ensures (storeFields buf 12 fields) w (fun buf' _ => HasXid host xid buf') :=
    storeFields_hasXid (by omega)
  cases builder with
  | hello | getConfigRequest | barrierRequest | barrierReply =>
      exact created_xid ccCreateHeader_hasXid
  | error => exact created_xid ccCreateError_xid
  | echoRequest => exact created_xid ccCreateEchoRequest_xid
  | echoReply => exact created_xid ccCreateEchoReply_xid
  | vendor => exact created_xid ccCreateVendor_xid
  | featuresRequest => exact created_xid ccCreateFeaturesRequest_xid
  | featuresReply => exact created_xid ccCreateFeaturesReply_xid
  | setConfig => exact created_xid ccCreateSetConfig_xid
  | packetIn => exact created_xid ccCreatePacketIn_xid
  | portStatus => exact created_xid ccCreatePortStatus_xid
  | getConfigReply | flowRemoved | portMod | queueGetConfigRequest =>
      exact created_xid hfields
  | packetOut => exact ccCreatePacketOut_xid
  | flowMod => exact created_xid ccCreateFlowMod_xid
  | descStatsRequest | tableStatsRequest => exact created_xid statsRequest_xid
  | flowStatsRequest | aggregateStatsRequest | portStatsRequest | queueStatsRequest =>
      exact created_xid (unchecked_xid statsRequest_xid (fun _ _ h => hbody h))
  | vendorStatsRequest => exact created_xid ccCreateVendorStatsRequest_xid
  | descStatsReply => exact created_xid ccCreateDescStatsReply_xid
  | flowStatsReply => exact created_xid ccCreateFlowStatsReply_xid
  | aggregateStatsReply =>
      exact created_xid (unchecked_xid statsReply_xid (fun _ _ h => hbody h))
  | tableStatsReply | portStatsReply | queueStatsReply =>
      exact created_xid statsListReply_xid
  | vendorStatsReply => exact created_xid ccCreateVendorStatsReply_xid
  | queueGetConfigReply => exact created_xid ccCreateQueueGetConfigReply_xid

/-- The xid that a handler reads from a message with the xid. -/
theorem HasXid.ntohl_returns {host : Host} {xid v : UInt32} {buf : Buffer}
    (h : HasXid host xid buf) :
  (ntohl 4).Returns (buf.memory host) v ↔ v = host.wireXid xid
  := by
  obtain ⟨block, hdata, hlong, hxid⟩ := h
  have hholds : Holds (buf.memory host) 4 (host.bytes xid) := by
    have hblock : Holds (memoryOf block host.beyond) 0 block := holds_getD block host.beyond []
    rw [Buffer.memory, hdata, Option.getD_some]
    have hsplit : block = block.take 4 ++ ((block.drop 4).take 4 ++ (block.drop 4).drop 4) := by
      rw [List.take_append_drop, List.take_append_drop]
    rw [hsplit, hxid, holds_append, holds_append, ← hxid, ← hsplit] at hblock
    have hfour : 0 + (block.take 4).length = 4 := by
      rw [List.length_take]
      omega
    rw [hfour, hxid] at hblock
    exact hblock.2.1
  rw [returns_ntohl, be32_eq hholds Host.length_bytes]
  rfl

/-- On a run of any builder that creates a message, reading the xid of the message with
`ntohl` gives back the xid that the builder was called with exactly when the host is
big-endian or the bytes of the xid read the same backwards. -/
theorem builders_xid_iff (host : Host) (xid : UInt32) (builder : Builder) (w w' : World)
    (buf : Buffer) (hrun : builder.create host xid w = .ok (.inr (some buf), w')) :
  (ntohl 4).Returns (buf.memory host) xid ↔
    host.littleEndian = false ∨ (htonl xid).reverse = htonl xid
  := by
  have hxid := Program.ensures_iff.mp (builder.create_hasXid host xid w) _ _ hrun buf rfl
  rw [hxid.ntohl_returns, eq_comm, wireXid_eq_iff]

/-- A HELLO message with the xid 1 on a big-endian host. -/
theorem builders_xid_hello :
  ∃ buf w', Builder.create (Host.plain false) 1 .hello World.start = .ok (.inr (some buf), w') ∧
    ((ntohl 4).Returns (buf.memory (Host.plain false)) 1 ↔
      (Host.plain false).littleEndian = false ∨ (htonl 1).reverse = htonl 1)
  := ⟨_, _, rfl, builders_xid_iff (Host.plain false) 1 .hello World.start _ _ rfl⟩

/-- On a little-endian host the message has another xid. -/
theorem hello_xid_reversed :
  ¬ ∀ (host : Host) (xid : UInt32) (builder : Builder) (w w' : World) (buf : Buffer),
    builder.create host xid w = .ok (.inr (some buf), w') →
      (ntohl 4).Returns (buf.memory host) xid
  := by
  intro h
  have hreturns := h (Host.plain true) 1 .hello World.start _ _ rfl
  have hxid := Program.ensures_iff.mp
    (Builder.create_hasXid (Host.plain true) 1 .hello World.start) _ _ rfl _ rfl
  exact absurd (hxid.ntohl_returns.mp hreturns) (by decide)

end CcController
