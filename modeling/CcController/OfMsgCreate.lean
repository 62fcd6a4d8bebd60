import CcController.Buffer
import CcController.OpenFlow

/-!
# Creating messages

`ccCreateHeader` allocates the buffer of a message and fills in the header; the other
functions add the body. The header is built in a block of its own, for which as many bytes
are asked for as the *type* of the length has, and then copied.

The xid is stored in the byte order of the host.
-/

namespace CcController

/-! ### The header -/

/-- The bytes of a number in network order. -/
def htons (v : UInt16) : List UInt8 :=
  [UInt8.ofNat (v.toNat / 256), UInt8.ofNat (v.toNat % 256)]

/-- Reading a number in network order. -/
theorem be16_htons {v : UInt16} {mem : Memory} {p : ℕ}
    (hhigh : mem p = UInt8.ofNat (v.toNat / 256))
    (hlow : mem (p + 1) = UInt8.ofNat (v.toNat % 256)) :
  be16 mem p = v
  := by
  have hlt := v.toNat_lt
  have hhigh' : (mem p).toNat = v.toNat / 256 := by
    rw [hhigh, UInt8.toNat_ofNat_of_lt' (by simp [UInt8.size]; omega)]
  have hlow' : (mem (p + 1)).toNat = v.toNat % 256 := by
    rw [hlow, UInt8.toNat_ofNat_of_lt' (by simp [UInt8.size]; omega)]
  rw [be16, hhigh', hlow', Nat.div_add_mod' v.toNat 256, UInt16.ofNat_toNat]

/-- The bytes of a number in network order. -/
def htonl (v : UInt32) : List UInt8 :=
  htons (UInt16.ofNat (v.toNat / 65536)) ++ htons (UInt16.ofNat (v.toNat % 65536))

/-- The bytes of a number as the host stores it. -/
def Host.bytes (host : Host) (v : UInt32) : List UInt8 :=
  if host.littleEndian then (htonl v).reverse else htonl v

def ofpHeader (host : Host) (xid : UInt32) (type : UInt8) (length : UInt16) : List UInt8 :=
  ofpVersion :: type :: (htons length ++ host.bytes xid)

def ccCreateHeader (host : Host) (xid : UInt32) (type : UInt8) (length : UInt16) :
    Action (Option Buffer) := do
  let buf ← allocBufferWithLength length.toNat
  let ok ← malloc
  if ¬ ok then pure none
  -- the `memset` writes `length` bytes to the header and the fields take 8
  else if max 8 length.toNat > host.scratch then Program.stop .overrun else do
  let header := ofpHeader host xid type length ++ List.replicate (length.toNat - 8) 0
  let buf ← fill buf 0 (header.take length.toNat)
  pure (some buf)

/-! ### Messages -/

def ccCreateHello (host : Host) (xid : UInt32) : Action (Option Buffer) :=
  ccCreateHeader host xid ofptHello 8

/-- The length of the body that is copied from `buf`, which is cut to a `uint16_t`. -/
def dataLength (buf : Option Buffer) : UInt16 :=
  match buf with
  | none => 0
  | some buf => UInt16.ofNat buf.length

/-- Copy the body of a message from `buf` in behind its header. -/
def copyBody (host : Host) (message : Buffer) (buf : Option Buffer) : Action Buffer :=
  match buf with
  | none => pure message
  | some data =>
    if dataLength buf > 0 then do
      let body ← look host data (bcopy 0 (dataLength buf).toNat)
      fill message 8 body
    else pure message

def ccCreateEchoRequest (host : Host) (xid : UInt32) (buf : Option Buffer) :
    Action (Option Buffer) := do
  let echoRequest ← ccCreateHeader host xid ofptEchoRequest (8 + dataLength buf)
  match echoRequest with
  | none => pure none
  | some echoRequest => do
    let echoRequest ← copyBody host echoRequest buf
    pure (some echoRequest)

/-- The header is used unchecked when there is a body. -/
def ccCreateEchoReply (host : Host) (xid : UInt32) (buf : Option Buffer) :
    Action (Option Buffer) := do
  let echoReply ← ccCreateHeader host xid ofptEchoReply (8 + dataLength buf)
  match echoReply with
  | none => if dataLength buf > 0 then Program.stop .null else pure none
  | some echoReply => do
    let echoReply ← copyBody host echoReply buf
    pure (some echoReply)

/-- The header is used unchecked. -/
def ccCreateFeaturesRequest (host : Host) (transactionId : UInt32) : Action (Option Buffer) := do
  let buf ← ccCreateHeader host transactionId ofptFeaturesRequest 8
  match buf with
  | none => Program.stop .null
  | some buf => do
    let _ ← look host buf (Reader.read 1)
    pure (some buf)

/-- The header is used unchecked. -/
def ccCreateSetConfig (host : Host) (transactionId : UInt32) (flags missSendLen : UInt16) :
    Action (Option Buffer) := do
  let setConfig ← ccCreateHeader host transactionId ofptSetConfig 12
  match setConfig with
  | none => Program.stop .null
  | some setConfig => do
    let setConfig ← fill setConfig 8 (htons flags)
    let setConfig ← fill setConfig 10 (htons missSendLen)
    pure (some setConfig)

/-! ### Queues -/

/-- Put a message on the send queue, which every connection has. -/
def ccInsertToSendQueue (buf : Buffer) : Action ℤ := do
  let ok ← malloc
  let world ← Program.state
  let (ret, sendQueue) ← Program.lift (enqueueMessage world.sendQueue (some buf) ok)
  Program.update (fun w => { w with
    sendQueue := sendQueue
    sent := w.sent ++ [(buf, w.xidTable)] })
  pure ret

/-- There is no application, so the message is released. -/
def ccInsertToAppQueue (buf : Buffer) : Action ℤ := do
  freeBuffer (some buf)
  pure ccEErr

/-! ### What is created -/

/-- The buffer holds a message with a header and the body `body`, and nothing more. -/
structure Created (host : Host) (xid : UInt32) (type : UInt8) (body : List UInt8)
    (buf : Buffer) : Prop where
  data : buf.data = some (ofpHeader host xid type (UInt16.ofNat (8 + body.length)) ++ body)
  length : buf.length = 8 + body.length
  size : 8 + body.length < 2 ^ 16

/-- Only allocations have been made, and the result is the message or null. It is null when
the third allocation, of the block for the header, fails. -/
structure Creates (host : Host) (xid : UInt32) (type : UInt8) (body : List UInt8) (w : World)
    (result : Option Buffer) (w' : World) : Prop where
  allocates : w.Allocates w'
  created : ∀ buf, result = some buf → Created host xid type body buf ∧ w.mallocs 2 = true

section

variable {host : Host} {xid : UInt32} {type : UInt8} {w : World}

@[simp]
theorem length_ofpHeader {length : UInt16} :
  (ofpHeader host xid type length).length = 8
  := by
  have hbytes : (host.bytes xid).length = 4 := by
    unfold Host.bytes
    split <;> rfl
  simp [ofpHeader, htons, hbytes]

theorem Created.hasHeader {body : List UInt8} {buf : Buffer}
    (h : Created host xid type body buf) :
  HasHeader buf
  := by
  refine ⟨_, h.data, ?_⟩
  rw [List.length_append, length_ofpHeader]
  omega

/-- A message as the header is copied into it, with zeros behind. -/
def headed (host : Host) (xid : UInt32) (type : UInt8) (length : UInt16) (addr : ℕ) : Buffer where
  addr := addr
  data := some ((ofpHeader host xid type length
    ++ List.replicate (length.toNat - 8) 0).take length.toNat)
  length := length.toNat

/-- A header takes three allocations. The first and the second are used unchecked, the second
after the block for the header has been written; without the third the result is null. -/
theorem ends_ccCreateHeader {E : Fault → Prop} {length : UInt16}
    {Q : Option Buffer → World → Prop} :
  Program.Ends E (ccCreateHeader host xid type length) w Q ↔
    (w.mallocs 0 = false → E .null) ∧
    (w.mallocs 0 = true →
      (w.mallocs 2 = false → Q none { w.drawn 3 with nextBuffer := w.nextBuffer + 1 }) ∧
      (w.mallocs 2 = true →
        (host.scratch < max 8 length.toNat → E .overrun) ∧
        (max 8 length.toNat ≤ host.scratch →
          (w.mallocs 1 = false → E .null) ∧
          (w.mallocs 1 = true → Q (some (headed host xid type length w.nextBuffer))
            { w.drawn 3 with nextBuffer := w.nextBuffer + 1 }))))
  := by
  have hlt := length.toNat_lt
  have hsize : length.toNat ≤ ptrdiffMax := by
    change _ ≤ 2 ^ 63 - 1
    omega
  have hlength : ((ofpHeader host xid type length
      ++ List.replicate (length.toNat - 8) 0).take length.toNat).length = length.toNat := by
    rw [List.length_take, List.length_append, length_ofpHeader, List.length_replicate]
    omega
  simp only [ccCreateHeader, Program.ends_bind, ends_allocBufferWithLength, ends_malloc,
    Program.ends_ite, Program.ends_stop, Program.ends_pure, Bool.not_eq_true, Bool.not_eq_false,
    gt_iff_lt, not_lt, hsize, and_true]
  apply and_congr_right'
  apply imp_congr_right
  intro _
  apply and_congr_right'
  apply imp_congr_right
  intro _
  apply and_congr_right'
  apply imp_congr_right
  intro _
  cases hok : w.mallocs 1 with
  | false => simp [fill]
  | true =>
      have hfill : ∀ addr, fill ⟨addr, some (List.replicate length.toNat 0), length.toNat⟩ 0
          ((ofpHeader host xid type length
            ++ List.replicate (length.toNat - 8) 0).take length.toNat)
          = pure (headed host xid type length addr) := by
        intro addr
        simp [fill, headed, hlength]
      simp only [if_true, hfill, Program.ends_pure]
      simp
      rfl

/-- A message is created with zeros behind its header, which the body replaces. -/
theorem ccCreateHeader_ensures {length : UInt16} :
  Program.Ensures (ccCreateHeader host xid type length) w (fun result w' =>
    w.Allocates w' ∧ ∀ buf, result = some buf → w.mallocs 2 = true ∧
      buf.length = length.toNat ∧ buf.data = some ((ofpHeader host xid type length
        ++ List.replicate (length.toNat - 8) 0).take length.toNat))
  := by
  simp only [ccCreateHeader, Program.ends_bind]
  apply ensures_allocBufferWithLength
  intro buf w' hw' hmallocs hbuf hblock
  simp only [ends_malloc, Program.ends_ite, Program.ends_pure, Program.ends_stop,
    Program.ends_bind, implies_true, true_and, hmallocs, Bool.not_eq_true, Bool.not_eq_false]
  refine ⟨fun _ => ⟨hw'.trans rfl, fun _ h => by cases h⟩, fun hok _ => ?_⟩
  apply ensures_fill
  intro block hdata _
  use hw'.trans rfl
  rintro _ ⟨⟩
  have hlen := hblock block hdata
  use hok, hbuf
  rw [List.take_zero, List.nil_append, List.drop_eq_nil_of_le, List.append_nil]
  rw [List.length_take, List.length_append, length_ofpHeader, List.length_replicate, hlen]
  omega

/-- No message is created only if the block for the header cannot be allocated. -/
theorem ccCreateHeader_none {length : UInt16} :
  Program.Ensures (ccCreateHeader host xid type length) w
    (fun result _ => result = none → w.mallocs 2 = false)
  := by
  rw [Program.Ensures, ends_ccCreateHeader]
  refine ⟨fun _ => trivial, fun _ => ⟨fun hfails _ => hfails, fun _ => ⟨fun _ => trivial, ?_⟩⟩⟩
  intro _
  refine ⟨fun _ => trivial, fun _ hnone => ?_⟩
  cases hnone

/-- A message that is a header only. -/
theorem ccCreateHeader_creates :
  Program.Ensures (ccCreateHeader host xid type 8) w (Creates host xid type [] w)
  := by
  apply ccCreateHeader_ensures.mono
  rintro result w' ⟨hw', hresult⟩
  use hw'
  intro buf hbuf
  obtain ⟨hok, hlength, hdata⟩ := hresult buf hbuf
  refine ⟨⟨?_, hlength, by simp⟩, hok⟩
  rw [hdata, List.take_of_length_le (by simp), List.append_nil, List.length_nil]
  simp

theorem ccCreateHello_none :
  Program.Ensures (ccCreateHello host xid) w (fun result _ => result = none → w.mallocs 2 = false)
  := ccCreateHeader_none

theorem ccCreateHello_creates :
  Program.Ensures (ccCreateHello host xid) w (Creates host xid ofptHello [] w)
  := ccCreateHeader_creates

theorem ccCreateFeaturesRequest_creates :
  Program.Ensures (ccCreateFeaturesRequest host xid) w
    (Creates host xid ofptFeaturesRequest [] w)
  := by
  simp only [ccCreateFeaturesRequest, Program.ends_bind]
  apply ccCreateHeader_creates.mono
  rintro (_ | buf) w' h
  · trivial
  · simp only [Program.ends_bind, Program.ends_pure]
    apply ensures_look
    intro _ _
    apply h

/-- Where no header can be created, a features request is not survived. -/
theorem ccCreateFeaturesRequest_some :
  Program.Ensures (ccCreateFeaturesRequest host xid) w (fun result _ => result ≠ none)
  := by
  simp only [ccCreateFeaturesRequest, Program.ends_bind]
  apply Program.ensures_any
  rintro (_ | buf) w'
  · trivial
  · simp only [Program.ends_bind, Program.ends_pure]
    apply Program.ensures_any
    simp

/-- The body that an echo message takes over from `data`. -/
def echoBody (host : Host) (data : Buffer) : List UInt8 :=
  bytesAt (data.memory host) 0 (dataLength (some data)).toNat

/-- Copying the body fills in what the header leaves room for. When the length has wrapped
around there is no room. -/
theorem copyBody_creates {message data : Buffer} {w' : World} (hw' : w.Allocates w')
    (hok : w.mallocs 2 = true)
    (hlength : message.length = (8 + dataLength (some data)).toNat)
    (hdata : message.data = some ((ofpHeader host xid type (8 + dataLength (some data))
      ++ List.replicate ((8 + dataLength (some data)).toNat - 8) 0).take
        (8 + dataLength (some data)).toNat)) :
  Program.Ensures (copyBody host message (some data)) w'
    (fun message' w'' => Creates host xid type (echoBody host data) w (some message') w'')
  := by
  have hbody : (echoBody host data).length = (dataLength (some data)).toNat := by
    simp [echoBody, bytesAt]
  rw [echoBody] at hbody
  generalize hk : dataLength (some data) = k at hlength hdata hbody
  have hlt := k.toNat_lt
  simp only [copyBody, echoBody, hk, Program.ends_ite, Program.ends_bind, Program.ends_pure]
  have hadd : (8 + k).toNat = (8 + k.toNat) % 2 ^ 16 := UInt16.toNat_add 8 k
  have hofNat : UInt16.ofNat (8 + k.toNat) = 8 + k := by
    rw [UInt16.ofNat_add, UInt16.ofNat_toNat]
    rfl
  constructor
  · intro hpos
    apply ensures_look
    intro body hreturns
    obtain rfl := (yields_bcopy 0 k.toNat).returns.mp hreturns
    apply ensures_fill
    intro block hblock hfits
    obtain rfl := Option.some.inj (hdata.symm.trans hblock)
    rw [List.length_take, List.length_append, length_ofpHeader, List.length_replicate,
      hbody] at hfits
    have hsize : 8 + k.toNat < 2 ^ 16 := by omega
    rw [Nat.mod_eq_of_lt hsize] at hadd
    use hw'
    rintro _ ⟨⟩
    have hwhole : (ofpHeader host xid type (8 + k) ++ List.replicate (8 + k.toNat - 8) 0).length
        = 8 + k.toNat := by
      rw [List.length_append, length_ofpHeader, List.length_replicate]
      omega
    refine ⟨⟨?_, ?_, ?_⟩, hok⟩
    · rw [hbody, hofNat, hadd, List.take_of_length_le (Nat.le_of_eq hwhole),
        List.take_left' length_ofpHeader, List.drop_eq_nil_of_le (Nat.le_of_eq hwhole),
        List.append_nil]
    · rw [hbody]
      simpa [hadd] using hlength
    · rw [hbody]
      apply hsize
  · intro hzero
    have hk0 : k = 0 := by
      rw [← UInt16.toNat_inj]
      rw [gt_iff_lt, UInt16.lt_iff_toNat_lt] at hzero
      have hz : UInt16.toNat 0 = 0 := rfl
      omega
    subst hk0
    use hw'
    rintro _ ⟨⟩
    rw [UInt16.add_zero] at hdata hlength
    refine ⟨⟨?_, hlength, ?_⟩, hok⟩
    · rw [hdata, List.take_of_length_le (by simp)]
      rfl
    · rw [hbody]
      decide

theorem ccCreateEchoRequest_creates {data : Buffer} :
  Program.Ensures (ccCreateEchoRequest host xid (some data)) w
    (Creates host xid ofptEchoRequest (echoBody host data) w)
  := by
  simp only [ccCreateEchoRequest, Program.ends_bind]
  apply ccCreateHeader_ensures.mono
  rintro (_ | message) w' ⟨hw', hmessage⟩
  · exact ⟨hw', fun _ h => by cases h⟩
  · obtain ⟨hok, hlength, hdata⟩ := hmessage message rfl
    simp only [Program.ends_bind, Program.ends_pure]
    apply copyBody_creates hw' hok hlength hdata

theorem ccCreateEchoRequest_none {data : Option Buffer} :
  Program.Ensures (ccCreateEchoRequest host xid data) w
    (fun result _ => result = none → w.mallocs 2 = false)
  := by
  simp only [ccCreateEchoRequest, Program.ends_bind]
  apply ccCreateHeader_none.mono
  rintro (_ | message) w' hnone
  · exact fun _ => hnone rfl
  · simp only [Program.ends_bind, Program.ends_pure]
    apply Program.ensures_any
    simp

theorem ccCreateEchoReply_creates {data : Buffer} :
  Program.Ensures (ccCreateEchoReply host xid (some data)) w
    (Creates host xid ofptEchoReply (echoBody host data) w)
  := by
  simp only [ccCreateEchoReply, Program.ends_bind]
  apply ccCreateHeader_ensures.mono
  rintro (_ | message) w' ⟨hw', hmessage⟩
  · simp only [Program.ends_ite, Program.ends_stop, Program.ends_pure, implies_true, true_and]
    intro _
    exact ⟨hw', fun _ h => by cases h⟩
  · obtain ⟨hok, hlength, hdata⟩ := hmessage message rfl
    simp only [Program.ends_bind, Program.ends_pure]
    apply copyBody_creates hw' hok hlength hdata

theorem ccCreateSetConfig_creates {flags missSendLen : UInt16} :
  Program.Ensures (ccCreateSetConfig host xid flags missSendLen) w
    (Creates host xid ofptSetConfig (htons flags ++ htons missSendLen) w)
  := by
  simp only [ccCreateSetConfig, Program.ends_bind]
  apply ccCreateHeader_ensures.mono
  rintro (_ | message) w' ⟨hw', hmessage⟩
  · trivial
  · obtain ⟨hok, hlength, hdata⟩ := hmessage message rfl
    simp only [Program.ends_bind, Program.ends_pure]
    apply ensures_fill
    intro block hblock _
    apply ensures_fill
    rintro _ ⟨⟩ _
    use hw'
    rintro _ ⟨⟩
    obtain rfl := Option.some.inj (hdata.symm.trans hblock)
    refine ⟨⟨?_, hlength, by simp [htons]⟩, hok⟩
    simp only [ofpHeader, Host.bytes]
    split <;> rfl

/-- Putting a message on the send queue succeeds, when it returns. -/
theorem ccInsertToSendQueue_ensures {buf : Buffer} {Q : ℤ → World → Prop}
    (h : ∀ ok queue, enqueueMessage w.sendQueue (some buf) ok = .ok (ccENone, queue) →
      Q ccENone { w with
        mallocs := fun i => w.mallocs (i + 1)
        sendQueue := queue
        sent := w.sent ++ [(buf, w.xidTable)] }) :
  Program.Ensures (ccInsertToSendQueue buf) w Q
  := by
  simp only [ccInsertToSendQueue, Program.ends_bind, ends_malloc, Program.ends_state,
    Program.ensures_lift]
  rintro ⟨ret, queue⟩ henqueue
  obtain rfl := (enqueueMessage_ok henqueue).1
  simp only [Program.ends_update, Program.ends_pure]
  apply h (w.mallocs 0) queue henqueue

end

end CcController
