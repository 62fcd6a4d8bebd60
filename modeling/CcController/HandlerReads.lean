import CcController.Dispatch
import CcController.Lib.Script

/-!
# Which bytes the handlers read

A handler that has accepted a message reads it again: its xid, the body it sends back, and, of
an error message, the flow modification that should be in its data. The scripts say where.
A script gets the message with an empty block for its data, and running it on the data is what
the handler does (`Scripted`).

All handlers stay inside the messages they accept but one: the data of an error message may be
shorter than a flow modification (`recv_reads_iff`).
-/

namespace CcController

/-! ### Scripts of the handlers -/

/-- A script that consults the bytes of a message. -/
abbrev MsgScript := Script World Fault ℕ UInt8

/-- A script for what the handler does with an accepted message. -/
structure Scripted (handler : RecvHandler) where
  script : Host → Buffer → MsgScript ℤ
  run_eq : ∀ (host : Host) (addr length : ℕ) (block : List UInt8),
    (script host ⟨addr, some [], length⟩).run host.fuel (memoryOf block host.beyond) .diverges
      = handler.accept host ⟨addr, some block, length⟩

section

variable (host : Host) (recvData : Buffer)

def acceptForAppScript (failed : ℤ → Bool) : MsgScript ℤ := do
  let xid ← .consult (ntohl 4)
  .perform (do
    setXidLatest xid
    toApp failed recvData)

def acceptReplyForAppScript (rejected failed : ℤ → Bool) : MsgScript ℤ := do
  let xid ← .consult (ntohl 4)
  .perform (replyThen host recvData xid rejected do
    setXidLatest xid
    toApp failed recvData)

/-- The body of `message` is what is consulted. -/
def copyBodyScript (message : Buffer) : MsgScript Buffer :=
  if dataLength (some recvData) > 0 then do
    let body ← .consult (bcopy 0 (dataLength (some recvData)).toNat)
    .perform (fill message 8 body)
  else pure message

def createEchoRequestScript (xid : UInt32) : MsgScript (Option Buffer) := do
  let echoRequest ← .perform
    (ccCreateHeader host xid ofptEchoRequest (8 + dataLength (some recvData)))
  match echoRequest with
  | none => pure none
  | some echoRequest => do
    let echoRequest ← copyBodyScript recvData echoRequest
    pure (some echoRequest)

def createEchoReplyScript (xid : UInt32) : MsgScript (Option Buffer) := do
  let echoReply ← .perform
    (ccCreateHeader host xid ofptEchoReply (8 + dataLength (some recvData)))
  match echoReply with
  | none => .perform (if dataLength (some recvData) > 0 then Program.stop .null else pure none)
  | some echoReply => do
    let echoReply ← copyBodyScript recvData echoReply
    pure (some echoReply)

def acceptReplyForEchoScript : MsgScript ℤ := do
  let xid ← .consult (ntohl 4)
  let ret ← .perform (do
    let world ← Program.state
    let (ret, xidTable) ← Program.lift (ccRecvReplyXid world.xidTable xid host.now)
    Program.update (fun w => { w with xidTable := xidTable })
    pure ret)
  if ret < 0 then .perform (releaseThen recvData ccEErr)
  else do
    let world ← .perform (do
      setXidLatest xid
      Program.state)
    let sendBuf ← createEchoRequestScript host recvData world.xidLatest
    .perform (sendThen recvData (pure sendBuf) fun _ => releaseThen recvData ccENone)

def recvHelloScript : MsgScript ℤ := do
  let xid ← .consult (ntohl 4)
  .perform (do
    setXidLatest xid
    let world ← Program.state
    sendThen recvData (ccCreateHello host world.xidLatest) fun _ => do
    Program.update (fun w => { w with xidLatest := w.xidLatest + 1 })
    let world ← Program.state
    sendThen recvData (ccCreateFeaturesRequest host world.xidLatest) fun ret =>
    releaseThen recvData ret)

def recvErrScript : MsgScript ℤ := do
  let xid ← .consult (ntohl 4)
  .perform (setXidLatest xid)
  let type ← .consult (ntohs 8)
  if type = ofpetFlowModFailed then do
    .consult errFlow
    .perform (Program.stop .wild)
  else .perform (releaseThen recvData ccENone)

def recvEchoRequestScript : MsgScript ℤ := do
  let xid ← .consult (hostLong host 4)
  let world ← .perform (do
    let ok ← malloc
    let world ← Program.state
    let (ret, xidTable) ← Program.lift (ccSendReqXid world.xidTable xid ok host.now)
    Program.update (fun w => { w with
      xidTable := xidTable
      xidLatest := UInt32.ofInt ret })
    Program.state)
  let sendBuf ← createEchoReplyScript host recvData world.xidLatest
  .perform (sendThen recvData (pure sendBuf) fun _ => releaseThen recvData ccENone)

end

section

variable {host : Host} {addr length : ℕ} {block : List UInt8}

/-- Reading from the data of a message is consulting its bytes. -/
theorem look_eq_answer {α : Type} {m : MessageReader α} :
  look host ⟨addr, some block, length⟩ m
    = Script.answer host.fuel (memoryOf block host.beyond) .diverges m
  := rfl

theorem run_copyBodyScript {message : Buffer} :
  (copyBodyScript ⟨addr, some [], length⟩ message).run host.fuel (memoryOf block host.beyond)
      .diverges
    = copyBody host message (some ⟨addr, some block, length⟩)
  := by
  simp only [copyBodyScript, Script.run_ite, Script.run_bind, Script.run_consult,
    Script.run_perform, Script.run_pure]
  rfl

theorem run_createEchoRequestScript {xid : UInt32} :
  (createEchoRequestScript host ⟨addr, some [], length⟩ xid).run host.fuel
      (memoryOf block host.beyond) .diverges
    = ccCreateEchoRequest host xid (some ⟨addr, some block, length⟩)
  := by
  simp only [createEchoRequestScript, Script.run_bind, Script.run_perform]
  apply bind_congr
  rintro (_ | message)
  · rfl
  · simp only [Script.run_bind, Script.run_pure, run_copyBodyScript]

theorem run_createEchoReplyScript {xid : UInt32} :
  (createEchoReplyScript host ⟨addr, some [], length⟩ xid).run host.fuel
      (memoryOf block host.beyond) .diverges
    = ccCreateEchoReply host xid (some ⟨addr, some block, length⟩)
  := by
  simp only [createEchoReplyScript, Script.run_bind, Script.run_perform]
  apply bind_congr
  rintro (_ | message)
  · simp only [Script.run_perform]
    rfl
  · simp only [Script.run_bind, Script.run_pure, run_copyBodyScript]

end

def scriptedForApp (failed : ℤ → Bool) {validate : Option ℕ → MessageReader ℤ} :
    Scripted ⟨validate, acceptForApp failed⟩ where
  script _ recvData := acceptForAppScript recvData failed
  run_eq _ _ _ _ := by
    simp only [acceptForAppScript, Script.run_bind, Script.run_consult, Script.run_perform]
    rfl

def scriptedReplyForApp (rejected failed : ℤ → Bool) {validate : Option ℕ → MessageReader ℤ} :
    Scripted ⟨validate, acceptReplyForApp rejected failed⟩ where
  script host recvData := acceptReplyForAppScript host recvData rejected failed
  run_eq _ _ _ _ := by
    simp only [acceptReplyForAppScript, Script.run_bind, Script.run_consult, Script.run_perform]
    rfl

def scriptedReplyForEcho {validate : Option ℕ → MessageReader ℤ} :
    Scripted ⟨validate, acceptReplyForEcho⟩ where
  script := acceptReplyForEchoScript
  run_eq _ _ _ _ := by
    simp only [acceptReplyForEchoScript, acceptReplyForEcho, replyThen, sendThen, Script.run_bind,
      Script.run_consult, Script.run_perform, Script.run_ite, run_createEchoRequestScript,
      look_eq_answer, bind_assoc, pure_bind, decide_eq_true_eq]
    rfl

def scriptedHello : Scripted ccRecvHelloMsg where
  script := recvHelloScript
  run_eq _ _ _ _ := by
    simp only [recvHelloScript, Script.run_bind, Script.run_consult, Script.run_perform]
    rfl

def scriptedErr : Scripted ccRecvErrMsg where
  script _ := recvErrScript
  run_eq _ _ _ _ := by
    simp only [recvErrScript, Script.run_bind, Script.run_consult, Script.run_perform,
      Script.run_ite]
    rfl

def scriptedEchoRequest : Scripted ccRecvEchoRequest where
  script := recvEchoRequestScript
  run_eq _ _ _ _ := by
    simp only [recvEchoRequestScript, ccRecvEchoRequest, sendThen, Script.run_bind,
      Script.run_consult, Script.run_perform, run_createEchoReplyScript, look_eq_answer,
      bind_assoc, pure_bind]
    rfl

/-! ### The table of handlers -/

/-- The places of the table of handlers. -/
inductive RecvOp where
  | hello
  | error
  | echoRequest
  | echoReply
  | vendor
  | getConfigReply
  | flowRm
  | barrierReply
  | packetIn
  | portStatus
  | flowStatsReply

def CcRecvOps.get (ops : CcRecvOps) : RecvOp → Option RecvHandler
  | .hello => ops.recvHello
  | .error => ops.recvError
  | .echoRequest => ops.recvEchoRequest
  | .echoReply => ops.recvEchoReply
  | .vendor => ops.recvVendor
  | .getConfigReply => ops.recvGetConfigReply
  | .flowRm => ops.recvFlowRm
  | .barrierReply => ops.recvBarrierReply
  | .packetIn => ops.recvPacketIn
  | .portStatus => ops.recvPortStatus
  | .flowStatsReply => ops.recvFlowStatsReply

theorem ccRecvOps_isSome (op : RecvOp) :
  (ccRecvOps.get op).isSome
  := by
  cases op <;> rfl

/-- The handler at a place of the table `ccRecvOps`. -/
def RecvOp.handler (op : RecvOp) : RecvHandler :=
  (ccRecvOps.get op).get (ccRecvOps_isSome op)

/-- The script of the handler at a place of the table. -/
def RecvOp.scripted : (op : RecvOp) → Scripted op.handler
  | .hello => scriptedHello
  | .error => scriptedErr
  | .echoRequest => scriptedEchoRequest
  | .echoReply => scriptedReplyForEcho
  | .vendor => scriptedForApp _
  | .getConfigReply => scriptedReplyForEcho
  | .flowRm => scriptedForApp _
  | .barrierReply => scriptedReplyForApp _ _
  | .packetIn => scriptedForApp _
  | .portStatus => scriptedForApp _
  | .flowStatsReply => scriptedForApp _

/-! ### Staying inside -/

section

variable {host : Host} {mem : Memory} {n addr : ℕ}

/-- Every handler has the header of the message checked. -/
theorem RecvOp.eight_le {op : RecvOp} (h : Accepts (op.handler.validate (some n)) mem) :
  8 ≤ n
  := by
  cases op
  case hello =>
    have hvalidate : Accepts (validateHello (some n)) mem := h
    rw [validateHello, unlessNull_some] at hvalidate
    exact validateHeader_length hvalidate
  case barrierReply => exact validateHeader_length h
  all_goals exact validateHeader_length (accepts_passing.mp h).1

theorem confined_xid (hn : 8 ≤ n) {Q : UInt32 → Prop} :
  Reader.Within (· < n) (ntohl 4) mem Q ↔ Q (be32 mem 4)
  := by
  rw [within_ntohl]
  apply and_iff_right
  omega

theorem confined_copyBodyScript {message : Buffer} {Q : Buffer → Prop} (hQ : ∀ buf, Q buf) :
  (copyBodyScript ⟨addr, some [], n⟩ message).Confined (· < n) mem Q
  := by
  have hle : (dataLength (some ⟨addr, some [], n⟩)).toNat ≤ n := by
    change (UInt16.ofNat n).toNat ≤ n
    rw [UInt16.toNat_ofNat']
    apply Nat.mod_le
  simp only [copyBodyScript, Script.confined_ite, Script.confined_bind, Script.confined_consult,
    Script.confined_perform, Script.confined_pure, within_bcopy, hQ, implies_true, and_true]
  intro _
  omega

theorem confined_createEchoRequestScript {xid : UInt32} :
  (createEchoRequestScript host ⟨addr, some [], n⟩ xid).Confined (· < n) mem (fun _ => True)
  := by
  simp only [createEchoRequestScript, Script.confined_bind, Script.confined_perform]
  rintro (_ | message)
  · trivial
  · simp only [Script.confined_bind, Script.confined_pure]
    apply confined_copyBodyScript (fun _ => trivial)

theorem confined_createEchoReplyScript {xid : UInt32} :
  (createEchoReplyScript host ⟨addr, some [], n⟩ xid).Confined (· < n) mem (fun _ => True)
  := by
  simp only [createEchoReplyScript, Script.confined_bind, Script.confined_perform]
  rintro (_ | message)
  · exact fun _ => trivial
  · simp only [Script.confined_bind, Script.confined_pure]
    apply confined_copyBodyScript (fun _ => trivial)

theorem confined_acceptForAppScript (hn : 8 ≤ n) {failed : ℤ → Bool} :
  (acceptForAppScript ⟨addr, some [], n⟩ failed).Confined (· < n) mem (fun _ => True)
  := by
  simp only [acceptForAppScript, Script.confined_bind, Script.confined_consult, confined_xid hn,
    Script.confined_perform, implies_true]

theorem confined_acceptReplyForEchoScript (hn : 8 ≤ n) :
  (acceptReplyForEchoScript host ⟨addr, some [], n⟩).Confined (· < n) mem (fun _ => True)
  := by
  simp only [acceptReplyForEchoScript, Script.confined_bind, Script.confined_consult,
    confined_xid hn, Script.confined_perform, Script.confined_ite, implies_true, true_and]
  intro _ _ world
  apply confined_createEchoRequestScript

/-- The handlers other than that of error messages stay inside the messages they accept. -/
theorem RecvOp.confined {op : RecvOp} (hop : op ≠ .error) (hn : 8 ≤ n) :
  (op.scripted.script host ⟨addr, some [], n⟩).Confined (· < n) mem (fun _ => True)
  := by
  cases op with
  | hello =>
      change (recvHelloScript host ⟨addr, some [], n⟩).Confined (· < n) mem _
      simp only [recvHelloScript, Script.confined_bind, Script.confined_consult, confined_xid hn,
        Script.confined_perform, implies_true]
  | error => exact absurd rfl hop
  | echoRequest =>
      change (recvEchoRequestScript host ⟨addr, some [], n⟩).Confined (· < n) mem _
      simp only [recvEchoRequestScript, hostLong, Script.confined_bind, Script.confined_consult,
        Script.confined_perform, Reader.within_bind, Reader.within_pure, within_bcopy,
        implies_true, confined_createEchoReplyScript, and_true]
      omega
  | barrierReply =>
      change (acceptReplyForAppScript host ⟨addr, some [], n⟩ _ _).Confined (· < n) mem _
      simp only [acceptReplyForAppScript, Script.confined_bind, Script.confined_consult,
        confined_xid hn, Script.confined_perform, implies_true]
  | echoReply => exact confined_acceptReplyForEchoScript hn
  | getConfigReply => exact confined_acceptReplyForEchoScript hn
  | vendor => exact confined_acceptForAppScript hn
  | flowRm => exact confined_acceptForAppScript hn
  | packetIn => exact confined_acceptForAppScript hn
  | portStatus => exact confined_acceptForAppScript hn
  | flowStatsReply => exact confined_acceptForAppScript hn

/-- The handler of error messages reads the first 60 bytes of a message about a failed flow
modification, and of others the first ten. -/
theorem confined_recvErrScript (hn : 12 ≤ n) (hflow : be16 mem 8 = ofpetFlowModFailed → 60 ≤ n) :
  (recvErrScript ⟨addr, some [], n⟩).Confined (· < n) mem (fun _ => True)
  := by
  simp only [recvErrScript, errFlow, Script.confined_bind, Script.confined_consult,
    confined_xid (Nat.le_trans (by decide) hn), Script.confined_perform, Script.confined_ite,
    Reader.within_bind, Reader.within_pure, within_ntohs, within_bcopy, implies_true, and_true]
  intro _
  refine ⟨by omega, fun htype => ?_⟩
  have hle := hflow htype
  omega

theorem yields_errFlow :
  errFlow.Yields mem (List.range' 20 21 ++ (List.range' 42 2
    ++ (List.range' 45 1 ++ (List.range' 48 12 ++ [])))) ()
  := (yields_bcopy 20 21).bind ((yields_bcopy 42 2).bind ((yields_bcopy 45 1).bind
    ((yields_bcopy 48 12).bind (fun _ => rfl))))

/-- The last byte that is read of the flow modification is that of the match. -/
theorem recvErrScript_reads {w : World} {fuel : ℕ} (hflow : be16 mem 8 = ofpetFlowModFailed) :
  (recvErrScript ⟨addr, some [], n⟩).Reads fuel mem w 59
  := by
  -- after the xid and the type, which are in any message
  have hxid : ∀ w : World, (Script.consult (ntohl 4) : MsgScript UInt32).run fuel mem .wild w
      = .ok (be32 mem 4, w) := fun _ => rfl
  have htype : ∀ w : World, (Script.consult (ntohs 8) : MsgScript UInt16).run fuel mem .wild w
      = .ok (be16 mem 8, w) := fun _ => rfl
  refine (Script.reads_bind .wild).mpr (.inr ⟨_, _, hxid w, ?_⟩)
  refine (Script.reads_bind .wild).mpr (.inr ⟨(), _, rfl, ?_⟩)
  refine (Script.reads_bind .wild).mpr (.inr ⟨_, _, htype _, ?_⟩)
  rw [if_pos hflow, Script.reads_bind .wild, Script.reads_consult, yields_errFlow fuel]
  left
  decide

/-- An accepted message is read below its length by its handler, unless it is an error message
about a failed flow modification that is too short for the flow modification. -/
theorem recv_reads_iff (op : RecvOp) (host : Host) (addr length : ℕ) (block : List UInt8)
    (w : World)
    (haccepts : Accepts (op.handler.validate (some length)) (memoryOf block host.beyond)) :
  (∀ i, (op.scripted.script host ⟨addr, some [], length⟩).Reads host.fuel
      (memoryOf block host.beyond) w i → i < length) ↔
    (op = .error → be16 (memoryOf block host.beyond) 8 = ofpetFlowModFailed → 60 ≤ length)
  := by
  constructor
  · rintro hreads rfl hflow
    have hlt := hreads 59 (recvErrScript_reads hflow)
    omega
  · intro hlong i hi
    by_cases hop : op = .error
    · subst hop
      have hheader := (accepts_passing.mp haccepts).1
      have hok := (validateHeader_accepts (validateHeader_length hheader) (by decide)).mp hheader
      apply (confined_recvErrScript hok.min (hlong rfl)).reads hi
    · apply (RecvOp.confined hop (RecvOp.eight_le haccepts)).reads hi

end

/-- An error message about a failed flow modification, without the flow modification. -/
def shortErrMsg : List UInt8 := [1, 1, 0, 12, 0, 0, 0, 0, 0, 3, 0, 0]

theorem shortErrMsg_accepted :
  Accepts (RecvOp.error.handler.validate (some 12))
    (memoryOf shortErrMsg (Host.plain true).beyond)
  := ⟨0, ⟨0, by decide⟩, by decide⟩

/-- An echo request with a body, which is read to the end. -/
def bodyEchoRequest : List UInt8 := [1, 2, 0, 10, 0, 0, 0, 7, 5, 6]

theorem bodyEchoRequest_accepted :
  Accepts (RecvOp.echoRequest.handler.validate (some 10))
    (memoryOf bodyEchoRequest (Host.plain true).beyond)
  := ⟨0, ⟨0, by decide⟩, by decide⟩

/-- An echo request is read inside, and an error message without data is not. -/
theorem recv_reads_short :
  (∀ i, (RecvOp.echoRequest.scripted.script (Host.plain true) ⟨0, some [], 10⟩).Reads 0
      (memoryOf bodyEchoRequest (Host.plain true).beyond) World.start i → i < 10) ∧
  ¬ (∀ i, (RecvOp.error.scripted.script (Host.plain true) ⟨0, some [], 12⟩).Reads 0
      (memoryOf shortErrMsg (Host.plain true).beyond) World.start i → i < 12)
  := by
  constructor
  · apply (recv_reads_iff .echoRequest (Host.plain true) 0 10 bodyEchoRequest World.start
      bodyEchoRequest_accepted).mpr
    rintro ⟨⟩
  · intro h
    have hlong := (recv_reads_iff .error (Host.plain true) 0 12 shortErrMsg World.start
      shortErrMsg_accepted).mp h rfl (by decide)
    omega

/-- The handler of error messages reads behind the end of an accepted message. -/
theorem recv_reads_beyond :
  ¬ ∀ (op : RecvOp) (host : Host) (addr length : ℕ) (block : List UInt8) (w : World),
    Accepts (op.handler.validate (some length)) (memoryOf block host.beyond) →
      ∀ i, (op.scripted.script host ⟨addr, some [], length⟩).Reads host.fuel
        (memoryOf block host.beyond) w i → i < length
  := by
  intro h
  have hlt := h .error (Host.plain true) 0 12 shortErrMsg World.start shortErrMsg_accepted 59
    (recvErrScript_reads (by decide))
  omega

end CcController
