import CcController.OfMsgRecv

/-!
# The secure channel

What is read from the socket goes to the receive queue, from where the threads of the pool
dispatch it to the handlers; and what the handlers put on the send queue is written to the
socket.
-/

namespace CcController

/-! ### Dispatching -/

/-- The handler that the switch over the type selects, if there is a case for the type and
the table has a handler for it. -/
def CcRecvOps.select (ofOps : CcRecvOps) (type : UInt8) : Option RecvHandler :=
  if type = ofptHello then ofOps.recvHello
  else if type = ofptEchoRequest then ofOps.recvEchoRequest
  else if type = ofptEchoReply then ofOps.recvEchoReply
  else if type = ofptError then ofOps.recvError
  else if type = ofptPacketIn then ofOps.recvPacketIn
  else if type = ofptVendor then ofOps.recvVendor
  else if type = ofptPortStatus then ofOps.recvPortStatus
  else if type = ofptFlowRemoved then ofOps.recvFlowRm
  else if type = ofptStatsReply then ofOps.recvFlowStatsReply
  else if type = ofptGetConfigReply then ofOps.recvGetConfigReply
  else none

/-- Hand a message to its handler. The handler's result is not used. -/
def dispatch (host : Host) (recvBuf : Buffer) : Action ℤ := do
  let type ← look host recvBuf (Reader.read 1)
  match ccRecvOps.select type with
  | none => pure ccENone
  | some handler => do
    let _ ← handler.recv host recvBuf
    pure ccENone

def ccOfpmsgRecvHandle (host : Host) : Action ℤ := do
  let world ← Program.state
  if world.recvHandler = false then pure ccEErr
  else if world.recvQueue.length = 0 then pure ccEErr
  else do
  let (recvBuf, recvQueue) ← Program.lift (dequeueMessage world.recvQueue)
  Program.update (fun w => { w with recvQueue := recvQueue })
  match recvBuf with
  | none => pure ccEErr
  | some recvBuf => dispatch host recvBuf

/-! ### Receiving -/

abbrev ccRecvBufferSize : ℕ := 1024

/-- What a call of `read` comes to. -/
inductive ReadResult where
  /-- these bytes were read; none at the end of the stream -/
  | received (bytes : List UInt8)
  /-- `-1`, for whatever reason -/
  | failed

/-- What `read` returns, as a `size_t`. -/
def ReadResult.length : ReadResult → ℕ
  | .received bytes => bytes.length
  | .failed => 2 ^ 64 - 1

/-- What the call comes to with a receive buffer, or with a null pointer for one: then it fails
as soon as there are bytes to be read. -/
def ReadResult.into (read : ReadResult) (recvData : Bool) : ReadResult :=
  if recvData ∨ read.length = 0 then read else .failed

@[simp]
theorem ReadResult.into_true (read : ReadResult) :
  read.into true = read
  := if_pos (.inl rfl)

theorem ReadResult.into_false {read : ReadResult} (h : 0 < read.length) :
  read.into false = .failed
  := if_neg (by simp [Nat.ne_of_gt h])

/-- At the end of the stream the buffer plays no part. -/
theorem ReadResult.into_of_length_eq_zero {read : ReadResult} (h : read.length = 0)
    (recvData : Bool) :
  read.into recvData = read
  := if_pos (.inr h)

/-- The bytes read are in the receive buffer; behind a failed read there is nothing to be
copied. -/
def ReadResult.data : ReadResult → List UInt8
  | .received bytes => bytes
  | .failed => []

/-- The message in the buffer `tmpBuff`, of what has been read: check it and queue it. -/
def queueReceived (host : Host) (tmpBuff : Buffer) : Action ℤ := do
  let version ← look host tmpBuff (Reader.read 0)
  if version ≠ ofpVersion then releaseThen tmpBuff ccEErr else do
  let headerLength ← look host tmpBuff (ntohs 2)
  if headerLength.toNat > ccRecvBufferSize then releaseThen tmpBuff ccEErr else do
  let ok ← malloc
  let world ← Program.state
  let (ret, recvQueue) ← Program.lift (enqueueMessage world.recvQueue (some tmpBuff) ok)
  Program.update (fun w => { w with recvQueue := recvQueue })
  if ret = ccEErr then releaseThen tmpBuff ccEErr else
  pure ccENone

/-- Have a thread of the pool handle what is on the receive queue. -/
def addRecvWorker : Action Unit := do
  let ok ← malloc
  let world ← Program.state
  let pool ← Program.lift (poolAddWorker world.ccRecvThreadPool .ccOfpmsgRecvHandle ok)
  Program.update (fun w => { w with ccRecvThreadPool := pool })

/-- `read` is what the call of `read` comes to if it is given a buffer. Its result is kept in a
`size_t`, so a failure is a length like any other, and the copy then goes to a block that
cannot be allocated. -/
def ccRecvFromSecureChannel (host : Host) (read : ReadResult) : Action ℤ := do
  let ok ← malloc
  let result := read.into ok
  let tmpRecvBuffLength := result.length
  if tmpRecvBuffLength = 0 then pure ccEErr else do
  let ret ← if tmpRecvBuffLength ≥ 8 then do
      let tmpBuff ← allocBufferWithLength tmpRecvBuffLength
      let tmpBuff ← fill tmpBuff 0 result.data
      queueReceived host tmpBuff
    else pure ccENone
  if ret = ccEErr then pure ccEErr else do
  addRecvWorker
  pure ccENone

/-! ### Sending -/

/-- Take the next `length` bytes to the socket, as far as the write goes; what `write`
returns, or nothing if it fails. -/
def writeSocket (bytes : List UInt8) : Action (Option ℕ) := do
  let world ← Program.state
  Program.update (fun w => { w with writes := fun i => w.writes (i + 1) })
  match world.writes 0 with
  | .wrote n => do
    Program.update (fun w => { w with written := w.written ++ bytes.take n })
    pure (some (min n bytes.length))
  | .interrupted => pure none
  | .failed => pure none

/-- Write one message. A message that is not written whole is neither put back nor
released. -/
def flushMessage (host : Host) (msg : Buffer) : Action (Option ℤ) := do
  let len ← look host msg (ntohs 2)
  let bytes ← look host msg (bcopy 0 len.toNat)
  let writeLength ← writeSocket bytes
  match writeLength with
  | none => do
    freeBuffer (some msg)
    pure (some ccEErr)
  | some writeLength =>
    if writeLength > 0 ∧ writeLength < msg.length then pure none
    else do
      freeBuffer (some msg)
      pure none

/-- The loop of `ccFlushToSecureChannel`, with as many rounds to go as `count` is. -/
def flushLoop (host : Host) : ℕ → Action ℤ
  | 0 => pure ccENone
  | count + 1 => do
    let world ← Program.state
    let (msg, sendQueue) ← Program.lift (dequeueMessage world.sendQueue)
    Program.update (fun w => { w with sendQueue := sendQueue })
    match msg with
    | none => pure ccEErr
    | some msg =>
      if count > 10 then pure ccEErr else do
      let stopped ← flushMessage host msg
      match stopped with
      | some ret => pure ret
      | none => flushLoop host count

/-- The length of the queue becomes an `int`. -/
def ccFlushToSecureChannel (host : Host) : Action ℤ := do
  let world ← Program.state
  if world.sendQueue.length = 0 then pure ccEEmpty
  else flushLoop host world.sendQueue.length.toInt32.toInt.toNat

end CcController
