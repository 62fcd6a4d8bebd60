import CcController.QueueDelete
import CcController.SecureChannel
import CcController.ThreadRoutine

/-!
# A connection and its two threads

The process of a connection has a main thread, which waits for the socket to become readable,
reads a message, has it handled and then writes what there is to be sent; and one thread of the
pool, which takes the jobs and runs the handlers. The two meet at the receive queue, the pool and
the send queue, and each of these has its lock. So a run of the process is a sequence of turns,
in any order, in each of which one of the threads goes on until it next gives up a lock.

One turn is longer. A handler gives up the lock of the send queue each time it has queued a
message, and goes on; here it has one turn from its beginning to its end. What the main thread
might do in between, as to flush the first of the two messages that a HELLO is answered with,
is left out.

The functions of the source are such turns in a row (`untilReceived_ends`, `untilHandled_ends`,
`untilFlushed_ends`).
-/

namespace CcController

/-! ### Taking a job from the list of jobs -/

/-- What a thread does from when it has the lock of the pool until it releases it: the job it
takes, or none if there is none to take. -/
def CThreadPool.takeWorker {J : Type} (pool : CThreadPool J) :
    Except Fault (Option J × CThreadPool J) :=
  if pool.curQueueSize = 0 then .ok (none, pool)
  else
    match pool.queue with
    | [] => .error .null
    | job :: queue => .ok (some job, ⟨queue, pool.curQueueSize - 1⟩)

/-- Taking a job in memory comes to taking it from the list. -/
theorem LinkedPool.Represents.takeWorker {J : Type} {pool : LinkedPool J} {p p' : CThreadPool J}
    {job : Option J} (h : pool.Represents p) (hrunning : pool.shutdown = false)
    (htake : p.takeWorker = .ok (job, p')) :
  ∃ state pool', pool.takeWorker = .ok (job, state, pool') ∧ pool'.Represents p'
  := by
  obtain ⟨⟨es, hlies, hqueue⟩, hsize⟩ := h
  unfold CThreadPool.takeWorker at htake
  by_cases hzero : p.curQueueSize = 0
  · rw [if_pos hzero] at htake
    cases htake
    exact ⟨_, pool, takeWorker_waits hrunning (hsize.trans hzero), ⟨es, hlies, hqueue⟩, hsize⟩
  · rw [if_neg hzero] at htake
    cases es with
    | nil =>
        rw [← hqueue] at htake
        cases htake
    | cons e es =>
        rw [← hqueue] at htake
        cases htake
        obtain ⟨pool', hok, hlies', -, -, hcount⟩ :=
          hlies.takeWorker hrunning (fun heq => hzero (hsize.symm.trans heq))
        exact ⟨_, pool', hok, ⟨es, hlies', rfl⟩, by rw [hcount, hsize]⟩

/-! ### The main thread -/

/-- What a call of `select` comes to. -/
inductive SelectResult where
  | readable
  | timeout
  /-- `EINTR` -/
  | interrupted
  | failed
  deriving DecidableEq

/-- What the main thread finds outside the connection. -/
structure Answer where
  select : SelectResult
  read : ReadResult
  /-- what happens to be in the variable that `cc_secure_channel_read` tests and never sets -/
  unset : ℤ

/-- What the main thread is about to do. -/
inductive MainState where
  /-- wait for the socket -/
  | atSelect
  /-- call `cc_recv_from_secure_channel` -/
  | atRead
  /-- put what it has read on the receive queue -/
  | atEnqueue (tmpBuff : Buffer)
  /-- have it handled -/
  | atAddWorker
  /-- go on behind `cc_recv_from_secure_channel` -/
  | received
  /-- call `cc_flush_to_secure_channel` -/
  | atFlush
  /-- go on in the loop of `cc_flush_to_secure_channel`, for as many rounds -/
  | flushing (count : ℕ)
  /-- nothing more in the loop -/
  | ended

/-- What a turn lets be seen from outside. -/
inductive Event where
  | read (chunk : List UInt8)
  | queued (buf : Buffer)
  | added
  | took
  /-- the message a job has found on the receive queue, if any -/
  | dequeued (buf : Option Buffer)
  | handled (buf : Buffer)
  | flushed (msg : Buffer)
  | left

/-- From the start of `cc_recv_from_secure_channel` until the receive queue is locked. -/
def fetch (host : Host) (read : ReadResult) : Action MainState := do
  let ok ← malloc
  let result := read.into ok
  let tmpRecvBuffLength := result.length
  if tmpRecvBuffLength = 0 then pure .received
  else if tmpRecvBuffLength ≥ 8 then do
    let tmpBuff ← allocBufferWithLength tmpRecvBuffLength
    let tmpBuff ← fill tmpBuff 0 result.data
    let version ← look host tmpBuff (Reader.read 0)
    if version ≠ ofpVersion then do
      freeBuffer (some tmpBuff)
      pure .received
    else do
    let headerLength ← look host tmpBuff (ntohs 2)
    if headerLength.toNat > ccRecvBufferSize then do
      freeBuffer (some tmpBuff)
      pure .received
    else pure (.atEnqueue tmpBuff)
  else pure .atAddWorker

def enqueueReceived (tmpBuff : Buffer) : Action (Option Event × MainState) := do
  let ok ← malloc
  let world ← Program.state
  let (ret, recvQueue) ← Program.lift (enqueueMessage world.recvQueue (some tmpBuff) ok)
  Program.update (fun w => { w with recvQueue := recvQueue })
  if ret = ccEErr then do
    freeBuffer (some tmpBuff)
    pure (none, .received)
  else pure (some (.queued tmpBuff), .atAddWorker)

/-- One round of the loop of `cc_flush_to_secure_channel`, before the last `count` ones. Whatever
the function returns, the main thread goes on waiting. -/
def flushRound (host : Host) (count : ℕ) : Action (Option Event × MainState) := do
  let world ← Program.state
  let (msg, sendQueue) ← Program.lift (dequeueMessage world.sendQueue)
  Program.update (fun w => { w with sendQueue := sendQueue })
  match msg with
  | none => pure (none, .atSelect)
  | some msg =>
    if count > 10 then pure (some (.flushed msg), .atSelect) else do
    let stopped ← flushMessage host msg
    match stopped with
    | some _ => pure (some (.flushed msg), .atSelect)
    | none => pure (some (.flushed msg), .flushing count)

/-- A turn of the main thread, in the loop of `cc_conn_accept`. What
`cc_recv_from_secure_channel` returns is not looked at. -/
def mainStep (host : Host) (answer : Answer) : MainState → Action (Option Event × MainState)
  | .atSelect =>
    match answer.select with
    | .readable => pure (none, .atRead)
    | .timeout => pure (none, .atSelect)
    | .interrupted => pure (none, .atSelect)
    | .failed => pure (some .left, .ended)
  | .atRead => do
    let main ← fetch host answer.read
    pure (some (.read answer.read.data), main)
  | .atEnqueue tmpBuff => enqueueReceived tmpBuff
  | .atAddWorker => do
    addRecvWorker
    pure (some .added, .received)
  | .received => do
    let world ← Program.state
    if answer.unset = ccEErr then pure (none, .atSelect)
    else if world.sendQueue.length > 0 then pure (none, .atFlush)
    else pure (none, .atSelect)
  | .atFlush => do
    let world ← Program.state
    if world.sendQueue.length = 0 then pure (none, .atSelect)
    else pure (none, .flushing world.sendQueue.length.toInt32.toInt.toNat)
  | .flushing 0 => pure (none, .atSelect)
  | .flushing (count + 1) => flushRound host count
  | .ended => pure (none, .ended)

/-! ### The thread of the pool -/

/-- What the thread of the pool is about to do. -/
inductive WorkerState where
  /-- take a job -/
  | atLock
  /-- wake up and look for a job -/
  | waiting
  /-- start on its job, `cc_ofpmsg_recv_handle` -/
  | atCheck
  /-- take a message from the receive queue -/
  | atDequeue
  /-- hand the message to its handler -/
  | atHandler (recvBuf : Buffer)

/-- From when the thread has the lock of the pool until it releases it. -/
def takeJob : Action (Option Event × WorkerState) := do
  let world ← Program.state
  let (job, pool) ← Program.lift world.ccRecvThreadPool.takeWorker
  Program.update (fun w => { w with ccRecvThreadPool := pool })
  match job with
  | none => pure (none, .waiting)
  | some .ccOfpmsgRecvHandle => pure (some .took, .atCheck)

def dequeueReceived : Action (Option Event × WorkerState) := do
  let world ← Program.state
  let (recvBuf, recvQueue) ← Program.lift (dequeueMessage world.recvQueue)
  Program.update (fun w => { w with recvQueue := recvQueue })
  match recvBuf with
  | none => pure (some (.dequeued none), .atLock)
  | some recvBuf => pure (some (.dequeued (some recvBuf)), .atHandler recvBuf)

/-- A turn of the thread. That the memory of the job is released does not show here. -/
def workerStep (host : Host) : WorkerState → Action (Option Event × WorkerState)
  | .atLock => takeJob
  | .waiting => takeJob
  | .atCheck => do
    let world ← Program.state
    if world.recvHandler = false then pure (some (.dequeued none), .atLock)
    else if world.recvQueue.length = 0 then pure (some (.dequeued none), .atLock)
    else pure (none, .atDequeue)
  | .atDequeue => dequeueReceived
  | .atHandler recvBuf => do
    let _ ← dispatch host recvBuf
    pure (some (.handled recvBuf), .atLock)

/-! ### The process -/

structure Connection where
  world : World
  main : MainState
  worker : WorkerState

/-- A connection that is about to enter its loop. -/
def Connection.start (mallocs : ℕ → Bool) (writes : ℕ → WriteResult) : Connection where
  world := World.fresh mallocs writes
  main := .atSelect
  worker := .atLock

/-- Whose turn it is, and what the thread finds outside the connection. -/
inductive Turn where
  | main (host : Host) (answer : Answer)
  | worker (host : Host)

/-- A turn of a thread: until it next gives up a lock, or a handler comes to its end. -/
def connectionStep (c : Connection) : Turn → Except Fault (Option Event × Connection)
  | .main host answer =>
    (mainStep host answer c.main c.world).map
      (fun r => (r.1.1, { c with main := r.1.2, world := r.2 }))
  | .worker host =>
    (workerStep host c.worker c.world).map
      (fun r => (r.1.1, { c with worker := r.1.2, world := r.2 }))


/-! ### The functions as turns in a row -/

/-- Turns of the main thread alone, until it is to do something that is `done`. -/
def mainUntil (host : Host) (answer : Answer) (done : MainState → Bool) :
    ℕ → MainState → Action Unit
  | 0, _ => pure ()
  | fuel + 1, main =>
    if done main then pure () else do
    let (_, main) ← mainStep host answer main
    mainUntil host answer done fuel main

/-- Turns of the thread of the pool alone. -/
def workerUntil (host : Host) (done : WorkerState → Bool) : ℕ → WorkerState → Action Unit
  | 0, _ => pure ()
  | fuel + 1, worker =>
    if done worker then pure () else do
    let (_, worker) ← workerStep host worker
    workerUntil host done fuel worker

def MainState.isReceived : MainState → Bool
  | .received => true
  | _ => false

def MainState.isAtSelect : MainState → Bool
  | .atSelect => true
  | _ => false

def WorkerState.isAtLock : WorkerState → Bool
  | .atLock => true
  | _ => false

section

variable {host : Host} {answer : Answer} {w : World} {E : Fault → Prop} {Q : World → Prop}
  {fuel : ℕ}

theorem ends_mainUntil_done {done : MainState → Bool} {main : MainState}
    (hdone : done main = true) :
  Program.Ends E (mainUntil host answer done fuel main) w (fun _ => Q) ↔ Q w
  := by
  cases fuel with
  | zero => simp only [mainUntil, Program.ends_pure]
  | succ fuel => simp only [mainUntil, hdone, if_true, Program.ends_pure]

theorem ends_mainUntil_step {done : MainState → Bool} {main : MainState}
    (hdone : done main = false) :
  Program.Ends E (mainUntil host answer done (fuel + 1) main) w (fun _ => Q) ↔
    Program.Ends E (mainStep host answer main) w (fun r w' =>
      Program.Ends E (mainUntil host answer done fuel r.2) w' (fun _ => Q))
  := by
  simp only [mainUntil, hdone, Bool.false_eq_true, if_false, Program.ends_bind]

theorem ends_mainUntil_received :
  Program.Ends E (mainUntil host answer MainState.isReceived fuel .received) w (fun _ => Q) ↔ Q w
  := ends_mainUntil_done rfl

theorem ends_mainUntil_addWorker :
  Program.Ends E (mainUntil host answer MainState.isReceived (fuel + 1) .atAddWorker) w
      (fun _ => Q) ↔
    Program.Ends E addRecvWorker w (fun _ => Q)
  := by
  rw [ends_mainUntil_step rfl]
  simp only [mainStep, Program.ends_bind, Program.ends_pure]
  apply Program.ends_congr
  intro _ w'
  apply ends_mainUntil_done rfl

/-- From when the message has been read and checked. -/
theorem ends_mainUntil_enqueue {tmpBuff : Buffer} :
  Program.Ends E (mainUntil host answer MainState.isReceived (fuel + 2) (.atEnqueue tmpBuff)) w
      (fun _ => Q) ↔
    Program.Ends E (do
        let ok ← malloc
        let world ← Program.state
        let (ret, recvQueue) ← Program.lift (enqueueMessage world.recvQueue (some tmpBuff) ok)
        Program.update (fun w => { w with recvQueue := recvQueue })
        if ret = ccEErr then releaseThen tmpBuff ccEErr else pure ccENone) w
      (fun ret w' => if ret = ccEErr then Q w' else Program.Ends E addRecvWorker w' (fun _ => Q))
  := by
  have hcodes : ¬ ccENone = ccEErr := by decide
  rw [ends_mainUntil_step rfl]
  simp only [mainStep, enqueueReceived, Program.ends_bind]
  apply Program.ends_congr
  intro ok w₁
  apply Program.ends_congr
  intro world w₂
  apply Program.ends_congr
  rintro ⟨ret, recvQueue⟩ w₃
  simp only [Program.ends_bind, Program.ends_update, Program.ends_ite, Program.ends_pure,
    releaseThen, ends_freeBuffer, ends_mainUntil_received,
    ends_mainUntil_addWorker, if_true, hcodes, if_false]

/-- Reading from the socket, without a turn of the other thread, is a call of
`cc_recv_from_secure_channel`. -/
theorem untilReceived_ends :
  Program.Ends E (mainUntil host answer MainState.isReceived 3 .atRead) w (fun _ => Q) ↔
    Program.Ends E (ccRecvFromSecureChannel host answer.read) w (fun _ => Q)
  := by
  have hcodes : ¬ ccENone = ccEErr := by decide
  rw [ends_mainUntil_step rfl]
  simp only [mainStep, fetch, ccRecvFromSecureChannel, Program.ends_bind]
  apply Program.ends_congr
  intro ok w₁
  simp only [Program.ends_ite, Program.ends_bind, Program.ends_pure, ends_mainUntil_received,
    ends_mainUntil_addWorker, hcodes, false_implies, true_and, not_false_eq_true, true_implies]
  apply and_congr_right'
  apply imp_congr_right
  intro _
  apply and_congr_left'
  apply imp_congr_right
  intro _
  apply Program.ends_congr
  intro tmpBuff w₂
  apply Program.ends_congr
  intro tmpBuff w₃
  simp only [queueReceived, Program.ends_bind]
  apply Program.ends_congr
  intro version w₄
  simp only [Program.ends_ite, Program.ends_bind, Program.ends_pure, releaseThen,
    ends_freeBuffer, if_true, ends_mainUntil_enqueue, hcodes, if_false, true_implies,
    not_true_eq_false, false_implies, and_true, true_and, not_false_eq_true]

theorem ends_workerUntil_done {done : WorkerState → Bool} {worker : WorkerState}
    (hdone : done worker = true) :
  Program.Ends E (workerUntil host done fuel worker) w (fun _ => Q) ↔ Q w
  := by
  cases fuel with
  | zero => simp only [workerUntil, Program.ends_pure]
  | succ fuel => simp only [workerUntil, hdone, if_true, Program.ends_pure]

theorem ends_workerUntil_step {done : WorkerState → Bool} {worker : WorkerState}
    (hdone : done worker = false) :
  Program.Ends E (workerUntil host done (fuel + 1) worker) w (fun _ => Q) ↔
    Program.Ends E (workerStep host worker) w (fun r w' =>
      Program.Ends E (workerUntil host done fuel r.2) w' (fun _ => Q))
  := by
  simp only [workerUntil, hdone, Bool.false_eq_true, if_false, Program.ends_bind]

theorem ends_workerUntil_atLock :
  Program.Ends E (workerUntil host WorkerState.isAtLock fuel .atLock) w (fun _ => Q) ↔ Q w
  := ends_workerUntil_done rfl

/-- Doing a job, without a turn of the other thread, is a call of `cc_ofpmsg_recv_handle`. -/
theorem untilHandled_ends :
  Program.Ends E (workerUntil host WorkerState.isAtLock 3 .atCheck) w (fun _ => Q) ↔
    Program.Ends E (ccOfpmsgRecvHandle host) w (fun _ => Q)
  := by
  rw [ends_workerUntil_step rfl]
  simp only [workerStep, ccOfpmsgRecvHandle, Program.ends_bind, Program.ends_state,
    Program.ends_ite, Program.ends_pure, ends_workerUntil_atLock]
  apply and_congr_right'
  apply imp_congr_right
  intro _
  apply and_congr_right'
  apply imp_congr_right
  intro _
  rw [ends_workerUntil_step rfl]
  simp only [workerStep, dequeueReceived, Program.ends_bind, Program.ends_state]
  apply Program.ends_congr
  rintro ⟨recvBuf, recvQueue⟩ w'
  cases recvBuf with
  | none =>
      simp only [Program.ends_update, Program.ends_pure, ends_workerUntil_atLock]
  | some recvBuf =>
      simp only [Program.ends_update, Program.ends_pure]
      rw [ends_workerUntil_step rfl]
      simp only [workerStep, Program.ends_bind, Program.ends_pure, ends_workerUntil_atLock]

theorem ends_mainUntil_atSelect :
  Program.Ends E (mainUntil host answer MainState.isAtSelect fuel .atSelect) w (fun _ => Q) ↔ Q w
  := ends_mainUntil_done rfl

theorem ends_mainUntil_flushing {count : ℕ} :
  Program.Ends E (mainUntil host answer MainState.isAtSelect (count + 1) (.flushing count)) w
      (fun _ => Q) ↔
    Program.Ends E (flushLoop host count) w (fun _ => Q)
  := by
  induction count generalizing w with
  | zero =>
      rw [ends_mainUntil_step rfl]
      simp only [mainStep, flushLoop, Program.ends_pure, ends_mainUntil_atSelect]
  | succ count ih =>
      rw [ends_mainUntil_step rfl]
      simp only [mainStep, flushRound, flushLoop, Program.ends_bind, Program.ends_state]
      apply Program.ends_congr
      rintro ⟨msg, sendQueue⟩ w'
      cases msg with
      | none =>
          simp only [Program.ends_update, Program.ends_pure, ends_mainUntil_atSelect]
      | some msg =>
          simp only [Program.ends_bind, Program.ends_update, Program.ends_ite, Program.ends_pure,
            ends_mainUntil_atSelect]
          apply and_congr_right'
          apply imp_congr_right
          intro _
          apply Program.ends_congr
          rintro (_ | ret) w''
          · simp only [Program.ends_pure, ih]
          · simp only [Program.ends_pure, ends_mainUntil_atSelect]

/-- Writing to the socket, without a turn of the other thread, is a call of
`cc_flush_to_secure_channel`. -/
theorem untilFlushed_ends {count : ℕ}
    (hcount : w.sendQueue.length.toInt32.toInt.toNat = count) :
  Program.Ends E (mainUntil host answer MainState.isAtSelect (count + 2) .atFlush) w
      (fun _ => Q) ↔
    Program.Ends E (ccFlushToSecureChannel host) w (fun _ => Q)
  := by
  rw [ends_mainUntil_step rfl]
  simp only [mainStep, ccFlushToSecureChannel, Program.ends_bind, Program.ends_state,
    Program.ends_ite, Program.ends_pure, ends_mainUntil_atSelect, hcount, ends_mainUntil_flushing]

end

end CcController
