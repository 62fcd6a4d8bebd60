import CcController.Turns

/-!
# Any order of turns

What holds of a connection whose two threads take turns in any order, as long as it goes on.

Every chunk that is read and passes for a message is queued, taken and handled once, in the order
of reading (`messages_inOrder`), and for every message on the receive queue there is a job
(`messages_have_jobs`). So the thread of the pool handles all of them, if its handlers return
(`worker_finishes`).
-/

namespace CcController

/-! ### Messages and jobs -/

/-- The message that the main thread has read and not queued yet. -/
def MainState.inHand : MainState → List Buffer
  | .atEnqueue tmpBuff => [tmpBuff]
  | _ => []

/-- The job that the main thread is to add next. -/
def MainState.jobs : MainState → ℕ
  | .atAddWorker => 1
  | _ => 0

/-- The message that is being handled. -/
def WorkerState.inHand : WorkerState → List Buffer
  | .atHandler recvBuf => [recvBuf]
  | _ => []

/-- The job that has been taken and has not looked for a message yet. -/
def WorkerState.jobs : WorkerState → ℕ
  | .atCheck => 1
  | .atDequeue => 1
  | _ => 0

/-- The jobs that have yet to look for a message. -/
def Connection.outstanding (c : Connection) : ℕ :=
  c.world.ccRecvThreadPool.queue.length + c.worker.jobs + c.main.jobs

theorem MainState.Idle.inHand {main : MainState} (h : main.Idle) :
  main.inHand = []
  := by
  cases main <;> first | rfl | cases h

theorem MainState.Idle.jobs {main : MainState} (h : main.Idle) :
  main.jobs = 0
  := by
  cases main <;> first | rfl | cases h

/-- The receive queue contains `bufs`, and what has been queued has been dequeued up to these, and
handled up to what is being handled. What has been read and passes for a message has been
queued. -/
structure Conserves (c : Connection) (es : List (Option Event)) (bufs : List Buffer) : Prop where
  contains : c.world.recvQueue.Contains bufs
  queued : eventsOf Event.queuedBuf es = eventsOf Event.dequeuedBuf es ++ bufs
  dequeued : eventsOf Event.dequeuedBuf es = eventsOf Event.handledBuf es ++ c.worker.inHand
  passed : Carry (eventsOf Event.queuedBuf es ++ c.main.inHand)
    ((eventsOf Event.chunk es).filter (fun chunk => PassesForMessage chunk))

theorem Carry.append {bufs bufs' : List Buffer} {msgs msgs' : List (List UInt8)}
    (h : Carry bufs msgs) (h' : Carry bufs' msgs') :
  Carry (bufs ++ bufs') (msgs ++ msgs')
  := by
  rw [Carry, List.map_append, List.map_append, h, h']

section

variable {c c' : Connection} {es : List (Option Event)} {bufs : List Buffer}

theorem conserves_start (mallocs : ℕ → Bool) (writes : ℕ → WriteResult) :
  Conserves (Connection.start mallocs writes) [] []
  := ⟨MessageQueue.contains_create, rfl, rfl, rfl⟩

/-- The event says nothing of a message received. -/
structure Event.Quiet (e : Option Event) : Prop where
  queued : e.bind Event.queuedBuf = none
  dequeued : e.bind Event.dequeuedBuf = none
  handled : e.bind Event.handledBuf = none
  chunk : e.bind Event.chunk = none

/-- A turn that has nothing to do with the receive queue. -/
theorem Conserves.quiet (h : Conserves c es bufs) {e : Option Event} (he : Event.Quiet e)
    (hqueue : c'.world.recvQueue = c.world.recvQueue)
    (hworker : c'.worker.inHand = c.worker.inHand) (hmain : c'.main.inHand = c.main.inHand) :
  Conserves c' (es ++ [e]) bufs
  := by
  constructor
  · rw [hqueue]
    exact h.contains
  · rw [eventsOf_concat, eventsOf_concat, he.queued, he.dequeued, Option.toList_none,
      List.append_nil, List.append_nil]
    exact h.queued
  · rw [eventsOf_concat, eventsOf_concat, he.dequeued, he.handled, Option.toList_none,
      List.append_nil, List.append_nil, hworker]
    exact h.dequeued
  · rw [eventsOf_concat, eventsOf_concat, he.queued, he.chunk, Option.toList_none,
      List.append_nil, Option.toList_none, List.append_nil, hmain]
    exact h.passed

/-- A chunk is read: if it passes for a message, this is what the main thread goes on with. -/
theorem Conserves.reads (h : Conserves c es bufs) (hmain : c.main = .atRead)
    {chunk : List UInt8} {main : MainState} {w : World} (hfetched : c.world.Fetched w)
    (hgoes : GoesOnWith c.world chunk main) :
  Conserves ⟨w, main, c.worker⟩ (es ++ [some (.read chunk)]) bufs
  := by
  have hinHand : Carry main.inHand ([chunk].filter (fun chunk => PassesForMessage chunk)) := by
    cases hgoes with
    | nothing hnil =>
        subst hnil
        rfl
    | short hpos hshort =>
        rw [List.filter_cons_of_neg (by simpa using fun h => absurd h.1 (Nat.not_le.mpr hshort))]
        rfl
    | message hpasses =>
        rw [List.filter_cons_of_pos (by simpa using hpasses)]
        rfl
    | other hmin hpasses =>
        rw [List.filter_cons_of_neg (by simpa using hpasses)]
        rfl
  have hnone : c.main.inHand = [] := by
    rw [hmain]
    rfl
  have hpassed := h.passed
  rw [hnone, List.append_nil] at hpassed
  constructor
  · rw [hfetched]
    exact h.contains
  · simpa [eventsOf_concat, Event.queuedBuf, Event.dequeuedBuf] using h.queued
  · simpa [eventsOf_concat, Event.dequeuedBuf, Event.handledBuf] using h.dequeued
  · rw [eventsOf_concat, eventsOf_concat, List.filter_append]
    simpa [Event.queuedBuf, Event.chunk] using hpassed.append hinHand

/-- The message in the hands of the main thread is put on the receive queue. -/
theorem Conserves.queues (h : Conserves c es bufs) {tmpBuff : Buffer}
    (hmain : c.main = .atEnqueue tmpBuff) {recvQueue : MessageQueue Buffer}
    (henqueue : enqueueMessage c.world.recvQueue (some tmpBuff) true = .ok (ccENone, recvQueue))
    {w : World} (hw : w.recvQueue = recvQueue) :
  Conserves ⟨w, .atAddWorker, c.worker⟩ (es ++ [some (.queued tmpBuff)]) (bufs ++ [tmpBuff])
  := by
  have hpassed := h.passed
  rw [hmain, MainState.inHand] at hpassed
  constructor
  · rw [hw]
    exact .inl (h.contains.enqueue henqueue).2
  · simp [eventsOf_concat, Event.queuedBuf, Event.dequeuedBuf, h.queued]
  · simpa [eventsOf_concat, Event.dequeuedBuf, Event.handledBuf] using h.dequeued
  · simpa [eventsOf_concat, Event.queuedBuf, Event.chunk, MainState.inHand] using hpassed

theorem Conserves.main (h : Conserves c es bufs) {host : Host} {answer : Answer}
    (hmax : answer.read.data.length ≤ ccRecvBufferSize) {e : Option Event} {main : MainState}
    {w : World} (hmove : MainMoves host answer c.world c.main e main w) :
  ∃ bufs', Conserves ⟨w, main, c.worker⟩ (es ++ [e]) bufs'
  := by
  obtain ⟨world, main₀, worker⟩ := c
  cases hmove with
  | goes hmain hmain' _ =>
      exact ⟨bufs, h.quiet ⟨rfl, rfl, rfl, rfl⟩ rfl rfl (hmain'.inHand.trans hmain.inHand.symm)⟩
  | leaves => exact ⟨bufs, h.quiet ⟨rfl, rfl, rfl, rfl⟩ rfl rfl rfl⟩
  | reads hfetch =>
      obtain ⟨hfetched, hgoes⟩ := Program.ensures_iff.mp (fetch_ensures hmax) _ _ hfetch
      exact ⟨bufs, h.reads rfl hfetched hgoes⟩
  | queues henqueue => exact ⟨_, h.queues rfl henqueue rfl⟩
  | adds => exact ⟨bufs, h.quiet ⟨rfl, rfl, rfl, rfl⟩ rfl rfl rfl⟩
  | misses hdequeue => exact ⟨bufs, h.quiet ⟨rfl, rfl, rfl, rfl⟩ rfl rfl rfl⟩
  | drops hdequeue _ => exact ⟨bufs, h.quiet ⟨rfl, rfl, rfl, rfl⟩ rfl rfl rfl⟩
  | writes hdequeue _ hflush =>
      obtain ⟨n, hw, -⟩ := Program.ensures_iff.mp flushMessage_ensures _ _ hflush
      refine ⟨bufs, h.quiet ⟨rfl, rfl, rfl, rfl⟩ (by rw [hw]) rfl ?_⟩
      dsimp only
      split <;> rfl

theorem Conserves.worker (h : Conserves c es bufs) {host : Host} {e : Option Event}
    {worker : WorkerState} {w : World} (hmove : WorkerMoves host c.world c.worker e worker w) :
  ∃ bufs', Conserves ⟨w, c.main, worker⟩ (es ++ [e]) bufs'
  := by
  obtain ⟨world, main, worker₀⟩ := c
  cases hmove with
  | sleeps hworker _ =>
      refine ⟨bufs, h.quiet ⟨rfl, rfl, rfl, rfl⟩ rfl ?_ rfl⟩
      rcases hworker with rfl | rfl <;> rfl
  | takes hworker _ _ =>
      refine ⟨bufs, h.quiet ⟨rfl, rfl, rfl, rfl⟩ rfl ?_ rfl⟩
      rcases hworker with rfl | rfl <;> rfl
  | misses _ => exact ⟨bufs, h.quiet ⟨rfl, rfl, rfl, rfl⟩ rfl rfl rfl⟩
  | finds _ => exact ⟨bufs, h.quiet ⟨rfl, rfl, rfl, rfl⟩ rfl rfl rfl⟩
  | loses hdequeue =>
      refine ⟨bufs, h.quiet ⟨rfl, rfl, rfl, rfl⟩ ?_ rfl rfl⟩
      exact (h.contains.dequeue_none hdequeue).1
  | dequeues hdequeue =>
      obtain ⟨rest, rfl, hcontains, -⟩ := h.contains.dequeue_some hdequeue
      use rest
      constructor
      · exact hcontains
      · simpa [eventsOf_concat, Event.queuedBuf, Event.dequeuedBuf] using h.queued
      · simpa [eventsOf_concat, Event.dequeuedBuf, Event.handledBuf, WorkerState.inHand]
          using h.dequeued
      · simpa [eventsOf_concat, Event.queuedBuf, Event.chunk] using h.passed
  | handles hdispatch =>
      have hhandled := handled_dispatch.of_ok hdispatch
      use bufs
      constructor
      · rw [hhandled.recvQueue]
        exact h.contains
      · simpa [eventsOf_concat, Event.queuedBuf, Event.dequeuedBuf] using h.queued
      · simpa [eventsOf_concat, Event.dequeuedBuf, Event.handledBuf, WorkerState.inHand]
          using h.dequeued
      · simpa [eventsOf_concat, Event.queuedBuf, Event.chunk] using h.passed

end

/-- What `read` can return: no more than it has been asked for. -/
def Turn.Bounded : Turn → Prop
  | .main _ answer => answer.read.data.length ≤ ccRecvBufferSize
  | .worker _ => True

theorem Conserves.step {c c' : Connection} {es : List (Option Event)} {bufs : List Buffer}
    (h : Conserves c es bufs) {turn : Turn} (hbounded : turn.Bounded) {e : Option Event}
    (hstep : connectionStep c turn = .ok (e, c')) :
  ∃ bufs', Conserves c' (es ++ [e]) bufs'
  := by
  cases connectionStep_moves hstep with
  | main hmove => exact h.main hbounded hmove
  | worker hmove => exact h.worker hmove

theorem conserves_run {mallocs : ℕ → Bool} {writes : ℕ → WriteResult} {turns : List Turn}
    (hbounded : ∀ turn ∈ turns, turn.Bounded) {es : List (Option Event)} {c : Connection}
    (hrun : Machine.run connectionStep (Connection.start mallocs writes) turns = .ok (es, c)) :
  ∃ bufs, Conserves c es bufs
  := by
  induction turns using List.reverseRecOn generalizing es c with
  | nil =>
      obtain ⟨rfl, rfl⟩ : [] = es ∧ Connection.start mallocs writes = c := by
        simpa [Machine.run] using hrun
      exact ⟨[], conserves_start mallocs writes⟩
  | append_singleton turns turn ih =>
      obtain ⟨es', c₁, e, hrun', hstep, rfl⟩ := Machine.run_concat_ok hrun
      obtain ⟨bufs, hconserves⟩ := ih (fun t ht => hbounded t (by simp [ht])) hrun'
      exact hconserves.step (hbounded turn (by simp)) hstep

theorem MessageQueue.Contains.holds {β : Type} {q : MessageQueue β} {bufs : List β}
    (h : q.Contains bufs) :
  q.Holds bufs
  := by
  rcases h with hlinked | ⟨rfl, ⟨hd, a, hlies, -⟩, hzero⟩
  · exact hlinked.holds
  · exact ⟨hd, [], hlies, rfl, hzero⟩

/-- In every state that a connection reaches, whatever turns its two threads take: the messages
that have been handled, the one that is being handled, those on the receive queue and the one that
is about to be queued are, one after the other, what has been read and passes for a message. -/
theorem messages_inOrder (mallocs : ℕ → Bool) (writes : ℕ → WriteResult) (turns : List Turn)
    (hbounded : ∀ turn ∈ turns, turn.Bounded) (es : List (Option Event)) (c : Connection)
    (hrun : Machine.run connectionStep (Connection.start mallocs writes) turns = .ok (es, c)) :
  ∃ bufs, c.world.recvQueue.Holds bufs ∧
    Carry (eventsOf Event.handledBuf es ++ c.worker.inHand ++ bufs ++ c.main.inHand)
      ((eventsOf Event.chunk es).filter (fun chunk => PassesForMessage chunk))
  := by
  obtain ⟨bufs, hconserves⟩ := conserves_run hbounded hrun
  use bufs, hconserves.contains.holds
  rw [← hconserves.dequeued, ← hconserves.queued]
  exact hconserves.passed

/-- The main thread reads `message` and has it handled. -/
def readTurns (message : List UInt8) : List Turn :=
  List.replicate 4 (.main (Host.plain true) ⟨.readable, .received message, 0⟩)

theorem readTurns_bounded {message : List UInt8} (h : message.length ≤ ccRecvBufferSize) :
  ∀ turn ∈ readTurns message, turn.Bounded
  := by
  intro turn hturn
  obtain rfl := List.eq_of_mem_replicate hturn
  exact h

def helloTurns : List Turn :=
  readTurns (helloMessage 1)

theorem helloTurns_bounded :
  ∀ turn ∈ helloTurns, turn.Bounded
  := readTurns_bounded (by decide)

theorem messages_inOrder_hello :
  (∀ turn ∈ helloTurns, turn.Bounded) ∧
  ∃ es c, Machine.run connectionStep (Connection.start (fun _ => true) (fun _ => .failed))
      helloTurns = .ok (es, c) ∧
    ∃ bufs, c.world.recvQueue.Holds bufs ∧ Carry bufs [helloMessage 1]
  := by
  refine ⟨helloTurns_bounded, _, _, rfl, ?_⟩
  obtain ⟨bufs, hholds, hcarry⟩ := messages_inOrder (fun _ => true) (fun _ => .failed) helloTurns
    helloTurns_bounded _ _ rfl
  have hmessage : Carry (bufs ++ []) [helloMessage 1] := hcarry
  rw [List.append_nil] at hmessage
  exact ⟨bufs, hholds, hmessage⟩


/-! ### Jobs for messages -/

/-- How many of the events `f` picks. -/
def countOf {α : Type} (f : Event → Option α) (es : List (Option Event)) : ℕ :=
  (eventsOf f es).length

theorem countOf_concat {α : Type} {f : Event → Option α} {es : List (Option Event)}
    {e : Option Event} :
  countOf f (es ++ [e]) = countOf f es + (e.bind f).toList.length
  := by
  rw [countOf, eventsOf_concat, List.length_append, countOf]

/-- The pool counts its jobs. As many messages have been queued, and chunks read that are too
short, as jobs have looked for a message and jobs have yet to do so. -/
structure Counts (c : Connection) (es : List (Option Event)) : Prop where
  recvHandler : c.world.recvHandler = true
  size : c.world.ccRecvThreadPool.curQueueSize.toInt = c.world.ccRecvThreadPool.queue.length
  jobs : countOf Event.queuedBuf es + countOf Event.short es
    = countOf Event.dequeuedBuf es + countOf Event.nothing es + c.outstanding

section

variable {c c' : Connection} {es : List (Option Event)}

theorem counts_start (mallocs : ℕ → Bool) (writes : ℕ → WriteResult) :
  Counts (Connection.start mallocs writes) []
  := ⟨rfl, rfl, rfl⟩

/-- A turn changes the number of jobs by what is seen of it. -/
theorem Counts.turn (h : Counts c es) {e : Option Event}
    (hhandler : c'.world.recvHandler = c.world.recvHandler)
    (hsize : c'.world.ccRecvThreadPool.curQueueSize.toInt
      = c'.world.ccRecvThreadPool.queue.length)
    (hjobs : (e.bind Event.queuedBuf).toList.length + (e.bind Event.short).toList.length
        + c.outstanding
      = (e.bind Event.dequeuedBuf).toList.length + (e.bind Event.nothing).toList.length
        + c'.outstanding) :
  Counts c' (es ++ [e])
  := by
  refine ⟨hhandler.trans h.recvHandler, hsize, ?_⟩
  have hbefore := h.jobs
  rw [countOf_concat, countOf_concat, countOf_concat, countOf_concat]
  omega

theorem Counts.main (h : Counts c es) {host : Host} {answer : Answer}
    (hmax : answer.read.data.length ≤ ccRecvBufferSize)
    (hfits : c.world.ccRecvThreadPool.curQueueSize ≠ Int32.maxValue) {e : Option Event}
    {main : MainState} {w : World}
    (hmove : MainMoves host answer c.world c.main e main w) :
  Counts ⟨w, main, c.worker⟩ (es ++ [e])
  := by
  obtain ⟨world, main₀, worker⟩ := c
  cases hmove with
  | goes hmain hmain' _ =>
      refine h.turn rfl h.size ?_
      simp only [Connection.outstanding, hmain.jobs, hmain'.jobs]
      rfl
  | leaves => exact h.turn rfl h.size rfl
  | reads hfetch =>
      obtain ⟨hfetched, hgoes⟩ := Program.ensures_iff.mp (fetch_ensures hmax) _ _ hfetch
      rw [hfetched]
      refine h.turn rfl h.size ?_
      cases hgoes with
      | nothing hnil =>
          simp [Event.short, Event.chunk, hnil, Event.queuedBuf, Event.dequeuedBuf,
            Event.nothing, Connection.outstanding, MainState.jobs]
      | short hpos hshort =>
          simp [Event.short, Event.chunk, hpos, hshort, Event.queuedBuf, Event.dequeuedBuf,
            Event.nothing, Connection.outstanding, MainState.jobs, Nat.add_comm]
      | message hpasses =>
          have hmin := hpasses.1
          simp [Event.short, Event.chunk, Nat.not_lt.mpr hmin, Event.queuedBuf,
            Event.dequeuedBuf, Event.nothing, Connection.outstanding, MainState.jobs]
      | other hmin _ =>
          simp [Event.short, Event.chunk, Nat.not_lt.mpr hmin, Event.queuedBuf,
            Event.dequeuedBuf, Event.nothing, Connection.outstanding, MainState.jobs]
  | queues henqueue =>
      refine h.turn rfl h.size ?_
      simp [Event.queuedBuf, Event.short, Event.chunk, Event.dequeuedBuf, Event.nothing,
        Connection.outstanding, MainState.jobs, Nat.add_comm]
  | adds =>
      refine h.turn rfl ?_ ?_
      · have hmax : world.ccRecvThreadPool.curQueueSize.toInt + 1 < 2 ^ 31 := by
          have hlt := world.ccRecvThreadPool.curQueueSize.toInt_lt
          have hne : world.ccRecvThreadPool.curQueueSize.toInt ≠ 2 ^ 31 - 1 := by
            rw [← Int32.toInt_maxValue]
            exact fun heq => hfits (Int32.toInt_inj.mp heq)
          omega
        have hsize := h.size
        dsimp only at hsize ⊢
        rw [toInt_add_one hmax, hsize, List.length_append]
        rfl
      · simp [Event.queuedBuf, Event.short, Event.chunk, Event.dequeuedBuf, Event.nothing,
          Connection.outstanding, MainState.jobs, Nat.add_right_comm]
  | misses hdequeue => exact h.turn rfl h.size rfl
  | drops hdequeue _ => exact h.turn rfl h.size rfl
  | writes hdequeue _ hflush =>
      obtain ⟨n, hw, -⟩ := Program.ensures_iff.mp flushMessage_ensures _ _ hflush
      rw [hw]
      refine h.turn rfl h.size ?_
      split <;> rfl

theorem Counts.worker (h : Counts c es) {host : Host} {e : Option Event}
    {worker : WorkerState} {w : World} (hmove : WorkerMoves host c.world c.worker e worker w) :
  Counts ⟨w, c.main, worker⟩ (es ++ [e])
  := by
  obtain ⟨world, main, worker₀⟩ := c
  cases hmove with
  | sleeps hworker _ =>
      refine h.turn rfl h.size ?_
      rcases hworker with rfl | rfl <;> rfl
  | takes hworker hne hqueue =>
      have hsize := h.size
      dsimp only at hsize hne hqueue ⊢
      rw [hqueue, List.length_cons] at hsize
      refine h.turn rfl ?_ ?_
      · dsimp only
        rw [toInt_sub_one (by omega), hsize]
        omega
      · rcases hworker with rfl | rfl <;>
          simp [Event.queuedBuf, Event.short, Event.chunk, Event.dequeuedBuf, Event.nothing,
            Connection.outstanding, WorkerState.jobs, hqueue]
  | misses _ =>
      refine h.turn rfl h.size ?_
      simp [Event.queuedBuf, Event.short, Event.chunk, Event.dequeuedBuf, Event.nothing,
        Connection.outstanding, WorkerState.jobs]
      omega
  | finds _ => exact h.turn rfl h.size rfl
  | loses hdequeue =>
      refine h.turn rfl h.size ?_
      simp [Event.queuedBuf, Event.short, Event.chunk, Event.dequeuedBuf, Event.nothing,
        Connection.outstanding, WorkerState.jobs]
      omega
  | dequeues hdequeue =>
      refine h.turn rfl h.size ?_
      simp [Event.queuedBuf, Event.short, Event.chunk, Event.dequeuedBuf, Event.nothing,
        Connection.outstanding, WorkerState.jobs]
      omega
  | handles hdispatch =>
      have hhandled := handled_dispatch.of_ok hdispatch
      apply h.turn hhandled.recvHandler
      · rw [hhandled.pool]
        exact h.size
      · simp [Event.queuedBuf, Event.short, Event.chunk, Event.dequeuedBuf, Event.nothing,
          Connection.outstanding, WorkerState.jobs, hhandled.pool]

/-- The jobs are enough for the messages: no more of them have found nothing than chunks have been
read that are too short, and a job that has looked finds a message. -/
structure Staffed (c : Connection) (es : List (Option Event)) (bufs : List Buffer) : Prop where
  conserves : Conserves c es bufs
  counts : Counts c es
  idle : countOf Event.nothing es ≤ countOf Event.short es
  found : c.worker = .atDequeue → bufs ≠ []

theorem staffed_start (mallocs : ℕ → Bool) (writes : ℕ → WriteResult) :
  Staffed (Connection.start mallocs writes) [] []
  := ⟨conserves_start mallocs writes, counts_start mallocs writes, le_rfl, nofun⟩

variable {bufs bufs' : List Buffer}

theorem Conserves.length (h : Conserves c es bufs) :
  countOf Event.queuedBuf es = countOf Event.dequeuedBuf es + bufs.length
  := by
  rw [countOf, h.queued, List.length_append, countOf]

/-- What is on the receive queue, and what jobs have found nothing, is what there are jobs for, and
chunks that are too short. -/
theorem Staffed.jobs (h : Staffed c es bufs) :
  bufs.length + countOf Event.short es = c.outstanding + countOf Event.nothing es
  := by
  have hjobs := h.counts.jobs
  have hlength := h.conserves.length
  omega

/-- The length of the receive queue does not wrap around. -/
theorem Staffed.length_lt (h : Staffed c es bufs) :
  bufs.length < 2 ^ 32
  := by
  have hjobs := h.jobs
  have hidle := h.idle
  have hlt := c.world.ccRecvThreadPool.curQueueSize.toInt_lt
  have hworker : c.worker.jobs ≤ 1 := by
    cases c.worker <;> first | exact le_rfl | exact Nat.zero_le _
  have hmain : c.main.jobs ≤ 1 := by
    cases c.main <;> first | exact le_rfl | exact Nat.zero_le _
  rw [h.counts.size] at hlt
  rw [Connection.outstanding] at hjobs
  omega

theorem Staffed.nil_of_length (h : Staffed c es bufs) (hzero : c.world.recvQueue.length = 0) :
  bufs = []
  := by
  have hlength := congrArg UInt32.toNat (h.conserves.contains.length.symm.trans hzero)
  rw [UInt32.toNat_ofNat_of_lt' h.length_lt] at hlength
  exact List.length_eq_zero_iff.mp hlength

/-- A job finds nothing only on an empty queue. -/
theorem Staffed.nil_of_nothing (h : Staffed c es bufs) {host : Host} {worker : WorkerState}
    {w : World}
    (hmove : WorkerMoves host c.world c.worker (some (.dequeued none)) worker w) :
  bufs = [] ∧ c.worker.jobs = 1
  := by
  obtain ⟨world, main, worker₀⟩ := c
  cases hmove with
  | misses hnone =>
      rcases hnone with hhandler | hzero
      · have hregistered := h.counts.recvHandler
        rw [hhandler] at hregistered
        cases hregistered
      · exact ⟨h.nil_of_length hzero, rfl⟩
  | loses hdequeue =>
      exact ⟨h.nil_of_length (h.conserves.contains.dequeue_none hdequeue).2, rfl⟩

/-- The main thread takes nothing off the receive queue. -/
theorem MainMoves.dequeuedBuf {host : Host} {answer : Answer} {w w' : World}
    {main main' : MainState} {e : Option Event} (h : MainMoves host answer w main e main' w') :
  e.bind Event.dequeuedBuf = none
  := by
  cases h <;> rfl

theorem MainMoves.nothing {host : Host} {answer : Answer} {w w' : World}
    {main main' : MainState} {e : Option Event} (h : MainMoves host answer w main e main' w') :
  e.bind Event.nothing = none
  := by
  cases h <;> rfl

theorem Staffed.idle_step (h : Staffed c es bufs) {turn : Turn} {e : Option Event}
    (hmove : Moves c turn e c') :
  countOf Event.nothing (es ++ [e]) ≤ countOf Event.short (es ++ [e])
  := by
  have hidle := h.idle
  rw [countOf_concat, countOf_concat]
  by_cases hnothing : e = some (.dequeued none)
  · subst hnothing
    have hjobs := h.jobs
    cases hmove with
    | main hmain => cases hmain.nothing
    | worker hworker =>
        obtain ⟨rfl, hone⟩ := h.nil_of_nothing hworker
        rw [Connection.outstanding, hone, List.length_nil] at hjobs
        simp only [Option.bind_some, Event.nothing, Option.toList_some, List.length_singleton]
        omega
  · have hnone : e.bind Event.nothing = none := by
      cases e with
      | none => rfl
      | some e =>
          cases e with
          | dequeued buf =>
              cases buf with
              | none => exact absurd rfl hnothing
              | some buf => rfl
          | _ => rfl
    rw [hnone]
    simp only [Option.toList_none, List.length_nil]
    omega

theorem Staffed.found_step (h : Staffed c es bufs) {turn : Turn} {e : Option Event}
    (hmove : Moves c turn e c') (hconserves : Conserves c' (es ++ [e]) bufs')
    (hat : c'.worker = .atDequeue) :
  bufs' ≠ []
  := by
  have hlength := h.conserves.length
  have hlength' := hconserves.length
  rw [countOf_concat, countOf_concat] at hlength'
  have hpos : 0 < bufs.length ∧ (e.bind Event.dequeuedBuf).toList.length = 0 := by
    cases hmove with
    | main hmain =>
        rw [hmain.dequeuedBuf]
        exact ⟨List.length_pos_iff.mpr (h.found hat), rfl⟩
    | worker hworker =>
        obtain ⟨world, main, worker⟩ := c
        dsimp only at hat
        subst hat
        cases hworker with
        | finds hne =>
            refine ⟨List.length_pos_iff.mpr ?_, rfl⟩
            rintro rfl
            exact hne h.conserves.contains.length
  apply List.length_pos_iff.mp
  omega

/-- When a job is added, the count of the pool is not the largest `int`. -/
def Connection.Uncrowded (c : Connection) : Turn → Prop
  | .main _ _ => c.world.ccRecvThreadPool.curQueueSize ≠ Int32.maxValue
  | .worker _ => True

theorem Staffed.step (h : Staffed c es bufs) {turn : Turn} (hbounded : turn.Bounded)
    (hfits : c.Uncrowded turn) {e : Option Event}
    (hstep : connectionStep c turn = .ok (e, c')) :
  ∃ bufs', Staffed c' (es ++ [e]) bufs'
  := by
  have hmove := connectionStep_moves hstep
  obtain ⟨bufs', hconserves⟩ := h.conserves.step hbounded hstep
  refine ⟨bufs', hconserves, ?_, h.idle_step hmove, h.found_step hmove hconserves⟩
  cases hmove with
  | main hmain => exact h.counts.main hbounded hfits hmain
  | worker hworker => exact h.counts.worker hworker

end

theorem staffed_run {mallocs : ℕ → Bool} {writes : ℕ → WriteResult} {turns : List Turn}
    (hbounded : ∀ turn ∈ turns, turn.Bounded)
    (hfits : Machine.Throughout connectionStep Connection.Uncrowded
      (Connection.start mallocs writes) turns)
    {es : List (Option Event)} {c : Connection}
    (hrun : Machine.run connectionStep (Connection.start mallocs writes) turns = .ok (es, c)) :
  ∃ bufs, Staffed c es bufs
  := by
  induction turns using List.reverseRecOn generalizing es c with
  | nil =>
      obtain ⟨rfl, rfl⟩ : [] = es ∧ Connection.start mallocs writes = c := by
        simpa [Machine.run] using hrun
      exact ⟨[], staffed_start mallocs writes⟩
  | append_singleton turns turn ih =>
      obtain ⟨es', c₁, e, hrun', hstep, rfl⟩ := Machine.run_concat_ok hrun
      obtain ⟨hfits', hlast⟩ := (Machine.throughout_concat hrun').mp hfits
      obtain ⟨bufs, hstaffed⟩ := ih (fun t ht => hbounded t (by simp [ht])) hfits' hrun'
      exact hstaffed.step (hbounded turn (by simp)) hlast hstep

/-- In every state that a connection reaches there is a job for every message on the receive queue.
What jobs there are besides come of chunks that are too short for a message: as many of these have
been read as there are such jobs, and jobs that have found nothing. -/
theorem messages_have_jobs (mallocs : ℕ → Bool) (writes : ℕ → WriteResult) (turns : List Turn)
    (hbounded : ∀ turn ∈ turns, turn.Bounded)
    (hfits : Machine.Throughout connectionStep Connection.Uncrowded
      (Connection.start mallocs writes) turns)
    (es : List (Option Event)) (c : Connection)
    (hrun : Machine.run connectionStep (Connection.start mallocs writes) turns = .ok (es, c)) :
  ∃ bufs, c.world.recvQueue.Holds bufs ∧ bufs.length ≤ c.outstanding ∧
    bufs.length + countOf Event.short es = c.outstanding + countOf Event.nothing es
  := by
  obtain ⟨bufs, hstaffed⟩ := staffed_run hbounded hfits hrun
  have hjobs := hstaffed.jobs
  have hidle := hstaffed.idle
  exact ⟨bufs, hstaffed.conserves.contains.holds, by omega, hjobs⟩

theorem helloTurns_uncrowded :
  Machine.Throughout connectionStep Connection.Uncrowded
    (Connection.start (fun _ => true) (fun _ => .failed)) helloTurns
  := by
  have hplenty : (0 : Int32) ≠ Int32.maxValue := by decide
  exact .cons hplenty rfl (.cons hplenty rfl (.cons hplenty rfl (.cons hplenty rfl
    Machine.throughout_nil)))

theorem messages_have_jobs_hello :
  (∀ turn ∈ helloTurns, turn.Bounded) ∧
  Machine.Throughout connectionStep Connection.Uncrowded
    (Connection.start (fun _ => true) (fun _ => .failed)) helloTurns ∧
  ∃ es c, Machine.run connectionStep (Connection.start (fun _ => true) (fun _ => .failed))
      helloTurns = .ok (es, c) ∧
    ∃ bufs, c.world.recvQueue.Holds bufs ∧ bufs.length = 1
  := by
  refine ⟨helloTurns_bounded, helloTurns_uncrowded, _, _, rfl, ?_⟩
  obtain ⟨bufs, hholds, -, hlength⟩ := messages_have_jobs (fun _ => true) (fun _ => .failed)
    helloTurns helloTurns_bounded helloTurns_uncrowded _ _ rfl
  exact ⟨bufs, hholds, hlength⟩

/-! ### The thread of the pool alone -/

theorem eventsOf_append {α : Type} {f : Event → Option α} {es es' : List (Option Event)} :
  eventsOf f (es ++ es') = eventsOf f es ++ eventsOf f es'
  := by
  rw [eventsOf, List.reduceOption_append, List.filterMap_append, eventsOf, eventsOf]

/-- How far the thread is from waiting, if there are no more jobs. -/
def WorkerState.rank : WorkerState → ℕ
  | .waiting => 0
  | .atLock => 1
  | .atHandler _ => 2
  | .atDequeue => 3
  | .atCheck => 4

/-- How many turns the thread may take before it finds no more jobs. -/
def Connection.turnsLeft (c : Connection) : ℕ :=
  5 * c.world.ccRecvThreadPool.queue.length + c.worker.rank

section

variable {c c' : Connection} {es es' : List (Option Event)} {bufs : List Buffer}

theorem Staffed.queue_nil (h : Staffed c es bufs)
    (hzero : c.world.ccRecvThreadPool.curQueueSize = 0) :
  c.world.ccRecvThreadPool.queue = []
  := by
  have hsize := h.counts.size
  rw [hzero, Int32.toInt_zero] at hsize
  apply List.length_eq_zero_iff.mp
  omega

/-- Each turn of the thread brings it nearer to waiting. -/
theorem Staffed.turnsLeft_le (h : Staffed c es bufs) {host : Host} {e : Option Event}
    {worker : WorkerState} {w : World} (hmove : WorkerMoves host c.world c.worker e worker w) :
  Connection.turnsLeft ⟨w, c.main, worker⟩ ≤ c.turnsLeft - 1
  := by
  have hnil := h.queue_nil
  obtain ⟨world, main, worker₀⟩ := c
  cases hmove with
  | sleeps hworker hzero =>
      dsimp only at hnil
      simp [Connection.turnsLeft, hnil hzero, WorkerState.rank]
  | takes hworker hsize hqueue =>
      dsimp only at hqueue
      simp only [Connection.turnsLeft, hqueue, List.length_cons, WorkerState.rank]
      omega
  | misses _ =>
      simp only [Connection.turnsLeft, WorkerState.rank]
      omega
  | finds _ =>
      simp only [Connection.turnsLeft, WorkerState.rank]
      omega
  | loses _ =>
      simp only [Connection.turnsLeft, WorkerState.rank]
      omega
  | dequeues _ =>
      simp only [Connection.turnsLeft, WorkerState.rank]
      omega
  | handles hdispatch =>
      simp only [Connection.turnsLeft, WorkerState.rank, (handled_dispatch.of_ok hdispatch).pool]
      omega

/-- The thread queues no message. -/
theorem WorkerMoves.queuedBuf {host : Host} {w w' : World} {worker worker' : WorkerState}
    {e : Option Event} (h : WorkerMoves host w worker e worker' w') :
  e.bind Event.queuedBuf = none
  := by
  cases h <;> rfl

/-- The thread of the pool takes turns alone. -/
theorem Staffed.worker_run (h : Staffed c es bufs) {hosts : List Host}
    (hrun : Machine.run connectionStep c (hosts.map Turn.worker) = .ok (es', c')) :
  ∃ rest, Staffed c' (es ++ es') rest ∧ c'.main = c.main ∧ eventsOf Event.queuedBuf es' = [] ∧
    c'.turnsLeft ≤ c.turnsLeft - hosts.length
  := by
  induction hosts generalizing c es es' bufs with
  | nil =>
      obtain ⟨rfl, rfl⟩ : [] = es' ∧ c = c' := by simpa [Machine.run] using hrun
      exact ⟨bufs, by simpa using h, rfl, rfl, le_rfl⟩
  | cons host hosts ih =>
      obtain ⟨e, c₁, es₁, hstep, hrun', rfl⟩ := Machine.run_cons_ok hrun
      have hbounded : (Turn.worker host).Bounded := trivial
      obtain ⟨bufs₁, hstaffed⟩ := h.step hbounded trivial hstep
      obtain ⟨rest, hrest, hmain, hqueued, hturns⟩ := ih hstaffed hrun'
      have hmove := connectionStep_moves hstep
      cases hmove with
      | worker hworker =>
          have hnearer := h.turnsLeft_le hworker
          refine ⟨rest, by simpa using hrest, hmain, ?_, ?_⟩
          · have hcons : e :: es₁ = [] ++ [e] ++ es₁ := rfl
            rw [hcons, eventsOf_append, eventsOf_concat, hworker.queuedBuf, hqueued]
            rfl
          · rw [List.length_cons]
            omega

/-- The thread of the pool does not stop but in a handler. -/
theorem Staffed.worker_returns (h : Staffed c es bufs) (host : Host)
    (hidle : c.worker.inHand = []) :
  ∃ e c', connectionStep c (.worker host) = .ok (e, c')
  := by
  have htake : Program.Reaches takeJob c.world (fun _ _ => True) := by
    simp only [takeJob, Program.ends_bind, Program.ends_state, CThreadPool.takeWorker]
    have hsize := h.counts.size
    by_cases hzero : c.world.ccRecvThreadPool.curQueueSize = 0
    · rw [if_pos hzero]
      trivial
    · cases hqueue : c.world.ccRecvThreadPool.queue with
      | nil =>
          rw [hqueue] at hsize
          exact absurd (Int32.toInt_inj.mp hsize) hzero
      | cons job queue =>
          rw [if_neg hzero]
          trivial
  have hreturns : Program.Reaches (workerStep host c.worker) c.world (fun _ _ => True) := by
    cases hworker : c.worker with
    | atLock => exact htake
    | waiting => exact htake
    | atCheck =>
        simp only [workerStep, Program.ends_bind, Program.ends_state, Program.ends_ite,
          Program.ends_pure, implies_true, and_self]
    | atDequeue =>
        simp only [workerStep, dequeueReceived, Program.ends_bind, Program.ends_state]
        rcases h.conserves.contains.dequeue with ⟨-, hnothing⟩ | ⟨_, _, _, _, q', hfirst, -⟩
        · rw [hnothing]
          trivial
        · rw [hfirst]
          trivial
    | atHandler recvBuf =>
        rw [hworker] at hidle
        cases hidle
  obtain ⟨r, w', hok, -⟩ := Program.reaches_iff.mp hreturns
  exact ⟨r.1, ⟨w', c.main, r.2⟩, by simp only [connectionStep, hok]; rfl⟩

end

/-- In every state that a connection reaches, the thread of the pool goes on unless it is in a
handler; and when it has taken turns enough for the jobs there are, all messages have been handled,
in order, that were on the receive queue, but for one for which the main thread has yet to add the
job. -/
theorem worker_finishes (mallocs : ℕ → Bool) (writes : ℕ → WriteResult) (turns : List Turn)
    (hbounded : ∀ turn ∈ turns, turn.Bounded)
    (hfits : Machine.Throughout connectionStep Connection.Uncrowded
      (Connection.start mallocs writes) turns)
    (es : List (Option Event)) (c : Connection)
    (hrun : Machine.run connectionStep (Connection.start mallocs writes) turns = .ok (es, c)) :
  (∀ host, c.worker.inHand = [] → ∃ e c', connectionStep c (.worker host) = .ok (e, c')) ∧
  ∀ (hosts : List Host) es' c', 5 * c.world.ccRecvThreadPool.queue.length + 4 ≤ hosts.length →
    Machine.run connectionStep c (hosts.map Turn.worker) = .ok (es', c') →
    c'.worker = .waiting ∧ c'.world.ccRecvThreadPool.queue = [] ∧
    ∃ bufs rest, c.world.recvQueue.Holds bufs ∧ c'.world.recvQueue.Holds rest ∧
      rest.length ≤ c.main.jobs ∧
      c.worker.inHand ++ bufs = eventsOf Event.handledBuf es' ++ rest
  := by
  obtain ⟨bufs, hstaffed⟩ := staffed_run hbounded hfits hrun
  use fun host hidle => hstaffed.worker_returns host hidle
  intro hosts es' c' hlong hrun'
  obtain ⟨rest, hrest, hmain, hqueued, hturns⟩ := hstaffed.worker_run hrun'
  have hrank : c.worker.rank ≤ 4 := by
    cases c.worker <;> simp [WorkerState.rank]
  have hleft : c'.turnsLeft = 0 := by
    have hturns₀ : c.turnsLeft ≤ hosts.length := by
      rw [Connection.turnsLeft]
      omega
    omega
  rw [Connection.turnsLeft] at hleft
  have hwaiting : c'.worker = .waiting := by
    cases hworker : c'.worker <;> rw [hworker] at hleft <;> simp [WorkerState.rank] at hleft ⊢
  have hnil : c'.world.ccRecvThreadPool.queue = [] := by
    apply List.length_eq_zero_iff.mp
    omega
  refine ⟨hwaiting, hnil, bufs, rest, hstaffed.conserves.contains.holds,
    hrest.conserves.contains.holds, ?_, ?_⟩
  · have hjobs := hrest.jobs
    have hidle := hrest.idle
    rw [Connection.outstanding, hnil, hwaiting, hmain, List.length_nil] at hjobs
    simp only [WorkerState.jobs] at hjobs
    omega
  · have hbefore := hstaffed.conserves.queued
    have hafter := hrest.conserves.queued
    rw [hstaffed.conserves.dequeued] at hbefore
    rw [hrest.conserves.dequeued, eventsOf_append, hqueued, List.append_nil, eventsOf_append,
      hwaiting, hbefore] at hafter
    simpa [WorkerState.inHand] using hafter

theorem worker_finishes_hello :
  (∀ turn ∈ helloTurns, turn.Bounded) ∧
  Machine.Throughout connectionStep Connection.Uncrowded
    (Connection.start (fun _ => true) (fun _ => .failed)) helloTurns ∧
  ∃ es c es' c', Machine.run connectionStep (Connection.start (fun _ => true) (fun _ => .failed))
      helloTurns = .ok (es, c) ∧
    Machine.run connectionStep c (List.replicate 9 (.worker (Host.plain true))) = .ok (es', c') ∧
    c'.worker = .waiting ∧ c'.world.ccRecvThreadPool.queue = [] ∧
    ∃ bufs rest, c.world.recvQueue.Holds bufs ∧ c'.world.recvQueue.Holds rest ∧
      rest.length ≤ c.main.jobs ∧
      c.worker.inHand ++ bufs = eventsOf Event.handledBuf es' ++ rest
  := by
  have hfinishes := (worker_finishes (fun _ => true) (fun _ => .failed) helloTurns
    helloTurns_bounded helloTurns_uncrowded _ _ rfl).2 (List.replicate 9 (Host.plain true))
  exact ⟨helloTurns_bounded, helloTurns_uncrowded, _, _, _, _, rfl, rfl,
    hfinishes _ _ (by decide) rfl⟩
end CcController
