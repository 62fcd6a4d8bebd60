import CcController.Interleaving

/-!
# What is written

The handlers put messages on the send queue and the main thread writes them, in any order of the
turns of the two. What is written is, for each message that has been taken from the queue, some
first part of it (`written_inOrder`); nothing is lost exactly if every round of the loop of
`cc_flush_to_secure_channel` that takes a message is one of the last eleven and its `write` takes
the whole message (`nothing_lost_iff`).

A queue that has been emptied takes nothing more, so a connection that goes on serves one burst of
messages at most (`one_burst`).
-/

namespace CcController

/-! ### First parts of blocks -/

section

variable {α β : Type} {f : α → List β} {as : List α} {pieces : List (List β)}

theorem length_flatten_le (h : List.Forall₂ (fun a piece => piece <+: f a) as pieces) :
  pieces.flatten.length ≤ (as.flatMap f).length
  := by
  induction h with
  | nil => exact le_rfl
  | cons hpiece _ ih =>
      rw [List.flatten_cons, List.flatMap_cons, List.length_append, List.length_append]
      exact Nat.add_le_add hpiece.length_le ih

/-- First parts that are as long as the whole are the whole. -/
theorem flatten_eq_of_length (h : List.Forall₂ (fun a piece => piece <+: f a) as pieces)
    (hlength : pieces.flatten.length = (as.flatMap f).length) :
  pieces.flatten = as.flatMap f
  := by
  induction h with
  | nil => rfl
  | cons hpiece hpieces ih =>
      rw [List.flatten_cons, List.flatMap_cons, List.length_append, List.length_append]
        at hlength
      have hle := hpiece.length_le
      have hles := length_flatten_le hpieces
      rw [List.flatten_cons, List.flatMap_cons, hpiece.eq_of_length (by omega), ih (by omega)]

end

/-! ### Messages to be written -/

/-- The send queue contains `msgs`, and what has been sent has been taken up to these. Of each
message taken some first part has been written, and `lost` bytes have not. -/
structure Transmits (c : Connection) (es : List (Option Event)) (msgs : List Buffer) (lost : ℕ) :
    Prop where
  contains : c.world.sendQueue.Contains msgs
  sent : c.world.sent.map Prod.fst = eventsOf Event.flushedMsg es ++ msgs
  created : ∀ p ∈ c.world.sent, CcCreated p.1
  written : ∃ pieces, c.world.written = pieces.flatten ∧
    List.Forall₂ (fun msg piece => piece <+: msg.block) (eventsOf Event.flushedMsg es) pieces
  length : c.world.written.length + lost = (bytesOf (eventsOf Event.flushedMsg es)).length

/-- A message that is taken in this turn is taken in one of the last eleven rounds, and its write
takes all of it. -/
def Connection.WritesWhole (c : Connection) : Turn → Prop
  | .main _ _ =>
    ∀ count msg sendQueue, c.main = .flushing (count + 1) →
      dequeueMessage c.world.sendQueue = .ok (some msg, sendQueue) →
      count ≤ 10 ∧ (c.world.writes 0).Completes msg.block
  | .worker _ => True

theorem CcCreated.wire {host : Host} {msg : Buffer} (h : CcCreated msg) :
  msg.wire host = msg.block
  := by
  have hmemory : msg.memory host = memoryOf msg.block host.beyond := rfl
  rw [Buffer.wire, hmemory, h.header_length, bytesAt_memoryOf]

/-- Of a message that has been created all is written if the write takes all of it, and otherwise
some first part. -/
theorem flushMessage_part {host : Host} {msg : Buffer} (hmsg : CcCreated msg) {w w' : World}
    {stopped : Option ℤ} (hflush : flushMessage host msg w = .ok (stopped, w')) :
  ∃ n, w' = { w with
      writes := fun i => w.writes (i + 1)
      released := w'.released
      stale := w'.stale
      written := w.written ++ msg.block.take n } ∧
    (msg.block.length ≤ n ↔ (w.writes 0).Completes msg.block)
  := by
  obtain ⟨n, hw, hwhole⟩ := Program.ensures_iff.mp flushMessage_ensures _ _ hflush
  rw [hmsg.wire] at hw hwhole
  use n, hw
  constructor
  · intro hle
    obtain ⟨_, _, hok, -, -, hwritten⟩ := Program.reaches_iff.mp (flushMessage_reaches hmsg)
    rw [hflush] at hok
    cases hok
    rcases hwritten with ⟨hcompletes, -⟩ | ⟨-, hless⟩
    · exact hcompletes
    · rw [hw, List.length_append, List.take_of_length_le hle] at hless
      exact absurd hless (lt_irrefl _)
  · intro hcompletes
    exact (hwhole hcompletes).1

/-- A message is put on the queue behind those that are there. -/
theorem MessageQueue.Contains.queued {queue queue' : MessageQueue Buffer} {msgs new : List Buffer}
    (h : queue.Contains msgs) (hqueued : Queued queue new queue') :
  queue'.Contains (msgs ++ new)
  := by
  induction new generalizing queue msgs with
  | nil =>
      obtain rfl : queue' = queue := hqueued
      rw [List.append_nil]
      exact h
  | cons msg new ih =>
      obtain ⟨ok, queue₁, henqueue, hrest⟩ := hqueued
      rw [List.append_cons]
      exact ih (.inl (h.enqueue henqueue).2) hrest

section

variable {c c' : Connection} {es : List (Option Event)} {msgs : List Buffer} {lost : ℕ}

theorem transmits_start (mallocs : ℕ → Bool) (writes : ℕ → WriteResult) :
  Transmits (Connection.start mallocs writes) [] [] 0
  := ⟨MessageQueue.contains_create, rfl, by simp [Connection.start, World.fresh],
    ⟨[], rfl, .nil⟩, rfl⟩

/-- A turn that has nothing to do with the send queue. -/
theorem Transmits.quiet (h : Transmits c es msgs lost) {e : Option Event}
    (he : e.bind Event.flushedMsg = none) (hqueue : c'.world.sendQueue = c.world.sendQueue)
    (hsent : c'.world.sent = c.world.sent) (hwritten : c'.world.written = c.world.written) :
  Transmits c' (es ++ [e]) msgs lost
  := by
  have hes : eventsOf Event.flushedMsg (es ++ [e]) = eventsOf Event.flushedMsg es := by
    rw [eventsOf_concat, he, Option.toList_none, List.append_nil]
  constructor
  · rw [hqueue]
    exact h.contains
  · rw [hsent, hes]
    exact h.sent
  · rw [hsent]
    exact h.created
  · rw [hwritten, hes]
    exact h.written
  · rw [hwritten, hes]
    exact h.length

/-- The first message is taken, and some first part of it is written. -/
theorem Transmits.takes {msg : Buffer} (h : Transmits c es (msg :: msgs) lost) {w : World}
    {main : MainState} {n : ℕ} (hcontains : w.sendQueue.Contains msgs)
    (hsent : w.sent = c.world.sent)
    (hwritten : w.written = c.world.written ++ msg.block.take n) :
  Transmits ⟨w, main, c.worker⟩ (es ++ [some (.flushed msg)]) msgs
    (lost + (msg.block.length - n))
  := by
  have hes : eventsOf Event.flushedMsg (es ++ [some (.flushed msg)])
      = eventsOf Event.flushedMsg es ++ [msg] :=
    eventsOf_concat
  obtain ⟨pieces, hpieces, hparts⟩ := h.written
  constructor
  · exact hcontains
  · rw [hsent, h.sent, hes, List.append_assoc]
    rfl
  · rw [hsent]
    exact h.created
  · rw [hes]
    use pieces ++ [msg.block.take n]
    constructor
    · rw [hwritten, hpieces, List.flatten_append, List.flatten_singleton]
    · exact List.rel_append hparts (.cons (List.take_prefix n msg.block) .nil)
  · have hlength := h.length
    rw [hes, hwritten, List.length_append, List.length_take]
    simp only [bytesOf, List.flatMap_append, List.flatMap_singleton, List.length_append]
      at hlength ⊢
    omega

/-- The message that is taken is the first one. -/
theorem Transmits.first (h : Transmits c es msgs lost) {msg : Buffer}
    {sendQueue : MessageQueue Buffer}
    (hdequeue : dequeueMessage c.world.sendQueue = .ok (some msg, sendQueue)) :
  ∃ rest, msgs = msg :: rest ∧ sendQueue.Contains rest ∧ CcCreated msg
  := by
  obtain ⟨rest, rfl, hcontains, -⟩ := h.contains.dequeue_some hdequeue
  have hmem : msg ∈ c.world.sent.map Prod.fst := by
    rw [h.sent]
    simp
  obtain ⟨p, hp, rfl⟩ := List.mem_map.mp hmem
  exact ⟨rest, rfl, hcontains, h.created p hp⟩

/-- A round that writes a message loses what the write does not take. -/
theorem Transmits.writes (h : Transmits c es msgs lost) {host : Host} {count : ℕ} {msg : Buffer}
    {sendQueue : MessageQueue Buffer} (hmain : c.main = .flushing (count + 1))
    (hdequeue : dequeueMessage c.world.sendQueue = .ok (some msg, sendQueue)) (hfew : count ≤ 10)
    {stopped : Option ℤ} {main : MainState} {w : World}
    (hflush : flushMessage host msg { c.world with sendQueue := sendQueue } = .ok (stopped, w))
    (answer : Answer) :
  ∃ msgs' k, Transmits ⟨w, main, c.worker⟩ (es ++ [some (.flushed msg)]) msgs' (lost + k) ∧
    (k = 0 ↔ c.WritesWhole (.main host answer))
  := by
  obtain ⟨rest, rfl, hcontains, hcreated⟩ := h.first hdequeue
  obtain ⟨n, hw, hwhole⟩ := flushMessage_part hcreated hflush
  refine ⟨rest, msg.block.length - n, ?_, ?_⟩
  · apply h.takes
    · rw [hw]
      exact hcontains
    · rw [hw]
    · rw [hw]
  · rw [Nat.sub_eq_zero_iff_le, hwhole]
    constructor
    · intro hcompletes count' msg' sendQueue' hmain' hdequeue'
      rw [hmain] at hmain'
      rw [hdequeue] at hdequeue'
      cases hmain'
      cases hdequeue'
      exact ⟨hfew, hcompletes⟩
    · intro h
      exact (h count msg sendQueue hmain hdequeue).2

/-- A turn of the main thread loses bytes exactly if it takes a message and does not write it
whole. -/
theorem Transmits.main (h : Transmits c es msgs lost) {host : Host} {answer : Answer}
    (hmax : answer.read.data.length ≤ ccRecvBufferSize) {e : Option Event} {main : MainState}
    {w : World} (hmove : MainMoves host answer c.world c.main e main w) :
  ∃ msgs' k, Transmits ⟨w, main, c.worker⟩ (es ++ [e]) msgs' (lost + k) ∧
    (k = 0 ↔ c.WritesWhole (.main host answer))
  := by
  obtain ⟨world, main₀, worker⟩ := c
  cases hmove with
  | goes _ _ hround =>
      refine ⟨msgs, 0, h.quiet rfl rfl rfl rfl, iff_of_true rfl ?_⟩
      intro count _ _ hmain
      exact absurd hmain (hround count)
  | leaves => exact ⟨msgs, 0, h.quiet rfl rfl rfl rfl, iff_of_true rfl nofun⟩
  | reads hfetch =>
      obtain ⟨hfetched, -⟩ := Program.ensures_iff.mp (fetch_ensures hmax) _ _ hfetch
      rw [hfetched]
      exact ⟨msgs, 0, h.quiet rfl rfl rfl rfl, iff_of_true rfl nofun⟩
  | queues _ => exact ⟨msgs, 0, h.quiet rfl rfl rfl rfl, iff_of_true rfl nofun⟩
  | adds => exact ⟨msgs, 0, h.quiet rfl rfl rfl rfl, iff_of_true rfl nofun⟩
  | misses hdequeue =>
      refine ⟨msgs, 0, h.quiet rfl (h.contains.dequeue_none hdequeue).1 rfl rfl,
        iff_of_true rfl ?_⟩
      intro _ _ _ _ hsome
      dsimp only at hsome
      rw [hdequeue] at hsome
      cases hsome
  | @drops count msg sendQueue hdequeue hmany =>
      obtain ⟨rest, rfl, hcontains, hcreated⟩ := h.first hdequeue
      refine ⟨rest, msg.block.length - 0, ?_, ?_⟩
      · refine h.takes hcontains rfl ?_
        rw [List.take_zero, List.append_nil]
      · have hpos := hcreated.length_pos
        apply iff_of_false (by omega)
        intro hwhole
        exact absurd (hwhole count msg sendQueue rfl hdequeue).1 (Nat.not_le.mpr hmany)
  | writes hdequeue hfew hflush => exact h.writes rfl hdequeue hfew hflush answer

/-- A handler puts what it sends on the queue. -/
theorem Transmits.handles (h : Transmits c es msgs lost) {w : World} (hhandled : c.world.Handled w)
    {recvBuf : Buffer} {worker : WorkerState} :
  ∃ msgs', Transmits ⟨w, c.main, worker⟩ (es ++ [some (.handled recvBuf)]) msgs' lost
  := by
  obtain ⟨new, hqueued, hsent, hnew⟩ := hhandled.sends
  have hes : eventsOf Event.flushedMsg (es ++ [some (.handled recvBuf)])
      = eventsOf Event.flushedMsg es := by
    rw [eventsOf_concat]
    apply List.append_nil
  use msgs ++ new.map Prod.fst
  constructor
  · exact h.contains.queued hqueued
  · rw [hsent, List.map_append, h.sent, hes, List.append_assoc]
  · intro p hp
    rw [hsent] at hp
    rcases List.mem_append.mp hp with hp | hp
    · exact h.created p hp
    · exact hnew p hp
  · rw [hhandled.written, hes]
    exact h.written
  · rw [hhandled.written, hes]
    exact h.length

theorem Transmits.worker (h : Transmits c es msgs lost) {host : Host} {e : Option Event}
    {worker : WorkerState} {w : World} (hmove : WorkerMoves host c.world c.worker e worker w) :
  ∃ msgs', Transmits ⟨w, c.main, worker⟩ (es ++ [e]) msgs' lost
  := by
  obtain ⟨world, main, worker₀⟩ := c
  cases hmove with
  | sleeps _ _ => exact ⟨msgs, h.quiet rfl rfl rfl rfl⟩
  | takes _ _ _ => exact ⟨msgs, h.quiet rfl rfl rfl rfl⟩
  | misses _ => exact ⟨msgs, h.quiet rfl rfl rfl rfl⟩
  | finds _ => exact ⟨msgs, h.quiet rfl rfl rfl rfl⟩
  | loses _ => exact ⟨msgs, h.quiet rfl rfl rfl rfl⟩
  | dequeues _ => exact ⟨msgs, h.quiet rfl rfl rfl rfl⟩
  | handles hdispatch => exact h.handles (handled_dispatch.of_ok hdispatch)

theorem Transmits.step (h : Transmits c es msgs lost) {turn : Turn} (hbounded : turn.Bounded)
    {e : Option Event} (hstep : connectionStep c turn = .ok (e, c')) :
  ∃ msgs' k, Transmits c' (es ++ [e]) msgs' (lost + k) ∧ (k = 0 ↔ c.WritesWhole turn)
  := by
  cases connectionStep_moves hstep with
  | main hmove => exact h.main hbounded hmove
  | worker hmove =>
      obtain ⟨msgs', htransmits⟩ := h.worker hmove
      exact ⟨msgs', 0, htransmits, iff_of_true rfl trivial⟩

end

section

variable {mallocs : ℕ → Bool} {writes : ℕ → WriteResult} {turns : List Turn}
  {es : List (Option Event)} {c : Connection}

theorem transmits_run (hbounded : ∀ turn ∈ turns, turn.Bounded)
    (hrun : Machine.run connectionStep (Connection.start mallocs writes) turns = .ok (es, c)) :
  ∃ msgs lost, Transmits c es msgs lost ∧ (lost = 0 ↔
    Machine.Throughout connectionStep Connection.WritesWhole (Connection.start mallocs writes)
      turns)
  := by
  induction turns using List.reverseRecOn generalizing es c with
  | nil =>
      obtain ⟨rfl, rfl⟩ : [] = es ∧ Connection.start mallocs writes = c := by
        simpa [Machine.run] using hrun
      exact ⟨[], 0, transmits_start mallocs writes, iff_of_true rfl Machine.throughout_nil⟩
  | append_singleton turns turn ih =>
      obtain ⟨es', c₁, e, hrun', hstep, rfl⟩ := Machine.run_concat_ok hrun
      obtain ⟨msgs, lost, htransmits, hwhole⟩ := ih (fun t ht => hbounded t (by simp [ht])) hrun'
      obtain ⟨msgs', k, htransmits', hturn⟩ := htransmits.step (hbounded turn (by simp)) hstep
      use msgs', lost + k, htransmits'
      rw [Machine.throughout_concat hrun', ← hwhole, ← hturn]
      exact Nat.add_eq_zero_iff

end

/-- In every state that a connection reaches, whatever turns its two threads take: the messages
that have been taken from the send queue and those that are on it are, one after the other, what
has been sent; and what has been written is, one after the other, some first part of each message
that has been taken. -/
theorem written_inOrder (mallocs : ℕ → Bool) (writes : ℕ → WriteResult) (turns : List Turn)
    (hbounded : ∀ turn ∈ turns, turn.Bounded) (es : List (Option Event)) (c : Connection)
    (hrun : Machine.run connectionStep (Connection.start mallocs writes) turns = .ok (es, c)) :
  ∃ msgs pieces, c.world.sendQueue.Holds msgs ∧
    c.world.sent.map Prod.fst = eventsOf Event.flushedMsg es ++ msgs ∧
    c.world.written = pieces.flatten ∧
    List.Forall₂ (fun msg piece => piece <+: msg.block) (eventsOf Event.flushedMsg es) pieces
  := by
  obtain ⟨msgs, lost, htransmits, -⟩ := transmits_run hbounded hrun
  obtain ⟨pieces, hwritten, hpieces⟩ := htransmits.written
  exact ⟨msgs, pieces, htransmits.contains.holds, htransmits.sent, hwritten, hpieces⟩

/-- A message is read and handled, and the replies are written. -/
def serviceTurns : List Turn :=
  helloTurns ++ List.replicate 4 (.worker (Host.plain true)) ++
    List.replicate 4 (.main (Host.plain true) ⟨.readable, .failed, 0⟩)

theorem serviceTurns_bounded :
  ∀ turn ∈ serviceTurns, turn.Bounded
  := by
  intro turn hturn
  simp only [serviceTurns, List.mem_append, List.mem_replicate] at hturn
  rcases hturn with (hturn | ⟨-, rfl⟩) | ⟨-, rfl⟩
  · exact helloTurns_bounded turn hturn
  · trivial
  · exact Nat.zero_le _

theorem written_inOrder_service :
  (∀ turn ∈ serviceTurns, turn.Bounded) ∧
  ∃ es c, Machine.run connectionStep (Connection.start (fun _ => true) (fun _ => .wrote 100))
      serviceTurns = .ok (es, c) ∧
    ∃ msgs pieces, c.world.sendQueue.Holds msgs ∧
      c.world.sent.map Prod.fst = eventsOf Event.flushedMsg es ++ msgs ∧
      c.world.written = pieces.flatten ∧
      List.Forall₂ (fun msg piece => piece <+: msg.block) (eventsOf Event.flushedMsg es) pieces
  := ⟨serviceTurns_bounded, _, _, rfl, written_inOrder (fun _ => true) (fun _ => .wrote 100)
    serviceTurns serviceTurns_bounded _ _ rfl⟩

/-- What has been written and what is still to be written are together what has been sent, exactly
if every turn that takes a message from the send queue writes it whole. -/
theorem nothing_lost_iff (mallocs : ℕ → Bool) (writes : ℕ → WriteResult) (turns : List Turn)
    (hbounded : ∀ turn ∈ turns, turn.Bounded) (es : List (Option Event)) (c : Connection)
    (hrun : Machine.run connectionStep (Connection.start mallocs writes) turns = .ok (es, c)) :
  (∃ msgs, c.world.sendQueue.Holds msgs ∧
    c.world.written ++ bytesOf msgs = bytesOf (c.world.sent.map Prod.fst)) ↔
  Machine.Throughout connectionStep Connection.WritesWhole (Connection.start mallocs writes) turns
  := by
  obtain ⟨msgs, lost, htransmits, hwhole⟩ := transmits_run hbounded hrun
  have hsent : bytesOf (c.world.sent.map Prod.fst)
      = bytesOf (eventsOf Event.flushedMsg es) ++ bytesOf msgs := by
    rw [htransmits.sent]
    exact List.flatMap_append
  have hlength := htransmits.length
  rw [← hwhole, hsent]
  constructor
  · rintro ⟨msgs', hholds, heq⟩
    obtain rfl := htransmits.contains.holds.unique hholds
    rw [List.append_cancel_right heq] at hlength
    omega
  · rintro rfl
    use msgs, htransmits.contains.holds
    obtain ⟨pieces, hwritten, hpieces⟩ := htransmits.written
    rw [hwritten] at hlength ⊢
    rw [flatten_eq_of_length hpieces hlength]
    rfl

theorem nothing_lost_service :
  (∀ turn ∈ serviceTurns, turn.Bounded) ∧
  ∃ es c, Machine.run connectionStep (Connection.start (fun _ => true) (fun _ => .wrote 100))
      serviceTurns = .ok (es, c) ∧
    ((∃ msgs, c.world.sendQueue.Holds msgs ∧
        c.world.written ++ bytesOf msgs = bytesOf (c.world.sent.map Prod.fst)) ↔
      Machine.Throughout connectionStep Connection.WritesWhole
        (Connection.start (fun _ => true) (fun _ => .wrote 100)) serviceTurns)
  := ⟨serviceTurns_bounded, _, _, rfl, nothing_lost_iff (fun _ => true) (fun _ => .wrote 100)
    serviceTurns serviceTurns_bounded _ _ rfl⟩

/-! ### Queues that have been emptied -/

section

variable {q q' : MessageQueue Buffer} {buf : Buffer} {bufs : List Buffer}

/-- A queue from which the last buffer is taken has been drained. -/
theorem MessageQueue.Contains.drained (h : q.Contains bufs)
    (hdequeue : dequeueMessage q = .ok (some buf, q')) (hempty : q'.Holds []) :
  q'.Drained
  := by
  obtain ⟨rest, -, hcontains, hdrained⟩ := h.dequeue_some hdequeue
  exact hdrained (hcontains.holds.unique hempty)

theorem MessageQueue.Drained.dequeue {b : Option Buffer} (h : q.Drained)
    (hdequeue : dequeueMessage q = .ok (b, q')) :
  b = none ∧ q' = q
  := by
  obtain ⟨hd, a, hlies, -⟩ := h
  rw [hlies.dequeue_nil] at hdequeue
  cases hdequeue
  exact ⟨rfl, rfl⟩

theorem Queued.drained (hdrained : q.Drained) (h : Queued q bufs q') :
  bufs = [] ∧ q' = q
  := by
  cases bufs with
  | nil => exact ⟨rfl, h⟩
  | cons buf bufs =>
      obtain ⟨ok, queue₁, henqueue, -⟩ := h
      obtain ⟨f, hf⟩ := hdrained.enqueue buf ok
      rw [hf] at henqueue
      cases henqueue

end

/-- What a turn does to the receive queue: nothing, or a message is put on it, or taken. -/
inductive RecvQueueMoves (q : MessageQueue Buffer) : Option Event → MessageQueue Buffer → Prop
  | stays {e : Option Event} (hqueued : e.bind Event.queuedBuf = none)
      (hdequeued : e.bind Event.dequeuedBuf = none) : RecvQueueMoves q e q
  | enqueues {buf : Buffer} {q' : MessageQueue Buffer}
      (h : enqueueMessage q (some buf) true = .ok (ccENone, q')) :
    RecvQueueMoves q (some (.queued buf)) q'
  | dequeues {buf : Option Buffer} {q' : MessageQueue Buffer}
      (h : dequeueMessage q = .ok (buf, q')) : RecvQueueMoves q (some (.dequeued buf)) q'

/-- What a turn does to the send queue: nothing, or a message is taken, or a handler puts on it what
it sends. -/
inductive SendQueueMoves (w : World) : Option Event → World → Prop
  | stays {e : Option Event} {w' : World} (he : e.bind Event.flushedMsg = none)
      (hqueue : w'.sendQueue = w.sendQueue) (hsent : w'.sent = w.sent) : SendQueueMoves w e w'
  | dequeues {e : Option Event} {w' : World} {msg : Option Buffer}
      (h : dequeueMessage w.sendQueue = .ok (msg, w'.sendQueue))
      (he : e.bind Event.flushedMsg = msg) (hsent : w'.sent = w.sent) : SendQueueMoves w e w'
  | sends {e : Option Event} {w' : World} (he : e.bind Event.flushedMsg = none)
      (h : w.Handled w') : SendQueueMoves w e w'

section

variable {c c' : Connection} {turn : Turn} {e : Option Event}

theorem Moves.recvQueue (h : Moves c turn e c') (hbounded : turn.Bounded) :
  RecvQueueMoves c.world.recvQueue e c'.world.recvQueue
  := by
  cases h with
  | main hmain =>
      obtain ⟨world, main₀, worker⟩ := c
      cases hmain with
      | goes _ _ _ => exact .stays rfl rfl
      | leaves => exact .stays rfl rfl
      | reads hfetch =>
          obtain ⟨hfetched, -⟩ := Program.ensures_iff.mp (fetch_ensures hbounded) _ _ hfetch
          rw [hfetched]
          exact .stays rfl rfl
      | queues henqueue => exact .enqueues henqueue
      | adds => exact .stays rfl rfl
      | misses _ => exact .stays rfl rfl
      | drops _ _ => exact .stays rfl rfl
      | writes _ _ hflush =>
          obtain ⟨n, hw, -⟩ := Program.ensures_iff.mp flushMessage_ensures _ _ hflush
          rw [hw]
          exact .stays rfl rfl
  | worker hworker =>
      obtain ⟨world, main, worker₀⟩ := c
      cases hworker with
      | sleeps _ _ => exact .stays rfl rfl
      | takes _ _ _ => exact .stays rfl rfl
      | misses _ => exact .stays rfl rfl
      | finds _ => exact .stays rfl rfl
      | loses hdequeue => exact .dequeues hdequeue
      | dequeues hdequeue => exact .dequeues hdequeue
      | handles hdispatch =>
          have hhandled := handled_dispatch.of_ok hdispatch
          rw [hhandled.recvQueue]
          exact .stays rfl rfl

theorem Moves.sendQueue (h : Moves c turn e c') (hbounded : turn.Bounded) :
  SendQueueMoves c.world e c'.world
  := by
  cases h with
  | main hmain =>
      obtain ⟨world, main₀, worker⟩ := c
      cases hmain with
      | goes _ _ _ => exact .stays rfl rfl rfl
      | leaves => exact .stays rfl rfl rfl
      | reads hfetch =>
          obtain ⟨hfetched, -⟩ := Program.ensures_iff.mp (fetch_ensures hbounded) _ _ hfetch
          rw [hfetched]
          exact .stays rfl rfl rfl
      | queues _ => exact .stays rfl rfl rfl
      | adds => exact .stays rfl rfl rfl
      | misses hdequeue => exact .dequeues hdequeue rfl rfl
      | drops hdequeue _ => exact .dequeues hdequeue rfl rfl
      | writes hdequeue _ hflush =>
          obtain ⟨n, hw, -⟩ := Program.ensures_iff.mp flushMessage_ensures _ _ hflush
          rw [hw]
          exact .dequeues hdequeue rfl rfl
  | worker hworker =>
      obtain ⟨world, main, worker₀⟩ := c
      cases hworker with
      | sleeps _ _ => exact .stays rfl rfl rfl
      | takes _ _ _ => exact .stays rfl rfl rfl
      | misses _ => exact .stays rfl rfl rfl
      | finds _ => exact .stays rfl rfl rfl
      | loses _ => exact .stays rfl rfl rfl
      | dequeues _ => exact .stays rfl rfl rfl
      | handles hdispatch => exact .sends rfl (handled_dispatch.of_ok hdispatch)

end

/-- Each of the queues has been drained, if it is empty and something has been taken from it. -/
structure Emptied (c : Connection) (es : List (Option Event)) : Prop where
  recvQueue : c.world.recvQueue.Holds [] → eventsOf Event.dequeuedBuf es ≠ [] →
    c.world.recvQueue.Drained
  sendQueue : c.world.sendQueue.Holds [] → eventsOf Event.flushedMsg es ≠ [] →
    c.world.sendQueue.Drained

section

variable {c c' : Connection} {turn : Turn} {e : Option Event} {es es' : List (Option Event)}
  {turns : List Turn} {bufs msgs : List Buffer} {lost : ℕ}

theorem Conserves.emptied (h : Conserves c es bufs)
    (hemptied : c.world.recvQueue.Holds [] → eventsOf Event.dequeuedBuf es ≠ [] →
      c.world.recvQueue.Drained)
    {q : MessageQueue Buffer} (hmoves : RecvQueueMoves c.world.recvQueue e q)
    (hempty : q.Holds []) (hused : eventsOf Event.dequeuedBuf (es ++ [e]) ≠ []) :
  q.Drained
  := by
  rw [eventsOf_concat] at hused
  cases hmoves with
  | stays _ hdequeued =>
      rw [hdequeued, Option.toList_none, List.append_nil] at hused
      exact hemptied hempty hused
  | enqueues henqueue =>
      have hnil := (h.contains.enqueue henqueue).2.holds.unique hempty
      simp at hnil
  | @dequeues buf _ hdequeue =>
      cases buf with
      | none =>
          rw [(h.contains.dequeue_none hdequeue).1] at hempty ⊢
          exact hemptied hempty (by simpa [Event.dequeuedBuf] using hused)
      | some buf => exact h.contains.drained hdequeue hempty

theorem Transmits.emptied (h : Transmits c es msgs lost)
    (hemptied : c.world.sendQueue.Holds [] → eventsOf Event.flushedMsg es ≠ [] →
      c.world.sendQueue.Drained)
    {w : World} (hmoves : SendQueueMoves c.world e w)
    (hempty : w.sendQueue.Holds []) (hused : eventsOf Event.flushedMsg (es ++ [e]) ≠ []) :
  w.sendQueue.Drained
  := by
  rw [eventsOf_concat] at hused
  cases hmoves with
  | stays he hqueue _ =>
      rw [he, Option.toList_none, List.append_nil] at hused
      rw [hqueue] at hempty ⊢
      exact hemptied hempty hused
  | @dequeues msg hdequeue he _ =>
      cases msg with
      | none =>
          rw [(h.contains.dequeue_none hdequeue).1] at hempty ⊢
          rw [he, Option.toList_none, List.append_nil] at hused
          exact hemptied hempty hused
      | some msg => exact h.contains.drained hdequeue hempty
  | sends he hhandled =>
      obtain ⟨new, hqueued, -, -⟩ := hhandled.sends
      have hnil := (h.contains.queued hqueued).holds.unique hempty
      obtain ⟨rfl, hnew⟩ := List.append_eq_nil_iff.mp hnil
      rw [hnew] at hqueued
      have hqueue : w.sendQueue = c.world.sendQueue := hqueued
      rw [he, Option.toList_none, List.append_nil] at hused
      rw [hqueue] at hempty ⊢
      exact hemptied hempty hused

theorem emptied_run {mallocs : ℕ → Bool} {writes : ℕ → WriteResult}
    (hbounded : ∀ turn ∈ turns, turn.Bounded)
    (hrun : Machine.run connectionStep (Connection.start mallocs writes) turns = .ok (es, c)) :
  Emptied c es
  := by
  induction turns using List.reverseRecOn generalizing es c with
  | nil =>
      obtain ⟨rfl, rfl⟩ : [] = es ∧ Connection.start mallocs writes = c := by
        simpa [Machine.run] using hrun
      exact ⟨fun _ hused => absurd rfl hused, fun _ hused => absurd rfl hused⟩
  | append_singleton turns turn ih =>
      obtain ⟨es', c₁, e, hrun', hstep, rfl⟩ := Machine.run_concat_ok hrun
      have hbefore : ∀ turn ∈ turns, turn.Bounded := fun t ht => hbounded t (by simp [ht])
      have hturn := hbounded turn (by simp)
      have hmoves := connectionStep_moves hstep
      obtain ⟨bufs, hconserves⟩ := conserves_run hbefore hrun'
      obtain ⟨msgs, lost, htransmits, -⟩ := transmits_run hbefore hrun'
      have hemptied := ih hbefore hrun'
      constructor
      · exact hconserves.emptied hemptied.recvQueue (hmoves.recvQueue hturn)
      · exact htransmits.emptied hemptied.sendQueue (hmoves.sendQueue hturn)

/-- Nothing is queued any more once the receive queue has been drained. -/
theorem run_recvQueue_drained (hdrained : c.world.recvQueue.Drained)
    (hbounded : ∀ turn ∈ turns, turn.Bounded)
    (hrun : Machine.run connectionStep c turns = .ok (es, c')) :
  eventsOf Event.queuedBuf es = []
  := by
  induction turns generalizing c es with
  | nil =>
      obtain ⟨rfl, rfl⟩ : [] = es ∧ c = c' := by simpa [Machine.run] using hrun
      rfl
  | cons turn turns ih =>
      obtain ⟨e, c₁, es₁, hstep, hrun', rfl⟩ := Machine.run_cons_ok hrun
      have hmoves := (connectionStep_moves hstep).recvQueue (hbounded turn (by simp))
      have hstays : c₁.world.recvQueue = c.world.recvQueue ∧ e.bind Event.queuedBuf = none := by
        generalize c₁.world.recvQueue = q at hmoves
        cases hmoves with
        | stays hqueued _ => exact ⟨rfl, hqueued⟩
        | enqueues henqueue =>
            obtain ⟨f, hf⟩ := hdrained.enqueue _ true
            rw [hf] at henqueue
            cases henqueue
        | dequeues hdequeue => exact ⟨(hdrained.dequeue hdequeue).2, rfl⟩
      have hcons : e :: es₁ = [] ++ [e] ++ es₁ := rfl
      rw [hcons, eventsOf_append, eventsOf_concat, hstays.2,
        ih (hstays.1 ▸ hdrained) (fun t ht => hbounded t (by simp [ht])) hrun']
      rfl

/-- Nothing is sent any more once the send queue has been drained. -/
theorem run_sendQueue_drained (hdrained : c.world.sendQueue.Drained)
    (hbounded : ∀ turn ∈ turns, turn.Bounded)
    (hrun : Machine.run connectionStep c turns = .ok (es, c')) :
  c'.world.sent = c.world.sent
  := by
  induction turns generalizing c es with
  | nil =>
      obtain ⟨-, rfl⟩ : [] = es ∧ c = c' := by simpa [Machine.run] using hrun
      rfl
  | cons turn turns ih =>
      obtain ⟨e, c₁, es₁, hstep, hrun', rfl⟩ := Machine.run_cons_ok hrun
      have hmoves := (connectionStep_moves hstep).sendQueue (hbounded turn (by simp))
      have hstays : c₁.world.sendQueue = c.world.sendQueue ∧ c₁.world.sent = c.world.sent := by
        cases hmoves with
        | stays _ hqueue hsent => exact ⟨hqueue, hsent⟩
        | dequeues hdequeue _ hsent => exact ⟨(hdrained.dequeue hdequeue).2, hsent⟩
        | sends _ hhandled =>
            obtain ⟨new, hqueued, hsent, -⟩ := hhandled.sends
            obtain ⟨hnew, hqueue⟩ := hqueued.drained hdrained
            rw [List.map_eq_nil_iff.mp hnew, List.append_nil] at hsent
            exact ⟨hqueue, hsent⟩
      rw [ih (hstays.1 ▸ hdrained) (fun t ht => hbounded t (by simp [ht])) hrun', hstays.2]

end

/-- Once the thread of the pool has emptied the receive queue, a connection that goes on queues no
more messages; and once the main thread has emptied the send queue, it sends no more. -/
theorem one_burst (mallocs : ℕ → Bool) (writes : ℕ → WriteResult) (turns : List Turn)
    (hbounded : ∀ turn ∈ turns, turn.Bounded) (es : List (Option Event)) (c : Connection)
    (hrun : Machine.run connectionStep (Connection.start mallocs writes) turns = .ok (es, c))
    (turns' : List Turn) (hbounded' : ∀ turn ∈ turns', turn.Bounded)
    (es' : List (Option Event)) (c' : Connection)
    (hrun' : Machine.run connectionStep c turns' = .ok (es', c')) :
  (c.world.recvQueue.Holds [] → eventsOf Event.dequeuedBuf es ≠ [] →
    eventsOf Event.queuedBuf es' = []) ∧
  (c.world.sendQueue.Holds [] → eventsOf Event.flushedMsg es ≠ [] →
    c'.world.sent = c.world.sent)
  := by
  have hemptied := emptied_run hbounded hrun
  constructor
  · intro hempty hused
    exact run_recvQueue_drained (hemptied.recvQueue hempty hused) hbounded' hrun'
  · intro hempty hused
    exact run_sendQueue_drained (hemptied.sendQueue hempty hused) hbounded' hrun'

theorem one_burst_service :
  (∀ turn ∈ serviceTurns, turn.Bounded) ∧
  ∃ es c es' c', Machine.run connectionStep
      (Connection.start (fun _ => true) (fun _ => .wrote 100)) serviceTurns = .ok (es, c) ∧
    Machine.run connectionStep c (helloTurns.take 3) = .ok (es', c') ∧
    (c.world.recvQueue.Holds [] → eventsOf Event.dequeuedBuf es ≠ [] →
      eventsOf Event.queuedBuf es' = []) ∧
    (c.world.sendQueue.Holds [] → eventsOf Event.flushedMsg es ≠ [] →
      c'.world.sent = c.world.sent)
  := by
  exact ⟨serviceTurns_bounded, _, _, _, _, rfl, rfl, one_burst (fun _ => true)
    (fun _ => .wrote 100) serviceTurns serviceTurns_bounded _ _ rfl (helloTurns.take 3)
    (fun turn hturn => helloTurns_bounded turn (List.mem_of_mem_take hturn)) _ _ rfl⟩

end CcController
