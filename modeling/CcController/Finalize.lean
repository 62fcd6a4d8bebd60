import CcController.Lib.Release
import CcController.Ownership
import CcController.Shutdown

/-!
# The end of a connection

When the main thread has left its loop, `cc_finalize_sw_info` deletes the two queues and destroys
the pool. Whatever the connection has done before, every element of the queues has been released
then, and so has every message that was left on them; the queues themselves stay allocated with
their locks taken. No buffer has been released twice by then exactly if no handler has handed its
message on to the application (`finalize_releases_iff`).
-/

namespace CcController

/-! ### Queues that have lost no element -/

namespace MessageQueue

variable {β : Type} {q q' : MessageQueue β} {bufs : List β} {b : β}

/-- The elements that are allocated are those of the queue. -/
def Whole (q : MessageQueue β) : Prop :=
  ∀ hd es, q.Lies hd es → q.elements.CoveredBy {a | a ∈ (hd :: es).map Prod.fst}

theorem Lies.isSome {hd : ℕ × Option β} {es : List (ℕ × Option β)} (h : q.Lies hd es) {a : ℕ}
    (ha : a ∈ (hd :: es).map Prod.fst) :
  (q.elements.cells a).isSome
  := by
  obtain ⟨e, he, rfl⟩ := List.mem_map.mp ha
  obtain ⟨xs, ys, hes⟩ := List.append_of_mem he
  rw [h.cell xs hes]
  rfl

/-- A queue that has as many elements as may be allocated has lost none. -/
theorem Lies.coveredBy {hd : ℕ × Option β} {es : List (ℕ × Option β)} (h : q.Lies hd es)
    {as : List ℕ} (hcovered : q.elements.CoveredBy {a | a ∈ as})
    (hlength : as.length ≤ (hd :: es).length) :
  q.elements.CoveredBy {a | a ∈ (hd :: es).map Prod.fst}
  := by
  have hsubset : (hd :: es).map Prod.fst ⊆ as := fun a ha => hcovered a (h.isSome ha)
  have hperm := (h.nodup.subperm hsubset).perm_of_length_le (by simpa using hlength)
  intro a ha
  exact hperm.mem_iff.mpr (hcovered a ha)

theorem whole_create :
  (createMessageQueue : MessageQueue β).Whole
  := by
  intro hd es hlies
  have hcovered : (createMessageQueue : MessageQueue β).elements.CoveredBy {a | a ∈ [0]} := by
    have halloc : (Heap.empty.alloc (⟨none, none⟩ : MessageQueueElement β)).CoveredBy _ :=
      Heap.coveredBy_empty.alloc _
    apply halloc.mono
    intro a ha
    obtain rfl | ha := ha
    · exact List.mem_singleton_self 0
    · cases ha
  apply hlies.coveredBy hcovered
  simp

/-- A queue with a buffer more has one element more. -/
theorem Whole.enqueue [HasData β] {ok : Bool} {ret : ℤ} (h : q.Whole) (hcontains : q.Contains bufs)
    (hok : enqueueMessage q (some b) ok = .ok (ret, q')) :
  q'.Whole
  := by
  obtain ⟨⟨hd, es, hlies, hbufs, -⟩, hd₁, es₁, hlies₁, hbufs₁, -⟩ := hcontains.enqueue hok
  intro hd' es' hlies'
  have hlength : es'.length = es.length + 1 := by
    obtain ⟨-, rfl⟩ := List.cons.inj (hlies'.unique hlies₁)
    have hold := congrArg List.length hbufs
    have hnew := congrArg List.length hbufs₁
    simp only [List.length_map, List.length_append, List.length_singleton] at hold hnew
    omega
  have hcovered : q'.elements.CoveredBy
      {a | a ∈ q.elements.limit :: (hd :: es).map Prod.fst} := by
    obtain rfl := enqueueMessage_malloc hok
    simp only [enqueueMessage, if_true] at hok
    obtain ⟨type, -, hok⟩ := bind_eq_ok.mp hok
    obtain ⟨tail, -, hok⟩ := bind_eq_ok.mp hok
    obtain ⟨elements, hwrite, hok⟩ := bind_eq_ok.mp hok
    cases hok
    apply (((h hd es hlies).alloc _).write hwrite).mono
    intro a ha
    obtain rfl | ha := ha
    · exact List.mem_cons_self
    · exact List.mem_cons_of_mem _ ha
  apply hlies'.coveredBy hcovered
  simp [hlength]

/-- The element whose buffer is taken is released. -/
theorem Whole.dequeue {buf : Option β} (h : q.Whole) (hcontains : q.Contains bufs)
    (hok : dequeueMessage q = .ok (buf, q')) :
  q'.Whole
  := by
  cases buf with
  | none =>
      obtain ⟨rfl, -⟩ := hcontains.dequeue_none hok
      exact h
  | some b =>
      obtain ⟨rest, rfl, hcontains', -⟩ := hcontains.dequeue_some hok
      obtain ⟨hd, es, hlies, hbufs, -⟩ := hcontains.holds
      obtain ⟨hd₁, es₁, hlies₁, hbufs₁, -⟩ := hcontains'.holds
      intro hd' es' hlies'
      cases es with
      | nil => cases hbufs
      | cons e es =>
          have hhead : q.elements.read q.head = .ok ⟨hd.2, some e.1⟩ := by
            rw [hlies.head, Heap.read_some (hlies.cell [] rfl)]
            rfl
          have hcovered : q'.elements.CoveredBy
              {a | a ∈ ((hd :: e :: es).map Prod.fst).erase e.1} := by
            unfold dequeueMessage at hok
            rw [hhead] at hok
            simp only [ok_bind, reduceCtorEq, if_false] at hok
            split at hok
            · cases hok
            obtain ⟨tmpElement, -, hok⟩ := bind_eq_ok.mp hok
            obtain ⟨elements₁, hwrite₁, hok⟩ := bind_eq_ok.mp hok
            obtain ⟨elements₂, hwrite₂, hok⟩ := bind_eq_ok.mp hok
            obtain ⟨elements₃, hfree, hok⟩ := bind_eq_ok.mp hok
            obtain ⟨-, rfl⟩ := Prod.mk.inj (Except.ok.inj hok)
            apply ((((h _ _ hlies).write hwrite₁).write hwrite₂).free hfree).mono
            rintro a ⟨ha, hne⟩
            exact (List.mem_erase_of_ne hne).mpr ha
          have hmem : e.1 ∈ (hd :: e :: es).map Prod.fst := by simp
          have hold := congrArg List.length hbufs
          obtain ⟨-, rfl⟩ := List.cons.inj (hlies'.unique hlies₁)
          have hnew := congrArg List.length hbufs₁
          apply hlies'.coveredBy hcovered
          rw [List.length_erase_of_mem hmem]
          simp only [List.length_map, List.length_cons] at hold hnew ⊢
          omega

/-- What is not allocated stays so while the queue is deleted, and of a queue that has lost no
element nothing is left. -/
theorem Whole.deleteMessageQueue (h : q.Whole) (hholds : q.Holds bufs) :
  ∃ elements, deleteMessageQueue q = .ok (ccEErr, ⟨elements, q.head, true, true, bufs⟩) ∧
    ∀ a, elements.cells a = none
  := by
  obtain ⟨hd, es, hlies, hbufs, -⟩ := hholds
  have hle := hlies.seg.length_le hlies.nodup
  have hlies₀ : MessageQueue.Lies ⟨q.elements, q.head, q.tail, q.length⟩ hd es := hlies
  let d : QueueDeletion β := ⟨q.elements, q.head, true, true, []⟩
  obtain ⟨elements, hok, hhd, hes, hkept⟩ := Lies.deleteElements (d := d) hlies₀ hbufs
    (q.elements.limit + 1) (by simp only [List.length_cons] at hle; omega)
  have hhead : q.head = some hd.1 := hlies.head
  use elements.erase hd.1
  constructor
  · rw [CcController.deleteMessageQueue, hok]
    simp only [d, hhead, ok_bind, Heap.free_some hhd, ne_eq, reduceCtorEq, not_false_eq_true,
      if_true, List.nil_append]
  · intro a
    by_cases heq : a = hd.1
    · rw [heq]
      apply Heap.erase_cells_self
    · rw [Heap.erase_cells_of_ne heq]
      cases ha : q.elements.cells a with
      | none => exact hkept a ha
      | some v =>
          obtain ⟨e, he, rfl⟩ := List.mem_map.mp (h hd es hlies a (by rw [ha]; rfl))
          obtain rfl | he := List.mem_cons.mp he
          · exact absurd rfl heq
          · exact hes e he

end MessageQueue

/-! ### The queues of a connection -/

section

variable {q q' : MessageQueue Buffer} {bufs new : List Buffer} {w w' : World} {e : Option Event}

theorem Queued.whole (hqueued : Queued q new q') (hcontains : q.Contains bufs) (h : q.Whole) :
  q'.Whole
  := by
  induction new generalizing q bufs with
  | nil =>
      obtain rfl : q' = q := hqueued
      exact h
  | cons b new ih =>
      obtain ⟨ok, queue₁, henqueue, hrest⟩ := hqueued
      exact ih hrest (.inl (hcontains.enqueue henqueue).2) (h.enqueue hcontains henqueue)

theorem RecvQueueMoves.whole (hmoves : RecvQueueMoves q e q') (hcontains : q.Contains bufs)
    (h : q.Whole) :
  q'.Whole
  := by
  cases hmoves with
  | stays _ _ => exact h
  | enqueues henqueue => exact h.enqueue hcontains henqueue
  | dequeues hdequeue => exact h.dequeue hcontains hdequeue

theorem SendQueueMoves.whole (hmoves : SendQueueMoves w e w')
    (hcontains : w.sendQueue.Contains bufs) (h : w.sendQueue.Whole) :
  w'.sendQueue.Whole
  := by
  cases hmoves with
  | stays _ hqueue _ => rwa [hqueue]
  | dequeues hdequeue _ _ => exact h.dequeue hcontains hdequeue
  | sends _ hhandled =>
      obtain ⟨new, hqueued, -⟩ := hhandled.sends
      exact hqueued.whole hcontains h

end

/-- In every state that a connection reaches its queues have lost no element. -/
theorem whole_run {mallocs : ℕ → Bool} {writes : ℕ → WriteResult} {turns : List Turn}
    {es : List (Option Event)} {c : Connection} (hbounded : ∀ turn ∈ turns, turn.Bounded)
    (hrun : Machine.run connectionStep (Connection.start mallocs writes) turns = .ok (es, c)) :
  c.world.recvQueue.Whole ∧ c.world.sendQueue.Whole
  := by
  induction turns using List.reverseRecOn generalizing es c with
  | nil =>
      obtain ⟨rfl, rfl⟩ : [] = es ∧ Connection.start mallocs writes = c := by
        simpa [Machine.run] using hrun
      exact ⟨MessageQueue.whole_create, MessageQueue.whole_create⟩
  | append_singleton turns turn ih =>
      obtain ⟨es', c₁, e, hrun', hstep, rfl⟩ := Machine.run_concat_ok hrun
      have hbefore : ∀ turn ∈ turns, turn.Bounded := fun t ht => hbounded t (by simp [ht])
      have hmoves := connectionStep_moves hstep
      have hturn := hbounded turn (by simp)
      obtain ⟨bufs, hconserves⟩ := conserves_run hbefore hrun'
      obtain ⟨msgs, lost, htransmits, -⟩ := transmits_run hbefore hrun'
      obtain ⟨hrecv, hsend⟩ := ih hbefore hrun'
      exact ⟨(hmoves.recvQueue hturn).whole hconserves.contains hrecv,
        (hmoves.sendQueue hturn).whole htransmits.contains hsend⟩

/-! ### `cc_finalize_sw_info` -/

/-- The jobs that are dropped with the pool. -/
def CThreadPool.poolDestroy {J : Type} (pool : CThreadPool J) : List J :=
  pool.queue

/-- Destroying a pool in memory comes to dropping the jobs of the list. -/
theorem LinkedPool.Represents.poolDestroy {J : Type} {pool : LinkedPool J} {p : CThreadPool J}
    (h : pool.Represents p) :
  ∃ pool', pool.poolDestroy = .ok (p.poolDestroy, pool')
  := by
  obtain ⟨⟨es, hlies, hqueue⟩, -⟩ := h
  have hlen := hlies.seg.length_le hlies.nodup
  obtain ⟨dropped, workers, hfree, hjobs, -⟩ :=
    hlies.seg.freeAll CThreadWorker.next (fun _ _ _ => rfl) CThreadWorker.job Prod.snd
      (fun _ _ _ => rfl) hlies.nodup (pool.workers.limit + 1) (by omega)
  use { pool with workers := workers, queueHead := none, shutdown := true }
  simp only [LinkedPool.poolDestroy, hlies.head, hfree, ok_bind, hjobs, CThreadPool.poolDestroy,
    hqueue]

/-- What is left of the queues of a connection, and the jobs that have been dropped. -/
structure Finalized where
  recvQueue : QueueDeletion Buffer
  sendQueue : QueueDeletion Buffer
  dropped : List Job

/-- What deleting the queues returns is not looked at. -/
def ccFinalizeSwInfo (ccSwInfo : SwInfo) : Except Fault (ℤ × Finalized) := do
  let (_, recvQueue) ← deleteMessageQueue ccSwInfo.recvQueue
  let (_, sendQueue) ← deleteMessageQueue ccSwInfo.sendQueue
  .ok (ccENone, ⟨recvQueue, sendQueue, ccSwInfo.ccRecvThreadPool.poolDestroy⟩)

/-- A queue is deleted but for itself, and its lock is taken. -/
def QueueDeletion.LeftLocked {β : Type} (d : QueueDeletion β) : Prop :=
  (∀ a, d.elements.cells a = none) ∧ d.allocated = true ∧ d.locked = true

/-- Whatever the threads of a connection have done: `cc_finalize_sw_info` returns, every element
that was ever allocated for a queue has been released then, and the messages left on the queues
have been; the queues themselves are not released and their locks stay taken. And no buffer has
been released twice by then exactly if no handler has handed its message on. -/
theorem finalize_releases_iff (mallocs : ℕ → Bool) (writes : ℕ → WriteResult) (turns : List Turn)
    (hbounded : ∀ turn ∈ turns, turn.Bounded) (es : List (Option Event)) (c : Connection)
    (hrun : Machine.run connectionStep (Connection.start mallocs writes) turns = .ok (es, c)) :
  ∃ recv send d, c.world.recvQueue.Holds recv ∧ c.world.sendQueue.Holds send ∧
    ccFinalizeSwInfo c.world.toSwInfo = .ok (ccENone, d) ∧
    d.recvQueue.LeftLocked ∧ d.recvQueue.released = recv ∧
    d.sendQueue.LeftLocked ∧ d.sendQueue.released = send ∧
    ((c.world.released ++ (d.recvQueue.released ++ d.sendQueue.released).map Buffer.addr).Nodup ↔
      Machine.Throughout connectionStep Connection.KeepsToItself (Connection.start mallocs writes)
        turns)
  := by
  obtain ⟨hrecvWhole, hsendWhole⟩ := whole_run hbounded hrun
  obtain ⟨recv, hconserves⟩ := conserves_run hbounded hrun
  obtain ⟨send, lost, htransmits, -⟩ := transmits_run hbounded hrun
  have hrecv := hconserves.contains.holds
  have hsend := htransmits.contains.holds
  obtain ⟨recvElements, hdeleteRecv, hrecvElements⟩ := hrecvWhole.deleteMessageQueue hrecv
  obtain ⟨sendElements, hdeleteSend, hsendElements⟩ := hsendWhole.deleteMessageQueue hsend
  refine ⟨recv, send, ⟨⟨recvElements, c.world.recvQueue.head, true, true, recv⟩,
    ⟨sendElements, c.world.sendQueue.head, true, true, send⟩,
    c.world.ccRecvThreadPool.poolDestroy⟩, hrecv, hsend, ?_, ⟨hrecvElements, rfl, rfl⟩, rfl,
    ⟨hsendElements, rfl, rfl⟩, rfl, ?_⟩
  · simp only [ccFinalizeSwInfo, hdeleteRecv, hdeleteSend, ok_bind]
  · constructor
    · intro hnodup
      exact keeps_of_nodup hrun (List.nodup_append.mp hnodup).1
    · intro hkeeps
      obtain ⟨recv', send', howned⟩ := owned_run hbounded hkeeps hrun
      obtain rfl := howned.recvQueue.holds.unique hrecv
      obtain rfl := howned.sendQueue.holds.unique hsend
      have hheld : List.Sublist (recv' ++ send')
          (c.main.inHand ++ recv' ++ c.worker.inHand ++ send') :=
        ((List.sublist_append_right _ _).trans (List.sublist_append_left _ _)).append
          (List.Sublist.refl _)
      exact List.Nodup.sublist ((hheld.map Buffer.addr).append_left _) howned.nodup

/-- Two messages are read and the first one is handled. -/
def backlogTurns : List Turn :=
  readTurns (helloMessage 7) ++ readTurns [1, 2, 0, 8, 0, 0, 0, 8] ++
    List.replicate 4 (.worker (Host.plain true))

theorem backlogTurns_bounded :
  ∀ turn ∈ backlogTurns, turn.Bounded
  := by
  intro turn hturn
  simp only [backlogTurns, List.mem_append, List.mem_replicate] at hturn
  rcases hturn with (hturn | hturn) | ⟨-, rfl⟩
  · exact readTurns_bounded (by decide) turn hturn
  · exact readTurns_bounded (by decide) turn hturn
  · trivial

/-- The second message is left, and what the first one is answered with. -/
theorem finalize_releases_backlog :
  (∀ turn ∈ backlogTurns, turn.Bounded) ∧
  ∃ es c, Machine.run connectionStep (Connection.start (fun _ => true) (fun _ => .wrote 100))
      backlogTurns = .ok (es, c) ∧
    c.world.recvQueue.length = 1 ∧ c.world.sendQueue.length = 2 ∧
    ∃ recv send d, c.world.recvQueue.Holds recv ∧ c.world.sendQueue.Holds send ∧
      ccFinalizeSwInfo c.world.toSwInfo = .ok (ccENone, d) ∧
      d.recvQueue.LeftLocked ∧ d.recvQueue.released = recv ∧
      d.sendQueue.LeftLocked ∧ d.sendQueue.released = send ∧
      ((c.world.released ++
          (d.recvQueue.released ++ d.sendQueue.released).map Buffer.addr).Nodup ↔
        Machine.Throughout connectionStep Connection.KeepsToItself
          (Connection.start (fun _ => true) (fun _ => .wrote 100)) backlogTurns)
  := ⟨backlogTurns_bounded, _, _, rfl, rfl, rfl, finalize_releases_iff (fun _ => true)
    (fun _ => .wrote 100) backlogTurns backlogTurns_bounded _ _ rfl⟩

end CcController
