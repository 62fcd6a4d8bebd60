import CcController.Dispatch
import CcController.Sending

/-!
# Who releases a buffer

Every buffer of a connection has an address of its own. The main thread allocates one for a chunk,
a handler one for each message that it makes, and a buffer passes from hand to queue to hand until
it is released, or forgotten. In a connection whatever has been released is released once and in
nobody's hands any more, exactly if no message has been handed on to the application
(`released_once_iff`).
-/

namespace CcController

/-! ### New buffers -/

/-- The buffers that a handler sends are new ones. -/
structure World.Extends (w w' : World) : Prop where
  le : w.nextBuffer ≤ w'.nextBuffer
  sends : ∃ new : List Buffer, Queued w.sendQueue new w'.sendQueue ∧
    (new.map Buffer.addr).Nodup ∧ ∀ msg ∈ new, w.nextBuffer ≤ msg.addr ∧ msg.addr < w'.nextBuffer

instance : IsPreorder World World.Extends where
  refl w := ⟨le_rfl, [], rfl, List.nodup_nil, by simp⟩
  trans w w' w'' h h' := by
    obtain ⟨new, hqueued, hnodup, hnew⟩ := h.sends
    obtain ⟨new', hqueued', hnodup', hnew'⟩ := h'.sends
    have hle := h.le
    have hle' := h'.le
    refine ⟨hle.trans hle', new ++ new', hqueued.append hqueued', ?_, ?_⟩
    · rw [List.map_append, List.nodup_append]
      refine ⟨hnodup, hnodup', ?_⟩
      intro a ha b hb
      obtain ⟨msg, hmsg, rfl⟩ := List.mem_map.mp ha
      obtain ⟨msg', hmsg', rfl⟩ := List.mem_map.mp hb
      have hlt := (hnew msg hmsg).2
      have hge := (hnew' msg' hmsg').1
      omega
    · intro msg hmsg
      rcases List.mem_append.mp hmsg with hmsg | hmsg
      · exact ⟨(hnew msg hmsg).1, (hnew msg hmsg).2.trans_le hle'⟩
      · exact ⟨hle.trans (hnew' msg hmsg).1, (hnew' msg hmsg).2⟩

theorem handlerRule_extends :
  HandlerRule World.Extends
  := by
  constructor
  · infer_instance
  · intro w _ nextBuffer _ _ _ hle
    exact ⟨hle, [], rfl, List.nodup_nil, by simp⟩
  · intro w _ _
    exact ⟨le_rfl, [], rfl, List.nodup_nil, by simp⟩
  · intro w _ buf ok queue _ haddr henqueue
    refine ⟨Nat.le_succ _, [buf], ⟨ok, queue, henqueue, rfl⟩, by simp, ?_⟩
    intro msg hmsg
    obtain rfl := List.mem_singleton.mp hmsg
    exact ⟨haddr.ge, haddr ▸ Nat.lt_succ_self _⟩

/-! ### What a turn does with the buffers -/

section

variable {host : Host} {w : World}

/-- The buffer for a chunk is in the hands of the main thread, or released. -/
theorem fetch_buffers {read : ReadResult} :
  Program.Ensures (fetch host read) w (fun main w' =>
    w.nextBuffer ≤ w'.nextBuffer ∧ ∃ fresh : List ℕ,
      (∃ released, w'.released = w.released ++ released ∧
        fresh = released ++ main.inHand.map Buffer.addr) ∧
      (fresh = [] ∨ fresh = [w.nextBuffer] ∧ w.nextBuffer < w'.nextBuffer))
  := by
  have hnothing : ∀ main : MainState, main.inHand = [] →
      w.nextBuffer ≤ w.nextBuffer ∧ ∃ fresh : List ℕ,
        (∃ released, w.released = w.released ++ released ∧
          fresh = released ++ main.inHand.map Buffer.addr) ∧
        (fresh = [] ∨ fresh = [w.nextBuffer] ∧ w.nextBuffer < w.nextBuffer) := by
    intro main hmain
    exact ⟨le_rfl, [], ⟨[], by simp, by simp [hmain]⟩, .inl rfl⟩
  simp only [fetch, Program.ends_bind, ends_malloc, Program.ends_ite, Program.ends_pure,
    ends_freeBuffer]
  refine ⟨fun _ => hnothing _ rfl, fun _ => ⟨fun _ => ?_, fun _ => hnothing _ rfl⟩⟩
  apply ends_allocBufferWithLength.mpr
  refine ⟨fun _ => trivial, fun _ => ?_⟩
  apply ensures_fill
  intro block _ _
  apply ensures_look
  intro version _
  have hreleased : w.nextBuffer ≤ w.nextBuffer + 1 ∧ ∃ fresh : List ℕ,
      (∃ released, w.released ++ [w.nextBuffer] = w.released ++ released ∧
        fresh = released ++ MainState.received.inHand.map Buffer.addr) ∧
      (fresh = [] ∨ fresh = [w.nextBuffer] ∧ w.nextBuffer < w.nextBuffer + 1) :=
    ⟨Nat.le_succ _, [w.nextBuffer], ⟨[w.nextBuffer], rfl, rfl⟩, .inr ⟨rfl, Nat.lt_succ_self _⟩⟩
  refine ⟨fun _ => hreleased, fun _ => ?_⟩
  apply ensures_look
  intro headerLength _
  refine ⟨fun _ => hreleased, fun _ => ?_⟩
  exact ⟨Nat.le_succ _, [w.nextBuffer], ⟨[], (List.append_nil _).symm, rfl⟩,
    .inr ⟨rfl, Nat.lt_succ_self _⟩⟩

/-- A message is released when the loop goes on behind it, unless the write has taken a part of
it. -/
theorem flushMessage_buffers {msg : Buffer} :
  Program.Ensures (flushMessage host msg) w (fun _ w' =>
    w'.nextBuffer = w.nextBuffer ∧ w'.sendQueue = w.sendQueue ∧ w'.recvQueue = w.recvQueue ∧
    (w'.released = w.released ∨ w'.released = w.released ++ [msg.addr]))
  := by
  simp only [flushMessage, Program.ends_bind]
  apply ensures_look
  intro len hlen
  apply ensures_look
  intro bytes hbytes
  simp only [writeSocket, Program.ends_bind, Program.ends_state, Program.ends_update]
  cases w.writes 0 with
  | wrote n =>
      simp only [Program.ends_bind, Program.ends_update, Program.ends_pure, Program.ends_ite,
        ends_freeBuffer]
      exact ⟨fun _ => ⟨trivial, trivial, trivial, .inl trivial⟩,
        fun _ => ⟨rfl, rfl, rfl, .inr rfl⟩⟩
  | interrupted =>
      simp only [Program.ends_bind, Program.ends_pure, ends_freeBuffer]
      exact ⟨rfl, rfl, rfl, .inr rfl⟩
  | failed =>
      simp only [Program.ends_bind, Program.ends_pure, ends_freeBuffer]
      exact ⟨rfl, rfl, rfl, .inr rfl⟩

end

/-- The addresses of the buffers that are in somebody's hands or on a queue. -/
def Connection.held (c : Connection) (recv send : List Buffer) : List ℕ :=
  (c.main.inHand ++ recv ++ c.worker.inHand ++ send).map Buffer.addr

/-- The queues contain `recv` and `send`, and no buffer is in two places or released twice. -/
structure Owned (c : Connection) (recv send : List Buffer) : Prop where
  recvQueue : c.world.recvQueue.Contains recv
  sendQueue : c.world.sendQueue.Contains send
  lt : ∀ a ∈ c.world.released ++ c.held recv send, a < c.world.nextBuffer
  nodup : (c.world.released ++ c.held recv send).Nodup

/-- The turn is not one in which a handler hands its message on to the application. -/
def Connection.KeepsToItself (c : Connection) : Turn → Prop
  | .main _ _ => True
  | .worker host => ∀ buf, c.worker = .atHandler buf → ¬ HandedOn buf.length (buf.memory host)

section

variable {c c' : Connection} {recv send recv' send' : List Buffer}

theorem owned_start (mallocs : ℕ → Bool) (writes : ℕ → WriteResult) :
  Owned (Connection.start mallocs writes) [] []
  := ⟨MessageQueue.contains_create, MessageQueue.contains_create, by simp [Connection.start,
    World.fresh, Connection.held, MainState.inHand, WorkerState.inHand], List.nodup_nil⟩

/-- After a turn no buffer is in more places than before, but for the new ones. -/
theorem Owned.turn (h : Owned c recv send) (fresh : List ℕ)
    (hrecv : c'.world.recvQueue.Contains recv') (hsend : c'.world.sendQueue.Contains send')
    (hle : c.world.nextBuffer ≤ c'.world.nextBuffer)
    (hfresh : fresh.Nodup) (hnew : ∀ a ∈ fresh, c.world.nextBuffer ≤ a ∧ a < c'.world.nextBuffer)
    (hcount : ∀ a, (c'.world.released ++ c'.held recv' send').count a
      ≤ (c.world.released ++ c.held recv send).count a + fresh.count a) :
  Owned c' recv' send'
  := by
  refine ⟨hrecv, hsend, ?_, ?_⟩
  · intro a ha
    have hpos := List.count_pos_iff.mpr ha
    have hle' := hcount a
    by_cases hold : a ∈ c.world.released ++ c.held recv send
    · exact (h.lt a hold).trans_le hle
    · rw [List.count_eq_zero_of_not_mem hold] at hle'
      exact (hnew a (List.count_pos_iff.mp (by omega))).2
  · apply List.nodup_iff_count_le_one.mpr
    intro a
    have hle' := hcount a
    have hold := List.nodup_iff_count_le_one.mp h.nodup a
    have hone := List.nodup_iff_count_le_one.mp hfresh a
    by_cases hmem : a ∈ fresh
    · have hnot : a ∉ c.world.released ++ c.held recv send := fun ha =>
        absurd (h.lt a ha) (Nat.not_lt.mpr (hnew a hmem).1)
      rw [List.count_eq_zero_of_not_mem hnot] at hle'
      omega
    · rw [List.count_eq_zero_of_not_mem hmem] at hle'
      omega

/-- A turn that allocates no buffer. -/
theorem Owned.keeps (h : Owned c recv send) (hrecv : c'.world.recvQueue.Contains recv')
    (hsend : c'.world.sendQueue.Contains send')
    (hnext : c'.world.nextBuffer = c.world.nextBuffer)
    (hcount : ∀ a, (c'.world.released ++ c'.held recv' send').count a
      ≤ (c.world.released ++ c.held recv send).count a) :
  Owned c' recv' send'
  := by
  apply h.turn [] hrecv hsend hnext.ge List.nodup_nil
  · intro a ha
    cases ha
  · intro a
    rw [List.count_nil]
    exact hcount a

theorem Owned.main (h : Owned c recv send) {host : Host} {answer : Answer}
    (hmax : answer.read.data.length ≤ ccRecvBufferSize) {e : Option Event} {main : MainState}
    {w : World} (hmove : MainMoves host answer c.world c.main e main w) :
  ∃ recv' send', Owned ⟨w, main, c.worker⟩ recv' send'
  := by
  obtain ⟨world, main₀, worker⟩ := c
  cases hmove with
  | goes hmain hmain' _ =>
      use recv, send
      refine h.keeps h.recvQueue h.sendQueue rfl ?_
      intro a
      simp only [Connection.held, hmain.inHand, hmain'.inHand, le_refl]
  | leaves => exact ⟨recv, send, h.keeps h.recvQueue h.sendQueue rfl (fun _ => le_rfl)⟩
  | reads hfetch =>
      obtain ⟨hfetched, -⟩ := Program.ensures_iff.mp (fetch_ensures hmax) _ _ hfetch
      obtain ⟨hle, fresh, ⟨released, hreleased, rfl⟩, hfresh⟩ :=
        Program.ensures_iff.mp fetch_buffers _ _ hfetch
      use recv, send
      refine h.turn (released ++ main.inHand.map Buffer.addr) ?_ ?_ hle ?_ ?_ ?_
      · rw [hfetched]
        exact h.recvQueue
      · rw [hfetched]
        exact h.sendQueue
      · rcases hfresh with hnil | ⟨hone, -⟩
        · rw [hnil]
          exact List.nodup_nil
        · rw [hone]
          exact List.nodup_singleton _
      · intro a ha
        rcases hfresh with hnil | ⟨hone, hlt⟩
        · rw [hnil] at ha
          cases ha
        · rw [hone] at ha
          obtain rfl := List.mem_singleton.mp ha
          exact ⟨le_rfl, hlt⟩
      · intro a
        simp only [Connection.held, hreleased, MainState.inHand, List.map_append,
          List.count_append, List.map_nil, List.count_nil]
        omega
  | @queues tmpBuff recvQueue henqueue =>
      use recv ++ [tmpBuff], send
      refine h.keeps (.inl (h.recvQueue.enqueue henqueue).2) h.sendQueue rfl ?_
      intro a
      simp only [Connection.held, MainState.inHand, List.map_append, List.count_append,
        List.map_nil, List.count_nil]
      omega
  | adds => exact ⟨recv, send, h.keeps h.recvQueue h.sendQueue rfl (fun _ => le_rfl)⟩
  | misses hdequeue =>
      use recv, send
      refine h.keeps h.recvQueue ?_ rfl (fun _ => le_rfl)
      rw [(h.sendQueue.dequeue_none hdequeue).1]
      exact h.sendQueue
  | drops hdequeue _ =>
      obtain ⟨rest, rfl, hcontains, -⟩ := h.sendQueue.dequeue_some hdequeue
      use recv, rest
      refine h.keeps h.recvQueue hcontains rfl ?_
      intro a
      simp only [Connection.held, MainState.inHand, List.map_append, List.count_append,
        List.map_cons, List.count_cons]
      omega
  | @writes count msg _ stopped _ hdequeue _ hflush =>
      obtain ⟨rest, rfl, hcontains, -⟩ := h.sendQueue.dequeue_some hdequeue
      obtain ⟨hnext, hsendQueue, hrecvQueue, hreleased⟩ :=
        Program.ensures_iff.mp flushMessage_buffers _ _ hflush
      use recv, rest
      refine h.keeps (by rw [hrecvQueue]; exact h.recvQueue) (by rw [hsendQueue]; exact hcontains)
        hnext ?_
      intro a
      have hbefore : (MainState.flushing (count + 1)).inHand = [] := rfl
      have hafter : (if stopped.isSome then MainState.atSelect else .flushing count).inHand
          = [] := by
        split <;> rfl
      simp only [Connection.held, hbefore, hafter, List.map_append, List.count_append,
        List.map_cons, List.count_cons]
      rcases hreleased with hsame | hmsg
      · rw [hsame]
        dsimp only
        omega
      · rw [hmsg]
        simp only [List.count_append, List.count_singleton]
        omega

theorem Owned.worker (h : Owned c recv send) {host : Host} {e : Option Event}
    {worker : WorkerState} {w : World} (hmove : WorkerMoves host c.world c.worker e worker w)
    (hkeeps : c.KeepsToItself (.worker host)) :
  ∃ recv' send', Owned ⟨w, c.main, worker⟩ recv' send'
  := by
  obtain ⟨world, main, worker₀⟩ := c
  have hquiet : ∀ {w : World} {worker : WorkerState}, w.recvQueue = world.recvQueue →
      w.sendQueue = world.sendQueue → w.nextBuffer = world.nextBuffer →
      w.released = world.released → worker.inHand = worker₀.inHand →
      Owned ⟨w, main, worker⟩ recv send := by
    intro w worker hrecv hsend hnext hreleased hworker
    refine h.keeps (hrecv ▸ h.recvQueue) (hsend ▸ h.sendQueue) hnext ?_
    intro a
    simp only [Connection.held, hworker, hreleased, le_refl]
  cases hmove with
  | sleeps hworker _ =>
      refine ⟨recv, send, hquiet rfl rfl rfl rfl ?_⟩
      rcases hworker with rfl | rfl <;> rfl
  | takes hworker _ _ =>
      refine ⟨recv, send, hquiet rfl rfl rfl rfl ?_⟩
      rcases hworker with rfl | rfl <;> rfl
  | misses _ => exact ⟨recv, send, hquiet rfl rfl rfl rfl rfl⟩
  | finds _ => exact ⟨recv, send, hquiet rfl rfl rfl rfl rfl⟩
  | loses hdequeue =>
      exact ⟨recv, send, hquiet (h.recvQueue.dequeue_none hdequeue).1 rfl rfl rfl rfl⟩
  | dequeues hdequeue =>
      obtain ⟨rest, rfl, hcontains, -⟩ := h.recvQueue.dequeue_some hdequeue
      use rest, send
      refine h.keeps hcontains h.sendQueue rfl ?_
      intro a
      simp only [Connection.held, WorkerState.inHand, List.map_append, List.count_append,
        List.map_cons, List.count_cons, List.map_nil, List.count_nil]
      omega
  | @handles recvBuf _ _ hdispatch =>
      have hhandled := handled_dispatch.of_ok hdispatch
      obtain ⟨hle, new, hqueued, hnodup, hnew⟩ :=
        handlerRule_extends.keeps_dispatch.of_ok hdispatch
      have hreleases := Program.ensures_iff.mp dispatch_releases _ _ hdispatch
      use recv, send ++ new
      refine h.turn (new.map Buffer.addr) ?_ (h.sendQueue.queued hqueued) hle hnodup ?_ ?_
      · rw [hhandled.recvQueue]
        exact h.recvQueue
      · intro a ha
        obtain ⟨msg, hmsg, rfl⟩ := List.mem_map.mp ha
        exact hnew msg hmsg
      · intro a
        have hreleased : w.released = world.released ∨
            w.released = world.released ++ [recvBuf.addr] := by
          rcases hreleases with ⟨-, hsame⟩ | ⟨-, ⟨hhanded, -⟩ | ⟨-, honce⟩⟩
          · exact .inl hsame
          · exact absurd hhanded (hkeeps recvBuf rfl)
          · exact .inr honce
        simp only [Connection.held, WorkerState.inHand, List.map_append, List.count_append,
          List.map_cons, List.count_cons, List.map_nil, List.count_nil]
        rcases hreleased with hsame | honce
        · rw [hsame]
          omega
        · rw [honce]
          simp only [List.count_append, List.count_singleton]
          omega

/-- There is a handler for each message that is handed on. -/
theorem HandedOn.select_ne_none {n : ℕ} {mem : Memory} (h : HandedOn n mem) :
  ccRecvOps.select (mem 1) ≠ none
  := by
  rcases h with ⟨htype, -⟩ | ⟨htype, -⟩ | ⟨htype, -⟩ <;>
  · rw [htype]
    simp +decide

/-- Nothing that has been released is taken back; and a message that is handed on is released
twice. -/
theorem Moves.released {turn : Turn} {e : Option Event} (h : Moves c turn e c') :
  ∃ released, c'.world.released = c.world.released ++ released ∧
    (¬ c.KeepsToItself turn → ¬ released.Nodup)
  := by
  have hsame : c'.world.released = c.world.released → c.KeepsToItself turn →
      ∃ released, c'.world.released = c.world.released ++ released ∧
        (¬ c.KeepsToItself turn → ¬ released.Nodup) := by
    intro hreleased hkeeps
    exact ⟨[], by rw [hreleased, List.append_nil], fun hnot => absurd hkeeps hnot⟩
  cases h with
  | main hmove =>
      obtain ⟨world, main₀, worker⟩ := c
      cases hmove with
      | goes => exact hsame rfl trivial
      | leaves => exact hsame rfl trivial
      | reads hfetch =>
          obtain ⟨-, _, ⟨released, hreleased, -⟩, -⟩ :=
            Program.ensures_iff.mp fetch_buffers _ _ hfetch
          exact ⟨released, hreleased, fun hnot => absurd trivial hnot⟩
      | queues => exact hsame rfl trivial
      | adds => exact hsame rfl trivial
      | misses => exact hsame rfl trivial
      | drops => exact hsame rfl trivial
      | @writes _ msg _ _ _ _ _ hflush =>
          obtain ⟨-, -, -, hreleased | hreleased⟩ :=
            Program.ensures_iff.mp flushMessage_buffers _ _ hflush
          · exact hsame hreleased trivial
          · exact ⟨[msg.addr], hreleased, fun hnot => absurd trivial hnot⟩
  | worker hmove =>
      obtain ⟨world, main, worker₀⟩ := c
      cases hmove with
      | sleeps hworker =>
          apply hsame rfl
          intro buf hbuf
          dsimp only at hbuf
          subst hbuf
          rcases hworker with h | h <;> cases h
      | takes hworker =>
          apply hsame rfl
          intro buf hbuf
          dsimp only at hbuf
          subst hbuf
          rcases hworker with h | h <;> cases h
      | misses => exact hsame rfl nofun
      | finds => exact hsame rfl nofun
      | loses => exact hsame rfl nofun
      | dequeues => exact hsame rfl nofun
      | @handles recvBuf _ _ hdispatch =>
          rcases Program.ensures_iff.mp dispatch_releases _ _ hdispatch with
            ⟨hnone, hreleased⟩ | ⟨-, ⟨-, htwice⟩ | ⟨hnot, honce⟩⟩
          · apply hsame hreleased
            rintro _ ⟨⟩ hhanded
            exact absurd hnone (hhanded.select_ne_none)
          · exact ⟨[recvBuf.addr, recvBuf.addr], htwice, fun _ => by simp⟩
          · use [recvBuf.addr], honce
            intro hkeeps
            apply absurd _ hkeeps
            rintro _ ⟨⟩
            exact hnot

theorem Owned.step (h : Owned c recv send) {turn : Turn} (hbounded : turn.Bounded)
    {e : Option Event} (hmoves : Moves c turn e c') (hkeeps : c.KeepsToItself turn) :
  ∃ recv' send', Owned c' recv' send'
  := by
  cases hmoves with
  | main hmove => exact h.main hbounded hmove
  | worker hmove => exact h.worker hmove hkeeps

end

section

variable {mallocs : ℕ → Bool} {writes : ℕ → WriteResult} {turns : List Turn}
  {es : List (Option Event)} {c : Connection}

theorem owned_run (hbounded : ∀ turn ∈ turns, turn.Bounded)
    (hkeeps : Machine.Throughout connectionStep Connection.KeepsToItself
      (Connection.start mallocs writes) turns)
    (hrun : Machine.run connectionStep (Connection.start mallocs writes) turns = .ok (es, c)) :
  ∃ recv send, Owned c recv send
  := by
  induction turns using List.reverseRecOn generalizing es c with
  | nil =>
      obtain ⟨rfl, rfl⟩ : [] = es ∧ Connection.start mallocs writes = c := by
        simpa [Machine.run] using hrun
      exact ⟨[], [], owned_start mallocs writes⟩
  | append_singleton turns turn ih =>
      obtain ⟨es', c₁, e, hrun', hstep, rfl⟩ := Machine.run_concat_ok hrun
      obtain ⟨hbefore, hturn⟩ := (Machine.throughout_concat hrun').mp hkeeps
      obtain ⟨recv, send, howned⟩ := ih (fun t ht => hbounded t (by simp [ht])) hbefore hrun'
      exact howned.step (hbounded turn (by simp)) (connectionStep_moves hstep) hturn

/-- If nothing has been released twice, no message has been handed on. -/
theorem keeps_of_nodup (hrun : Machine.run connectionStep (Connection.start mallocs writes) turns
    = .ok (es, c)) (hnodup : c.world.released.Nodup) :
  Machine.Throughout connectionStep Connection.KeepsToItself (Connection.start mallocs writes) turns
  := by
  induction turns using List.reverseRecOn generalizing es c with
  | nil => exact Machine.throughout_nil
  | append_singleton turns turn ih =>
      obtain ⟨es', c₁, e, hrun', hstep, rfl⟩ := Machine.run_concat_ok hrun
      obtain ⟨released, hreleased, htwice⟩ := (connectionStep_moves hstep).released
      rw [hreleased, List.nodup_append] at hnodup
      rw [Machine.throughout_concat hrun']
      use ih hrun' hnodup.1
      by_contra hkeeps
      exact htwice hkeeps hnodup.2.1

end

/-- After a run of a connection, whatever turns its two threads take, no buffer has been released
twice and none that has been released is on a queue or in the hands of a thread, exactly if no
handler of the run has handed its message on to the application. -/
theorem released_once_iff (mallocs : ℕ → Bool) (writes : ℕ → WriteResult) (turns : List Turn)
    (hbounded : ∀ turn ∈ turns, turn.Bounded) (es : List (Option Event)) (c : Connection)
    (hrun : Machine.run connectionStep (Connection.start mallocs writes) turns = .ok (es, c)) :
  (∃ recv send, c.world.recvQueue.Holds recv ∧ c.world.sendQueue.Holds send ∧
    (c.world.released ++ c.held recv send).Nodup) ↔
  Machine.Throughout connectionStep Connection.KeepsToItself (Connection.start mallocs writes) turns
  := by
  constructor
  · rintro ⟨recv, send, -, -, hnodup⟩
    exact keeps_of_nodup hrun (List.nodup_append.mp hnodup).1
  · intro hkeeps
    obtain ⟨recv, send, howned⟩ := owned_run hbounded hkeeps hrun
    exact ⟨recv, send, howned.recvQueue.holds, howned.sendQueue.holds, howned.nodup⟩

theorem released_once_service :
  (∀ turn ∈ serviceTurns, turn.Bounded) ∧
  ∃ es c, Machine.run connectionStep (Connection.start (fun _ => true) (fun _ => .wrote 100))
      serviceTurns = .ok (es, c) ∧
    ((∃ recv send, c.world.recvQueue.Holds recv ∧ c.world.sendQueue.Holds send ∧
        (c.world.released ++ c.held recv send).Nodup) ↔
      Machine.Throughout connectionStep Connection.KeepsToItself
        (Connection.start (fun _ => true) (fun _ => .wrote 100)) serviceTurns)
  := ⟨serviceTurns_bounded, _, _, rfl, released_once_iff (fun _ => true) (fun _ => .wrote 100)
    serviceTurns serviceTurns_bounded _ _ rfl⟩

/-! ### What is stored in a buffer that has been released -/

/-- If every buffer released so far has been stored in afterwards, then so has every later one. -/
def World.Marks (w w' : World) : Prop :=
  w.stale = w.released → w'.stale = w'.released

instance : IsPreorder World World.Marks where
  refl _ := id
  trans _ _ _ h h' := h' ∘ h

theorem World.marks_release {w : World} {buf : Buffer} (hdata : buf.data.isSome) :
  w.Marks (w.release buf)
  := by
  intro h
  rw [World.release, if_pos hdata, h]

theorem handlerRule_marks :
  HandlerRule World.Marks
  := by
  constructor
  · infer_instance
  · intro _ _ _ _ _ _ _
    exact id
  · intro _ _
    exact World.marks_release
  · intro _ _ _ _ _ _ _ _
    exact id

section

variable {host : Host} {w : World}

/-- The main thread has filled the buffer that it releases. -/
theorem fetch_marks {read : ReadResult} :
  Program.Keeps World.Marks (fetch host read)
  := by
  intro w
  simp only [fetch, Program.ends_bind, ends_malloc, Program.ends_ite, Program.ends_pure,
    ends_freeBuffer]
  refine ⟨fun _ => id, fun _ => ⟨fun _ => ?_, fun _ => id⟩⟩
  apply ends_allocBufferWithLength.mpr
  refine ⟨fun _ => trivial, fun _ => ?_⟩
  apply ensures_fill
  intro block _ _
  apply ensures_look
  intro version _
  refine ⟨fun _ => World.marks_release rfl, fun _ => ?_⟩
  apply ensures_look
  intro headerLength _
  exact ⟨fun _ => World.marks_release rfl, fun _ => id⟩

/-- The main thread has looked into the message that it releases. -/
theorem flushMessage_marks {msg : Buffer} :
  Program.Keeps World.Marks (flushMessage host msg)
  := by
  apply keeps_look_bind
  intro hdata len
  have hlook : Program.Keeps World.Marks (look host msg (bcopy 0 len.toNat)) :=
    handlerRule_marks.keeps_look
  apply hlook.bind
  intro bytes w
  have hreleased (w' : World) (h : w.Marks w') : w.Marks (w'.release msg) :=
    IsTrans.trans _ _ _ h (World.marks_release hdata)
  simp only [writeSocket, Program.ends_bind, Program.ends_state, Program.ends_update]
  cases w.writes 0 with
  | wrote n =>
      simp only [Program.ends_bind, Program.ends_update, Program.ends_pure, Program.ends_ite,
        ends_freeBuffer]
      exact ⟨fun _ => id, fun _ => hreleased _ id⟩
  | interrupted => exact hreleased _ id
  | failed => exact hreleased _ id

end

theorem Moves.marks {c c' : Connection} {turn : Turn} {e : Option Event} (h : Moves c turn e c') :
  c.world.Marks c'.world
  := by
  cases h with
  | main hmove =>
      obtain ⟨world, main₀, worker⟩ := c
      cases hmove with
      | goes => exact id
      | leaves => exact id
      | reads hfetch => exact fetch_marks.of_ok hfetch
      | queues => exact id
      | adds => exact id
      | misses => exact id
      | drops => exact id
      | writes _ _ hflush =>
          intro hstale
          exact flushMessage_marks.of_ok hflush hstale
  | worker hmove =>
      obtain ⟨world, main, worker₀⟩ := c
      cases hmove with
      | sleeps => exact id
      | takes => exact id
      | misses => exact id
      | finds => exact id
      | loses => exact id
      | dequeues => exact id
      | handles hdispatch => exact handlerRule_marks.keeps_dispatch.of_ok hdispatch

/-- In every state that a connection reaches, every buffer released so far has been stored in
after its release. -/
theorem stale_run {mallocs : ℕ → Bool} {writes : ℕ → WriteResult} {turns : List Turn}
    {es : List (Option Event)} {c : Connection}
    (hrun : Machine.run connectionStep (Connection.start mallocs writes) turns = .ok (es, c)) :
  c.world.stale = c.world.released
  := by
  apply Machine.Throughout.run_invariant (R := fun c => c.world.stale = c.world.released)
    (G := fun _ _ => True) _ rfl (Machine.throughout_of_forall (fun _ _ => trivial)) hrun
  intro c₁ turn e c₂ h _ hstep
  exact (connectionStep_moves hstep).marks h

end CcController
