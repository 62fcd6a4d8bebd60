import CcController.Connection
import CcController.Lib.Frame
import CcController.Transmission
import Mathlib.Data.List.ReduceOption

/-!
# The turns of a connection

What a turn of one of the threads can do, said once (`connectionStep_moves`), and what can be
seen of it. A handler works on data of its own and sends messages that it has made, so it keeps
whatever these two keep (`HandlerRule.keeps_dispatch`); it leaves alone whatever else the main
thread works on (`handled_dispatch`).
-/

namespace CcController

/-! ### What a queue contains -/

namespace MessageQueue

variable {β : Type}

/-- The queue contains the buffers; it takes more of them unless it has been drained. -/
def Contains (q : MessageQueue β) (bufs : List β) : Prop :=
  q.Linked bufs ∨ bufs = [] ∧ q.Drained ∧ q.length = 0

variable {q q' : MessageQueue β} {bufs : List β}

theorem Contains.length (h : q.Contains bufs) :
  q.length = UInt32.ofNat bufs.length
  := by
  rcases h with ⟨_, _, _, _, hlen, _⟩ | ⟨rfl, -, hzero⟩
  · exact hlen
  · exact hzero

theorem contains_create :
  (createMessageQueue : MessageQueue β).Contains []
  := .inl ready_create.linked

/-- A queue that takes a buffer has not been drained. -/
theorem Contains.enqueue [HasData β] (h : q.Contains bufs) {b : β} {ok : Bool} {ret : ℤ}
    (hok : enqueueMessage q (some b) ok = .ok (ret, q')) :
  q.Linked bufs ∧ q'.Linked (bufs ++ [b])
  := by
  rcases h with hlinked | ⟨-, hdrained, -⟩
  · use hlinked
    obtain ⟨queue, henqueue, hlinked'⟩ := hlinked.enqueue (enqueueMessage_header hok)
    rw [enqueueMessage_malloc hok, henqueue] at hok
    cases hok
    exact hlinked'
  · obtain ⟨f, hf⟩ := hdrained.enqueue b ok
    rw [hf] at hok
    cases hok

/-- Nothing is found in a queue whose length is zero; otherwise the first buffer is taken. -/
theorem Contains.dequeue (h : q.Contains bufs) :
  (q.length = 0 ∧ dequeueMessage q = .ok (none, q)) ∨
    ∃ b rest, bufs = b :: rest ∧ q.length ≠ 0 ∧
      ∃ q', dequeueMessage q = .ok (some b, q') ∧ q'.Contains rest ∧ (rest = [] → q'.Drained)
  := by
  rcases h with ⟨hd, es, hlies, hbufs, hlen, htail⟩ | ⟨-, ⟨hd, a, hlies, -⟩, hzero⟩
  · by_cases hzero : q.length = 0
    · exact .inl ⟨hzero, hlies.dequeue_wrapped hzero⟩
    · cases bufs with
      | nil => exact absurd hlen hzero
      | cons b rest =>
          cases es with
          | nil => cases hbufs
          | cons e es =>
              obtain ⟨he, hes⟩ := List.cons.inj hbufs
              obtain ⟨q', hok, hlies', htail', hlen', hlimit, herased⟩ := hlies.dequeue hzero
              have hlength : q'.length = UInt32.ofNat rest.length := by
                rw [hlen', hlen, List.length_cons, UInt32.ofNat_add]
                apply UInt32.add_sub_cancel
              have hdrained : rest = [] → q'.Drained := by
                rintro rfl
                obtain rfl : es = [] := by simpa using hes
                refine ⟨hd, e.1, hlies', htail'.trans htail, ?_, herased⟩
                rw [hlimit]
                apply hlies.lt_limit (by simp)
              refine .inr ⟨b, rest, rfl, hzero, q', ?_, ?_, hdrained⟩
              · rw [hok]
                congr 2
              · cases rest with
                | nil => exact .inr ⟨rfl, hdrained rfl, hlength⟩
                | cons x xs =>
                    cases es with
                    | nil => cases hes
                    | cons y ys =>
                        exact .inl ⟨hd, y :: ys, hlies', hes, hlength, htail'.trans htail⟩
  · exact .inl ⟨hzero, hlies.dequeue_nil⟩

/-- The buffer that is taken is the first one. -/
theorem Contains.dequeue_some (h : q.Contains bufs) {b : β}
    (hdequeue : dequeueMessage q = .ok (some b, q')) :
  ∃ rest, bufs = b :: rest ∧ q'.Contains rest ∧ (rest = [] → q'.Drained)
  := by
  rcases h.dequeue with ⟨-, hnothing⟩ | ⟨b', rest, rfl, -, q'', hfirst, hcontains⟩
  · rw [hnothing] at hdequeue
    cases hdequeue
  · rw [hfirst] at hdequeue
    cases hdequeue
    exact ⟨rest, rfl, hcontains⟩

/-- Where nothing is taken the queue stays as it is, and its length is zero. -/
theorem Contains.dequeue_none (h : q.Contains bufs) (hdequeue : dequeueMessage q = .ok (none, q')) :
  q' = q ∧ q.length = 0
  := by
  rcases h.dequeue with ⟨hzero, hnothing⟩ | ⟨_, _, _, _, _, hfirst, -⟩
  · rw [hnothing] at hdequeue
    cases hdequeue
    exact ⟨rfl, hzero⟩
  · rw [hfirst] at hdequeue
    cases hdequeue

end MessageQueue


/-! ### What the handlers do to a connection -/

/-- The program allocates one buffer, and returns a message in it, or nothing. -/
def MakesMessage (create : Action (Option Buffer)) : Prop :=
  ∀ w, Program.Ensures create w (fun result w' =>
    (∃ mallocs, w' = { w with mallocs := mallocs, nextBuffer := w.nextBuffer + 1 }) ∧
    ∀ buf, result = some buf → CcCreated buf ∧ buf.addr = w.nextBuffer)

/-- A relation that holds between the states before and after each of the three things that
handlers do to a connection: work on data of their own, release a message that they have looked
into, and send a message that they have made. -/
structure HandlerRule (R : World → World → Prop) : Prop where
  preorder : IsPreorder World R
  own : ∀ (w : World) (mallocs : ℕ → Bool) (nextBuffer : ℕ) (ccSwitch : EachSw)
    (xidTable : XidTable) (xidLatest : UInt32), w.nextBuffer ≤ nextBuffer →
    R w { w with
      mallocs := mallocs
      nextBuffer := nextBuffer
      ccSwitch := ccSwitch
      xidTable := xidTable
      xidLatest := xidLatest }
  releases : ∀ (w : World) (buf : Buffer), buf.data.isSome → R w (w.release buf)
  sends : ∀ (w : World) (mallocs : ℕ → Bool) (buf : Buffer) (ok : Bool)
    (queue : MessageQueue Buffer), CcCreated buf → buf.addr = w.nextBuffer →
    enqueueMessage w.sendQueue (some buf) ok = .ok (ccENone, queue) →
    R w { w with
      mallocs := mallocs
      nextBuffer := w.nextBuffer + 1
      sendQueue := queue
      sent := w.sent ++ [(buf, w.xidTable)] }

section

variable {host : Host} {recvData : Buffer} {xid : UInt32}

theorem makes_ccCreateHeader {type : UInt8} {length : UInt16} {w : World} :
  Program.Ensures (ccCreateHeader host xid type length) w (fun result w' =>
    (∃ mallocs, w' = { w with mallocs := mallocs, nextBuffer := w.nextBuffer + 1 }) ∧
    ∀ buf, result = some buf → buf.addr = w.nextBuffer)
  := by
  apply ends_ccCreateHeader.mpr
  refine ⟨fun _ => trivial, fun _ => ⟨fun _ => ⟨⟨_, rfl⟩, fun _ h => by cases h⟩, fun _ => ?_⟩⟩
  refine ⟨fun _ => trivial, fun _ => ⟨fun _ => trivial, fun _ => ⟨⟨_, rfl⟩, ?_⟩⟩⟩
  rintro _ ⟨⟩
  rfl

/-- What is created is a message in the buffer that has been allocated. -/
theorem makes_of_creates {create : Action (Option Buffer)} {type : UInt8} {body : List UInt8}
    (hcreates : ∀ w, Program.Ensures create w (Creates host xid type body w))
    (hmakes : ∀ w, Program.Ensures create w (fun result w' =>
      (∃ mallocs, w' = { w with mallocs := mallocs, nextBuffer := w.nextBuffer + 1 }) ∧
      ∀ buf, result = some buf → buf.addr = w.nextBuffer)) :
  MakesMessage create
  := by
  intro w
  apply Program.ensures_iff.mpr
  intro result w' hok
  have hcreated := Program.ensures_iff.mp (hcreates w) result w' hok
  obtain ⟨hw', haddr⟩ := Program.ensures_iff.mp (hmakes w) result w' hok
  use hw'
  intro buf hbuf
  exact ⟨⟨host, xid, type, body, (hcreated.created buf hbuf).1⟩, haddr buf hbuf⟩

theorem makes_ccCreateHello :
  MakesMessage (ccCreateHello host xid)
  := makes_of_creates (fun _ => ccCreateHello_creates) (fun _ => makes_ccCreateHeader)

theorem makes_ccCreateFeaturesRequest :
  MakesMessage (ccCreateFeaturesRequest host xid)
  := by
  apply makes_of_creates (fun _ => ccCreateFeaturesRequest_creates)
  intro w
  simp only [ccCreateFeaturesRequest, Program.ends_bind]
  apply makes_ccCreateHeader.mono
  rintro (_ | buf) w' h
  · trivial
  · simp only [Program.ends_bind, Program.ends_pure]
    apply ensures_look
    intro _ _
    exact h

/-- Copying the body leaves the buffer where it is. -/
theorem ensures_copyBody {message : Buffer} {data : Option Buffer} {w : World} :
  Program.Ensures (copyBody host message data) w
    (fun message' w' => w' = w ∧ message'.addr = message.addr)
  := by
  cases data with
  | none => exact ⟨rfl, rfl⟩
  | some data =>
      simp only [copyBody, Program.ends_ite, Program.ends_bind, Program.ends_pure]
      constructor
      · intro _
        apply ensures_look
        intro _ _
        apply ensures_fill
        intro _ _ _
        exact ⟨rfl, rfl⟩
      · intro _
        trivial

theorem makes_ccCreateEchoRequest :
  MakesMessage (ccCreateEchoRequest host xid (some recvData))
  := by
  apply makes_of_creates (fun _ => ccCreateEchoRequest_creates)
  intro w
  simp only [ccCreateEchoRequest, Program.ends_bind]
  apply makes_ccCreateHeader.mono
  rintro (_ | message) w' ⟨hw', haddr⟩
  · exact ⟨hw', fun _ h => by cases h⟩
  · simp only [Program.ends_bind, Program.ends_pure]
    apply ensures_copyBody.mono
    rintro message' _ ⟨rfl, hsame⟩
    use hw'
    rintro _ ⟨⟩
    exact hsame.trans (haddr message rfl)

theorem makes_ccCreateEchoReply :
  MakesMessage (ccCreateEchoReply host xid (some recvData))
  := by
  apply makes_of_creates (fun _ => ccCreateEchoReply_creates)
  intro w
  simp only [ccCreateEchoReply, Program.ends_bind]
  apply makes_ccCreateHeader.mono
  rintro (_ | message) w' ⟨hw', haddr⟩
  · simp only [Program.ends_ite, Program.ends_stop, Program.ends_pure, implies_true, true_and]
    intro _
    exact ⟨hw', fun _ h => by cases h⟩
  · simp only [Program.ends_bind, Program.ends_pure]
    apply ensures_copyBody.mono
    rintro message' _ ⟨rfl, hsame⟩
    use hw'
    rintro _ ⟨⟩
    exact hsame.trans (haddr message rfl)

/-- What is looked into has data. -/
theorem keeps_look_bind {R : World → World → Prop} {α β : Type} {m : MessageReader α}
    {rest : α → Action β}
    (hrest : recvData.data.isSome → ∀ a, Program.Keeps R (rest a)) :
  Program.Keeps R (look host recvData m >>= rest)
  := by
  intro w
  apply Program.ends_bind.mpr
  unfold look
  split
  · trivial
  · next block hblock =>
      split
      · trivial
      · exact hrest (hblock ▸ rfl) _ w

end

namespace HandlerRule

variable {R : World → World → Prop} {host : Host} {recvData : Buffer}

theorem keeps_malloc (h : HandlerRule R) :
  Program.Keeps R malloc
  := fun w => h.own w _ _ w.ccSwitch w.xidTable w.xidLatest le_rfl

theorem keeps_freeBuffer (h : HandlerRule R) (hdata : recvData.data.isSome) :
  Program.Keeps R (freeBuffer (some recvData))
  := Program.keeps_update (fun w => h.releases w recvData hdata)

theorem keeps_look (h : HandlerRule R) {α : Type} {buf : Buffer} {m : MessageReader α} :
  Program.Keeps R (look host buf m)
  := by
  have := h.preorder
  unfold look
  split
  · exact Program.keeps_stop
  · split
    · exact Program.keeps_stop
    · exact Program.keeps_pure

theorem keeps_setXidLatest (h : HandlerRule R) {xid : UInt32} :
  Program.Keeps R (setXidLatest xid)
  := Program.keeps_update
    (fun w => h.own w w.mallocs _ w.ccSwitch w.xidTable _ le_rfl)

theorem keeps_setXidTable (h : HandlerRule R) {xidTable : XidTable} :
  Program.Keeps R (Program.update (fun w => { w with xidTable := xidTable }) : Action Unit)
  := Program.keeps_update
    (fun w => h.own w w.mallocs _ w.ccSwitch _ w.xidLatest le_rfl)

theorem keeps_releaseThen (h : HandlerRule R) (hdata : recvData.data.isSome) {ret : ℤ} :
  Program.Keeps R (releaseThen recvData ret)
  := by
  have := h.preorder
  exact (h.keeps_freeBuffer hdata).bind (fun _ => Program.keeps_pure)

/-- A message that has been made is put on the send queue. -/
theorem keeps_sendThen (h : HandlerRule R) (hdata : recvData.data.isSome)
    {create : Action (Option Buffer)} {rest : ℤ → Action ℤ} (hcreate : MakesMessage create)
    (hrest : ∀ ret, Program.Keeps R (rest ret)) :
  Program.Keeps R (sendThen recvData create rest)
  := by
  have := h.preorder
  intro w
  simp only [sendThen, Program.ends_bind]
  apply (hcreate w).mono
  rintro (_ | buf) _ ⟨⟨mallocs, rfl⟩, hbuf⟩
  · have hmade := h.own w mallocs _ w.ccSwitch w.xidTable w.xidLatest (Nat.le_succ _)
    exact IsTrans.trans _ _ _ hmade (h.releases _ recvData hdata)
  · obtain ⟨hcreated, haddr⟩ := hbuf buf rfl
    simp only [Program.ends_bind]
    apply ccInsertToSendQueue_ensures
    intro ok queue henqueue
    apply (hrest ccENone _).mono
    intro _ w' hw'
    exact IsTrans.trans _ _ _ (h.sends w _ buf ok queue hcreated haddr henqueue) hw'

theorem keeps_replyThen (h : HandlerRule R) (hdata : recvData.data.isSome) {xid : UInt32}
    {rejected : ℤ → Bool} {rest : Action ℤ} (hrest : Program.Keeps R rest) :
  Program.Keeps R (replyThen host recvData xid rejected rest)
  := by
  have := h.preorder
  apply Program.keeps_state.bind
  intro w
  apply Program.keeps_lift.bind
  rintro ⟨ret, xidTable⟩
  apply h.keeps_setXidTable.bind
  intro _
  exact Program.Keeps.ite (h.keeps_releaseThen hdata) hrest

theorem keeps_toApp (h : HandlerRule R) (hdata : recvData.data.isSome) {failed : ℤ → Bool} :
  Program.Keeps R (toApp failed recvData)
  := by
  have := h.preorder
  apply ((h.keeps_freeBuffer hdata).bind (fun _ => Program.keeps_pure)).bind
  intro ret
  exact Program.Keeps.ite (h.keeps_releaseThen hdata) Program.keeps_pure

theorem keeps_acceptForApp (h : HandlerRule R) (hdata : recvData.data.isSome)
    {failed : ℤ → Bool} :
  Program.Keeps R (acceptForApp failed host recvData)
  := by
  have := h.preorder
  exact h.keeps_look.bind (fun _ => h.keeps_setXidLatest.bind (fun _ => h.keeps_toApp hdata))

theorem keeps_acceptReplyForEcho (h : HandlerRule R) (hdata : recvData.data.isSome) :
  Program.Keeps R (acceptReplyForEcho host recvData)
  := by
  have := h.preorder
  apply h.keeps_look.bind
  intro xid
  apply h.keeps_replyThen hdata
  apply h.keeps_setXidLatest.bind
  intro _
  apply Program.keeps_state.bind
  intro world
  apply h.keeps_sendThen hdata makes_ccCreateEchoRequest
  intro _
  exact h.keeps_releaseThen hdata

theorem keeps_hello (h : HandlerRule R) (hdata : recvData.data.isSome) :
  Program.Keeps R (ccRecvHelloMsg.accept host recvData)
  := by
  have := h.preorder
  apply h.keeps_look.bind
  intro xid
  apply h.keeps_setXidLatest.bind
  intro _
  apply Program.keeps_state.bind
  intro world
  apply h.keeps_sendThen hdata makes_ccCreateHello
  intro _
  apply Program.Keeps.bind
  · exact Program.keeps_update
      (fun w => h.own w w.mallocs _ w.ccSwitch w.xidTable _ le_rfl)
  · intro _
    apply Program.keeps_state.bind
    intro world
    apply h.keeps_sendThen hdata makes_ccCreateFeaturesRequest
    intro ret
    exact h.keeps_releaseThen hdata

theorem keeps_error (h : HandlerRule R) (hdata : recvData.data.isSome) :
  Program.Keeps R (ccRecvErrMsg.accept host recvData)
  := by
  have := h.preorder
  apply h.keeps_look.bind
  intro xid
  apply h.keeps_setXidLatest.bind
  intro _
  apply h.keeps_look.bind
  intro type
  apply Program.Keeps.ite
  · exact h.keeps_look.bind (fun _ => Program.keeps_stop)
  · exact h.keeps_releaseThen hdata

theorem keeps_echoRequest (h : HandlerRule R) (hdata : recvData.data.isSome) :
  Program.Keeps R (ccRecvEchoRequest.accept host recvData)
  := by
  have := h.preorder
  apply h.keeps_look.bind
  intro xid
  apply h.keeps_malloc.bind
  intro ok
  apply Program.keeps_state.bind
  intro world
  apply Program.keeps_lift.bind
  rintro ⟨ret, xidTable⟩
  apply Program.Keeps.bind
  · exact Program.keeps_update
      (fun w => h.own w w.mallocs _ w.ccSwitch _ _ le_rfl)
  · intro _
    apply Program.keeps_state.bind
    intro world
    apply h.keeps_sendThen hdata makes_ccCreateEchoReply
    intro _
    exact h.keeps_releaseThen hdata

end HandlerRule

/-- The handlers that a message can be given to. -/
theorem select_cases {type : UInt8} {handler : RecvHandler}
    (h : ccRecvOps.select type = some handler) :
  handler = ccRecvHelloMsg ∨ handler = ccRecvErrMsg ∨ handler = ccRecvEchoRequest ∨
    handler = ccRecvEchoReply ∨ handler = ccRecvVendor ∨ handler = ccRecvGetConfigReply ∨
    handler = ccRecvFlowRemoved ∨ handler = ccRecvPacketIn ∨ handler = ccRecvPortStatus
  := by
  simp only [CcRecvOps.select, ccRecvOps] at h
  split_ifs at h <;> cases h <;> simp

/-- Handing a message to its handler does nothing else. -/
theorem HandlerRule.keeps_dispatch {R : World → World → Prop} (h : HandlerRule R) {host : Host}
    {recvData : Buffer} :
  Program.Keeps R (dispatch host recvData)
  := by
  have := h.preorder
  apply keeps_look_bind
  intro hdata type
  cases hselect : ccRecvOps.select type with
  | none => exact Program.keeps_pure
  | some handler =>
      have haccept : Program.Keeps R (handler.accept host recvData) := by
        rcases select_cases hselect with
          rfl | rfl | rfl | rfl | rfl | rfl | rfl | rfl | rfl
        · exact h.keeps_hello hdata
        · exact h.keeps_error hdata
        · exact h.keeps_echoRequest hdata
        · exact h.keeps_acceptReplyForEcho hdata
        · exact h.keeps_acceptForApp hdata
        · exact h.keeps_acceptReplyForEcho hdata
        · exact h.keeps_acceptForApp hdata
        · exact h.keeps_acceptForApp hdata
        · exact h.keeps_acceptForApp hdata
      have hrecv : Program.Keeps R (handler.recv host recvData) := by
        apply h.keeps_look.bind
        intro ret
        exact Program.Keeps.ite (h.keeps_releaseThen hdata) haccept
      exact hrecv.bind (fun _ => Program.keeps_pure)

/-! ### What the handlers leave alone -/

/-- What a handler does to a connection: messages are put on the send queue, and nothing else
changes that the main thread works on. -/
structure World.Handled (w w' : World) : Prop where
  recvQueue : w'.recvQueue = w.recvQueue
  pool : w'.ccRecvThreadPool = w.ccRecvThreadPool
  recvHandler : w'.recvHandler = w.recvHandler
  writes : w'.writes = w.writes
  written : w'.written = w.written
  sends : ∃ new : List (Buffer × XidTable), Queued w.sendQueue (new.map Prod.fst) w'.sendQueue ∧
    w'.sent = w.sent ++ new ∧ ∀ p ∈ new, CcCreated p.1

theorem Queued.append {queue queue' queue'' : MessageQueue Buffer} {bufs bufs' : List Buffer}
    (h : Queued queue bufs queue') (h' : Queued queue' bufs' queue'') :
  Queued queue (bufs ++ bufs') queue''
  := by
  induction bufs generalizing queue with
  | nil =>
      obtain rfl : queue' = queue := h
      exact h'
  | cons buf bufs ih =>
      obtain ⟨ok, queue₁, henqueue, hrest⟩ := h
      exact ⟨ok, queue₁, henqueue, ih hrest⟩

instance : IsPreorder World World.Handled where
  refl w := ⟨rfl, rfl, rfl, rfl, rfl, [], rfl, (List.append_nil _).symm, by simp⟩
  trans w w' w'' h h' := by
    obtain ⟨new, hqueued, hsent, hnew⟩ := h.sends
    obtain ⟨new', hqueued', hsent', hnew'⟩ := h'.sends
    constructor
    · exact h'.recvQueue.trans h.recvQueue
    · exact h'.pool.trans h.pool
    · exact h'.recvHandler.trans h.recvHandler
    · exact h'.writes.trans h.writes
    · exact h'.written.trans h.written
    · use new ++ new'
      rw [List.map_append]
      use hqueued.append hqueued', by rw [hsent', hsent, List.append_assoc]
      intro p hp
      rcases List.mem_append.mp hp with hp | hp
      · exact hnew p hp
      · exact hnew' p hp

theorem handlerRule_handled :
  HandlerRule World.Handled
  := by
  constructor
  · infer_instance
  · intro w _ _ _ _ _ _
    exact ⟨rfl, rfl, rfl, rfl, rfl, [], rfl, (List.append_nil _).symm, by simp⟩
  · intro w _ _
    exact ⟨rfl, rfl, rfl, rfl, rfl, [], rfl, (List.append_nil _).symm, by simp⟩
  · intro w _ buf ok queue hcreated _ henqueue
    refine ⟨rfl, rfl, rfl, rfl, rfl, [(buf, w.xidTable)], ⟨ok, queue, henqueue, rfl⟩, rfl, ?_⟩
    intro p hp
    obtain rfl := List.mem_singleton.mp hp
    exact hcreated

/-- Handing a message to its handler leaves alone what is not the handler's. -/
theorem handled_dispatch {host : Host} {recvData : Buffer} :
  Program.Keeps World.Handled (dispatch host recvData)
  := handlerRule_handled.keeps_dispatch


/-! ### What a turn can do -/

/-- The main thread holds no message and owes no job. -/
def MainState.Idle : MainState → Prop
  | .atEnqueue _ => False
  | .atAddWorker => False
  | _ => True

/-- A turn of the main thread. -/
inductive MainMoves (host : Host) (answer : Answer) (w : World) :
    MainState → Option Event → MainState → World → Prop
  | goes {main main' : MainState} (hmain : main.Idle) (hmain' : main'.Idle)
      (hround : ∀ count, main ≠ .flushing (count + 1)) :
    MainMoves host answer w main none main' w
  | leaves : MainMoves host answer w .atSelect (some .left) .ended w
  | reads {main' : MainState} {w' : World} (h : fetch host answer.read w = .ok (main', w')) :
    MainMoves host answer w .atRead (some (.read answer.read.data)) main' w'
  | queues {tmpBuff : Buffer} {recvQueue : MessageQueue Buffer}
      (h : enqueueMessage w.recvQueue (some tmpBuff) true = .ok (ccENone, recvQueue)) :
    MainMoves host answer w (.atEnqueue tmpBuff) (some (.queued tmpBuff)) .atAddWorker
      { w with mallocs := fun i => w.mallocs (i + 1), recvQueue := recvQueue }
  | adds : MainMoves host answer w .atAddWorker (some .added) .received { w with
      mallocs := fun i => w.mallocs (i + 1)
      ccRecvThreadPool := ⟨w.ccRecvThreadPool.queue ++ [.ccOfpmsgRecvHandle],
        w.ccRecvThreadPool.curQueueSize + 1⟩ }
  | misses {count : ℕ} {sendQueue : MessageQueue Buffer}
      (h : dequeueMessage w.sendQueue = .ok (none, sendQueue)) :
    MainMoves host answer w (.flushing (count + 1)) none .atSelect { w with sendQueue := sendQueue }
  | drops {count : ℕ} {msg : Buffer} {sendQueue : MessageQueue Buffer}
      (h : dequeueMessage w.sendQueue = .ok (some msg, sendQueue)) (hmany : count > 10) :
    MainMoves host answer w (.flushing (count + 1)) (some (.flushed msg)) .atSelect
      { w with sendQueue := sendQueue }
  | writes {count : ℕ} {msg : Buffer} {sendQueue : MessageQueue Buffer} {stopped : Option ℤ}
      {w' : World} (h : dequeueMessage w.sendQueue = .ok (some msg, sendQueue))
      (hfew : count ≤ 10)
      (hflush : flushMessage host msg { w with sendQueue := sendQueue } = .ok (stopped, w')) :
    MainMoves host answer w (.flushing (count + 1)) (some (.flushed msg))
      (if stopped.isSome then .atSelect else .flushing count) w'

/-- A turn of the thread of the pool. -/
inductive WorkerMoves (host : Host) (w : World) :
    WorkerState → Option Event → WorkerState → World → Prop
  | sleeps {worker : WorkerState} (hworker : worker = .atLock ∨ worker = .waiting)
      (h : w.ccRecvThreadPool.curQueueSize = 0) :
    WorkerMoves host w worker none .waiting w
  | takes {worker : WorkerState} {job : Job} {queue : List Job}
      (hworker : worker = .atLock ∨ worker = .waiting)
      (hsize : w.ccRecvThreadPool.curQueueSize ≠ 0)
      (hqueue : w.ccRecvThreadPool.queue = job :: queue) :
    WorkerMoves host w worker (some .took) .atCheck { w with
      ccRecvThreadPool := ⟨queue, w.ccRecvThreadPool.curQueueSize - 1⟩ }
  | misses (h : w.recvHandler = false ∨ w.recvQueue.length = 0) :
    WorkerMoves host w .atCheck (some (.dequeued none)) .atLock w
  | finds (h : w.recvQueue.length ≠ 0) : WorkerMoves host w .atCheck none .atDequeue w
  | loses {recvQueue : MessageQueue Buffer}
      (h : dequeueMessage w.recvQueue = .ok (none, recvQueue)) :
    WorkerMoves host w .atDequeue (some (.dequeued none)) .atLock { w with recvQueue := recvQueue }
  | dequeues {recvBuf : Buffer} {recvQueue : MessageQueue Buffer}
      (h : dequeueMessage w.recvQueue = .ok (some recvBuf, recvQueue)) :
    WorkerMoves host w .atDequeue (some (.dequeued (some recvBuf))) (.atHandler recvBuf)
      { w with recvQueue := recvQueue }
  | handles {recvBuf : Buffer} {ret : ℤ} {w' : World}
      (h : dispatch host recvBuf w = .ok (ret, w')) :
    WorkerMoves host w (.atHandler recvBuf) (some (.handled recvBuf)) .atLock w'

section

variable {host : Host} {answer : Answer} {w : World}

theorem flushRound_moves {count : ℕ} :
  Program.Ensures (flushRound host count) w
    (fun r w' => MainMoves host answer w (.flushing (count + 1)) r.1 r.2 w')
  := by
  simp only [flushRound, Program.ends_bind, Program.ends_state, Program.ensures_lift]
  rintro ⟨msg, sendQueue⟩ hdequeue
  cases msg with
  | none =>
      simp only [Program.ends_update, Program.ends_pure]
      exact .misses hdequeue
  | some msg =>
      simp only [Program.ends_update, Program.ends_ite, Program.ends_pure, Program.ends_bind]
      constructor
      · intro hmany
        exact .drops hdequeue hmany
      · intro hfew
        apply (Program.Ends.returning (Program.ensures_any (fun _ _ => trivial))).mono
        rintro stopped w' ⟨-, hflush⟩
        have hmove := @MainMoves.writes host answer w count msg sendQueue stopped w' hdequeue
          (Nat.not_lt.mp hfew) hflush
        cases stopped with
        | none => exact hmove
        | some ret => exact hmove

theorem mainStep_moves {main : MainState} :
  Program.Ensures (mainStep host answer main) w
    (fun r w' => MainMoves host answer w main r.1 r.2 w')
  := by
  cases main with
  | atSelect =>
      simp only [mainStep]
      cases answer.select with
      | readable => exact .goes trivial trivial (by simp)
      | timeout => exact .goes trivial trivial (by simp)
      | interrupted => exact .goes trivial trivial (by simp)
      | failed => exact .leaves
  | atRead =>
      simp only [mainStep, Program.ends_bind, Program.ends_pure]
      apply (Program.Ends.returning (Program.ensures_any (fun _ _ => trivial))).mono
      rintro main' w' ⟨-, hfetch⟩
      exact .reads hfetch
  | atEnqueue tmpBuff =>
      simp only [mainStep, enqueueReceived, Program.ends_bind, ends_malloc, Program.ends_state,
        Program.ensures_lift]
      rintro ⟨ret, recvQueue⟩ henqueue
      obtain rfl := (enqueueMessage_ok henqueue).1
      rw [enqueueMessage_malloc henqueue] at henqueue
      have hcodes : ¬ ccENone = ccEErr := by decide
      simp only [Program.ends_update, Program.ends_ite, hcodes, false_implies, true_and,
        not_false_eq_true, true_implies, Program.ends_pure]
      exact .queues henqueue
  | atAddWorker =>
      simp only [mainStep, Program.ends_bind, ends_addRecvWorker, Program.ends_pure,
        implies_true, true_and]
      intro _
      exact .adds
  | received =>
      simp only [mainStep, Program.ends_bind, Program.ends_state, Program.ends_ite,
        Program.ends_pure]
      have hgoes {main' : MainState} (hidle : main'.Idle) :
        MainMoves host answer w .received none main' w
        := .goes trivial hidle (by simp)
      exact ⟨fun _ => hgoes trivial, fun _ => ⟨fun _ => hgoes trivial, fun _ => hgoes trivial⟩⟩
  | atFlush =>
      simp only [mainStep, Program.ends_bind, Program.ends_state, Program.ends_ite,
        Program.ends_pure]
      exact ⟨fun _ => .goes trivial trivial (by simp), fun _ => .goes trivial trivial (by simp)⟩
  | flushing count =>
      cases count with
      | zero => exact .goes trivial trivial (by simp)
      | succ count => exact flushRound_moves
  | ended => exact .goes trivial trivial (by simp)

theorem takeJob_moves {worker : WorkerState} (hworker : worker = .atLock ∨ worker = .waiting) :
  Program.Ensures takeJob w (fun r w' => WorkerMoves host w worker r.1 r.2 w')
  := by
  simp only [takeJob, Program.ends_bind, Program.ends_state, Program.ensures_lift,
    CThreadPool.takeWorker]
  rintro ⟨job, pool⟩ htake
  by_cases hsize : w.ccRecvThreadPool.curQueueSize = 0
  · rw [if_pos hsize] at htake
    cases htake
    exact .sleeps hworker hsize
  · rw [if_neg hsize] at htake
    cases hqueue : w.ccRecvThreadPool.queue with
    | nil =>
        rw [hqueue] at htake
        cases htake
    | cons job queue =>
        rw [hqueue] at htake
        cases htake
        exact .takes hworker hsize hqueue

theorem workerStep_moves {worker : WorkerState} :
  Program.Ensures (workerStep host worker) w
    (fun r w' => WorkerMoves host w worker r.1 r.2 w')
  := by
  cases worker with
  | atLock => exact takeJob_moves (.inl rfl)
  | waiting => exact takeJob_moves (.inr rfl)
  | atCheck =>
      simp only [workerStep, Program.ends_bind, Program.ends_state, Program.ends_ite,
        Program.ends_pure]
      exact ⟨fun h => .misses (.inl h), fun _ => ⟨fun h => .misses (.inr h), fun h => .finds h⟩⟩
  | atDequeue =>
      simp only [workerStep, dequeueReceived, Program.ends_bind, Program.ends_state,
        Program.ensures_lift]
      rintro ⟨recvBuf, recvQueue⟩ hdequeue
      cases recvBuf with
      | none => exact .loses hdequeue
      | some recvBuf => exact .dequeues hdequeue
  | atHandler recvBuf =>
      simp only [workerStep, Program.ends_bind, Program.ends_pure]
      apply (Program.Ends.returning (Program.ensures_any (fun _ _ => trivial))).mono
      rintro ret w' ⟨-, hdispatch⟩
      exact .handles hdispatch

end

/-- A turn of a connection: one thread moves, and the other is where it was. -/
inductive Moves (c : Connection) : Turn → Option Event → Connection → Prop
  | main {host : Host} {answer : Answer} {e : Option Event} {main : MainState} {w : World}
      (h : MainMoves host answer c.world c.main e main w) :
    Moves c (.main host answer) e ⟨w, main, c.worker⟩
  | worker {host : Host} {e : Option Event} {worker : WorkerState} {w : World}
      (h : WorkerMoves host c.world c.worker e worker w) :
    Moves c (.worker host) e ⟨w, c.main, worker⟩

theorem connectionStep_moves {c c' : Connection} {turn : Turn} {e : Option Event}
    (h : connectionStep c turn = .ok (e, c')) :
  Moves c turn e c'
  := by
  cases turn with
  | main host answer =>
      cases hstep : mainStep host answer c.main c.world with
      | error f =>
          simp only [connectionStep, hstep] at h
          cases h
      | ok r =>
          simp only [connectionStep, hstep] at h
          cases h
          exact .main (Program.ensures_iff.mp mainStep_moves _ _ hstep)
  | worker host =>
      cases hstep : workerStep host c.worker c.world with
      | error f =>
          simp only [connectionStep, hstep] at h
          cases h
      | ok r =>
          simp only [connectionStep, hstep] at h
          cases h
          exact .worker (Program.ensures_iff.mp workerStep_moves _ _ hstep)


/-! ### Reading and writing -/

/-- Nothing differs but what concerns allocation and release. -/
def World.Fetched (w w' : World) : Prop :=
  w' = { w with
    mallocs := w'.mallocs
    nextBuffer := w'.nextBuffer
    released := w'.released
    stale := w'.stale }

/-- What the main thread goes on with when it has read a chunk. -/
inductive GoesOnWith (w : World) (chunk : List UInt8) : MainState → Prop
  | nothing (h : chunk = []) : GoesOnWith w chunk .received
  | short (hpos : 0 < chunk.length) (hshort : chunk.length < 8) : GoesOnWith w chunk .atAddWorker
  | message (h : PassesForMessage chunk) :
    GoesOnWith w chunk (.atEnqueue ⟨w.nextBuffer, some chunk, chunk.length⟩)
  | other (hmin : 8 ≤ chunk.length) (h : ¬ PassesForMessage chunk) : GoesOnWith w chunk .received

section

variable {host : Host} {w : World}

/-- A read that fails is not survived. -/
theorem fetch_failed {read : ReadResult} (hread : read.into (w.mallocs 0) = .failed)
    {Q : MainState → World → Prop} :
  Program.Ensures (fetch host read) w Q
  := by
  have hlength : ¬ ReadResult.failed.length ≤ ptrdiffMax := by decide
  have hmin : ReadResult.failed.length ≥ 8 := by decide
  simp only [fetch, Program.ends_bind, ends_malloc, hread]
  generalize ReadResult.failed.length = n at hlength hmin
  have hne : ¬ n = 0 := by omega
  simp only [Program.ends_ite, hne, false_implies, true_and, hmin, Program.ends_bind,
    ends_allocBufferWithLength, hlength, and_false, if_false, fill, Program.ends_stop,
    implies_true, not_true]

/-- A chunk as long as a header has been read. -/
theorem fetch_long {chunk : List UInt8} (h0 : w.mallocs 0 = true) (hmin : 8 ≤ chunk.length)
    (hmax : chunk.length ≤ ccRecvBufferSize) :
  Program.Ensures (fetch host (.received chunk)) w
    (fun main w' => w.Fetched w' ∧ GoesOnWith w chunk main)
  := by
  have hlength : chunk.length ≤ ptrdiffMax := hmax.trans ccRecvBufferSize_le_ptrdiffMax
  have hne : ¬ chunk.length = 0 := by omega
  simp only [fetch, Program.ends_bind, ends_malloc, h0, ReadResult.into_true, ReadResult.length,
    ReadResult.data, Program.ends_ite, hne, false_implies, true_and, not_false_eq_true,
    true_implies, hmin, ge_iff_le, Program.ends_pure, ends_allocBufferWithLength, hlength,
    and_true, not_true_eq_false, implies_true]
  intro _
  cases h2 : w.mallocs (1 + 1) with
  | false => simp only [Bool.false_eq_true, if_false, fill, Program.ends_stop]
  | true =>
      simp only [if_true, ends_fill_whole List.length_replicate, ends_look_version hmin,
        ends_look_length hmin, ends_freeBuffer, ne_eq, gt_iff_lt, Nat.not_lt]
      have hother : ¬ PassesForMessage chunk → ∀ w', World.Fetched w w' →
          World.Fetched w w' ∧ GoesOnWith w chunk .received :=
        fun h w' hw' => ⟨hw', .other hmin h⟩
      refine ⟨fun hversion => hother (fun h => hversion h.2.1) _ rfl, fun hversion => ⟨?_, ?_⟩⟩
      · intro hlarge
        exact hother (fun h => by have := h.2.2; omega) _ rfl
      · intro hfits
        exact ⟨rfl, .message ⟨hmin, not_not.mp hversion, hfits⟩⟩

theorem fetch_ensures {read : ReadResult} (hmax : read.data.length ≤ ccRecvBufferSize) :
  Program.Ensures (fetch host read) w
    (fun main w' => w.Fetched w' ∧ GoesOnWith w read.data main)
  := by
  cases read with
  | failed =>
      apply fetch_failed
      apply ite_self
  | received chunk =>
      by_cases hnil : chunk = []
      · subst hnil
        have hnothing : (ReadResult.received []).length = 0 := rfl
        simp only [fetch, Program.ends_bind, ends_malloc,
          ReadResult.into_of_length_eq_zero hnothing, if_pos hnothing, Program.ends_pure]
        exact ⟨rfl, .nothing rfl⟩
      have hpos := List.length_pos_iff.mpr hnil
      cases h0 : w.mallocs 0 with
      | false =>
          apply fetch_failed
          rw [h0]
          exact ReadResult.into_false (show 0 < (ReadResult.received chunk).length from hpos)
      | true =>
          by_cases hmin : 8 ≤ chunk.length
          · exact fetch_long h0 hmin hmax
          · have hne : ¬ chunk.length = 0 := by omega
            simp only [fetch, Program.ends_bind, ends_malloc, h0, ReadResult.into_true,
              ReadResult.length, ReadResult.data, hne, if_false, ge_iff_le, hmin,
              Program.ends_pure]
            exact ⟨rfl, .short hpos (Nat.not_le.mp hmin)⟩

/-- The bytes that are handed to `write` for a message: as many as its header says. -/
def Buffer.wire (buf : Buffer) (host : Host) : List UInt8 :=
  bytesAt (buf.memory host) 0 (be16 (buf.memory host) 2).toNat

/-- A round of the loop writes some first part of the message, or all of it if the write takes all
that it is handed; then the loop goes on. -/
theorem flushMessage_ensures {msg : Buffer} :
  Program.Ensures (flushMessage host msg) w (fun stopped w' => ∃ n,
    w' = { w with
      writes := fun i => w.writes (i + 1)
      released := w'.released
      stale := w'.stale
      written := w.written ++ (msg.wire host).take n } ∧
    ((w.writes 0).Completes (msg.wire host) →
      (msg.wire host).length ≤ n ∧ stopped = none))
  := by
  simp only [flushMessage, Program.ends_bind]
  apply ensures_look
  intro len hlen
  obtain rfl := (yields_ntohs 2).returns.mp hlen
  apply ensures_look
  intro bytes hbytes
  obtain rfl := (yields_bcopy 0 _).returns.mp hbytes
  simp only [writeSocket, Program.ends_bind, Program.ends_state, Program.ends_update]
  cases hwrite : w.writes 0 with
  | wrote n =>
      simp only [Program.ends_bind, Program.ends_update, Program.ends_pure, Program.ends_ite,
        ends_freeBuffer]
      exact ⟨fun _ => ⟨n, rfl, fun h => ⟨completes_wrote.mp h, trivial⟩⟩,
        fun _ => ⟨n, rfl, fun h => ⟨completes_wrote.mp h, trivial⟩⟩⟩
  | interrupted =>
      simp only [Program.ends_bind, Program.ends_pure, ends_freeBuffer]
      exact ⟨0, by simp [World.release], fun h => absurd h not_completes_interrupted⟩
  | failed =>
      simp only [Program.ends_bind, Program.ends_pure, ends_freeBuffer]
      exact ⟨0, by simp [World.release], fun h => absurd h not_completes_failed⟩

end

/-! ### What has been seen -/

/-- Of the events, those that `f` picks, as what it picks from them. -/
def eventsOf {α : Type} (f : Event → Option α) (es : List (Option Event)) : List α :=
  es.reduceOption.filterMap f

theorem eventsOf_concat {α : Type} {f : Event → Option α} {es : List (Option Event)}
    {e : Option Event} :
  eventsOf f (es ++ [e]) = eventsOf f es ++ (e.bind f).toList
  := by
  rw [eventsOf, List.reduceOption_append, List.filterMap_append]
  cases e with
  | none => rfl
  | some e =>
      rw [List.reduceOption_singleton]
      cases h : f e with
      | none => simp [eventsOf, h]
      | some a => simp [eventsOf, h]

def Event.chunk : Event → Option (List UInt8)
  | .read chunk => some chunk
  | _ => none

def Event.queuedBuf : Event → Option Buffer
  | .queued buf => some buf
  | _ => none

def Event.dequeuedBuf : Event → Option Buffer
  | .dequeued buf => buf
  | _ => none

/-- A job has found no message. -/
def Event.nothing : Event → Option Unit
  | .dequeued none => some ()
  | _ => none

def Event.handledBuf : Event → Option Buffer
  | .handled buf => some buf
  | _ => none

def Event.flushedMsg : Event → Option Buffer
  | .flushed msg => some msg
  | _ => none

/-- What has been read that is too short for a message. -/
def Event.short (e : Event) : Option Unit :=
  match e.chunk with
  | some chunk => if 0 < chunk.length ∧ chunk.length < 8 then some () else none
  | none => none

end CcController
