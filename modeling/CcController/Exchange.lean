import CcController.Outstanding
import CcController.Rejection
import CcController.Sending
import CcController.XidChains

/-!
# What a connection answers

To the peer a connection is a sequence of exchanges: a message is handled, the xid table goes
over into another one, and some messages are sent. Whatever turns the two threads of the
connection take, it is such a sequence, of the messages handled in their order
(`connection_exchanges`). So the xids that are awaited come from the echo requests of the peer
(`awaited_from_echoRequests`), and every byte that is written belongs to an answer to a message
that has been read (`written_answers_read`).
-/

namespace CcController

/-! ### One message -/

/-- The xid that the handlers read from a message. -/
def Buffer.xidOn (buf : Buffer) (host : Host) : UInt32 :=
  be32 (buf.memory host) 4

/-- The xid that is read from an echo request, which is not converted from network order. -/
def Buffer.hostXid (buf : Buffer) (host : Host) : UInt32 :=
  host.longAt (buf.memory host) 4

/-- The type of a message. -/
def Buffer.typeOn (buf : Buffer) (host : Host) : UInt8 :=
  buf.memory host 1

/-- What is sent when `buf` is handled while the xid table is `t`, and the table after that. -/
inductive Exchange (host : Host) (buf : Buffer) (t : XidTable) : List Buffer → XidTable → Prop
  | nothing : Exchange host buf t [] t
  | hello {hello features : Buffer} (htype : buf.typeOn host = ofptHello)
      (hhello : Created host (buf.xidOn host + 1) ofptHello [] hello)
      (hfeatures : Created host (buf.xidOn host + 2) ofptFeaturesRequest [] features) :
    Exchange host buf t [hello, features] t
  | registered {ok : Bool} {ret : ℤ} {t' : XidTable} (htype : buf.typeOn host = ofptEchoRequest)
      (hsend : ccSendReqXid t (buf.hostXid host) ok host.now = .ok (ret, t')) :
    Exchange host buf t [] t'
  | echoReply {ok : Bool} {ret : ℤ} {t' : XidTable} {reply : Buffer}
      (htype : buf.typeOn host = ofptEchoRequest)
      (hsend : ccSendReqXid t (buf.hostXid host) ok host.now = .ok (ret, t'))
      (hreply : Created host (UInt32.ofInt ret) ofptEchoReply (echoBody host buf) reply) :
    Exchange host buf t [reply] t'
  | replied {ret : ℤ} {t' : XidTable}
      (htype : buf.typeOn host = ofptEchoReply ∨ buf.typeOn host = ofptGetConfigReply)
      (hrecv : ccRecvReplyXid t (buf.xidOn host) host.now = .ok (ret, t')) :
    Exchange host buf t [] t'
  | echoRequest {ret : ℤ} {t' : XidTable} {request : Buffer}
      (htype : buf.typeOn host = ofptEchoReply ∨ buf.typeOn host = ofptGetConfigReply)
      (hrecv : ccRecvReplyXid t (buf.xidOn host) host.now = .ok (ret, t')) (hret : ¬ ret < 0)
      (hrequest : Created host (buf.xidOn host + 1) ofptEchoRequest (echoBody host buf) request) :
    Exchange host buf t [request] t'

section

variable {host : Host} {buf : Buffer} {w : World}

/-- The handler has sent something, in an exchange. -/
def Exchanges (host : Host) (buf : Buffer) (w w' : World) : Prop :=
  ∃ new, w'.sent = w.sent ++ new.map (fun msg => (msg, w'.xidTable)) ∧
    Exchange host buf w.xidTable new w'.xidTable

theorem exchanges_nothing {w' : World} (htable : w'.xidTable = w.xidTable)
    (hsends : w.Sends w' w.xidTable []) :
  Exchanges host buf w w'
  := by
  refine ⟨[], hsends.sent, ?_⟩
  rw [htable]
  exact .nothing

theorem exchanges_hello (htype : buf.typeOn host = ofptHello) :
  Program.Ensures (ccRecvHelloMsg.accept host buf) w (fun _ w' => Exchanges host buf w w')
  := by
  apply ccRecvHelloMsg_answers.mono
  rintro _ w' ⟨-, htable, new, hsends, ⟨-, rfl⟩ | ⟨-, hello, features, rfl, hhello, hfeatures⟩⟩
  · exact exchanges_nothing htable hsends
  · have hnext : ccXidAlloc (be32 (buf.memory host) 4) + 1 = buf.xidOn host + 2 := by
      rw [ccXidAlloc, UInt32.add_assoc]
      rfl
    rw [hnext] at hfeatures
    refine ⟨[hello, features], ?_, ?_⟩
    · rw [htable]
      exact hsends.sent
    · rw [htable]
      exact .hello htype hhello hfeatures

theorem exchanges_echoRequest (htype : buf.typeOn host = ofptEchoRequest) :
  Program.Ensures (ccRecvEchoRequest.accept host buf) w (fun _ w' => Exchanges host buf w w')
  := by
  apply ccRecvEchoRequest_ensures.mono
  rintro _ w' ⟨-, xid, hxid, ret, hsend, new, hsends, hnew⟩
  obtain rfl := returns_hostLong.mp hxid
  use new, hsends.sent
  rcases hnew with rfl | ⟨reply, rfl, hcreated⟩
  · exact .registered htype hsend
  · exact .echoReply htype hsend hcreated

theorem exchanges_echoReply
    (htype : buf.typeOn host = ofptEchoReply ∨ buf.typeOn host = ofptGetConfigReply) :
  Program.Ensures (acceptReplyForEcho host buf) w (fun _ w' => Exchanges host buf w w')
  := by
  apply acceptReplyForEcho_answers.mono
  rintro _ w' ⟨-, ret, hreply, new, hsends, ⟨-, rfl⟩ | ⟨hret, -, request, rfl, hcreated⟩⟩
  · exact ⟨[], hsends.sent, .replied htype hreply⟩
  · exact ⟨[request], hsends.sent, .echoRequest htype hreply hret hcreated⟩

theorem exchanges_error :
  Program.Ensures (ccRecvErrMsg.accept host buf) w (fun _ w' => Exchanges host buf w w')
  := by
  apply ccRecvErrMsg_ensures.mono
  rintro _ w' ⟨-, htable, hsends⟩
  exact exchanges_nothing htable hsends

theorem exchanges_forApp {failed : ℤ → Bool} (hfailed : failed ccEErr = true) :
  Program.Ensures (acceptForApp failed host buf) w (fun _ w' => Exchanges host buf w w')
  := by
  apply (acceptForApp_ensures hfailed).mono
  rintro _ w' ⟨-, htable, hsends⟩
  exact exchanges_nothing htable hsends

/-- The handlers that a message can be given to, by its type. -/
theorem select_eq_some {type : UInt8} {handler : RecvHandler}
    (h : ccRecvOps.select type = some handler) :
  type = ofptHello ∧ handler = ccRecvHelloMsg ∨
    handler = ccRecvErrMsg ∨
    type = ofptEchoRequest ∧ handler = ccRecvEchoRequest ∨
    type = ofptEchoReply ∧ handler = ccRecvEchoReply ∨
    type = ofptGetConfigReply ∧ handler = ccRecvGetConfigReply ∨
    handler = ccRecvVendor ∨ handler = ccRecvFlowRemoved ∨ handler = ccRecvPacketIn ∨
    handler = ccRecvPortStatus
  := by
  simp only [CcRecvOps.select, ccRecvOps] at h
  split_ifs at h <;> cases h <;> simp_all

/-- Handing a message to its handler is an exchange. -/
theorem exchanges_dispatch :
  Program.Ensures (dispatch host buf) w (fun _ w' => Exchanges host buf w w')
  := by
  simp only [dispatch, Program.ends_bind]
  apply ensures_look
  intro type htype
  obtain rfl := Reader.returns_read.mp htype
  cases hselect : ccRecvOps.select (buf.memory host 1) with
  | none => exact exchanges_nothing rfl (World.sends_nil rfl rfl)
  | some handler =>
      have haccept : Program.Ensures (handler.accept host buf) w
          (fun _ w' => Exchanges host buf w w') := by
        rcases select_eq_some hselect with
          ⟨htype, rfl⟩ | rfl | ⟨htype, rfl⟩ | ⟨htype, rfl⟩ | ⟨htype, rfl⟩ | rfl | rfl | rfl | rfl
        · exact exchanges_hello htype
        · exact exchanges_error
        · exact exchanges_echoRequest htype
        · exact exchanges_echoReply (.inl htype)
        · exact exchanges_echoReply (.inr htype)
        · exact exchanges_forApp rfl
        · exact exchanges_forApp rfl
        · exact exchanges_forApp rfl
        · exact exchanges_forApp rfl
      simp only [Program.ends_bind, Program.ends_pure]
      apply RecvHandler.recv_ensures
      · intro _
        exact exchanges_nothing rfl (World.sends_nil rfl rfl)
      · intro _
        exact haccept

end

/-! ### One message after the other -/

/-- What is sent when the messages `bufs` are handled one after the other from an empty xid table
on, for each of them, and the table after that. The handlers are called on machines that are among
`hosts`. -/
inductive Exchanged (hosts : Set Host) : List Buffer → List (List Buffer) → XidTable → Prop
  | start : Exchanged hosts [] [] ccInitXidTable
  | handles {host : Host} {buf : Buffer} {bufs new : List Buffer} {answers : List (List Buffer)}
      {t t' : XidTable} (h : Exchanged hosts bufs answers t) (hhost : host ∈ hosts)
      (hexchange : Exchange host buf t new t') :
    Exchanged hosts (bufs ++ [buf]) (answers ++ [new]) t'

/-- The machines that the thread of the pool runs on. -/
def workerHosts (turns : List Turn) : Set Host :=
  { host | Turn.worker host ∈ turns }

/-- A turn is an exchange, or has nothing to do with the xid table and with what has been sent. -/
inductive ExchangeMoves (w : World) : Turn → Option Event → World → Prop
  | handles {host : Host} {buf : Buffer} {w' : World} (h : Exchanges host buf w w') :
    ExchangeMoves w (.worker host) (some (.handled buf)) w'
  | stays {turn : Turn} {e : Option Event} {w' : World} (he : e.bind Event.handledBuf = none)
      (htable : w'.xidTable = w.xidTable) (hsent : w'.sent = w.sent) : ExchangeMoves w turn e w'

section

variable {c c' : Connection} {turn : Turn} {e : Option Event}

theorem Moves.exchange (h : Moves c turn e c') (hbounded : turn.Bounded) :
  ExchangeMoves c.world turn e c'.world
  := by
  cases h with
  | main hmain =>
      obtain ⟨world, main₀, worker⟩ := c
      cases hmain with
      | goes _ _ _ => exact .stays rfl rfl rfl
      | leaves => exact .stays rfl rfl rfl
      | reads hfetch =>
          obtain ⟨hfetched, -⟩ := Program.ensures_iff.mp (fetch_ensures hbounded) _ _ hfetch
          rw [hfetched]
          exact .stays rfl rfl rfl
      | queues _ => exact .stays rfl rfl rfl
      | adds => exact .stays rfl rfl rfl
      | misses _ => exact .stays rfl rfl rfl
      | drops _ _ => exact .stays rfl rfl rfl
      | writes _ _ hflush =>
          obtain ⟨n, hw, -⟩ := Program.ensures_iff.mp flushMessage_ensures _ _ hflush
          rw [hw]
          exact .stays rfl rfl rfl
  | worker hworker =>
      obtain ⟨world, main, worker₀⟩ := c
      cases hworker with
      | sleeps _ _ => exact .stays rfl rfl rfl
      | takes _ _ _ => exact .stays rfl rfl rfl
      | misses _ => exact .stays rfl rfl rfl
      | finds _ => exact .stays rfl rfl rfl
      | loses _ => exact .stays rfl rfl rfl
      | dequeues _ => exact .stays rfl rfl rfl
      | handles hdispatch =>
          exact .handles (Program.ensures_iff.mp exchanges_dispatch _ _ hdispatch)

end

section

variable {mallocs : ℕ → Bool} {writes : ℕ → WriteResult} {turns : List Turn}
  {es : List (Option Event)} {c : Connection} {hosts : Set Host}

theorem exchanged_run (hbounded : ∀ turn ∈ turns, turn.Bounded)
    (hhosts : workerHosts turns ⊆ hosts)
    (hrun : Machine.run connectionStep (Connection.start mallocs writes) turns = .ok (es, c)) :
  ∃ answers, Exchanged hosts (eventsOf Event.handledBuf es) answers c.world.xidTable ∧
    c.world.sent.map Prod.fst = answers.flatten
  := by
  induction turns using List.reverseRecOn generalizing es c with
  | nil =>
      obtain ⟨rfl, rfl⟩ : [] = es ∧ Connection.start mallocs writes = c := by
        simpa [Machine.run] using hrun
      exact ⟨[], .start, rfl⟩
  | append_singleton turns turn ih =>
      obtain ⟨es', c₁, e, hrun', hstep, rfl⟩ := Machine.run_concat_ok hrun
      have hbefore : workerHosts turns ⊆ hosts := fun host hhost =>
        hhosts (List.mem_append_left [turn] hhost)
      obtain ⟨answers, hexchanged, hsent⟩ :=
        ih (fun t ht => hbounded t (by simp [ht])) hbefore hrun'
      have hmoves := (connectionStep_moves hstep).exchange (hbounded turn (by simp))
      generalize hw : c.world = w at hmoves
      rw [eventsOf_concat]
      cases hmoves with
      | @handles host _ _ h =>
          obtain ⟨new, hnew, hexchange⟩ := h
          have hhost : host ∈ hosts := hhosts (by simp [workerHosts])
          refine ⟨answers ++ [new], hexchanged.handles hhost hexchange, ?_⟩
          rw [hnew, List.map_append, hsent, List.flatten_append, List.flatten_singleton,
            List.map_map]
          congr 1
          exact List.map_id new
      | stays he htable hsent' =>
          use answers
          rw [he, htable, hsent']
          exact ⟨by simpa using hexchanged, hsent⟩

end

/-- Whatever turns its two threads take, a connection is a sequence of exchanges, of the messages
that have been handled in their order, and what it has sent is what these send. -/
theorem connection_exchanges (mallocs : ℕ → Bool) (writes : ℕ → WriteResult) (turns : List Turn)
    (hbounded : ∀ turn ∈ turns, turn.Bounded) (es : List (Option Event)) (c : Connection)
    (hrun : Machine.run connectionStep (Connection.start mallocs writes) turns = .ok (es, c)) :
  ∃ answers, Exchanged (workerHosts turns) (eventsOf Event.handledBuf es) answers
      c.world.xidTable ∧
    c.world.sent.map Prod.fst = answers.flatten
  := exchanged_run hbounded (Set.Subset.refl _) hrun

theorem connection_exchanges_service :
  (∀ turn ∈ serviceTurns, turn.Bounded) ∧
  ∃ es c, Machine.run connectionStep (Connection.start (fun _ => true) (fun _ => .wrote 100))
      serviceTurns = .ok (es, c) ∧
    ∃ answers, Exchanged (workerHosts serviceTurns) (eventsOf Event.handledBuf es) answers
        c.world.xidTable ∧
      c.world.sent.map Prod.fst = answers.flatten
  := ⟨serviceTurns_bounded, _, _, rfl, connection_exchanges (fun _ => true) (fun _ => .wrote 100)
    serviceTurns serviceTurns_bounded _ _ rfl⟩

/-! ### Awaited xids -/

namespace XidTable

variable {t t' : XidTable} {r : ℤ}

/-- An xid that is registered was registered before, or it is the one after `xidPrev`. -/
theorem ccSendReqXid_from (ht : t.Sound) {xidPrev : UInt32} {malloc : Bool} {now : ℤ}
    (hok : ccSendReqXid t xidPrev malloc now = .ok (r, t')) {xid : UInt32}
    (hxid : t'.Registered xid) :
  t.Registered xid ∨ xid = xidPrev + 1
  := by
  obtain ⟨A, h⟩ := ht
  rcases ccSendReqXid_cases h hok with rfl | ⟨-, ret, hinsert⟩
  · exact .inl hxid
  · obtain ⟨e, he, hkey⟩ := (registered_iff (h.insert_ok hinsert).2).mp hxid
    by_cases hi : hashAtom xid = hashAtom (ccXidAlloc xidPrev)
    · rw [hi, Function.update_self] at he
      rcases List.mem_append.mp he with he | he
      · exact .inl ((registered_iff h).mpr ⟨e, hi ▸ he, hkey⟩)
      · cases malloc with
        | false => cases he
        | true =>
            obtain rfl := List.mem_singleton.mp he
            exact .inr hkey.symm
    · rw [Function.update_of_ne hi] at he
      exact .inl ((registered_iff h).mpr ⟨e, he, hkey⟩)

theorem ccRecvReplyXid_from (ht : t.Sound) {xid : UInt32} {now : ℤ}
    (hok : ccRecvReplyXid t xid now = .ok (r, t')) {xid' : UInt32} (hxid : t'.Registered xid') :
  t.Registered xid'
  := by
  obtain ⟨A, h⟩ := ht
  have hi := hashAtom_lt xid
  rcases ccRecvReplyXid_cases h xid now with
    ⟨-, hreply⟩ | ⟨xs, e, ys, prev, next, hentries, -, -, -, hreply⟩
  · rw [hreply] at hok
    cases hok
    exact hxid
  · split at hreply
    · obtain ⟨hashTable, hdelete, hreply⟩ := hreply
      rw [hreply] at hok
      cases hok
      obtain ⟨hashTable', hdelete', h'⟩ := h.deleteByNode hi hentries
      rw [hdelete] at hdelete'
      cases hdelete'
      obtain ⟨e', he', hkey'⟩ := (registered_iff (t := ⟨hashTable, t.count - 1⟩) h').mp hxid
      apply (registered_iff h).mpr
      use e'
      refine ⟨?_, hkey'⟩
      by_cases hsame : hashAtom xid' = hashAtom xid
      · rw [hsame, Function.update_self] at he'
        rw [hsame, hentries]
        rcases List.mem_append.mp he' with he' | he'
        · exact List.mem_append_left _ he'
        · exact List.mem_append_right _ (List.mem_cons_of_mem e he')
      · rw [Function.update_of_ne hsame] at he'
        exact he'
    · rw [hreply] at hok
      cases hok
      exact hxid

end XidTable

section

variable {host : Host} {buf : Buffer} {t t' : XidTable} {new : List Buffer}

/-- An exchange keeps the table chained. -/
theorem Exchange.chained (h : Exchange host buf t new t') (ht : t.Chained) :
  t'.Chained
  := by
  cases h with
  | nothing => exact ht
  | hello _ _ _ => exact ht
  | registered _ hsend => exact XidTable.ccSendReqXid_chained ht hsend
  | echoReply _ hsend _ => exact XidTable.ccSendReqXid_chained ht hsend
  | replied _ hrecv => exact XidTable.ccRecvReplyXid_chained ht hrecv
  | echoRequest _ hrecv _ _ => exact XidTable.ccRecvReplyXid_chained ht hrecv

theorem XidTable.Chained.sound (ht : t.Chained) :
  t.Sound
  := by
  obtain ⟨A, h, -⟩ := ht
  exact ⟨A, h⟩

/-- An exchange registers no xid but the one after that of an echo request. -/
theorem Exchange.registers (h : Exchange host buf t new t') (ht : t.Sound) {xid : UInt32}
    (hxid : t'.Registered xid) :
  t.Registered xid ∨ buf.typeOn host = ofptEchoRequest ∧ xid = buf.hostXid host + 1
  := by
  cases h with
  | nothing => exact .inl hxid
  | hello _ _ _ => exact .inl hxid
  | registered htype hsend =>
      exact (XidTable.ccSendReqXid_from ht hsend hxid).imp_right (fun hnext => ⟨htype, hnext⟩)
  | echoReply htype hsend _ =>
      exact (XidTable.ccSendReqXid_from ht hsend hxid).imp_right (fun hnext => ⟨htype, hnext⟩)
  | replied _ hrecv => exact .inl (XidTable.ccRecvReplyXid_from ht hrecv hxid)
  | echoRequest _ hrecv _ _ => exact .inl (XidTable.ccRecvReplyXid_from ht hrecv hxid)

variable {hosts : Set Host} {bufs : List Buffer} {answers : List (List Buffer)}

theorem Exchanged.chained (h : Exchanged hosts bufs answers t) :
  t.Chained
  := by
  induction h with
  | start => exact ⟨_, HashTable.lies_init, HashTable.distinct_init⟩
  | handles _ _ hexchange ih => exact hexchange.chained ih

theorem Exchanged.registered (h : Exchanged hosts bufs answers t) {xid : UInt32}
    (hxid : t.Registered xid) :
  ∃ host ∈ hosts, ∃ buf ∈ bufs, buf.typeOn host = ofptEchoRequest ∧ xid = buf.hostXid host + 1
  := by
  induction h with
  | start => exact absurd hxid (not_registered_init xid)
  | @handles host buf bufs _ _ _ _ h hhost hexchange ih =>
      rcases hexchange.registers h.chained.sound hxid with hbefore | ⟨htype, hnext⟩
      · obtain ⟨host', hhost', buf', hbuf', h'⟩ := ih hbefore
        exact ⟨host', hhost', buf', List.mem_append_left _ hbuf', h'⟩
      · exact ⟨host, hhost, buf, by simp, htype, hnext⟩

end

/-- In every state that a connection reaches the xid table is well formed, and each xid that is
registered is the one after that of an echo request of the peer, as the machine reads it. -/
theorem awaited_from_echoRequests (mallocs : ℕ → Bool) (writes : ℕ → WriteResult)
    (turns : List Turn) (hbounded : ∀ turn ∈ turns, turn.Bounded) (es : List (Option Event))
    (c : Connection)
    (hrun : Machine.run connectionStep (Connection.start mallocs writes) turns = .ok (es, c)) :
  (∃ chain, c.world.xidTable.hashTable.WellFormed chain) ∧
  ∀ xid, c.world.xidTable.Registered xid →
    ∃ host ∈ workerHosts turns, ∃ buf ∈ eventsOf Event.handledBuf es,
      buf.typeOn host = ofptEchoRequest ∧ xid = buf.hostXid host + 1
  := by
  obtain ⟨answers, hexchanged, -⟩ := exchanged_run hbounded (Set.Subset.refl _) hrun
  obtain ⟨A, h, hA⟩ := hexchanged.chained
  exact ⟨⟨_, h.wellFormed hA⟩, fun _ => hexchanged.registered⟩

/-- An echo request with the xid 7 is read and handled. -/
def echoTurns : List Turn :=
  readTurns [1, 2, 0, 8, 0, 0, 0, 7] ++ List.replicate 4 (.worker (Host.plain true))

theorem echoTurns_bounded :
  ∀ turn ∈ echoTurns, turn.Bounded
  := by
  intro turn hturn
  rcases List.mem_append.mp hturn with hturn | hturn
  · exact readTurns_bounded (by decide) turn hturn
  · obtain rfl := List.eq_of_mem_replicate hturn
    trivial

/-- The xid after 7 is registered, where 7 has been read as the little-endian machine does. -/
theorem awaited_from_echoRequests_echo :
  (∀ turn ∈ echoTurns, turn.Bounded) ∧
  ∃ es c, Machine.run connectionStep (Connection.start (fun _ => true) (fun _ => .wrote 100))
      echoTurns = .ok (es, c) ∧
    c.world.xidTable.Registered 0x07000001 ∧
    (∃ chain, c.world.xidTable.hashTable.WellFormed chain) ∧
    ∀ xid, c.world.xidTable.Registered xid →
      ∃ host ∈ workerHosts echoTurns, ∃ buf ∈ eventsOf Event.handledBuf es,
        buf.typeOn host = ofptEchoRequest ∧ xid = buf.hostXid host + 1
  := ⟨echoTurns_bounded, _, _, rfl, ⟨_, rfl⟩, awaited_from_echoRequests (fun _ => true)
    (fun _ => .wrote 100) echoTurns echoTurns_bounded _ _ rfl⟩

/-! ### From what is read to what is written -/

theorem Carry.take {bufs bufs' : List Buffer} {msgs : List (List UInt8)}
    (h : Carry (bufs ++ bufs') msgs) :
  Carry bufs (msgs.take bufs.length)
  := by
  have htake := congrArg (List.take bufs.length) h
  rw [List.map_append, List.take_left' (List.length_map _)] at htake
  rw [Carry, htake, List.map_take]

/-- In every state that a connection reaches: the messages handled are the first of those that have
been read, in order; they are answered in a sequence of exchanges; and what has been written behind
the greeting is, one after the other, some first part of each of the first answers. -/
theorem written_answers_read (mallocs : ℕ → Bool) (writes : ℕ → WriteResult) (turns : List Turn)
    (hbounded : ∀ turn ∈ turns, turn.Bounded) (es : List (Option Event)) (c : Connection)
    (hrun : Machine.run connectionStep (Connection.start mallocs writes) turns = .ok (es, c)) :
  Carry (eventsOf Event.handledBuf es) (((eventsOf Event.chunk es).filter
      (fun chunk => PassesForMessage chunk)).take (eventsOf Event.handledBuf es).length) ∧
  ∃ answers pieces,
    Exchanged (workerHosts turns) (eventsOf Event.handledBuf es) answers c.world.xidTable ∧
    List.Forall₂ (fun msg piece => piece <+: msg.block) (answers.flatten.take pieces.length)
      pieces ∧
    c.world.written = pieces.flatten
  := by
  obtain ⟨bufs, hconserves⟩ := conserves_run hbounded hrun
  obtain ⟨msgs, lost, htransmits, -⟩ := transmits_run hbounded hrun
  obtain ⟨answers, hexchanged, hsent⟩ := exchanged_run hbounded (Set.Subset.refl _) hrun
  obtain ⟨pieces, hwritten, hpieces⟩ := htransmits.written
  refine ⟨?_, answers, pieces, hexchanged, ?_, hwritten⟩
  · have hpassed := hconserves.passed
    rw [hconserves.queued, hconserves.dequeued, List.append_assoc, List.append_assoc] at hpassed
    exact hpassed.take
  · rw [← hsent, htransmits.sent, List.take_left' hpieces.length_eq]
    exact hpieces

theorem written_answers_read_service :
  (∀ turn ∈ serviceTurns, turn.Bounded) ∧
  ∃ es c, Machine.run connectionStep (Connection.start (fun _ => true) (fun _ => .wrote 100))
      serviceTurns = .ok (es, c) ∧
    Carry (eventsOf Event.handledBuf es) (((eventsOf Event.chunk es).filter
        (fun chunk => PassesForMessage chunk)).take (eventsOf Event.handledBuf es).length) ∧
    ∃ answers pieces,
      Exchanged (workerHosts serviceTurns) (eventsOf Event.handledBuf es) answers
        c.world.xidTable ∧
      List.Forall₂ (fun msg piece => piece <+: msg.block) (answers.flatten.take pieces.length)
        pieces ∧
      c.world.written = pieces.flatten
  := ⟨serviceTurns_bounded, _, _, rfl, written_answers_read (fun _ => true)
    (fun _ => .wrote 100) serviceTurns serviceTurns_bounded _ _ rfl⟩

end CcController
