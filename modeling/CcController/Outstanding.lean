import CcController.HostOrder
import CcController.RequestXids

/-!
# Outstanding xids

Which xids are in the xid table of a connection can be told from the messages that have come
in: an accepted echo request puts in the xid after its own, and an accepted reply that is timely
takes its own out (`enlists_run`). The handlers that send a request do not register its xid. So
the requests on the send queue are matched with their replies just as far as the messages lead
to xids that are outstanding anyhow (`requests_matched_iff`).
-/

namespace CcController

/-- The xid that is read from an echo request, which is not converted from network order. -/
def Arrival.hostXid (a : Arrival) : UInt32 :=
  a.host.longAt (a.message.memory a.host) 4

open Classical in
/-- What a message does to the xids that are outstanding. -/
noncomputable def outstandingStep (o : Awaited) (a : Arrival) : Awaited :=
  if a.handler = ccRecvEchoRequest ∧ a.Accepted then
    -- the next xid, unless it is outstanding or there is no memory for a node
    (awaitStep o (.ccSendReqXid a.hostXid (a.mallocs 0) a.host.now)).2
  else if a.handler ∈ ccReplyHandlers ∧ a.Accepted then o.replied a.xid a.host.now
  else o

/-- The xids that are outstanding after the messages, with the second each was registered in. -/
noncomputable def outstanding (arrivals : List Arrival) : Awaited :=
  arrivals.foldl outstandingStep []

/-- The message `a` that comes after `earlier` is answered with a request, and what its xid
makes the xid of that. -/
inductive Arrival.AsksAfter (earlier : List Arrival) (a : Arrival) : UInt32 → Prop where
  | features (handler : a.handler = ccRecvHelloMsg) (accepted : a.Accepted)
      (header : a.mallocs 2 = true) : AsksAfter earlier a (a.host.wireXid (a.xid + 2))
  | echo (handler : a.handler = ccRecvEchoReply ∨ a.handler = ccRecvGetConfigReply)
      (accepted : a.Accepted) (outstanding : (outstanding earlier).since a.xid ≠ none)
      (header : a.mallocs 2 = true) : AsksAfter earlier a (a.host.wireXid (a.xid + 1))

/-- As long as the run goes on, a message that is answered with a request leads to an xid that
is outstanding after it. -/
def AsksOutstanding (w : World) (arrivals : List Arrival) : Prop :=
  ∀ pre a, pre ++ [a] <+: arrivals →
    (∃ rets w', Machine.run arrivalStep w (pre ++ [a]) = .ok (rets, w')) →
    ∀ xid, a.AsksAfter pre xid → (outstanding (pre ++ [a])).since xid ≠ none

/-! ### The handlers that concern the xid table -/

/-- What a handler makes of small messages of these types: whether it rejects them; and, for an
error message about a flow modification, whether it returns when it has accepted it. -/
def RecvHandler.responses (handler : RecvHandler) : List (Option Bool) × Bool :=
  let blocks : List (List UInt8) := [
    [1, 1, 0, 12, 0, 0, 0, 7, 0, 3, 0, 0], [1, 2, 0, 8, 0, 0, 0, 7], [1, 3, 0, 8, 0, 0, 0, 7],
    [1, 8, 0, 12, 0, 0, 0, 7, 0, 0, 0, 128], [1, 17, 0, 12, 0, 0, 0, 7, 0, 1, 0, 0],
    [1, 19, 0, 8, 0, 0, 0, 7]]
  (blocks.map fun block =>
    ((handler.validate (some block.length)).run 1 (memoryOf block (fun _ => 0))).2.map (· < 0),
    (handler.accept (Host.plain true)
      ⟨0, some [1, 1, 0, 12, 0, 0, 0, 7, 0, 3, 0, 0], 12⟩ World.start).isOk)

/-- The handlers that leave the xid table alone. -/
def ccOtherHandlers : List RecvHandler :=
  [ccRecvHelloMsg, ccRecvErrMsg, ccRecvVendor, ccRecvFlowRemoved, ccRecvPacketIn,
    ccRecvPortStatus]

theorem ccOtherHandlers_disjoint {handler : RecvHandler} (h : handler ∈ ccOtherHandlers) :
  handler ∉ ccRecvEchoRequest :: ccReplyHandlers
  := by
  have hdiffers : ∀ handler ∈ ccOtherHandlers, ∀ other ∈ ccRecvEchoRequest :: ccReplyHandlers,
      handler.responses ≠ other.responses := by
    decide
  exact fun hmem => hdiffers handler h handler hmem rfl

section

variable {o : Awaited} {a : Arrival}

theorem outstandingStep_rejected (h : ¬ a.Accepted) :
  outstandingStep o a = o
  := by
  simp [outstandingStep, h]

theorem outstandingStep_other (h : a.handler ∈ ccOtherHandlers) :
  outstandingStep o a = o
  := by
  obtain ⟨hrequest, hreply⟩ := not_or.mp (List.mem_cons.not.mp (ccOtherHandlers_disjoint h))
  simp [outstandingStep, hrequest, hreply]

theorem outstandingStep_echoRequest (h : a.handler = ccRecvEchoRequest) (haccepted : a.Accepted) :
  outstandingStep o a = (awaitStep o (.ccSendReqXid a.hostXid (a.mallocs 0) a.host.now)).2
  := if_pos ⟨h, haccepted⟩

theorem outstandingStep_reply (h : a.handler ∈ ccReplyHandlers) (haccepted : a.Accepted) :
  outstandingStep o a = o.replied a.xid a.host.now
  := by
  have hne : a.handler ≠ ccRecvEchoRequest := by
    intro heq
    have hdiffers : ∀ other ∈ ccReplyHandlers, other.responses ≠ ccRecvEchoRequest.responses := by
      decide
    exact hdiffers _ h (congrArg RecvHandler.responses heq)
  rw [outstandingStep, if_neg (fun h => hne h.1), if_pos ⟨h, haccepted⟩]

end

/-! ### One message -/

theorem returns_hostLong {host : Host} {p : ℕ} {mem : Memory} {v : UInt32} :
  (hostLong host p).Returns mem v ↔ v = host.longAt mem p
  := by
  simp only [hostLong, Reader.returns_bind, Reader.returns_pure, (yields_bcopy p 4).returns,
    exists_eq_left]
  rfl

section

variable {w w' : World} {a : Arrival} {o : Awaited} {A : ℕ → Bucket}

/-- The xid table has the xids that are outstanding after the message. -/
def EnlistsAfter (o : Awaited) (a : Arrival) (w' : World) : Prop :=
  ∃ A, w'.xidTable.Enlists (outstandingStep o a) A

/-- The message does not concern the xid table. -/
theorem enlists_other (h : w.xidTable.Enlists o A) (hother : a.handler ∈ ccOtherHandlers)
    (htable : w'.xidTable = w.xidTable) :
  EnlistsAfter o a w'
  := by
  use A
  rw [htable, outstandingStep_other hother]
  exact h

theorem enlists_reply (h : w.xidTable.Enlists o A) (hhandler : a.handler ∈ ccReplyHandlers)
    (haccepted : a.Accepted)
    (hreply : ∃ ret, ccRecvReplyXid w.xidTable a.xid a.host.now = .ok (ret, w'.xidTable)) :
  EnlistsAfter o a w'
  := by
  obtain ⟨ret, hreply⟩ := hreply
  rw [EnlistsAfter, outstandingStep_reply hhandler haccepted]
  exact (ccRecvReplyXid_enlists h hreply).2.2

theorem enlists_echoRequest (h : w.xidTable.Enlists o A) (hhandler : a.handler = ccRecvEchoRequest)
    (haccepted : a.Accepted) :
  Program.Ensures (ccRecvEchoRequest.accept a.host a.message) { w with mallocs := a.mallocs }
    (fun _ w' => EnlistsAfter o a w')
  := by
  apply ccRecvEchoRequest_ensures.mono
  rintro _ w' ⟨-, xid, hxid, ret, hsend, -⟩
  obtain rfl := returns_hostLong.mp hxid
  rw [EnlistsAfter, outstandingStep_echoRequest hhandler haccepted]
  exact (ccSendReqXid_enlists h hsend).2.2

/-- A handler does to the xid table what its message does to the xids that are outstanding. -/
theorem arrivalStep_enlists (hhandler : a.handler ∈ ccRecvHandlers)
    (h : w.xidTable.Enlists o A) {ret : ℤ} (hstep : arrivalStep w a = .ok (ret, w')) :
  EnlistsAfter o a w'
  := by
  apply arrivalStep_cases _ _ hstep
  · intro hrejected
    use A
    rw [outstandingStep_rejected hrejected]
    exact h
  · intro haccepted
    obtain ⟨handler, message, host, mallocs⟩ := a
    simp only [ccRecvHandlers, List.mem_cons, List.not_mem_nil, or_false] at hhandler
    rcases hhandler with rfl | rfl | rfl | rfl | rfl | rfl | rfl | rfl | rfl | rfl | rfl | rfl | rfl
    · exact ccRecvHelloMsg_ensures.mono fun _ _ hw =>
        enlists_other h (by simp [ccOtherHandlers]) hw.2.1
    · exact ccRecvErrMsg_ensures.mono fun _ _ hw =>
        enlists_other h (by simp [ccOtherHandlers]) hw.2.1
    · exact enlists_echoRequest h rfl haccepted
    · apply acceptReplyForEcho_ensures.mono
      rintro _ w' ⟨-, ret, hreply, -⟩
      exact enlists_reply h (by simp [ccReplyHandlers]) haccepted ⟨ret, hreply⟩
    · exact (acceptForApp_ensures rfl).mono fun _ _ hw =>
        enlists_other h (by simp [ccOtherHandlers]) hw.2.1
    · apply acceptReplyForEcho_ensures.mono
      rintro _ w' ⟨-, ret, hreply, -⟩
      exact enlists_reply h (by simp [ccReplyHandlers]) haccepted ⟨ret, hreply⟩
    · exact (acceptForApp_ensures rfl).mono fun _ _ hw =>
        enlists_other h (by simp [ccOtherHandlers]) hw.2.1
    · exact acceptReplyForApp_ensures.mono fun _ _ hw =>
        enlists_reply h (by simp [ccReplyHandlers]) haccepted hw.1
    · exact ccRecvFeaturesReply_ensures.mono fun _ _ hw =>
        enlists_reply h (by simp [ccReplyHandlers]) haccepted hw.2.1
    · exact (acceptForApp_ensures rfl).mono fun _ _ hw =>
        enlists_other h (by simp [ccOtherHandlers]) hw.2.1
    · exact (acceptForApp_ensures rfl).mono fun _ _ hw =>
        enlists_other h (by simp [ccOtherHandlers]) hw.2.1
    · exact acceptReplyForApp_ensures.mono fun _ _ hw =>
        enlists_reply h (by simp [ccReplyHandlers]) haccepted hw.1
    · exact acceptReplyForApp_ensures.mono fun _ _ hw =>
        enlists_reply h (by simp [ccReplyHandlers]) haccepted hw.1

/-- The requests among the messages that are sent have the xids that the message leads to. -/
theorem arrivalStep_requests (hhandler : a.handler ∈ ccRecvHandlers) (hsound : w.xidTable.Sound)
    {ret : ℤ} (hstep : arrivalStep w a = .ok (ret, w')) :
  ∃ new : List Buffer, w'.sent = w.sent ++ new.map (fun buf => (buf, w'.xidTable)) ∧
    ∀ xid, (∃ buf ∈ new, buf.IsRequest ∧ buf.xid = xid) ↔ a.Asks w xid
  := by
  obtain ⟨-, -, new, hnew⟩ := arrivalStep_answers hhandler hsound hstep
  obtain ⟨xids, hxids, -, hasks⟩ := arrivalStep_leads hhandler hsound hstep
  use new, hnew
  intro xid
  rw [hnew, requestXids_append, List.append_cancel_left_eq] at hxids
  rw [← hasks, ← hxids]
  simp [requestXids, and_assoc]

theorem asksAfter_iff {earlier : List Arrival} (h : w.xidTable.Enlists (outstanding earlier) A)
    {xid : UInt32} :
  a.AsksAfter earlier xid ↔ a.Asks w xid
  := by
  constructor
  · rintro (⟨hhandler, haccepted, hok⟩ | ⟨hhandler, haccepted, hout, hok⟩)
    · exact .features hhandler haccepted hok
    · exact .echo hhandler haccepted (h.registered_iff.mpr hout) hok
  · rintro (⟨hhandler, haccepted, hok⟩ | ⟨hhandler, haccepted, hregistered, hok⟩)
    · exact .features hhandler haccepted hok
    · exact .echo hhandler haccepted (h.registered_iff.mp hregistered) hok

end

/-! ### Runs -/

section

variable {w w' : World} {arrivals : List Arrival} {rets : List ℤ}

/-- In a run from an empty xid table the table has the xids that are outstanding. -/
theorem enlists_run (htable : w.xidTable = ccInitXidTable)
    (hhandlers : ∀ a ∈ arrivals, a.handler ∈ ccRecvHandlers)
    (hrun : Machine.run arrivalStep w arrivals = .ok (rets, w')) :
  ∃ A, w'.xidTable.Enlists (outstanding arrivals) A
  := by
  induction arrivals using List.reverseRecOn generalizing rets w' with
  | nil =>
      obtain ⟨-, rfl⟩ : [] = rets ∧ w = w' := by simpa [Machine.run] using hrun
      rw [htable]
      exact ⟨_, XidTable.enlists_init⟩
  | append_singleton arrivals a ih =>
      obtain ⟨rets', w₀, ret, hrun', hstep, -⟩ := Machine.run_concat_ok hrun
      obtain ⟨A, h⟩ := ih (fun b hb => hhandlers b (by simp [hb])) hrun'
      rw [outstanding, List.foldl_concat]
      exact arrivalStep_enlists (hhandlers a (by simp)) h hstep

/-- If the messages lead to outstanding xids only, the requests sent were registered. -/
theorem registered_of_outstanding (hsent : w.sent = []) (htable : w.xidTable = ccInitXidTable)
    (hhandlers : ∀ a ∈ arrivals, a.handler ∈ ccRecvHandlers) (hasks : AsksOutstanding w arrivals)
    (hrun : Machine.run arrivalStep w arrivals = .ok (rets, w')) :
  ∀ p ∈ w'.sent, p.1.IsRequest → p.2.Registered p.1.xid
  := by
  induction arrivals using List.reverseRecOn generalizing rets w' with
  | nil =>
      obtain ⟨-, rfl⟩ : [] = rets ∧ w = w' := by simpa [Machine.run] using hrun
      simp [hsent]
  | append_singleton arrivals a ih =>
      obtain ⟨rets', w₀, ret, hrun', hstep, -⟩ := Machine.run_concat_ok hrun
      have hearlier : ∀ b ∈ arrivals, b.handler ∈ ccRecvHandlers :=
        fun b hb => hhandlers b (by simp [hb])
      obtain ⟨A, h⟩ := enlists_run htable hearlier hrun'
      obtain ⟨A', h'⟩ := enlists_run htable hhandlers hrun
      obtain ⟨new, hnew, hxids⟩ := arrivalStep_requests (hhandlers a (by simp)) ⟨A, h.lies⟩ hstep
      intro p hp hrequest
      rw [hnew] at hp
      rcases List.mem_append.mp hp with hp | hp
      · have hasks' : AsksOutstanding w arrivals := fun pre b hpre =>
          hasks pre b (hpre.trans (List.prefix_append _ _))
        exact ih hearlier hasks' hrun' p hp hrequest
      · obtain ⟨buf, hbuf, rfl⟩ := List.mem_map.mp hp
        apply h'.registered_iff.mpr
        apply hasks arrivals a (List.prefix_refl _) ⟨rets, w', hrun⟩
        exact (asksAfter_iff h).mpr ((hxids _).mp ⟨buf, hbuf, hrequest, rfl⟩)

end

/-- In every run of the handlers from an empty xid table, every request sent has a registered xid
and its first reply within the timeout is not rejected, exactly if every message that is
answered with a request leads to an xid that is outstanding. -/
theorem requests_matched_iff (w : World) (hsent : w.sent = [])
    (htable : w.xidTable = ccInitXidTable) (arrivals : List Arrival)
    (hhandlers : ∀ a ∈ arrivals, a.handler ∈ ccRecvHandlers) :
  RequestsMatched w arrivals ↔ AsksOutstanding w arrivals
  := by
  constructor
  · rintro hmatched pre a hpre ⟨rets, w', hrun⟩ xid hasks
    have hsub := hpre.subset
    obtain ⟨rets', w₀, ret, hrun', hstep, -⟩ := Machine.run_concat_ok hrun
    obtain ⟨A, h⟩ := enlists_run htable (fun b hb => hhandlers b (hsub (by simp [hb]))) hrun'
    obtain ⟨A', h'⟩ := enlists_run htable (fun b hb => hhandlers b (hsub hb)) hrun
    obtain ⟨new, hnew, hxids⟩ :=
      arrivalStep_requests (hhandlers a (hsub (by simp))) ⟨A, h.lies⟩ hstep
    obtain ⟨buf, hbuf, hrequest, rfl⟩ := (hxids xid).mpr ((asksAfter_iff h).mp hasks)
    apply h'.registered_iff.mp
    apply hmatched.registered (pre ++ [a]) hpre rets w' hrun (buf, w'.xidTable) _ hrequest
    rw [hnew]
    exact List.mem_append_right _ (List.mem_map_of_mem hbuf)
  · intro hasks
    have hregistered : ∀ pre, pre <+: arrivals → ∀ rets w',
        Machine.run arrivalStep w pre = .ok (rets, w') →
        ∀ p ∈ w'.sent, p.1.IsRequest → p.2.Registered p.1.xid := by
      intro pre hpre rets w' hrun
      exact registered_of_outstanding hsent htable (fun b hb => hhandlers b (hpre.subset hb))
        (fun pre' b hpre' => hasks pre' b (hpre'.trans hpre)) hrun
    refine ⟨hregistered, ?_⟩
    intro pre a mid hpre rets w₀ hrun₀ r w₁ new hstep hnew rets' w₂ hrun₂ p hp hrequest hreplies
      now _ _
    have hsub := hpre.subset
    have hnext : pre ++ [a] <+: arrivals :=
      List.IsPrefix.trans ⟨mid, by rw [List.append_assoc, List.singleton_append]⟩ hpre
    have hrun₁ : Machine.run arrivalStep w (pre ++ [a]) = .ok (rets ++ [r], w₁) := by
      rw [Machine.run_append hrun₀, Machine.run_cons hstep]
      rfl
    obtain ⟨A₀, h₀⟩ := enlists_run htable (fun b hb => hhandlers b (hsub (by simp [hb]))) hrun₀
    obtain ⟨A₁, h₁⟩ := enlists_run htable (fun b hb => hhandlers b (hnext.subset hb)) hrun₁
    -- the request was registered in the table that the run goes on with
    obtain ⟨bufs, hbufs, -⟩ :=
      arrivalStep_requests (hhandlers a (hsub (by simp))) ⟨A₀, h₀.lies⟩ hstep
    rw [hnew] at hbufs
    obtain ⟨buf, -, rfl⟩ := List.mem_map.mp (List.append_cancel_left hbufs ▸ hp)
    have hfirst := hregistered _ hnext _ _ hrun₁ (buf, w₁.xidTable) (by rw [hnew]; simp [hp])
      hrequest
    obtain ⟨hsound₂, hstill⟩ := registered_run ⟨A₁, h₁.lies⟩ hfirst
      (fun b hb => hhandlers b (hsub (by simp [hb]))) hreplies hrun₂
    obtain ⟨ret, xidTable, hreply, hiff, -⟩ :=
      XidTable.ccRecvReplyXid_registered hsound₂ buf.xid now
    exact ⟨ret, xidTable, hreply, hiff.mpr hstill⟩

theorem outstanding_echoArrival :
  outstanding [echoArrival] = [(7, 0)]
  := outstandingStep_echoRequest rfl ⟨0, ⟨0, by decide⟩, by decide⟩

/-- An echo request registers the xid that the features request after a hello then has. -/
theorem requests_matched_registered :
  RequestsMatched World.start [echoArrival, helloArrival]
  := by
  apply (requests_matched_iff World.start rfl rfl [echoArrival, helloArrival]
    (by simp [echoArrival, helloArrival, ccRecvHandlers])).mpr
  intro pre a hpre _ xid hasks
  have hconcat : pre ++ [a] <+: [echoArrival] ++ [helloArrival] := hpre
  rcases List.prefix_concat_iff.mp hconcat with heq | hpre
  · obtain ⟨rfl, hlast⟩ := List.append_inj' heq rfl
    obtain rfl := List.singleton_inj.mp hlast
    have hxid : xid = 7 := by
      rcases hasks with ⟨-, -, -⟩ | ⟨hhandler, -, -, -⟩
      · decide
      · have hno : ccRecvHelloMsg.rejections ≠ ccRecvEchoReply.rejections ∧
            ccRecvHelloMsg.rejections ≠ ccRecvGetConfigReply.rejections := by decide
        rcases hhandler with h | h
        · exact absurd (congrArg RecvHandler.rejections h) hno.1
        · exact absurd (congrArg RecvHandler.rejections h) hno.2
    rw [outstanding, List.foldl_concat, ← outstanding, outstanding_echoArrival,
      outstandingStep_other (by simp [helloArrival, ccOtherHandlers]), hxid]
    decide
  · obtain ⟨rfl, hlast⟩ : pre = [] ∧ a = echoArrival := by
      have hsingle : pre ++ [a] <+: [] ++ [echoArrival] := hpre
      rcases List.prefix_concat_iff.mp hsingle with heq | hnil
      · obtain ⟨rfl, hlast⟩ := List.append_inj' heq rfl
        exact ⟨rfl, List.singleton_inj.mp hlast⟩
      · simp at hnil
    subst hlast
    have henlists : World.start.xidTable.Enlists (outstanding []) (fun _ => ⟨false, []⟩) :=
      XidTable.enlists_init
    have hasks' : echoArrival.Asks World.start xid := (asksAfter_iff henlists).mp hasks
    exact absurd hasks' (not_asks rfl xid)

/-- On a fresh connection the features request after a hello has an xid that is not
registered. -/
theorem requests_unregistered :
  ¬ ∀ (w : World) (arrivals : List Arrival), w.sent = [] → w.xidTable = ccInitXidTable →
    (∀ a ∈ arrivals, a.handler ∈ ccRecvHandlers) → RequestsMatched w arrivals
  := by
  intro h
  have hmatched := h World.start [helloArrival] rfl rfl
    (by simp [helloArrival, ccRecvHandlers])
  have hrun : (Machine.run arrivalStep World.start [helloArrival]).map (fun r =>
      r.2.sent.map (fun p => (p.1.data, hashSearch p.2.hashTable p.1.xid)))
      = .ok [(some [1, 0, 0, 8, 0, 0, 0, 6], .ok (ccEErr, none)),
          (some [1, 5, 0, 8, 0, 0, 0, 7], .ok (ccEErr, none))] := rfl
  cases hrets : Machine.run arrivalStep World.start [helloArrival] with
  | error f =>
      rw [hrets] at hrun
      cases hrun
  | ok r =>
      rw [hrets] at hrun
      have hsent : r.2.sent.map (fun p => (p.1.data, hashSearch p.2.hashTable p.1.xid)) = _ :=
        Except.ok.inj hrun
      have hmem : (some [1, 5, 0, 8, 0, 0, 0, 7], .ok (ccEErr, none))
          ∈ r.2.sent.map (fun p => (p.1.data, hashSearch p.2.hashTable p.1.xid)) := by
        rw [hsent]
        simp
      obtain ⟨p, hp, heq⟩ := List.mem_map.mp hmem
      obtain ⟨hdata, hsearch⟩ := Prod.mk.inj heq
      obtain ⟨node, hnode⟩ := hmatched.registered [helloArrival] (List.prefix_refl _) r.1 r.2 hrets
        p hp (.inl ⟨_, hdata, rfl⟩)
      rw [hsearch] at hnode
      cases hnode

end CcController
