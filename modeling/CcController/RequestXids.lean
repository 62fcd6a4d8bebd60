import CcController.Requests

/-!
# The xids of requests

Two requests on one connection should have different xids. A handler makes the xid of a
request from the xid of the message it answers, which the peer has chosen: a features request
has the xid after next of a hello, an echo request the next xid of a reply. What
`xid_latest` was before plays no part, because every handler sets it anew. So the xids are
different as long as the peer's messages lead to different ones (`requestXids_nodup_iff`).
-/

namespace CcController

instance (buf : Buffer) (type : UInt8) : Decidable (buf.HasType type) :=
  decidable_of_iff (buf.data.bind (fun block => block[1]?) = some type) Option.bind_eq_some_iff

instance : DecidablePred Buffer.IsRequest :=
  fun buf => inferInstanceAs (Decidable (buf.HasType _ ∨ buf.HasType _))

/-- The xids of the requests among messages on the send queue. -/
def requestXids (sent : List (Buffer × XidTable)) : List UInt32 :=
  (sent.filter (fun p => p.1.IsRequest)).map (fun p => p.1.xid)

/-- The message `a` that comes in is answered with a request, and what its xid makes the xid of
that: a hello with the xid `x` leads to `x + 2`, a reply with the registered xid `x` to
`x + 1`. -/
inductive Arrival.Asks (w : World) (a : Arrival) : UInt32 → Prop where
  | features (handler : a.handler = ccRecvHelloMsg) (accepted : a.Accepted)
      (header : a.mallocs 2 = true) : Asks w a (a.host.wireXid (a.xid + 2))
  | echo (handler : a.handler = ccRecvEchoReply ∨ a.handler = ccRecvGetConfigReply)
      (accepted : a.Accepted) (registered : w.xidTable.Registered a.xid)
      (header : a.mallocs 2 = true) : Asks w a (a.host.wireXid (a.xid + 1))

/-- One of the messages has led to the xid. -/
def Asked (w : World) (arrivals : List Arrival) (xid : UInt32) : Prop :=
  ∃ pre a, pre ++ [a] <+: arrivals ∧
    ∃ rets w₀, Machine.run arrivalStep w pre = .ok (rets, w₀) ∧ a.Asks w₀ xid

/-- No message leads to an xid that an earlier one has led to. -/
def XidsFresh (w : World) (arrivals : List Arrival) : Prop :=
  ∀ pre a, pre ++ [a] <+: arrivals → ∀ rets w₀, Machine.run arrivalStep w pre = .ok (rets, w₀) →
    ∀ xid, a.Asks w₀ xid → ¬ Asked w pre xid

/-! ### One message -/

/-- Whether a handler rejects a header of its own, for the three kinds of messages that are
answered with a request. -/
def RecvHandler.rejections (handler : RecvHandler) : List (Option Bool) :=
  [(8, ofptHello), (8, ofptEchoReply), (12, ofptGetConfigReply)].map fun (length, type) =>
    let block := [ofpVersion, type] ++ htons length ++ List.replicate (length.toNat - 4) 0
    let mem := memoryOf block (fun _ => 0)
    ((handler.validate (some length.toNat)).run 0 mem).2.map (fun ret => ret < 0)

/-- No request has been put on the send queue. -/
def Silent (w w' : World) : Prop :=
  ∃ xidTable new, w.Sends w' xidTable new ∧ ∀ buf ∈ new, ¬ buf.IsRequest

section

variable {host : Host} {recvData : Buffer} {w : World}

theorem silent_error :
  Program.Ensures (ccRecvErrMsg.accept host recvData) w (fun _ w' => Silent w w')
  := by
  apply ccRecvErrMsg_ensures.mono
  rintro _ w' ⟨-, -, hsends⟩
  exact ⟨_, [], hsends, by simp⟩

/-- An echo reply is no request. -/
theorem silent_echoRequest :
  Program.Ensures (ccRecvEchoRequest.accept host recvData) w (fun _ w' => Silent w w')
  := by
  apply ccRecvEchoRequest_ensures.mono
  rintro _ w' ⟨-, xid, ok, ret, -, new, hsends, hnew⟩
  use w'.xidTable, new, hsends
  rcases hnew with rfl | ⟨reply, rfl, hcreated⟩
  · simp
  · intro buf hbuf
    obtain rfl := List.mem_singleton.mp hbuf
    exact hcreated.not_isRequest (by decide) (by decide)

theorem silent_forApp {failed : ℤ → Bool} (hfailed : failed ccEErr = true) :
  Program.Ensures (acceptForApp failed host recvData) w (fun _ w' => Silent w w')
  := by
  apply (acceptForApp_ensures hfailed).mono
  rintro _ w' ⟨-, -, hsends⟩
  exact ⟨_, [], hsends, by simp⟩

theorem silent_replyForApp {rejected failed : ℤ → Bool} :
  Program.Ensures (acceptReplyForApp rejected failed host recvData) w
    (fun _ w' => Silent w w')
  := by
  apply acceptReplyForApp_ensures.mono
  rintro _ w' ⟨-, hsends⟩
  exact ⟨_, [], hsends, by simp⟩

/-- A set config is no request. -/
theorem silent_features :
  Program.Ensures (ccRecvFeaturesReply.accept host recvData) w (fun _ w' => Silent w w')
  := by
  apply ccRecvFeaturesReply_ensures.mono
  rintro _ w' ⟨-, -, new, hsends, hnew⟩
  use w'.xidTable, new, hsends
  intro buf hbuf
  obtain ⟨xid, body, hcreated⟩ := hnew buf hbuf
  exact hcreated.not_isRequest (by decide) (by decide)

end

@[simp]
theorem requestXids_append (sent new : List (Buffer × XidTable)) :
  requestXids (sent ++ new) = requestXids sent ++ requestXids new
  := by
  simp [requestXids]

/-- The xids of the new requests on the send queue are those that the message leads to. -/
def Leads (w : World) (a : Arrival) (w' : World) : Prop :=
  ∃ new : List UInt32, requestXids w'.sent = requestXids w.sent ++ new ∧ new.Nodup ∧
    ∀ xid, xid ∈ new ↔ a.Asks w xid

section

variable {w w' : World} {a : Arrival} {xidTable : XidTable}

/-- A handler that rejects all these messages sends no request. -/
theorem not_asks (h : a.handler.rejections = [some true, some true, some true])
    (xid : UInt32) :
  ¬ a.Asks w xid
  := by
  intro hasks
  have hne : a.handler.rejections ≠ [some true, some true, some true] := by
    rcases hasks with ⟨hhandler, _, _⟩ | ⟨hhandler | hhandler, _, _, _⟩
    · rw [hhandler]
      decide
    · rw [hhandler]
      decide
    · rw [hhandler]
      decide
  exact hne h

theorem asks_hello (h : a.handler = ccRecvHelloMsg) {xid : UInt32} :
  a.Asks w xid ↔ a.Accepted ∧ a.mallocs 2 = true ∧ xid = a.host.wireXid (a.xid + 2)
  := by
  constructor
  · rintro (⟨_, haccepted, hok⟩ | ⟨hecho, _, _, _⟩)
    · exact ⟨haccepted, hok, rfl⟩
    · rw [h] at hecho
      rcases hecho with hecho | hecho
      · exact absurd hecho (ne_of_apply_ne RecvHandler.rejections (by decide))
      · exact absurd hecho (ne_of_apply_ne RecvHandler.rejections (by decide))
  · rintro ⟨haccepted, hok, rfl⟩
    exact .features h haccepted hok

theorem asks_echo (h : a.handler = ccRecvEchoReply ∨ a.handler = ccRecvGetConfigReply)
    {xid : UInt32} :
  a.Asks w xid ↔ a.Accepted ∧ w.xidTable.Registered a.xid ∧ a.mallocs 2 = true ∧
    xid = a.host.wireXid (a.xid + 1)
  := by
  constructor
  · rintro (⟨hhello, _, _⟩ | ⟨_, haccepted, hxid, hok⟩)
    · rw [hhello] at h
      rcases h with h | h
      · exact absurd h (ne_of_apply_ne RecvHandler.rejections (by decide))
      · exact absurd h (ne_of_apply_ne RecvHandler.rejections (by decide))
    · exact ⟨haccepted, hxid, hok, rfl⟩
  · rintro ⟨haccepted, hxid, hok, rfl⟩
    exact .echo h haccepted hxid hok

/-- The new messages are no requests, and none was to be sent. -/
theorem leads_nothing {new : List Buffer}
    (hsent : w'.sent = w.sent ++ new.map (fun buf => (buf, xidTable)))
    (hnew : ∀ buf ∈ new, ¬ buf.IsRequest) (hasks : ∀ xid, ¬ a.Asks w xid) :
  Leads w a w'
  := by
  have hnil : requestXids (new.map (fun buf => (buf, xidTable))) = [] := by
    simpa [requestXids] using hnew
  use []
  rw [hsent, requestXids_append, hnil]
  simp [hasks]

/-- One request is sent. -/
theorem leads_request (new : List Buffer) {buf : Buffer} {xid : UInt32}
    (hsent : w'.sent = w.sent ++ (new ++ [buf]).map (fun buf => (buf, xidTable)))
    (hnew : ∀ buf ∈ new, ¬ buf.IsRequest) (hrequest : buf.IsRequest)
    (hxid : buf.xid = xid) (hasks : ∀ xid', a.Asks w xid' ↔ xid' = xid) :
  Leads w a w'
  := by
  have hnil : requestXids (new.map (fun buf => (buf, xidTable))) = [] := by
    simpa [requestXids] using hnew
  have hone : requestXids [(buf, xidTable)] = [xid] := by simp [requestXids, hrequest, hxid]
  use [xid]
  rw [hsent, List.map_append, requestXids_append, requestXids_append, hnil]
  simp [hone, hasks]

theorem leads_hello (hhandler : a.handler = ccRecvHelloMsg) (haccepted : a.Accepted) :
  Program.Ensures (ccRecvHelloMsg.accept a.host a.message) { w with mallocs := a.mallocs }
    (fun _ w' => Leads w a w')
  := by
  apply ccRecvHelloMsg_answers.mono
  rintro _ w' ⟨-, -, new, hsends, hnew⟩
  have hsent : w'.sent = w.sent ++ new.map (fun buf => (buf, w.xidTable)) := hsends.sent
  rcases hnew with ⟨hfails, rfl⟩ | ⟨hok, hello, features, rfl, hhello, hfeatures⟩
  · apply leads_nothing hsent (by simp)
    intro xid hasks
    have hok := ((asks_hello hhandler).mp hasks).2.1
    exact absurd (hok.symm.trans hfails) (by decide)
  · apply leads_request [hello] hsent
    · intro buf hbuf
      obtain rfl := List.mem_singleton.mp hbuf
      exact hhello.not_isRequest (by decide) (by decide)
    · exact .inl (hfeatures.hasType_iff.mpr rfl)
    · exact hfeatures.xid_eq
    · intro xid
      rw [asks_hello hhandler]
      have hnext : a.xid + 2 = ccXidAlloc a.xid + 1 := by
        rw [ccXidAlloc, UInt32.add_assoc]
        rfl
      rw [hnext]
      exact ⟨fun h => h.2.2, fun h => ⟨haccepted, hok, h⟩⟩

theorem leads_echo (hsound : w.xidTable.Sound)
    (hhandler : a.handler = ccRecvEchoReply ∨ a.handler = ccRecvGetConfigReply)
    (haccepted : a.Accepted) :
  Program.Ensures (acceptReplyForEcho a.host a.message) { w with mallocs := a.mallocs }
    (fun _ w' => Leads w a w')
  := by
  apply acceptReplyForEcho_answers.mono
  rintro _ w' ⟨-, ret, hreply, new, hsends, hnew⟩
  obtain ⟨r, t, hreply', hregistered, -⟩ :=
    XidTable.ccRecvReplyXid_registered hsound a.xid a.host.now
  have hsame := Except.ok.inj (hreply.symm.trans hreply')
  obtain ⟨rfl, rfl⟩ := Prod.mk.inj hsame
  have hsent : w'.sent = w.sent ++ new.map (fun buf => (buf, w'.xidTable)) := hsends.sent
  rcases hnew with ⟨hnone, rfl⟩ | ⟨hret, hok, buf, rfl, hcreated⟩
  · apply leads_nothing hsent (by simp)
    intro xid hasks
    obtain ⟨-, hxid, hok, -⟩ := (asks_echo hhandler).mp hasks
    rcases hnone with hneg | hfails
    · exact hregistered.mpr hxid hneg
    · exact absurd (hok.symm.trans hfails) (by decide)
  · apply leads_request [] hsent (by simp)
    · exact .inr (hcreated.hasType_iff.mpr rfl)
    · exact hcreated.xid_eq
    · intro xid
      rw [asks_echo hhandler]
      exact ⟨fun h => h.2.2.2, fun h => ⟨haccepted, hregistered.mp hret, hok, h⟩⟩

/-- A message that is not accepted leads to nothing. -/
theorem leads_rejected (hsent : w'.sent = w.sent) (hrejected : ¬ a.Accepted) :
  Leads w a w'
  := by
  have hnil : w'.sent = w.sent ++ [].map (fun buf => (buf, w.xidTable)) := by simpa using hsent
  apply leads_nothing hnil (by simp)
  rintro xid (⟨_, haccepted, _⟩ | ⟨_, haccepted, _, _⟩)
  · exact hrejected haccepted
  · exact hrejected haccepted

/-- A handler that sends no request leads to nothing. -/
theorem leads_silent {m : Action ℤ}
    (hm : ∀ w, Program.Ensures m w (fun _ w' => Silent w w'))
    (hhandler : a.handler.rejections = [some true, some true, some true]) :
  Program.Ensures m { w with mallocs := a.mallocs } (fun _ w' => Leads w a w')
  := by
  apply (hm _).mono
  rintro _ w' ⟨xidTable, new, hsends, hnew⟩
  exact leads_nothing hsends.sent hnew (not_asks hhandler)

/-- What is sent for a message, by its handler. -/
theorem arrivalStep_leads (hhandler : a.handler ∈ ccRecvHandlers) (hsound : w.xidTable.Sound)
    {ret : ℤ} (hstep : arrivalStep w a = .ok (ret, w')) :
  Leads w a w'
  := by
  apply arrivalStep_cases _ _ hstep
  · intro hrejected
    exact leads_rejected rfl hrejected
  · intro haccepted
    obtain ⟨handler, message, host, mallocs⟩ := a
    simp only [ccRecvHandlers, List.mem_cons, List.not_mem_nil, or_false] at hhandler
    rcases hhandler with rfl | rfl | rfl | rfl | rfl | rfl | rfl | rfl | rfl | rfl | rfl | rfl | rfl
    · exact leads_hello rfl haccepted
    · exact leads_silent (fun _ => silent_error) rfl
    · exact leads_silent (fun _ => silent_echoRequest) rfl
    · exact leads_echo hsound (.inl rfl) haccepted
    · exact leads_silent (fun _ => silent_forApp rfl) rfl
    · exact leads_echo hsound (.inr rfl) haccepted
    · exact leads_silent (fun _ => silent_forApp rfl) rfl
    · exact leads_silent (fun _ => silent_replyForApp) rfl
    · exact leads_silent (fun _ => silent_features) rfl
    · exact leads_silent (fun _ => silent_forApp rfl) rfl
    · exact leads_silent (fun _ => silent_forApp rfl) rfl
    · exact leads_silent (fun _ => silent_replyForApp) rfl
    · exact leads_silent (fun _ => silent_replyForApp) rfl

end

/-! ### Runs -/

section

variable {w w' : World} {a : Arrival} {arrivals : List Arrival} {rets : List ℤ} {xid : UInt32}

theorem asked_nil :
  ¬ Asked w [] xid
  := by
  rintro ⟨pre, a, hpre, -⟩
  simp at hpre

/-- The last message of a run leads to the xid, or an earlier one has. -/
theorem asked_concat {w₀ : World} (hrun : Machine.run arrivalStep w arrivals = .ok (rets, w₀)) :
  Asked w (arrivals ++ [a]) xid ↔ Asked w arrivals xid ∨ a.Asks w₀ xid
  := by
  constructor
  · rintro ⟨pre, b, hpre, rets', w₁, hrun', hasks⟩
    rcases List.prefix_concat_iff.mp hpre with heq | hpre
    · obtain ⟨rfl, hb⟩ := List.append_inj' heq rfl
      obtain rfl := List.singleton_inj.mp hb
      rw [hrun] at hrun'
      cases hrun'
      exact .inr hasks
    · exact .inl ⟨pre, b, hpre, rets', w₁, hrun', hasks⟩
  · rintro (⟨pre, b, hpre, rets', w₁, hrun', hasks⟩ | hasks)
    · exact ⟨pre, b, hpre.trans (List.prefix_append _ _), rets', w₁, hrun', hasks⟩
    · exact ⟨arrivals, a, List.prefix_refl _, rets, w₀, hrun, hasks⟩

theorem xidsFresh_nil :
  XidsFresh w []
  := by
  intro pre a hpre
  simp at hpre

theorem xidsFresh_concat {w₀ : World}
    (hrun : Machine.run arrivalStep w arrivals = .ok (rets, w₀)) :
  XidsFresh w (arrivals ++ [a]) ↔
    XidsFresh w arrivals ∧ ∀ xid, a.Asks w₀ xid → ¬ Asked w arrivals xid
  := by
  constructor
  · intro h
    constructor
    · intro pre b hpre
      apply h pre b (hpre.trans (List.prefix_append _ _))
    · apply h arrivals a (List.prefix_refl _) rets w₀ hrun
  · rintro ⟨hearlier, hlast⟩ pre b hpre rets' w₁ hrun'
    rcases List.prefix_concat_iff.mp hpre with heq | hpre
    · obtain ⟨rfl, hb⟩ := List.append_inj' heq rfl
      obtain rfl := List.singleton_inj.mp hb
      rw [hrun] at hrun'
      cases hrun'
      exact hlast
    · apply hearlier pre b hpre rets' w₁ hrun'

/-- The xid table stays sound, and the requests sent have the xids that the messages have led
to. -/
theorem mem_requestXids_run (hsent : w.sent = []) (hsound : w.xidTable.Sound)
    (hhandlers : ∀ a ∈ arrivals, a.handler ∈ ccRecvHandlers)
    (hrun : Machine.run arrivalStep w arrivals = .ok (rets, w')) :
  w'.xidTable.Sound ∧ ∀ xid, xid ∈ requestXids w'.sent ↔ Asked w arrivals xid
  := by
  induction arrivals using List.reverseRecOn generalizing rets w' with
  | nil =>
      obtain ⟨-, rfl⟩ : [] = rets ∧ w = w' := by simpa [Machine.run] using hrun
      use hsound
      intro xid
      rw [hsent]
      exact iff_of_false (by simp [requestXids]) asked_nil
  | append_singleton arrivals a ih =>
      obtain ⟨rets', w₀, ret, hrun', hstep, -⟩ := Machine.run_concat_ok hrun
      obtain ⟨hsound₀, hmem⟩ := ih (fun b hb => hhandlers b (by simp [hb])) hrun'
      have hhandler := hhandlers a (by simp)
      use (arrivalStep_answers hhandler hsound₀ hstep).sound
      intro xid
      obtain ⟨new, hnew, -, hasks⟩ := arrivalStep_leads hhandler hsound₀ hstep
      rw [hnew, List.mem_append, hmem, hasks, asked_concat hrun']

end

/-- In a run of the handlers on a connection, the xids of the requests sent are different
exactly if no message leads to an xid that an earlier one has led to. -/
theorem requestXids_nodup_iff (w w' : World) (arrivals : List Arrival) (rets : List ℤ)
    (hsent : w.sent = []) (htable : w.xidTable = ccInitXidTable)
    (hhandlers : ∀ a ∈ arrivals, a.handler ∈ ccRecvHandlers)
    (hrun : Machine.run arrivalStep w arrivals = .ok (rets, w')) :
  (requestXids w'.sent).Nodup ↔ XidsFresh w arrivals
  := by
  have hsound : w.xidTable.Sound := by
    rw [htable]
    apply XidTable.sound_init
  induction arrivals using List.reverseRecOn generalizing rets w' with
  | nil =>
      obtain ⟨-, rfl⟩ : [] = rets ∧ w = w' := by simpa [Machine.run] using hrun
      rw [hsent]
      exact iff_of_true (by simp [requestXids]) xidsFresh_nil
  | append_singleton arrivals a ih =>
      obtain ⟨rets', w₀, ret, hrun', hstep, -⟩ := Machine.run_concat_ok hrun
      have hearlier : ∀ b ∈ arrivals, b.handler ∈ ccRecvHandlers := by
        intro b hb
        apply hhandlers b
        simp [hb]
      obtain ⟨hsound₀, hmem⟩ := mem_requestXids_run hsent hsound hearlier hrun'
      obtain ⟨new, hnew, hnodup, hasks⟩ :=
        arrivalStep_leads (hhandlers a (by simp)) hsound₀ hstep
      have hih : (requestXids w₀.sent).Nodup ↔ XidsFresh w arrivals := ih w₀ rets' hearlier hrun'
      rw [hnew, xidsFresh_concat hrun', ← hih, List.nodup_append]
      constructor
      · rintro ⟨hold, -, hne⟩
        use hold
        intro xid hxid hasked
        exact hne xid ((hmem xid).mpr hasked) xid ((hasks xid).mpr hxid) rfl
      · rintro ⟨hold, hfresh⟩
        use hold, hnodup
        rintro xid hxid _ hxid' rfl
        exact hfresh xid ((hasks xid).mp hxid') ((hmem xid).mp hxid)

/-- A hello with the xid 20. -/
def secondHello : Arrival :=
  { helloArrival with message := ⟨2, some [1, 0, 0, 8, 0, 0, 0, 20], 8⟩ }

/-- Two hellos are answered with a request each. -/
theorem requestXids_nodup_two :
  ∃ rets w', Machine.run arrivalStep World.start [helloArrival, secondHello] = .ok (rets, w') ∧
    requestXids w'.sent = [7, 22] ∧
    ((requestXids w'.sent).Nodup ↔ XidsFresh World.start [helloArrival, secondHello])
  := ⟨_, _, rfl, rfl, requestXids_nodup_iff World.start _ [helloArrival, secondHello] _ rfl rfl
    (by simp [helloArrival, secondHello, ccRecvHandlers]) rfl⟩

/-- When the same hello comes twice, two features requests with one xid are sent. A message
takes two xids at most. -/
theorem requestXids_repeated :
  ¬ ∀ (w w' : World) (arrivals : List Arrival) (rets : List ℤ), w.sent = [] →
    w.xidTable = ccInitXidTable → (∀ a ∈ arrivals, a.handler ∈ ccRecvHandlers) →
    2 * arrivals.length < 2 ^ 32 → Machine.run arrivalStep w arrivals = .ok (rets, w') →
    (requestXids w'.sent).Nodup
  := by
  intro h
  have hrun : (Machine.run arrivalStep World.start [helloArrival, helloArrival]).map
      (fun r => requestXids r.2.sent) = .ok [7, 7] := rfl
  cases hrets : Machine.run arrivalStep World.start [helloArrival, helloArrival] with
  | error f =>
      rw [hrets] at hrun
      cases hrun
  | ok r =>
      rw [hrets] at hrun
      have hxids : requestXids r.2.sent = [7, 7] := Except.ok.inj hrun
      have hnodup := h World.start r.2 [helloArrival, helloArrival] r.1 rfl rfl
        (by simp [helloArrival, ccRecvHandlers]) (by simp) hrets
      rw [hxids] at hnodup
      exact absurd hnodup (by decide)

end CcController
