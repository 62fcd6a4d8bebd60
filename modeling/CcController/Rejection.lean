import CcController.Requests

/-!
# Replies that are rejected

A reply should be rejected when it fails validation or when its xid is not in the xid table,
and then nothing of the connection should change. The handler of flow statistics replies
takes the result of the look-up for a truth value, so a reply with an unknown xid goes
through, sets `xidLatest` and is released twice (`replyHandlers_reject_iff`).
-/

namespace CcController

variable {host : Host} {w w' : World} {recvData : Buffer} {block : List UInt8}

/-- The latest xid, the xid table, the send queue and the record of the switch are as they
were. -/
structure World.Untouched (w w' : World) : Prop where
  xidLatest : w'.xidLatest = w.xidLatest
  xidTable : w'.xidTable = w.xidTable
  sendQueue : w'.sendQueue = w.sendQueue
  ccSwitch : w'.ccSwitch = w.ccSwitch

/-- In between no buffer has been released twice; the allocator would have stopped the second
release. -/
def World.ReleasesOnce (w w' : World) : Prop :=
  ∀ addr, w'.released.count addr ≤ w.released.count addr + 1

/-- The handler, which may follow its loops as far as they go, returns `CC_E_ERR` and leaves
the connection untouched. -/
def RejectsUntouched (handler : RecvHandler) (host : Host) (recvData : Buffer) (w : World) :
    Prop :=
  ∃ fuel, Program.Reaches (handler.recv { host with fuel := fuel } recvData) w
    (fun ret w' => ret = ccEErr ∧ w.Untouched w' ∧ w.ReleasesOnce w')

/-- Releasing a message and nothing else. -/
theorem World.untouched_release (w : World) (buf : Buffer) :
  w.Untouched (w.release buf) ∧ w.ReleasesOnce (w.release buf)
  := by
  refine ⟨⟨rfl, rfl, rfl, rfl⟩, ?_⟩
  intro addr
  rw [World.release_released, List.count_append, Nat.add_le_add_iff_left]
  apply List.count_le_length

/-- Releasing the same message twice. -/
theorem World.not_releasesOnce {addr : ℕ}
    (hreleased : w'.released = w.released ++ [addr] ++ [addr]) :
  ¬ w.ReleasesOnce w'
  := by
  intro h
  have hcount := h addr
  rw [hreleased, List.count_append, List.count_append, List.count_singleton_self] at hcount
  omega

/-- The xid of the message, in network order. -/
def Buffer.replyXid (recvData : Buffer) (host : Host) : UInt32 :=
  be32 (recvData.memory host) 4

/-! ### Parts of handlers -/

section

variable {E : Fault → Prop} {Q : ℤ → World → Prop}

/-- What is read from a buffer when the fuel suffices. -/
theorem ends_look_of_run {α : Type} (hblock : recvData.data = some block) {m : MessageReader α}
    {a : α} (hrun : (m.run host.fuel (memoryOf block host.beyond)).2 = some a)
    {Q : α → World → Prop} :
  Program.Ends E (look host recvData m) w Q ↔ Q a w
  := by
  simp only [look, hblock, hrun, Program.ends_pure]

theorem Buffer.memory_eq (hblock : recvData.data = some block) :
  recvData.memory host = memoryOf block host.beyond
  := by
  rw [Buffer.memory, hblock, Option.getD_some]

theorem ends_look_xid (hblock : recvData.data = some block) {Q : UInt32 → World → Prop} :
  Program.Ends E (look host recvData (ntohl 4)) w Q ↔ Q (recvData.replyXid host) w
  := by
  rw [Buffer.replyXid, Buffer.memory_eq hblock]
  apply ends_look hblock (yields_ntohl 4)

/-- A reply whose xid is not registered is released, if the handler rejects `CC_E_ERR`. -/
theorem ends_replyThen_rejected {xid : UInt32} {rejected : ℤ → Bool} {rest : Action ℤ}
    (hsound : w.xidTable.Sound) (hxid : ¬ w.xidTable.Registered xid)
    (hrejected : rejected ccEErr = true) :
  Program.Ends E (replyThen host recvData xid rejected rest) w Q ↔
    Q ccEErr (w.release recvData)
  := by
  simp only [replyThen, Program.ends_bind, Program.ends_state,
    XidTable.ccRecvReplyXid_unregistered hsound hxid, Program.ends_lift_ok, Program.ends_update,
    hrejected, if_true, releaseThen, ends_freeBuffer, Program.ends_pure]

/-- If the handler does not reject `CC_E_ERR`, it goes on with a reply whose xid is not
registered. -/
theorem ends_replyThen_missed {xid : UInt32} (rejected : ℤ → Bool) {rest : Action ℤ}
    (hsound : w.xidTable.Sound) (hxid : ¬ w.xidTable.Registered xid)
    (hrejected : rejected ccEErr = false) :
  Program.Ends E (replyThen host recvData xid rejected rest) w Q ↔ Program.Ends E rest w Q
  := by
  simp only [replyThen, Program.ends_bind, Program.ends_state,
    XidTable.ccRecvReplyXid_unregistered hsound hxid, Program.ends_lift_ok, Program.ends_update,
    hrejected, if_false, Bool.false_eq_true]

end

/-- A handler whose validator returns either rejects the message or accepts it. -/
theorem recv_ends_iff {handler : RecvHandler} {E : Fault → Prop} {Q : ℤ → World → Prop}
    (hblock : recvData.data = some block) {ret : ℤ}
    (hrun : ((handler.validate (some recvData.length)).run host.fuel
      (memoryOf block host.beyond)).2 = some ret) :
  Program.Ends E (handler.recv host recvData) w Q ↔
    (ret < 0 → Q ccEErr (w.release recvData)) ∧
    (¬ ret < 0 → Program.Ends E (handler.accept host recvData) w Q)
  := by
  simp only [RecvHandler.recv, Program.ends_bind, ends_look_of_run hblock hrun,
    Program.ends_ite, ends_freeBuffer, Program.ends_pure]

/-! ### The handlers -/

/-- What an accepting handler does with a reply whose xid is not registered: it releases the
message and nothing else. -/
def AcceptRejects (handler : RecvHandler) : Prop :=
  ∀ (host : Host) (recvData : Buffer) (block : List UInt8) (w : World),
    recvData.data = some block → w.xidTable.Sound →
    ¬ w.xidTable.Registered (recvData.replyXid host) →
    Program.Reaches (handler.accept host recvData) w
      (fun ret w' => ret = ccEErr ∧ w.Untouched w' ∧ w.ReleasesOnce w')

theorem acceptReplyForApp_rejects {rejected failed : ℤ → Bool}
    {validate : Option ℕ → MessageReader ℤ} (hrejected : rejected ccEErr = true) :
  AcceptRejects ⟨validate, acceptReplyForApp rejected failed⟩
  := by
  intro host recvData block w hblock hsound hxid
  simp only [acceptReplyForApp, Program.ends_bind, ends_look_xid hblock]
  apply (ends_replyThen_rejected hsound hxid hrejected).mpr
  exact ⟨rfl, w.untouched_release recvData⟩

theorem acceptReplyForEcho_rejects {validate : Option ℕ → MessageReader ℤ} :
  AcceptRejects ⟨validate, acceptReplyForEcho⟩
  := by
  intro host recvData block w hblock hsound hxid
  simp only [acceptReplyForEcho, Program.ends_bind, ends_look_xid hblock]
  apply (ends_replyThen_rejected hsound hxid rfl).mpr
  exact ⟨rfl, w.untouched_release recvData⟩

theorem ccRecvFeaturesReply_rejects :
  AcceptRejects ccRecvFeaturesReply
  := by
  intro host recvData block w hblock hsound hxid
  simp only [ccRecvFeaturesReply, Program.ends_bind, ends_look_xid hblock]
  apply (ends_replyThen_rejected hsound hxid rfl).mpr
  exact ⟨rfl, w.untouched_release recvData⟩

/-- Every handler of replies but one rejects a reply whose xid is not registered. -/
theorem replyHandlers_cases {handler : RecvHandler} (h : handler ∈ ccReplyHandlers) :
  handler = ccRecvFlowStatsReply ∨ AcceptRejects handler
  := by
  simp only [ccReplyHandlers, List.mem_cons, List.not_mem_nil, or_false] at h
  rcases h with rfl | rfl | rfl | rfl | rfl | rfl
  · right
    apply acceptReplyForEcho_rejects
  · right
    apply acceptReplyForEcho_rejects
  · right
    apply acceptReplyForApp_rejects rfl
  · right
    apply ccRecvFeaturesReply_rejects
  · right
    apply acceptReplyForApp_rejects rfl
  · left
    rfl

/-- The handler of flow statistics replies accepts a reply whose xid is not registered, and
only then finds that there is no application. -/
theorem ccRecvFlowStatsReply_missed {E : Fault → Prop} {Q : ℤ → World → Prop}
    (hblock : recvData.data = some block) (hsound : w.xidTable.Sound)
    (hxid : ¬ w.xidTable.Registered (recvData.replyXid host)) :
  Program.Ends E (ccRecvFlowStatsReply.accept host recvData) w Q ↔
    Q ccEErr (({ w with
      xidLatest := ccXidAlloc (recvData.replyXid host) }.release recvData).release recvData)
  := by
  simp only [ccRecvFlowStatsReply, acceptReplyForApp, Program.ends_bind, ends_look_xid hblock,
    ends_replyThen_missed (fun ret => ret = 0) hsound hxid rfl]
  rfl

/-- A handler that rejects a message has a validator that returns. -/
theorem RejectsUntouched.returns {handler : RecvHandler}
    (h : RejectsUntouched handler host recvData w) (hblock : recvData.data = some block) :
  ∃ ret, (handler.validate (some recvData.length)).Returns (recvData.memory host) ret
  := by
  obtain ⟨fuel, hreaches⟩ := h
  cases hrun : ((handler.validate (some recvData.length)).run fuel
      (memoryOf block host.beyond)).2 with
  | none =>
      simp only [RecvHandler.recv, look, hblock, hrun, Program.ends_bind,
        Program.ends_stop] at hreaches
  | some ret =>
      use ret, fuel
      rw [Buffer.memory_eq hblock, hrun]

/-- A flow statistics reply that passes validation and has an unknown xid is not rejected. -/
theorem RejectsUntouched.not_accepts (h : RejectsUntouched ccRecvFlowStatsReply host recvData w)
    (hblock : recvData.data = some block) (hsound : w.xidTable.Sound)
    (hxid : ¬ w.xidTable.Registered (recvData.replyXid host)) :
  ¬ Accepts (ccRecvFlowStatsReply.validate (some recvData.length)) (recvData.memory host)
  := by
  obtain ⟨fuel, hreaches⟩ := h
  rintro ⟨ret, hreturns, hpos⟩
  cases hrun : ((ccRecvFlowStatsReply.validate (some recvData.length)).run fuel
      (memoryOf block host.beyond)).2 with
  | none =>
      simp only [RecvHandler.recv, look, hblock, hrun, Program.ends_bind,
        Program.ends_stop] at hreaches
  | some ret' =>
      obtain rfl : ret = ret' := by
        apply hreturns.unique
        use fuel
        rw [Buffer.memory_eq hblock, hrun]
      have hend := ((recv_ends_iff hblock hrun).mp hreaches).2 hpos
      have hlast := (ccRecvFlowStatsReply_missed hblock hsound hxid).mp hend
      exact World.not_releasesOnce rfl hlast.2.2

/-- A handler of replies that is given a message that fails validation or has an unknown xid
returns `CC_E_ERR` and leaves the connection untouched exactly when the validator returns at
all and the message is not a flow statistics reply that passes validation. -/
theorem replyHandlers_reject_iff (handler : RecvHandler) (hhandler : handler ∈ ccReplyHandlers)
    (host : Host) (w : World) (hsound : w.xidTable.Sound) (recvData : Buffer)
    (block : List UInt8) (hblock : recvData.data = some block)
    (hreject : Rejects (handler.validate (some recvData.length)) (recvData.memory host) ∨
      ¬ w.xidTable.Registered (recvData.replyXid host)) :
  RejectsUntouched handler host recvData w ↔
    (∃ ret, (handler.validate (some recvData.length)).Returns (recvData.memory host) ret) ∧
    (handler = ccRecvFlowStatsReply →
      ¬ Accepts (handler.validate (some recvData.length)) (recvData.memory host))
  := by
  have hmemory : recvData.memory host = memoryOf block host.beyond := Buffer.memory_eq hblock
  -- an accepted message has an unknown xid
  have hunknown : Accepts (handler.validate (some recvData.length)) (recvData.memory host) →
      ¬ w.xidTable.Registered (recvData.replyXid host) := by
    intro haccepts
    apply hreject.resolve_left haccepts.not_rejects
  constructor
  · intro h
    use h.returns hblock
    rintro rfl haccepts
    exact h.not_accepts hblock hsound (hunknown haccepts) haccepts
  · rintro ⟨⟨ret, fuel, hrun⟩, hflow⟩
    have hreturns : (handler.validate (some recvData.length)).Returns
        (recvData.memory host) ret := ⟨fuel, hrun⟩
    rw [hmemory] at hrun
    use fuel
    let host' : Host := { host with fuel := fuel }
    have hrun' : ((handler.validate (some recvData.length)).run host'.fuel
        (memoryOf block host'.beyond)).2 = some ret := hrun
    apply (recv_ends_iff hblock hrun').mpr
    constructor
    · intro _
      exact ⟨rfl, w.untouched_release recvData⟩
    · intro hpos
      have haccepts : Accepts (handler.validate (some recvData.length)) (recvData.memory host) :=
        ⟨ret, hreturns, hpos⟩
      have hxid := hunknown haccepts
      rcases replyHandlers_cases hhandler with rfl | haccept
      · exact absurd haccepts (hflow rfl)
      · apply haccept { host with fuel := fuel } recvData block w hblock hsound hxid

/-- A barrier reply with the xid 7. -/
def barrierReply : Buffer where
  addr := 0
  data := some [1, 19, 0, 8, 0, 0, 0, 7]
  length := 8

theorem not_registered_init (xid : UInt32) :
  ¬ ccInitXidTable.Registered xid
  := by
  rw [XidTable.registered_iff HashTable.lies_init]
  simp

/-- A barrier reply with an unknown xid is rejected on a fresh connection. -/
theorem replyHandlers_reject_barrier :
  ¬ World.start.xidTable.Registered (barrierReply.replyXid (Host.plain false)) ∧
    RejectsUntouched ccRecvBarrierReply (Host.plain false) barrierReply World.start
  := by
  have hxid := not_registered_init (barrierReply.replyXid (Host.plain false))
  use hxid
  apply (replyHandlers_reject_iff ccRecvBarrierReply (by simp [ccReplyHandlers]) _ _
    XidTable.sound_init barrierReply _ rfl (.inr hxid)).mpr
  constructor
  · exact ⟨0, 0, by decide⟩
  · intro h
    have hsame := congrArg (fun handler => ((handler.validate (some 8)).run 0
      (barrierReply.memory (Host.plain false))).2) h
    exact absurd hsame (by decide)

/-- A flow statistics reply without entries, with the xid 7. -/
def emptyFlowStatsReply : Buffer where
  addr := 0
  data := some [1, 17, 0, 12, 0, 0, 0, 7, 0, 1, 0, 0]
  length := 12

/-- A flow statistics reply with an unknown xid is not rejected on a fresh connection. -/
theorem flowStatsReply_not_rejected :
  ¬ ∀ handler ∈ ccReplyHandlers, ∀ (host : Host) (w : World), w.xidTable.Sound →
    ∀ (recvData : Buffer) (block : List UInt8), recvData.data = some block →
    Rejects (handler.validate (some recvData.length)) (recvData.memory host) ∨
      ¬ w.xidTable.Registered (recvData.replyXid host) →
    RejectsUntouched handler host recvData w
  := by
  intro h
  have hxid := not_registered_init (emptyFlowStatsReply.replyXid (Host.plain false))
  have hrejects := h ccRecvFlowStatsReply (by simp [ccReplyHandlers]) (Host.plain false)
    World.start XidTable.sound_init emptyFlowStatsReply _ rfl (.inr hxid)
  exact hrejects.not_accepts rfl XidTable.sound_init hxid ⟨0, ⟨1, by decide⟩, by decide⟩

end CcController
