import CcController.SecureChannel

/-!
# What passes through the secure channel

The socket is a stream of bytes. What one call of `read` returns is queued as one message,
whatever it is; so the messages received are those sent exactly when every call returns one
message (`received_iff`).

On the way out a message leaves the queue before it is written, and it is not put back; so
nothing is lost exactly when all is written, and there is not too much of it
(`nothingLost_iff`).
-/

namespace CcController

variable {host : Host} {w : World} {E : Fault → Prop}

/-! ### Receiving -/

/-- What has been read passes for a message: there is a header, of the right version, whose
length is not too large. -/
def PassesForMessage (chunk : List UInt8) : Prop :=
  8 ≤ chunk.length ∧ chunk.getD 0 0 = ofpVersion ∧
    (be16 (fun i => chunk.getD i 0) 2).toNat ≤ ccRecvBufferSize

instance : DecidablePred PassesForMessage :=
  fun _ => inferInstanceAs (Decidable (_ ∧ _))

theorem memoryOf_of_lt {block : List UInt8} {beyond : Memory} {i : ℕ} (hi : i < block.length) :
  memoryOf block beyond i = block.getD i 0
  := by
  simp [memoryOf, hi]

theorem be16_memoryOf {block : List UInt8} {beyond : Memory} {p : ℕ} (hp : p + 1 < block.length) :
  be16 (memoryOf block beyond) p = be16 (fun i => block.getD i 0) p
  := by
  rw [be16, be16, memoryOf_of_lt (by omega), memoryOf_of_lt hp]

section

variable {chunk : List UInt8} {addr length : ℕ}

/-- Reading a field of the header of what has been read. -/
theorem ends_look_version (hlength : 8 ≤ chunk.length) {Q : UInt8 → World → Prop} :
  Program.Ends E (look host ⟨addr, some chunk, length⟩ (Reader.read 0)) w Q ↔
    Q (chunk.getD 0 0) w
  := by
  rw [ends_look rfl (Reader.yields_read 0), memoryOf_of_lt (by omega)]

theorem ends_look_length (hlength : 8 ≤ chunk.length) {Q : UInt16 → World → Prop} :
  Program.Ends E (look host ⟨addr, some chunk, length⟩ (ntohs 2)) w Q ↔
    Q (be16 (fun i => chunk.getD i 0) 2) w
  := by
  rw [ends_look rfl (yields_ntohs 2), be16_memoryOf (by omega)]

/-- What has been read is queued if it passes for a message. -/
theorem ends_queueReceived (hlength : 8 ≤ chunk.length) {Q : ℤ → World → Prop} :
  Program.Ends E (queueReceived host ⟨addr, some chunk, length⟩) w Q ↔
    if PassesForMessage chunk then
      Program.Ends E
        (Program.lift (enqueueMessage w.recvQueue (some ⟨addr, some chunk, length⟩) (w.mallocs 0)))
        { w with mallocs := fun i => w.mallocs (i + 1) }
        (fun r w' => Q ccENone { w' with recvQueue := r.2 })
    else Q ccEErr (w.release ⟨addr, some chunk, length⟩)
  := by
  simp only [queueReceived, Program.ends_bind, ends_look_version hlength, Program.ends_ite,
    ends_look_length hlength, releaseThen, ends_freeBuffer, Program.ends_pure, ends_malloc,
    Program.ends_state]
  by_cases hpasses : PassesForMessage chunk
  · obtain ⟨-, hversion, hfits⟩ := id hpasses
    simp only [hpasses, if_true, hversion, ne_eq, not_true, false_implies, not_false_eq_true,
      true_implies, true_and, gt_iff_lt, Nat.not_lt.mpr hfits]
    cases henqueue : enqueueMessage w.recvQueue (some ⟨addr, some chunk, length⟩) (w.mallocs 0) with
    | error f => rfl
    | ok r =>
        obtain ⟨ret, queue⟩ := r
        obtain rfl := (enqueueMessage_ok henqueue).1
        simp
  · simp only [hpasses, if_false]
    by_cases hversion : chunk.getD 0 0 = ofpVersion
    · have hfits : (be16 (fun i => chunk.getD i 0) 2).toNat > ccRecvBufferSize := by
        by_contra hfits
        apply hpasses ⟨hlength, hversion, by omega⟩
      simp only [hversion, hfits, ne_eq, not_true, false_implies, not_false_eq_true,
        true_implies, true_and, and_true]
    · simp only [hversion, ne_eq, not_false_eq_true, not_true, true_implies, false_implies,
        and_true]

end

theorem ends_addRecvWorker {Q : Unit → World → Prop} :
  Program.Ends E addRecvWorker w Q ↔
    (w.mallocs 0 = false → E .null) ∧
    (w.mallocs 0 = true → Q () { w with
      mallocs := fun i => w.mallocs (i + 1)
      ccRecvThreadPool := ⟨w.ccRecvThreadPool.queue ++ [.ccOfpmsgRecvHandle],
        w.ccRecvThreadPool.curQueueSize + 1⟩ })
  := by
  simp only [addRecvWorker, Program.ends_bind, ends_malloc, Program.ends_state]
  cases h : w.mallocs 0 with
  | false => simp [poolAddWorker, Program.Ends, Program.lift]
  | true => simp [poolAddWorker]

/-- What `read` returns when it fails is taken for a length that no block has. -/
theorem ccRecvFromSecureChannel_failed {read : ReadResult}
    (hread : read.into (w.mallocs 0) = .failed) {Q : ℤ → World → Prop} :
  Program.Ensures (ccRecvFromSecureChannel host read) w Q
  := by
  have hlength : ¬ ReadResult.failed.length ≤ ptrdiffMax := by decide
  have hmin : ReadResult.failed.length ≥ 8 := by decide
  simp only [ccRecvFromSecureChannel, Program.ends_bind, ends_malloc, hread]
  generalize ReadResult.failed.length = n at hlength hmin
  have hne : ¬ n = 0 := by omega
  simp only [Program.ends_ite, hne, false_implies, true_and, hmin, Program.ends_bind,
    ends_allocBufferWithLength, hlength, and_false, if_false, fill, Program.ends_stop,
    implies_true, not_true]

/-- Nothing is read when there is no memory to read it to. -/
theorem ccRecvFromSecureChannel_no_memory {read : ReadResult} (hmalloc : w.mallocs 0 = false)
    (hpos : 0 < read.length) {Q : ℤ → World → Prop} :
  Program.Ensures (ccRecvFromSecureChannel host read) w Q
  := by
  apply ccRecvFromSecureChannel_failed
  rw [hmalloc, ReadResult.into_false hpos]

section

variable {chunk : List UInt8}

theorem ccRecvBufferSize_le_ptrdiffMax :
  ccRecvBufferSize ≤ ptrdiffMax
  := by
  decide

/-- What is too short for a header is passed over. -/
theorem ccRecvFromSecureChannel_short (hpos : 0 < chunk.length) (hshort : chunk.length < 8)
    {Q : ℤ → World → Prop} (h : ∀ w', w'.recvQueue = w.recvQueue → Q ccENone w') :
  Program.Ensures (ccRecvFromSecureChannel host (.received chunk)) w Q
  := by
  cases hmalloc : w.mallocs 0 with
  | false =>
      apply ccRecvFromSecureChannel_no_memory hmalloc
      exact hpos
  | true =>
      have hne : ¬ chunk.length = 0 := by omega
      have hmin : ¬ chunk.length ≥ 8 := by omega
      have hcodes : ¬ ccENone = ccEErr := by decide
      simp only [ccRecvFromSecureChannel, Program.ends_bind, ends_malloc, hmalloc,
        ReadResult.into_true, ReadResult.length, Program.ends_ite, hne, false_implies, true_and,
        not_false_eq_true,
        true_implies, hmin, Program.ends_pure, hcodes, ends_addRecvWorker, implies_true]
      intro _
      apply h
      rfl

/-- A message is not copied when there is no memory for its buffer or for its data. -/
theorem ccRecvFromSecureChannel_no_buffer (hmin : 8 ≤ chunk.length)
    (hmallocs : ¬ (w.mallocs 0 = true ∧ w.mallocs 1 = true ∧ w.mallocs 2 = true))
    {Q : ℤ → World → Prop} :
  Program.Ensures (ccRecvFromSecureChannel host (.received chunk)) w Q
  := by
  cases h0 : w.mallocs 0 with
  | false =>
      apply ccRecvFromSecureChannel_no_memory h0
      change 0 < chunk.length
      omega
  | true =>
      have hne : ¬ chunk.length = 0 := by omega
      simp only [ccRecvFromSecureChannel, Program.ends_bind, ends_malloc, h0,
        ReadResult.into_true, ReadResult.length, ReadResult.data, Program.ends_ite, hne,
        false_implies, true_and,
        not_false_eq_true, true_implies, hmin, ge_iff_le, not_true, and_true,
        ends_allocBufferWithLength, implies_true]
      intro h1
      have h2 : ¬ w.mallocs (1 + 1) = true := fun h2 => hmallocs ⟨h0, h1, h2⟩
      simp only [h2, Bool.false_eq_true, false_and, if_false, fill, Program.ends_stop]

/-- What has the length of a header is put on the receive queue if it passes for a message;
then four more allocations have to succeed. -/
theorem ends_ccRecvFromSecureChannel (hmin : 8 ≤ chunk.length)
    (hmax : chunk.length ≤ ccRecvBufferSize) (h0 : w.mallocs 0 = true) (h1 : w.mallocs 1 = true)
    (h2 : w.mallocs 2 = true) {Q : ℤ → World → Prop} :
  Program.Ends E (ccRecvFromSecureChannel host (.received chunk)) w Q ↔
    if PassesForMessage chunk then
      Program.Ends E (Program.lift (enqueueMessage w.recvQueue
          (some ⟨w.nextBuffer, some chunk, chunk.length⟩) (w.mallocs 3)))
        { w with mallocs := fun i => w.mallocs (i + 4), nextBuffer := w.nextBuffer + 1 }
        (fun r w' => Program.Ends E addRecvWorker { w' with recvQueue := r.2 }
          (fun _ => Q ccENone))
    else Q ccEErr (World.release
      { w with mallocs := fun i => w.mallocs (i + 3), nextBuffer := w.nextBuffer + 1 }
      ⟨w.nextBuffer, some chunk, chunk.length⟩)
  := by
  have hlength : chunk.length ≤ ptrdiffMax := hmax.trans ccRecvBufferSize_le_ptrdiffMax
  have hne : ¬ chunk.length = 0 := by omega
  have hcodes : ¬ ccENone = ccEErr := by decide
  simp only [ccRecvFromSecureChannel, Program.ends_bind, ends_malloc, h0, if_true,
    ReadResult.into_true, ReadResult.length, ReadResult.data, Program.ends_ite, hne,
    false_implies, true_and, not_false_eq_true, true_implies, hmin, ge_iff_le, Program.ends_pure,
    ends_allocBufferWithLength, h1, h2, Nat.reduceAdd, hlength, and_self,
    ends_fill_whole List.length_replicate, ends_queueReceived hmin, hcodes, not_true,
    Bool.true_eq_false, and_true]

/-- What a call of `read` returns is put on the receive queue if it passes for a message;
then five allocations have to succeed. -/
theorem ccRecvFromSecureChannel_ensures (hpos : 0 < chunk.length)
    (hmax : chunk.length ≤ ccRecvBufferSize) :
  Program.Ensures (ccRecvFromSecureChannel host (.received chunk)) w (fun _ w' =>
    (PassesForMessage chunk ∧ (∀ i < 5, w.mallocs i = true) ∧
      (∀ i, w'.mallocs i = w.mallocs (i + 5)) ∧
      enqueueMessage w.recvQueue (some ⟨w.nextBuffer, some chunk, chunk.length⟩) true
        = .ok (ccENone, w'.recvQueue)) ∨
    (¬ PassesForMessage chunk ∧ w'.recvQueue = w.recvQueue))
  := by
  by_cases hmin : 8 ≤ chunk.length
  · by_cases hmallocs : w.mallocs 0 = true ∧ w.mallocs 1 = true ∧ w.mallocs 2 = true
    · obtain ⟨h0, h1, h2⟩ := hmallocs
      apply (ends_ccRecvFromSecureChannel hmin hmax h0 h1 h2).mpr
      split
      · next hpasses =>
          apply Program.ensures_lift.mpr
          rintro ⟨ret, queue⟩ henqueue
          have h3 := enqueueMessage_malloc henqueue
          obtain rfl := (enqueueMessage_ok henqueue).1
          rw [h3] at henqueue
          refine ends_addRecvWorker.mpr
            ⟨fun _ => trivial, fun h4 => .inl ⟨hpasses, ?_, fun _ => rfl, henqueue⟩⟩
          intro i hi
          obtain rfl | rfl | rfl | rfl | rfl : i = 0 ∨ i = 1 ∨ i = 2 ∨ i = 3 ∨ i = 4 := by omega
          · apply h0
          · apply h1
          · apply h2
          · apply h3
          · apply h4
      · next hpasses => exact .inr ⟨hpasses, rfl⟩
    · apply ccRecvFromSecureChannel_no_buffer hmin hmallocs
  · apply ccRecvFromSecureChannel_short hpos (by omega)
    intro w' hqueue
    exact .inr ⟨fun h => hmin h.1, hqueue⟩

/-- A message is received when all allocations succeed. -/
theorem ccRecvFromSecureChannel_reaches (host : Host) (hpasses : PassesForMessage chunk)
    (hmax : chunk.length ≤ ccRecvBufferSize) (hmallocs : ∀ i < 5, w.mallocs i = true)
    {queue : MessageQueue Buffer}
    (henqueue : enqueueMessage w.recvQueue (some ⟨w.nextBuffer, some chunk, chunk.length⟩) true
      = .ok (ccENone, queue)) :
  Program.Reaches (ccRecvFromSecureChannel host (.received chunk)) w (fun _ w' =>
    w'.recvQueue = queue ∧ ∀ i, w'.mallocs i = w.mallocs (i + 5))
  := by
  rw [Program.Reaches, ends_ccRecvFromSecureChannel hpasses.1 hmax (hmallocs 0 (by omega))
    (hmallocs 1 (by omega)) (hmallocs 2 (by omega)), if_pos hpasses, hmallocs 3 (by omega),
    henqueue]
  simp only [Program.ends_lift_ok, ends_addRecvWorker, Nat.zero_add, hmallocs 4 (by omega),
    Bool.true_eq_false, false_implies, true_and, implies_true]

end

/-- What has the length of a header has one. -/
theorem hasHeader_received (addr : ℕ) {chunk : List UInt8} (hmin : 8 ≤ chunk.length) :
  HasHeader (⟨addr, some chunk, chunk.length⟩ : Buffer)
  := ⟨chunk, rfl, by omega⟩

/-- The calls that read the bytes `chunks` one after the other. -/
def receiveStep (host : Host) (w : World) (chunk : List UInt8) : Except Fault (ℤ × World) :=
  ccRecvFromSecureChannel host (.received chunk) w

/-- The buffers hold the messages `msgs`, one each. -/
def Carry (bufs : List Buffer) (msgs : List (List UInt8)) : Prop :=
  bufs.map (fun buf => (buf.data, buf.length)) = msgs.map (fun msg => (some msg, msg.length))

/-- The calls return, and the buffers on the receive queue are the messages `msgs`. -/
def Received (host : Host) (w : World) (chunks msgs : List (List UInt8)) : Prop :=
  ∃ rets w' bufs, Machine.run (receiveStep host) w chunks = .ok (rets, w') ∧
    w'.recvQueue.Holds bufs ∧ Carry bufs msgs

/-- A message of a switch. -/
structure OfpMessage (msg : List UInt8) : Prop where
  version : msg.getD 0 0 = ofpVersion
  length : (be16 (fun i => msg.getD i 0) 2).toNat = msg.length
  min : 8 ≤ msg.length
  max : msg.length ≤ 1024

theorem OfpMessage.passes {msg : List UInt8} (h : OfpMessage msg) :
  PassesForMessage msg
  := ⟨h.min, h.version, h.length ▸ h.max⟩

theorem Carry.unique {bufs : List Buffer} {msgs msgs' : List (List UInt8)}
    (h : Carry bufs msgs) (h' : Carry bufs msgs') :
  msgs = msgs'
  := by
  have hsame := congrArg (List.map Prod.fst) (h.symm.trans h')
  simp only [List.map_map, Function.comp_def] at hsame
  apply List.map_injective_iff.mpr (Option.some_injective _) hsame

/-- Calls that return have queued what passes for a message, and nothing else. -/
theorem run_receiveStep_ok {w w' : World} {chunks : List (List UInt8)} {rets : List ℤ}
    (hsizes : ∀ chunk ∈ chunks, 0 < chunk.length ∧ chunk.length ≤ ccRecvBufferSize)
    {old : List Buffer} (hqueue : w.recvQueue.Linked old)
    (hrun : Machine.run (receiveStep host) w chunks = .ok (rets, w')) :
  (∃ bufs, w'.recvQueue.Linked (old ++ bufs) ∧
    Carry bufs (chunks.filter (fun chunk => PassesForMessage chunk))) ∧
  ((∀ chunk ∈ chunks, PassesForMessage chunk) → ∀ i < 5 * chunks.length, w.mallocs i = true)
  := by
  induction chunks generalizing w old rets with
  | nil =>
      obtain ⟨-, rfl⟩ : [] = rets ∧ w = w' := by simpa [Machine.run] using hrun
      refine ⟨⟨[], by simpa using hqueue, rfl⟩, by simp⟩
  | cons chunk chunks ih =>
      obtain ⟨ret, w₁, rets', hstep, hrun', -⟩ := Machine.run_cons_ok hrun
      obtain ⟨hpos, hmax⟩ := hsizes chunk (by simp)
      have hrest : ∀ chunk ∈ chunks, 0 < chunk.length ∧ chunk.length ≤ ccRecvBufferSize :=
        fun c hc => hsizes c (List.mem_cons_of_mem _ hc)
      rcases Program.ensures_iff.mp (ccRecvFromSecureChannel_ensures hpos hmax) ret w₁ hstep with
        ⟨hpasses, hmallocs, hshift, henqueue⟩ | ⟨hpasses, hsame⟩
      · obtain ⟨queue, henqueue', hqueue₁⟩ :=
          hqueue.enqueue (enqueueMessage_header henqueue)
        rw [henqueue] at henqueue'
        obtain ⟨-, rfl⟩ := Prod.mk.inj (Except.ok.inj henqueue')
        obtain ⟨⟨bufs, hbufs, hcarry⟩, hmallocs'⟩ := ih hrest hqueue₁ hrun'
        constructor
        · refine ⟨_ :: bufs, by simpa using hbufs, ?_⟩
          rw [List.filter_cons_of_pos (by simpa using hpasses)]
          exact congrArg (List.cons _) hcarry
        · intro hall i hi
          by_cases hi5 : i < 5
          · apply hmallocs i hi5
          · rw [List.length_cons] at hi
            have hlater := hmallocs' (fun c hc => hall c (List.mem_cons_of_mem _ hc)) (i - 5)
              (by omega)
            rwa [hshift, Nat.sub_add_cancel (by omega)] at hlater
      · rw [← hsame] at hqueue
        obtain ⟨⟨bufs, hbufs, hcarry⟩, -⟩ := ih hrest hqueue hrun'
        constructor
        · use bufs, hbufs
          rw [List.filter_cons_of_neg (by simpa using hpasses)]
          apply hcarry
        · intro hall
          exact absurd (hall chunk (by simp)) hpasses

/-- Calls that read a message each return when all allocations succeed. -/
theorem run_receiveStep_returns (host : Host) {w : World} {chunks : List (List UInt8)}
    (hpasses : ∀ chunk ∈ chunks, PassesForMessage chunk ∧ chunk.length ≤ ccRecvBufferSize)
    {old : List Buffer} (hqueue : w.recvQueue.Linked old)
    (hmallocs : ∀ i < 5 * chunks.length, w.mallocs i = true) :
  ∃ rets w', Machine.run (receiveStep host) w chunks = .ok (rets, w')
  := by
  induction chunks generalizing w old with
  | nil => exact ⟨[], w, rfl⟩
  | cons chunk chunks ih =>
      obtain ⟨hpasses₁, hmax⟩ := hpasses chunk (by simp)
      obtain ⟨queue, henqueue, hqueue₁⟩ :=
        hqueue.enqueue (hasHeader_received w.nextBuffer hpasses₁.1)
      obtain ⟨ret, w₁, hstep, rfl, hshift⟩ := Program.reaches_iff.mp
        (ccRecvFromSecureChannel_reaches host hpasses₁ hmax
          (fun i hi => hmallocs i (by rw [List.length_cons]; omega)) henqueue)
      obtain ⟨rets, w', hrun⟩ := ih (fun c hc => hpasses c (List.mem_cons_of_mem _ hc)) hqueue₁
        (fun i hi => by rw [hshift]; exact hmallocs (i + 5) (by rw [List.length_cons]; omega))
      use ret :: rets, w'
      rw [Machine.run_cons hstep, hrun]
      rfl

/-- Leaving out chunks that are not empty leaves out bytes. -/
theorem filter_eq_of_flatten_length {chunks : List (List UInt8)} {p : List UInt8 → Bool}
    (hpos : ∀ chunk ∈ chunks, 0 < chunk.length)
    (hlength : chunks.flatten.length ≤ (chunks.filter p).flatten.length) :
  chunks.filter p = chunks
  := by
  induction chunks with
  | nil => rfl
  | cons chunk chunks ih =>
      have hle : (chunks.filter p).flatten.length ≤ chunks.flatten.length := by
        apply List.Sublist.length_le
        apply List.Sublist.flatten
        apply List.filter_sublist
      have hpos₁ := hpos chunk (by simp)
      rw [List.flatten_cons, List.length_append] at hlength
      cases hp : p chunk with
      | false =>
          rw [List.filter_cons_of_neg (by simp [hp])] at hlength
          omega
      | true =>
          rw [List.filter_cons_of_pos hp, List.flatten_cons, List.length_append] at hlength
          rw [List.filter_cons_of_pos hp, ih (fun c hc => hpos c (List.mem_cons_of_mem _ hc))
            (by omega)]

/-- The messages received are what passes for a message of what has been read. -/
theorem Received.filter_eq {chunks msgs : List (List UInt8)} (hfresh : w.recvQueue.Linked [])
    (hsizes : ∀ chunk ∈ chunks, 0 < chunk.length ∧ chunk.length ≤ ccRecvBufferSize)
    (h : Received host w chunks msgs) :
  chunks.filter (fun chunk => PassesForMessage chunk) = msgs
  := by
  obtain ⟨rets, w', bufs, hrun, hholds, hcarry⟩ := h
  obtain ⟨⟨bufs', hlinked, hcarry'⟩, -⟩ := run_receiveStep_ok hsizes hfresh hrun
  rw [List.nil_append] at hlinked
  obtain rfl := hholds.unique hlinked.holds
  apply hcarry'.unique hcarry

/-- However the bytes of the messages are cut, the messages on the receive queue are those
sent exactly when every call of `read` returned one message, and all allocations succeed. -/
theorem received_iff (host : Host) (w : World) (hfresh : w.recvQueue = createMessageQueue)
    (msgs chunks : List (List UInt8)) (hmsgs : ∀ msg ∈ msgs, OfpMessage msg)
    (hsizes : ∀ chunk ∈ chunks, 0 < chunk.length ∧ chunk.length ≤ ccRecvBufferSize)
    (hcut : chunks.flatten = msgs.flatten) :
  Received host w chunks msgs ↔
    chunks = msgs ∧ ∀ i < 5 * msgs.length, w.mallocs i = true
  := by
  have hlinked : w.recvQueue.Linked [] := by
    rw [hfresh]
    apply MessageQueue.ready_create.linked
  constructor
  · intro h
    have hfilter := h.filter_eq hlinked hsizes
    have hall : chunks.filter (fun chunk => PassesForMessage chunk) = chunks := by
      apply filter_eq_of_flatten_length (fun chunk hchunk => (hsizes chunk hchunk).1)
      rw [hfilter, hcut]
    obtain rfl : chunks = msgs := hall.symm.trans hfilter
    use rfl
    obtain ⟨rets, w', bufs, hrun, -, -⟩ := h
    obtain ⟨-, hmallocs⟩ := run_receiveStep_ok hsizes hlinked hrun
    apply hmallocs
    intro chunk hchunk
    apply (hmsgs chunk hchunk).passes
  · rintro ⟨rfl, hmallocs⟩
    have hpasses : ∀ chunk ∈ chunks,
        PassesForMessage chunk ∧ chunk.length ≤ ccRecvBufferSize :=
      fun chunk hchunk => ⟨(hmsgs chunk hchunk).passes, (hsizes chunk hchunk).2⟩
    obtain ⟨rets, w', hrun⟩ := run_receiveStep_returns host hpasses hlinked hmallocs
    obtain ⟨⟨bufs, hbufs, hcarry⟩, -⟩ := run_receiveStep_ok hsizes hlinked hrun
    rw [List.filter_eq_self.mpr (fun chunk hchunk => by simpa using (hpasses chunk hchunk).1)]
      at hcarry
    exact ⟨rets, w', bufs, hrun, hbufs.holds, hcarry⟩

/-- A hello with the xid `xid`. -/
def helloMessage (xid : UInt8) : List UInt8 :=
  [1, 0, 0, 8, 0, 0, 0, xid]

theorem helloMessage_ofpMessage (xid : UInt8) :
  OfpMessage (helloMessage xid)
  := by
  constructor
  · rfl
  · simp [be16, helloMessage]
  · simp [helloMessage]
  · simp [helloMessage]

/-- Two messages that are read one by one are received. -/
theorem received_two :
  Received (Host.plain true) World.start [helloMessage 1, helloMessage 2]
    [helloMessage 1, helloMessage 2]
  := by
  apply (received_iff _ _ rfl _ _ _ _ rfl).mpr ⟨rfl, fun _ _ => rfl⟩
  · intro msg hmsg
    rcases List.mem_pair.mp hmsg with rfl | rfl
    · apply helloMessage_ofpMessage
    · apply helloMessage_ofpMessage
  · intro chunk hchunk
    rcases List.mem_pair.mp hchunk with rfl | rfl
    · decide
    · decide

/-- Two messages that are read at once are received as one. -/
theorem received_as_one :
  ¬ ∀ (host : Host) (w : World) (msgs chunks : List (List UInt8)),
    w.recvQueue = createMessageQueue → (∀ msg ∈ msgs, OfpMessage msg) →
    (∀ chunk ∈ chunks, 0 < chunk.length ∧ chunk.length ≤ ccRecvBufferSize) →
    chunks.flatten = msgs.flatten → (∀ i, w.mallocs i = true) → Received host w chunks msgs
  := by
  intro h
  have hsizes : ∀ chunk ∈ [helloMessage 1 ++ helloMessage 2],
      0 < chunk.length ∧ chunk.length ≤ ccRecvBufferSize := by
    intro chunk hchunk
    obtain rfl := List.mem_singleton.mp hchunk
    decide
  have hreceived := h (Host.plain true) World.start
    [helloMessage 1, helloMessage 2] [helloMessage 1 ++ helloMessage 2] rfl
    (by
      intro msg hmsg
      rcases List.mem_pair.mp hmsg with rfl | rfl
      · apply helloMessage_ofpMessage
      · apply helloMessage_ofpMessage)
    hsizes rfl (fun _ => rfl)
  have hfilter := hreceived.filter_eq MessageQueue.ready_create.linked hsizes
  exact absurd hfilter (by decide)

/-! ### Sending -/

/-- The bytes of a message. -/
def Buffer.block (buf : Buffer) : List UInt8 :=
  buf.data.getD []

def bytesOf (msgs : List Buffer) : List UInt8 :=
  msgs.flatMap Buffer.block

/-- The write has taken all the bytes it was given. -/
def WriteResult.Completes (result : WriteResult) (bytes : List UInt8) : Prop :=
  ∃ n, result = .wrote n ∧ bytes.length ≤ n

@[simp]
theorem completes_wrote {n : ℕ} {bytes : List UInt8} :
  (WriteResult.wrote n).Completes bytes ↔ bytes.length ≤ n
  := by
  simp [WriteResult.Completes]

@[simp]
theorem not_completes_interrupted {bytes : List UInt8} :
  ¬ WriteResult.interrupted.Completes bytes
  := by
  simp [WriteResult.Completes]

@[simp]
theorem not_completes_failed {bytes : List UInt8} :
  ¬ WriteResult.failed.Completes bytes
  := by
  simp [WriteResult.Completes]

/-- One write for each message takes all of it. -/
def AllComplete : (ℕ → WriteResult) → List Buffer → Prop
  | _, [] => True
  | writes, msg :: msgs =>
    (writes 0).Completes msg.block ∧ AllComplete (fun i => writes (i + 1)) msgs

/-- The message has been made by one of the functions that create messages. -/
def CcCreated (buf : Buffer) : Prop :=
  ∃ host xid type body, Created host xid type body buf

/-- Flushing the queue that holds `msgs` returns; what has been written, and behind it what
the queue still holds, is what there was to be written; and the queue is empty if one write
for each message takes all of it. -/
def NothingLost (host : Host) (w : World) (msgs : List Buffer) : Prop :=
  ∃ ret w' rest, ccFlushToSecureChannel host w = .ok (ret, w') ∧ w'.sendQueue.Holds rest ∧
    w'.written ++ bytesOf rest = w.written ++ bytesOf msgs ∧
    (AllComplete w.writes msgs → rest = [])

theorem Created.block_eq {xid : UInt32} {type : UInt8} {body : List UInt8} {buf : Buffer}
    (h : Created host xid type body buf) :
  buf.block = ofpHeader host xid type (UInt16.ofNat (8 + body.length)) ++ body
  := by
  rw [Buffer.block, h.data, Option.getD_some]

namespace CcCreated

variable {buf : Buffer}

theorem data (h : CcCreated buf) :
  buf.data = some buf.block
  := by
  obtain ⟨host, xid, type, body, hcreated⟩ := h
  rw [hcreated.block_eq, hcreated.data]

theorem hasHeader (h : CcCreated buf) :
  HasHeader buf
  := by
  obtain ⟨host, xid, type, body, hcreated⟩ := h
  exact hcreated.hasHeader

theorem length_pos (h : CcCreated buf) :
  0 < buf.block.length
  := by
  obtain ⟨host, xid, type, body, hcreated⟩ := h
  rw [hcreated.block_eq, List.length_append, length_ofpHeader]
  omega

theorem length_eq (h : CcCreated buf) :
  buf.length = buf.block.length
  := by
  obtain ⟨host, xid, type, body, hcreated⟩ := h
  rw [hcreated.block_eq, hcreated.length, List.length_append, length_ofpHeader]

/-- The length in the header of a message is that of the message. -/
theorem header_length (h : CcCreated buf) :
  (be16 (memoryOf buf.block host.beyond) 2).toNat = buf.block.length
  := by
  obtain ⟨host', xid, type, body, hcreated⟩ := h
  rw [be16_htons (v := UInt16.ofNat (8 + body.length)), hcreated.block_eq, List.length_append,
    length_ofpHeader, UInt16.toNat_ofNat_of_lt' hcreated.size]
  · rw [hcreated.block_eq]
    rfl
  · rw [hcreated.block_eq]
    rfl

end CcCreated

theorem bytesAt_memoryOf (block : List UInt8) (beyond : Memory) :
  bytesAt (memoryOf block beyond) 0 block.length = block
  := by
  apply List.ext_getElem
  · simp [bytesAt]
  · intro i hi hi'
    simp [bytesAt, memoryOf, hi']

/-- A message is written whole if the write completes; otherwise less is written. -/
theorem flushMessage_reaches {msg : Buffer} (hmsg : CcCreated msg) :
  Program.Reaches (flushMessage host msg) w (fun stopped w' =>
    w'.sendQueue = w.sendQueue ∧ w'.writes = (fun i => w.writes (i + 1)) ∧
    ((w.writes 0).Completes msg.block ∧ stopped = none ∧ w'.written = w.written ++ msg.block ∨
      ¬ (w.writes 0).Completes msg.block ∧
        w'.written.length < w.written.length + msg.block.length))
  := by
  have hpos := hmsg.length_pos
  simp only [flushMessage, Program.ends_bind, ends_look hmsg.data (yields_ntohs 2),
    ends_look hmsg.data (yields_bcopy 0 _), hmsg.header_length, bytesAt_memoryOf, writeSocket,
    Program.ends_state, Program.ends_update]
  cases hwrite : w.writes 0 with
  | wrote n =>
      simp only [Program.ends_bind, Program.ends_update, Program.ends_pure, Program.ends_ite,
        ends_freeBuffer, World.release_toSwInfo, World.release_writes, World.release_written,
        completes_wrote, List.length_append, List.length_take]
      by_cases hn : msg.block.length ≤ n
      · have hfull : ¬ (min n msg.block.length > 0 ∧ min n msg.block.length < msg.length) := by
          rw [hmsg.length_eq]
          omega
        rw [List.take_of_length_le hn]
        simp only [hfull, false_implies, not_false_eq_true, true_implies, true_and, hn]
        exact .inl trivial
      · have hshort : min n msg.block.length < msg.block.length := by omega
        simp only [hn, not_false_eq_true, true_and, Nat.add_lt_add_iff_left, hshort, or_true,
          implies_true, and_self]
  | interrupted =>
      simp only [Program.ends_pure, Program.ends_bind, ends_freeBuffer, World.release_written]
      exact ⟨rfl, rfl, .inr ⟨not_completes_interrupted, by omega⟩⟩
  | failed =>
      simp only [Program.ends_pure, Program.ends_bind, ends_freeBuffer, World.release_written]
      exact ⟨rfl, rfl, .inr ⟨not_completes_failed, by omega⟩⟩

/-- `count` rounds are not too many, and the writes of as many messages complete. -/
def Writable (writes : ℕ → WriteResult) (msgs : List Buffer) (count : ℕ) : Prop :=
  count ≤ 11 ∧ AllComplete writes (msgs.take count)

/-- What `count` rounds do to a queue with the messages `msgs`: it is left with `rest`, and
as many messages have been written if they are `Writable`; otherwise some bytes are neither
written nor left. -/
structure Flushed (w : World) (msgs : List Buffer) (count : ℕ) (w' : World)
    (rest : List Buffer) : Prop where
  holds : w'.sendQueue.Holds rest
  written : Writable w.writes msgs count →
    rest = msgs.drop count ∧ w'.written = w.written ++ bytesOf (msgs.take count)
  lost : ¬ Writable w.writes msgs count →
    w'.written.length + (bytesOf rest).length < w.written.length + (bytesOf msgs).length

section

variable {w₁ w' : World} {msg : Buffer} {msgs rest : List Buffer} {count : ℕ}

theorem length_bytesOf_cons :
  (bytesOf (msg :: msgs)).length = msg.block.length + (bytesOf msgs).length
  := by
  rw [bytesOf, List.flatMap_cons, List.length_append, bytesOf]

theorem bytesOf_take_append_drop (msgs : List Buffer) (count : ℕ) :
  bytesOf (msgs.take count) ++ bytesOf (msgs.drop count) = bytesOf msgs
  := by
  rw [bytesOf, bytesOf, ← List.flatMap_append, List.take_append_drop, bytesOf]

/-- No bytes come up that were not there. -/
theorem Flushed.length_le (h : Flushed w msgs count w' rest) :
  w'.written.length + (bytesOf rest).length ≤ w.written.length + (bytesOf msgs).length
  := by
  by_cases hwritable : Writable w.writes msgs count
  · obtain ⟨rfl, hwritten⟩ := h.written hwritable
    rw [hwritten, ← bytesOf_take_append_drop msgs count, List.length_append, List.length_append]
    omega
  · have hlost := h.lost hwritable
    omega

/-- After a round that writes its message, the others do what they do. -/
theorem Flushed.cons (hcount : count ≤ 10) (hcomplete : (w.writes 0).Completes msg.block)
    (hwrites : w₁.writes = fun i => w.writes (i + 1))
    (hwritten : w₁.written = w.written ++ msg.block) (h : Flushed w₁ msgs count w' rest) :
  Flushed w (msg :: msgs) (count + 1) w' rest
  := by
  constructor
  · apply h.holds
  · rintro ⟨-, -, hall⟩
    rw [← hwrites] at hall
    obtain ⟨rfl, hwritten'⟩ := h.written ⟨by omega, hall⟩
    use rfl
    rw [hwritten', hwritten, List.append_assoc]
    rfl
  · intro hnot
    have hlost := h.lost (fun hwritable =>
      hnot ⟨by omega, hcomplete, hwrites ▸ hwritable.2⟩)
    rw [hwritten, List.length_append] at hlost
    rw [length_bytesOf_cons]
    omega

/-- After a round that loses bytes they stay lost. -/
theorem Flushed.of_lost (hnot : ¬ Writable w.writes (msg :: msgs) (count + 1))
    (hholds : w'.sendQueue.Holds rest)
    (hless : w₁.written.length < w.written.length + msg.block.length)
    (hle : w'.written.length + (bytesOf rest).length
      ≤ w₁.written.length + (bytesOf msgs).length) :
  Flushed w (msg :: msgs) (count + 1) w' rest
  := by
  constructor
  · apply hholds
  · intro hwritable
    exact absurd hwritable hnot
  · intro _
    rw [length_bytesOf_cons]
    omega

end

/-- The loop returns, whatever the writes come to. -/
theorem flushLoop_reaches (host : Host) {count : ℕ} {msgs : List Buffer}
    (hmsgs : ∀ msg ∈ msgs, CcCreated msg) (hqueue : w.sendQueue.Holds msgs)
    (hcount : count ≤ msgs.length % 2 ^ 32) :
  Program.Reaches (flushLoop host count) w (fun _ w' => ∃ rest, Flushed w msgs count w' rest)
  := by
  induction count generalizing w msgs with
  | zero =>
      simp only [flushLoop, Program.ends_pure]
      use msgs, hqueue
      · intro _
        simp [bytesOf]
      · intro hnot
        exact absurd ⟨by omega, trivial⟩ hnot
  | succ count ih =>
      cases msgs with
      | nil => simp at hcount
      | cons msg msgs =>
          have hmsg := hmsgs msg (by simp)
          have hpos := hmsg.length_pos
          obtain ⟨queue, hdequeue, hqueue'⟩ :=
            hqueue.dequeue_cons (hqueue.length_ne_zero (by omega))
          simp only [flushLoop, Program.ends_bind, Program.ends_state, hdequeue,
            Program.ends_lift_ok, Program.ends_update, Program.ends_ite, Program.ends_pure]
          constructor
          · -- the message has left the queue, and there are too many behind it
            intro hmany
            use msgs
            apply Flushed.of_lost (fun h => by have := h.1; omega) hqueue' _ le_rfl
            apply Nat.lt_add_of_pos_right hpos
          · intro hfew
            apply (flushMessage_reaches hmsg).mono
            rintro stopped w₁ ⟨hsame, hwrites, h⟩
            dsimp only at hsame hwrites h
            have hqueue₁ : w₁.sendQueue.Holds msgs := by
              rw [hsame]
              apply hqueue'
            have hloop := ih (w := w₁) (fun m hm => hmsgs m (by simp [hm])) hqueue₁
              (by rw [List.length_cons] at hcount; omega)
            rcases h with ⟨hcomplete, rfl, hwritten⟩ | ⟨hincomplete, hless⟩
            · apply hloop.mono
              rintro _ w' ⟨rest, hflushed⟩
              use rest
              apply hflushed.cons (by omega) hcomplete hwrites hwritten
            · have hnot : ¬ Writable w.writes (msg :: msgs) (count + 1) :=
                fun h => hincomplete h.2.1
              -- the message is lost, whether the loop goes on or not
              cases stopped with
              | some ret =>
                  use msgs
                  apply Flushed.of_lost hnot hqueue₁ hless le_rfl
              | none =>
                  apply hloop.mono
                  rintro _ w' ⟨rest, hflushed⟩
                  use rest
                  apply Flushed.of_lost hnot hflushed.holds hless hflushed.length_le

/-- How many rounds a queue of `n` messages is flushed for: its length as an `int`. -/
def flushCount (n : ℕ) : ℕ :=
  (UInt32.ofNat n).toInt32.toInt.toNat

theorem flushCount_le (n : ℕ) :
  flushCount n ≤ n % 2 ^ 32
  := by
  have hlt := Nat.mod_lt n (show 0 < 2 ^ 32 by omega)
  rw [flushCount, Int32.toInt, UInt32.toBitVec_toInt32, BitVec.toInt_eq_toNat_cond,
    UInt32.toNat_toBitVec, UInt32.toNat_ofNat']
  split <;> omega

/-- A queue is flushed for as many rounds as its length says. -/
theorem ccFlushToSecureChannel_reaches (host : Host) {msgs : List Buffer}
    (hmsgs : ∀ msg ∈ msgs, CcCreated msg) (hqueue : w.sendQueue.Holds msgs) :
  Program.Reaches (ccFlushToSecureChannel host) w (fun _ w' =>
    ∃ rest, Flushed w msgs (flushCount msgs.length) w' rest)
  := by
  have hloop := flushLoop_reaches host hmsgs hqueue (flushCount_le _)
  obtain ⟨_, _, _, _, hlength⟩ := id hqueue
  simp only [ccFlushToSecureChannel, Program.ends_bind, Program.ends_state, Program.ends_ite,
    Program.ends_pure, hlength]
  refine ⟨fun hzero => ?_, fun _ => hloop⟩
  have hcount : flushCount msgs.length = 0 := by
    rw [flushCount, hzero]
    rfl
  rw [hcount] at hloop ⊢
  apply hloop

/-- Nothing is lost exactly when the length of the queue, as an `int`, is at most 11 and the
writes of as many messages complete, unless that leaves messages on a queue that could have
been written whole: its length is then not the number of its messages. -/
theorem nothingLost_iff (host : Host) (w : World) (msgs : List Buffer)
    (hmsgs : ∀ msg ∈ msgs, CcCreated msg) (hqueue : w.sendQueue.Holds msgs) :
  NothingLost host w msgs ↔
    flushCount msgs.length ≤ 11 ∧ AllComplete w.writes (msgs.take (flushCount msgs.length)) ∧
      (AllComplete w.writes msgs → flushCount msgs.length = msgs.length)
  := by
  obtain ⟨ret, w', hflush, rest, hflushed⟩ :=
    Program.reaches_iff.mp (ccFlushToSecureChannel_reaches host hmsgs hqueue)
  have hle := (flushCount_le msgs.length).trans (Nat.mod_le _ _)
  constructor
  · rintro ⟨ret', w'', rest', hflush', hrest', hbytes, hempty⟩
    obtain ⟨-, rfl⟩ := Prod.mk.inj (Except.ok.inj (hflush.symm.trans hflush'))
    obtain rfl := hflushed.holds.unique hrest'
    by_cases hwritable : Writable w.writes msgs (flushCount msgs.length)
    · use hwritable.1, hwritable.2
      intro hall
      have hnil := (hflushed.written hwritable).1.symm.trans (hempty hall)
      have hdrop := List.drop_eq_nil_iff.mp hnil
      omega
    · have hless := hflushed.lost hwritable
      have hlength := congrArg List.length hbytes
      rw [List.length_append, List.length_append] at hlength
      omega
  · rintro ⟨hsmall, hcomplete, hall⟩
    obtain ⟨rfl, hwritten⟩ := hflushed.written ⟨hsmall, hcomplete⟩
    refine ⟨ret, w', _, hflush, hflushed.holds, ?_, fun h => ?_⟩
    · rw [hwritten, List.append_assoc, bytesOf_take_append_drop]
    · rw [hall h, List.drop_length]

/-- A hello that the host has created. -/
def createdHello : Buffer where
  addr := 0
  data := some (ofpHeader (Host.plain true) 1 ofptHello 8)
  length := 8

theorem createdHello_created :
  CcCreated createdHello
  := ⟨Host.plain true, 1, ofptHello, [], rfl, rfl, by decide⟩

/-- An echo reply with a body that the host has created. -/
def createdEchoReply : Buffer where
  addr := 1
  data := some (ofpHeader (Host.plain true) 2 ofptEchoReply 10 ++ [6, 7])
  length := 10

theorem createdEchoReply_created :
  CcCreated createdEchoReply
  := ⟨Host.plain true, 2, ofptEchoReply, [6, 7], rfl, rfl, by decide⟩

/-- A queue with two messages. -/
theorem holds_created :
  ∃ queue : MessageQueue Buffer, queue.Holds [createdHello, createdEchoReply]
  := by
  obtain ⟨queue, -, hqueue⟩ :=
    MessageQueue.ready_create.linked.enqueue createdHello_created.hasHeader
  obtain ⟨queue', -, hqueue'⟩ := hqueue.enqueue createdEchoReply_created.hasHeader
  exact ⟨queue', hqueue'.holds⟩

theorem forall_created :
  ∀ msg ∈ [createdHello, createdEchoReply], CcCreated msg
  := by
  intro msg hmsg
  rcases List.mem_pair.mp hmsg with rfl | rfl
  · exact createdHello_created
  · exact createdEchoReply_created

theorem nothingLost_hello :
  ∃ w, w.sendQueue.Holds [createdHello, createdEchoReply] ∧
    NothingLost (Host.plain true) w [createdHello, createdEchoReply]
  := by
  obtain ⟨queue, hqueue⟩ := holds_created
  use { World.fresh (fun _ => true) (fun i => .wrote (8 + 2 * i)) with sendQueue := queue }, hqueue
  apply (nothingLost_iff _ _ _ forall_created hqueue).mpr
  exact ⟨by decide, ⟨⟨8, rfl, by decide⟩, ⟨10, rfl, by decide⟩, trivial⟩, fun _ => rfl⟩

/-- A message whose write is interrupted is lost. -/
theorem interrupted_lost :
  ¬ ∀ (host : Host) (w : World) (msgs : List Buffer), (∀ msg ∈ msgs, CcCreated msg) →
    w.sendQueue.Holds msgs → NothingLost host w msgs
  := by
  intro h
  obtain ⟨queue, hqueue⟩ := holds_created
  have hmsgs := forall_created
  let w : World := { World.start with sendQueue := queue }
  obtain ⟨ret, w', rest, hflush, hrest, hbytes, -⟩ :=
    h (Host.plain true) w [createdHello, createdEchoReply] hmsgs hqueue
  have hreaches := ccFlushToSecureChannel_reaches (Host.plain true) (w := w) hmsgs hqueue
  obtain ⟨rest', hflushed⟩ := (Program.ends_of_ok hflush).mp hreaches
  obtain rfl := hrest.unique hflushed.holds
  have hless := hflushed.lost (fun hwritable => not_completes_interrupted hwritable.2.1)
  have hlength := congrArg List.length hbytes
  rw [List.length_append, List.length_append] at hlength
  omega

end CcController
