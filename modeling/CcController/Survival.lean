import CcController.Ownership

/-!
# What the main thread survives

The main thread of a connection follows a null pointer when an allocation fails whose result it
does not look at, or when `read` fails, and a pointer to released memory when it puts a message on
a receive queue that has been emptied before. Nothing else stops it (`main_stops_iff`).
-/

namespace CcController

/-- What stops the main thread in its next turn, when `es` has been seen of the connection. -/
def Connection.MainStops (c : Connection) (es : List (Option Event)) (answer : Answer) : Prop :=
  match c.main with
  | .atRead =>
    answer.read.into (c.world.mallocs 0) = .failed ∨
      8 ≤ answer.read.data.length ∧ ¬ (c.world.mallocs 1 ∧ c.world.mallocs 2)
  | .atEnqueue _ =>
    c.world.mallocs 0 = false ∨
      c.world.recvQueue.Holds [] ∧ eventsOf Event.dequeuedBuf es ≠ []
  | .atAddWorker => c.world.mallocs 0 = false
  | _ => False

section

variable {σ φ α : Type} {m : Program σ φ α} {s : σ}

/-- A program that stops only if `P`, and returns only if not, stops exactly if `P`. -/
theorem stops_iff {P : Prop} (h : Program.Ends (fun _ => P) m s (fun _ _ => ¬ P)) :
  (∃ f, m s = .error f) ↔ P
  := by
  cases hm : m s with
  | error f =>
      rw [Program.Ends, hm] at h
      exact ⟨fun _ => h, fun _ => ⟨f, rfl⟩⟩
  | ok r =>
      rw [Program.Ends, hm] at h
      constructor
      · rintro ⟨f, hf⟩
        cases hf
      · intro hP
        exact absurd hP h

end

section

variable {host : Host} {w : World} {P : Prop}

/-- A read that fails is not survived. -/
theorem fetch_stops {read : ReadResult} (hread : read.into (w.mallocs 0) = .failed) (hP : P) :
  Program.Ends (fun _ => P) (fetch host read) w (fun _ _ => ¬ P)
  := by
  have hlength : ¬ ReadResult.failed.length ≤ ptrdiffMax := by decide
  have hmin : ReadResult.failed.length ≥ 8 := by decide
  simp only [fetch, Program.ends_bind, ends_malloc, hread]
  generalize ReadResult.failed.length = n at hlength hmin
  have hne : ¬ n = 0 := by omega
  simp only [Program.ends_ite, hne, false_implies, true_and, hmin, Program.ends_bind,
    ends_allocBufferWithLength, hlength, and_false, if_false, fill, Program.ends_stop,
    implies_true, not_true, hP]

/-- A chunk as long as a header stops the main thread exactly if there is no buffer for it. -/
theorem fetch_long_stops {chunk : List UInt8} (h0 : w.mallocs 0 = true) (hmin : 8 ≤ chunk.length)
    (hmax : chunk.length ≤ ccRecvBufferSize) (hP : P ↔ ¬ (w.mallocs 1 ∧ w.mallocs 2)) :
  Program.Ends (fun _ => P) (fetch host (.received chunk)) w (fun _ _ => ¬ P)
  := by
  have hlength : chunk.length ≤ ptrdiffMax := hmax.trans ccRecvBufferSize_le_ptrdiffMax
  have hne : ¬ chunk.length = 0 := by omega
  simp only [fetch, Program.ends_bind, ends_malloc, h0, ReadResult.into_true, ReadResult.length,
    ReadResult.data, Program.ends_ite, hne, false_implies, true_and, not_false_eq_true,
    true_implies, hmin, ge_iff_le, Program.ends_pure, ends_allocBufferWithLength, hlength,
    and_true, not_true_eq_false]
  constructor
  · intro h1
    exact hP.mpr (fun h => by simp [h1] at h)
  · intro h1
    cases h2 : w.mallocs (1 + 1) with
    | false =>
        simp only [Bool.false_eq_true, if_false, fill, Program.ends_stop]
        exact hP.mpr (fun h => by simp [h2] at h)
    | true =>
        have hfine : ¬ P := fun h => hP.mp h ⟨h1, h2⟩
        simp only [if_true, ends_fill_whole List.length_replicate, ends_look_version hmin,
          ends_look_length hmin, ends_freeBuffer, ne_eq, gt_iff_lt, Nat.not_lt, hfine,
          not_false_eq_true, implies_true, and_self]

/-- A chunk stops the main thread exactly if there is no memory for it, or it is none. -/
theorem fetch_ends {read : ReadResult} (hmax : read.data.length ≤ ccRecvBufferSize)
    (hP : P ↔ read.into (w.mallocs 0) = .failed ∨
      8 ≤ read.data.length ∧ ¬ (w.mallocs 1 ∧ w.mallocs 2)) :
  Program.Ends (fun _ => P) (fetch host read) w (fun _ _ => ¬ P)
  := by
  by_cases hread : read.into (w.mallocs 0) = .failed
  · exact fetch_stops hread (hP.mpr (.inl hread))
  rw [or_iff_right hread] at hP
  cases read with
  | failed => exact absurd (ite_self _) hread
  | received chunk =>
      by_cases hmin : 8 ≤ chunk.length
      · have hpos : 0 < (ReadResult.received chunk).length := show 0 < chunk.length by omega
        have h0 : w.mallocs 0 = true := by
          by_contra hfails
          rw [Bool.not_eq_true] at hfails
          exact hread (hfails ▸ ReadResult.into_false hpos)
        exact fetch_long_stops h0 hmin hmax (by simp [hP, ReadResult.data, hmin])
      · have hfine : ¬ P := by
          rw [hP]
          exact fun h => hmin h.1
        have hkept : (ReadResult.received chunk).into (w.mallocs 0) = .received chunk := by
          unfold ReadResult.into at hread ⊢
          split_ifs at hread ⊢ with h
          · rfl
          · exact absurd rfl hread
        simp only [fetch, Program.ends_bind, ends_malloc, hkept, ReadResult.length,
          Program.ends_ite, ge_iff_le, hmin, false_implies, true_and, not_false_eq_true,
          true_implies, Program.ends_pure]
        exact ⟨fun _ => hfine, fun _ => hfine⟩

end

/-! ### Putting a message on the receive queue -/

section

variable {c : Connection} {es : List (Option Event)} {bufs msgs : List Buffer} {lost : ℕ}

/-- A queue that has been drained has had something taken from it. -/
theorem drained_dequeued {mallocs : ℕ → Bool} {writes : ℕ → WriteResult} {turns : List Turn}
    (hbounded : ∀ turn ∈ turns, turn.Bounded)
    (hrun : Machine.run connectionStep (Connection.start mallocs writes) turns = .ok (es, c))
    (hdrained : c.world.recvQueue.Drained) :
  eventsOf Event.dequeuedBuf es ≠ []
  := by
  induction turns using List.reverseRecOn generalizing es c with
  | nil =>
      obtain ⟨rfl, rfl⟩ : [] = es ∧ Connection.start mallocs writes = c := by
        simpa [Machine.run] using hrun
      exact absurd hdrained MessageQueue.ready_create.linked.not_drained
  | append_singleton turns turn ih =>
      obtain ⟨es', c₁, e, hrun', hstep, rfl⟩ := Machine.run_concat_ok hrun
      have hbefore : ∀ turn ∈ turns, turn.Bounded := fun t ht => hbounded t (by simp [ht])
      obtain ⟨bufs, hconserves⟩ := conserves_run hbefore hrun'
      have hearlier : c₁.world.recvQueue.Drained →
          eventsOf Event.dequeuedBuf (es' ++ [e]) ≠ [] := by
        intro h
        rw [eventsOf_concat]
        exact List.append_ne_nil_of_left_ne_nil (ih hbefore hrun' h) _
      generalize hqueue : c.world.recvQueue = q at hdrained
      have hmoves := (connectionStep_moves hstep).recvQueue (hbounded turn (by simp))
      rw [hqueue] at hmoves
      cases hmoves with
      | stays _ _ => exact hearlier hdrained
      | enqueues henqueue =>
          exact absurd hdrained (hconserves.contains.enqueue henqueue).2.not_drained
      | @dequeues buf _ hdequeue =>
          cases buf with
          | none =>
              rw [(hconserves.contains.dequeue_none hdequeue).1] at hdrained
              exact hearlier hdrained
          | some buf =>
              rw [eventsOf_concat]
              simp [Event.dequeuedBuf]

theorem Carry.mem {msgs : List (List UInt8)} (h : Carry bufs msgs) {buf : Buffer}
    (hbuf : buf ∈ bufs) :
  ∃ msg ∈ msgs, buf.data = some msg
  := by
  have hmem := List.mem_map_of_mem (f := fun buf : Buffer => (buf.data, buf.length)) hbuf
  rw [h] at hmem
  obtain ⟨msg, hmsg, heq⟩ := List.mem_map.mp hmem
  exact ⟨msg, hmsg, (Prod.mk.inj heq).1.symm⟩

/-- A message in the hands of the main thread has a header. -/
theorem Conserves.hasHeader (h : Conserves c es bufs) {tmpBuff : Buffer}
    (hmain : c.main = .atEnqueue tmpBuff) :
  HasHeader tmpBuff
  := by
  have hmem : tmpBuff ∈ eventsOf Event.queuedBuf es ++ c.main.inHand := by
    simp [hmain, MainState.inHand]
  obtain ⟨chunk, hchunk, hdata⟩ := h.passed.mem hmem
  have hpasses : PassesForMessage chunk := by simpa using (List.mem_filter.mp hchunk).2
  have hmin := hpasses.1
  exact ⟨chunk, hdata, by omega⟩

/-- A message cannot be queued without memory for an element, nor once the queue has been
emptied. -/
theorem enqueueReceived_ends (h : Conserves c es bufs) (hemptied : Emptied c es)
    (hdrained : c.world.recvQueue.Drained → eventsOf Event.dequeuedBuf es ≠ [])
    {tmpBuff : Buffer} (hmain : c.main = .atEnqueue tmpBuff) {P : Prop}
    (hP : P ↔ c.world.mallocs 0 = false ∨
      c.world.recvQueue.Holds [] ∧ eventsOf Event.dequeuedBuf es ≠ []) :
  Program.Ends (fun _ => P) (enqueueReceived tmpBuff) c.world (fun _ _ => ¬ P)
  := by
  simp only [enqueueReceived, Program.ends_bind, ends_malloc, Program.ends_state]
  cases h0 : c.world.mallocs 0 with
  | false =>
      apply Program.ends_lift_error
      · intro r hok
        exact absurd (enqueueMessage_malloc hok) Bool.false_ne_true
      · intro _
        exact hP.mpr (.inl h0)
  | true =>
      obtain hlinked | ⟨rfl, hq, -⟩ := h.contains
      · have hfine : ¬ P := by
          rw [hP, h0]
          rintro (hfalse | ⟨hempty, hused⟩)
          · cases hfalse
          · exact hlinked.not_drained (hemptied.recvQueue hempty hused)
        obtain ⟨queue, henqueue, hlinked'⟩ := hlinked.enqueue (h.hasHeader hmain)
        have hcodes : ¬ ccENone = ccEErr := by decide
        rw [henqueue]
        simp only [Program.ends_lift_ok, Program.ends_update, Program.ends_ite, hcodes,
          false_implies, true_and, not_false_eq_true, true_implies, Program.ends_pure]
        exact hfine
      · have hstops : P := hP.mpr (.inr ⟨h.contains.holds, hdrained hq⟩)
        obtain ⟨f, hf⟩ := hq.enqueue tmpBuff true
        rw [hf]
        exact hstops

/-- A round of the loop always returns. -/
theorem flushRound_reaches (h : Transmits c es msgs lost) (host : Host) (count : ℕ) :
  Program.Reaches (flushRound host count) c.world (fun _ _ => True)
  := by
  simp only [flushRound, Program.ends_bind, Program.ends_state]
  obtain ⟨-, hnothing⟩ | ⟨msg, rest, rfl, -, q', hfirst, -⟩ := h.contains.dequeue
  · rw [hnothing]
    trivial
  · rw [hfirst]
    simp only [Program.ends_lift_ok, Program.ends_update, Program.ends_ite, Program.ends_pure,
      implies_true, true_and, Program.ends_bind]
    intro _
    have hmem : msg ∈ c.world.sent.map Prod.fst := by
      rw [h.sent]
      simp
    obtain ⟨sent, hsent, rfl⟩ := List.mem_map.mp hmem
    apply (flushMessage_reaches (h.created sent hsent)).mono
    intro stopped w' _
    cases stopped with
    | none => trivial
    | some ret => trivial

end

theorem connectionStep_main_stops {c : Connection} {host : Host} {answer : Answer} :
  (∃ f, connectionStep c (.main host answer) = .error f) ↔
    ∃ f, mainStep host answer c.main c.world = .error f
  := by
  simp only [connectionStep]
  cases mainStep host answer c.main c.world with
  | error f => simp [Except.map]
  | ok r => simp [Except.map]

/-- In every state that a connection reaches, whatever turns its two threads take, the next turn
of the main thread stops the process exactly if there is no memory for what it reads or adds, or
`read` fails, or it is to queue a message and the receive queue has been emptied before. What the
allocator answers is not the connection's to say; but it has every buffer that has been released
so far stored in after its release. -/
theorem main_stops_iff (mallocs : ℕ → Bool) (writes : ℕ → WriteResult) (turns : List Turn)
    (hbounded : ∀ turn ∈ turns, turn.Bounded) (es : List (Option Event)) (c : Connection)
    (hrun : Machine.run connectionStep (Connection.start mallocs writes) turns = .ok (es, c))
    (host : Host) (answer : Answer) (hread : answer.read.data.length ≤ ccRecvBufferSize) :
  ((∃ f, connectionStep c (.main host answer) = .error f) ↔ c.MainStops es answer) ∧
    c.world.stale = c.world.released
  := by
  refine ⟨?_, stale_run hrun⟩
  obtain ⟨bufs, hconserves⟩ := conserves_run hbounded hrun
  obtain ⟨msgs, lost, htransmits, -⟩ := transmits_run hbounded hrun
  rw [connectionStep_main_stops]
  apply stops_iff
  generalize hP : c.MainStops es answer = P
  rw [eq_iff_iff, Connection.MainStops] at hP
  cases hmain : c.main with
  | atSelect =>
      rw [hmain] at hP
      have hfine : ¬ P := hP.mpr
      simp only [mainStep]
      cases answer.select with
      | readable => exact hfine
      | timeout => exact hfine
      | interrupted => exact hfine
      | failed => exact hfine
  | atRead =>
      rw [hmain] at hP
      simp only [mainStep, Program.ends_bind, Program.ends_pure]
      exact fetch_ends hread hP.symm
  | atEnqueue tmpBuff =>
      rw [hmain] at hP
      exact enqueueReceived_ends hconserves (emptied_run hbounded hrun)
        (drained_dequeued hbounded hrun) hmain hP.symm
  | atAddWorker =>
      rw [hmain] at hP
      simp only [mainStep, Program.ends_bind, ends_addRecvWorker, Program.ends_pure]
      exact ⟨hP.mp, fun h hstops => by simp [hP.mpr hstops] at h⟩
  | received =>
      rw [hmain] at hP
      have hfine : ¬ P := hP.mpr
      simp only [mainStep, Program.ends_bind, Program.ends_state, Program.ends_ite,
        Program.ends_pure]
      exact ⟨fun _ => hfine, fun _ => ⟨fun _ => hfine, fun _ => hfine⟩⟩
  | atFlush =>
      rw [hmain] at hP
      have hfine : ¬ P := hP.mpr
      simp only [mainStep, Program.ends_bind, Program.ends_state, Program.ends_ite,
        Program.ends_pure]
      exact ⟨fun _ => hfine, fun _ => hfine⟩
  | flushing count =>
      rw [hmain] at hP
      have hfine : ¬ P := hP.mpr
      cases count with
      | zero => exact hfine
      | succ count =>
          obtain ⟨r, w', hok, -⟩ :=
            Program.reaches_iff.mp (flushRound_reaches htransmits host count)
          exact (Program.ends_of_ok hok).mpr hfine
  | ended =>
      rw [hmain] at hP
      have hfine : ¬ P := hP.mpr
      exact hfine

/-- A second message is read when the first one has been handled and answered. -/
theorem main_stops_second :
  ∃ es c, Machine.run connectionStep (Connection.start (fun _ => true) (fun _ => .wrote 100))
      (serviceTurns ++ helloTurns.take 3) = .ok (es, c) ∧ c.MainStops es ⟨.timeout, .failed, 0⟩
  := by
  have hbounded : ∀ turn ∈ serviceTurns ++ helloTurns.take 3, turn.Bounded := by
    intro turn hturn
    obtain hturn | hturn := List.mem_append.mp hturn
    · exact serviceTurns_bounded turn hturn
    · exact helloTurns_bounded turn (List.mem_of_mem_take hturn)
  exact ⟨_, _, rfl, (main_stops_iff (fun _ => true) (fun _ => .wrote 100)
    (serviceTurns ++ helloTurns.take 3) hbounded _ _ rfl (Host.plain true) ⟨.timeout, .failed, 0⟩
    (Nat.zero_le _)).1.mp ⟨.dangling, rfl⟩⟩

end CcController
