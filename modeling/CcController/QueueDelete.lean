import CcController.Queue

/-!
# Deleting a message queue

`deleteMessageQueue` releases the elements of a queue and their buffers, then the head
element. The `return` behind it stands outside the `else` it is indented under, so the queue
itself is never released, `queue_lock` stays taken and the result is `CC_E_ERR`
(`delete_message_queue_stops_short`).
-/

namespace CcController

variable {β : Type}

/-- What is left of a queue that is being deleted: the memory of its elements and its head
pointer, whether its lock is taken, whether it is itself allocated, and the buffers that
have been released. -/
structure QueueDeletion (β : Type) where
  elements : Heap (MessageQueueElement β)
  head : Option ℕ
  locked : Bool
  allocated : Bool
  released : List β

/-- The loop of `deleteMessageQueue`, followed for `fuel` rounds. -/
def deleteElements : ℕ → QueueDeletion β → Except Fault (QueueDeletion β)
  | 0, _ => .error .diverges
  | fuel + 1, queue => do
    let head ← queue.elements.read queue.head
    match head.next with
    | none => .ok queue
    | some element => do
      let e ← queue.elements.read (some element)
      match e.data with
      | some buf =>
        let elements ← queue.elements.write queue.head { head with next := e.next }
        let elements ← elements.free (some element)
        deleteElements fuel
          { queue with elements := elements, released := queue.released ++ [buf] }
      | none =>
        -- the head goes on linking to the element
        let elements ← queue.elements.free (some element)
        deleteElements fuel { queue with elements := elements }

/-- There are no more rounds than there have been elements. -/
def deleteMessageQueue (queue : MessageQueue β) : Except Fault (ℤ × QueueDeletion β) := do
  let queue ← deleteElements (queue.elements.limit + 1) ⟨queue.elements, queue.head, true, true, []⟩
  if queue.head ≠ none then
    let elements ← queue.elements.free queue.head
    .ok (ccEErr, { queue with elements := elements })
  else
    .ok (ccEErr, { queue with locked := false })

namespace MessageQueue

/-! ### Which queues there are -/

/-- The only buffer has been dequeued, and the tail pointer is left at its element. -/
def Drained (q : MessageQueue β) : Prop :=
  ∃ hd a, q.Lies hd [] ∧ q.tail = some a ∧ a < q.elements.limit ∧ q.elements.cells a = none

/-- A drained queue takes no more buffers. -/
theorem Drained.enqueue [HasData β] {q : MessageQueue β} (h : q.Drained) (b : β)
    (malloc : Bool) :
  ∃ f, enqueueMessage q (some b) malloc = .error f
  := by
  obtain ⟨hd, a, hlies, htail, hlt, hcell⟩ := h
  cases hok : enqueueMessage q (some b) malloc with
  | error f => exact ⟨f, rfl⟩
  | ok r =>
      obtain ⟨type, htype⟩ := headerType_eq_ok_iff.mpr (enqueueMessage_header hok)
      obtain rfl := enqueueMessage_malloc hok
      have hcell' : (q.elements.alloc ⟨some b, none⟩).cells a = none := by
        rw [Heap.alloc_cells_of_ne _ (Nat.ne_of_lt hlt), hcell]
      simp [enqueueMessage, htype, htail, Heap.read_dangling hcell'] at hok

/-- Dequeueing finds nothing to take in a queue without elements. -/
theorem Lies.dequeue_nil {q : MessageQueue β} {hd : ℕ × Option β} (h : q.Lies hd []) :
  dequeueMessage q = .ok (none, q)
  := by
  have hcell := h.cell [] rfl
  simp [dequeueMessage, h.head, Heap.read_some hcell]

/-- Dequeueing takes nothing from a queue whose length has wrapped around to zero. -/
theorem Lies.dequeue_wrapped {q : MessageQueue β} {hd : ℕ × Option β}
    {es : List (ℕ × Option β)} (h : q.Lies hd es) (hlen : q.length = 0) :
  dequeueMessage q = .ok (none, q)
  := by
  have hcell := h.cell [] rfl
  simp [dequeueMessage, h.head, Heap.read_some hcell, hlen]

/-- Every queue there is links its buffers from the head element to the tail, or has been
drained. -/
theorem queueStep_linked_or_drained [HasData β] {q q' : MessageQueue β} {c : QueueCall β}
    {o : QueueReply β} (hq : (∃ bufs, q.Linked bufs) ∨ q.Drained)
    (hok : queueStep q c = .ok (o, q')) :
  (∃ bufs, q'.Linked bufs) ∨ q'.Drained
  := by
  cases c with
  | enqueueMessage b malloc =>
      rcases hq with ⟨bufs, hlinked⟩ | hdrained
      · cases henqueue : enqueueMessage q (some b) malloc with
        | error f => simp [queueStep, henqueue, Except.map] at hok
        | ok r =>
            have hb := enqueueMessage_header henqueue
            obtain rfl := enqueueMessage_malloc henqueue
            obtain ⟨q₁, henqueue₁, hlinked₁⟩ := hlinked.enqueue hb
            simp only [queueStep, henqueue₁, Except.map, Except.ok.injEq, Prod.mk.injEq] at hok
            obtain ⟨-, rfl⟩ := hok
            exact Or.inl ⟨_, hlinked₁⟩
      · obtain ⟨f, hf⟩ := hdrained.enqueue b malloc
        simp [queueStep, hf, Except.map] at hok
  | dequeueMessage =>
      -- a queue that gives nothing out stays as it is
      have hnothing : dequeueMessage q = .ok (none, q) →
          (∃ bufs, q'.Linked bufs) ∨ q'.Drained := by
        intro hdequeue
        simp only [queueStep, hdequeue, Except.map, Except.ok.injEq, Prod.mk.injEq] at hok
        obtain ⟨-, rfl⟩ := hok
        exact hq
      rcases hq with ⟨bufs, hd, es, hlies, hbufs, hlen, htail⟩ | ⟨hd, a, hlies, hdrained⟩
      · cases es with
        | nil => exact hnothing hlies.dequeue_nil
        | cons e es =>
            by_cases hzero : q.length = 0
            · exact hnothing (hlies.dequeue_wrapped hzero)
            · obtain ⟨q₁, hdequeue, hlies₁, htail₁, hlen₁, hlimit, herased⟩ := hlies.dequeue hzero
              simp only [queueStep, hdequeue, Except.map, Except.ok.injEq, Prod.mk.injEq] at hok
              obtain ⟨-, rfl⟩ := hok
              cases es with
              | nil =>
                  right
                  use hd, e.1, hlies₁, htail₁.trans htail, ?_, herased
                  rw [hlimit]
                  apply hlies.lt_limit (by simp)
              | cons x xs =>
                  left
                  cases bufs with
                  | nil => cases hbufs
                  | cons b bufs =>
                      obtain ⟨-, hbufs⟩ := List.cons.inj hbufs
                      use bufs, hd, x :: xs, hlies₁, hbufs
                      rw [hlen₁, hlen, List.length_cons, UInt32.ofNat_add]
                      exact ⟨UInt32.add_sub_cancel _ _, htail₁.trans htail⟩
      · exact hnothing hlies.dequeue_nil

/-- The queue is what some calls have made of a new one. -/
def Reached [HasData β] (q : MessageQueue β) : Prop :=
  ∃ calls os, Machine.run queueStep createMessageQueue calls = .ok (os, q)

theorem Reached.linked_or_drained [HasData β] {q : MessageQueue β} (h : q.Reached) :
  (∃ bufs, q.Linked bufs) ∨ q.Drained
  := by
  obtain ⟨calls, os, hrun⟩ := h
  apply Machine.Throughout.run_invariant (R := fun q => (∃ bufs, q.Linked bufs) ∨ q.Drained)
    (G := fun _ _ => True) _ _ _ hrun
  · intro q c o q' hq _ hok
    exact queueStep_linked_or_drained hq hok
  · exact Or.inl ⟨[], ready_create.linked⟩
  · intro _ _ _ _ _ _
    trivial

theorem reached_create [HasData β] :
  (createMessageQueue : MessageQueue β).Reached
  := ⟨[], [], rfl⟩

/-- A queue that takes buffers is not drained. -/
theorem Linked.not_drained {q : MessageQueue β} {bufs : List β} (h : q.Linked bufs) :
  ¬ q.Drained
  := by
  obtain ⟨hd, es, hlies, -, -, htail⟩ := h
  rintro ⟨hd', a, hlies', htail', -, hcell⟩
  obtain ⟨rfl, rfl⟩ := List.cons.inj (hlies.unique hlies')
  have ha : hd.1 = a := Option.some.inj (htail.symm.trans htail')
  have hhd := hlies.cell [] rfl
  rw [ha, hcell] at hhd
  cases hhd

/-- The elements of every queue there is carry buffers. -/
theorem Reached.lies [HasData β] {q : MessageQueue β} (h : q.Reached) :
  ∃ hd es, ∃ bufs : List β, q.Lies hd es ∧ es.map Prod.snd = bufs.map some
  := by
  rcases h.linked_or_drained with ⟨bufs, hd, es, hlies, hbufs, -⟩ | ⟨hd, a, hlies, -⟩
  · exact ⟨hd, es, bufs, hlies, hbufs⟩
  · exact ⟨hd, [], [], hlies, rfl⟩

/-! ### What deletion releases -/

/-- One round of the loop: the first element is unlinked and released. -/
theorem Lies.unlink_first {q : MessageQueue β} {hd e : ℕ × Option β} {es : List (ℕ × Option β)}
    (h : q.Lies hd (e :: es)) :
  let elements := q.elements.set hd.1 ⟨hd.2, elementLayout.head es none⟩
  (∃ v, elements.cells e.1 = some v) ∧
    MessageQueue.Lies { q with elements := elements.erase e.1 } hd es
  := by
  intro elements
  have hhd : q.elements.cells hd.1 = some ⟨hd.2, some e.1⟩ := h.cell [] rfl
  have he : q.elements.cells e.1 = some ⟨e.2, elementLayout.head es none⟩ :=
    h.cell [hd] rfl
  constructor
  · use ⟨e.2, elementLayout.head es none⟩
    exact (Heap.set_cells_of_ne _ (Ne.symm h.ne)).trans he
  · apply Lies.unlink (r := { q with elements := elements.erase e.1 }) h rfl
    · apply Eq.trans (Heap.erase_cells_of_ne h.ne)
      apply Heap.set_cells_self _ hhd
    · intro a ha ha'
      apply Eq.trans (Heap.erase_cells_of_ne ha')
      apply Heap.set_cells_of_ne _ ha

/-- The loop ends with the head element alone, every other element and its buffer
released. -/
theorem Lies.deleteElements {hd : ℕ × Option β} {es : List (ℕ × Option β)} {bufs : List β}
    {d : QueueDeletion β} {tail : Option ℕ} {length : UInt32}
    (h : MessageQueue.Lies ⟨d.elements, d.head, tail, length⟩ hd es)
    (hbufs : es.map Prod.snd = bufs.map some) (fuel : ℕ) (hfuel : es.length < fuel) :
  ∃ elements, CcController.deleteElements fuel d
      = .ok ⟨elements, d.head, d.locked, d.allocated, d.released ++ bufs⟩ ∧
    elements.cells hd.1 = some ⟨hd.2, none⟩ ∧ (∀ e ∈ es, elements.cells e.1 = none) ∧
    ∀ a, d.elements.cells a = none → elements.cells a = none
  := by
  induction es generalizing d bufs fuel with
  | nil =>
      obtain ⟨fuel, rfl⟩ := Nat.exists_eq_add_of_lt hfuel
      obtain rfl : bufs = [] := by simpa using hbufs.symm
      have hcell := h.cell [] rfl
      have hhead : d.head = some hd.1 := h.head
      use d.elements
      simp only [List.length_nil, zero_add, CcController.deleteElements, hhead,
        Heap.read_some hcell, ok_bind, Layout.head_nil, List.append_nil, List.not_mem_nil,
        false_implies, implies_true, true_and]
      refine ⟨?_, hcell, fun a ha => ha⟩
      rw [← hhead]
  | cons e es ih =>
      obtain ⟨fuel, rfl⟩ := Nat.exists_eq_add_of_lt hfuel
      cases bufs with
      | nil => cases hbufs
      | cons b bufs =>
          obtain ⟨he, hbufs⟩ := List.cons.inj hbufs
          obtain ⟨⟨v, hv⟩, hlies⟩ := h.unlink_first
          have hhd : d.elements.cells hd.1 = some ⟨hd.2, some e.1⟩ := h.cell [] rfl
          have hcell : d.elements.cells e.1 = some ⟨some b, elementLayout.head es none⟩ := by
            rw [← he]
            exact h.cell [hd] rfl
          have hhead : d.head = some hd.1 := h.head
          let unlinked := (d.elements.set hd.1 ⟨hd.2, elementLayout.head es none⟩).erase e.1
          obtain ⟨elements, hok, hhd', hes, hfree⟩ :=
            ih (d := ⟨unlinked, d.head, d.locked, d.allocated, d.released ++ [b]⟩) hlies hbufs
              (es.length + 1 + fuel) (by omega)
          use elements
          simp only [List.length_cons, CcController.deleteElements, hhead, Heap.read_some hhd,
            Heap.read_some hcell, Heap.write_some _ hhd, Heap.free_some hv, ok_bind]
          rw [hhead] at hok
          have hkept : ∀ a, d.elements.cells a = none → unlinked.cells a = none := by
            intro a ha
            by_cases hae : a = e.1
            · subst hae
              apply Heap.erase_cells_self
            · apply Eq.trans (Heap.erase_cells_of_ne hae)
              apply Eq.trans (Heap.set_cells_of_ne _ _) ha
              rintro rfl
              rw [hhd] at ha
              cases ha
          refine ⟨?_, hhd', ?_, fun a ha => hfree a (hkept a ha)⟩
          · rw [hok, List.append_assoc]
            rfl
          · intro x hx
            rcases List.mem_cons.mp hx with rfl | hx
            · exact hfree _ (Heap.erase_cells_self _ _)
            · exact hes x hx

/-- Deletion releases the elements, the head element and the buffers of a queue once each,
and returns `CC_E_ERR` with the lock taken and the queue still allocated. -/
theorem Lies.deleteMessageQueue {q : MessageQueue β} {hd : ℕ × Option β}
    {es : List (ℕ × Option β)} {bufs : List β} (h : q.Lies hd es)
    (hbufs : es.map Prod.snd = bufs.map some) :
  ∃ elements, deleteMessageQueue q = .ok (ccEErr, ⟨elements, q.head, true, true, bufs⟩) ∧
    ∀ e ∈ hd :: es, elements.cells e.1 = none
  := by
  have hlies : MessageQueue.Lies ⟨q.elements, q.head, q.tail, q.length⟩ hd es := h
  have hle := h.seg.length_le h.nodup
  obtain ⟨elements, hok, hhd, hes, -⟩ := Lies.deleteElements
    (d := ⟨q.elements, q.head, true, true, []⟩) hlies hbufs (q.elements.limit + 1)
    (by simp only [List.length_cons] at hle; omega)
  have hhead : q.head = some hd.1 := h.head
  use elements.erase hd.1
  constructor
  · rw [CcController.deleteMessageQueue, hok]
    simp only [hhead, ok_bind, Heap.free_some hhd, ne_eq, reduceCtorEq, not_false_eq_true,
      if_true, List.nil_append]
  · intro e he
    rcases List.mem_cons.mp he with rfl | he
    · apply Heap.erase_cells_self
    · by_cases heq : e.1 = hd.1
      · rw [heq]
        apply Heap.erase_cells_self
      · rw [Heap.erase_cells_of_ne heq]
        exact hes e he

end MessageQueue

/-- What the deletion of a queue is for: it returns `CC_E_NONE` with all elements, their
buffers, the head element and the queue released, and the lock not taken. -/
def MessageQueue.Deletes (q : MessageQueue β) : Prop :=
  ∃ hd es, ∃ bufs : List β, q.Lies hd es ∧ es.map Prod.snd = bufs.map some ∧
    ∃ d, deleteMessageQueue q = .ok (ccENone, d) ∧ (∀ e ∈ hd :: es, d.elements.cells e.1 = none) ∧
      d.released = bufs ∧ d.allocated = false ∧ d.locked = false

/-- The deletion of a queue, whatever has been done with it, ends and releases its elements,
their buffers and the head element once each; but it returns `CC_E_ERR`, leaves the lock
taken and does not release the queue. -/
theorem delete_message_queue_stops_short [HasData β] {calls : List (QueueCall β)}
    {os : List (QueueReply β)} {q : MessageQueue β}
    (hrun : Machine.run queueStep createMessageQueue calls = .ok (os, q)) :
  ¬ q.Deletes ∧ ∃ hd es, ∃ bufs : List β, q.Lies hd es ∧ es.map Prod.snd = bufs.map some ∧
    ∃ d, deleteMessageQueue q = .ok (ccEErr, d) ∧ (∀ e ∈ hd :: es, d.elements.cells e.1 = none) ∧
      d.released = bufs ∧ d.allocated = true ∧ d.locked = true
  := by
  obtain ⟨hd, es, bufs, hlies, hbufs⟩ := MessageQueue.Reached.lies ⟨calls, os, hrun⟩
  obtain ⟨elements, hok, hes⟩ := hlies.deleteMessageQueue hbufs
  constructor
  · rintro ⟨_, _, _, -, -, d, hok', -⟩
    rw [hok] at hok'
    cases hok'
  · exact ⟨hd, es, bufs, hlies, hbufs, _, hok, hes, rfl, rfl, rfl⟩

theorem delete_message_queue_one :
  ∃ os, ∃ q : MessageQueue Buffer,
    Machine.run queueStep createMessageQueue [.enqueueMessage (headerOnly 7) true] = .ok (os, q) ∧
      ¬ q.Deletes
  := by
  have hrun : ∃ os, ∃ q : MessageQueue Buffer,
      Machine.run queueStep createMessageQueue [.enqueueMessage (headerOnly 7) true]
        = .ok (os, q) :=
    ⟨_, _, rfl⟩
  obtain ⟨os, q, hok⟩ := hrun
  exact ⟨os, q, hok, (delete_message_queue_stops_short hok).1⟩

/-- A new queue is not deleted. -/
theorem delete_new_queue :
  ¬ (createMessageQueue : MessageQueue Buffer).Deletes
  := by
  rintro ⟨_, _, _, -, -, d, hok, -⟩
  cases hok

end CcController
