import CcController.Error
import CcController.Lib.Heap
import CcController.Lib.Run
import Mathlib.Algebra.Group.Nat.Defs
import Mathlib.Data.Option.Basic

/-!
# The message queue

A `MessageQueue` is a singly linked list of elements behind a head element that carries no
buffer. Enqueueing looks at the message and follows the tail pointer, dequeueing unlinks and
releases the element after the head. The two take `queue_lock` around their whole body, so an
interleaving of callers is a sequence of calls.

Dequeueing never moves the tail pointer. Once the last element is dequeued the tail points
to a released element: the queue behaves as a first-in first-out queue exactly as long as
it is not drained (`queue_conforms_iff`).
-/

namespace CcController

/-! ### Buffers -/

/-- A buffer: which one it is, its block of data and its length. The data pointer is null
when there is no block, or it could not be allocated. -/
structure Buffer where
  addr : ℕ
  data : Option (List UInt8)
  length : ℕ
  deriving DecidableEq

/-- What the data pointers of buffers lead to. -/
class HasData (β : Type) where
  data : β → Option (List UInt8)

instance : HasData Buffer := ⟨Buffer.data⟩

section

variable {β : Type} [HasData β]

/-- `header->type` of the message that a buffer has. -/
def headerType (buf : β) : Except Fault UInt8 :=
  match HasData.data buf with
  | none => .error .null
  | some block =>
    match block[1]? with
    | none => .error .overrun
    | some type => .ok type

/-- The data pointer leads to a block that goes as far as `header->type`. -/
def HasHeader (buf : β) : Prop :=
  ∃ block, HasData.data buf = some block ∧ 2 ≤ block.length

/-- The type can be read exactly if the block goes that far. -/
theorem headerType_eq_ok_iff {buf : β} :
  (∃ type, headerType buf = .ok type) ↔ HasHeader buf
  := by
  unfold headerType HasHeader
  cases hdata : HasData.data buf with
  | none => simp
  | some block =>
      cases htype : block[1]? with
      | none =>
          have hshort := List.getElem?_eq_none_iff.mp htype
          simp only [htype, reduceCtorEq, exists_false, Option.some.injEq, exists_eq_left',
            false_iff]
          omega
      | some type =>
          have hlong := (List.getElem?_eq_some_iff.mp htype).1
          simp only [htype, Except.ok.injEq, exists_eq', Option.some.injEq, exists_eq_left',
            true_iff]
          omega

end

/-! ### The queue -/

variable {β : Type}

structure MessageQueueElement (β : Type) where
  data : Option β
  next : Option ℕ

/-- A message queue, together with the memory its elements lie in. The length is an
`unsigned int`. -/
structure MessageQueue (β : Type) where
  elements : Heap (MessageQueueElement β)
  head : Option ℕ
  tail : Option ℕ
  length : UInt32

def createMessageQueue : MessageQueue β where
  elements := Heap.empty.alloc ⟨none, none⟩
  head := some 0
  tail := some 0
  length := 0

def queueIsEmpty (queue : MessageQueue β) : ℤ :=
  if queue.length = 0 then ccENone else ccEErr

/-- The type of the message is read to be printed. `malloc` is what the allocation of the new
element comes to; its result is used unchecked. -/
def enqueueMessage [HasData β] (queue : MessageQueue β) (buf : Option β) (malloc : Bool) :
    Except Fault (ℤ × MessageQueue β) :=
  match buf with
  | none => .ok (ccEErr, queue)
  | some buf => do
    let _ ← headerType buf
    if malloc then
      let newTail := queue.elements.limit
      let elements := queue.elements.alloc ⟨some buf, none⟩
      let tail ← elements.read queue.tail
      let elements ← elements.write queue.tail { tail with next := some newTail }
      .ok (ccENone, ⟨elements, queue.head, some newTail, queue.length + 1⟩)
    else
      .error .null

section

variable [HasData β]

/-- A buffer that has been enqueued has a header. -/
theorem enqueueMessage_header {queue : MessageQueue β} {buf : β} {malloc : Bool}
    {r : ℤ × MessageQueue β} (h : enqueueMessage queue (some buf) malloc = .ok r) :
  HasHeader buf
  := by
  apply headerType_eq_ok_iff.mp
  unfold enqueueMessage at h
  cases htype : headerType buf with
  | error f => simp [htype] at h
  | ok type => exact ⟨type, rfl⟩

theorem enqueueMessage_malloc {queue : MessageQueue β} {buf : β} {malloc : Bool}
    {r : ℤ × MessageQueue β} (h : enqueueMessage queue (some buf) malloc = .ok r) :
  malloc = true
  := by
  obtain ⟨type, htype⟩ := headerType_eq_ok_iff.mpr (enqueueMessage_header h)
  simp only [enqueueMessage, htype, ok_bind] at h
  cases malloc with
  | false => cases h
  | true => rfl

/-- Enqueueing a buffer, when it returns, succeeds and leaves the buffer in a new element. -/
theorem enqueueMessage_ok {queue queue' : MessageQueue β} {buf : β} {malloc : Bool} {ret : ℤ}
    (h : enqueueMessage queue (some buf) malloc = .ok (ret, queue')) :
  ret = ccENone ∧ queue'.elements.limit = queue.elements.limit + 1 ∧
    ∃ next, queue'.elements.cells queue.elements.limit = some ⟨some buf, next⟩
  := by
  obtain ⟨type, htype⟩ := headerType_eq_ok_iff.mpr (enqueueMessage_header h)
  simp only [enqueueMessage, htype, ok_bind] at h
  cases malloc with
  | false => cases h
  | true =>
      simp only [if_true] at h
      let elements := queue.elements.alloc ⟨some buf, none⟩
      have hnew : elements.cells queue.elements.limit = some ⟨some buf, none⟩ :=
        Heap.alloc_cells_limit _ _
      cases htail : queue.tail with
      | none => simp [htail] at h
      | some t =>
          cases ht : elements.cells t with
          | none => simp [htail, Heap.read_dangling ht, elements] at h
          | some tail =>
              simp only [htail, Heap.read_some ht, Heap.write_some _ ht, elements, ok_bind,
                Except.ok.injEq, Prod.mk.injEq] at h
              obtain ⟨rfl, rfl⟩ := h
              use rfl, rfl
              by_cases heq : queue.elements.limit = t
              · subst heq
                obtain rfl := Option.some.inj (hnew.symm.trans ht)
                exact ⟨_, Heap.set_cells_self _ ht⟩
              · exact ⟨_, (Heap.set_cells_of_ne _ heq).trans hnew⟩

/-- Enqueueing different buffers has different results. -/
theorem enqueueMessage_inj {queue queue' : MessageQueue β} {buf buf' : β} {malloc malloc' : Bool}
    {ret ret' : ℤ} (h : enqueueMessage queue (some buf) malloc = .ok (ret, queue'))
    (h' : enqueueMessage queue (some buf') malloc' = .ok (ret', queue')) :
  buf = buf'
  := by
  obtain ⟨-, -, next, hcell⟩ := enqueueMessage_ok h
  obtain ⟨-, -, next', hcell'⟩ := enqueueMessage_ok h'
  have heq := Option.some.inj (hcell.symm.trans hcell')
  apply Option.some.inj (MessageQueueElement.mk.inj heq).1

end

def dequeueMessage (queue : MessageQueue β) :
    Except Fault (Option β × MessageQueue β) := do
  let head ← queue.elements.read queue.head
  if head.next = none then
    .ok (none, queue)
  else if queue.length = 0 then
    .ok (none, queue)
  else
    let tmpElement ← queue.elements.read head.next
    -- both branches of the source store the successor, which is null in the first
    let elements ← queue.elements.write queue.head { head with next := tmpElement.next }
    let elements ← elements.write head.next { tmpElement with next := none }
    let elements ← elements.free head.next
    .ok (tmpElement.data,
      { queue with elements := elements, length := queue.length - 1 })

/-! ### What a queue holds -/

/-- Elements as entries of a linked list: their address and their buffer. -/
def elementLayout : Layout (ℕ × Option β) (MessageQueueElement β) where
  addr := Prod.fst
  cell e next _ := ⟨e.2, next⟩

namespace MessageQueue

/-- The element `hd` and after it the elements `es` are linked from the head pointer on. -/
structure Lies (q : MessageQueue β) (hd : ℕ × Option β) (es : List (ℕ × Option β)) : Prop where
  head : q.head = some hd.1
  seg : elementLayout.Seg q.elements.cells none (hd :: es) none
  nodup : ((hd :: es).map Prod.fst).Nodup

/-- The elements from `head->next` on carry the buffers `bufs`, and the length counts
them. -/
def Holds (q : MessageQueue β) (bufs : List β) : Prop :=
  ∃ hd es, q.Lies hd es ∧ es.map Prod.snd = bufs.map some ∧ q.length = UInt32.ofNat bufs.length

/-- The queue holds the buffers `bufs`, and the tail pointer points to the last of their
elements, or to the head element if there is none. -/
def Linked (q : MessageQueue β) (bufs : List β) : Prop :=
  ∃ hd es, q.Lies hd es ∧ es.map Prod.snd = bufs.map some ∧
    q.length = UInt32.ofNat bufs.length ∧ q.tail = elementLayout.last none (hd :: es)

/-- The elements from `head->next` on carry the buffers `bufs`, the length is their number,
and the tail pointer points to the last of them, or to the head element if there is none. -/
def Ready (q : MessageQueue β) (bufs : List β) : Prop :=
  ∃ hd es, q.Lies hd es ∧ es.map Prod.snd = bufs.map some ∧ q.length.toNat = bufs.length ∧
    q.tail = elementLayout.last none (hd :: es)

theorem Linked.holds {q : MessageQueue β} {bufs : List β} (h : q.Linked bufs) :
  q.Holds bufs
  := by
  obtain ⟨hd, es, hlies, hbufs, hlen, -⟩ := h
  exact ⟨hd, es, hlies, hbufs, hlen⟩

theorem Ready.linked {q : MessageQueue β} {bufs : List β} (h : q.Ready bufs) :
  q.Linked bufs
  := by
  obtain ⟨hd, es, hlies, hbufs, hlen, htail⟩ := h
  use hd, es, hlies, hbufs
  rw [← hlen, UInt32.ofNat_toNat]
  exact ⟨rfl, htail⟩

/-- The length is right unless it has wrapped around. -/
theorem Linked.ready {q : MessageQueue β} {bufs : List β} (h : q.Linked bufs)
    (hlt : bufs.length < 2 ^ 32) :
  q.Ready bufs
  := by
  obtain ⟨hd, es, hlies, hbufs, hlen, htail⟩ := h
  use hd, es, hlies, hbufs
  rw [hlen]
  exact ⟨UInt32.toNat_ofNat_of_lt' hlt, htail⟩

theorem Ready.holds {q : MessageQueue β} {bufs : List β} (h : q.Ready bufs) :
  q.Holds bufs
  := h.linked.holds

theorem ready_create :
  (createMessageQueue : MessageQueue β).Ready []
  := by
  use (0, none), []
  refine ⟨⟨rfl, ?_, ?_⟩, rfl, rfl, rfl⟩
  · constructor
    · rfl
    · trivial
  · simp

/-- A queue lies in its memory in one way only. -/
theorem Lies.unique {q : MessageQueue β} {hd hd' : ℕ × Option β}
    {es es' : List (ℕ × Option β)} (h : q.Lies hd es) (h' : q.Lies hd' es') :
  hd :: es = hd' :: es'
  := by
  apply h.seg.unique _ h'.seg
  · simp only [Layout.head_cons]
    exact h.head.symm.trans h'.head
  · intro e e' q q' p p' haddr hcell
    obtain ⟨hdata, hnext⟩ := MessageQueueElement.mk.inj hcell
    exact ⟨Prod.ext haddr hdata, hnext⟩

theorem Holds.unique {q : MessageQueue β} {bufs bufs' : List β} (h : q.Holds bufs)
    (h' : q.Holds bufs') :
  bufs = bufs'
  := by
  obtain ⟨hd, es, hlies, hbufs, -⟩ := h
  obtain ⟨hd', es', hlies', hbufs', -⟩ := h'
  obtain ⟨-, rfl⟩ := List.cons.inj (hlies.unique hlies')
  apply List.map_injective_iff.mpr (Option.some_injective β)
  rw [← hbufs, hbufs']

theorem Lies.cell {q : MessageQueue β} {hd : ℕ × Option β} {es : List (ℕ × Option β)}
    (h : q.Lies hd es) (xs : List (ℕ × Option β)) {ys : List (ℕ × Option β)}
    {e : ℕ × Option β} (hes : hd :: es = xs ++ e :: ys) :
  q.elements.cells e.1 = some ⟨e.2, elementLayout.head ys none⟩
  := by
  have hseg := h.seg
  rw [hes, Layout.seg_append] at hseg
  apply hseg.2.1

theorem Lies.lt_limit {q : MessageQueue β} {hd : ℕ × Option β} {es : List (ℕ × Option β)}
    (h : q.Lies hd es) {e : ℕ × Option β} (he : e ∈ hd :: es) :
  e.1 < q.elements.limit
  := h.seg.lt_limit he

/-! ### Enqueueing -/

/-- Enqueueing on a queue whose tail pointer is right links the buffer in behind the
others and moves the tail pointer to it. -/
theorem Linked.enqueue [HasData β] {q : MessageQueue β} {bufs : List β} (h : q.Linked bufs)
    {b : β} (hb : HasHeader b) :
  ∃ q', enqueueMessage q (some b) true = .ok (ccENone, q') ∧ q'.Linked (bufs ++ [b])
  := by
  obtain ⟨hd, es, hlies, hbufs, hlen, htail⟩ := h
  obtain ⟨init, l, hinit⟩ : ∃ init l, hd :: es = init ++ [l] := by
    use (hd :: es).dropLast, (hd :: es).getLast (by simp)
    rw [List.dropLast_append_getLast]
  have hltail : q.tail = some l.1 := by
    rw [htail, hinit]
    apply Layout.last_concat
  have hl := hlies.cell _ hinit
  have hlt : ∀ e ∈ init ++ [l], e.1 < q.elements.limit := by
    intro e he
    apply hlies.lt_limit
    rw [hinit]
    apply he
  have hne : ∀ e ∈ init ++ [l], e.1 ≠ q.elements.limit := fun e he => Nat.ne_of_lt (hlt e he)
  have hnodup := hlies.nodup
  rw [hinit] at hnodup
  -- the heap after the allocation, and after the old last element is linked to the new one
  let cells₁ := q.elements.alloc ⟨some b, none⟩
  have hl₁ : cells₁.cells l.1 = some ⟨l.2, none⟩ := by
    rw [Heap.alloc_cells_of_ne _ (hne l (by simp)), hl]
    rfl
  let cells₂ := cells₁.set l.1 ⟨l.2, some q.elements.limit⟩
  use ⟨cells₂, q.head, some q.elements.limit, q.length + 1⟩
  have hconcat : hd :: (es ++ [(q.elements.limit, some b)])
      = init ++ [l, (q.elements.limit, some b)] := by
    rw [← List.cons_append, hinit, List.append_assoc]
    rfl
  refine ⟨?_, hd, es ++ [(q.elements.limit, some b)], ⟨hlies.head, ?_, ?_⟩, ?_, ?_, ?_⟩
  · obtain ⟨type, htype⟩ := headerType_eq_ok_iff.mpr hb
    simp only [enqueueMessage, htype, hltail, if_true, Heap.read_some hl₁, Heap.write_some _ hl₁,
      ok_bind, cells₁, cells₂]
  · rw [hconcat]
    have hseg := hlies.seg
    rw [hinit] at hseg
    apply hseg.snoc
    · intro e he
      have hel : e.1 ≠ l.1 := by
        rintro heq
        rw [List.map_append, List.nodup_append] at hnodup
        apply hnodup.2.2 e.1 (List.mem_map_of_mem he) l.1 (by simp) heq
      apply Eq.trans (Heap.set_cells_of_ne _ hel)
      apply Heap.alloc_cells_of_ne _ (hne e (by simp [he]))
    · apply Heap.set_cells_self _ hl₁
    · apply Eq.trans (Heap.set_cells_of_ne _ (hne l (by simp)).symm)
      apply Heap.alloc_cells_limit
  · rw [hconcat]
    have happend : init ++ [l, (q.elements.limit, some b)]
        = (init ++ [l]) ++ [(q.elements.limit, some b)] := by simp
    rw [happend, List.map_append, List.nodup_append]
    refine ⟨hnodup, by simp, ?_⟩
    intro a ha c hc
    obtain ⟨e, he, rfl⟩ := List.mem_map.mp ha
    obtain rfl : c = q.elements.limit := by simpa using hc
    apply hne e he
  · simp [hbufs]
  · rw [hlen, List.length_append, UInt32.ofNat_add]
    rfl
  · rw [← List.cons_append]
    symm
    apply Layout.last_concat

/-- Enqueueing keeps the queue ready as long as its length fits an `unsigned int`. -/
theorem Ready.enqueue_ready [HasData β] {q : MessageQueue β} {bufs : List β} (h : q.Ready bufs)
    {b : β} (hb : HasHeader b) (hlt : bufs.length + 1 < 2 ^ 32) :
  ∃ q', enqueueMessage q (some b) true = .ok (ccENone, q') ∧ q'.Ready (bufs ++ [b])
  := by
  obtain ⟨q', hok, hlinked⟩ := h.linked.enqueue hb
  use q', hok
  apply hlinked.ready
  simpa using hlt

/-! ### Dequeueing -/

/-- The length of a queue is zero only if the number of its buffers has wrapped around. -/
theorem Holds.length_ne_zero {q : MessageQueue β} {bufs : List β} (h : q.Holds bufs)
    (hpos : 0 < bufs.length % 2 ^ 32) :
  q.length ≠ 0
  := by
  obtain ⟨_, _, _, _, hlen⟩ := h
  intro hzero
  have hnat := congrArg UInt32.toNat (hlen.symm.trans hzero)
  rw [UInt32.toNat_ofNat'] at hnat
  simp at hnat
  omega

theorem Holds.dequeue_nil {q : MessageQueue β} (h : q.Holds []) :
  dequeueMessage q = .ok (none, q)
  := by
  obtain ⟨hd, es, hlies, hbufs, -⟩ := h
  obtain rfl : es = [] := by simpa using hbufs
  have hcell := hlies.cell [] rfl
  simp [dequeueMessage, hlies.head, Heap.read_some hcell]

theorem Lies.ne {q : MessageQueue β} {hd e : ℕ × Option β} {es : List (ℕ × Option β)}
    (h : q.Lies hd (e :: es)) :
  hd.1 ≠ e.1
  := by
  have hnodup := h.nodup
  simp only [List.map_cons, List.nodup_cons, List.mem_cons, not_or] at hnodup
  exact hnodup.1.1

/-- Unlinking the first element: the head links to what came after it, and the cells of the
others are as before. -/
theorem Lies.unlink {q r : MessageQueue β} {hd e : ℕ × Option β} {es : List (ℕ × Option β)}
    (h : q.Lies hd (e :: es)) (hhead : r.head = q.head)
    (hhd : r.elements.cells hd.1 = some ⟨hd.2, elementLayout.head es none⟩)
    (hother : ∀ a, a ≠ hd.1 → a ≠ e.1 → r.elements.cells a = q.elements.cells a) :
  r.Lies hd es
  := by
  have hnodup := h.nodup
  simp only [List.map_cons, List.nodup_cons, List.mem_cons, List.mem_map, not_or] at hnodup
  obtain ⟨⟨-, hhdes⟩, hees, hes⟩ := hnodup
  constructor
  · rw [hhead]
    exact h.head
  · constructor
    · apply hhd
    · apply (h.seg.2.2.after (fun _ _ _ => rfl)).congr
      intro x hx
      apply hother
      · rintro heq
        apply hhdes ⟨x, hx, heq⟩
      · rintro heq
        apply hees ⟨x, hx, heq⟩
  · simp only [List.map_cons, List.nodup_cons, List.mem_map]
    exact ⟨hhdes, hes⟩

/-- Dequeueing takes the first element out of the list and leaves the tail pointer. -/
theorem Lies.dequeue {q : MessageQueue β} {hd e : ℕ × Option β}
    {es : List (ℕ × Option β)} (h : q.Lies hd (e :: es)) (hlen : q.length ≠ 0) :
  ∃ q', dequeueMessage q = .ok (e.2, q') ∧ q'.Lies hd es ∧ q'.tail = q.tail ∧
    q'.length = q.length - 1 ∧ q'.elements.limit = q.elements.limit ∧
    q'.elements.cells e.1 = none
  := by
  have hhd : q.elements.cells hd.1 = some ⟨hd.2, some e.1⟩ := h.cell [] rfl
  have he : q.elements.cells e.1 = some ⟨e.2, elementLayout.head es none⟩ :=
    h.cell [hd] rfl
  have hhde := h.ne
  let h₁ := q.elements.set hd.1 ⟨hd.2, elementLayout.head es none⟩
  have he₁ : h₁.cells e.1 = some ⟨e.2, elementLayout.head es none⟩ := by
    rw [Heap.set_cells_of_ne _ (Ne.symm hhde), he]
  let h₂ := h₁.set e.1 ⟨e.2, none⟩
  have he₂ : h₂.cells e.1 = some ⟨e.2, none⟩ := Heap.set_cells_self _ he₁
  let h₃ := h₂.erase e.1
  use { q with elements := h₃, length := q.length - 1 }
  refine ⟨?_, h.unlink rfl ?_ ?_, rfl, rfl, rfl, Heap.erase_cells_self _ _⟩
  · simp only [dequeueMessage, h.head, Heap.read_some hhd, ok_bind, reduceCtorEq, if_false, hlen,
      Heap.read_some he, Heap.write_some _ hhd, Heap.write_some _ he₁, Heap.free_some he₂, h₁,
      h₂, h₃]
  · apply Eq.trans (Heap.erase_cells_of_ne hhde)
    apply Eq.trans (Heap.set_cells_of_ne _ hhde)
    apply Heap.set_cells_self _ hhd
  · intro a ha ha'
    rw [Heap.erase_cells_of_ne ha', Heap.set_cells_of_ne _ ha', Heap.set_cells_of_ne _ ha]

theorem Holds.dequeue_cons {q : MessageQueue β} {b : β} {bufs : List β}
    (h : q.Holds (b :: bufs)) (hlen : q.length ≠ 0) :
  ∃ q', dequeueMessage q = .ok (some b, q') ∧ q'.Holds bufs
  := by
  obtain ⟨hd, es, hlies, hbufs, hq⟩ := h
  cases es with
  | nil => simp at hbufs
  | cons e es =>
      obtain ⟨he, hbufs⟩ := List.cons.inj hbufs
      obtain ⟨q', hok, hlies', -, hlen', -⟩ := hlies.dequeue hlen
      use q'
      constructor
      · rw [hok]
        congr 2
      · use hd, es, hlies', hbufs
        rw [hlen', hq, List.length_cons, UInt32.ofNat_add]
        apply UInt32.add_sub_cancel

/-- Dequeueing keeps the queue ready as long as one element is left. -/
theorem Ready.dequeue_cons {q : MessageQueue β} {b : β} {bufs : List β}
    (h : q.Ready (b :: bufs)) (hbufs : bufs ≠ []) :
  ∃ q', dequeueMessage q = .ok (some b, q') ∧ q'.Ready bufs
  := by
  obtain ⟨hd, es, hlies, hes, hq, htail⟩ := h
  cases es with
  | nil => simp at hes
  | cons e es =>
      obtain ⟨he, hes⟩ := List.cons.inj hes
      have hlen : q.length ≠ 0 := by
        rintro hzero
        simp [hzero] at hq
      obtain ⟨q', hok, hlies', htail', hlen', -⟩ := hlies.dequeue hlen
      use q'
      constructor
      · rw [hok]
        congr 2
      · use hd, es, hlies', hes
        constructor
        · have hone : (1 : UInt32) ≤ q.length := by
            rw [UInt32.le_iff_toNat_le, hq]
            simp
          rw [hlen', UInt32.toNat_sub_of_le _ _ hone, hq]
          rfl
        · rw [htail', htail]
          cases es with
          | nil =>
              simp only [List.map_nil, List.nil_eq, List.map_eq_nil_iff] at hes
              apply absurd hes hbufs
          | cons x xs => rfl

/-- Dequeueing the only element leaves the tail pointer at the released element. -/
theorem Ready.dequeue_single {q : MessageQueue β} {b : β} (h : q.Ready [b])
    {q' : MessageQueue β} {r : Option β} (hok : dequeueMessage q = .ok (r, q')) :
  ¬ q'.Ready []
  := by
  obtain ⟨hd, es, hlies, hes, hq, htail⟩ := h
  obtain ⟨e, rfl⟩ : ∃ e, es = [e] := by
    apply List.length_eq_one_iff.mp
    have hlen := congrArg List.length hes
    simpa using hlen
  have hlen : q.length ≠ 0 := by
    rintro hzero
    simp [hzero] at hq
  obtain ⟨q₁, hok₁, hlies₁, htail₁, -, -, herased⟩ := hlies.dequeue hlen
  rw [hok] at hok₁
  cases hok₁
  rintro ⟨hd', es', hlies', hes', -, htail'⟩
  obtain rfl : es' = [] := by simpa using hes'
  have hcell := hlies'.cell [] rfl
  have heq : e.1 = hd'.1 := by
    have := htail'.symm.trans (htail₁.trans htail)
    simpa [elementLayout] using this.symm
  rw [← heq, herased] at hcell
  cases hcell

end MessageQueue

/-! ### Runs -/

/-- The calls on a queue. -/
inductive QueueCall (β : Type) where
  | enqueueMessage (buf : β) (malloc : Bool)
  | dequeueMessage

/-- What a call returns. -/
inductive QueueReply (β : Type) where
  | enqueued (ret : ℤ)
  | dequeued (buf : Option β)

def queueStep [HasData β] (q : MessageQueue β) :
    QueueCall β → Except Fault (QueueReply β × MessageQueue β)
  | .enqueueMessage buf malloc =>
    (enqueueMessage q (some buf) malloc).map (fun r => (.enqueued r.1, r.2))
  | .dequeueMessage => (dequeueMessage q).map (fun r => (.dequeued r.1, r.2))

/-- First in, first out: the state is the list of the buffers enqueued and not yet
dequeued, oldest first. -/
def fifoStep (bufs : List β) : QueueCall β → QueueReply β × List β
  | .enqueueMessage buf _ => (.enqueued ccENone, bufs ++ [buf])
  | .dequeueMessage => (.dequeued bufs.head?, bufs.tail)

/-- A call that does not drain the queue: an enqueueing of a buffer with a header whose
allocation succeeds and that does not overflow the length, or a dequeueing when not exactly one
buffer is outstanding. -/
def NotDrained [HasData β] (bufs : List β) : QueueCall β → Prop
  | .enqueueMessage buf malloc => HasHeader buf ∧ malloc = true ∧ bufs.length + 1 < 2 ^ 32
  | .dequeueMessage => bufs.length ≠ 1

/-- A call that does not drain a ready queue acts as on the first-in first-out list. -/
theorem queueStep_good [HasData β] {q : MessageQueue β} {bufs : List β}
    (hq : q.Ready bufs ∧ bufs.length < 2 ^ 32) (c : QueueCall β) (hc : NotDrained bufs c) :
  ∃ q', queueStep q c = .ok ((fifoStep bufs c).1, q') ∧
    q'.Ready (fifoStep bufs c).2 ∧ (fifoStep bufs c).2.length < 2 ^ 32
  := by
  obtain ⟨hready, hlt⟩ := hq
  cases c with
  | enqueueMessage buf malloc =>
      obtain ⟨hbuf, rfl, hlt'⟩ := hc
      obtain ⟨q', hok, hq'⟩ := hready.enqueue_ready hbuf hlt'
      use q'
      simp only [queueStep, hok, fifoStep]
      use rfl, hq'
      simpa using hlt'
  | dequeueMessage =>
      cases bufs with
      | nil =>
          use q
          simp only [queueStep, hready.holds.dequeue_nil, fifoStep]
          exact ⟨rfl, hready, hlt⟩
      | cons b bufs =>
          have hne : bufs ≠ [] := by
            rintro rfl
            apply hc rfl
          obtain ⟨q', hok, hq'⟩ := hready.dequeue_cons hne
          use q'
          simp only [queueStep, hok, fifoStep]
          use rfl, hq'
          simp only [List.length_cons] at hlt
          simp only [List.tail_cons]
          omega

/-- A call that drains a ready queue stops or breaks the tail pointer or the length. -/
theorem queueStep_bad [HasData β] {q q' : MessageQueue β} {bufs : List β}
    (hq : q.Ready bufs ∧ bufs.length < 2 ^ 32) (c : QueueCall β) (hc : ¬ NotDrained bufs c)
    (hok : queueStep q c = .ok ((fifoStep bufs c).1, q')) :
  ¬ q'.Ready (fifoStep bufs c).2
  := by
  obtain ⟨hready, hlt⟩ := hq
  cases c with
  | enqueueMessage buf malloc =>
      cases henqueue : enqueueMessage q (some buf) malloc with
      | error f => simp [queueStep, henqueue, Except.map] at hok
      | ok r =>
          have hbuf := enqueueMessage_header henqueue
          obtain rfl := enqueueMessage_malloc henqueue
          have hlen : bufs.length + 1 = 2 ^ 32 := by
            simp only [NotDrained, hbuf, true_and] at hc
            omega
          obtain ⟨q₁, hok₁, -, -, -, -, hlen₁, -⟩ := hready.linked.enqueue hbuf
          simp only [queueStep, hok₁, Except.map, Except.ok.injEq, Prod.mk.injEq] at hok
          obtain ⟨-, rfl⟩ := hok
          rintro ⟨-, -, -, -, hlen', -⟩
          simp [hlen₁, fifoStep, hlen] at hlen'
  | dequeueMessage =>
      have hone : bufs.length = 1 := by
        simpa [NotDrained] using hc
      obtain ⟨b, rfl⟩ := List.length_eq_one_iff.mp hone
      cases hdeq : dequeueMessage q with
      | error f => simp [queueStep, hdeq, Except.map] at hok
      | ok r =>
          obtain ⟨r, q₁⟩ := r
          simp only [queueStep, hdeq, Except.map, Except.ok.injEq, Prod.mk.injEq] at hok
          obtain ⟨-, rfl⟩ := hok
          apply hready.dequeue_single hdeq

/-- A run of calls on a fresh queue returns from every call, gives the buffers out first in
first out, and keeps length and tail pointer right, exactly when every buffer enqueued has a
header and no call drains the queue. -/
theorem queue_conforms_iff [HasData β] (calls : List (QueueCall β)) :
  Machine.Conforms queueStep fifoStep MessageQueue.Ready createMessageQueue [] calls ↔
    Machine.Meets fifoStep NotDrained [] calls
  := by
  apply Machine.run_conforms_iff (R := fun q bufs => q.Ready bufs ∧ bufs.length < 2 ^ 32)
  · intro q bufs hq
    apply hq.1
  · intro q bufs c hq hc
    apply queueStep_good hq c hc
  · intro q bufs c q' hq hc hok
    apply queueStep_bad hq c hc hok
  · exact ⟨MessageQueue.ready_create, by simp⟩

/-- A message of a header alone. -/
def headerOnly (addr : ℕ) : Buffer where
  addr := addr
  data := some [1, 2, 0, 8, 0, 0, 0, 0]
  length := 8

/-- After the queue is drained, the next enqueueing follows the tail pointer to the
released element. -/
theorem queue_refill_dangling :
  ¬ Machine.Conforms queueStep fifoStep MessageQueue.Ready createMessageQueue []
    [.enqueueMessage (headerOnly 7) true, .dequeueMessage, .enqueueMessage (headerOnly 8) true,
      .dequeueMessage]
  := by
  intro h
  obtain ⟨q, hrun, -⟩ := h
    [.enqueueMessage (headerOnly 7) true, .dequeueMessage, .enqueueMessage (headerOnly 8) true]
    ⟨[.dequeueMessage], rfl⟩
  have hfault : Machine.run queueStep createMessageQueue
      [.enqueueMessage (headerOnly 7) true, .dequeueMessage,
        .enqueueMessage (headerOnly 8) true] = .error .dangling := rfl
  rw [hfault] at hrun
  cases hrun

end CcController
