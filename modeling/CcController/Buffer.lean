import CcController.ByteOrder
import CcController.Lib.Program
import CcController.ThreadPool
import CcController.Queue
import CcController.Xid

/-!
# Buffers and the state of a connection

A `World` is what the functions of a connection work on: its record `SwInfo`, what the
outside will answer to the next calls of `malloc` and `write`, and a history of what has been
done: the buffers released, the messages put on the send queue, the bytes written to the
socket.
-/

namespace CcController

/-- What the memory that the data pointer points to holds: the block and, behind it, other
bytes. -/
def memoryOf (block : List UInt8) (beyond : Memory) : Memory :=
  fun i => block.getD i (beyond i)

/-- What a call finds on the machine it runs on. -/
structure Host where
  /-- the byte order -/
  littleEndian : Bool
  /-- how many bytes of the block that `ccCreateHeader` builds a header in can be written;
  two are asked for -/
  scratch : ℕ
  /-- the second the call is made in -/
  now : ℤ
  /-- the bytes behind a block -/
  beyond : Memory
  /-- how many rounds a loop of a validator is followed -/
  fuel : ℕ

/-- What a call of `write` comes to. -/
inductive WriteResult where
  /-- as many bytes were taken, or all -/
  | wrote (n : ℕ)
  /-- `EINTR`, `EAGAIN` or `EWOULDBLOCK` -/
  | interrupted
  | failed
  deriving DecidableEq

/-- What a switch tells about itself. -/
structure EachSw where
  dpid : UInt64
  version : UInt8
  nBuffers : UInt32
  actions : UInt32
  capabilities : UInt32

/-- The functions that are given to the thread pool, with their argument the connection. -/
inductive Job where
  | ccOfpmsgRecvHandle
  deriving DecidableEq

/-- The record of a connection. `xidLatest` is an `int` that is only ever used as a
`uint32_t`. Either the table `ccRecvOps` is registered as its receive handler or none. -/
structure SwInfo where
  ccSwitch : EachSw
  ccRecvThreadPool : CThreadPool Job
  sendQueue : MessageQueue Buffer
  recvQueue : MessageQueue Buffer
  xidTable : XidTable
  xidLatest : UInt32
  recvHandler : Bool

structure World extends SwInfo where
  /-- what the next allocations come to -/
  mallocs : ℕ → Bool
  /-- what the next writes to the socket come to -/
  writes : ℕ → WriteResult
  /-- buffers from here on are not allocated yet -/
  nextBuffer : ℕ
  /-- the buffers that `freeBuffer` was called with -/
  released : List ℕ
  /-- the buffers whose records were stored in after they had been released -/
  stale : List ℕ
  /-- the messages put on the send queue, with the xid table at that moment -/
  sent : List (Buffer × XidTable)
  /-- the bytes written to the socket -/
  written : List UInt8

/-- A connection that nothing has been done on. -/
def World.fresh (mallocs : ℕ → Bool) (writes : ℕ → WriteResult) : World where
  ccSwitch := ⟨0, 0, 0, 0, 0⟩
  ccRecvThreadPool := ⟨[], 0⟩
  sendQueue := createMessageQueue
  recvQueue := createMessageQueue
  xidTable := ccInitXidTable
  xidLatest := 0
  recvHandler := true
  mallocs := mallocs
  writes := writes
  nextBuffer := 0
  released := []
  stale := []
  sent := []
  written := []

/-- A host in its second 0 that has 24 bytes for a header. -/
def Host.plain (littleEndian : Bool) : Host where
  littleEndian := littleEndian
  scratch := 24
  now := 0
  beyond := fun _ => 0
  fuel := 0

/-- A fresh connection on which every allocation succeeds and no write does. -/
def World.start : World :=
  World.fresh (fun _ => true) (fun _ => .interrupted)

/-- What a function does to a connection. -/
abbrev Action := Program World Fault

/-- Whether an allocation succeeds. -/
def malloc : Action Bool := do
  let world ← Program.state
  Program.update (fun w => { w with mallocs := fun i => w.mallocs (i + 1) })
  pure (world.mallocs 0)

/-- No block is larger than `PTRDIFF_MAX`. -/
abbrev ptrdiffMax : ℕ := 2 ^ 63 - 1

/-- The bytes of a new block are zero here; no function looks at them before it has written
them. -/
def allocBufferWithLength (length : ℕ) : Action Buffer := do
  let ok ← malloc
  if ¬ ok then Program.stop .null else do
  let ok ← malloc
  let world ← Program.state
  Program.update (fun w => { w with nextBuffer := w.nextBuffer + 1 })
  pure {
    addr := world.nextBuffer
    data := if ok ∧ length ≤ ptrdiffMax then some (List.replicate length 0) else none
    length := length }

/-- A buffer is released with its data. If it has any, a null pointer is then stored in its
record, which is no longer there. -/
def World.release (world : World) (buf : Buffer) : World :=
  { world with
    released := world.released ++ [buf.addr]
    stale := world.stale ++ if buf.data.isSome then [buf.addr] else [] }

/-- Neither the store in the record nor a second release stops the run; both leave the
allocator in disorder, and the history has them. -/
def freeBuffer (buf : Option Buffer) : Action Unit :=
  match buf with
  | none => pure ()
  | some buf => Program.update (fun w => w.release buf)

/-- Read from the data of a buffer. -/
def look {α : Type} (host : Host) (buf : Buffer) (m : MessageReader α) : Action α :=
  match buf.data with
  | none => Program.stop .null
  | some block =>
    match (m.run host.fuel (memoryOf block host.beyond)).2 with
    | none => Program.stop .diverges
    | some a => pure a

/-- `memcpy( ( char * ) buf->data + p, bytes, length )`. -/
def fill (buf : Buffer) (p : ℕ) (bytes : List UInt8) : Action Buffer :=
  match buf.data with
  | none => Program.stop .null
  | some block =>
    if p + bytes.length ≤ block.length then
      pure { buf with data := some (block.take p ++ bytes ++ block.drop (p + bytes.length)) }
    else
      Program.stop .overrun

/-- An allocation whose result is used without a check. -/
def mallocUnchecked : Action Unit := do
  let ok ← malloc
  if ¬ ok then Program.stop .null else pure ()

/-- Read `n` bytes of a block from `p` on. -/
def copyOut (block : List UInt8) (p n : ℕ) : Action (List UInt8) :=
  if p + n ≤ block.length then pure ((block.drop p).take n) else Program.stop .overrun

/-! ### What the operations do -/

/-- The bytes a buffer's data pointer leads to. -/
def Buffer.memory (buf : Buffer) (host : Host) : Memory :=
  memoryOf (buf.data.getD []) host.beyond

/-- Nothing but what concerns allocation differs. -/
def World.Allocates (w w' : World) : Prop :=
  w' = { w with mallocs := w'.mallocs, nextBuffer := w'.nextBuffer }

theorem World.Allocates.trans {w w' w'' : World} (h : w.Allocates w') (h' : w'.Allocates w'') :
  w.Allocates w''
  := by
  rw [World.Allocates] at h h' ⊢
  rw [h', h]

section

variable {E : Fault → Prop} {w : World}

@[simp]
theorem ends_malloc {Q : Bool → World → Prop} :
  Program.Ends E malloc w Q ↔
    Q (w.mallocs 0) { w with mallocs := fun i => w.mallocs (i + 1) }
  := Iff.rfl

@[simp]
theorem World.release_toSwInfo (buf : Buffer) :
  (w.release buf).toSwInfo = w.toSwInfo
  := rfl

@[simp]
theorem World.release_mallocs (buf : Buffer) :
  (w.release buf).mallocs = w.mallocs
  := rfl

@[simp]
theorem World.release_writes (buf : Buffer) :
  (w.release buf).writes = w.writes
  := rfl

@[simp]
theorem World.release_nextBuffer (buf : Buffer) :
  (w.release buf).nextBuffer = w.nextBuffer
  := rfl

@[simp]
theorem World.release_released (buf : Buffer) :
  (w.release buf).released = w.released ++ [buf.addr]
  := rfl

@[simp]
theorem World.release_sent (buf : Buffer) :
  (w.release buf).sent = w.sent
  := rfl

@[simp]
theorem World.release_written (buf : Buffer) :
  (w.release buf).written = w.written
  := rfl

@[simp]
theorem ends_freeBuffer {buf : Buffer} {Q : Unit → World → Prop} :
  Program.Ends E (freeBuffer (some buf)) w Q ↔ Q () (w.release buf)
  := Iff.rfl

/-- What is read from a buffer is what the reader returns on its memory. -/
theorem ensures_look {α : Type} {host : Host} {buf : Buffer} {m : MessageReader α}
    {Q : α → World → Prop} (h : ∀ a, m.Returns (buf.memory host) a → Q a w) :
  Program.Ensures (look host buf m) w Q
  := by
  unfold look
  split
  · trivial
  · next block hblock =>
      have hmemory : buf.memory host = memoryOf block host.beyond := by
        rw [Buffer.memory, hblock, Option.getD_some]
      split
      · trivial
      · next a ha =>
          apply Program.ends_pure.mpr
          apply h
          rw [hmemory]
          exact ⟨host.fuel, ha⟩

/-- Reading without a loop from a buffer that has data. -/
theorem ends_look {α : Type} {host : Host} {buf : Buffer} {block : List UInt8}
    (hblock : buf.data = some block) {m : MessageReader α} {log : List ℕ} {a : α}
    (hm : m.Yields (memoryOf block host.beyond) log a) {Q : α → World → Prop} :
  Program.Ends E (look host buf m) w Q ↔ Q a w
  := by
  simp only [look, hblock, hm host.fuel, Program.ends_pure]

/-- A new buffer takes two allocations, both unchecked: the first is followed at once, and
without the second there is no data. -/
theorem ends_allocBufferWithLength {length : ℕ} {Q : Buffer → World → Prop} :
  Program.Ends E (allocBufferWithLength length) w Q ↔
    (w.mallocs 0 = false → E .null) ∧
    (w.mallocs 0 = true → Q
      { addr := w.nextBuffer
        data := if w.mallocs 1 ∧ length ≤ ptrdiffMax then some (List.replicate length 0) else none
        length := length }
      { w with mallocs := fun i => w.mallocs (i + 2), nextBuffer := w.nextBuffer + 1 })
  := by
  simp only [allocBufferWithLength, Program.ends_bind, ends_malloc, Program.ends_ite,
    Program.ends_stop, Program.ends_state, Program.ends_update, Program.ends_pure,
    Bool.not_eq_true, Bool.not_eq_false]

/-- A new buffer has a block of the length asked for, or none. -/
theorem ensures_allocBufferWithLength {length : ℕ} {Q : Buffer → World → Prop}
    (h : ∀ buf w', w.Allocates w' → w'.mallocs 0 = w.mallocs 2 → buf.length = length →
      (∀ block, buf.data = some block → block.length = length) → Q buf w') :
  Program.Ensures (allocBufferWithLength length) w Q
  := by
  refine ends_allocBufferWithLength.mpr ⟨fun _ => trivial, fun _ => ?_⟩
  apply h
  · rfl
  · rfl
  · rfl
  · intro block hblock
    split at hblock
    · obtain rfl := Option.some.inj hblock
      apply List.length_replicate
    · cases hblock

/-- Filling a whole block. -/
theorem ends_fill_whole {addr length : ℕ} {block bytes : List UInt8}
    (hlength : block.length = bytes.length) {Q : Buffer → World → Prop} :
  Program.Ends E (fill ⟨addr, some block, length⟩ 0 bytes) w Q ↔ Q ⟨addr, some bytes, length⟩ w
  := by
  simp [fill, ← hlength]

/-- Filling a buffer leaves its other bytes and the length of its block. -/
theorem ensures_fill {buf : Buffer} {p : ℕ} {bytes : List UInt8} {Q : Buffer → World → Prop}
    (h : ∀ block, buf.data = some block → p + bytes.length ≤ block.length →
      Q { buf with data := some (block.take p ++ bytes ++ block.drop (p + bytes.length)) } w) :
  Program.Ensures (fill buf p bytes) w Q
  := by
  unfold fill
  split
  · trivial
  · next block hblock =>
      apply Program.ends_ite.mpr
      constructor
      · intro hfits
        apply Program.ends_pure.mpr
        apply h block hblock hfits
      · intro _
        trivial

end

/-! ### Allocations that are not checked -/

/-- The next `k` allocations succeed. -/
def World.Grants (w : World) (k : ℕ) : Prop :=
  ∀ i < k, w.mallocs i = true

/-- What is left when `k` allocations have been made. -/
def World.drawn (w : World) (k : ℕ) : World :=
  { w with mallocs := fun i => w.mallocs (i + k) }

/-- The program makes `k` allocations and then returns `a`; none of them is survived when it
fails. -/
def Draws {α : Type} (k : ℕ) (m : Action α) (a : α) : Prop :=
  ∀ (E : Fault → Prop) (w : World) (Q : α → World → Prop),
    Program.Ends E m w Q ↔ (w.Grants k → Q a (w.drawn k)) ∧ (¬ w.Grants k → E .null)

/-- The program makes `k` allocations and then goes on as `m'`; none of them is survived when it
fails. -/
def GoesOn {α : Type} (k : ℕ) (m m' : Action α) : Prop :=
  ∀ (E : Fault → Prop) (w : World) (Q : α → World → Prop),
    Program.Ends E m w Q ↔
      (w.Grants k → Program.Ends E m' (w.drawn k) Q) ∧ (¬ w.Grants k → E .null)

section

variable {α β : Type} {k l : ℕ} {a : α} {m : Action α} {w : World}

@[simp]
theorem World.grants_zero :
  w.Grants 0
  := fun _ h => absurd h (Nat.not_lt_zero _)

theorem World.grants_one :
  w.Grants 1 ↔ w.mallocs 0 = true
  := by
  constructor
  · intro h
    apply h 0 Nat.one_pos
  · intro h i hi
    obtain rfl : i = 0 := by omega
    apply h

theorem World.grants_three (h0 : w.mallocs 0 = true) (h1 : w.mallocs 1 = true)
    (h2 : w.mallocs 2 = true) :
  w.Grants 3
  := by
  intro i hi
  match i with
  | 0 => exact h0
  | 1 => exact h1
  | 2 => exact h2

theorem World.grants_add :
  w.Grants (k + l) ↔ w.Grants k ∧ (w.drawn k).Grants l
  := by
  constructor
  · intro h
    use fun i hi => h i (by omega)
    intro i hi
    apply h (i + k) (by omega)
  · rintro ⟨hk, hl⟩ i hi
    rcases Nat.lt_or_ge i k with hlt | hge
    · apply hk i hlt
    · have hi' : w.mallocs (i - k + k) = true := hl (i - k) (by omega)
      rwa [Nat.sub_add_cancel hge] at hi'

@[simp]
theorem World.drawn_zero :
  w.drawn 0 = w
  := rfl

theorem World.drawn_add :
  w.drawn (k + l) = (w.drawn k).drawn l
  := by
  simp only [World.drawn, World.mk.injEq, true_and, and_true]
  funext i
  rw [Nat.add_assoc, Nat.add_comm k]

theorem draws_pure :
  Draws 0 (pure a) a
  := by
  intro E w Q
  simp

theorem draws_malloc :
  Draws 1 mallocUnchecked ()
  := by
  intro E w Q
  simp only [mallocUnchecked, Program.ends_bind, ends_malloc, Program.ends_ite,
    Program.ends_stop, Program.ends_pure, World.grants_one, Bool.not_eq_true,
    Bool.not_eq_false]
  apply and_comm

/-- Programs one after the other. -/
theorem Draws.bind {f : α → Action β} {b : β} (hm : Draws k m a) (hf : Draws l (f a) b) :
  Draws (k + l) (m >>= f) b
  := by
  intro E w Q
  rw [Program.ends_bind, hm, hf, World.grants_add, World.drawn_add]
  tauto

theorem draws_malloc_bind {f : Unit → Action β} {b : β} (hf : Draws l (f ()) b) :
  Draws (l + 1) (mallocUnchecked >>= f) b
  := by
  rw [Nat.add_comm]
  exact draws_malloc.bind hf

theorem goesOn_refl :
  GoesOn 0 m m
  := by
  intro E w Q
  simp

theorem Draws.goesOn {f : α → Action β} (hm : Draws k m a) :
  GoesOn k (m >>= f) (f a)
  := by
  intro E w Q
  rw [Program.ends_bind, hm]

theorem GoesOn.trans {m' m'' : Action α} (h : GoesOn k m m') (h' : GoesOn l m' m'') :
  GoesOn (k + l) m m''
  := by
  intro E w Q
  rw [h, h', World.grants_add, World.drawn_add]
  tauto

/-- A program that goes on as one that returns. -/
theorem GoesOn.draws {m' : Action α} (h : GoesOn k m m') (h' : Draws l m' a) :
  Draws (k + l) m a
  := by
  intro E w Q
  rw [h, h', World.grants_add, World.drawn_add]
  tauto

/-- Reading the whole of a block. -/
theorem copyOut_whole {block : List UInt8} :
  copyOut block 0 block.length = pure block
  := by
  rw [copyOut, if_pos (by omega), List.drop_zero, List.take_length]

/-- Reading inside a part of a block. -/
theorem copyOut_append (before after : List UInt8) {block : List UInt8} {o n : ℕ}
    (hle : o + n ≤ block.length) :
  copyOut (before ++ (block ++ after)) (before.length + o) n = pure ((block.drop o).take n)
  := by
  rw [copyOut, if_pos]
  · rw [← List.drop_drop, List.drop_left, List.drop_append_of_le_length (by omega),
      List.take_append_of_le_length]
    rw [List.length_drop]
    omega
  · rw [List.length_append, List.length_append]
    omega

end

end CcController
