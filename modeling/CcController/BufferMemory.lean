import CcController.Buffer
import CcController.Lib.Blocks
import Mathlib.Data.UInt

/-!
# Buffers in memory

A buffer as it lies in memory: a record of three pointers and a length. The block of the
buffer starts at `top`, its data at `data`, which removals move away from `top`. The model of
the handlers, in which a buffer is its data, is for buffers that nothing has been removed
from.

The operations that move data account for the gap between `top` and `data` differently.
`duplicateBuffer` copies as many bytes as there are data, but from `top` on, so the copy is
right exactly as long as nothing has been removed (`duplicate_buffer_iff`).
`appendFront` releases the record of the buffer before it stores to it, so
`appendFrontBuffer` never grows a buffer (`append_front_buffer_never`).
-/

namespace CcController

/-- The record of a buffer. The mutex is not used. -/
structure BufferCell where
  data : Option Pointer
  top : Option Pointer
  tail : Option Pointer
  length : UInt64

/-- The record when `k` bytes have been removed from the front. -/
def BufferCell.removed (cell : BufferCell) (k : UInt64) : BufferCell :=
  { cell with data := cell.data.map (·.add k), length := cell.length - k }

theorem BufferCell.removed_zero (cell : BufferCell) :
  cell.removed 0 = cell
  := by
  cases cell with
  | mk data top tail length =>
      cases data with
      | none => simp [removed]
      | some p => simp [removed, Pointer.add]

theorem BufferCell.removed_removed (cell : BufferCell) (k l : UInt64) :
  (cell.removed k).removed l = cell.removed (k + l)
  := by
  have hlength : cell.length - k - l = cell.length - (k + l) := by grind
  cases hdata : cell.data with
  | none => simp [removed, hdata, hlength]
  | some p => simp [removed, hdata, hlength, Pointer.add, UInt64.add_assoc]

/-- The records and the blocks of buffers, and what the next allocations come to: nothing, or
the bytes that the new block happens to hold. -/
structure BufferMemory where
  buffers : Heap BufferCell
  blocks : Blocks UInt8
  mallocs : ℕ → Option (ℕ → UInt8)

/-- What a function does to the memory of buffers. -/
abbrev BufferAction := Program BufferMemory Fault

namespace BufferMemory

/-- The result of the next `malloc`. -/
def malloc : BufferAction (Option (ℕ → UInt8)) := do
  let memory ← Program.state
  Program.update (fun m => { m with mallocs := fun i => m.mallocs (i + 1) })
  pure (memory.mallocs 0)

/-- `malloc( sizeof( buffer ) )`. Every member is stored to before it is read. -/
def mallocBuffer : BufferAction (Option ℕ) := do
  let new ← malloc
  match new with
  | none => pure none
  | some _ => do
    let memory ← Program.state
    Program.update (fun m => { m with buffers := m.buffers.alloc ⟨none, none, none, 0⟩ })
    pure (some memory.buffers.limit)

/-- `malloc( length )`, for a block of data. -/
def mallocData (length : UInt64) : BufferAction (Option Pointer) := do
  let new ← malloc
  match new with
  | none => pure none
  | some bytes =>
    if length.toNat ≤ ptrdiffMax then do
      let memory ← Program.state
      Program.update
        (fun m => { m with blocks := m.blocks.alloc ((List.range length.toNat).map bytes) })
      pure (some ⟨memory.blocks.limit, 0⟩)
    else pure none

def readBuffer (buf : Option ℕ) : BufferAction BufferCell := do
  let memory ← Program.state
  Program.lift (memory.buffers.read buf)

def writeBuffer (buf : Option ℕ) (cell : BufferCell) : BufferAction Unit := do
  let memory ← Program.state
  let buffers ← Program.lift (memory.buffers.write buf cell)
  Program.update (fun m => { m with buffers := buffers })

/-- `free( buf )`. -/
def freeRecord (buf : Option ℕ) : BufferAction Unit := do
  let memory ← Program.state
  let buffers ← Program.lift (memory.buffers.free buf)
  Program.update (fun m => { m with buffers := buffers })

def freeData (p : Option Pointer) : BufferAction Unit := do
  let memory ← Program.state
  let blocks ← Program.lift (Blocks.free memory.blocks p)
  Program.update (fun m => { m with blocks := blocks })

/-- `memcpy` and `memmove`. -/
def copy (dest src : Option Pointer) (length : UInt64) : BufferAction Unit := do
  let memory ← Program.state
  let bytes ← Program.lift (memory.blocks.load src length.toNat)
  let blocks ← Program.lift (memory.blocks.store dest bytes)
  Program.update (fun m => { m with blocks := blocks })

/-- `memset( dest, 0, length )`. -/
def clear (dest : Option Pointer) (length : UInt64) : BufferAction Unit := do
  let memory ← Program.state
  let blocks ← Program.lift (memory.blocks.store dest (List.replicate length.toNat 0))
  Program.update (fun m => { m with blocks := blocks })

/-- `data` and `top` lie in one block or are both null. -/
def frontLengthOf (cell : BufferCell) : UInt64 :=
  match cell.data, cell.top with
  | some data, some top => data.offset - top.offset
  | _, _ => 0

def alreadyAllocated (cell : BufferCell) (length : UInt64) : Bool :=
  let requiredLen := frontLengthOf cell + cell.length + length
  cell.length ≥ requiredLen

def appendFront (buf : ℕ) (length : UInt64) : BufferAction (Option ℕ) := do
  let cell ← readBuffer (some buf)
  let newLength := frontLengthOf cell + cell.length + length
  let newData ← mallocData newLength
  match newData with
  | none => pure none
  | some newData => do
    copy (some (newData.add (frontLengthOf cell + length))) cell.data cell.length
    freeRecord (some buf)
    -- the record is read and stored to all the same
    let cell ← readBuffer (some buf)
    writeBuffer (some buf)
      { data := some (newData.add (frontLengthOf cell))
        top := some newData
        tail := some (newData.add (newLength - 1))
        length := newLength }
    pure (some buf)

def appendBack (buf : ℕ) (length : UInt64) : BufferAction (Option ℕ) := do
  let cell ← readBuffer (some buf)
  let len := frontLengthOf cell
  let newLength := len + cell.length + length
  let newData ← mallocData newLength
  match newData with
  | none => pure none
  | some newData => do
    copy (some (newData.add len)) cell.data cell.length
    freeData cell.top
    writeBuffer (some buf)
      { data := some (newData.add (frontLengthOf cell))
        top := some newData
        tail := some (newData.add (newLength - 1))
        length := newLength }
    pure (some buf)

/-- The result of `malloc` is used unchecked. -/
def allocEmptyData : BufferAction (Option ℕ) := do
  let buf ← mallocBuffer
  writeBuffer buf ⟨none, none, none, 0⟩
  pure buf

def allocBuffer : BufferAction (Option ℕ) :=
  allocEmptyData

/-- The results of `malloc` are used unchecked. -/
def allocBufferWithLength (length : UInt64) : BufferAction (Option ℕ) := do
  let newBuf ← mallocBuffer
  let data ← mallocData length
  writeBuffer newBuf ⟨data, data, data.map (·.add length), length⟩
  pure newBuf

/-- The branches of `appendFrontBuffer` for a buffer with a block. -/
def makeFront (buf : ℕ) (cell : BufferCell) (length : UInt64) : BufferAction Unit :=
  if alreadyAllocated cell length then do
    copy (cell.data.map (·.add length)) cell.data cell.length
    clear cell.data length
  else do
    let _ ← appendFront buf length
    pure ()

/-- A buffer without a block is not given one: the new buffer is forgotten. -/
def appendFrontBuffer (buf : ℕ) (length : UInt64) : BufferAction (Option Pointer) := do
  let cell ← readBuffer (some buf)
  if cell.top = none then do
    let new ← allocBufferWithLength length
    let cell ← readBuffer new
    pure cell.data
  else do
  makeFront buf cell length
  let cell ← readBuffer (some buf)
  pure cell.data

def removeFrontBuffer (buf : ℕ) (length : UInt64) : BufferAction (Option Pointer) := do
  let cell ← readBuffer (some buf)
  let data := cell.data.map (·.add length)
  writeBuffer (some buf) { cell with data := data, length := cell.length - length }
  pure data

/-- The last branches of `appendBackBuffer`. -/
def makeBack (buf : ℕ) (cell : BufferCell) (length : UInt64) : BufferAction Unit :=
  if ¬ alreadyAllocated cell length then do
    let _ ← appendBack buf length
    pure ()
  else pure ()

/-- What is returned is the start of the data, not of what has been appended. -/
def appendBackBuffer (buf : ℕ) (length : UInt64) : BufferAction (Option Pointer) := do
  let cell ← readBuffer (some buf)
  if cell.length = 0 then do
    let new ← allocBufferWithLength length
    let cell ← readBuffer new
    pure cell.data
  else do
  makeBack buf cell length
  let cell ← readBuffer (some buf)
  writeBuffer (some buf) { cell with length := cell.length + length }
  pure cell.data

/-- The buffer that is allocated first is never used. -/
def duplicateBuffer (buf : ℕ) : BufferAction (Option ℕ) := do
  let _ ← allocBuffer
  let old ← readBuffer (some buf)
  if old.length = 0 then pure none else do
  let newBuffer ← allocBufferWithLength old.length
  let new ← readBuffer newBuffer
  copy new.top old.top old.length
  writeBuffer newBuffer
    { data := new.top.map (·.add (frontLengthOf old))
      top := new.top
      tail := new.top.map (·.add (old.length - 1))
      length := old.length }
  pure newBuffer

/-! ### What the operations on memory do -/

/-- The memory when `k` more allocations have been made. -/
def drawn (w : BufferMemory) (k : ℕ) : BufferMemory :=
  { w with mallocs := fun i => w.mallocs (i + k) }

section

variable {E : Fault → Prop} {w : BufferMemory}

@[simp]
theorem ends_malloc {Q : Option (ℕ → UInt8) → BufferMemory → Prop} :
  Program.Ends E malloc w Q ↔ Q (w.mallocs 0) (w.drawn 1)
  := Iff.rfl

theorem ends_readBuffer {buf : ℕ} {cell : BufferCell} (h : w.buffers.cells buf = some cell)
    {Q : BufferCell → BufferMemory → Prop} :
  Program.Ends E (readBuffer (some buf)) w Q ↔ Q cell w
  := by
  simp only [readBuffer, Program.ends_bind, Program.ends_state, Heap.read_some h,
    Program.ends_lift_ok]

theorem ends_writeBuffer {buf : ℕ} {cell : BufferCell} (h : w.buffers.cells buf = some cell)
    {cell' : BufferCell} {Q : Unit → BufferMemory → Prop} :
  Program.Ends E (writeBuffer (some buf) cell') w Q ↔
    Q () { w with buffers := w.buffers.set buf cell' }
  := by
  simp only [writeBuffer, Program.ends_bind, Program.ends_state, Heap.write_some _ h,
    Program.ends_lift_ok, Program.ends_update]

/-- The records do not depend on the blocks. -/
theorem ends_writeBuffer_blocks {buf : ℕ} {cell : BufferCell}
    (h : w.buffers.cells buf = some cell) {blocks : Blocks UInt8} {cell' : BufferCell}
    {Q : Unit → BufferMemory → Prop} :
  Program.Ends E (writeBuffer (some buf) cell') { w with blocks := blocks } Q ↔
    Q () { w with buffers := w.buffers.set buf cell', blocks := blocks }
  := by
  apply ends_writeBuffer (w := { w with blocks := blocks }) h

/-- A block is allocated, or not and then nothing else has changed. -/
theorem ends_mallocData {length : UInt64} {Q : Option Pointer → BufferMemory → Prop} :
  Program.Ends E (mallocData length) w Q ↔
    (∀ bytes, w.mallocs 0 = some bytes → length.toNat ≤ ptrdiffMax →
      Q (some ⟨w.blocks.limit, 0⟩)
        { w.drawn 1 with blocks := w.blocks.alloc ((List.range length.toNat).map bytes) }) ∧
    (w.mallocs 0 = none ∨ ptrdiffMax < length.toNat → Q none (w.drawn 1))
  := by
  rw [mallocData, Program.ends_bind, ends_malloc]
  cases hmalloc : w.mallocs 0 with
  | none => simp
  | some bytes =>
      simp only [Program.ends_ite, Program.ends_bind, Program.ends_state, Program.ends_update,
        Program.ends_pure, Option.some.injEq, forall_eq', reduceCtorEq, false_or, not_le]
      rfl

theorem reaches_copy {dest src : Option Pointer} {length : UInt64}
    {Q : Unit → BufferMemory → Prop} :
  Program.Reaches (copy dest src length) w Q ↔
    ∃ bytes blocks, w.blocks.load src length.toNat = .ok bytes ∧
      w.blocks.store dest bytes = .ok blocks ∧ Q () { w with blocks := blocks }
  := by
  simp only [copy, Program.ends_bind, Program.ends_state]
  cases hload : w.blocks.load src length.toNat with
  | error f => simp [Program.Ends, Program.lift]
  | ok bytes =>
      simp only [Program.ends_lift_ok]
      cases hstore : w.blocks.store dest bytes with
      | error f => simp [Program.Ends, Program.lift, hstore]
      | ok blocks => simp [hstore]

theorem reaches_clear {dest : Option Pointer} {length : UInt64}
    {Q : Unit → BufferMemory → Prop} :
  Program.Reaches (clear dest length) w Q ↔
    ∃ blocks, w.blocks.store dest (List.replicate length.toNat 0) = .ok blocks ∧
      Q () { w with blocks := blocks }
  := by
  simp only [clear, Program.ends_bind, Program.ends_state]
  cases hstore : w.blocks.store dest (List.replicate length.toNat 0) with
  | error f => simp [Program.Ends, Program.lift]
  | ok blocks => simp

theorem reaches_freeData {p : Option Pointer} {Q : Unit → BufferMemory → Prop} :
  Program.Reaches (freeData p) w Q ↔
    ∃ blocks, Blocks.free w.blocks p = .ok blocks ∧ Q () { w with blocks := blocks }
  := by
  simp only [freeData, Program.ends_bind, Program.ends_state]
  cases hfree : Blocks.free w.blocks p with
  | error f => simp [Program.Ends, Program.lift]
  | ok blocks => simp

/-- Storing to a record that could not be allocated. -/
theorem not_reaches_writeBuffer_null {cell : BufferCell} {Q : Unit → BufferMemory → Prop} :
  ¬ Program.Reaches (writeBuffer none cell) w Q
  := fun h => h

/-- A record for a buffer has been allocated and holds `cell`. -/
def withRecord (w : BufferMemory) (cell : BufferCell) : BufferMemory :=
  { w with buffers := (w.buffers.alloc ⟨none, none, none, 0⟩).set w.buffers.limit cell }

/-- The record of a new buffer whose block, if any, `data` points to. -/
def newCell (data : Option Pointer) (length : UInt64) : BufferCell :=
  ⟨data, data, data.map (·.add length), length⟩

/-- A buffer with a block has been allocated. -/
def withBuffer (w : BufferMemory) (length : UInt64) (block : List UInt8) : BufferMemory :=
  { w.withRecord (newCell (some ⟨w.blocks.limit, 0⟩) length) with
    blocks := w.blocks.alloc block }

theorem withRecord_new (w : BufferMemory) (cell : BufferCell) :
  (w.withRecord cell).buffers.cells w.buffers.limit = some cell
  := Heap.set_cells_self _ (Heap.alloc_cells_limit _ _)

theorem withRecord_old {cell cell' : BufferCell} {a : ℕ}
    (h : w.buffers.cells a = some cell') :
  (w.withRecord cell).buffers.cells a = some cell'
  := by
  have hne : a ≠ w.buffers.limit := Nat.ne_of_lt (Heap.lt_limit h)
  apply Eq.trans (Heap.set_cells_of_ne _ hne)
  apply Eq.trans (Heap.alloc_cells_of_ne _ hne) h

theorem withBuffer_new (w : BufferMemory) (length : UInt64) (block : List UInt8) :
  (w.withBuffer length block).buffers.cells w.buffers.limit
    = some (newCell (some ⟨w.blocks.limit, 0⟩) length)
  := w.withRecord_new _

/-- A new record, which is followed unchecked. -/
theorem reaches_allocBuffer {Q : Option ℕ → BufferMemory → Prop} :
  Program.Reaches allocBuffer w Q ↔
    w.mallocs 0 ≠ none ∧
      Q (some w.buffers.limit) ((w.drawn 1).withRecord ⟨none, none, none, 0⟩)
  := by
  have hnew := Heap.alloc_cells_limit w.buffers (⟨none, none, none, 0⟩ : BufferCell)
  simp only [Program.Reaches, allocBuffer, allocEmptyData, mallocBuffer, Program.ends_bind,
    ends_malloc]
  cases w.mallocs 0 with
  | none =>
      simp only [Program.ends_pure, ne_eq, not_true, false_and, iff_false]
      exact not_reaches_writeBuffer_null
  | some bytes =>
      simp only [Program.ends_bind, Program.ends_state, Program.ends_update, Program.ends_pure,
        ne_eq, reduceCtorEq, not_false_eq_true, true_and]
      exact ends_writeBuffer (w := { w.drawn 1 with buffers := w.buffers.alloc _ }) hnew

/-- A new record, which is followed unchecked, and a block, if there is memory for it. -/
theorem reaches_allocBufferWithLength {length : UInt64} {Q : Option ℕ → BufferMemory → Prop} :
  Program.Reaches (allocBufferWithLength length) w Q ↔
    w.mallocs 0 ≠ none ∧
    (∀ bytes, w.mallocs 1 = some bytes → length.toNat ≤ ptrdiffMax →
      Q (some w.buffers.limit)
        ((w.drawn 2).withBuffer length ((List.range length.toNat).map bytes))) ∧
    (w.mallocs 1 = none ∨ ptrdiffMax < length.toNat →
      Q (some w.buffers.limit) ((w.drawn 2).withRecord (newCell none length)))
  := by
  have hnew := Heap.alloc_cells_limit w.buffers (⟨none, none, none, 0⟩ : BufferCell)
  simp only [Program.Reaches, allocBufferWithLength, mallocBuffer, Program.ends_bind,
    ends_malloc]
  cases w.mallocs 0 with
  | none =>
      simp only [Program.ends_pure, ends_mallocData, ne_eq, not_true, false_and, iff_false]
      rintro ⟨hsome, hnone⟩
      cases hdata : w.mallocs 1 with
      | none => exact not_reaches_writeBuffer_null (hnone (Or.inl hdata))
      | some bytes =>
          rcases Nat.lt_or_ge ptrdiffMax length.toNat with hlt | hle
          · exact not_reaches_writeBuffer_null (hnone (Or.inr hlt))
          · exact not_reaches_writeBuffer_null (hsome bytes hdata hle)
  | some bytes =>
      simp only [Program.ends_bind, Program.ends_state, Program.ends_update, Program.ends_pure,
        ends_mallocData, ne_eq, reduceCtorEq, not_false_eq_true, true_and]
      apply and_congr
      · apply forall_congr'
        intro bytes
        apply imp_congr Iff.rfl
        apply imp_congr Iff.rfl
        exact ends_writeBuffer (w := { w.drawn 2 with
          buffers := w.buffers.alloc _
          blocks := w.blocks.alloc _ }) hnew
      · apply imp_congr Iff.rfl
        exact ends_writeBuffer (w := { w.drawn 2 with buffers := w.buffers.alloc _ }) hnew

theorem ensures_copy {dest src : Option Pointer} {length : UInt64}
    {Q : Unit → BufferMemory → Prop} (h : ∀ blocks, Q () { w with blocks := blocks }) :
  Program.Ensures (copy dest src length) w Q
  := by
  simp only [copy, Program.ends_bind, Program.ends_state]
  apply Program.ensures_lift.mpr
  intro bytes _
  apply Program.ensures_lift.mpr
  intro blocks _
  apply Program.ends_update.mpr
  apply h

theorem ensures_clear {dest : Option Pointer} {length : UInt64}
    {Q : Unit → BufferMemory → Prop} (h : ∀ blocks, Q () { w with blocks := blocks }) :
  Program.Ensures (clear dest length) w Q
  := by
  simp only [clear, Program.ends_bind, Program.ends_state]
  apply Program.ensures_lift.mpr
  intro blocks _
  apply Program.ends_update.mpr
  apply h

/-- A released record is not read. -/
theorem ensures_freeRecord_readBuffer {buf : ℕ} {α : Type} {f : BufferCell → BufferAction α}
    {Q : α → BufferMemory → Prop} :
  Program.Ensures (do freeRecord (some buf); let cell ← readBuffer (some buf); f cell) w Q
  := by
  simp only [freeRecord, Program.ends_bind, Program.ends_state]
  apply Program.ensures_lift.mpr
  intro buffers hfree
  have herased : buffers.cells buf = none := by
    cases hcell : w.buffers.cells buf with
    | none => simp [Heap.free, hcell] at hfree
    | some cell =>
        rw [Heap.free_some hcell] at hfree
        obtain rfl := Except.ok.inj hfree
        apply Heap.erase_cells_self
  simp only [readBuffer, Program.ends_bind, Program.ends_state, Program.ends_update,
    Heap.read_dangling herased]
  trivial

end

/-! ### What a buffer holds -/

/-- The block of the buffer begins with `pre`, goes on with the data `s` and ends with
`post`. -/
def Lies (w : BufferMemory) (buf : ℕ) (pre s post : List UInt8) : Prop :=
  ∃ cell block, w.buffers.cells buf = some cell ∧ cell.top = some ⟨block, 0⟩ ∧
    cell.data = some ⟨block, .ofNat pre.length⟩ ∧ cell.length = .ofNat s.length ∧
    w.blocks.cells block = some (pre ++ s ++ post) ∧ (pre ++ s ++ post).length ≤ ptrdiffMax

/-- The data of the buffer are `s`, and lie in its block. -/
def Holds (w : BufferMemory) (buf : ℕ) (s : List UInt8) : Prop :=
  ∃ pre post, w.Lies buf pre s post

variable {w : BufferMemory} {buf : ℕ} {pre s post : List UInt8}

theorem Lies.length_toNat (h : w.Lies buf pre s post) :
  (UInt64.ofNat s.length).toNat = s.length
  := by
  obtain ⟨_, _, -, -, -, -, -, hle⟩ := h
  rw [UInt64.toNat_ofNat', Nat.mod_eq_of_lt]
  simp only [List.length_append, ptrdiffMax] at hle
  omega

theorem Lies.front_toNat (h : w.Lies buf pre s post) :
  (UInt64.ofNat pre.length).toNat = pre.length
  := by
  obtain ⟨_, _, -, -, -, -, -, hle⟩ := h
  rw [UInt64.toNat_ofNat', Nat.mod_eq_of_lt]
  simp only [List.length_append, ptrdiffMax] at hle
  omega

/-- Every record of a buffer that holds data has the length of the data. -/
theorem Holds.length_eq {cell : BufferCell} (h : w.Holds buf s)
    (hcell : w.buffers.cells buf = some cell) :
  cell.length.toNat = s.length
  := by
  obtain ⟨pre, post, hlies⟩ := h
  have hlength := hlies.length_toNat
  obtain ⟨cell', block, hcell', -, -, hlen, -⟩ := hlies
  rw [hcell] at hcell'
  obtain rfl := Option.some.inj hcell'
  rw [hlen, hlength]

/-- Removing bytes from the front leaves the others where they are. -/
theorem Lies.removeFrontBuffer {E : Fault → Prop} {k : UInt64}
    {Q : Option Pointer → BufferMemory → Prop} (h : w.Lies buf pre s post)
    (hk : k.toNat ≤ s.length)
    (hQ : ∀ p w', w'.Lies buf (pre ++ s.take k.toNat) (s.drop k.toNat) post →
      w'.mallocs = w.mallocs → Q p w') :
  Program.Ends E (BufferMemory.removeFrontBuffer buf k) w Q
  := by
  have hlength := h.length_toNat
  obtain ⟨cell, block, hcell, htop, hdata, hlen, hblock, hle⟩ := h
  simp only [BufferMemory.removeFrontBuffer, Program.ends_bind, ends_readBuffer hcell,
    ends_writeBuffer hcell, Program.ends_pure]
  apply hQ
  · have hsplit : pre ++ s.take k.toNat ++ s.drop k.toNat ++ post = pre ++ s ++ post := by
      rw [List.append_assoc pre, List.take_append_drop]
    refine ⟨_, block, Heap.set_cells_self _ hcell, htop, ?_, ?_, ?_, ?_⟩
    · simp only [hdata, Option.map_some, Pointer.add, List.length_append, List.length_take,
        Nat.min_eq_left hk, UInt64.ofNat_add, UInt64.ofNat_toNat]
    · rw [hlen, List.length_drop, UInt64.ofNat_sub hk, UInt64.ofNat_toNat]
    · rw [hsplit, hblock]
    · rw [hsplit]
      exact hle
  · rfl

/-! ### A buffer of its own -/

/-- Memory with one buffer of data `s`, in which the next allocations find blocks of zero
bytes. -/
def filled (s : List UInt8) : BufferMemory where
  buffers := Heap.empty.alloc ⟨some ⟨0, 0⟩, some ⟨0, 0⟩,
    some ⟨0, .ofNat s.length⟩, .ofNat s.length⟩
  blocks := Heap.empty.alloc s
  mallocs _ := some (fun _ => 0)

theorem lies_filled (hs : s.length ≤ ptrdiffMax) :
  (filled s).Lies 0 [] s []
  := by
  refine ⟨_, 0, rfl, rfl, rfl, rfl, ?_, ?_⟩
  · rw [List.nil_append, List.append_nil]
    rfl
  · simpa using hs

/-! ### Growing at the front -/

/-- Growing a block at the front releases the record of the buffer and does not return, or
there is no memory for it and the records are as they were. -/
theorem ensures_appendFront {m : UInt64} {cell : BufferCell}
    (hcell : w.buffers.cells buf = some cell) :
  Program.Ensures (appendFront buf m) w (fun _ w' => w'.buffers = w.buffers)
  := by
  apply Program.ends_bind.mpr
  apply (ends_readBuffer hcell).mpr
  apply Program.ends_bind.mpr
  apply ends_mallocData.mpr
  constructor
  · intro bytes _ _
    apply Program.ends_bind.mpr
    apply ensures_copy
    intro blocks
    apply ensures_freeRecord_readBuffer
  · intro _
    rfl

/-- A buffer that `appendFrontBuffer` returns from is as it was. -/
theorem ensures_appendFrontBuffer {m : UInt64} {cell : BufferCell}
    (hcell : w.buffers.cells buf = some cell) (htop : cell.top ≠ none) :
  Program.Ensures (appendFrontBuffer buf m) w (fun _ w' => w'.buffers = w.buffers)
  := by
  have hreturn : ∀ w' : BufferMemory, w'.buffers = w.buffers →
      Program.Ensures (do let cell ← readBuffer (some buf); pure cell.data) w'
        (fun _ w' => w'.buffers = w.buffers) := by
    intro w' hw'
    have hcell' : w'.buffers.cells buf = some cell := by rw [hw', hcell]
    apply Program.ends_bind.mpr
    apply (ends_readBuffer hcell').mpr
    exact hw'
  apply Program.ends_bind.mpr
  apply (ends_readBuffer hcell).mpr
  rw [if_neg htop]
  apply Program.ends_bind.mpr
  apply Program.ends_ite.mpr
  constructor
  · intro _
    apply Program.ends_bind.mpr
    apply ensures_copy
    intro blocks
    apply ensures_clear
    intro blocks
    exact hreturn _ rfl
  · intro _
    apply Program.ends_bind.mpr
    apply (ensures_appendFront hcell).mono
    intro _ w' hw'
    exact hreturn w' hw'

/-- After a removal the data are those that are left; but growing the buffer at the front
again never succeeds. -/
theorem append_front_buffer_never (h : w.Lies buf [] s []) (k m : UInt64)
    (hk : k.toNat < s.length) (hm : 0 < m) :
  Program.Reaches (removeFrontBuffer buf k) w (fun _ w₁ =>
    w₁.Holds buf (s.drop k.toNat) ∧
      ¬ Program.Reaches (appendFrontBuffer buf m) w₁ (fun _ w₂ =>
        ∃ new : List UInt8, new.length = m.toNat ∧ w₂.Holds buf (new ++ s.drop k.toNat)))
  := by
  apply h.removeFrontBuffer (Nat.le_of_lt hk)
  intro p w₁ hlies _
  use ⟨_, _, hlies⟩
  have hkept : w₁.Holds buf (s.drop k.toNat) := ⟨_, _, hlies⟩
  obtain ⟨cell, block, hcell, htop, -⟩ := hlies
  intro hreaches
  obtain ⟨r, w₂, hok, new, hnew, hholds⟩ := Program.reaches_iff.mp hreaches
  have hsame := Program.ensures_iff.mp
    (ensures_appendFrontBuffer (m := m) hcell (by simp [htop])) r w₂ hok
  have hcell₂ : w₂.buffers.cells buf = some cell := by rw [hsame, hcell]
  have hlength := (hkept.length_eq hcell).symm.trans (hholds.length_eq hcell₂)
  rw [List.length_append] at hlength
  have hpos : 0 < m.toNat := UInt64.lt_iff_toNat_lt.mp hm
  omega

theorem append_front_buffer_two :
  Program.Reaches (removeFrontBuffer 0 1) (filled [1, 2]) (fun _ w₁ =>
    w₁.Holds 0 [2] ∧
      ¬ Program.Reaches (appendFrontBuffer 0 1) w₁ (fun _ w₂ =>
        ∃ new : List UInt8, new.length = 1 ∧ w₂.Holds 0 (new ++ [2])))
  := append_front_buffer_never (lies_filled (by decide)) 1 1 (by decide) (by decide)

/-- One byte is removed and one appended: the record is released before it is stored to. -/
theorem append_front_buffer_dangling :
  ¬ Program.Reaches (removeFrontBuffer 0 1) (filled [1, 2]) (fun _ w₁ =>
    w₁.Holds 0 [2] ∧
      Program.Reaches (appendFrontBuffer 0 1) w₁ (fun _ w₂ =>
        ∃ new : List UInt8, new.length = 1 ∧ w₂.Holds 0 (new ++ [2])))
  := by
  intro h
  obtain ⟨p, w₁, hok, -, happend⟩ := Program.reaches_iff.mp h
  obtain ⟨q, w₂, hok₂, -⟩ := Program.reaches_iff.mp happend
  cases hok
  cases hok₂

/-! ### Duplicating -/

/-- One removal after the other. -/
def removeAll (buf : ℕ) : List UInt64 → BufferAction Unit
  | [] => pure ()
  | k :: ks => do
    let _ ← removeFrontBuffer buf k
    removeAll buf ks

theorem ends_removeFrontBuffer {E : Fault → Prop} {cell : BufferCell}
    (hcell : w.buffers.cells buf = some cell) {k : UInt64}
    {Q : Option Pointer → BufferMemory → Prop} :
  Program.Ends E (removeFrontBuffer buf k) w Q ↔
    Q (cell.removed k).data { w with buffers := w.buffers.set buf (cell.removed k) }
  := by
  simp only [removeFrontBuffer, Program.ends_bind, ends_readBuffer hcell, ends_writeBuffer hcell,
    Program.ends_pure]
  rfl

/-- Removals add up, as machine words do. -/
theorem ends_removeAll {E : Fault → Prop} {cell : BufferCell}
    (hcell : w.buffers.cells buf = some cell) {ks : List UInt64}
    {Q : Unit → BufferMemory → Prop} :
  Program.Ends E (removeAll buf ks) w Q ↔
    Q () { w with buffers := w.buffers.set buf (cell.removed ks.sum) }
  := by
  induction ks generalizing w cell with
  | nil =>
      rw [removeAll, Program.ends_pure, List.sum_nil, cell.removed_zero, Heap.set_same hcell]
  | cons k ks ih =>
      rw [removeAll, Program.ends_bind, ends_removeFrontBuffer hcell,
        ih (Heap.set_cells_self _ hcell), cell.removed_removed, List.sum_cons]
      simp only [Heap.set_set]

/-- `new` is a new buffer with the data of `buf`, all of them in a new block, and nothing
else has changed. -/
def Duplicates (w : BufferMemory) (buf : ℕ) (new : Option ℕ) (w' : BufferMemory) : Prop :=
  ∃ b cell p s, new = some b ∧ w.buffers.cells b = none ∧ w'.buffers.cells b = some cell ∧
    cell.data = some p ∧ w.blocks.cells p.block = none ∧ w.Holds buf s ∧ w'.Holds b s ∧
    (∀ a v, w.buffers.cells a = some v → w'.buffers.cells a = some v) ∧
    ∀ a v, w.blocks.cells a = some v → w'.blocks.cells a = some v

/-- Duplicating takes three allocations. The new block begins with what the old one does. -/
theorem reaches_duplicateBuffer {cell : BufferCell} (hcell : w.buffers.cells buf = some cell)
    (hpos : cell.length ≠ 0) {block : List UInt8} {b : ℕ} (htop : cell.top = some ⟨b, 0⟩)
    (hblock : w.blocks.cells b = some block) (hle : cell.length.toNat ≤ block.length)
    (hmax : block.length ≤ ptrdiffMax) {Q : Option ℕ → BufferMemory → Prop}
    (hmalloc : ∀ i < 3, w.mallocs i ≠ none)
    (hQ : ∀ w', (∀ a v, w.buffers.cells a = some v → w'.buffers.cells a = some v) →
      (∀ a v, w.blocks.cells a = some v → w'.blocks.cells a = some v) →
      w'.buffers.cells (w.buffers.limit + 1) = some
        ⟨some (Pointer.add ⟨w.blocks.limit, 0⟩ (frontLengthOf cell)), some ⟨w.blocks.limit, 0⟩,
          some (Pointer.add ⟨w.blocks.limit, 0⟩ (cell.length - 1)), cell.length⟩ →
      w'.blocks.cells w.blocks.limit = some (block.take cell.length.toNat) →
      Q (some (w.buffers.limit + 1)) w') :
  Program.Reaches (duplicateBuffer buf) w Q
  := by
  apply Program.ends_bind.mpr
  apply reaches_allocBuffer.mpr
  use hmalloc 0 (by omega)
  let w₁ := (w.drawn 1).withRecord ⟨none, none, none, 0⟩
  have hold₁ : ∀ a v, w.buffers.cells a = some v → w₁.buffers.cells a = some v :=
    fun a v ha => withRecord_old (w := w.drawn 1) ha
  apply Program.ends_bind.mpr
  apply (ends_readBuffer (hold₁ buf cell hcell)).mpr
  rw [if_neg hpos]
  apply Program.ends_bind.mpr
  apply reaches_allocBufferWithLength.mpr
  use hmalloc 1 (by omega)
  constructor
  · intro bytes _ _
    have hnew := withBuffer_new (w₁.drawn 2) cell.length
      ((List.range cell.length.toNat).map bytes)
    apply Program.ends_bind.mpr
    apply (ends_readBuffer hnew).mpr
    have hlength : ((List.range cell.length.toNat).map bytes).length = cell.length.toNat := by
      simp
    obtain ⟨hload, hstore⟩ := Blocks.copy_alloc hblock (hlength ▸ hle)
    rw [hlength] at hload hstore
    rw [htop]
    apply Program.ends_bind.mpr
    apply reaches_copy.mpr
    refine ⟨_, _, hload, hstore, ?_⟩
    apply Program.ends_bind.mpr
    apply (ends_writeBuffer_blocks hnew).mpr
    apply Program.ends_pure.mpr
    apply hQ
    · intro a v ha
      apply Eq.trans (Heap.set_cells_of_ne _ _)
      · exact withRecord_old (w := w₁.drawn 2) (hold₁ a v ha)
      · apply Nat.ne_of_lt
        exact Nat.lt_succ_of_lt (Heap.lt_limit ha)
    · intro a v ha
      have hne : a ≠ w.blocks.limit := Nat.ne_of_lt (Heap.lt_limit ha)
      apply Eq.trans (Heap.set_cells_of_ne _ hne)
      apply Eq.trans (Heap.alloc_cells_of_ne _ hne) ha
    · apply Heap.set_cells_self _ hnew
    · apply Heap.set_cells_self _ (Heap.alloc_cells_limit _ _)
  · intro hnone
    exfalso
    rcases hnone with hnone | hlt
    · exact hmalloc 2 (by omega) hnone
    · omega

/-- A duplicate has a block that is as long as the data. -/
theorem Duplicates.of_reaches {cell : BufferCell} (hcell : w.buffers.cells buf = some cell)
    (h : Program.Reaches (duplicateBuffer buf) w (w.Duplicates buf)) :
  (∀ i < 3, w.mallocs i ≠ none) ∧ frontLengthOf cell = 0
  := by
  obtain ⟨h0, h⟩ := reaches_allocBuffer.mp (Program.ends_bind.mp h)
  let w₁ := (w.drawn 1).withRecord ⟨none, none, none, 0⟩
  have hcell₁ : w₁.buffers.cells buf = some cell := withRecord_old (w := w.drawn 1) hcell
  have h := (ends_readBuffer hcell₁).mp (Program.ends_bind.mp h)
  by_cases hzero : cell.length = 0
  · rw [if_pos hzero] at h
    obtain ⟨_, _, _, _, hnew, -⟩ := Program.ends_pure.mp h
    cases hnew
  rw [if_neg hzero] at h
  obtain ⟨h1, hsome, hnone⟩ := reaches_allocBufferWithLength.mp (Program.ends_bind.mp h)
  -- a copy to the null pointer does not return
  have hnot : ¬ (w₁.mallocs 1 = none ∨ ptrdiffMax < cell.length.toNat) := by
    intro hnull
    have h := Program.ends_bind.mp (hnone hnull)
    have h := (ends_readBuffer (withRecord_new (w₁.drawn 2) _)).mp h
    obtain ⟨_, _, -, hstore, -⟩ := reaches_copy.mp (Program.ends_bind.mp h)
    cases hstore
  rw [not_or, not_lt] at hnot
  obtain ⟨h2, hle⟩ := hnot
  constructor
  · intro i hi
    match i with
    | 0 => exact h0
    | 1 => exact h1
    | 2 => exact h2
  · obtain ⟨bytes, hbytes⟩ := Option.ne_none_iff_exists'.mp h2
    have hnew := withBuffer_new (w₁.drawn 2) cell.length
      ((List.range cell.length.toNat).map bytes)
    have h := (ends_readBuffer hnew).mp (Program.ends_bind.mp (hsome bytes hbytes hle))
    obtain ⟨copied, blocks, -, hstore, h⟩ := reaches_copy.mp (Program.ends_bind.mp h)
    have h := (ends_writeBuffer_blocks hnew).mp (Program.ends_bind.mp h)
    obtain ⟨b', cell', p, s, hb', -, hcell', hdata, -, -, hholds, -⟩ := Program.ends_pure.mp h
    obtain rfl := Option.some.inj hb'
    obtain rfl := Option.some.inj ((Heap.set_cells_self _ hnew).symm.trans hcell')
    have hs := hholds.length_eq hcell'
    obtain ⟨pre, post, cell₂, block, hcell₂, htop₂, hdata₂, -, hblock, -⟩ := hholds
    obtain rfl := Option.some.inj (hcell'.symm.trans hcell₂)
    obtain rfl : w.blocks.limit = block := congrArg Pointer.block (Option.some.inj htop₂)
    obtain ⟨old, new, hold, hnewBlock, hlength⟩ := Blocks.store_ok hstore
    have hfresh := Heap.alloc_cells_limit w.blocks ((List.range cell.length.toNat).map bytes)
    obtain rfl := Option.some.inj (hfresh.symm.trans hold)
    obtain rfl := Option.some.inj (hnewBlock.symm.trans hblock)
    have hpre : pre = [] := by
      simp only [List.length_append, List.length_map, List.length_range] at hlength hs
      apply List.eq_nil_of_length_eq_zero
      omega
    rw [hpre] at hdata₂
    have hoffset := congrArg Pointer.offset (Option.some.inj hdata₂)
    simpa using hoffset

/-- A buffer that bytes have been removed from is duplicated, with its data and all of them in
the new block, exactly when the removals add up to nothing and there is memory. -/
theorem duplicate_buffer_iff (h : w.Lies buf [] s []) (hs : s ≠ []) (ks : List UInt64) :
  Program.Reaches (removeAll buf ks) w (fun _ w₁ =>
    Program.Reaches (duplicateBuffer buf) w₁ (w₁.Duplicates buf)) ↔
    ks.sum = 0 ∧ ∀ i < 3, w.mallocs i ≠ none
  := by
  have hlength := h.length_toNat
  have hholds : w.Holds buf s := ⟨_, _, h⟩
  obtain ⟨cell, block, hcell, htop, hdata, hlen, hblock, hle⟩ := h
  rw [Program.Reaches, ends_removeAll hcell]
  have hfront : frontLengthOf (cell.removed ks.sum) = ks.sum := by
    simp [frontLengthOf, BufferCell.removed, hdata, htop]
  constructor
  · intro hreaches
    have hremoved : ({ w with buffers := w.buffers.set buf (cell.removed ks.sum) } :
        BufferMemory).buffers.cells buf = some (cell.removed ks.sum) :=
      Heap.set_cells_self _ hcell
    obtain ⟨hmalloc, hzero⟩ := Duplicates.of_reaches hremoved hreaches
    exact ⟨hfront ▸ hzero, hmalloc⟩
  · rintro ⟨hsum, hmalloc⟩
    rw [hsum, cell.removed_zero, Heap.set_same hcell]
    rw [hsum, cell.removed_zero] at hfront
    simp only [List.nil_append, List.append_nil] at hblock hle
    rw [← hlen] at hlength
    have hpos : cell.length ≠ 0 := by
      intro hzero
      rw [hzero] at hlength
      exact hs (List.eq_nil_of_length_eq_zero hlength.symm)
    apply reaches_duplicateBuffer hcell hpos htop hblock (by omega) hle hmalloc
    intro w' hbuffers hblocks hrecord hnew
    rw [hlength, List.take_length] at hnew
    refine ⟨_, _, ⟨w.blocks.limit, 0⟩, s, rfl, w.buffers.fresh _ (by omega), hrecord, ?_,
      w.blocks.fresh _ (le_refl _), hholds, ⟨[], [], _, w.blocks.limit, hrecord, rfl, ?_, hlen, ?_,
      ?_⟩, hbuffers, hblocks⟩
    · simp [hfront, Pointer.add]
    · simp [hfront, Pointer.add]
    · simpa using hnew
    · simpa using hle

theorem duplicate_buffer_two :
  Program.Reaches (removeAll 0 [1]) (filled [1, 2]) (fun _ w₁ =>
    Program.Reaches (duplicateBuffer 0) w₁ (w₁.Duplicates 0)) ↔
    [(1 : UInt64)].sum = 0 ∧ ∀ i < 3, (filled [1, 2]).mallocs i ≠ none
  := duplicate_buffer_iff (lies_filled (by decide)) (by decide) [1]

/-- One byte of two is removed: the data of the copy begin behind its block. -/
theorem duplicate_buffer_outside :
  ¬ Program.Reaches (removeAll 0 [1]) (filled [1, 2]) (fun _ w₁ =>
    Program.Reaches (duplicateBuffer 0) w₁ (w₁.Duplicates 0))
  := by
  intro h
  have hcell : (filled [1, 2]).buffers.cells 0
      = some ⟨some ⟨0, 0⟩, some ⟨0, 0⟩, some ⟨0, 2⟩, 2⟩ := rfl
  have hremoved := (ends_removeAll hcell).mp h
  obtain ⟨-, hzero⟩ := Duplicates.of_reaches (Heap.set_cells_self _ hcell) hremoved
  cases hzero

end BufferMemory

end CcController
