import CcController.Lib.Heap

/-!
# Blocks of memory

Blocks are cells of a heap that hold a list each. A pointer leads to a place in a block or
is null; what it is moved by is a machine word, and it may be moved out of its block, but
not followed there.

Loading and storing are followed to the end: a load gives the part of the block it asks for,
a store of as many entries replaces that part, and a load of what was stored gives it back.
-/

/-- A place in a block. -/
structure Pointer where
  block : ℕ
  offset : UInt64
  deriving DecidableEq, Repr

namespace Pointer

/-- The place `n` further on. -/
def add (p : Pointer) (n : UInt64) : Pointer :=
  { p with offset := p.offset + n }

@[simp]
theorem add_block (p : Pointer) (n : UInt64) :
  (p.add n).block = p.block
  := rfl

@[simp]
theorem add_offset (p : Pointer) (n : UInt64) :
  (p.add n).offset = p.offset + n
  := rfl

end Pointer

/-- Memory that is handed out in blocks. -/
abbrev Blocks (ν : Type) := Heap (List ν)

namespace Blocks

variable {ν : Type}

/-- The `n` entries from the place `p` on. -/
def load (m : Blocks ν) (p : Option Pointer) (n : ℕ) : Except Fault (List ν) :=
  match p with
  | none => .error .null
  | some p =>
    match m.cells p.block with
    | none => .error .dangling
    | some block =>
      if p.offset.toNat + n ≤ block.length then .ok ((block.drop p.offset.toNat).take n)
      else .error .overrun

/-- Replace the entries from the place `p` on by `xs`. -/
def store (m : Blocks ν) (p : Option Pointer) (xs : List ν) : Except Fault (Blocks ν) :=
  match p with
  | none => .error .null
  | some p =>
    match m.cells p.block with
    | none => .error .dangling
    | some block =>
      if p.offset.toNat + xs.length ≤ block.length then
        .ok (m.set p.block
          (block.take p.offset.toNat ++ xs ++ block.drop (p.offset.toNat + xs.length)))
      else .error .overrun

/-- Release the block that `p` points to the start of. -/
def free (m : Blocks ν) (p : Option Pointer) : Except Fault (Blocks ν) :=
  match p with
  | none => .ok m
  | some p => if p.offset = 0 then Heap.free m (some p.block) else .error .wild

variable {m : Blocks ν} {p : Pointer} {pre xs post : List ν}

/-- Loading a part of a block. -/
theorem load_part (hcell : m.cells p.block = some (pre ++ xs ++ post))
    (hoffset : p.offset.toNat = pre.length) :
  m.load (some p) xs.length = .ok xs
  := by
  have hle : pre.length + xs.length ≤ (pre ++ xs ++ post).length := by
    simp only [List.length_append]
    omega
  simp only [load, hcell, hoffset, hle, if_true]
  rw [List.append_assoc, List.drop_left, List.take_left]

/-- Storing behind a part of a block. -/
theorem store_behind {rest : List ν} (hcell : m.cells p.block = some (pre ++ rest))
    (hoffset : p.offset.toNat = pre.length) (xs : List ν) :
  m.store (some p) xs
    = if xs.length ≤ rest.length then
        .ok (m.set p.block (pre ++ xs ++ rest.drop xs.length))
      else .error .overrun
  := by
  simp only [store, hcell, hoffset, List.length_append, Nat.add_le_add_iff_left, List.take_left]
  rw [← List.drop_drop, List.drop_left]

/-- Storing in place of a part of a block. -/
theorem store_part {ys : List ν} (hcell : m.cells p.block = some (pre ++ ys ++ post))
    (hoffset : p.offset.toNat = pre.length) (hlength : xs.length = ys.length) :
  m.store (some p) xs = .ok (m.set p.block (pre ++ xs ++ post))
  := by
  rw [List.append_assoc] at hcell
  rw [store_behind hcell hoffset, hlength, List.drop_left, if_pos]
  rw [List.length_append]
  omega

/-- What a block begins with can be loaded when another block has been allocated, and stored
in that block if it has the same length. -/
theorem copy_alloc {b : ℕ} {block ys : List ν} (hblock : m.cells b = some block)
    (hle : ys.length ≤ block.length) :
  Blocks.load (m.alloc ys) (some ⟨b, 0⟩) ys.length = .ok (block.take ys.length) ∧
    Blocks.store (m.alloc ys) (some ⟨m.limit, 0⟩) (block.take ys.length)
      = .ok ((m.alloc ys).set m.limit (block.take ys.length))
  := by
  have hold : (m.alloc ys).cells b
      = some ([] ++ block.take ys.length ++ block.drop ys.length) := by
    rw [Heap.alloc_cells_of_ne _ (Nat.ne_of_lt (Heap.lt_limit hblock)), hblock, List.nil_append,
      List.take_append_drop]
  have hnew : (m.alloc ys).cells m.limit = some ([] ++ ys ++ []) := by
    rw [List.nil_append, List.append_nil]
    apply Heap.alloc_cells_limit
  have htake : (block.take ys.length).length = ys.length := by
    rw [List.length_take, Nat.min_eq_left hle]
  constructor
  · have hload := load_part (p := ⟨b, 0⟩) hold rfl
    rw [htake] at hload
    exact hload
  · have hstore := store_part (p := ⟨m.limit, 0⟩) hnew rfl htake
    rw [List.nil_append, List.append_nil] at hstore
    exact hstore

/-- A store leaves the length of the block. -/
theorem store_ok {m' : Blocks ν} (h : m.store (some p) xs = .ok m') :
  ∃ block block', m.cells p.block = some block ∧ m'.cells p.block = some block' ∧
    block'.length = block.length
  := by
  unfold store at h
  cases hcell : m.cells p.block with
  | none => simp [hcell] at h
  | some block =>
      simp only [hcell] at h
      split at h
      · next hle =>
          obtain rfl := Except.ok.inj h
          refine ⟨block, _, rfl, Heap.set_cells_self _ hcell, ?_⟩
          simp only [List.length_append, List.length_take, List.length_drop]
          omega
      · cases h

end Blocks
