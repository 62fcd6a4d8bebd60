import Mathlib.Algebra.BigOperators.Group.List.Basic
import Mathlib.Algebra.GroupWithZero.Nat
import Mathlib.Data.List.Infix

/-!
# Records in memory

A `Struct` says how a record lies in memory, field after field: numbers of several bytes,
byte strings and padding. `Struct.convert` copies a record from one place to another and
turns each number round when the byte orders of the two places differ; the padding of the
copy is zero.

Copying twice with the same `swap` gives back the record with its padding cleared, so one
function is both the encoder and the decoder. What is at a field of the copy depends on that
field of the record only.
-/

variable {β : Type}

/-- How long lists are one behind the other. -/
theorem length_flatten_map {α : Type} {l : List α} {f : α → List β} {size : α → ℕ}
    (h : ∀ a ∈ l, (f a).length = size a) :
  (l.map f).flatten.length = (l.map size).sum
  := by
  rw [List.length_flatten, List.map_map]
  congr 1
  apply List.map_congr_left h

/-! ### What a memory holds -/

/-- From the place `p` on, the memory holds the bytes `bs`. -/
def Holds (mem : ℕ → β) : ℕ → List β → Prop
  | _, [] => True
  | p, b :: bs => mem p = b ∧ Holds mem (p + 1) bs

theorem holds_append {mem : ℕ → β} {p : ℕ} {as bs : List β} :
  Holds mem p (as ++ bs) ↔ Holds mem p as ∧ Holds mem (p + as.length) bs
  := by
  induction as generalizing p with
  | nil => simp [Holds]
  | cons a as ih =>
      rw [List.cons_append, Holds, Holds, ih, List.length_cons, and_assoc, Nat.add_assoc,
        Nat.add_comm 1]

/-- A memory that is the same there holds the same. -/
theorem Holds.congr {mem mem' : ℕ → β} {p q : ℕ} {bs : List β} (h : Holds mem p bs)
    (heq : ∀ i < bs.length, mem' (q + i) = mem (p + i)) :
  Holds mem' q bs
  := by
  induction bs generalizing p q with
  | nil => trivial
  | cons b bs ih =>
      use (heq 0 (Nat.succ_pos _)).trans h.1
      apply ih h.2
      intro i hi
      have hnext := heq (i + 1) (Nat.succ_lt_succ hi)
      rwa [Nat.add_comm i, ← Nat.add_assoc, ← Nat.add_assoc] at hnext

/-- What a memory holds is found by reading it. -/
theorem Holds.map_range' {mem : ℕ → β} {p : ℕ} {bs : List β} (h : Holds mem p bs) :
  (List.range' p bs.length).map mem = bs
  := by
  induction bs generalizing p with
  | nil => rfl
  | cons b bs ih =>
      rw [List.length_cons, List.range'_succ, List.map_cons, h.1, ih h.2]

/-- A memory that begins with a list holds that list. -/
theorem holds_getD (bs : List β) (beyond : ℕ → β) (done : List β) :
  Holds (fun i => (done ++ bs).getD i (beyond i)) done.length bs
  := by
  induction bs generalizing done with
  | nil => trivial
  | cons b bs ih =>
      constructor
      · simp
      · simpa using ih (done ++ [b])

/-! ### Layouts -/

/-- A field of a record and how many bytes it takes. -/
inductive Struct.Field where
  | number (n : ℕ)
  | bytes (n : ℕ)
  | pad (n : ℕ)
  deriving DecidableEq

def Struct.Field.size : Struct.Field → ℕ
  | .number n => n
  | .bytes n => n
  | .pad n => n

/-- A record, as the list of its fields. -/
abbrev Struct := List Struct.Field

namespace Struct

def size (layout : Struct) : ℕ :=
  (layout.map Field.size).sum

@[simp]
theorem size_nil :
  size [] = 0
  := rfl

@[simp]
theorem size_cons {f : Field} {layout : Struct} :
  size (f :: layout) = f.size + size layout
  := by
  simp [size]

@[simp]
theorem size_append {layout layout' : Struct} :
  size (layout ++ layout') = size layout + size layout'
  := by
  simp [size]

end Struct

/-- The bytes of a number in the other byte order, or in the same. -/
def reorder (swap : Bool) (b : List β) : List β :=
  if swap then b.reverse else b

@[simp]
theorem length_reorder {swap : Bool} {b : List β} :
  (reorder swap b).length = b.length
  := by
  unfold reorder
  split
  · apply List.length_reverse
  · rfl

@[simp]
theorem reorder_reorder {swap : Bool} {b : List β} :
  reorder swap (reorder swap b) = b
  := by
  cases swap
  · rfl
  · apply List.reverse_reverse

variable [Zero β]

/-- The copy of a field that reads `b`. -/
def Struct.Field.convert (swap : Bool) (f : Struct.Field) (b : List β) : List β :=
  match f with
  | .number _ => reorder swap b
  | .bytes _ => b
  | .pad n => List.replicate n 0

theorem Struct.Field.length_convert {swap : Bool} {f : Struct.Field} {b : List β}
    (hb : b.length = f.size) :
  (f.convert swap b).length = f.size
  := by
  cases f with
  | number n => exact length_reorder.trans hb
  | bytes n => exact hb
  | pad n => exact List.length_replicate

theorem Struct.Field.convert_convert {swap : Bool} {f : Struct.Field} {b : List β} :
  f.convert swap (f.convert swap b) = f.convert false b
  := by
  cases f with
  | number n => exact reorder_reorder
  | bytes n => rfl
  | pad n => rfl

namespace Struct

/-- Copy a record field by field. -/
def convert (swap : Bool) : Struct → List β → List β
  | [], _ => []
  | f :: layout, b => f.convert swap (b.take f.size) ++ convert swap layout (b.drop f.size)

/-- The record with its padding cleared. -/
abbrev clear (layout : Struct) (b : List β) : List β :=
  layout.convert false b

variable {swap : Bool}

theorem length_convert {layout : Struct} {b : List β} (hb : layout.size ≤ b.length) :
  (layout.convert swap b).length = layout.size
  := by
  induction layout generalizing b with
  | nil => rfl
  | cons f layout ih =>
      rw [size_cons] at hb
      rw [convert, List.length_append, size_cons, Struct.Field.length_convert, ih]
      · rw [List.length_drop]
        omega
      · rw [List.length_take]
        omega

/-- A copy of a copy. -/
theorem convert_convert {layout : Struct} {b : List β} (hb : layout.size ≤ b.length) :
  layout.convert swap (layout.convert swap b) = layout.clear b
  := by
  induction layout generalizing b with
  | nil => rfl
  | cons f layout ih =>
      rw [size_cons] at hb
      have hfield : (f.convert swap (b.take f.size)).length = f.size := by
        apply Struct.Field.length_convert
        rw [List.length_take]
        omega
      have hrest : size layout ≤ (b.drop f.size).length := by
        rw [List.length_drop]
        omega
      have hinner : convert swap (f :: layout) b
          = f.convert swap (b.take f.size) ++ convert swap layout (b.drop f.size) := rfl
      rw [hinner, convert, List.take_left' hfield, List.drop_left' hfield,
        Struct.Field.convert_convert, ih hrest]
      rfl

/-- A record whose first field is known. -/
theorem convert_cons {f : Field} {layout : Struct} {b rest : List β} (hb : b.length = f.size) :
  convert swap (f :: layout) (b ++ rest) = f.convert swap b ++ layout.convert swap rest
  := by
  rw [convert, List.take_left' hb, List.drop_left' hb]

theorem convert_append {layout layout' : Struct} {b : List β} :
  (layout ++ layout').convert swap b
    = layout.convert swap b ++ layout'.convert swap (b.drop layout.size)
  := by
  induction layout generalizing b with
  | nil => rfl
  | cons f layout ih =>
      rw [List.cons_append, convert, convert, ih, List.append_assoc, List.drop_drop, size_cons]

/-- Where the field number `k` begins. -/
def offset (layout : Struct) (k : ℕ) : ℕ :=
  size (layout.take k)

theorem split_at {layout : Struct} {f : Field} {k : ℕ} (hk : layout[k]? = some f) :
  layout = layout.take k ++ f :: layout.drop (k + 1)
  := by
  obtain ⟨hlt, rfl⟩ := List.getElem?_eq_some_iff.mp hk
  rw [List.getElem_cons_drop, List.take_append_drop]

theorem offset_add_le {layout : Struct} {f : Field} {k : ℕ} (hk : layout[k]? = some f) :
  layout.offset k + f.size ≤ layout.size
  := by
  rw [split_at hk, size_append, size_cons, ← split_at hk, offset]
  omega

/-- The copy of a field is found at the place of the field. -/
theorem holds_field {mem : ℕ → β} {p : ℕ} {layout : Struct} {f : Field} {k : ℕ} {b : List β}
    (hk : layout[k]? = some f) (hb : layout.size ≤ b.length)
    (h : Holds mem p (layout.convert swap b)) :
  Holds mem (p + layout.offset k) (f.convert swap ((b.drop (layout.offset k)).take f.size))
  := by
  have hle := offset_add_le hk
  rw [split_at hk, convert_append, holds_append] at h
  have hfield := h.2
  rw [length_convert, convert, holds_append] at hfield
  · apply hfield.1
  · rw [← offset]
    omega

/-- Bytes behind the record do not matter. -/
theorem convert_left {layout : Struct} {b rest : List β} (hb : b.length = layout.size) :
  layout.convert swap (b ++ rest) = layout.convert swap b
  := by
  induction layout generalizing b with
  | nil => rfl
  | cons f layout ih =>
      rw [size_cons] at hb
      have hle : f.size ≤ b.length := by omega
      rw [convert, convert, List.take_append_of_le_length hle, List.drop_append_of_le_length hle,
        ih (by rw [List.length_drop]; omega)]

theorem convert_take {layout : Struct} {b : List β} (hb : layout.size ≤ b.length) :
  layout.convert swap (b.take layout.size) = layout.convert swap b
  := by
  have hlength : (b.take layout.size).length = layout.size := by
    rw [List.length_take, Nat.min_eq_left hb]
  have hleft : layout.convert swap (b.take layout.size ++ b.drop layout.size)
      = layout.convert swap (b.take layout.size) := convert_left hlength
  rw [← hleft, List.take_append_drop]

/-- A record without padding is its own copy. -/
theorem clear_eq_take {layout : Struct} (h : ∀ n, Field.pad n ∉ layout) {b : List β} :
  layout.clear b = b.take layout.size
  := by
  induction layout generalizing b with
  | nil => simp [clear, convert]
  | cons f layout ih =>
      have hfield : f.convert false (b.take f.size) = b.take f.size := by
        cases f with
        | number n => rfl
        | bytes n => rfl
        | pad n => exact absurd List.mem_cons_self (h n)
      have hrest : convert false layout (b.drop f.size) = (b.drop f.size).take (size layout) :=
        ih (fun n hn => h n (List.mem_cons_of_mem f hn))
      rw [clear, convert, hfield, hrest, size_cons, List.take_add]

end Struct

/-- A record: as many bytes as its layout says. -/
structure Record (β : Type) (layout : Struct) where
  bytes : List β
  size : bytes.length = layout.size

namespace Record

variable {swap : Bool} {layout : Struct}

@[simp]
theorem length_convert {r : Record β layout} :
  (layout.convert swap r.bytes).length = layout.size
  := Struct.length_convert (Nat.le_of_eq r.size.symm)

theorem convert_convert {r : Record β layout} :
  layout.convert swap (layout.convert swap r.bytes) = layout.clear r.bytes
  := Struct.convert_convert (Nat.le_of_eq r.size.symm)

end Record
