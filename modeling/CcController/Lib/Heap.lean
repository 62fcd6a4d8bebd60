import Mathlib.Data.List.Nodup
import Mathlib.Data.List.Perm.Subperm
import Mathlib.Logic.Function.Basic

/-!
# Heaps of linked cells

A heap maps addresses to cells. Addresses are identities of allocations and are never
given out twice, so a pointer to a released cell never becomes valid again. Reading or
writing through a pointer stops with a `Fault` when the pointer is null or its cell is not
allocated.

`Layout.Seg cells p es q` says that the entries `es` lie in `cells` as a list whose links
lead from one to the next, that the cell before the first one is `p` and that the last one
links to `q`. A layout says where an entry lies and what its cell is, given the links;
singly linked lists are the layouts that ignore the link back.
-/

/-- The ways a run stops other than by returning. -/
inductive Fault where
  /-- a null pointer is followed -/
  | null
  /-- a pointer is followed whose target is not allocated, or not any more -/
  | dangling
  /-- a block is accessed past its end -/
  | overrun
  /-- a pointer that was never set is followed -/
  | wild
  /-- a loop does not end -/
  | diverges
  deriving DecidableEq, Repr

@[simp]
theorem ok_bind {φ α β : Type} (a : α) (f : α → Except φ β) :
  (Except.ok a >>= f) = f a
  := rfl

@[simp]
theorem error_bind {φ α β : Type} (e : φ) (f : α → Except φ β) :
  (Except.error e >>= f) = Except.error e
  := rfl

/-- A heap of cells. Nothing is allocated from `limit` on. -/
structure Heap (ν : Type) where
  cells : ℕ → Option ν
  limit : ℕ
  fresh : ∀ a, limit ≤ a → cells a = none

namespace Heap

variable {ν : Type}

/-- The heap without cells. -/
def empty : Heap ν where
  cells _ := none
  limit := 0
  fresh _ _ := rfl

/-- Follow the pointer `p`. -/
def read (h : Heap ν) (p : Option ℕ) : Except Fault ν :=
  match p with
  | none => .error .null
  | some a =>
    match h.cells a with
    | none => .error .dangling
    | some v => .ok v

/-- The heap with the cell at `a`, if there is one, holding `v`. -/
def set (h : Heap ν) (a : ℕ) (v : ν) : Heap ν where
  cells x := if x = a then (h.cells a).map (fun _ => v) else h.cells x
  limit := h.limit
  fresh x hx := by
    split
    · next hxa => rw [← hxa, h.fresh x hx, Option.map_none]
    · exact h.fresh x hx

/-- Store `v` through the pointer `p`. -/
def write (h : Heap ν) (p : Option ℕ) (v : ν) : Except Fault (Heap ν) :=
  match p with
  | none => .error .null
  | some a =>
    match h.cells a with
    | none => .error .dangling
    | some _ => .ok (h.set a v)

/-- Allocate a cell holding `v`; its address is the `limit` of `h`. -/
def alloc (h : Heap ν) (v : ν) : Heap ν where
  cells x := if x = h.limit then some v else h.cells x
  limit := h.limit + 1
  fresh x hx := by
    rw [if_neg (by omega)]
    exact h.fresh x (by omega)

/-- The heap without the cell at `a`. -/
def erase (h : Heap ν) (a : ℕ) : Heap ν where
  cells x := if x = a then none else h.cells x
  limit := h.limit
  fresh x hx := by
    split
    · rfl
    · exact h.fresh x hx

/-- Release the cell `p` points to. Releasing the null pointer does nothing. -/
def free (h : Heap ν) (p : Option ℕ) : Except Fault (Heap ν) :=
  match p with
  | none => .ok h
  | some a =>
    match h.cells a with
    | none => .error .dangling
    | some _ => .ok (h.erase a)

theorem lt_limit {h : Heap ν} {a : ℕ} {v : ν} (hv : h.cells a = some v) :
  a < h.limit
  := by
  by_contra hle
  rw [h.fresh a (by omega)] at hv
  cases hv

theorem read_some {h : Heap ν} {a : ℕ} {v : ν} (hv : h.cells a = some v) :
  h.read (some a) = .ok v
  := by
  simp only [read, hv]

theorem read_dangling {h : Heap ν} {a : ℕ} (ha : h.cells a = none) :
  h.read (some a) = .error .dangling
  := by
  simp only [read, ha]

theorem write_some {h : Heap ν} {a : ℕ} {w : ν} (v : ν) (hw : h.cells a = some w) :
  h.write (some a) v = .ok (h.set a v)
  := by
  simp only [write, hw]

theorem free_some {h : Heap ν} {a : ℕ} {v : ν} (hv : h.cells a = some v) :
  h.free (some a) = .ok (h.erase a)
  := by
  simp only [free, hv]

@[simp]
theorem read_null (h : Heap ν) :
  h.read none = .error .null
  := rfl

@[simp]
theorem set_limit (h : Heap ν) (a : ℕ) (v : ν) :
  (h.set a v).limit = h.limit
  := rfl

@[simp]
theorem alloc_limit (h : Heap ν) (v : ν) :
  (h.alloc v).limit = h.limit + 1
  := rfl

@[simp]
theorem erase_limit (h : Heap ν) (a : ℕ) :
  (h.erase a).limit = h.limit
  := rfl

theorem set_cells_self {h : Heap ν} {a : ℕ} {w : ν} (v : ν) (hw : h.cells a = some w) :
  (h.set a v).cells a = some v
  := by
  simp [set, hw]

theorem set_cells_of_ne {h : Heap ν} {a x : ℕ} (v : ν) (hx : x ≠ a) :
  (h.set a v).cells x = h.cells x
  := by
  simp [set, hx]

/-- Storing what a cell holds changes nothing. -/
theorem set_same {h : Heap ν} {a : ℕ} {v : ν} (hv : h.cells a = some v) :
  h.set a v = h
  := by
  cases h with
  | mk cells limit fresh =>
      have hcells : cells a = some v := hv
      rw [set, mk.injEq]
      refine ⟨?_, rfl⟩
      funext x
      by_cases hx : x = a
      · simp [hx, hcells]
      · simp [hx]

/-- The last of two stores to a cell counts. -/
@[simp]
theorem set_set (h : Heap ν) (a : ℕ) (v w : ν) :
  (h.set a v).set a w = h.set a w
  := by
  simp only [set, mk.injEq]
  refine ⟨?_, trivial⟩
  funext x
  by_cases hx : x = a
  · simp [hx, Function.comp_def]
  · simp [hx]

@[simp]
theorem alloc_cells_limit (h : Heap ν) (v : ν) :
  (h.alloc v).cells h.limit = some v
  := by
  simp [alloc]

theorem alloc_cells_of_ne {h : Heap ν} {x : ℕ} (v : ν) (hx : x ≠ h.limit) :
  (h.alloc v).cells x = h.cells x
  := by
  simp [alloc, hx]

@[simp]
theorem erase_cells_self (h : Heap ν) (a : ℕ) :
  (h.erase a).cells a = none
  := by
  simp [erase]

theorem erase_cells_of_ne {h : Heap ν} {a x : ℕ} (hx : x ≠ a) :
  (h.erase a).cells x = h.cells x
  := by
  simp [erase, hx]

/-! ### Loops over linked cells -/

/-- Follow the links `next` from `p` to the cell without a successor. A walk of more steps
than there have been allocations is caught in a cycle. -/
def toLast (next : ν → Option ℕ) (h : Heap ν) : ℕ → Option ℕ → Except Fault ℕ
  | 0, _ => .error .diverges
  | fuel + 1, p =>
    match p with
    | none => .error .null
    | some a =>
      match h.cells a with
      | none => .error .dangling
      | some v =>
        match next v with
        | none => .ok a
        | some b => toLast next h fuel (some b)

/-- Follow the links `next` from `p` to the first cell that passes `test`; null when the
list ends before. -/
def search (next : ν → Option ℕ) (test : ν → Bool) (h : Heap ν) :
    ℕ → Option ℕ → Except Fault (Option ℕ)
  | 0, _ => .error .diverges
  | fuel + 1, p =>
    match p with
    | none => .ok none
    | some a =>
      match h.cells a with
      | none => .error .dangling
      | some v => if test v then .ok (some a) else search next test h fuel (next v)

/-- Follow the links `next` from `p` to the first cell whose successor passes `test`; null
when no successor does. The cell `p` points to is not tested, and there has to be one. -/
def searchAhead (next : ν → Option ℕ) (test : ν → Bool) (h : Heap ν) :
    ℕ → Option ℕ → Except Fault (Option ℕ)
  | 0, _ => .error .diverges
  | fuel + 1, p =>
    match p with
    | none => .error .null
    | some a =>
      match h.cells a with
      | none => .error .dangling
      | some v =>
        match next v with
        | none => .ok none
        | some b =>
          match h.cells b with
          | none => .error .dangling
          | some w => if test w then .ok (some a) else searchAhead next test h fuel (some b)

/-- The addresses of the cells that the links `next` lead to from `p` on. -/
def walk (next : ν → Option ℕ) (h : Heap ν) : ℕ → Option ℕ → Except Fault (List ℕ)
  | 0, _ => .error .diverges
  | fuel + 1, p =>
    match p with
    | none => .ok []
    | some a =>
      match h.cells a with
      | none => .error .dangling
      | some v => (walk next h fuel (next v)).map (a :: ·)

end Heap

/-! ## Lists of linked cells -/

/-- How the entries of a list lie in a heap: the address of an entry, and its cell, given
the link to the next entry and the link back to the previous one. -/
structure Layout (ε ν : Type) where
  addr : ε → ℕ
  cell : ε → Option ℕ → Option ℕ → ν

namespace Layout

variable {ε ν : Type} (L : Layout ε ν)

/-- The address a list starts at, `q` for the empty list. -/
def head (es : List ε) (q : Option ℕ) : Option ℕ :=
  match es with
  | [] => q
  | e :: _ => some (L.addr e)

/-- The address of the last entry of a list, `p` for the empty list. -/
def last (p : Option ℕ) : List ε → Option ℕ
  | [] => p
  | e :: es => last (some (L.addr e)) es

/-- The entries `es` lie in `cells`, linked from one to the next, after the cell `p` and
before the cell `q`. -/
def Seg (cells : ℕ → Option ν) : Option ℕ → List ε → Option ℕ → Prop
  | _, [], _ => True
  | p, e :: es, q =>
    cells (L.addr e) = some (L.cell e (L.head es q) p) ∧ Seg cells (some (L.addr e)) es q

variable {L} {cells cells' : ℕ → Option ν}

@[simp]
theorem head_nil (q : Option ℕ) :
  L.head [] q = q
  := rfl

@[simp]
theorem head_cons (e : ε) (es : List ε) (q : Option ℕ) :
  L.head (e :: es) q = some (L.addr e)
  := rfl

@[simp]
theorem last_nil (p : Option ℕ) :
  L.last p [] = p
  := rfl

@[simp]
theorem last_cons (p : Option ℕ) (e : ε) (es : List ε) :
  L.last p (e :: es) = L.last (some (L.addr e)) es
  := rfl

theorem last_append (p : Option ℕ) (xs ys : List ε) :
  L.last p (xs ++ ys) = L.last (L.last p xs) ys
  := by
  induction xs generalizing p with
  | nil => rfl
  | cons x xs ih => apply ih

@[simp]
theorem last_concat (p : Option ℕ) (xs : List ε) (e : ε) :
  L.last p (xs ++ [e]) = some (L.addr e)
  := by
  rw [last_append]
  rfl

theorem head_append (xs ys : List ε) (q : Option ℕ) :
  L.head (xs ++ ys) q = L.head xs (L.head ys q)
  := by
  cases xs with
  | nil => rfl
  | cons x xs => rfl

@[simp]
theorem seg_nil (p q : Option ℕ) :
  L.Seg cells p [] q
  := trivial

@[simp]
theorem seg_cons (p : Option ℕ) (e : ε) (es : List ε) (q : Option ℕ) :
  L.Seg cells p (e :: es) q ↔
    cells (L.addr e) = some (L.cell e (L.head es q) p) ∧ L.Seg cells (some (L.addr e)) es q
  := Iff.rfl

/-- A list lies in the heap exactly when both its halves do, each ending where the other
starts. -/
theorem seg_append (p : Option ℕ) (xs ys : List ε) (q : Option ℕ) :
  L.Seg cells p (xs ++ ys) q ↔
    L.Seg cells p xs (L.head ys q) ∧ L.Seg cells (L.last p xs) ys q
  := by
  induction xs generalizing p with
  | nil => simp
  | cons x xs ih =>
      simp only [List.cons_append, seg_cons, head_append, last_cons, ih, and_assoc]

/-- A list stays where it is when the cells of its entries do not change. -/
theorem Seg.congr
    {p q : Option ℕ} {es : List ε} (hs : L.Seg cells p es q)
    (h : ∀ e ∈ es, cells' (L.addr e) = cells (L.addr e)) :
  L.Seg cells' p es q
  := by
  induction es generalizing p with
  | nil => trivial
  | cons e es ih =>
      obtain ⟨he, hes⟩ := hs
      constructor
      · rw [h e List.mem_cons_self, he]
      · apply ih hes
        intro e' he'
        apply h e' (List.mem_cons_of_mem _ he')

theorem Seg.isSome
    {p q : Option ℕ} {es : List ε} (hs : L.Seg cells p es q) {e : ε} (he : e ∈ es) :
  (cells (L.addr e)).isSome
  := by
  induction es generalizing p with
  | nil => cases he
  | cons x xs ih =>
      obtain ⟨hx, hxs⟩ := hs
      rcases List.mem_cons.mp he with rfl | he
      · rw [hx]
        rfl
      · apply ih hxs he

/-- A list lies in the cells in one way only: when an address and what its cell holds
determine the entry and the link, two lists that start together are the same. -/
theorem Seg.unique
    (hcell : ∀ e e' q q' p p', L.addr e = L.addr e' → L.cell e q p = L.cell e' q' p' →
      e = e' ∧ q = q')
    {p p' : Option ℕ} {xs ys : List ε} (hxs : L.Seg cells p xs none)
    (hys : L.Seg cells p' ys none) (hhead : L.head xs none = L.head ys none) :
  xs = ys
  := by
  induction xs generalizing p p' ys with
  | nil =>
      cases ys with
      | nil => rfl
      | cons y ys => cases hhead
  | cons x xs ih =>
      cases ys with
      | nil => cases hhead
      | cons y ys =>
          obtain ⟨hx, hxs⟩ := hxs
          obtain ⟨hy, hys⟩ := hys
          have haddr : L.addr x = L.addr y := Option.some.inj hhead
          rw [haddr] at hx
          obtain ⟨rfl, hnext⟩ := hcell _ _ _ _ _ _ haddr (Option.some.inj (hx.symm.trans hy))
          rw [ih hxs hys hnext]

/-- Linking the entry `n` in behind `l`: the cell of `l` links to the one of `n`, which links
to what came after `l`, and every other cell of the list is as before. -/
theorem Seg.link
    {p : Option ℕ} {xs ys : List ε} {l n : ε} (hs : L.Seg cells p (xs ++ l :: ys) none)
    (hxs : ∀ x ∈ xs, cells' (L.addr x) = cells (L.addr x))
    (hl : cells' (L.addr l) = some (L.cell l (some (L.addr n)) (L.last p xs)))
    (hn : cells' (L.addr n) = some (L.cell n (L.head ys none) (some (L.addr l))))
    (hys : L.Seg cells' (some (L.addr n)) ys none) :
  L.Seg cells' p (xs ++ l :: n :: ys) none
  := by
  rw [seg_append] at hs ⊢
  obtain ⟨hinit, -⟩ := hs
  constructor
  · apply hinit.congr hxs
  · exact ⟨hl, hn, hys⟩

/-- Linking a new last entry in. -/
theorem Seg.snoc
    {p : Option ℕ} {es : List ε} {l n : ε} (hs : L.Seg cells p (es ++ [l]) none)
    (hes : ∀ e ∈ es, cells' (L.addr e) = cells (L.addr e))
    (hl : cells' (L.addr l) = some (L.cell l (some (L.addr n)) (L.last p es)))
    (hn : cells' (L.addr n) = some (L.cell n none (some (L.addr l)))) :
  L.Seg cells' p (es ++ [l, n]) none
  := by
  apply hs.link hes hl hn
  trivial

/-- Unlinking the entry `e` that follows `l`: the cell of `l` links past `e`, the cell
after `e`, if any, links back to `l`, and every other cell of the list is as before. -/
theorem Seg.unlink
    {p : Option ℕ} {xs ys : List ε} {l e : ε}
    (hs : L.Seg cells p (xs ++ l :: e :: ys) none)
    (hxs : ∀ x ∈ xs, cells' (L.addr x) = cells (L.addr x))
    (hl : cells' (L.addr l) = some (L.cell l (L.head ys none) (L.last p xs)))
    (hys : L.Seg cells' (some (L.addr l)) ys none) :
  L.Seg cells' p (xs ++ l :: ys) none
  := by
  rw [seg_append] at hs ⊢
  constructor
  · apply hs.1.congr hxs
  · exact ⟨hl, hys⟩

/-- What follows an unlinked entry: the first cell links back to another one, every other
cell is as before. -/
theorem Seg.relink
    {p p' q : Option ℕ} {ys : List ε} (hs : L.Seg cells p ys q)
    (hhead : ∀ y zs, ys = y :: zs → cells' (L.addr y) = some (L.cell y (L.head zs q) p'))
    (htail : ∀ y zs, ys = y :: zs → ∀ z ∈ zs, cells' (L.addr z) = cells (L.addr z)) :
  L.Seg cells' p' ys q
  := by
  cases ys with
  | nil => trivial
  | cons y zs =>
      constructor
      · apply hhead y zs rfl
      · apply hs.2.congr (htail y zs rfl)

/-- When the cells do not depend on the link back, a list may come after any cell. -/
theorem Seg.after
    {p p' q : Option ℕ} {es : List ε} (hcell : ∀ e q p, L.cell e q p = L.cell e q p')
    (hs : L.Seg cells p es q) :
  L.Seg cells p' es q
  := by
  apply hs.relink
  · rintro y zs rfl
    rw [hs.1, hcell]
  · intro y zs _ z _
    rfl

theorem Seg.lt_limit
    {h : Heap ν} {p q : Option ℕ} {es : List ε} (hs : L.Seg h.cells p es q) {e : ε}
    (he : e ∈ es) :
  L.addr e < h.limit
  := by
  obtain ⟨v, hv⟩ := Option.isSome_iff_exists.mp (hs.isSome he)
  apply Heap.lt_limit hv

/-- Entries at different addresses are no more than there have been allocations. -/
theorem Seg.length_le
    {h : Heap ν} {p q : Option ℕ} {es : List ε} (hs : L.Seg h.cells p es q)
    (hnodup : (es.map L.addr).Nodup) :
  es.length ≤ h.limit
  := by
  have hsub : es.map L.addr ⊆ List.range h.limit := by
    intro a ha
    obtain ⟨e, he, rfl⟩ := List.mem_map.mp ha
    apply List.mem_range.mpr
    apply hs.lt_limit he
  have hle := (List.subperm_of_subset hnodup hsub).length_le
  simpa using hle

/-- The walk along a list ends at its last entry. -/
theorem Seg.toLast
    {h : Heap ν} (next : ν → Option ℕ) (hnext : ∀ e q p, next (L.cell e q p) = q)
    {p : Option ℕ} {es : List ε} {l : ε} (hs : L.Seg h.cells p (es ++ [l]) none)
    (fuel : ℕ) (hfuel : es.length < fuel) :
  h.toLast next fuel (L.head (es ++ [l]) none) = .ok (L.addr l)
  := by
  induction es generalizing p fuel with
  | nil =>
      obtain ⟨fuel, rfl⟩ := Nat.exists_eq_add_of_lt hfuel
      obtain ⟨hl, -⟩ := hs
      simp [Heap.toLast, hl, hnext]
  | cons e es ih =>
      obtain ⟨fuel, rfl⟩ := Nat.exists_eq_add_of_lt hfuel
      obtain ⟨he, hes⟩ := hs
      have hrest := ih hes (es.length + 1 + fuel) (by omega)
      obtain ⟨b, hb⟩ : ∃ b, L.head (es ++ [l]) none = some b := by
        cases es with
        | nil => exact ⟨_, rfl⟩
        | cons x xs => exact ⟨_, rfl⟩
      rw [hb] at hrest
      have hstep : L.head (es.append [l]) none = some b := hb
      simp only [List.cons_append, head_cons, List.length_cons, Heap.toLast, he, hnext, hstep]
      apply hrest

/-- The search along a list ends at the first entry that passes the test. -/
theorem Seg.search
    {h : Heap ν} (next : ν → Option ℕ) (hnext : ∀ e q p, next (L.cell e q p) = q)
    (test : ν → Bool) (pass : ε → Bool) (htest : ∀ e q p, test (L.cell e q p) = pass e)
    {p : Option ℕ} {es : List ε} (hs : L.Seg h.cells p es none)
    (fuel : ℕ) (hfuel : es.length < fuel) :
  h.search next test fuel (L.head es none) = .ok ((es.find? pass).map L.addr)
  := by
  induction es generalizing p fuel with
  | nil =>
      obtain ⟨fuel, rfl⟩ := Nat.exists_eq_add_of_lt hfuel
      rfl
  | cons e es ih =>
      obtain ⟨fuel, rfl⟩ := Nat.exists_eq_add_of_lt hfuel
      obtain ⟨he, hes⟩ := hs
      simp only [head_cons, Heap.search, he, htest, hnext, List.find?_cons]
      cases pass e with
      | true => rfl
      | false => apply ih hes _ (by simp only [List.length_cons]; omega)

/-- The search ahead along a list whose later entries all fail the test finds nothing. -/
theorem Seg.searchAhead_none
    {h : Heap ν} (next : ν → Option ℕ) (hnext : ∀ e q p, next (L.cell e q p) = q)
    (test : ν → Bool) (pass : ε → Bool) (htest : ∀ e q p, test (L.cell e q p) = pass e)
    {p : Option ℕ} {e : ε} {es : List ε} (hs : L.Seg h.cells p (e :: es) none)
    (hes : ∀ x ∈ es, pass x = false) (fuel : ℕ) (hfuel : es.length < fuel) :
  h.searchAhead next test fuel (some (L.addr e)) = .ok none
  := by
  induction es generalizing p e fuel with
  | nil =>
      obtain ⟨fuel, rfl⟩ := Nat.exists_eq_add_of_lt hfuel
      obtain ⟨he, -⟩ := hs
      simp [Heap.searchAhead, he, hnext]
  | cons x xs ih =>
      obtain ⟨fuel, rfl⟩ := Nat.exists_eq_add_of_lt hfuel
      obtain ⟨he, hrest⟩ := hs
      have hx := hrest.1
      simp only [Heap.searchAhead, he, hnext, head_cons, hx, htest, hes x List.mem_cons_self,
        Bool.false_eq_true, if_false]
      apply ih hrest (fun y hy => hes y (List.mem_cons_of_mem _ hy))
      simp only [List.length_cons]
      omega

/-- The search ahead along a list ends before the first later entry that passes the test. -/
theorem Seg.searchAhead_some
    {h : Heap ν} (next : ν → Option ℕ) (hnext : ∀ e q p, next (L.cell e q p) = q)
    (test : ν → Bool) (pass : ε → Bool) (htest : ∀ e q p, test (L.cell e q p) = pass e)
    {p : Option ℕ} {xs ys : List ε} {l n : ε} (hs : L.Seg h.cells p (xs ++ l :: n :: ys) none)
    (hxs : ∀ x ∈ (xs ++ [l]).tail, pass x = false) (hn : pass n = true) (fuel : ℕ)
    (hfuel : xs.length < fuel) :
  h.searchAhead next test fuel (L.head (xs ++ l :: n :: ys) none) = .ok (some (L.addr l))
  := by
  induction xs generalizing p fuel with
  | nil =>
      obtain ⟨fuel, rfl⟩ := Nat.exists_eq_add_of_lt hfuel
      obtain ⟨hl, hcell, -⟩ := hs
      simp only [List.nil_append, head_cons, Heap.searchAhead, hl, hnext, hcell, htest, hn,
        if_true]
  | cons x xs ih =>
      obtain ⟨fuel, rfl⟩ := Nat.exists_eq_add_of_lt hfuel
      obtain ⟨hx, hrest⟩ := hs
      obtain ⟨y, zs, hyzs⟩ : ∃ y zs, xs ++ l :: n :: ys = y :: zs := by
        cases xs with
        | nil => exact ⟨l, n :: ys, rfl⟩
        | cons y zs => exact ⟨y, zs ++ l :: n :: ys, rfl⟩
      have hstop := ih hrest (fun z hz => hxs z (List.mem_of_mem_tail hz))
        (xs.length + 1 + fuel) (by omega)
      have hfail : pass y = false := by
        apply hxs
        cases xs with
        | nil =>
            obtain ⟨rfl, -⟩ := List.cons.inj hyzs
            simp
        | cons z zs =>
            obtain ⟨rfl, -⟩ := List.cons.inj hyzs
            simp
      have happend : xs.append (l :: n :: ys) = y :: zs := hyzs
      rw [hyzs] at hstop
      rw [happend] at hx hrest
      have hy := hrest.1
      simp only [List.cons_append, head_cons, List.length_cons, Heap.searchAhead, hx, hnext, hy,
        htest, hfail, Bool.false_eq_true, if_false]
      apply hstop

/-- The walk along a list goes through its entries. -/
theorem Seg.walk
    {h : Heap ν} (next : ν → Option ℕ) (hnext : ∀ e q p, next (L.cell e q p) = q)
    {p : Option ℕ} {es : List ε} (hs : L.Seg h.cells p es none)
    (fuel : ℕ) (hfuel : es.length < fuel) :
  h.walk next fuel (L.head es none) = .ok (es.map L.addr)
  := by
  induction es generalizing p fuel with
  | nil =>
      obtain ⟨fuel, rfl⟩ := Nat.exists_eq_add_of_lt hfuel
      rfl
  | cons e es ih =>
      obtain ⟨fuel, rfl⟩ := Nat.exists_eq_add_of_lt hfuel
      obtain ⟨he, hes⟩ := hs
      have hrest := ih hes (es.length + 1 + fuel) (by omega)
      simp only [head_cons, List.length_cons, Heap.walk, he, hnext]
      rw [hrest]
      rfl

end Layout
