import CcController.Error
import CcController.Lib.Heap
import CcController.Lib.Run
import Mathlib.Data.List.Nodup

/-!
# The singly linked list

A `SingleLink` is a list of elements that each carry a datum and link to the next one, with
a variable `head` for the first of them. Insertions in front of an element and deletions
look one element ahead, so they never see the first one as a successor.

Deletion compares the datum of the first element by itself. Insertion does not: it misses a
sibling that is the first element, and both follow the head variable of the empty list. The
operations act on the list of the data as documented exactly as long as neither happens
(`single_link_conforms_iff`).
-/

namespace CcController

variable {δ : Type}

structure ListElement (δ : Type) where
  next : Option ℕ
  data : δ

/-- The head variable of a list, together with the memory its elements lie in. -/
structure SingleLink (δ : Type) where
  elements : Heap (ListElement δ)
  head : Option ℕ

namespace SingleLink

def createList (list : SingleLink δ) : ℤ × SingleLink δ :=
  (ccENone, { list with head := none })

/-- `malloc` is what the allocation of the new element comes to; its result is used
unchecked, here and below. -/
def insertInFront (list : SingleLink δ) (data : δ) (malloc : Bool) :
    Except Fault (ℤ × SingleLink δ) :=
  if malloc then
    let newHead := list.elements.limit
    .ok (ccENone, ⟨list.elements.alloc ⟨list.head, data⟩, some newHead⟩)
  else
    .error .null

def insertBefore [DecidableEq δ] (list : SingleLink δ) (sibling data : δ) (malloc : Bool) :
    Except Fault (ℤ × SingleLink δ) := do
  let found ← list.elements.searchAhead ListElement.next (fun e => e.data == sibling)
    (list.elements.limit + 1) list.head
  match found with
  | none => .ok (ccEErr, list)
  | some a =>
    if malloc then
      let newElement := list.elements.limit
      let e ← list.elements.read (some a)
      let elements := list.elements.alloc ⟨e.next, data⟩
      let e ← elements.read (some a)
      let elements ← elements.write (some a) { e with next := some newElement }
      .ok (ccENone, { list with elements := elements })
    else
      .error .null

def appendToTail (list : SingleLink δ) (data : δ) (malloc : Bool) :
    Except Fault (ℤ × SingleLink δ) :=
  if malloc then
    let newTail := list.elements.limit
    let elements := list.elements.alloc ⟨none, data⟩
    match list.head with
    | none => .ok (ccENone, ⟨elements, some newTail⟩)
    | some head => do
      let a ← elements.toLast ListElement.next (elements.limit + 1) (some head)
      let e ← elements.read (some a)
      let elements ← elements.write (some a) { e with next := some newTail }
      .ok (ccENone, ⟨elements, some head⟩)
  else
    .error .null

def deleteElement [DecidableEq δ] (list : SingleLink δ) (data : δ) :
    Except Fault (ℤ × SingleLink δ) := do
  let e ← list.elements.read list.head
  if e.data = data then
    let elements ← list.elements.free list.head
    .ok (ccENone, ⟨elements, e.next⟩)
  else
    let found ← list.elements.searchAhead ListElement.next (fun e => e.data == data)
      (list.elements.limit + 1) list.head
    match found with
    | none => .ok (ccEErr, list)
    | some a =>
      let e ← list.elements.read (some a)
      let deleteMe ← list.elements.read e.next
      let elements ← list.elements.write (some a) { e with next := deleteMe.next }
      let elements ← elements.free e.next
      .ok (ccENone, { list with elements := elements })

/-! ### What a list holds -/

/-- Elements as entries of a linked list: their address and their datum. -/
def layout : Layout (ℕ × δ) (ListElement δ) where
  addr := Prod.fst
  cell e next _ := ⟨next, e.2⟩

/-- The elements `es` are linked from the head variable on. -/
structure Lies (list : SingleLink δ) (es : List (ℕ × δ)) : Prop where
  head : list.head = layout.head es none
  seg : layout.Seg list.elements.cells none es none
  nodup : (es.map Prod.fst).Nodup

/-- The list holds the data `xs`. -/
def Holds (list : SingleLink δ) (xs : List δ) : Prop :=
  ∃ es, list.Lies es ∧ es.map Prod.snd = xs

variable {list : SingleLink δ} {es xs ys : List (ℕ × δ)} {l n : ℕ × δ}

theorem holds_create :
  (createList list).2.Holds []
  := by
  use []
  constructor
  · constructor
    · rfl
    · trivial
    · apply List.nodup_nil
  · rfl

theorem Lies.lt_limit (h : list.Lies es) {e : ℕ × δ} (he : e ∈ es) :
  e.1 < list.elements.limit
  := h.seg.lt_limit he

theorem Lies.length_le (h : list.Lies es) :
  es.length ≤ list.elements.limit
  := h.seg.length_le h.nodup

theorem Lies.cell (h : list.Lies (xs ++ l :: ys)) :
  list.elements.cells l.1 = some ⟨layout.head ys none, l.2⟩
  := by
  have hseg := h.seg
  rw [Layout.seg_append] at hseg
  apply hseg.2.1

/-- The other elements lie elsewhere. -/
theorem Lies.ne (h : list.Lies (xs ++ l :: ys)) {x : ℕ × δ} (hx : x ∈ xs ++ ys) :
  x.1 ≠ l.1
  := by
  have hnodup := h.nodup
  rw [List.map_append, List.map_cons, List.nodup_middle, List.nodup_cons, ← List.map_append]
    at hnodup
  intro heq
  apply hnodup.1
  rw [← heq]
  apply List.mem_map_of_mem hx

/-- A list lies in its memory in one way only. -/
theorem Lies.unique {es' : List (ℕ × δ)} (h : list.Lies es) (h' : list.Lies es') :
  es = es'
  := by
  apply h.seg.unique _ h'.seg
  · exact h.head.symm.trans h'.head
  · intro e e' q q' p p' haddr hcell
    obtain ⟨hnext, hdata⟩ := ListElement.mk.inj hcell
    exact ⟨Prod.ext haddr hdata, hnext⟩

theorem Holds.unique {data data' : List δ} (h : list.Holds data) (h' : list.Holds data') :
  data = data'
  := by
  obtain ⟨es, hlies, rfl⟩ := h
  obtain ⟨es', hlies', rfl⟩ := h'
  rw [hlies.unique hlies']

/-! ### Linking and unlinking -/

/-- Allocating an element and linking to it from the element `l`. -/
theorem Lies.link (h : list.Lies (xs ++ l :: ys)) (data : δ) :
  let elements := list.elements.alloc ⟨layout.head ys none, data⟩
  elements.cells l.1 = some ⟨layout.head ys none, l.2⟩ ∧
    SingleLink.Lies ⟨elements.set l.1 ⟨some list.elements.limit, l.2⟩, list.head⟩
      (xs ++ l :: (list.elements.limit, data) :: ys)
  := by
  intro elements
  have hlimit : ∀ e ∈ xs ++ l :: ys, e.1 ≠ list.elements.limit := by
    intro e he
    apply Nat.ne_of_lt (h.lt_limit he)
  have hl : elements.cells l.1 = some ⟨layout.head ys none, l.2⟩ :=
    (Heap.alloc_cells_of_ne _ (hlimit l (by simp))).trans h.cell
  use hl
  have hother : ∀ e ∈ xs ++ ys,
      (elements.set l.1 ⟨some list.elements.limit, l.2⟩).cells e.1
        = list.elements.cells e.1 := by
    intro e he
    rw [Heap.set_cells_of_ne _ (h.ne he)]
    apply Heap.alloc_cells_of_ne _ (hlimit e _)
    simp only [List.mem_append, List.mem_cons] at he ⊢
    tauto
  constructor
  · rw [h.head, Layout.head_append, Layout.head_append]
    rfl
  · have hseg := (Layout.seg_append _ _ _ _).mp h.seg
    apply h.seg.link
    · intro x hx
      apply hother x (List.mem_append_left _ hx)
    · apply Heap.set_cells_self _ hl
    · apply Eq.trans (Heap.set_cells_of_ne _ (hlimit l (by simp)).symm)
      apply Heap.alloc_cells_limit
    · apply (hseg.2.2.after (fun _ _ _ => rfl)).congr
      intro y hy
      apply hother y (List.mem_append_right _ hy)
  · have hnodup : ((list.elements.limit, data).1 :: (xs ++ l :: ys).map Prod.fst).Nodup := by
      rw [List.nodup_cons]
      use fun hmem => ?_, h.nodup
      obtain ⟨e, he, heq⟩ := List.mem_map.mp hmem
      exact hlimit e he heq
    have happend : xs ++ l :: (list.elements.limit, data) :: ys
        = (xs ++ [l]) ++ (list.elements.limit, data) :: ys := by simp
    rw [happend, List.map_append, List.map_cons, List.nodup_middle, ← List.map_append]
    simpa using hnodup

/-- Linking past the element `n` behind `l` and releasing it. -/
theorem Lies.unlink (h : list.Lies (xs ++ l :: n :: ys)) :
  let elements := list.elements.set l.1 ⟨layout.head ys none, l.2⟩
  (∃ v, elements.cells n.1 = some v) ∧
    SingleLink.Lies ⟨elements.erase n.1, list.head⟩ (xs ++ l :: ys)
  := by
  intro elements
  have happend : xs ++ l :: n :: ys = (xs ++ [l]) ++ n :: ys := by simp
  have h' := h
  rw [happend] at h'
  have hne : n.1 ≠ l.1 := h.ne (by simp)
  have hcell : elements.cells n.1 = some ⟨layout.head ys none, n.2⟩ :=
    (Heap.set_cells_of_ne _ hne).trans h'.cell
  use ⟨_, hcell⟩
  have hother : ∀ e ∈ xs ++ ys, (elements.erase n.1).cells e.1 = list.elements.cells e.1 := by
    intro e he
    simp only [List.mem_append] at he
    rw [Heap.erase_cells_of_ne (h'.ne (by simp; tauto)),
      Heap.set_cells_of_ne _ (h.ne (by simp; tauto))]
  constructor
  · rw [h.head, Layout.head_append, Layout.head_append]
    rfl
  · have hseg := (Layout.seg_append _ _ _ _).mp h.seg
    apply h.seg.unlink
    · intro x hx
      apply hother x (List.mem_append_left _ hx)
    · apply Eq.trans (Heap.erase_cells_of_ne hne.symm)
      apply Heap.set_cells_self _ h.cell
    · apply (hseg.2.2.2.after (fun _ _ _ => rfl)).congr
      intro y hy
      apply hother y (List.mem_append_right _ hy)
  · have hnodup := h'.nodup
    rw [List.map_append, List.map_cons, List.nodup_middle, ← List.map_append] at hnodup
    simpa using (List.nodup_cons.mp hnodup).2

/-! ### What the operations do -/

theorem Lies.insertInFront (h : list.Lies es) (data : δ) :
  ∃ list', list.insertInFront data true = .ok (ccENone, list') ∧
    list'.Lies ((list.elements.limit, data) :: es)
  := by
  have hlimit : ∀ e ∈ es, e.1 ≠ list.elements.limit := by
    intro e he
    apply Nat.ne_of_lt (h.lt_limit he)
  refine ⟨_, rfl, rfl, ?_, ?_⟩
  · constructor
    · rw [h.head]
      apply Heap.alloc_cells_limit
    · apply (h.seg.after (fun _ _ _ => rfl)).congr
      intro e he
      apply Heap.alloc_cells_of_ne _ (hlimit e he)
  · rw [List.map_cons, List.nodup_cons]
    use fun hmem => ?_, h.nodup
    obtain ⟨e, he, heq⟩ := List.mem_map.mp hmem
    exact hlimit e he heq

theorem Lies.appendToTail (h : list.Lies es) (data : δ) :
  ∃ list', list.appendToTail data true = .ok (ccENone, list') ∧
    list'.Lies (es ++ [(list.elements.limit, data)])
  := by
  rcases List.eq_nil_or_concat' es with rfl | ⟨init, l, rfl⟩
  · obtain ⟨list', hok, hlies⟩ := h.insertInFront data
    use list'
    have hhead : list.head = none := h.head
    constructor
    · rw [← hok]
      simp only [SingleLink.appendToTail, SingleLink.insertInFront, hhead, if_true]
    · apply hlies
  · obtain ⟨hl, hlies⟩ := h.link data
    refine ⟨_, ?_, by simpa using hlies⟩
    have hlast := hlies.seg
    have hle := h.length_le
    have hwalk : (list.elements.alloc ⟨none, data⟩).toLast ListElement.next
        (list.elements.limit + 2) (layout.head (init ++ [l]) none) = .ok l.1 := by
      apply Layout.Seg.toLast (L := layout) ListElement.next (fun _ _ _ => rfl)
      · apply h.seg.congr
        intro e he
        apply Heap.alloc_cells_of_ne _ (Nat.ne_of_lt (h.lt_limit he))
      · simp only [List.length_append, List.length_singleton] at hle
        omega
    obtain ⟨a, ha⟩ : ∃ a, layout.head (init ++ [l]) none = some a := by
      cases init with
      | nil => exact ⟨_, rfl⟩
      | cons x xs => exact ⟨_, rfl⟩
    rw [ha] at hwalk
    simp only [Layout.head_nil] at hl
    simp only [SingleLink.appendToTail, if_true, h.head, ha, Heap.alloc_limit, hwalk, ok_bind,
      Heap.read_some hl, Heap.write_some _ hl]

section

variable [DecidableEq δ]

/-- Looking ahead for a datum that only the first element may carry. -/
theorem Lies.searchAhead_none {e : ℕ × δ} (h : list.Lies (e :: es)) {datum : δ}
    (hes : datum ∉ es.map Prod.snd) :
  list.elements.searchAhead ListElement.next (fun e => e.data == datum)
    (list.elements.limit + 1) list.head = .ok none
  := by
  have hle := h.length_le
  rw [h.head]
  apply h.seg.searchAhead_none ListElement.next (fun _ _ _ => rfl) _ (fun x => x.2 == datum)
    (fun _ _ _ => rfl)
  · intro x hx
    rw [beq_eq_false_iff_ne]
    rintro rfl
    apply hes (List.mem_map_of_mem hx)
  · simp only [List.length_cons] at hle
    omega

/-- Looking ahead finds the element before the first later one with the datum. -/
theorem Lies.searchAhead_some (h : list.Lies (xs ++ l :: n :: ys))
    (hxs : n.2 ∉ (xs ++ [l]).tail.map Prod.snd) :
  list.elements.searchAhead ListElement.next (fun e => e.data == n.2)
    (list.elements.limit + 1) list.head = .ok (some l.1)
  := by
  have hle := h.length_le
  rw [h.head]
  apply h.seg.searchAhead_some ListElement.next (fun _ _ _ => rfl) _ (fun x => x.2 == n.2)
    (fun _ _ _ => rfl)
  · intro x hx
    rw [beq_eq_false_iff_ne]
    intro heq
    apply hxs
    rw [← heq]
    apply List.mem_map_of_mem hx
  · apply beq_self_eq_true
  · simp only [List.length_append, List.length_cons] at hle
    omega

theorem Lies.insertBefore_none {e : ℕ × δ} (h : list.Lies (e :: es)) {sibling data : δ}
    {malloc : Bool} (hes : sibling ∉ es.map Prod.snd) :
  list.insertBefore sibling data malloc = .ok (ccEErr, list)
  := by
  simp only [insertBefore, h.searchAhead_none hes, ok_bind]

theorem Lies.insertBefore_some (h : list.Lies (xs ++ l :: n :: ys))
    (hxs : n.2 ∉ (xs ++ [l]).tail.map Prod.snd) (data : δ) :
  ∃ list', list.insertBefore n.2 data true = .ok (ccENone, list') ∧
    list'.Lies (xs ++ l :: (list.elements.limit, data) :: n :: ys)
  := by
  obtain ⟨hl, hlies⟩ := h.link data
  refine ⟨_, ?_, hlies⟩
  simp only [insertBefore, h.searchAhead_some hxs, ok_bind, if_true, Heap.read_some h.cell,
    Heap.read_some hl, Heap.write_some _ hl]

theorem Lies.deleteElement_head {e : ℕ × δ} (h : list.Lies (e :: es)) :
  ∃ list', list.deleteElement e.2 = .ok (ccENone, list') ∧ list'.Lies es
  := by
  have hcell : list.elements.cells e.1 = some ⟨layout.head es none, e.2⟩ :=
    h.seg.1
  have hhead : list.head = some e.1 := h.head
  refine ⟨⟨list.elements.erase e.1, layout.head es none⟩, ?_, rfl, ?_, ?_⟩
  · simp only [deleteElement, hhead, Heap.read_some hcell, Heap.free_some hcell, ok_bind, if_true]
  · apply (h.seg.2.after (fun _ _ _ => rfl)).congr
    intro x hx
    apply Heap.erase_cells_of_ne
    exact (show list.Lies ([] ++ e :: es) from h).ne hx
  · apply (List.nodup_cons.mp h.nodup).2

theorem Lies.deleteElement_none {e : ℕ × δ} (h : list.Lies (e :: es)) {data : δ}
    (hes : data ∉ (e :: es).map Prod.snd) :
  list.deleteElement data = .ok (ccEErr, list)
  := by
  have hcell : list.elements.cells e.1 = some ⟨layout.head es none, e.2⟩ :=
    h.seg.1
  have hhead : list.head = some e.1 := h.head
  simp only [List.map_cons, List.mem_cons, not_or] at hes
  have hsearch := h.searchAhead_none hes.2
  rw [hhead] at hsearch
  simp only [deleteElement, hhead, Heap.read_some hcell, hsearch, ok_bind, Ne.symm hes.1, if_false]

theorem Lies.deleteElement_some (h : list.Lies (xs ++ l :: n :: ys))
    (hxs : n.2 ∉ (xs ++ [l]).map Prod.snd) :
  ∃ list', list.deleteElement n.2 = .ok (ccENone, list') ∧ list'.Lies (xs ++ l :: ys)
  := by
  obtain ⟨⟨v, hv⟩, hlies⟩ := h.unlink
  refine ⟨_, ?_, hlies⟩
  have hsearch := h.searchAhead_some (fun hmem => hxs (by
    obtain ⟨x, hx, heq⟩ := List.mem_map.mp hmem
    rw [← heq]
    apply List.mem_map_of_mem (List.mem_of_mem_tail hx)))
  have hn : list.elements.cells n.1 = some ⟨layout.head ys none, n.2⟩ := by
    have happend : xs ++ l :: n :: ys = (xs ++ [l]) ++ n :: ys := by simp
    rw [happend] at h
    apply h.cell
  obtain ⟨e, zs, hzs⟩ : ∃ e zs, xs ++ [l] = e :: zs := by
    cases xs with
    | nil => exact ⟨_, _, rfl⟩
    | cons x xs => exact ⟨_, _, rfl⟩
  have hes : xs ++ l :: n :: ys = e :: (zs ++ n :: ys) := by
    rw [← List.cons_append, ← hzs]
    simp
  have hhead : list.head = some e.1 := by
    rw [h.head, hes]
    rfl
  have he : list.elements.cells e.1 = some ⟨layout.head (zs ++ n :: ys) none, e.2⟩ := by
    rw [hes] at h
    exact h.seg.1
  have hne : e.2 ≠ n.2 := by
    intro heq
    apply hxs
    rw [hzs, ← heq]
    simp
  have hl : list.elements.cells l.1 = some ⟨some n.1, l.2⟩ := h.cell
  rw [hhead] at hsearch
  simp only [deleteElement, hhead, Heap.read_some he, ok_bind, hne, if_false, hsearch,
    Heap.read_some hl, Heap.read_some hn, Heap.write_some _ hl, Heap.free_some hv]

end

end SingleLink

/-! ### The data of a list -/

section

variable [DecidableEq δ]

/-- The list with `data` placed before the first `sibling`. -/
def placeBefore (sibling data : δ) : List δ → List δ
  | [] => []
  | x :: xs => if x = sibling then data :: x :: xs else x :: placeBefore sibling data xs

theorem placeBefore_append {sibling : δ} {xs : List δ} (h : sibling ∉ xs) (data : δ)
    (ys : List δ) :
  placeBefore sibling data (xs ++ sibling :: ys) = xs ++ data :: sibling :: ys
  := by
  induction xs with
  | nil => simp [placeBefore]
  | cons x xs ih =>
      simp only [List.mem_cons, not_or] at h
      simp only [List.cons_append, placeBefore, Ne.symm h.1, if_false, ih h.2]

/-- Placing a second sibling before the first one is putting it in front only when the first
one is in front. -/
theorem placeBefore_eq_cons {sibling : δ} {xs : List δ} (h : sibling ∈ xs) :
  placeBefore sibling sibling xs = sibling :: xs ↔ xs.head? = some sibling
  := by
  cases xs with
  | nil => cases h
  | cons x xs =>
      by_cases hx : x = sibling
      · simp [placeBefore, hx]
      · simp [placeBefore, hx]

omit [DecidableEq δ] in
/-- The first entry with a datum behind the entry `e`, with the entries `e :: ws` before it,
of which `l` is the last. -/
theorem exists_before {e : ℕ × δ} {es : List (ℕ × δ)} {datum : δ} (h : datum ∈ es.map Prod.snd) :
  ∃ ws n ys xs l, es = ws ++ n :: ys ∧ e :: ws = xs ++ [l] ∧ n.2 = datum ∧
    datum ∉ ws.map Prod.snd
  := by
  obtain ⟨as, bs, hsplit, has⟩ := List.eq_append_cons_of_mem h
  obtain ⟨ws, post, rfl, rfl, hpost⟩ := List.map_eq_append_iff.mp hsplit
  obtain ⟨n, ys, rfl, hn, rfl⟩ := List.map_eq_cons_iff.mp hpost
  rcases List.eq_nil_or_concat' (e :: ws) with hnil | ⟨xs, l, hconcat⟩
  · cases hnil
  · exact ⟨ws, n, ys, xs, l, rfl, hconcat, hn, has⟩

namespace SingleLink

variable {list : SingleLink δ} {x : δ} {xs : List δ}

omit [DecidableEq δ] in
/-- The element `l` that looking ahead for a datum behind the first element stops at. -/
theorem Lies.exists_before {e : ℕ × δ} {es : List (ℕ × δ)} (h : list.Lies (e :: es)) {datum : δ}
    (hmem : datum ∈ es.map Prod.snd) :
  ∃ ws n ys xs l, es = ws ++ n :: ys ∧ e :: ws = xs ++ [l] ∧ n.2 = datum ∧
    datum ∉ ws.map Prod.snd ∧ datum ∉ (xs ++ [l]).tail.map Prod.snd ∧
    list.Lies (xs ++ l :: n :: ys)
  := by
  obtain ⟨ws, n, ys, xs, l, rfl, hws, hn, hnot⟩ := CcController.exists_before (e := e) hmem
  rw [← List.cons_append, hws, List.append_assoc, List.singleton_append] at h
  refine ⟨ws, n, ys, xs, l, rfl, hws, hn, hnot, ?_, h⟩
  rw [← hws]
  exact hnot

theorem Holds.insertBefore_nil (h : list.Holds []) (sibling data : δ) (malloc : Bool) :
  list.insertBefore sibling data malloc = .error .null
  := by
  obtain ⟨es, hlies, hes⟩ := h
  obtain rfl : es = [] := by simpa using hes
  simp [insertBefore, hlies.head, Heap.searchAhead]

/-- Insertion takes the first element for no sibling. -/
theorem Holds.insertBefore_not_mem (h : list.Holds (x :: xs)) {sibling : δ}
    (hmem : sibling ∉ xs) (data : δ) (malloc : Bool) :
  list.insertBefore sibling data malloc = .ok (ccEErr, list)
  := by
  obtain ⟨es, hlies, hes⟩ := h
  obtain ⟨e, es, rfl, rfl, rfl⟩ := List.map_eq_cons_iff.mp hes
  apply hlies.insertBefore_none hmem

theorem Holds.insertBefore_mem (h : list.Holds (x :: xs)) {sibling : δ}
    (hmem : sibling ∈ xs) (data : δ) :
  ∃ list', list.insertBefore sibling data true = .ok (ccENone, list') ∧
    list'.Holds (x :: placeBefore sibling data xs)
  := by
  obtain ⟨es, hlies, hes⟩ := h
  obtain ⟨e, es, rfl, rfl, rfl⟩ := List.map_eq_cons_iff.mp hes
  obtain ⟨ws, n, ys, xs, l, rfl, hws, rfl, hnot, htail, hlies⟩ := hlies.exists_before hmem
  obtain ⟨list', hok, hlies'⟩ := hlies.insertBefore_some htail data
  refine ⟨list', hok, _, hlies', ?_⟩
  have happend : xs ++ l :: (list.elements.limit, data) :: n :: ys
      = e :: (ws ++ (list.elements.limit, data) :: n :: ys) := by
    rw [← List.cons_append, hws]
    simp
  rw [happend, List.map_append, List.map_cons, List.map_cons, placeBefore_append hnot]
  simp

theorem Holds.insertBefore_malloc (h : list.Holds (x :: xs)) {sibling : δ}
    (hmem : sibling ∈ xs) (data : δ) :
  list.insertBefore sibling data false = .error .null
  := by
  obtain ⟨es, hlies, hes⟩ := h
  obtain ⟨e, es, rfl, rfl, rfl⟩ := List.map_eq_cons_iff.mp hes
  obtain ⟨ws, n, ys, xs, l, rfl, hws, rfl, hnot, htail, hlies⟩ := hlies.exists_before hmem
  simp only [insertBefore, hlies.searchAhead_some htail, ok_bind, Bool.false_eq_true, if_false]

theorem Holds.deleteElement_nil (h : list.Holds []) (data : δ) :
  list.deleteElement data = .error .null
  := by
  obtain ⟨es, hlies, hes⟩ := h
  obtain rfl : es = [] := by simpa using hes
  simp [deleteElement, hlies.head]

theorem Holds.deleteElement_not_mem (h : list.Holds (x :: xs)) {data : δ}
    (hmem : data ∉ x :: xs) :
  list.deleteElement data = .ok (ccEErr, list)
  := by
  obtain ⟨es, hlies, hes⟩ := h
  obtain ⟨e, es, rfl, rfl, rfl⟩ := List.map_eq_cons_iff.mp hes
  apply hlies.deleteElement_none hmem

theorem Holds.deleteElement_mem (h : list.Holds (x :: xs)) {data : δ} (hmem : data ∈ x :: xs) :
  ∃ list', list.deleteElement data = .ok (ccENone, list') ∧
    list'.Holds ((x :: xs).erase data)
  := by
  obtain ⟨es, hlies, hes⟩ := h
  obtain ⟨e, es, rfl, rfl, rfl⟩ := List.map_eq_cons_iff.mp hes
  by_cases hdata : e.2 = data
  · subst hdata
    obtain ⟨list', hok, hlies'⟩ := hlies.deleteElement_head
    use list', hok, es, hlies'
    simp
  · have hmem' : data ∈ es.map Prod.snd := by
      rcases List.mem_cons.mp hmem with rfl | hmem'
      · exact absurd rfl hdata
      · exact hmem'
    obtain ⟨ws, n, ys, xs, l, rfl, hws, rfl, hnot, -, hlies⟩ := hlies.exists_before hmem'
    have hbefore : n.2 ∉ (xs ++ [l]).map Prod.snd := by
      rw [← hws, List.map_cons, List.mem_cons, not_or]
      exact ⟨Ne.symm hdata, hnot⟩
    obtain ⟨list', hok, hlies'⟩ := hlies.deleteElement_some hbefore
    refine ⟨list', hok, _, hlies', ?_⟩
    have happend : xs ++ l :: ys = e :: (ws ++ ys) := by
      rw [← List.cons_append, hws]
      simp
    rw [happend, List.map_append, List.map_cons, List.erase_cons_tail (by simpa using hdata),
      List.erase_append_right _ hnot, List.map_cons, List.erase_cons_head]
    simp

end SingleLink

end

/-! ### Runs -/

/-- The calls that change a list. -/
inductive LinkCall (δ : Type) where
  | insertInFront (data : δ) (malloc : Bool)
  | insertBefore (sibling data : δ) (malloc : Bool)
  | appendToTail (data : δ) (malloc : Bool)
  | deleteElement (data : δ)

section

variable [DecidableEq δ]

def linkStep (list : SingleLink δ) : LinkCall δ → Except Fault (ℤ × SingleLink δ)
  | .insertInFront data malloc => list.insertInFront data malloc
  | .insertBefore sibling data malloc => list.insertBefore sibling data malloc
  | .appendToTail data malloc => list.appendToTail data malloc
  | .deleteElement data => list.deleteElement data

/-- What the calls are documented to do to the list of the data. -/
def dataStep (xs : List δ) : LinkCall δ → ℤ × List δ
  | .insertInFront data _ => (ccENone, data :: xs)
  | .insertBefore sibling data _ =>
    if sibling ∈ xs then (ccENone, placeBefore sibling data xs) else (ccEErr, xs)
  | .appendToTail data _ => (ccENone, xs ++ [data])
  | .deleteElement data => if data ∈ xs then (ccENone, xs.erase data) else (ccEErr, xs)

/-- A call that allocates what it needs, does not look into the empty list, and does not
insert before the first element, unless the datum to be inserted and the second element are
the same as the first and it makes no difference. -/
def LooksAhead (xs : List δ) : LinkCall δ → Prop
  | .insertInFront _ malloc => malloc = true
  | .insertBefore sibling data malloc =>
    xs ≠ [] ∧ (sibling ∈ xs → malloc = true ∧
      (xs.head? = some sibling → data = sibling ∧ xs.tail.head? = some sibling))
  | .appendToTail _ malloc => malloc = true
  | .deleteElement _ => xs ≠ []

theorem linkStep_good {list : SingleLink δ} {xs : List δ} (hlist : list.Holds xs)
    (c : LinkCall δ) (hc : LooksAhead xs c) :
  ∃ list', linkStep list c = .ok ((dataStep xs c).1, list') ∧ list'.Holds (dataStep xs c).2
  := by
  cases c with
  | insertInFront data malloc =>
      obtain rfl := hc
      obtain ⟨es, hlies, rfl⟩ := hlist
      obtain ⟨list', hok, hlies'⟩ := hlies.insertInFront data
      exact ⟨list', hok, _, hlies', rfl⟩
  | appendToTail data malloc =>
      obtain rfl := hc
      obtain ⟨es, hlies, rfl⟩ := hlist
      obtain ⟨list', hok, hlies'⟩ := hlies.appendToTail data
      refine ⟨list', hok, _, hlies', ?_⟩
      apply List.map_append
  | deleteElement data =>
      cases xs with
      | nil => exact absurd rfl hc
      | cons x xs =>
          by_cases hmem : data ∈ x :: xs
          · simp only [dataStep, hmem, if_true]
            apply hlist.deleteElement_mem hmem
          · simp only [dataStep, hmem, if_false]
            use list, hlist.deleteElement_not_mem hmem
  | insertBefore sibling data malloc =>
      obtain ⟨hne, hfront⟩ := hc
      cases xs with
      | nil => exact absurd rfl hne
      | cons x xs =>
          by_cases hmem : sibling ∈ x :: xs
          · obtain ⟨rfl, hhead⟩ := hfront hmem
            simp only [dataStep, hmem, if_true]
            by_cases hx : x = sibling
            · subst hx
              obtain ⟨rfl, hsecond⟩ := hhead rfl
              have hxs : data ∈ xs := List.mem_of_head? hsecond
              have hplace : placeBefore data data (data :: xs)
                  = data :: placeBefore data data xs := by
                rw [(placeBefore_eq_cons hxs).mpr hsecond]
                simp [placeBefore]
              rw [hplace]
              apply hlist.insertBefore_mem hxs
            · have hxs : sibling ∈ xs := by
                rcases List.mem_cons.mp hmem with rfl | hxs
                · exact absurd rfl hx
                · exact hxs
              simp only [placeBefore, hx, if_false]
              apply hlist.insertBefore_mem hxs
          · simp only [dataStep, hmem, if_false]
            use list, hlist.insertBefore_not_mem (fun hxs => hmem (List.mem_cons_of_mem x hxs)) _ _

theorem linkStep_bad {list list' : SingleLink δ} {xs : List δ} (hlist : list.Holds xs)
    (c : LinkCall δ) (hc : ¬ LooksAhead xs c)
    (hok : linkStep list c = .ok ((dataStep xs c).1, list')) :
  ¬ list'.Holds (dataStep xs c).2
  := by
  intro hlist'
  apply hc
  cases c with
  | insertInFront data malloc =>
      cases malloc with
      | false => cases hok
      | true => rfl
  | appendToTail data malloc =>
      cases malloc with
      | false => cases hok
      | true => rfl
  | deleteElement data =>
      rintro rfl
      simp only [linkStep, hlist.deleteElement_nil] at hok
      cases hok
  | insertBefore sibling data malloc =>
      cases xs with
      | nil =>
          simp only [linkStep, hlist.insertBefore_nil] at hok
          cases hok
      | cons x xs =>
          refine ⟨List.cons_ne_nil _ _, fun hmem => ?_⟩
          simp only [linkStep, dataStep, hmem, if_true] at hok hlist'
          have hxs : sibling ∈ xs := by
            by_contra hxs
            rw [hlist.insertBefore_not_mem hxs] at hok
            cases hok
          cases malloc with
          | false =>
              rw [hlist.insertBefore_malloc hxs] at hok
              cases hok
          | true =>
              use rfl
              intro hhead
              obtain rfl : x = sibling := by simpa using hhead
              obtain ⟨list₁, hok₁, hlist₁⟩ := hlist.insertBefore_mem hxs data
              rw [hok] at hok₁
              cases hok₁
              have heq := hlist'.unique hlist₁
              simp only [placeBefore, if_true] at heq
              obtain ⟨rfl, hplace⟩ := List.cons.inj heq
              exact ⟨rfl, (placeBefore_eq_cons hxs).mp hplace.symm⟩

/-- A run of calls on a new list returns from every call and acts on the list of the data as
documented exactly when no call looks into the empty list or inserts before the first
element. -/
theorem single_link_conforms_iff (list : SingleLink δ) (calls : List (LinkCall δ)) :
  Machine.Conforms linkStep dataStep SingleLink.Holds list.createList.2 [] calls ↔
    Machine.Meets dataStep LooksAhead [] calls
  := by
  apply Machine.run_conforms_iff (R := SingleLink.Holds)
  · intro list xs hlist
    apply hlist
  · intro list xs c hlist hc
    apply linkStep_good hlist c hc
  · intro list xs c list' hlist hc hok
    apply linkStep_bad hlist c hc hok
  · apply SingleLink.holds_create

end

/-- Insertion before the only element does not find it. -/
theorem insertBefore_misses_head :
  ¬ Machine.Conforms linkStep dataStep SingleLink.Holds
    (SingleLink.createList ⟨Heap.empty, none⟩).2 [] [.appendToTail 7 true, .insertBefore 7 8 true]
  := by
  intro h
  obtain ⟨list, hrun, -⟩ := h _ (List.prefix_refl _)
  have hmiss : (Machine.run linkStep
      (SingleLink.createList (⟨Heap.empty, none⟩ : SingleLink ℕ)).2
      [.appendToTail 7 true, .insertBefore 7 8 true]).map Prod.fst
      = .ok [ccENone, ccEErr] := rfl
  rw [hrun] at hmiss
  cases hmiss

/-! ### Finding -/

section

variable {π υ : Type}

/-- The data are pointers, which may be null. A null `list.head` is only reported. -/
def SingleLink.findListCustom (list : SingleLink (Option π)) (function : Option π → υ → UInt32)
    (userData : υ) : Except Fault (Option π) := do
  let found ← list.elements.search ListElement.next (fun e => function e.data userData != 0)
    (list.elements.limit + 1) list.head
  match found with
  | none => .ok none
  | some a => do
    let e ← list.elements.read (some a)
    .ok e.data

/-- The functions that are given to `findListCustom`: they return `CC_E_NONE` when the
element is the desired one and `CC_E_ERR` otherwise. -/
structure MatchFunction (π υ : Type) where
  function : Option π → υ → UInt32
  convention : ∀ data userData,
    function data userData = .ofInt ccENone ∨ function data userData = .ofInt ccEErr

/-- The element with this data pointer is the desired one. -/
abbrev MatchFunction.Desires (compare : MatchFunction π υ) (userData : υ) (data : Option π) :
    Prop :=
  compare.function data userData = .ofInt ccENone

/-- `memory` has the value that a pointer leads to. -/
def compareUint32 (memory : Option π → UInt32) : MatchFunction π (Option π) where
  function x y := if memory x = memory y then .ofInt ccENone else .ofInt ccEErr
  convention x y := by
    split
    · left
      rfl
    · right
      rfl

/-- `memory` has the six bytes that a pointer leads to. -/
def compareMac (memory : Option π → Vector UInt8 6) : MatchFunction π (Option π) where
  function x y := if memory x = memory y then .ofInt ccENone else .ofInt ccEErr
  convention x y := by
    split
    · left
      rfl
    · right
      rfl

/-- The data pointer of the first desired element was found, null when no element is
desired and only then. -/
def FindsFirst (desired : Option π → Prop) [DecidablePred desired] (xs : List (Option π))
    (found : Option π) : Prop :=
  (∀ x, xs.find? desired = some x → found = x) ∧ (found = none ↔ xs.find? desired = none)

theorem MatchFunction.function_ne_zero (compare : MatchFunction π υ) (userData : υ)
    (data : Option π) :
  compare.function data userData ≠ 0 ↔ ¬ compare.Desires userData data
  := by
  rfl

/-- What is found is the first element that is not desired. -/
theorem SingleLink.Holds.findListCustom {list : SingleLink (Option π)} {xs : List (Option π)}
    (h : list.Holds xs) (compare : MatchFunction π υ) (userData : υ) :
  list.findListCustom compare.function userData
    = .ok (xs.find? (fun x => ¬ compare.Desires userData x)).join
  := by
  obtain ⟨es, hlies, rfl⟩ := h
  have hle := hlies.length_le
  have hsearch := hlies.seg.search ListElement.next (fun _ _ _ => rfl)
    (fun e => compare.function e.data userData != 0)
    (fun e => compare.function e.2 userData != 0) (fun _ _ _ => rfl)
    (list.elements.limit + 1) (by omega)
  rw [← hlies.head] at hsearch
  have hpass : (fun x => decide (¬ compare.Desires userData x)) ∘ Prod.snd
      = fun e : ℕ × Option π => compare.function e.2 userData != 0 := by
    funext e
    rw [Function.comp_apply, Bool.eq_iff_iff, decide_eq_true_iff, bne_iff_ne,
      compare.function_ne_zero]
  simp only [SingleLink.findListCustom, hsearch, ok_bind, List.find?_map, hpass]
  cases hfind : es.find? (fun e => compare.function e.2 userData != 0) with
  | none => rfl
  | some e =>
      obtain ⟨xs, ys, rfl, -⟩ := List.find?_eq_some_iff_append.mp hfind |>.2
      simp only [Option.map_some, layout, Heap.read_some hlies.cell, ok_bind, Option.join_some]

/-- The first desired element is found exactly when there is none and nothing else is taken
for it: the list is empty or its first data pointer is null. -/
theorem find_list_custom_iff {list : SingleLink (Option π)} {xs : List (Option π)}
    (h : list.Holds xs) (compare : MatchFunction π υ) (userData : υ) :
  (∃ found, list.findListCustom compare.function userData = .ok found ∧
    FindsFirst (compare.Desires userData) xs found) ↔
    (∀ x ∈ xs, ¬ compare.Desires userData x) ∧ xs.head?.join = none
  := by
  rw [h.findListCustom]
  constructor
  · rintro ⟨found, hok, hfirst, hnull⟩
    obtain rfl := Except.ok.inj hok
    have hnone : xs.find? (compare.Desires userData) = none := by
      cases hfind : xs.find? (compare.Desires userData) with
      | none => rfl
      | some x =>
          have hx : compare.Desires userData x := by simpa using List.find?_some hfind
          have hfound := hfirst x hfind
          cases hfind' : xs.find? (fun x => ¬ compare.Desires userData x) with
          | none =>
              rw [hfind', Option.join_none] at hnull
              rw [← hfind, hnull.mp rfl]
          | some y =>
              have hy : ¬ compare.Desires userData y := by simpa using List.find?_some hfind'
              rw [hfind', Option.join_some] at hfound
              rw [hfound] at hy
              exact absurd hx hy
    have hall : ∀ x ∈ xs, ¬ compare.Desires userData x := by
      simpa using hnone
    use hall
    have hjoin := hnull.mpr hnone
    cases xs with
    | nil => rfl
    | cons x xs => simpa [hall x List.mem_cons_self] using hjoin
  · rintro ⟨hall, hhead⟩
    have hnone : xs.find? (compare.Desires userData) = none := by
      simpa using hall
    refine ⟨_, rfl, ?_, ?_⟩
    · intro x hx
      rw [hnone] at hx
      cases hx
    · rw [hnone]
      cases xs with
      | nil => simp
      | cons x xs => simpa [hall x List.mem_cons_self] using hhead

end

/-- A list of a single element, whose data pointer is `data`. -/
def SingleLink.single (data : δ) : SingleLink δ :=
  ⟨Heap.empty.alloc ⟨none, data⟩, some 0⟩

theorem SingleLink.holds_single (data : δ) :
  (single data).Holds [data]
  := by
  use [(0, data)]
  constructor
  · constructor
    · rfl
    · constructor
      · rfl
      · trivial
    · simp
  · rfl

theorem find_list_custom_single :
  (∃ found, (SingleLink.single (some 7)).findListCustom
      (compareUint32 (fun p => .ofNat (p.getD 0))).function (some 7) = .ok found ∧
    FindsFirst ((compareUint32 (fun p => .ofNat (p.getD 0))).Desires (some 7)) [some 7] found) ↔
    (∀ x ∈ [some 7], ¬ (compareUint32 (fun p => .ofNat (p.getD 0))).Desires (some 7) x) ∧
      [some 7].head?.join = none
  := find_list_custom_iff (SingleLink.holds_single _) _ _

/-- The only element is the desired one, and is not found. -/
theorem find_list_custom_misses :
  ¬ ∃ found, (SingleLink.single (some 7)).findListCustom
      (compareUint32 (fun p => .ofNat (p.getD 0))).function (some 7) = .ok found ∧
    FindsFirst ((compareUint32 (fun p => .ofNat (p.getD 0))).Desires (some 7)) [some 7] found
  := by
  rintro ⟨found, hok, hfirst, -⟩
  have hnull : (SingleLink.single (some 7)).findListCustom
      (compareUint32 (fun p => .ofNat (p.getD 0))).function (some 7) = .ok none := rfl
  rw [hnull] at hok
  obtain rfl := Except.ok.inj hok
  have hfound := hfirst (some 7) rfl
  cases hfound

end CcController
