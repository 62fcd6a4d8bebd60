import CcController.Lib.Release
import CcController.OfAction
import CcController.SingleLink

/-!
# The memory of lists

Whatever calls have changed a singly linked list, the elements that can be reached from its head
variable are all that has been allocated for it, so `delete_list` leaves nothing behind
(`single_link_lifecycle`).

A list of actions has a block of its own for each action, and its elements point to these.
`delete_actions` releases the blocks along the list, then the list (`actions_lifecycle`).
-/

namespace CcController

namespace SingleLink

variable {δ υ : Type}

/-! ### Walking along a list -/

/-- The loop of `list_length_of`. The length is an `unsigned int`. -/
def countFrom (elements : Heap (ListElement δ)) : ℕ → Option ℕ → UInt32 → Except Fault UInt32
  | 0, _, _ => .error .diverges
  | fuel + 1, e, length =>
    match e with
    | none => .ok length
    | some a => do
      let e ← elements.read (some a)
      countFrom elements fuel e.next (length + 1)

def listLengthOf (list : SingleLink δ) : Except Fault UInt32 :=
  match list.head with
  | none => .ok 0
  | some head => do
    let e ← list.elements.read (some head)
    countFrom list.elements (list.elements.limit + 1) e.next 1

/-- The loop of `iterate_list`; `function` says what a call makes of what `user_data` points to. -/
def iterateFrom (elements : Heap (ListElement δ)) (function : δ → υ → υ) :
    ℕ → Option ℕ → υ → Except Fault υ
  | 0, _, _ => .error .diverges
  | fuel + 1, e, userData =>
    match e with
    | none => .ok userData
    | some a => do
      let e ← elements.read (some a)
      iterateFrom elements function fuel e.next (function e.data userData)

def iterateList (list : SingleLink δ) (function : Option (δ → υ → υ)) (userData : υ) :
    Except Fault υ :=
  match function with
  | none => .ok userData
  | some function =>
    iterateFrom list.elements function (list.elements.limit + 1) list.head userData

/-- What is returned with the code is what is left in memory. -/
def deleteList (list : SingleLink δ) : Except Fault (ℤ × Heap (ListElement δ)) := do
  let (_, elements) ←
    list.elements.freeAll ListElement.next (list.elements.limit + 1) list.head
  .ok (ccENone, elements)

variable {list list' : SingleLink δ} {es : List (ℕ × δ)} {p : Option ℕ}

theorem iterateFrom_seg {elements : Heap (ListElement δ)} (function : δ → υ → υ)
    (hs : layout.Seg elements.cells p es none) (fuel : ℕ) (hfuel : es.length < fuel)
    (userData : υ) :
  iterateFrom elements function fuel (layout.head es none) userData
    = .ok ((es.map Prod.snd).foldl (fun u d => function d u) userData)
  := by
  induction es generalizing p fuel userData with
  | nil =>
      obtain ⟨fuel, rfl⟩ := Nat.exists_eq_add_of_lt hfuel
      rfl
  | cons e es ih =>
      obtain ⟨fuel, rfl⟩ := Nat.exists_eq_add_of_lt hfuel
      obtain ⟨hcell, hes⟩ := hs
      have hread : elements.read (some e.1) = .ok ⟨layout.head es none, e.2⟩ :=
        Heap.read_some hcell
      have hrest := ih hes (es.length + 1 + fuel) (by omega) (function e.2 userData)
      simp only [Layout.head_cons, List.length_cons, iterateFrom, layout, hread, ok_bind]
      exact hrest

/-- Counting is iterating a call that counts. -/
theorem countFrom_eq (elements : Heap (ListElement δ)) (fuel : ℕ) (e : Option ℕ)
    (length : UInt32) :
  countFrom elements fuel e length = iterateFrom elements (fun _ n => n + 1) fuel e length
  := by
  induction fuel generalizing e length with
  | zero => rfl
  | succ fuel ih =>
      cases e with
      | none => rfl
      | some a =>
          simp only [countFrom, iterateFrom]
          congr 1
          funext e
          apply ih

theorem foldl_count (xs : List δ) (n : UInt32) :
  xs.foldl (fun n _ => n + 1) n = n + UInt32.ofNat xs.length
  := by
  induction xs generalizing n with
  | nil => simp
  | cons x xs ih =>
      rw [List.foldl_cons, ih, List.length_cons, UInt32.ofNat_add, UInt32.add_assoc,
        UInt32.add_comm 1]
      rfl

theorem Lies.iterateList (h : list.Lies es) (function : δ → υ → υ) (userData : υ) :
  list.iterateList (some function) userData
    = .ok ((es.map Prod.snd).foldl (fun u d => function d u) userData)
  := by
  have hlen := h.length_le
  rw [SingleLink.iterateList, h.head]
  apply iterateFrom_seg function h.seg
  omega

theorem Lies.listLengthOf (h : list.Lies es) :
  list.listLengthOf = .ok (UInt32.ofNat es.length)
  := by
  have hlen := h.length_le
  cases es with
  | nil =>
      have hhead : list.head = none := h.head
      simp [SingleLink.listLengthOf, hhead]
  | cons e es =>
      have hhead : list.head = some e.1 := h.head
      have hread : list.elements.read (some e.1) = .ok ⟨layout.head es none, e.2⟩ :=
        Heap.read_some h.seg.1
      rw [List.length_cons] at hlen
      have hrest := iterateFrom_seg (fun _ n => n + 1) h.seg.2 (list.elements.limit + 1)
        (by omega) (1 : UInt32)
      simp only [SingleLink.listLengthOf, hhead, hread, ok_bind, countFrom_eq, hrest,
        foldl_count, List.length_map]
      rw [List.length_cons, Nat.add_comm, UInt32.ofNat_add]
      rfl

/-! ### What a list has allocated -/

/-- The elements `es` are linked from the head variable on, and nothing else is allocated. -/
structure Whole (list : SingleLink δ) (es : List (ℕ × δ)) : Prop where
  lies : list.Lies es
  covered : list.elements.CoveredBy {a | a ∈ es.map Prod.fst}

theorem whole_create :
  (createList (⟨Heap.empty, none⟩ : SingleLink δ)).2.Whole []
  := by
  refine ⟨⟨rfl, trivial, List.nodup_nil⟩, ?_⟩
  exact Heap.coveredBy_empty.mono (Set.empty_subset _)

theorem Whole.insertInFront (h : list.Whole es) {data : δ} {malloc : Bool} {r : ℤ}
    (hok : list.insertInFront data malloc = .ok (r, list')) :
  ∃ es', list'.Whole es'
  := by
  cases malloc with
  | false => cases hok
  | true =>
      obtain ⟨list₁, hinsert, hlies⟩ := h.lies.insertInFront data
      rw [hinsert] at hok
      cases hok
      refine ⟨_, hlies, ?_⟩
      cases hinsert
      apply (h.covered.alloc _).mono
      rintro a (rfl | ha)
      · simp
      · exact List.mem_cons_of_mem _ ha

theorem Whole.appendToTail (h : list.Whole es) {data : δ} {malloc : Bool} {r : ℤ}
    (hok : list.appendToTail data malloc = .ok (r, list')) :
  list'.Whole (es ++ [(list.elements.limit, data)])
  := by
  cases malloc with
  | false => cases hok
  | true =>
      obtain ⟨list₁, hinsert, hlies⟩ := h.lies.appendToTail data
      rw [hinsert] at hok
      cases hok
      refine ⟨hlies, ?_⟩
      have hcovered : list'.elements.CoveredBy
          (insert list.elements.limit {a | a ∈ es.map Prod.fst}) := by
        cases hhead : list.head with
        | none =>
            simp only [SingleLink.appendToTail, if_true, hhead] at hinsert
            cases hinsert
            exact h.covered.alloc _
        | some head =>
            simp only [SingleLink.appendToTail, if_true, hhead, bind_eq_ok] at hinsert
            obtain ⟨a, -, e, -, elements, hwrite, hlist⟩ := hinsert
            cases hlist
            exact (h.covered.alloc _).write hwrite
      apply hcovered.mono
      rintro a (rfl | ha)
      · simp
      · change a ∈ (es ++ [(list.elements.limit, data)]).map Prod.fst
        rw [List.map_append, List.mem_append]
        exact .inl ha

section

variable [DecidableEq δ]

theorem Whole.insertBefore (h : list.Whole es) {sibling data : δ} {malloc : Bool} {r : ℤ}
    (hok : list.insertBefore sibling data malloc = .ok (r, list')) :
  ∃ es', list'.Whole es'
  := by
  cases es with
  | nil =>
      rw [Holds.insertBefore_nil ⟨[], h.lies, rfl⟩] at hok
      cases hok
  | cons e es =>
      by_cases hmem : sibling ∈ es.map Prod.snd
      · obtain ⟨ws, n, ys, xs, l, hes, hws, rfl, -, htail, hlies⟩ := h.lies.exists_before hmem
        have hsplit : e :: es = xs ++ l :: n :: ys := by
          rw [hes, ← List.cons_append, hws]
          simp
        cases malloc with
        | false =>
            simp only [SingleLink.insertBefore, hlies.searchAhead_some htail, ok_bind,
              Bool.false_eq_true, if_false] at hok
            cases hok
        | true =>
            obtain ⟨list₁, hinsert, hlies'⟩ := hlies.insertBefore_some htail data
            rw [hinsert] at hok
            cases hok
            refine ⟨_, hlies', ?_⟩
            simp only [SingleLink.insertBefore, hlies.searchAhead_some htail, ok_bind, if_true,
              bind_eq_ok] at hinsert
            obtain ⟨e₁, -, e₂, -, elements, hwrite, hlist⟩ := hinsert
            cases hlist
            apply ((h.covered.alloc _).write hwrite).mono
            rintro a (rfl | ha)
            · simp
            · have ha' : a ∈ (xs ++ l :: n :: ys).map Prod.fst := hsplit ▸ ha
              change a ∈ (xs ++ l :: (list.elements.limit, data) :: n :: ys).map Prod.fst
              simp only [List.map_append, List.map_cons, List.mem_append, List.mem_cons] at ha' ⊢
              exact ha'.imp_right (Or.imp_right .inr)
      · rw [h.lies.insertBefore_none hmem] at hok
        cases hok
        exact ⟨_, h⟩

theorem Whole.deleteElement (h : list.Whole es) {data : δ} {r : ℤ}
    (hok : list.deleteElement data = .ok (r, list')) :
  ∃ es', list'.Whole es'
  := by
  cases es with
  | nil =>
      rw [Holds.deleteElement_nil ⟨[], h.lies, rfl⟩] at hok
      cases hok
  | cons e es =>
      have hread : list.elements.read list.head = .ok ⟨layout.head es none, e.2⟩ := by
        rw [h.lies.head]
        exact Heap.read_some h.lies.seg.1
      by_cases hdata : e.2 = data
      · subst hdata
        obtain ⟨list₁, hdelete, hlies⟩ := h.lies.deleteElement_head
        rw [hdelete] at hok
        cases hok
        refine ⟨es, hlies, ?_⟩
        simp only [SingleLink.deleteElement, hread, ok_bind, if_true, bind_eq_ok] at hdelete
        obtain ⟨elements, hfree, hlist⟩ := hdelete
        cases hlist
        have hhead : list.head = some e.1 := h.lies.head
        rw [hhead] at hfree
        apply (h.covered.free hfree).mono
        rintro a ⟨ha, hne⟩
        exact (List.mem_cons.mp ha).resolve_left hne
      · by_cases hmem : data ∈ es.map Prod.snd
        · obtain ⟨ws, n, ys, xs, l, hes, hws, rfl, hnot, htail, hlies⟩ :=
            h.lies.exists_before hmem
          have hbefore : n.2 ∉ (xs ++ [l]).map Prod.snd := by
            rw [← hws, List.map_cons, List.mem_cons, not_or]
            exact ⟨Ne.symm hdata, hnot⟩
          have hsplit : e :: es = xs ++ l :: n :: ys := by
            rw [hes, ← List.cons_append, hws]
            simp
          obtain ⟨list₁, hdelete, hlies'⟩ := hlies.deleteElement_some hbefore
          rw [hdelete] at hok
          cases hok
          refine ⟨_, hlies', ?_⟩
          have hl : list.elements.read (some l.1) = .ok ⟨some n.1, l.2⟩ :=
            Heap.read_some hlies.cell
          simp only [SingleLink.deleteElement, hread, ok_bind, hdata, if_false,
            hlies.searchAhead_some htail, hl, bind_eq_ok] at hdelete
          obtain ⟨deleteMe, -, elements, hwrite, elements', hfree, hlist⟩ := hdelete
          cases hlist
          apply ((h.covered.write hwrite).free hfree).mono
          rintro a ⟨ha, hne⟩
          have ha' : a ∈ (xs ++ l :: n :: ys).map Prod.fst := hsplit ▸ ha
          change a ∈ (xs ++ l :: ys).map Prod.fst
          simp only [List.map_append, List.map_cons, List.mem_append, List.mem_cons] at ha' ⊢
          exact ha'.imp_right (Or.imp_right (fun hor => hor.resolve_left hne))
        · have hall : data ∉ (e :: es).map Prod.snd := by
            rw [List.map_cons, List.mem_cons, not_or]
            exact ⟨Ne.symm hdata, hmem⟩
          rw [h.lies.deleteElement_none hall] at hok
          cases hok
          exact ⟨_, h⟩

theorem Whole.step (h : ∃ es, list.Whole es) {c : LinkCall δ} {r : ℤ}
    (hstep : linkStep list c = .ok (r, list')) :
  ∃ es, list'.Whole es
  := by
  obtain ⟨es, hwhole⟩ := h
  cases c with
  | insertInFront data malloc => exact hwhole.insertInFront hstep
  | insertBefore sibling data malloc => exact hwhole.insertBefore hstep
  | appendToTail data malloc => exact ⟨_, hwhole.appendToTail hstep⟩
  | deleteElement data => exact hwhole.deleteElement hstep

end

/-- Deleting a list leaves nothing that has been allocated for it. -/
theorem Whole.deleteList (h : list.Whole es) :
  ∃ elements, list.deleteList = .ok (ccENone, elements) ∧ ∀ a, elements.cells a = none
  := by
  have hlen := h.lies.length_le
  obtain ⟨_, elements, hfree, -, -, hreleased, hkept⟩ :=
    h.lies.seg.freeAll ListElement.next (fun _ _ _ => rfl) ListElement.data Prod.snd
      (fun _ _ _ => rfl) h.lies.nodup (list.elements.limit + 1) (by omega)
  use elements
  constructor
  · simp only [SingleLink.deleteList, h.lies.head, hfree, ok_bind]
  · intro a
    by_cases hin : a ∈ es.map Prod.fst
    · exact hreleased a hin
    · rw [hkept a hin]
      by_contra hne
      exact hin (h.covered a (Option.isSome_iff_ne_none.mpr hne))

end SingleLink

/-- After whatever calls on a new list that have returned, successful or not: the list holds some
data, their number is the length (modulo `2 ^ 32`), a function is called for each of them in order,
and deleting the list leaves nothing that has been allocated for it. -/
theorem single_link_lifecycle {δ : Type} [DecidableEq δ] (calls : List (LinkCall δ))
    (os : List ℤ) (list : SingleLink δ)
    (hrun : Machine.run linkStep (SingleLink.createList ⟨Heap.empty, none⟩).2 calls
      = .ok (os, list)) :
  ∃ xs, list.Holds xs ∧ list.listLengthOf = .ok (UInt32.ofNat xs.length) ∧
    (∀ (υ : Type) (function : δ → υ → υ) (userData : υ),
      list.iterateList (some function) userData
        = .ok (xs.foldl (fun u x => function x u) userData)) ∧
    ∃ elements, list.deleteList = .ok (ccENone, elements) ∧ ∀ a, elements.cells a = none
  := by
  obtain ⟨es, hwhole⟩ : ∃ es, list.Whole es :=
    (Machine.throughout_of_forall (G := fun _ => True) (fun _ _ => trivial)).run_invariant
      (R := fun list => ∃ es, SingleLink.Whole list es)
      (fun _ _ _ _ h _ hstep => SingleLink.Whole.step h hstep) ⟨[], SingleLink.whole_create⟩ hrun
  refine ⟨es.map Prod.snd, ⟨es, hwhole.lies, rfl⟩, ?_, ?_, hwhole.deleteList⟩
  · rw [List.length_map]
    exact hwhole.lies.listLengthOf
  · intro υ function userData
    exact hwhole.lies.iterateList function userData

/-- Two elements, of which the first is deleted, and one that is not found. -/
theorem single_link_lifecycle_delete :
  ∃ (os : List ℤ) (list : SingleLink ℕ),
    Machine.run linkStep (SingleLink.createList ⟨Heap.empty, none⟩).2
      [.appendToTail 7 true, .insertBefore 7 6 true, .appendToTail 8 true, .deleteElement 7]
      = .ok (os, list) ∧
    ∃ xs, list.Holds xs ∧ list.listLengthOf = .ok (UInt32.ofNat xs.length) ∧
      (∀ (υ : Type) (function : ℕ → υ → υ) (userData : υ),
        list.iterateList (some function) userData
          = .ok (xs.foldl (fun u x => function x u) userData)) ∧
      ∃ elements, list.deleteList = .ok (ccENone, elements) ∧ ∀ a, elements.cells a = none
  := ⟨_, _, rfl, single_link_lifecycle
    [.appendToTail 7 true, .insertBefore 7 6 true, .appendToTail 8 true, .deleteElement 7] _ _ rfl⟩

/-! ### Lists of actions in memory -/

/-- A list of actions in memory. The elements of the list point to the blocks. -/
structure LinkedActions where
  nActions : Int32
  list : SingleLink ℕ
  blocks : Heap (List UInt8)

namespace LinkedActions

def create : LinkedActions where
  nActions := 0
  list := (SingleLink.createList ⟨Heap.empty, none⟩).2
  blocks := Heap.empty

/-- What the `append` functions do in memory with the block they have built. -/
def append (actions : LinkedActions) (block : List UInt8) (malloc malloc' : Bool) :
    Except Fault (ℤ × LinkedActions) :=
  if malloc then do
    let blocks := actions.blocks.alloc block
    let (ret, list) ← actions.list.appendToTail actions.blocks.limit malloc'
    if ret ≥ 0 then .ok (ret, ⟨actions.nActions + 1, list, blocks⟩)
    else .ok (ret, ⟨actions.nActions, list, blocks⟩)
  else .error .null

/-- The blocks one after the other, when all allocations succeed. -/
def appendAll (actions : LinkedActions) : List (List UInt8) → Except Fault LinkedActions
  | [] => .ok actions
  | block :: blocks => do
    let (_, actions) ← actions.append block true true
    actions.appendAll blocks

/-- The loop of `delete_actions`. -/
def freeBlocks (elements : Heap (ListElement ℕ)) :
    ℕ → Option ℕ → Heap (List UInt8) → Except Fault (Heap (List UInt8))
  | 0, _, _ => .error .diverges
  | fuel + 1, element, blocks =>
    match element with
    | none => .ok blocks
    | some a => do
      let element ← elements.read (some a)
      let blocks ← blocks.free (some element.data)
      freeBlocks elements fuel element.next blocks

/-- What is returned with the code is what is left in memory, of the blocks and of the list. -/
def deleteActions (actions : LinkedActions) :
    Except Fault (ℤ × Heap (List UInt8) × Heap (ListElement ℕ)) := do
  let blocks ← freeBlocks actions.list.elements (actions.list.elements.limit + 1)
    actions.list.head actions.blocks
  let (_, elements) ← actions.list.deleteList
  .ok (ccENone, blocks, elements)

/-- The blocks in memory are those of the list, each action has one of its own, and nothing else
is allocated. -/
structure Holds (actions : LinkedActions) (es : List (ℕ × ℕ)) (list : List (List UInt8)) :
    Prop where
  whole : actions.list.Whole es
  blocks : es.map (fun e => actions.blocks.cells e.2) = list.map some
  nodup : (es.map Prod.snd).Nodup
  covered : actions.blocks.CoveredBy {a | a ∈ es.map Prod.snd}

/-- The list of actions, with its count, is that of `actions`. -/
def Represents (linked : LinkedActions) (actions : OpenflowActions) : Prop :=
  linked.nActions = actions.nActions ∧ ∃ es, linked.Holds es actions.list

theorem represents_create :
  create.Represents ⟨0, []⟩
  := by
  refine ⟨rfl, [], SingleLink.whole_create, rfl, List.nodup_nil, ?_⟩
  exact Heap.coveredBy_empty.mono (Set.empty_subset _)

variable {linked : LinkedActions} {actions : OpenflowActions} {es : List (ℕ × ℕ)}
  {list : List (List UInt8)}

theorem Holds.lt_limit (h : linked.Holds es list) {e : ℕ × ℕ} (he : e ∈ es) :
  e.2 < linked.blocks.limit
  := by
  have hmem : linked.blocks.cells e.2 ∈ list.map some := by
    rw [← h.blocks]
    exact List.mem_map_of_mem he
  obtain ⟨block, -, hblock⟩ := List.mem_map.mp hmem
  exact Heap.lt_limit hblock.symm

/-- Appending a block in memory comes to appending it to the list. -/
theorem Represents.append (h : linked.Represents actions) (block : List UInt8) :
  ∃ linked', linked.append block true true = .ok (ccENone, linked') ∧
    linked'.Represents ⟨actions.nActions + 1, actions.list ++ [block]⟩
  := by
  obtain ⟨hn, es, hholds⟩ := h
  obtain ⟨list, happend, -⟩ := hholds.whole.lies.appendToTail linked.blocks.limit
  have hne : ∀ e ∈ es, e.2 ≠ linked.blocks.limit := fun e he =>
    Nat.ne_of_lt (hholds.lt_limit he)
  have hcodes : ccENone ≥ 0 := by decide
  refine ⟨⟨linked.nActions + 1, list, linked.blocks.alloc block⟩, ?_, by rw [hn], _,
    hholds.whole.appendToTail happend, ?_, ?_, ?_⟩
  · simp only [LinkedActions.append, if_true, happend, ok_bind, hcodes]
  · rw [List.map_append, List.map_append, ← hholds.blocks]
    congr 1
    · apply List.map_congr_left
      intro e he
      exact Heap.alloc_cells_of_ne block (hne e he)
    · exact congrArg (fun cell => [cell]) (Heap.alloc_cells_limit linked.blocks block)
  · rw [List.map_append, List.nodup_append]
    refine ⟨hholds.nodup, by simp, ?_⟩
    intro a ha b hb
    obtain ⟨e, he, rfl⟩ := List.mem_map.mp ha
    obtain rfl : b = linked.blocks.limit := by simpa using hb
    exact hne e he
  · apply (hholds.covered.alloc block).mono
    intro a ha
    change a ∈ (es ++ [(linked.list.elements.limit, linked.blocks.limit)]).map Prod.snd
    rw [List.map_append, List.mem_append]
    rcases ha with rfl | ha
    · exact .inr (by simp)
    · exact .inl ha

theorem Represents.appendAll (h : linked.Represents actions) (blocks : List (List UInt8)) :
  ∃ linked', linked.appendAll blocks = .ok linked' ∧
    linked'.Represents ⟨actions.nActions + .ofNat blocks.length, actions.list ++ blocks⟩
  := by
  induction blocks generalizing linked actions with
  | nil =>
      rw [List.append_nil, List.length_nil, show Int32.ofNat 0 = 0 from rfl, Int32.add_zero]
      exact ⟨linked, rfl, h⟩
  | cons block blocks ih =>
      obtain ⟨linked₁, happend, h₁⟩ := h.append block
      obtain ⟨linked', hall, h'⟩ := ih h₁
      refine ⟨linked', ?_, ?_⟩
      · simp only [LinkedActions.appendAll, happend, ok_bind, hall]
      · rw [List.append_assoc, List.singleton_append, Int32.add_assoc,
          ← AppendCall.ofNat_succ] at h'
        exact h'

/-- The loop releases the blocks that the elements point to. -/
theorem freeBlocks_seg {elements : Heap (ListElement ℕ)} {p : Option ℕ}
    (hs : SingleLink.layout.Seg elements.cells p es none) {blocks : Heap (List UInt8)}
    (hblocks : ∀ e ∈ es, (blocks.cells e.2).isSome) (hnodup : (es.map Prod.snd).Nodup)
    (hcovered : blocks.CoveredBy {a | a ∈ es.map Prod.snd}) (fuel : ℕ)
    (hfuel : es.length < fuel) :
  ∃ blocks', freeBlocks elements fuel (SingleLink.layout.head es none) blocks = .ok blocks' ∧
    ∀ a, blocks'.cells a = none
  := by
  induction es generalizing p blocks fuel with
  | nil =>
      obtain ⟨fuel, rfl⟩ := Nat.exists_eq_add_of_lt hfuel
      refine ⟨blocks, rfl, ?_⟩
      apply Heap.CoveredBy.cells_eq_none
      apply hcovered.mono
      intro a ha
      cases ha
  | cons e es ih =>
      obtain ⟨fuel, rfl⟩ := Nat.exists_eq_add_of_lt hfuel
      obtain ⟨hcell, hes⟩ := hs
      rw [List.map_cons, List.nodup_cons] at hnodup
      obtain ⟨block, hblock⟩ := Option.isSome_iff_exists.mp (hblocks e List.mem_cons_self)
      have hread : elements.read (some e.1) = .ok ⟨SingleLink.layout.head es none, e.2⟩ :=
        Heap.read_some hcell
      have hrest : ∀ x ∈ es, ((blocks.erase e.2).cells x.2).isSome := by
        intro x hx
        have hne : x.2 ≠ e.2 := by
          intro heq
          exact hnodup.1 (heq ▸ List.mem_map_of_mem hx)
        rw [Heap.erase_cells_of_ne hne]
        exact hblocks x (List.mem_cons_of_mem e hx)
      have hcovered' : (blocks.erase e.2).CoveredBy {a | a ∈ es.map Prod.snd} := by
        apply (hcovered.erase e.2).mono
        rintro a ⟨ha, hne⟩
        exact (List.mem_cons.mp ha).resolve_left hne
      obtain ⟨blocks', hfree, hempty⟩ :=
        ih hes hrest hnodup.2 hcovered' (es.length + 1 + fuel) (by omega)
      refine ⟨blocks', ?_, hempty⟩
      simp only [Layout.head_cons, List.length_cons, freeBlocks, SingleLink.layout, hread,
        ok_bind, Heap.free_some hblock]
      exact hfree

theorem Represents.deleteActions (h : linked.Represents actions) :
  ∃ blocks elements, linked.deleteActions = .ok (ccENone, blocks, elements) ∧
    (∀ a, blocks.cells a = none) ∧ ∀ a, elements.cells a = none
  := by
  obtain ⟨-, es, hholds⟩ := h
  have hlen := hholds.whole.lies.length_le
  have hsome : ∀ e ∈ es, (linked.blocks.cells e.2).isSome := by
    intro e he
    have hmem : linked.blocks.cells e.2 ∈ actions.list.map some := by
      rw [← hholds.blocks]
      exact List.mem_map_of_mem he
    obtain ⟨block, -, hblock⟩ := List.mem_map.mp hmem
    rw [← hblock]
    rfl
  obtain ⟨blocks, hfree, hblocks⟩ := freeBlocks_seg hholds.whole.lies.seg hsome hholds.nodup
    hholds.covered (linked.list.elements.limit + 1) (by omega)
  obtain ⟨elements, hdelete, helements⟩ := hholds.whole.deleteList
  refine ⟨blocks, elements, ?_, hblocks, helements⟩
  simp only [LinkedActions.deleteActions, hholds.whole.lies.head, hfree, hdelete, ok_bind]

end LinkedActions

/-- Whatever actions have been appended to a new list: the list in memory has a block for each of
them, as it should be, and counts them as long as their number is an `int`; and deleting the
actions releases every block and every element of the list once and leaves nothing. -/
theorem actions_lifecycle (host : Host) (calls : List (Memory × AppendCall))
    (hfits : ∀ call ∈ calls, call.2.Fits) (w w' : World) (actions : OpenflowActions)
    (hok : appendActions host ⟨0, []⟩ calls w = .ok (actions, w')) :
  ∃ linked, LinkedActions.create.appendAll (calls.map (fun call => call.2.block host call.1))
      = .ok linked ∧
    linked.Represents actions ∧
    (calls.length < 2 ^ 31 → linked.nActions.toInt = calls.length) ∧
    ∃ blocks elements, linked.deleteActions = .ok (ccENone, blocks, elements) ∧
      (∀ a, blocks.cells a = none) ∧ ∀ a, elements.cells a = none
  := by
  have hactions : Program.Ensures (appendActions host ⟨0, []⟩ calls) w (fun actions _ =>
      actions = ⟨.ofNat calls.length, calls.map (fun call => call.2.block host call.1)⟩) := by
    apply (AppendCall.appendActions_draws hfits _ w _).mpr
    refine ⟨fun _ => ?_, fun _ => trivial⟩
    rw [Int32.zero_add, List.nil_append]
  obtain ⟨linked, hall, hrepresents⟩ := LinkedActions.represents_create.appendAll
    (calls.map (fun call => call.2.block host call.1))
  rw [List.length_map, Int32.zero_add, List.nil_append] at hrepresents
  rw [Program.ensures_iff.mp hactions actions w' hok]
  refine ⟨linked, hall, hrepresents, fun hlength => ?_, hrepresents.deleteActions⟩
  rw [hrepresents.1, Int32.toInt_ofNat_of_lt hlength]

theorem actions_lifecycle_three :
  (∀ call ∈ threeCalls, call.2.Fits) ∧
  ∃ actions w', appendActions (.plain true) ⟨0, []⟩ threeCalls
      (World.fresh (fun _ => true) (fun _ => .failed)) = .ok (actions, w') ∧
    ∃ linked, LinkedActions.create.appendAll
        (threeCalls.map (fun call => call.2.block (.plain true) call.1)) = .ok linked ∧
      linked.Represents actions ∧
      (threeCalls.length < 2 ^ 31 → linked.nActions.toInt = threeCalls.length) ∧
      ∃ blocks elements, linked.deleteActions = .ok (ccENone, blocks, elements) ∧
        (∀ a, blocks.cells a = none) ∧ ∀ a, elements.cells a = none
  := ⟨threeCalls_fit, _, _, rfl, actions_lifecycle _ threeCalls threeCalls_fit
    (World.fresh (fun _ => true) (fun _ => .failed)) _ _ rfl⟩

end CcController
