import CcController.HashDelete
import CcController.Lib.Release
import CcController.Xid

/-!
# Destroying the xid table

`hash_destroy` releases the nodes of the buckets, one bucket after the other, each time setting
the link of the head past the node before it releases the node; `cc_destroy_xid_table` then
releases the array of the heads and the table. Everything that the table has allocated is released,
each node once, unless an xid has been deleted by its key whose node was the last of its bucket:
the node that stays linked is then followed once more (`ccDestroyXidTable_iff`).
-/

namespace CcController

/-- The inner loop of `hash_destroy`, in the bucket `i`. -/
def destroyChain (i : ℕ) : ℕ → Option ℕ → HashTable → Except Fault HashTable
  | 0, _, _ => .error .diverges
  | fuel + 1, tmp, hashTable =>
    match tmp with
    | none => .ok hashTable
    | some a => do
      let node ← hashTable.read (some a)
      let head ← hashTable.read (some i)
      let hashTable ← hashTable.write (some i) { head with next := node.next }
      let hashTable ← hashTable.free (some a)
      let head ← hashTable.read (some i)
      destroyChain i fuel head.next hashTable

/-- The outer loop of `hash_destroy`, over the first `n` buckets. -/
def destroyBelow : ℕ → HashTable → Except Fault HashTable
  | 0, hashTable => .ok hashTable
  | i + 1, hashTable => do
    let hashTable ← destroyBelow i hashTable
    let head ← hashTable.read (some i)
    destroyChain i (hashTable.limit + 1) head.next hashTable

def hashDestroy (hashTable : HashTable) : Except Fault (ℤ × HashTable) := do
  let hashTable ← destroyBelow maxLen hashTable
  .ok (ccENone, hashTable)

/-- The array of the heads is one block, which is released as a whole. What is returned with the
code is what is left in memory. -/
def ccDestroyXidTable (xidTable : XidTable) : Except Fault (ℤ × HashTable) := do
  let (ret, hashTable) ← hashDestroy xidTable.hashTable
  if ret = ccEErr then .ok (ccEErr, hashTable)
  else .ok (ccENone, (List.range maxLen).foldl Heap.erase hashTable)

namespace HashTable

variable {t t' : HashTable} {A : ℕ → Bucket} {S : Set ℕ}

/-! ### What a table has allocated -/

/-- Nothing is allocated but the heads and the nodes of the buckets `A`. -/
def Filled (t : HashTable) (A : ℕ → Bucket) : Prop :=
  t.CoveredBy {a | ∃ i < maxLen, a ∈ ((A i).list i).map Entry.addr}

theorem filled_init :
  Filled initHashTable (fun _ => ⟨false, []⟩)
  := by
  intro a ha
  refine ⟨a, ?_, by simp [Bucket.list, bucketHead]⟩
  by_contra hlt
  simp [initHashTable, hlt] at ha

theorem Bucket.list_addr (b : Bucket) (i : ℕ) :
  (b.list i).map Entry.addr = i :: b.entries.map Entry.addr
  := rfl

/-- One bucket changes, and nothing else is allocated. -/
theorem Filled.update {i : ℕ} (hi : i < maxLen) {b : Bucket}
    (hcovered : t'.CoveredBy ({a | ∃ j < maxLen, j ≠ i ∧ a ∈ ((A j).list j).map Entry.addr} ∪
      {a | a ∈ (b.list i).map Entry.addr})) :
  t'.Filled (Function.update A i b)
  := by
  intro a ha
  rcases hcovered a ha with ⟨j, hj, hji, hold⟩ | hnew
  · refine ⟨j, hj, ?_⟩
    rw [Function.update_of_ne hji]
    exact hold
  · refine ⟨i, hi, ?_⟩
    rw [Function.update_self]
    exact hnew

theorem insertHashTable_covered (hcovered : t.CoveredBy S) {key : UInt32} {malloc : Bool}
    {now r : ℤ} (hok : insertHashTable t key malloc now = .ok (r, t')) :
  t'.CoveredBy (if malloc then insert t.limit S else S)
  := by
  simp only [insertHashTable, bind_eq_ok] at hok
  obtain ⟨head, -, hok⟩ := hok
  split at hok
  · simp only [bind_eq_ok] at hok
    obtain ⟨t₁, hwrite, hok⟩ := hok
    cases malloc with
    | false =>
        cases hok
        exact hcovered.write hwrite
    | true =>
        simp only [Bool.not_true, Bool.false_eq_true, if_false, bind_eq_ok] at hok
        obtain ⟨head', -, t₂, hwrite', hok⟩ := hok
        cases hok
        rw [if_pos rfl, ← Heap.write_limit hwrite]
        exact ((hcovered.write hwrite).alloc _).write hwrite'
  · simp only [bind_eq_ok] at hok
    obtain ⟨tmp, -, hok⟩ := hok
    cases malloc with
    | false =>
        cases hok
        exact hcovered
    | true =>
        simp only [Bool.not_true, Bool.false_eq_true, if_false, bind_eq_ok] at hok
        obtain ⟨last, -, t₂, hwrite', hok⟩ := hok
        cases hok
        exact (hcovered.alloc _).write hwrite'

theorem hashDeleteByNode_covered (hcovered : t.CoveredBy S) {a : ℕ} {r : ℤ}
    (hok : hashDeleteByNode t (some a) = .ok (r, t')) :
  t'.CoveredBy (S \ {a})
  := by
  simp only [hashDeleteByNode, reduceCtorEq, if_false, bind_eq_ok] at hok
  obtain ⟨n, -, prev, -, hok⟩ := hok
  split at hok
  · simp only [bind_eq_ok] at hok
    obtain ⟨t₁, hwrite, t₂, hfree, hok⟩ := hok
    cases hok
    exact (hcovered.write hwrite).free hfree
  · simp only [bind_eq_ok] at hok
    obtain ⟨t₁, hwrite, n', -, next, -, t₂, hwrite', t₃, hfree, hok⟩ := hok
    cases hok
    exact ((hcovered.write hwrite).write hwrite').free hfree

/-- The lists and the memory of a table. -/
def Whole (t : HashTable) : Prop :=
  ∃ A, t.Lies A ∧ t.Filled A

theorem Whole.insert (h : t.Whole) {key : UInt32} {malloc : Bool} {now r : ℤ}
    (hok : insertHashTable t key malloc now = .ok (r, t')) :
  t'.Whole
  := by
  obtain ⟨A, hlies, hfilled⟩ := h
  refine ⟨_, (hlies.insert_ok hok).2, Filled.update (hashAtom_lt key) ?_⟩
  apply (insertHashTable_covered hfilled hok).mono
  have hold : ∀ a, (∃ j < maxLen, a ∈ ((A j).list j).map Entry.addr) →
      (∃ j < maxLen, j ≠ hashAtom key ∧ a ∈ ((A j).list j).map Entry.addr) ∨
        a ∈ hashAtom key :: (A (hashAtom key)).entries.map Entry.addr := by
    rintro a ⟨j, hj, ha⟩
    by_cases hji : j = hashAtom key
    · subst hji
      exact .inr ha
    · exact .inl ⟨j, hj, hji, ha⟩
  cases malloc with
  | false =>
      intro a ha
      rcases hold a ha with hother | hsame
      · exact .inl hother
      · refine .inr ?_
        simpa [Bucket.list, bucketHead] using hsame
  | true =>
      rintro a (rfl | ha)
      · refine .inr ?_
        simp [Bucket.list]
      · rcases hold a ha with hother | hsame
        · exact .inl hother
        · refine .inr ?_
          simp only [Bucket.list, List.map_cons, List.map_append, List.mem_cons,
            List.mem_append] at hsame ⊢
          exact hsame.imp_right .inl

theorem Filled.deleteByNode (hfilled : t.Filled A) (hlies : t.Lies A) {i : ℕ} (hi : i < maxLen)
    {xs ys : List Entry} {e : Entry} (hentries : (A i).entries = xs ++ e :: ys) {r : ℤ}
    (hok : hashDeleteByNode t (some e.addr) = .ok (r, t')) :
  t'.Whole
  := by
  obtain ⟨t₁, hdelete, hlies'⟩ := hlies.deleteByNode hi hentries
  rw [hdelete] at hok
  cases hok
  refine ⟨_, hlies', Filled.update hi ?_⟩
  apply (hashDeleteByNode_covered hfilled hdelete).mono
  rintro a ⟨⟨j, hj, ha⟩, hne⟩
  by_cases hji : j = i
  · subst hji
    refine .inr ?_
    simp only [Bucket.list, hentries, List.map_cons, List.map_append, List.mem_cons,
      List.mem_append] at ha ⊢
    rcases ha with hhead | ha | heq | ha
    · exact .inl hhead
    · exact .inr (.inl ha)
    · exact absurd heq hne
    · exact .inr (.inr ha)
  · exact .inl ⟨j, hj, hji, ha⟩

/-! ### Releasing the nodes -/

/-- As many rounds of the inner loop as the chain of the bucket has nodes. -/
theorem destroyChain_rounds {i : ℕ} {p q : Option ℕ} {es : List Entry} {head : HashTableNode}
    (hs : nodeLayout.Seg t.cells p es q) (hnodup : (es.map Entry.addr).Nodup)
    (hi : i ∉ es.map Entry.addr) (hhead : t.cells i = some head)
    (hnext : head.next = nodeLayout.head es q) (fuel : ℕ) :
  ∃ t', destroyChain i (es.length + fuel) (nodeLayout.head es q) t = destroyChain i fuel q t' ∧
    t'.limit = t.limit ∧ t'.cells i = some { head with next := q } ∧
    (∀ a ∈ es.map Entry.addr, t'.cells a = none) ∧
    (∀ a ∉ es.map Entry.addr, a ≠ i → t'.cells a = t.cells a)
  := by
  induction es generalizing t p head with
  | nil =>
      have hsame : { head with next := q } = head := by
        rw [← show head.next = q from hnext]
      refine ⟨t, ?_, rfl, by rw [hsame, hhead], by simp, fun _ _ _ => rfl⟩
      rw [List.length_nil, Nat.zero_add]
      rfl
  | cons e es ih =>
      obtain ⟨hcell, hes⟩ := hs
      rw [List.map_cons, List.nodup_cons] at hnodup
      rw [List.map_cons, List.mem_cons, not_or] at hi
      let t₁ := t.set i { head with next := nodeLayout.head es q }
      let t₂ := t₁.erase e.addr
      have hcell₁ : t₁.cells e.addr = some (nodeLayout.cell e (nodeLayout.head es q) p) :=
        (Heap.set_cells_of_ne _ (Ne.symm hi.1)).trans hcell
      have hhead₂ : t₂.cells i = some { head with next := nodeLayout.head es q } :=
        (Heap.erase_cells_of_ne hi.1).trans (Heap.set_cells_self _ hhead)
      have hkept : ∀ a, a ≠ e.addr → a ≠ i → t₂.cells a = t.cells a := fun a hae hai =>
        (Heap.erase_cells_of_ne hae).trans (Heap.set_cells_of_ne _ hai)
      have hes₂ : nodeLayout.Seg t₂.cells (some e.addr) es q := by
        apply hes.congr
        intro x hx
        apply hkept
        · intro heq
          exact hnodup.1 (heq ▸ List.mem_map_of_mem hx)
        · intro heq
          exact hi.2 (heq ▸ List.mem_map_of_mem hx)
      obtain ⟨t', hrounds, hlimit, hhead', hreleased, hkept'⟩ :=
        ih hes₂ hnodup.2 hi.2 hhead₂ rfl
      refine ⟨t', ?_, hlimit, hhead', ?_, ?_⟩
      · rw [← hrounds, List.length_cons, Nat.add_right_comm]
        have hread : t.read (some e.addr)
            = .ok (nodeLayout.cell e (nodeLayout.head es q) p) := Heap.read_some hcell
        have hwrite : t.write (some i) { head with next := nodeLayout.head es q } = .ok t₁ :=
          Heap.write_some _ hhead
        have hfree : t₁.free (some e.addr) = .ok t₂ := Heap.free_some hcell₁
        have hnode : (nodeLayout.cell e (nodeLayout.head es q) p).next = nodeLayout.head es q :=
          rfl
        simp only [Layout.head_cons, nodeLayout_addr, destroyChain, hread, ok_bind,
          Heap.read_some hhead, hnode, hwrite, hfree, Heap.read_some hhead₂]
      · intro a ha
        by_cases hin : a ∈ es.map Entry.addr
        · exact hreleased a hin
        · rw [List.map_cons, List.mem_cons] at ha
          obtain rfl := ha.resolve_right hin
          rw [hkept' e.addr hin (Ne.symm hi.1)]
          apply Heap.erase_cells_self
      · intro a ha hai
        rw [List.map_cons, List.mem_cons, not_or] at ha
        rw [hkept' a ha.2 hai, hkept a ha.1 hai]

/-- The loop releases the nodes of the bucket, and the head links nowhere. -/
theorem destroyChain_ends {i : ℕ} {es : List Entry} {head : HashTableNode}
    (hs : nodeLayout.Seg t.cells (some i) es none) (hnodup : (es.map Entry.addr).Nodup)
    (hi : i ∉ es.map Entry.addr) (hhead : t.cells i = some head)
    (hnext : head.next = nodeLayout.head es none) :
  ∃ t', destroyChain i (t.limit + 1) head.next t = .ok t' ∧
    t'.limit = t.limit ∧ t'.cells i = some { head with next := none } ∧
    (∀ a ∈ es.map Entry.addr, t'.cells a = none) ∧
    (∀ a ∉ es.map Entry.addr, a ≠ i → t'.cells a = t.cells a)
  := by
  have hlen := hs.length_le hnodup
  obtain ⟨fuel, hfuel⟩ := Nat.exists_eq_add_of_le hlen
  obtain ⟨t', hrounds, hafter⟩ :=
    destroyChain_rounds hs hnodup hi hhead hnext (fuel + 1)
  refine ⟨t', ?_, hafter⟩
  rw [hnext, hfuel, Nat.add_assoc, hrounds]
  rfl

/-- A chain that ends at a released node. -/
theorem destroyChain_dangling {i a : ℕ} {p : Option ℕ} {es : List Entry} {head : HashTableNode}
    (hs : nodeLayout.Seg t.cells p es (some a)) (hnodup : (es.map Entry.addr).Nodup)
    (hi : i ∉ es.map Entry.addr) (hhead : t.cells i = some head)
    (hnext : head.next = nodeLayout.head es (some a)) (ha : t.cells a = none) {fuel : ℕ}
    (hfuel : es.length < fuel) :
  destroyChain i fuel head.next t = .error .dangling
  := by
  obtain ⟨fuel, rfl⟩ := Nat.exists_eq_add_of_lt hfuel
  obtain ⟨t', hrounds, -, -, hreleased, hkept⟩ :=
    destroyChain_rounds hs hnodup hi hhead hnext (fuel + 1)
  have hai : a ≠ i := by
    rintro rfl
    rw [hhead] at ha
    cases ha
  have ha' : t'.cells a = none := by
    by_cases hin : a ∈ es.map Entry.addr
    · exact hreleased a hin
    · rw [hkept a hin hai, ha]
  rw [hnext, Nat.add_assoc, hrounds]
  simp only [destroyChain, Heap.read_dangling ha', error_bind]

/-- The first `n` buckets have been released. -/
structure Released (t t' : HashTable) (A : ℕ → Bucket) (n : ℕ) : Prop where
  limit : t'.limit = t.limit
  heads : ∀ i < n, (t'.cells i).isSome
  nodes : ∀ i < n, ∀ e ∈ (A i).entries, t'.cells e.addr = none
  others : ∀ a, (∀ i < n, a ∉ ((A i).list i).map Entry.addr) → t'.cells a = t.cells a

/-- The outer loop, in a table in which the buckets lie as far as it goes. -/
theorem Lies.destroyBelow (h : t.Lies A) {n : ℕ} (hn : n ≤ maxLen) {t₁ : HashTable}
    (hsame : ∀ i < n, ∀ a ∈ ((A i).list i).map Entry.addr, t₁.cells a = t.cells a) :
  ∃ t', CcController.destroyBelow n t₁ = .ok t' ∧ Released t₁ t' A n
  := by
  induction n with
  | zero => exact ⟨t₁, rfl, rfl, by simp, by simp, fun _ _ => rfl⟩
  | succ i ih =>
      obtain ⟨t₂, hbelow, hreleased⟩ :=
        ih (by omega) (fun j hj => hsame j (Nat.lt_succ_of_lt hj))
      have hi : i < maxLen := hn
      have happart : ∀ a ∈ ((A i).list i).map Entry.addr, ∀ j < i,
          a ∉ ((A j).list j).map Entry.addr := by
        intro a ha j hj hmem
        obtain ⟨x, hx, rfl⟩ := List.mem_map.mp ha
        obtain ⟨y, hy, heq⟩ := List.mem_map.mp hmem
        exact h.apart hi (hj.trans hi) (Nat.ne_of_gt hj) hx hy heq.symm
      have hcells : ∀ a ∈ ((A i).list i).map Entry.addr, t₂.cells a = t.cells a := by
        intro a ha
        rw [hreleased.others a (happart a ha), hsame i (Nat.lt_succ_self i) a ha]
      have hnodup := h.list_nodup hi
      rw [Bucket.list, List.map_cons, List.nodup_cons] at hnodup
      have hhead : t₂.cells i
          = some ⟨(bucketHead i (A i).used).key, 0, nodeLayout.head (A i).entries none, none⟩ := by
        rw [hcells i (by simp [Bucket.list, bucketHead]), h.head_cell hi]
      have hseg : nodeLayout.Seg t₂.cells (some i) (A i).entries none := by
        apply (h.seg i hi).2.congr
        intro e he
        exact hcells e.addr (List.mem_map_of_mem (List.mem_cons_of_mem _ he))
      obtain ⟨t', hchain, hlimit', hhead', hnodes, hothers⟩ :=
        destroyChain_ends hseg hnodup.2 hnodup.1 hhead rfl
      refine ⟨t', ?_, hlimit'.trans hreleased.limit, ?_, ?_, ?_⟩
      · simp only [CcController.destroyBelow, hbelow, ok_bind, Heap.read_some hhead, hchain]
      · intro j hj
        rcases Nat.lt_succ_iff_lt_or_eq.mp hj with hlt | rfl
        · have hnot : j ∉ (A i).entries.map Entry.addr := by
            intro hmem
            obtain ⟨e, he, heq⟩ := List.mem_map.mp hmem
            have habove := h.above i hi e he
            omega
          rw [hothers j hnot (Nat.ne_of_lt hlt)]
          exact hreleased.heads j hlt
        · rw [hhead']
          rfl
      · intro j hj e he
        rcases Nat.lt_succ_iff_lt_or_eq.mp hj with hlt | rfl
        · have hlist : e.addr ∈ ((A j).list j).map Entry.addr :=
            List.mem_map_of_mem (List.mem_cons_of_mem _ he)
          have hnot : e.addr ∉ ((A i).list i).map Entry.addr := fun hmem =>
            happart e.addr hmem j hlt hlist
          rw [Bucket.list, List.map_cons, List.mem_cons, not_or] at hnot
          rw [hothers e.addr hnot.2 hnot.1]
          exact hreleased.nodes j hlt e he
        · exact hnodes e.addr (List.mem_map_of_mem he)
      · intro a ha
        have hnot := ha i (Nat.lt_succ_self i)
        rw [Bucket.list, List.map_cons, List.mem_cons, not_or] at hnot
        rw [hothers a hnot.2 hnot.1]
        exact hreleased.others a (fun j hj => ha j (Nat.lt_succ_of_lt hj))

end HashTable

/-! ### Destroying the table -/

/-- The call succeeds, and nothing that the table has allocated is left. -/
def XidTable.Destroys (t : XidTable) : Prop :=
  ∃ hashTable, ccDestroyXidTable t = .ok (ccENone, hashTable) ∧ ∀ a, hashTable.cells a = none

theorem erase_range {h : HashTable} (n a : ℕ) :
  ((List.range n).foldl Heap.erase h).cells a = if a < n then none else h.cells a
  := by
  induction n with
  | zero => rfl
  | succ n ih =>
      rw [List.range_succ, List.foldl_append, List.foldl_cons, List.foldl_nil]
      by_cases heq : a = n
      · rw [heq, Heap.erase_cells_self, if_pos (Nat.lt_succ_self n)]
      · rw [Heap.erase_cells_of_ne heq, ih]
        apply if_congr (by omega) rfl rfl

theorem HashTable.Whole.destroys {t : XidTable} (h : t.hashTable.Whole) :
  t.Destroys
  := by
  obtain ⟨A, hlies, hfilled⟩ := h
  obtain ⟨hashTable, hdestroy, hreleased⟩ := hlies.destroyBelow le_rfl (fun _ _ _ _ => rfl)
  have hcodes : ¬ ccENone = ccEErr := by decide
  refine ⟨(List.range maxLen).foldl Heap.erase hashTable, ?_, ?_⟩
  · simp only [ccDestroyXidTable, hashDestroy, hdestroy, ok_bind, hcodes, if_false]
  · intro a
    rw [erase_range]
    split
    · rfl
    · rename_i hhead
      by_cases hnode : ∃ i < maxLen, a ∈ ((A i).list i).map Entry.addr
      · obtain ⟨i, hi, ha⟩ := hnode
        rw [Bucket.list_addr, List.mem_cons] at ha
        rcases ha with rfl | ha
        · exact absurd hi hhead
        · obtain ⟨e, he, rfl⟩ := List.mem_map.mp ha
          exact hreleased.nodes i hi e he
      · rw [hreleased.others a (fun i hi ha => hnode ⟨i, hi, ha⟩)]
        by_contra hne
        exact hnode (hfilled a (Option.isSome_iff_ne_none.mpr hne))

theorem destroyBelow_error {t : HashTable} {f : Fault} {n m : ℕ}
    (h : destroyBelow n t = .error f) (hnm : n ≤ m) :
  destroyBelow m t = .error f
  := by
  induction m, hnm using Nat.le_induction with
  | base => exact h
  | succ m _ ih => simp only [destroyBelow, ih, error_bind]

/-- The last node of a bucket is released and stays linked: destroying the table follows the
link. -/
theorem HashTable.Lies.not_destroys {t : HashTable} {A : ℕ → Bucket} (h : t.Lies A) {i : ℕ}
    (hi : i < maxLen) {xs : List Entry} {e : Entry} (hentries : (A i).entries = xs ++ [e])
    (count : Int32) :
  ¬ XidTable.Destroys ⟨t.erase e.addr, count⟩
  := by
  have hnodup := h.list_nodup hi
  have hseg := (h.seg i hi).2
  have he : e ∈ (A i).list i := by simp [Bucket.list, hentries]
  have hsame : ∀ j < i, ∀ a ∈ ((A j).list j).map Entry.addr,
      (t.erase e.addr).cells a = t.cells a := by
    intro j hj a ha
    obtain ⟨x, hx, rfl⟩ := List.mem_map.mp ha
    apply Heap.erase_cells_of_ne
    exact h.apart (hj.trans hi) hi (Nat.ne_of_lt hj) hx he
  obtain ⟨t₂, hbelow, hreleased⟩ := h.destroyBelow (Nat.le_of_lt hi) hsame
  have hcells : ∀ x ∈ (A i).list i, t₂.cells x.addr = (t.erase e.addr).cells x.addr := by
    intro x hx
    apply hreleased.others
    intro j hj hmem
    obtain ⟨y, hy, heq⟩ := List.mem_map.mp hmem
    exact h.apart hi (hj.trans hi) (Nat.ne_of_gt hj) hx hy heq.symm
  rw [Bucket.list_addr, hentries, List.map_append, List.map_singleton, List.nodup_cons,
    List.nodup_append, List.mem_append, not_or] at hnodup
  obtain ⟨⟨hixs, hie⟩, hxs, -, hapart⟩ := hnodup
  have hie' : i ≠ e.addr := fun heq => hie (by simp [heq])
  have hhead : t₂.cells i = some ⟨(bucketHead i (A i).used).key, 0,
      nodeLayout.head xs (some e.addr), none⟩ := by
    have hkept : (t.erase e.addr).cells i = t.cells i := Heap.erase_cells_of_ne hie'
    have hfirst := hcells (bucketHead i (A i).used) List.mem_cons_self
    rw [show (bucketHead i (A i).used).addr = i from rfl] at hfirst
    rw [hfirst, hkept, h.head_cell hi, hentries]
    cases xs with
    | nil => rfl
    | cons x xs => rfl
  have hchain : nodeLayout.Seg t₂.cells (some i) xs (some e.addr) := by
    rw [hentries, Layout.seg_append] at hseg
    apply hseg.1.congr
    intro x hx
    have hmem : x ∈ (A i).list i := by simp [Bucket.list, hentries, hx]
    apply (hcells x hmem).trans
    apply Heap.erase_cells_of_ne
    exact hapart x.addr (List.mem_map_of_mem hx) e.addr (by simp)
  have hdangling : t₂.cells e.addr = none := by
    rw [hcells e he]
    apply Heap.erase_cells_self
  have hfuel : xs.length < t₂.limit + 1 := by
    have hlen := (h.seg i hi).2.length_le (h.nodup i hi)
    rw [hentries, List.length_append, List.length_singleton] at hlen
    rw [hreleased.limit, Heap.erase_limit]
    omega
  have hfaults : CcController.destroyBelow (i + 1) (t.erase e.addr) = .error .dangling := by
    simp only [CcController.destroyBelow, hbelow, ok_bind, Heap.read_some hhead]
    exact destroyChain_dangling hchain hxs hixs hhead rfl hdangling hfuel
  rintro ⟨hashTable, hdestroy, -⟩
  simp [ccDestroyXidTable, hashDestroy, destroyBelow_error hfaults hi] at hdestroy

/-! ### Every run -/

/-- An xid that is deleted by its key does not have the last node of a bucket. -/
def XidCall.DeletesFollowed (t : XidTable) : XidCall → Prop
  | .ccDeleteXid xid => Followed t.hashTable xid
  | _ => True

/-- Deleting the node that a search finds. -/
theorem HashTable.Whole.searchAndDelete {t t' : HashTable} (h : t.Whole) {key : UInt32} {r : ℤ}
    (hok : searchAndDelete t key = .ok (r, t')) :
  t'.Whole
  := by
  obtain ⟨A, hlies, hfilled⟩ := id h
  rcases hlies.search_cases key with ⟨hsearch, -⟩ | ⟨xs, e, ys, hsearch, hentries, -, -⟩
  · rw [searchAndDelete_of_search hsearch] at hok
    cases hok
    exact h
  · rw [searchAndDelete_of_search hsearch] at hok
    exact hfilled.deleteByNode hlies (hashAtom_lt key) hentries hok

theorem XidTable.whole_step {t t' : XidTable} (h : t.hashTable.Whole) {c : XidCall}
    (hc : XidCall.DeletesFollowed t c) {r : ℤ} (hstep : xidStep t c = .ok (r, t')) :
  t'.hashTable.Whole
  := by
  obtain ⟨A, hlies, hfilled⟩ := id h
  cases c with
  | ccSendReqXid xidPrev malloc now =>
      rcases ccSendReqXid_cases hlies hstep with rfl | ⟨-, ret, hinsert⟩
      · exact h
      · exact h.insert hinsert
  | ccRecvReplyXid xid now =>
      rcases ccRecvReplyXid_cases hlies xid now with
        ⟨-, hreply⟩ | ⟨xs, e, ys, _, _, hentries, -, -, -, hreply⟩
      · rw [xidStep, hreply] at hstep
        cases hstep
        exact h
      · split at hreply
        · obtain ⟨hashTable, hdelete, hreply⟩ := hreply
          rw [xidStep, hreply] at hstep
          cases hstep
          exact hfilled.deleteByNode hlies (hashAtom_lt xid) hentries hdelete
        · rw [xidStep, hreply] at hstep
          cases hstep
          exact h
  | ccDeleteXid xid =>
      simp only [xidStep, ccDeleteXid, bind_eq_ok] at hstep
      obtain ⟨⟨ret, hashTable⟩, hdelete, hstep⟩ := hstep
      -- what has been followed is deleted as by node
      rw [((hlies.deletesAsFound_iff xid).mpr hc).same] at hdelete
      have hwhole := h.searchAndDelete hdelete
      dsimp only at hstep
      split at hstep
      · cases hstep
        exact hwhole
      · cases hstep
        exact hwhole

/-- An xid that is deleted by its key and has the last node of a bucket. -/
theorem XidTable.delete_last {t : XidTable} (h : t.hashTable.Whole) {xid : UInt32}
    (hlast : ¬ Followed t.hashTable xid) :
  ∃ r t', xidStep t (.ccDeleteXid xid) = .ok (r, t') ∧ ¬ t'.Destroys
  := by
  obtain ⟨A, hlies, -⟩ := h
  have hi := hashAtom_lt xid
  rcases hlies.search_cases xid with ⟨hsearch, -⟩ | ⟨xs, e, ys, hsearch, hentries, -, -⟩
  · apply absurd _ hlast
    intro a ha
    rw [hsearch] at ha
    cases ha
  · cases ys with
    | nil =>
        obtain ⟨-, -, hbyKey, -⟩ := hlies.delete_last hi hentries
        have hcodes : ¬ ccENone = ccEErr := by decide
        refine ⟨ccENone, ⟨t.hashTable.erase e.addr, t.count - 1⟩, ?_,
          hlies.not_destroys hi hentries _⟩
        simp only [xidStep, ccDeleteXid, hbyKey xid hsearch, ok_bind, hcodes, if_false]
    | cons y zs =>
        apply absurd _ hlast
        intro a ha
        rw [hsearch] at ha
        cases ha
        have hlist : (A (hashAtom xid)).list (hashAtom xid)
            = bucketHead (hashAtom xid) (A (hashAtom xid)).used :: xs ++ e :: y :: zs := by
          rw [Bucket.list, hentries, List.cons_append]
        exact ⟨_, _, hlies.cell hi _ hlist, rfl⟩

/-- Whatever xids are registered, replied to and deleted: in every state that the table comes to,
`cc_destroy_xid_table` succeeds and leaves nothing that the table has allocated, exactly if no xid
is deleted by its key while its node is the last of its bucket. -/
theorem ccDestroyXidTable_iff (calls : List XidCall) :
  (∀ pre os t, pre <+: calls → Machine.run xidStep ccInitXidTable pre = .ok (os, t) →
    t.Destroys) ↔
  Machine.Throughout xidStep XidCall.DeletesFollowed ccInitXidTable calls
  := by
  apply Machine.throughout_iff (R := fun t => t.hashTable.Whole)
  · exact ⟨_, HashTable.lies_init, HashTable.filled_init⟩
  · intro t h
    exact h.destroys
  · intro t c r t' h hc hstep
    exact XidTable.whole_step h hc hstep
  · intro t c h hc
    cases c with
    | ccSendReqXid xidPrev malloc now => exact absurd trivial hc
    | ccRecvReplyXid xid now => exact absurd trivial hc
    | ccDeleteXid xid => exact XidTable.delete_last h hc

end CcController
