import CcController.Error
import CcController.Lib.Heap
import CcController.Lib.Run
import Mathlib.Data.List.Count
import Mathlib.Tactic.Common

/-!
# The hash table

A `HashTable` is an array of `maxLen` bucket heads, each the head of a doubly linked list of
nodes. The heads lie at the addresses below `maxLen`, the nodes above them. A head whose key
is `-1` and that links nowhere has never had a node; inserting the first one sets its key to
`0`, and nothing sets it back.

A bucket whose nodes have all been deleted is therefore not a fresh one: inserting into it
follows the null pointer in its head. The table counts keys right exactly as long as no key
is inserted into such a bucket (`hashTable_conforms_iff`).
-/

namespace CcController

structure HashTableNode where
  key : UInt32
  tvSec : ℤ
  next : Option ℕ
  prev : Option ℕ

/-- The array of bucket heads together with the memory of the nodes. -/
abbrev HashTable := Heap HashTableNode

/-- `MAX_LEN` -/
abbrev maxLen : ℕ := 53

def hashAtom (key : UInt32) : ℕ := ((key >>> 2) % 53).toNat

theorem hashAtom_lt (key : UInt32) :
  hashAtom key < maxLen
  := by
  rw [hashAtom, UInt32.toNat_mod]
  apply Nat.mod_lt
  decide

def initHashTable : HashTable where
  cells a := if a < maxLen then some ⟨-1, 0, none, none⟩ else none
  limit := maxLen
  fresh a ha := if_neg (by omega)

/-- `now` is the second the clock gives, `malloc` what the allocation of the node comes
to. -/
def insertHashTable (hashTable : HashTable) (key : UInt32) (malloc : Bool) (now : ℤ) :
    Except Fault (ℤ × HashTable) := do
  let pos := hashAtom key
  let head ← hashTable.read (some pos)
  if head.key = -1 ∧ head.next = none ∧ head.prev = none then
    let hashTable ← hashTable.write (some pos) { head with key := 0 }
    if !malloc then
      .ok (ccEErr, hashTable)
    else
      let new := hashTable.limit
      let hashTable := hashTable.alloc ⟨key, now, none, some pos⟩
      let head ← hashTable.read (some pos)
      let hashTable ← hashTable.write (some pos) { head with next := some new }
      .ok (ccENone, hashTable)
  else
    let tmp ← hashTable.toLast HashTableNode.next (hashTable.limit + 1) head.next
    if !malloc then
      .ok (ccEErr, hashTable)
    else
      let new := hashTable.limit
      let hashTable := hashTable.alloc ⟨key, now, none, some tmp⟩
      let last ← hashTable.read (some tmp)
      let hashTable ← hashTable.write (some tmp) { last with next := some new }
      .ok (ccENone, hashTable)

/-- The return code, and the node found. -/
def hashSearch (hashTable : HashTable) (key : UInt32) : Except Fault (ℤ × Option ℕ) := do
  let head ← hashTable.read (some (hashAtom key))
  let tmp ← hashTable.search HashTableNode.next (fun n => key == n.key) (hashTable.limit + 1)
    head.next
  match tmp with
  | none => .ok (ccEErr, none)
  | some a => .ok (ccENone, some a)

def hashDeleteByKey (hashTable : HashTable) (key : UInt32) :
    Except Fault (ℤ × HashTable) := do
  let (ret, find) ← hashSearch hashTable key
  if ret = ccEErr ∨ find = none then
    .ok (ccEErr, hashTable)
  else
    let node ← hashTable.read find
    if node.next = none then
      -- `prev_find->next == NULL;` compares and stores nothing
      let _ ← hashTable.read node.prev
      let hashTable ← hashTable.free find
      .ok (ccENone, hashTable)
    else
      let prev ← hashTable.read node.prev
      let hashTable ← hashTable.write node.prev { prev with next := node.next }
      let next ← hashTable.read node.next
      let hashTable ← hashTable.write node.next { next with prev := node.prev }
      let hashTable ← hashTable.free find
      .ok (ccENone, hashTable)

def hashDeleteByNode (hashTable : HashTable) (node : Option ℕ) :
    Except Fault (ℤ × HashTable) := do
  if node = none then
    .ok (ccEErr, hashTable)
  else
    let n ← hashTable.read node
    let prev ← hashTable.read n.prev
    if n.next = none then
      let hashTable ← hashTable.write n.prev { prev with next := none }
      let hashTable ← hashTable.free node
      .ok (ccENone, hashTable)
    else
      let hashTable ← hashTable.write n.prev { prev with next := n.next }
      let n ← hashTable.read node
      let next ← hashTable.read n.next
      let hashTable ← hashTable.write n.next { next with prev := n.prev }
      let hashTable ← hashTable.free node
      .ok (ccENone, hashTable)

/-- The nodes that can be reached from the heads of the first `n` buckets. -/
def HashTable.nodesBelow (t : HashTable) : ℕ → Except Fault (List ℕ)
  | 0 => .ok []
  | i + 1 => do
    let nodes ← t.nodesBelow i
    let head ← t.read (some i)
    let chain ← t.walk HashTableNode.next (t.limit + 1) head.next
    .ok (nodes ++ chain)

/-- The nodes that can be reached from the heads. -/
def HashTable.nodes (t : HashTable) : Except Fault (List ℕ) :=
  t.nodesBelow maxLen

/-! ### What a table holds -/

/-- A node as an entry of a linked list. -/
structure Entry where
  addr : ℕ
  key : UInt32
  tvSec : ℤ

def nodeLayout : Layout Entry HashTableNode where
  addr := Entry.addr
  cell e next prev := ⟨e.key, e.tvSec, next, prev⟩

@[simp]
theorem nodeLayout_addr (e : Entry) :
  nodeLayout.addr e = e.addr
  := rfl

/-- A bucket: whether it has ever had a node, and the nodes it has, in order. -/
structure Bucket where
  used : Bool
  entries : List Entry

/-- The head of bucket `i`. -/
def bucketHead (i : ℕ) (used : Bool) : Entry :=
  ⟨i, if used then 0 else -1, 0⟩

/-- The head of bucket `i` and its nodes. -/
def Bucket.list (i : ℕ) (b : Bucket) : List Entry :=
  bucketHead i b.used :: b.entries

namespace HashTable

/-- The buckets `A` lie in the table `t`, every node in the bucket of its key. -/
structure Lies (t : HashTable) (A : ℕ → Bucket) : Prop where
  seg : ∀ i < maxLen, nodeLayout.Seg t.cells none ((A i).list i) none
  unused : ∀ i < maxLen, (A i).used = false → (A i).entries = []
  placed : ∀ i < maxLen, ∀ e ∈ (A i).entries, hashAtom e.key = i
  above : ∀ i < maxLen, ∀ e ∈ (A i).entries, maxLen ≤ e.addr
  nodup : ∀ i < maxLen, ((A i).entries.map Entry.addr).Nodup
  limit : maxLen ≤ t.limit

theorem lies_init :
  Lies initHashTable (fun _ => ⟨false, []⟩)
  := by
  constructor
  · intro i hi
    constructor
    · simp [initHashTable, nodeLayout, bucketHead, hi]
    · trivial
  · intro _ _ _
    rfl
  · simp
  · simp
  · simp
  · exact Nat.le_refl maxLen

variable {t t' : HashTable} {A : ℕ → Bucket}

theorem Lies.list_nodup (h : t.Lies A) {i : ℕ} (hi : i < maxLen) :
  (((A i).list i).map Entry.addr).Nodup
  := by
  simp only [Bucket.list, List.map_cons, List.nodup_cons, List.mem_map, not_exists, not_and]
  constructor
  · intro e he heq
    have habove := h.above i hi e he
    simp only [bucketHead] at heq
    omega
  · apply h.nodup i hi

theorem Lies.lt_limit (h : t.Lies A) {i : ℕ} (hi : i < maxLen) {e : Entry}
    (he : e ∈ (A i).list i) :
  e.addr < t.limit
  := (h.seg i hi).lt_limit he

theorem Lies.cell (h : t.Lies A) {i : ℕ} (hi : i < maxLen) (xs : List Entry) {ys : List Entry}
    {e : Entry} (hlist : (A i).list i = xs ++ e :: ys) :
  t.cells e.addr
    = some ⟨e.key, e.tvSec, nodeLayout.head ys none, nodeLayout.last none xs⟩
  := by
  have hseg := h.seg i hi
  rw [hlist, Layout.seg_append] at hseg
  apply hseg.2.1

theorem Lies.head_cell (h : t.Lies A) {i : ℕ} (hi : i < maxLen) :
  t.cells i
    = some ⟨(bucketHead i (A i).used).key, 0, nodeLayout.head (A i).entries none, none⟩
  := h.cell hi [] rfl

theorem Lies.mem_cell (h : t.Lies A) {i : ℕ} (hi : i < maxLen) {e : Entry}
    (he : e ∈ (A i).entries) :
  ∃ next prev, t.cells e.addr = some ⟨e.key, e.tvSec, next, prev⟩
  := by
  obtain ⟨xs, ys, hsplit⟩ := List.append_of_mem he
  have hlist : (A i).list i = (bucketHead i (A i).used :: xs) ++ e :: ys := by
    rw [Bucket.list, hsplit]
    rfl
  exact ⟨_, _, h.cell hi _ hlist⟩

/-- Nothing of one bucket lies where something of another bucket lies. -/
theorem Lies.apart (h : t.Lies A) {i j : ℕ} (hi : i < maxLen) (hj : j < maxLen) (hij : i ≠ j)
    {x y : Entry} (hx : x ∈ (A i).list i) (hy : y ∈ (A j).list j) :
  x.addr ≠ y.addr
  := by
  intro heq
  rcases List.mem_cons.mp hx with rfl | hx <;> rcases List.mem_cons.mp hy with rfl | hy
  · apply hij heq
  · have habove := h.above j hj y hy
    rw [← heq] at habove
    simp only [bucketHead] at habove
    omega
  · have habove := h.above i hi x hx
    rw [heq] at habove
    simp only [bucketHead] at habove
    omega
  · obtain ⟨_, _, hcx⟩ := h.mem_cell hi hx
    obtain ⟨_, _, hcy⟩ := h.mem_cell hj hy
    rw [heq, hcy] at hcx
    have hkey := (HashTableNode.mk.inj (Option.some.inj hcx)).1
    apply hij
    rw [← h.placed i hi x hx, ← h.placed j hj y hy, hkey]

/-- Replacing one bucket: the heap changes only where that bucket lies and where nothing
lay. -/
theorem Lies.update (h : t.Lies A) {i : ℕ} (hi : i < maxLen) {b : Bucket}
    (hseg : nodeLayout.Seg t'.cells none (b.list i) none)
    (hunused : b.used = false → b.entries = [])
    (hplaced : ∀ e ∈ b.entries, hashAtom e.key = i)
    (habove : ∀ e ∈ b.entries, maxLen ≤ e.addr)
    (hnodup : (b.entries.map Entry.addr).Nodup)
    (hlimit : t.limit ≤ t'.limit)
    (hframe : ∀ a < t.limit, (∀ e ∈ (A i).list i, a ≠ e.addr) → t'.cells a = t.cells a) :
  t'.Lies (Function.update A i b)
  := by
  have hother : ∀ j < maxLen, j ≠ i →
      nodeLayout.Seg t'.cells none ((A j).list j) none := by
    intro j hj hji
    apply (h.seg j hj).congr
    intro e he
    apply hframe _ (h.lt_limit hj he)
    intro x hx
    apply h.apart hj hi hji he hx
  constructor
  · intro j hj
    by_cases hji : j = i
    · subst hji
      rw [Function.update_self]
      apply hseg
    · rw [Function.update_of_ne hji]
      apply hother j hj hji
  · intro j hj
    by_cases hji : j = i
    · subst hji
      rw [Function.update_self]
      apply hunused
    · rw [Function.update_of_ne hji]
      apply h.unused j hj
  · intro j hj
    by_cases hji : j = i
    · subst hji
      rw [Function.update_self]
      apply hplaced
    · rw [Function.update_of_ne hji]
      apply h.placed j hj
  · intro j hj
    by_cases hji : j = i
    · subst hji
      rw [Function.update_self]
      apply habove
    · rw [Function.update_of_ne hji]
      apply h.above j hj
  · intro j hj
    by_cases hji : j = i
    · subst hji
      rw [Function.update_self]
      apply hnodup
    · rw [Function.update_of_ne hji]
      apply h.nodup j hj
  · exact Nat.le_trans h.limit hlimit

theorem Lies.nodesBelow (h : t.Lies A) {n : ℕ} (hn : n ≤ maxLen) :
  t.nodesBelow n = .ok ((List.range n).flatMap (fun i => (A i).entries.map Entry.addr))
  := by
  induction n with
  | zero => rfl
  | succ i ih =>
      have hseg := (h.seg i hn).2
      have hlen := hseg.length_le (h.nodup i hn)
      have hwalk := hseg.walk HashTableNode.next (fun _ _ _ => rfl) (t.limit + 1) (by omega)
      simp only [HashTable.nodesBelow, ih (by omega), ok_bind, Heap.read_some (h.head_cell hn)]
      rw [hwalk, ok_bind, List.range_succ, List.flatMap_append, List.flatMap_singleton]
      rfl

/-- The nodes that can be reached are the nodes of the buckets. -/
theorem Lies.nodes (h : t.Lies A) :
  t.nodes = .ok ((List.range maxLen).flatMap (fun i => (A i).entries.map Entry.addr))
  := h.nodesBelow (Nat.le_refl maxLen)

/-! ### Searching -/

/-- Searching returns the first node of the bucket that has the key. -/
theorem Lies.search (h : t.Lies A) (key : UInt32) :
  hashSearch t key = .ok (
    match (A (hashAtom key)).entries.find? (fun e => key == e.key) with
    | none => (ccEErr, none)
    | some e => (ccENone, some e.addr))
  := by
  have hi := hashAtom_lt key
  have hseg := (h.seg _ hi).2
  have hlen := (hseg.length_le (h.nodup _ hi))
  have hsearch := hseg.search HashTableNode.next (fun _ _ _ => rfl) (fun n => key == n.key)
    (fun e => key == e.key) (fun _ _ _ => rfl) (t.limit + 1) (by omega)
  rw [hashSearch, Heap.read_some (h.head_cell hi), ok_bind, hsearch, ok_bind]
  cases (A (hashAtom key)).entries.find? (fun e => key == e.key) with
  | none => rfl
  | some e => rfl

theorem Lies.search_isNone (h : t.Lies A) {key : UInt32}
    (hkey : ∀ e ∈ (A (hashAtom key)).entries, e.key ≠ key) :
  hashSearch t key = .ok (ccEErr, none)
  := by
  have hnone : (A (hashAtom key)).entries.find? (fun e => key == e.key) = none := by
    rw [List.find?_eq_none]
    intro e he heq
    apply hkey e he
    symm
    simpa using heq
  rw [h.search key, hnone]

/-- What a search finds is the first node of its bucket with the key. -/
theorem Lies.search_cases (h : t.Lies A) (key : UInt32) :
  (hashSearch t key = .ok (ccEErr, none) ∧ ∀ e ∈ (A (hashAtom key)).entries, e.key ≠ key) ∨
    ∃ xs e ys, hashSearch t key = .ok (ccENone, some e.addr) ∧
      (A (hashAtom key)).entries = xs ++ e :: ys ∧ (∀ x ∈ xs, x.key ≠ key) ∧ e.key = key
  := by
  have hsearch := h.search key
  cases hfind : (A (hashAtom key)).entries.find? (fun e => key == e.key) with
  | none =>
      rw [hfind] at hsearch
      refine .inl ⟨hsearch, fun e he hkey => ?_⟩
      have hno := List.find?_eq_none.mp hfind e he
      simp [hkey] at hno
  | some e =>
      rw [hfind] at hsearch
      obtain ⟨hkey, xs, ys, hsplit, hxs⟩ := List.find?_eq_some_iff_append.mp hfind
      refine .inr ⟨xs, e, ys, hsearch, hsplit, fun x hx heq => ?_, ?_⟩
      · have hno := hxs x hx
        simp [heq] at hno
      · symm
        simpa using hkey

/-! ### Inserting -/

/-- A new node, at the next address, behind the nodes of its bucket. -/
theorem Lies.addNode (h : t.Lies A) {key : UInt32} {now : ℤ} {i : ℕ} (hi : hashAtom key = i)
    (hseg : nodeLayout.Seg t'.cells none
      (Bucket.list i ⟨true, (A i).entries ++ [⟨t.limit, key, now⟩]⟩) none)
    (hlimit : t.limit ≤ t'.limit)
    (hframe : ∀ a < t.limit, (∀ e ∈ (A i).list i, a ≠ e.addr) → t'.cells a = t.cells a) :
  t'.Lies (Function.update A i ⟨true, (A i).entries ++ [⟨t.limit, key, now⟩]⟩)
  := by
  have hlt : i < maxLen := by
    rw [← hi]
    apply hashAtom_lt
  apply h.update hlt hseg
  · simp
  · intro e he
    rcases List.mem_append.mp he with he | he
    · apply h.placed i hlt e he
    · rw [List.mem_singleton.mp he, hi]
  · intro e he
    rcases List.mem_append.mp he with he | he
    · apply h.above i hlt e he
    · rw [List.mem_singleton.mp he]
      apply h.limit
  · rw [List.map_append, List.nodup_append]
    refine ⟨h.nodup i hlt, by simp, ?_⟩
    intro a ha c hc
    obtain ⟨e, he, rfl⟩ := List.mem_map.mp ha
    obtain rfl : c = t.limit := by simpa using hc
    apply Nat.ne_of_lt (h.lt_limit hlt (List.mem_cons_of_mem _ he))
  · exact hlimit
  · exact hframe

/-- The first node of a bucket sets the key of its head, which stays set even when the
allocation of the node fails. -/
theorem Lies.insert_unused (h : t.Lies A) (key : UInt32) (malloc : Bool) (now : ℤ)
    (hunused : (A (hashAtom key)).used = false) :
  ∃ t', insertHashTable t key malloc now = .ok (if malloc then ccENone else ccEErr, t') ∧
    t'.Lies (Function.update A (hashAtom key)
      ⟨true, if malloc then [⟨t.limit, key, now⟩] else []⟩)
  := by
  have hi := hashAtom_lt key
  set i := hashAtom key with hidef
  have hlimit := h.limit
  have hhead := h.head_cell hi
  rw [hunused, h.unused i hi hunused] at hhead
  let t₁ := t.set i ⟨0, 0, none, none⟩
  have h₁ : t₁.cells i = some ⟨0, 0, none, none⟩ := Heap.set_cells_self _ hhead
  have hframe : ∀ a, a ≠ i → t₁.cells a = t.cells a := fun a ha => Heap.set_cells_of_ne _ ha
  have hstep : insertHashTable t key malloc now
      = if malloc then
          (((t₁.alloc ⟨key, now, none, some i⟩).read (some i)).bind (fun head =>
            ((t₁.alloc ⟨key, now, none, some i⟩).write (some i)
              { head with next := some t₁.limit }).bind (fun t' => .ok (ccENone, t'))))
        else .ok (ccEErr, t₁) := by
    simp only [insertHashTable, ← hidef, Heap.read_some hhead, ok_bind, bucketHead,
      Layout.head_nil, Heap.write_some _ hhead, Bool.false_eq_true, if_false, and_self, if_true]
    cases malloc with
    | false => rfl
    | true => rfl
  cases malloc with
  | false =>
      use t₁, hstep
      apply h.update hi
      · exact ⟨h₁, trivial⟩
      · simp
      · simp
      · simp
      · simp
      · simp [t₁]
      · intro a _ hnot
        apply hframe a (hnot (bucketHead i (A i).used) List.mem_cons_self)
  | true =>
      let t₂ := t₁.alloc ⟨key, now, none, some i⟩
      have hne : i ≠ t₁.limit := by
        simp only [t₁, Heap.set_limit]
        omega
      have h₂ : t₂.cells i = some ⟨0, 0, none, none⟩ := by
        rw [Heap.alloc_cells_of_ne _ hne, h₁]
      use t₂.set i ⟨0, 0, some t.limit, none⟩
      constructor
      · have hwrite := Heap.write_some ⟨0, 0, some t.limit, none⟩ h₂
        rw [hstep, if_pos rfl, Heap.read_some h₂]
        simp only [Except.bind, t₁, t₂, Heap.set_limit] at hwrite ⊢
        rw [hwrite]
        rfl
      · have hnode : HashTable.Lies (t₂.set i ⟨0, 0, some t.limit, none⟩)
            (Function.update A i ⟨true, (A i).entries ++ [⟨t.limit, key, now⟩]⟩) := by
          apply h.addNode hidef.symm
          · rw [h.unused i hi hunused]
            refine ⟨?_, ?_, trivial⟩
            · apply Heap.set_cells_self _ h₂
            · apply Eq.trans (Heap.set_cells_of_ne _ hne.symm)
              apply Heap.alloc_cells_limit
          · simp [t₂, t₁]
          · intro a ha hnot
            have hai : a ≠ i := hnot (bucketHead i (A i).used) List.mem_cons_self
            apply Eq.trans (Heap.set_cells_of_ne _ hai)
            apply Eq.trans (Heap.alloc_cells_of_ne (h := t₁) _ (Nat.ne_of_lt ha))
            apply hframe a hai
        rw [h.unused i hi hunused] at hnode
        exact hnode

/-- A bucket that has a node gets the new node behind its last one. -/
theorem Lies.insert_behind (h : t.Lies A) (key : UInt32) (malloc : Bool) (now : ℤ)
    (hused : (A (hashAtom key)).used = true) (hentries : (A (hashAtom key)).entries ≠ []) :
  ∃ t', insertHashTable t key malloc now = .ok (if malloc then ccENone else ccEErr, t') ∧
    t'.Lies (if malloc then
      Function.update A (hashAtom key)
        ⟨true, (A (hashAtom key)).entries ++ [⟨t.limit, key, now⟩]⟩
      else A)
  := by
  have hi := hashAtom_lt key
  set i := hashAtom key with hidef
  have hhead := h.head_cell hi
  obtain ⟨init, l, hinit⟩ := (List.eq_nil_or_concat (A i).entries).resolve_left hentries
  rw [List.concat_eq_append] at hinit
  have hlist : (A i).list i = (bucketHead i (A i).used :: init) ++ [l] := by
    rw [Bucket.list, hinit]
    simp
  have hlast : t.toLast HashTableNode.next (t.limit + 1) (nodeLayout.head (A i).entries none)
      = .ok l.addr := by
    have hseg := (h.seg i hi).2
    have hlen := hseg.length_le (h.nodup i hi)
    rw [hinit] at hseg hlen ⊢
    apply hseg.toLast _ (fun _ _ _ => rfl)
    rw [List.length_append] at hlen
    omega
  have hl := h.cell hi _ hlist
  let t₁ := t.alloc ⟨key, now, none, some l.addr⟩
  have hlt := h.lt_limit hi (e := l) (by rw [hlist]; simp)
  have hl₁ : t₁.cells l.addr = some ⟨l.key, l.tvSec, none, nodeLayout.last none
      (bucketHead i (A i).used :: init)⟩ := by
    rw [Heap.alloc_cells_of_ne _ (Nat.ne_of_lt hlt), hl]
    rfl
  have hkey : (bucketHead i (A i).used).key ≠ -1 := by
    rw [hused]
    change (0 : UInt32) ≠ -1
    decide
  cases malloc with
  | false =>
      use t
      constructor
      · simp only [insertHashTable, ← hidef, Heap.read_some hhead, ok_bind, hkey, false_and,
          if_false, hlast, Bool.not_false, if_true]
        rfl
      · apply h
  | true =>
      use t₁.set l.addr ⟨l.key, l.tvSec, some t.limit,
        nodeLayout.last none (bucketHead i (A i).used :: init)⟩
      constructor
      · simp only [insertHashTable, ← hidef, Heap.read_some hhead, ok_bind, hkey, false_and,
          if_false, hlast, Bool.not_true, Bool.false_eq_true, if_true]
        rw [Heap.read_some hl₁, ok_bind, Heap.write_some _ hl₁]
        rfl
      · have hnodup := h.list_nodup hi
        rw [hlist, List.map_append, List.nodup_append] at hnodup
        have hne : ∀ e ∈ (A i).list i, e.addr ≠ t.limit :=
          fun e he => Nat.ne_of_lt (h.lt_limit hi he)
        apply h.addNode hidef.symm
        · have hlist' : Bucket.list i ⟨true, (A i).entries ++ [⟨t.limit, key, now⟩]⟩
              = (bucketHead i (A i).used :: init) ++ [l, ⟨t.limit, key, now⟩] := by
            rw [Bucket.list, hinit, hused]
            simp
          have hseg := h.seg i hi
          rw [hlist] at hseg
          rw [hlist']
          apply hseg.snoc
          · intro e he
            have hel : e.addr ≠ l.addr := by
              rintro heq
              apply hnodup.2.2 e.addr (List.mem_map_of_mem he) l.addr (by simp) heq
            apply Eq.trans (Heap.set_cells_of_ne _ hel)
            apply Heap.alloc_cells_of_ne
            apply hne
            rw [hlist]
            apply List.mem_append_left _ he
          · apply Heap.set_cells_self _ hl₁
          · apply Eq.trans (Heap.set_cells_of_ne _ (Nat.ne_of_gt hlt))
            apply Heap.alloc_cells_limit
        · simp [t₁]
        · intro a ha hnot
          apply Eq.trans (Heap.set_cells_of_ne _ (hnot l (by rw [hlist]; simp)))
          apply Heap.alloc_cells_of_ne _ (Nat.ne_of_lt ha)

/-- A bucket whose nodes have all been deleted: the insertion follows the null pointer in
its head. -/
theorem Lies.insert_emptied (h : t.Lies A) (key : UInt32) (malloc : Bool) (now : ℤ)
    (hused : (A (hashAtom key)).used = true) (hentries : (A (hashAtom key)).entries = []) :
  insertHashTable t key malloc now = .error .null
  := by
  have hhead := h.head_cell (hashAtom_lt key)
  rw [hused, hentries] at hhead
  have hkey : (0 : UInt32) ≠ -1 := by decide
  simp [insertHashTable, Heap.read_some hhead, bucketHead, Heap.toLast, hkey]

/-- An insertion that returns puts the new node, if there is one, behind the nodes of its
bucket. -/
theorem Lies.insert_ok (h : t.Lies A) {key : UInt32} {malloc : Bool} {now r : ℤ}
    (hok : insertHashTable t key malloc now = .ok (r, t')) :
  r = (if malloc then ccENone else ccEErr) ∧
    t'.Lies (Function.update A (hashAtom key) ⟨true,
      (A (hashAtom key)).entries ++ if malloc then [⟨t.limit, key, now⟩] else []⟩)
  := by
  cases hused : (A (hashAtom key)).used with
  | false =>
      obtain ⟨t₁, hok₁, hlies⟩ := h.insert_unused key malloc now hused
      rw [hok₁] at hok
      cases hok
      rw [h.unused _ (hashAtom_lt key) hused, List.nil_append]
      exact ⟨rfl, hlies⟩
  | true =>
      by_cases hentries : (A (hashAtom key)).entries = []
      · rw [h.insert_emptied key malloc now hused hentries] at hok
        cases hok
      · obtain ⟨t₁, hok₁, hlies⟩ := h.insert_behind key malloc now hused hentries
        rw [hok₁] at hok
        cases hok
        use rfl
        cases malloc with
        | false =>
            have hsame : Function.update A (hashAtom key) ⟨true, (A (hashAtom key)).entries⟩
                = A := by
              rw [← hused]
              apply Function.update_eq_self
            simp only [Bool.false_eq_true, if_false, List.append_nil, hsame]
            exact hlies
        | true => exact hlies

/-! ### Deleting -/

/-- Taking the node `e` out of its bucket: the cell before it links past it, the cell after
it, if any, links back to the one before, and its own cell is not looked at again. -/
theorem Lies.unlink (h : t.Lies A) {i : ℕ} (hi : i < maxLen) {xs ys : List Entry} {e : Entry}
    (hentries : (A i).entries = xs ++ e :: ys) {init : List Entry} {l : Entry}
    (hinit : bucketHead i (A i).used :: xs = init ++ [l])
    (hl : t'.cells l.addr = some (nodeLayout.cell l (nodeLayout.head ys none)
      (nodeLayout.last none init)))
    (hy : ∀ y zs, ys = y :: zs →
      t'.cells y.addr = some (nodeLayout.cell y (nodeLayout.head zs none) (some l.addr)))
    (hother : ∀ a, a ≠ l.addr → a ≠ e.addr → (∀ y zs, ys = y :: zs → a ≠ y.addr) →
      t'.cells a = t.cells a)
    (hlimit : t'.limit = t.limit) :
  t'.Lies (Function.update A i ⟨(A i).used, xs ++ ys⟩)
  := by
  have hlist : (A i).list i = init ++ l :: e :: ys := by
    rw [Bucket.list, hentries, ← List.cons_append, hinit]
    simp
  have hlist' : Bucket.list i ⟨(A i).used, xs ++ ys⟩ = init ++ l :: ys := by
    rw [Bucket.list, ← List.cons_append, hinit]
    simp
  have hnodup := h.list_nodup hi
  rw [hlist] at hnodup
  simp only [List.map_append, List.map_cons, List.nodup_append, List.nodup_cons, List.mem_cons,
    not_or, List.mem_map, not_exists, not_and] at hnodup
  obtain ⟨-, ⟨⟨hle, hlys⟩, heys, hys⟩, hinitne⟩ := hnodup
  have hsub : ∀ x ∈ xs ++ ys, x ∈ (A i).entries := by
    intro x hx
    rw [hentries]
    simp only [List.mem_append, List.mem_cons] at hx ⊢
    tauto
  have hseg := h.seg i hi
  rw [hlist] at hseg
  apply h.update hi
  · rw [hlist']
    apply hseg.unlink
    · intro x hx
      have hxne := hinitne x.addr ⟨x, hx, rfl⟩
      apply hother
      · apply hxne _ (.inl rfl)
      · apply hxne _ (.inr (.inl rfl))
      · rintro y zs rfl
        apply hxne
        exact .inr (.inr ⟨y, List.mem_cons_self, rfl⟩)
    · apply hl
    · rw [Layout.seg_append] at hseg
      apply hseg.2.2.2.relink hy
      rintro y zs rfl z hz
      have hzy := (List.nodup_cons.mp hys).1
      apply hother
      · apply hlys z (List.mem_cons_of_mem _ hz)
      · apply heys z (List.mem_cons_of_mem _ hz)
      · rintro y' zs' heq
        obtain ⟨rfl, -⟩ := List.cons.inj heq
        rintro heqz
        apply hzy
        rw [← heqz]
        apply List.mem_map_of_mem hz
  · intro hused
    have hnil := h.unused i hi hused
    rw [hentries] at hnil
    simp at hnil
  · intro x hx
    apply h.placed i hi x (hsub x hx)
  · intro x hx
    apply h.above i hi x (hsub x hx)
  · have hn := h.nodup i hi
    rw [hentries] at hn
    apply List.Nodup.sublist _ hn
    apply List.Sublist.map
    apply List.Sublist.append_left (List.sublist_cons_self e ys)
  · exact Nat.le_of_eq hlimit.symm
  · intro a _ hnot
    apply hother a
    · apply hnot l
      rw [hlist]
      simp
    · apply hnot e
      rw [hlist]
      simp
    · rintro y zs rfl
      apply hnot y
      rw [hlist]
      simp

/-- The cells that taking a node with a node after it out of its bucket goes through. -/
theorem Lies.unlink_middle (h : t.Lies A) {i : ℕ} (hi : i < maxLen) {xs zs : List Entry}
    {e y : Entry} (hentries : (A i).entries = xs ++ e :: y :: zs) :
  ∃ (l : Entry) (p q : Option ℕ) (t₁ t₂ : HashTable),
    t.cells e.addr = some ⟨e.key, e.tvSec, some y.addr, some l.addr⟩ ∧
    t.cells l.addr = some ⟨l.key, l.tvSec, some e.addr, p⟩ ∧
    t₁ = t.set l.addr ⟨l.key, l.tvSec, some y.addr, p⟩ ∧
    t₁.cells e.addr = some ⟨e.key, e.tvSec, some y.addr, some l.addr⟩ ∧
    t₁.cells y.addr = some ⟨y.key, y.tvSec, q, some e.addr⟩ ∧
    t₂ = t₁.set y.addr ⟨y.key, y.tvSec, q, some l.addr⟩ ∧
    t₂.cells e.addr = some ⟨e.key, e.tvSec, some y.addr, some l.addr⟩ ∧
    HashTable.Lies (t₂.erase e.addr) (Function.update A i ⟨(A i).used, xs ++ y :: zs⟩)
  := by
  obtain ⟨init, l, hinit⟩ :=
    (List.eq_nil_or_concat (bucketHead i (A i).used :: xs)).resolve_left (by simp)
  rw [List.concat_eq_append] at hinit
  have hlist : (A i).list i = init ++ l :: e :: y :: zs := by
    rw [Bucket.list, hentries, ← List.cons_append, hinit]
    simp
  have hl := h.cell hi _ hlist
  have he := h.cell hi (init ++ [l]) (hlist.trans (List.append_cons init l (e :: y :: zs)))
  have hy := h.cell hi (init ++ [l, e]) (hlist.trans (List.append_assoc init [l, e] (y :: zs)).symm)
  rw [Layout.last_concat, nodeLayout_addr] at he
  have hnodup := h.list_nodup hi
  rw [hlist] at hnodup
  simp only [List.map_append, List.map_cons, List.nodup_append, List.nodup_cons, List.mem_cons,
    not_or] at hnodup
  obtain ⟨-, ⟨⟨hle, hly, -⟩, ⟨hey, -⟩, -⟩, -⟩ := hnodup
  let t₁ := t.set l.addr ⟨l.key, l.tvSec, some y.addr, nodeLayout.last none init⟩
  have he₁ : t₁.cells e.addr = some ⟨e.key, e.tvSec, some y.addr, some l.addr⟩ := by
    rw [Heap.set_cells_of_ne _ (Ne.symm hle), he]
    rfl
  have hy₁ : t₁.cells y.addr
      = some ⟨y.key, y.tvSec, nodeLayout.head zs none, some e.addr⟩ := by
    rw [Heap.set_cells_of_ne _ (Ne.symm hly), hy]
    simp [Layout.last_append]
  let t₂ := t₁.set y.addr ⟨y.key, y.tvSec, nodeLayout.head zs none, some l.addr⟩
  have he₂ : t₂.cells e.addr = some ⟨e.key, e.tvSec, some y.addr, some l.addr⟩ := by
    rw [Heap.set_cells_of_ne _ hey, he₁]
  use l, nodeLayout.last none init, nodeLayout.head zs none, t₁, t₂
  use he, hl, rfl, he₁, hy₁, rfl, he₂
  apply h.unlink hi hentries hinit
  · apply Eq.trans (Heap.erase_cells_of_ne hle)
    apply Eq.trans (Heap.set_cells_of_ne _ hly)
    apply Heap.set_cells_self _ hl
  · intro y' zs' hys
    obtain ⟨rfl, rfl⟩ := List.cons.inj hys
    apply Eq.trans (Heap.erase_cells_of_ne (Ne.symm hey))
    apply Heap.set_cells_self _ hy₁
  · intro a hal hae hay
    apply Eq.trans (Heap.erase_cells_of_ne hae)
    apply Eq.trans (Heap.set_cells_of_ne _ (hay y zs rfl))
    apply Heap.set_cells_of_ne _ hal
  · rfl

/-- Deleting a node with a node after it takes it out of its bucket, and deleting by key, if
this is the node that is found, comes to the same table. -/
theorem Lies.delete_middle (h : t.Lies A) {i : ℕ} (hi : i < maxLen) {xs zs : List Entry}
    {e y : Entry} (hentries : (A i).entries = xs ++ e :: y :: zs) :
  ∃ t', hashDeleteByNode t (some e.addr) = .ok (ccENone, t') ∧
    (∀ key, hashSearch t key = .ok (ccENone, some e.addr) →
      hashDeleteByKey t key = .ok (ccENone, t')) ∧
    t'.Lies (Function.update A i ⟨(A i).used, xs ++ y :: zs⟩) ∧ t'.cells e.addr = none
  := by
  obtain ⟨l, p, q, t₁, t₂, he, hl, ht₁, he₁, hy₁, ht₂, he₂, hlies⟩ :=
    h.unlink_middle hi hentries
  use t₂.erase e.addr
  refine ⟨?_, fun key hsearch => ?_, hlies, Heap.erase_cells_self t₂ e.addr⟩
  · simp only [hashDeleteByNode, reduceCtorEq, if_false, Heap.read_some he, ok_bind,
      Heap.read_some hl, Heap.write_some _ hl]
    rw [← ht₁, Heap.read_some he₁, ok_bind, Heap.read_some hy₁, ok_bind,
      Heap.write_some _ hy₁, ok_bind, ← ht₂, Heap.free_some he₂]
    rfl
  · have hcodes : ccENone ≠ ccEErr := by decide
    simp only [hashDeleteByKey, hsearch, ok_bind, hcodes, reduceCtorEq, or_self, if_false,
      Heap.read_some he, Heap.read_some hl, Heap.write_some _ hl]
    rw [← ht₁, Heap.read_some hy₁, ok_bind, Heap.write_some _ hy₁, ok_bind, ← ht₂,
      Heap.free_some he₂]
    rfl

/-- Deleting the last node of a bucket takes it out; deleting by key only releases it. -/
theorem Lies.delete_last (h : t.Lies A) {i : ℕ} (hi : i < maxLen) {xs : List Entry} {e : Entry}
    (hentries : (A i).entries = xs ++ [e]) :
  ∃ t', hashDeleteByNode t (some e.addr) = .ok (ccENone, t') ∧
    (∀ key, hashSearch t key = .ok (ccENone, some e.addr) →
      hashDeleteByKey t key = .ok (ccENone, t.erase e.addr)) ∧
    t'.Lies (Function.update A i ⟨(A i).used, xs⟩) ∧ t'.cells e.addr = none ∧
    t.erase e.addr ≠ t'
  := by
  obtain ⟨init, l, hinit⟩ :=
    (List.eq_nil_or_concat (bucketHead i (A i).used :: xs)).resolve_left (by simp)
  rw [List.concat_eq_append] at hinit
  have hlist : (A i).list i = init ++ [l, e] := by
    rw [Bucket.list, hentries, ← List.cons_append, hinit]
    simp
  have hl := h.cell hi _ hlist
  have he := h.cell hi (init ++ [l]) (hlist.trans (List.append_cons init l [e]))
  rw [Layout.last_concat, nodeLayout_addr] at he
  have hle : l.addr ≠ e.addr := by
    have hnodup := h.list_nodup hi
    rw [hlist, List.map_append, List.nodup_append] at hnodup
    simpa using hnodup.2.1
  let t₁ := t.set l.addr ⟨l.key, l.tvSec, none, nodeLayout.last none init⟩
  have he₁ : t₁.cells e.addr = some ⟨e.key, e.tvSec, none, some l.addr⟩ := by
    rw [Heap.set_cells_of_ne _ (Ne.symm hle), he]
    rfl
  have hl₁ : (t₁.erase e.addr).cells l.addr
      = some ⟨l.key, l.tvSec, none, nodeLayout.last none init⟩ := by
    apply Eq.trans (Heap.erase_cells_of_ne hle)
    apply Heap.set_cells_self _ hl
  have hlies : HashTable.Lies (t₁.erase e.addr)
      (Function.update A i ⟨(A i).used, xs ++ []⟩) := by
    apply h.unlink hi hentries hinit
    · exact hl₁
    · intro y zs hys
      cases hys
    · intro a hal hae _
      apply Eq.trans (Heap.erase_cells_of_ne hae)
      apply Heap.set_cells_of_ne _ hal
    · rfl
  rw [List.append_nil] at hlies
  use t₁.erase e.addr
  refine ⟨?_, fun key hsearch => ?_, hlies, Heap.erase_cells_self t₁ e.addr, fun heq => ?_⟩
  · simp only [hashDeleteByNode, reduceCtorEq, if_false, Heap.read_some he, ok_bind,
      Layout.head_nil, if_true, Heap.read_some hl, Heap.write_some _ hl]
    rw [Heap.free_some he₁]
    rfl
  · have hcodes : ccENone ≠ ccEErr := by decide
    simp only [hashDeleteByKey, hsearch, ok_bind, hcodes, reduceCtorEq, or_self, if_false,
      Heap.read_some he, Layout.head_nil, if_true, Heap.read_some hl]
    rw [Heap.free_some he]
    rfl
  · -- the node before still links to the one released
    have hl' : (t.erase e.addr).cells l.addr = t.cells l.addr := Heap.erase_cells_of_ne hle
    rw [heq, hl₁, hl] at hl'
    cases hl'

/-- Deleting a node takes it out of its bucket. -/
theorem Lies.deleteByNode (h : t.Lies A) {i : ℕ} (hi : i < maxLen) {xs ys : List Entry}
    {e : Entry} (hentries : (A i).entries = xs ++ e :: ys) :
  ∃ t', hashDeleteByNode t (some e.addr) = .ok (ccENone, t') ∧
    t'.Lies (Function.update A i ⟨(A i).used, xs ++ ys⟩)
  := by
  cases ys with
  | nil =>
      obtain ⟨t', hdelete, -, hlies, -⟩ := h.delete_last hi hentries
      rw [List.append_nil]
      exact ⟨t', hdelete, hlies⟩
  | cons y zs =>
      obtain ⟨t', hdelete, -, hlies, -⟩ := h.delete_middle hi hentries
      exact ⟨t', hdelete, hlies⟩

/-- Deleting by key the first node with the key takes it out of its bucket, when a node
comes after it. -/
theorem Lies.deleteByKey (h : t.Lies A) (key : UInt32) {xs zs : List Entry} {e y : Entry}
    (hentries : (A (hashAtom key)).entries = xs ++ e :: y :: zs)
    (hxs : ∀ x ∈ xs, x.key ≠ key) (he : e.key = key) :
  ∃ t', hashDeleteByKey t key = .ok (ccENone, t') ∧
    t'.Lies (Function.update A (hashAtom key) ⟨(A (hashAtom key)).used, xs ++ y :: zs⟩)
  := by
  have hfind : (A (hashAtom key)).entries.find? (fun e => key == e.key) = some e := by
    rw [hentries, List.find?_append, List.find?_eq_none.mpr, Option.none_or]
    · simp [he]
    · intro x hx
      simpa using (hxs x hx).symm
  have hsearch := h.search key
  rw [hfind] at hsearch
  obtain ⟨t', -, hdelete, hlies, -⟩ := h.delete_middle (hashAtom_lt key) hentries
  exact ⟨t', hdelete key hsearch, hlies⟩

/-- Deleting a key without a node fails and changes nothing. -/
theorem Lies.deleteByKey_not_found (h : t.Lies A) {key : UInt32}
    (hkey : ∀ e ∈ (A (hashAtom key)).entries, e.key ≠ key) :
  hashDeleteByKey t key = .ok (ccEErr, t)
  := by
  simp [hashDeleteByKey, h.search_isNone hkey]

end HashTable

/-! ### Runs -/

/-- The calls on a table. Deleting takes the node that a search has just found. -/
inductive HashCall where
  | insertHashTable (key : UInt32) (now : ℤ)
  | hashSearch (key : UInt32)
  | hashDeleteByNode (key : UInt32)

def hashStep (t : HashTable) : HashCall → Except Fault (ℤ × HashTable)
  | .insertHashTable key now => insertHashTable t key true now
  | .hashSearch key => do
    let (ret, _) ← hashSearch t key
    .ok (ret, t)
  | .hashDeleteByNode key => do
    let (_, find) ← hashSearch t key
    hashDeleteByNode t find

/-- The keys inserted and the keys deleted so far. -/
structure Tally where
  inserted : List UInt32
  deleted : List UInt32

/-- The key has been inserted more often than deleted. -/
def Tally.Has (T : Tally) (key : UInt32) : Prop :=
  T.deleted.count key < T.inserted.count key

instance (T : Tally) (key : UInt32) : Decidable (T.Has key) :=
  inferInstanceAs (Decidable (_ < _))

def tallyStep (T : Tally) : HashCall → ℤ × Tally
  | .insertHashTable key _ => (ccENone, { T with inserted := key :: T.inserted })
  | .hashSearch key => (if T.Has key then ccENone else ccEErr, T)
  | .hashDeleteByNode key =>
    if T.Has key then (ccENone, { T with deleted := key :: T.deleted }) else (ccEErr, T)

/-- Searching succeeds for exactly the keys inserted more often than deleted. -/
def Finds (t : HashTable) (T : Tally) : Prop :=
  ∀ key, (∃ a, hashSearch t key = .ok (ccENone, some a)) ↔ T.Has key

/-- The call does not insert into a bucket all of whose keys have been deleted. -/
def NotEmptied (T : Tally) : HashCall → Prop
  | .insertHashTable key _ =>
    (∃ k ∈ T.inserted, hashAtom k = hashAtom key) →
      ∃ k, hashAtom k = hashAtom key ∧ T.Has k
  | _ => True

namespace HashTable

/-- The keys of the nodes of the buckets are those inserted and not deleted, and the buckets
used are those of the keys inserted. -/
structure Tallies (A : ℕ → Bucket) (T : Tally) : Prop where
  used : ∀ key, (A (hashAtom key)).used = true ↔ ∃ k ∈ T.inserted, hashAtom k = hashAtom key
  count : ∀ key, ((A (hashAtom key)).entries.map Entry.key).count key + T.deleted.count key
    = T.inserted.count key

variable {t t' : HashTable} {A : ℕ → Bucket} {T : Tally}

theorem tallies_init :
  Tallies (fun _ => ⟨false, []⟩) ⟨[], []⟩
  := by
  constructor
  · simp
  · simp

theorem Tallies.has_iff (hT : Tallies A T) (key : UInt32) :
  T.Has key ↔ ∃ e ∈ (A (hashAtom key)).entries, e.key = key
  := by
  have hcount := hT.count key
  have hpos : 0 < ((A (hashAtom key)).entries.map Entry.key).count key
      ↔ ∃ e ∈ (A (hashAtom key)).entries, e.key = key := by
    rw [List.count_pos_iff, List.mem_map]
  rw [← hpos, Tally.Has]
  omega

/-- Searching the table answers whether the tally has the key. -/
theorem Lies.search_tally (h : t.Lies A) (hT : Tallies A T) (key : UInt32) :
  (T.Has key → ∃ xs e ys, (A (hashAtom key)).entries = xs ++ e :: ys ∧ e.key = key ∧
      hashSearch t key = .ok (ccENone, some e.addr)) ∧
    (¬ T.Has key → hashSearch t key = .ok (ccEErr, none))
  := by
  rw [hT.has_iff key]
  rcases h.search_cases key with ⟨hsearch, hmissing⟩ | ⟨xs, e, ys, hsearch, hentries, -, hkey⟩
  · constructor
    · rintro ⟨e, he, hkey⟩
      exact absurd hkey (hmissing e he)
    · intro _
      exact hsearch
  · constructor
    · intro _
      exact ⟨xs, e, ys, hentries, hkey, hsearch⟩
    · intro hno
      apply absurd ⟨e, _, hkey⟩ hno
      rw [hentries]
      apply List.mem_append_right xs List.mem_cons_self

theorem Lies.finds (h : t.Lies A) (hT : Tallies A T) :
  Finds t T
  := by
  intro key
  obtain ⟨hfound, hmissed⟩ := h.search_tally hT key
  constructor
  · rintro ⟨a, ha⟩
    by_contra hno
    rw [hmissed hno] at ha
    simp at ha
  · intro hhas
    obtain ⟨xs, e, ys, -, -, hsearch⟩ := hfound hhas
    exact ⟨e.addr, hsearch⟩

/-- A node more in its bucket is one insertion more. -/
theorem Tallies.insert (hT : Tallies A T) (key : UInt32) {e : Entry} (he : e.key = key) :
  Tallies (Function.update A (hashAtom key) ⟨true, (A (hashAtom key)).entries ++ [e]⟩)
    { T with inserted := key :: T.inserted }
  := by
  constructor
  · intro k
    by_cases hk : hashAtom k = hashAtom key
    · simp [hk]
    · rw [Function.update_of_ne hk, hT.used k]
      simp [Ne.symm hk]
  · intro k
    have hcount := hT.count k
    by_cases hk : hashAtom k = hashAtom key
    · rw [hk] at hcount ⊢
      simp only [Function.update_self, List.map_append, List.map_cons, List.map_nil,
        List.count_append, List.count_cons, List.count_nil, he]
      omega
    · have hne : key ≠ k := by
        rintro rfl
        apply hk rfl
      rw [Function.update_of_ne hk, List.count_cons_of_ne hne]
      apply hcount

/-- A node less in its bucket is one deletion more. -/
theorem Tallies.delete (hT : Tallies A T) (key : UInt32) {xs ys : List Entry} {e : Entry}
    (hentries : (A (hashAtom key)).entries = xs ++ e :: ys) (he : e.key = key) :
  Tallies (Function.update A (hashAtom key) ⟨(A (hashAtom key)).used, xs ++ ys⟩)
    { T with deleted := key :: T.deleted }
  := by
  constructor
  · intro k
    by_cases hk : hashAtom k = hashAtom key
    · rw [hk, Function.update_self, hT.used key]
    · rw [Function.update_of_ne hk, hT.used k]
  · intro k
    have hcount := hT.count k
    by_cases hk : hashAtom k = hashAtom key
    · rw [hk, hentries] at hcount
      simp only [hk, Function.update_self, List.map_append, List.map_cons, List.count_append,
        List.count_cons, he] at hcount ⊢
      omega
    · have hne : key ≠ k := by
        rintro rfl
        apply hk rfl
      rw [Function.update_of_ne hk, List.count_cons_of_ne hne]
      apply hcount

end HashTable

open HashTable in
/-- A call that does not insert into an emptied bucket acts as on the tally. -/
theorem hashStep_good {t : HashTable} {T : Tally} (h : ∃ A, t.Lies A ∧ Tallies A T)
    (c : HashCall) (hc : NotEmptied T c) :
  ∃ t', hashStep t c = .ok ((tallyStep T c).1, t') ∧
    ∃ A, t'.Lies A ∧ Tallies A (tallyStep T c).2
  := by
  obtain ⟨A, hlies, hT⟩ := h
  cases c with
  | insertHashTable key now =>
      have hentry := hT.insert key (e := ⟨t.limit, key, now⟩) rfl
      cases hused : (A (hashAtom key)).used with
      | false =>
          obtain ⟨t', hok, hlies'⟩ := hlies.insert_unused key true now hused
          rw [hlies.unused _ (hashAtom_lt key) hused] at hentry
          exact ⟨t', hok, _, hlies', hentry⟩
      | true =>
          obtain ⟨k, hk, hhas⟩ := hc ((hT.used key).mp hused)
          obtain ⟨e, he, -⟩ := (hT.has_iff k).mp hhas
          rw [hk] at he
          obtain ⟨t', hok, hlies'⟩ :=
            hlies.insert_behind key true now hused (List.ne_nil_of_mem he)
          exact ⟨t', hok, _, hlies', hentry⟩
  | hashSearch key =>
      obtain ⟨hfound, hmissed⟩ := hlies.search_tally hT key
      use t
      by_cases hhas : T.Has key
      · obtain ⟨xs, e, ys, -, -, hsearch⟩ := hfound hhas
        simp only [hashStep, hsearch, tallyStep, hhas, if_true]
        exact ⟨rfl, A, hlies, hT⟩
      · simp only [hashStep, hmissed hhas, tallyStep, hhas, if_false]
        exact ⟨rfl, A, hlies, hT⟩
  | hashDeleteByNode key =>
      obtain ⟨hfound, hmissed⟩ := hlies.search_tally hT key
      by_cases hhas : T.Has key
      · obtain ⟨xs, e, ys, hentries, he, hsearch⟩ := hfound hhas
        obtain ⟨t', hok, hlies'⟩ := hlies.deleteByNode (hashAtom_lt key) hentries
        use t'
        simp only [hashStep, hsearch, tallyStep, hhas, if_true]
        exact ⟨hok, _, hlies', hT.delete key hentries he⟩
      · use t
        simp only [hashStep, hmissed hhas, tallyStep, hhas, if_false]
        exact ⟨rfl, A, hlies, hT⟩

open HashTable in
/-- Inserting into an emptied bucket follows a null pointer. -/
theorem hashStep_bad {t : HashTable} {T : Tally} (h : ∃ A, t.Lies A ∧ Tallies A T)
    (c : HashCall) (hc : ¬ NotEmptied T c) :
  hashStep t c = .error .null
  := by
  obtain ⟨A, hlies, hT⟩ := h
  cases c with
  | insertHashTable key now =>
      simp only [NotEmptied, Classical.not_imp, not_exists, not_and] at hc
      obtain ⟨hinserted, hdeleted⟩ := hc
      apply hlies.insert_emptied key true now ((hT.used key).mpr hinserted)
      apply List.eq_nil_iff_forall_not_mem.mpr
      intro e he
      have hatom := hlies.placed _ (hashAtom_lt key) e he
      apply hdeleted e.key hatom
      rw [hT.has_iff, hatom]
      exact ⟨e, he, rfl⟩
  | hashSearch key => exact absurd trivial hc
  | hashDeleteByNode key => exact absurd trivial hc

/-- A run of calls on a fresh table never stops and finds exactly the keys inserted more
often than deleted, exactly when no call inserts into a bucket all of whose keys have been
deleted. -/
theorem hashTable_conforms_iff (calls : List HashCall) :
  Machine.Conforms hashStep tallyStep Finds initHashTable ⟨[], []⟩ calls ↔
    Machine.Meets tallyStep NotEmptied ⟨[], []⟩ calls
  := by
  apply Machine.run_conforms_iff
    (R := fun t T => ∃ A, HashTable.Lies t A ∧ HashTable.Tallies A T)
  · rintro t T ⟨A, hlies, hT⟩
    apply hlies.finds hT
  · intro t T c h hc
    apply hashStep_good h c hc
  · intro t T c t' h hc hok
    rw [hashStep_bad h c hc] at hok
    cases hok
  · exact ⟨_, HashTable.lies_init, HashTable.tallies_init⟩

/-- After the only key of a bucket is deleted, inserting it again stops. -/
theorem hashTable_reinsert_null :
  ¬ Machine.Conforms hashStep tallyStep Finds initHashTable ⟨[], []⟩
    [.insertHashTable 0 0, .hashDeleteByNode 0, .insertHashTable 0 0]
  := by
  intro h
  obtain ⟨t, hrun, -⟩ := h [.insertHashTable 0 0, .hashDeleteByNode 0, .insertHashTable 0 0]
    (List.prefix_refl _)
  have hfault : Machine.run hashStep initHashTable
      [.insertHashTable 0 0, .hashDeleteByNode 0, .insertHashTable 0 0]
      = .error .null := rfl
  rw [hfault] at hrun
  cases hrun

end CcController
