import CcController.Xid

/-!
# The chains of the xid table

Each bucket of the xid table is a chain of nodes, linked forth and back, behind the head of the
bucket; each node lies in the bucket of its key, and no xid has two nodes. Registering xids and
receiving replies keep the table so, whatever the xids and the clock (`xidTable_wellFormed`).
Deleting an xid by its key does not: it may release a node that is still linked.
-/

namespace CcController

namespace HashTable

/-- The cells at the addresses `as` are linked: each one links to the next, the last one nowhere,
and each one links back to the one before it, the first one to `p`. -/
def Linked (t : HashTable) : Option ℕ → List ℕ → Prop
  | _, [] => True
  | p, a :: as =>
    (∃ cell, t.cells a = some cell ∧ cell.next = as.head? ∧ cell.prev = p) ∧
      Linked t (some a) as

/-- The nodes of the bucket `i`, whose head lies at `i`, are those at the addresses `chain i`. -/
structure WellFormed (t : HashTable) (chain : ℕ → List ℕ) : Prop where
  linked : ∀ i < maxLen, t.Linked none (i :: chain i)
  acyclic : ∀ i < maxLen, (i :: chain i).Nodup
  placed : ∀ i < maxLen, ∀ a ∈ chain i, ∃ node, t.cells a = some node ∧ hashAtom node.key = i
  unique : ∀ i < maxLen, ∀ j < maxLen, ∀ a ∈ chain i, ∀ b ∈ chain j, ∀ node node',
    t.cells a = some node → t.cells b = some node' → node.key = node'.key → a = b

/-- No two nodes of a bucket have the same key. -/
def Distinct (A : ℕ → Bucket) : Prop :=
  ∀ i < maxLen, ((A i).entries.map Entry.key).Nodup

variable {t t' : HashTable} {A : ℕ → Bucket}

/-! ### Chains -/

theorem linked_of_seg {p : Option ℕ} {es : List Entry} (h : nodeLayout.Seg t.cells p es none) :
  t.Linked p (es.map Entry.addr)
  := by
  induction es generalizing p with
  | nil => trivial
  | cons e es ih =>
      obtain ⟨hcell, hrest⟩ := h
      refine ⟨⟨_, hcell, ?_, rfl⟩, ih hrest⟩
      cases es with
      | nil => rfl
      | cons e' es => rfl

/-- Buckets whose nodes have different keys are well formed. -/
theorem Lies.wellFormed (h : t.Lies A) (hA : Distinct A) :
  t.WellFormed (fun i => (A i).entries.map Entry.addr)
  := by
  constructor
  · intro i hi
    apply linked_of_seg (h.seg i hi)
  · intro i hi
    apply h.list_nodup hi
  · intro i hi a ha
    obtain ⟨e, he, rfl⟩ := List.mem_map.mp ha
    obtain ⟨next, prev, hcell⟩ := h.mem_cell hi he
    exact ⟨_, hcell, h.placed i hi e he⟩
  · intro i hi j hj a ha b hb node node' hnode hnode' hkey
    obtain ⟨e, he, rfl⟩ := List.mem_map.mp ha
    obtain ⟨e', he', rfl⟩ := List.mem_map.mp hb
    obtain ⟨next, prev, hcell⟩ := h.mem_cell hi he
    obtain ⟨next', prev', hcell'⟩ := h.mem_cell hj he'
    rw [hcell] at hnode
    rw [hcell'] at hnode'
    cases hnode
    cases hnode'
    change e.key = e'.key at hkey
    -- nodes with one key lie in one bucket
    obtain rfl : i = j := by rw [← h.placed i hi e he, ← h.placed j hj e' he', hkey]
    rw [List.inj_on_of_nodup_map (hA i hi) he he' hkey]

theorem distinct_init :
  Distinct (fun _ => ⟨false, []⟩)
  := by
  intro i _
  exact List.nodup_nil

theorem Distinct.update (hA : Distinct A) (i : ℕ) {b : Bucket}
    (hb : (b.entries.map Entry.key).Nodup) :
  Distinct (Function.update A i b)
  := by
  intro j hj
  by_cases hji : j = i
  · rw [hji, Function.update_self]
    exact hb
  · rw [Function.update_of_ne hji]
    apply hA j hj

/-- Inserting a key that has no node gives it at most one. -/
theorem Lies.insert_distinct (h : t.Lies A) (hA : Distinct A) {key : UInt32}
    (hkey : ∀ e ∈ (A (hashAtom key)).entries, e.key ≠ key) {malloc : Bool} {now r : ℤ}
    (hok : insertHashTable t key malloc now = .ok (r, t')) :
  ∃ A', t'.Lies A' ∧ Distinct A'
  := by
  refine ⟨_, (h.insert_ok hok).2, hA.update _ ?_⟩
  have hnodup := hA _ (hashAtom_lt key)
  cases malloc with
  | false => simpa using hnodup
  | true =>
      rw [if_pos rfl, List.map_append, List.nodup_append]
      refine ⟨hnodup, by simp, ?_⟩
      intro k hk k' hk'
      obtain ⟨e, he, rfl⟩ := List.mem_map.mp hk
      obtain rfl : k' = key := by simpa using hk'
      apply hkey e he

/-- Deleting a node leaves the other nodes with their keys. -/
theorem Lies.delete_distinct (h : t.Lies A) (hA : Distinct A) {i : ℕ} (hi : i < maxLen)
    {xs ys : List Entry} {e : Entry} (hentries : (A i).entries = xs ++ e :: ys) {r : ℤ}
    (hok : hashDeleteByNode t (some e.addr) = .ok (r, t')) :
  ∃ A', t'.Lies A' ∧ Distinct A'
  := by
  obtain ⟨t₁, hdelete, hlies⟩ := h.deleteByNode hi hentries
  rw [hdelete] at hok
  cases hok
  refine ⟨_, hlies, hA.update i ?_⟩
  have hnodup := hA i hi
  rw [hentries] at hnodup
  apply List.Nodup.sublist _ hnodup
  apply List.Sublist.map
  apply List.Sublist.append_left (List.sublist_cons_self e ys)

end HashTable

/-! ### Calls -/

namespace XidTable

variable {t t' : XidTable} {r : ℤ}

/-- The nodes of the table lie in its buckets, and their xids are different. -/
def Chained (t : XidTable) : Prop :=
  ∃ A, t.hashTable.Lies A ∧ HashTable.Distinct A

theorem ccSendReqXid_chained (ht : t.Chained) {xidPrev : UInt32} {malloc : Bool} {now : ℤ}
    (hok : ccSendReqXid t xidPrev malloc now = .ok (r, t')) :
  t'.Chained
  := by
  obtain ⟨A, h, hA⟩ := id ht
  rcases ccSendReqXid_cases h hok with rfl | ⟨hmissing, ret, hinsert⟩
  · exact ht
  · apply h.insert_distinct hA hmissing hinsert

theorem ccRecvReplyXid_chained (ht : t.Chained) {xid : UInt32} {now : ℤ}
    (hok : ccRecvReplyXid t xid now = .ok (r, t')) :
  t'.Chained
  := by
  obtain ⟨A, h, hA⟩ := id ht
  rcases ccRecvReplyXid_cases h xid now with
    ⟨-, hreply⟩ | ⟨xs, e, ys, _, _, hentries, -, -, -, hreply⟩
  · rw [hreply] at hok
    cases hok
    exact ht
  · split at hreply
    · obtain ⟨hashTable, hdelete, hreply⟩ := hreply
      rw [hreply] at hok
      cases hok
      apply h.delete_distinct hA (hashAtom_lt xid) hentries hdelete
    · rw [hreply] at hok
      cases hok
      exact ht

end XidTable

/-! ### Runs -/

/-- In every state that registrations and replies lead to, the table is well formed. -/
theorem xidTable_wellFormed {calls : List XidCall} (hcalls : ∀ xid, .ccDeleteXid xid ∉ calls)
    {os : List ℤ} {t : XidTable} (hrun : Machine.run xidStep ccInitXidTable calls = .ok (os, t)) :
  ∃ chain, t.hashTable.WellFormed chain
  := by
  have hdeletes : ∀ c ∈ calls, ∀ xid, c ≠ .ccDeleteXid xid := by
    rintro c hc xid rfl
    exact hcalls xid hc
  have hstep : ∀ (t : XidTable) c r t', t.Chained → (∀ xid, c ≠ .ccDeleteXid xid) →
      xidStep t c = .ok (r, t') → t'.Chained := by
    intro t c r t' ht hc hok
    cases c with
    | ccSendReqXid xidPrev malloc now => apply XidTable.ccSendReqXid_chained ht hok
    | ccRecvReplyXid xid now => apply XidTable.ccRecvReplyXid_chained ht hok
    | ccDeleteXid xid => exact absurd rfl (hc xid)
  obtain ⟨A, h, hA⟩ : t.Chained :=
    (Machine.throughout_of_forall hdeletes).run_invariant hstep
      ⟨_, HashTable.lies_init, HashTable.distinct_init⟩ hrun
  exact ⟨_, h.wellFormed hA⟩

/-- Two registrations, and a reply that comes late. -/
theorem xidTable_wellFormed_late :
  ∃ t, Machine.run xidStep ccInitXidTable
      [.ccSendReqXid 0 true 0, .ccSendReqXid 1 true 0, .ccRecvReplyXid 1 9] = .ok ([0, 0, 2], t) ∧
    ∃ chain, t.hashTable.WellFormed chain
  := by
  obtain ⟨t, ht⟩ : ∃ t, Machine.run xidStep ccInitXidTable
      [.ccSendReqXid 0 true 0, .ccSendReqXid 1 true 0, .ccRecvReplyXid 1 9]
        = .ok ([0, 0, 2], t) := ⟨_, rfl⟩
  exact ⟨t, ht, xidTable_wellFormed (by simp) ht⟩

end CcController
