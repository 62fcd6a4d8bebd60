import CcController.HashTable

/-!
# Deleting by key

Deleting a key should be the same as searching for it and deleting the node that is found.
`hashDeleteByKey` repeats the code of `hashDeleteByNode`, but where the node found is the last
of its bucket it compares the link of the node before with null and does not set it: the node
is released and stays linked. `hashDeleteByKey_iff` says that nothing else is wrong with it.
-/

namespace CcController

/-- Deleting the node that a search for the key finds. -/
def searchAndDelete (t : HashTable) (key : UInt32) : Except Fault (ℤ × HashTable) := do
  let (_, find) ← hashSearch t key
  hashDeleteByNode t find

theorem searchAndDelete_of_search {t : HashTable} {key : UInt32} {ret : ℤ} {find : Option ℕ}
    (h : hashSearch t key = .ok (ret, find)) :
  searchAndDelete t key = hashDeleteByNode t find
  := by
  rw [searchAndDelete, h]
  rfl

/-- The calls on a table, with deleting by key among them. -/
inductive TableCall where
  | insertHashTable (key : UInt32) (malloc : Bool) (now : ℤ)
  | hashSearch (key : UInt32)
  | hashDeleteByNode (key : UInt32)
  | hashDeleteByKey (key : UInt32)

def tableStep (t : HashTable) : TableCall → Except Fault (ℤ × HashTable)
  | .insertHashTable key malloc now => insertHashTable t key malloc now
  | .hashSearch key => do
    let (ret, _) ← hashSearch t key
    .ok (ret, t)
  | .hashDeleteByNode key => searchAndDelete t key
  | .hashDeleteByKey key => hashDeleteByKey t key

/-- The node that a search for the key finds has another behind it in its bucket. -/
def Followed (t : HashTable) (key : UInt32) : Prop :=
  ∀ a, hashSearch t key = .ok (ccENone, some a) →
    ∃ node next, t.cells a = some node ∧ node.next = some next

/-- A call that deletes by key does not delete the last node of a bucket. -/
def DeletesFollowed (t : HashTable) : TableCall → Prop
  | .hashDeleteByKey key => Followed t key
  | _ => True

/-- The node at `a` has been taken out of the table `t`, which has become `t'`: the others can
be reached as before, all buckets are linked in both directions, and nothing that has been
released can be reached. -/
structure TakenOut (t t' : HashTable) (a : ℕ) : Prop where
  nodes : ∃ before after, t.nodes = .ok (before ++ a :: after) ∧
    t'.nodes = .ok (before ++ after) ∧ a ∉ before ++ after ∧
    ∀ b ∈ before ++ after, (t'.cells b).isSome
  linked : ∃ A, t'.Lies A
  released : t'.cells a = none

/-- Deleting by key does what searching and deleting the node found does: exactly this node is
taken out, and if there is none the table does not change. -/
structure DeletesAsFound (t : HashTable) (key : UInt32) : Prop where
  same : hashDeleteByKey t key = searchAndDelete t key
  found : ∀ a, hashSearch t key = .ok (ccENone, some a) →
    ∃ t', hashDeleteByKey t key = .ok (ccENone, t') ∧ TakenOut t t' a
  missing : hashSearch t key = .ok (ccEErr, none) → hashDeleteByKey t key = .ok (ccEErr, t)

/-- Lists one behind the other, of which one changes. -/
theorem flatMap_split {α : Type} {l : List ℕ} (hl : l.Nodup) {i : ℕ} (hi : i ∈ l)
    (f : ℕ → List α) :
  ∃ before after, ∀ as, l.flatMap (Function.update f i as) = before ++ as ++ after
  := by
  obtain ⟨l₁, l₂, rfl⟩ := List.append_of_mem hi
  have hnodup := List.nodup_middle.mp hl
  rw [List.nodup_cons, List.mem_append, not_or] at hnodup
  have hother : ∀ l : List ℕ, i ∉ l → ∀ as, l.flatMap (Function.update f i as) = l.flatMap f := by
    intro l hmem as
    apply List.flatMap_congr
    intro j hj
    apply Function.update_of_ne
    rintro rfl
    exact hmem hj
  use l₁.flatMap f, l₂.flatMap f
  intro as
  rw [List.flatMap_append, List.flatMap_cons, Function.update_self, hother l₁ hnodup.1.1,
    hother l₂ hnodup.1.2, List.append_assoc]

namespace HashTable

variable {t t' : HashTable} {A : ℕ → Bucket}

theorem Lies.nodes_nodup (h : t.Lies A) :
  ((List.range maxLen).flatMap (fun i => (A i).entries.map Entry.addr)).Nodup
  := by
  rw [List.nodup_flatMap]
  constructor
  · intro i hi
    apply h.nodup i (List.mem_range.mp hi)
  · apply List.Nodup.pairwise_of_forall_ne List.nodup_range
    intro i hi j hj hij a hai haj
    obtain ⟨x, hx, rfl⟩ := List.mem_map.mp hai
    obtain ⟨y, hy, heq⟩ := List.mem_map.mp haj
    apply h.apart (List.mem_range.mp hi) (List.mem_range.mp hj) hij
      (List.mem_cons_of_mem _ hx) (List.mem_cons_of_mem _ hy) heq.symm

/-- A table from whose buckets one node is missing has lost this node and no other. -/
theorem Lies.takenOut (h : t.Lies A) {i : ℕ} (hi : i < maxLen) {xs ys : List Entry} {e : Entry}
    (hentries : (A i).entries = xs ++ e :: ys)
    (h' : t'.Lies (Function.update A i ⟨(A i).used, xs ++ ys⟩))
    (hreleased : t'.cells e.addr = none) :
  TakenOut t t' e.addr
  := by
  have hmap : ∀ b : Bucket, (fun j => (Function.update A i b j).entries.map Entry.addr)
      = Function.update (fun j => (A j).entries.map Entry.addr) i (b.entries.map Entry.addr) := by
    intro b
    funext j
    by_cases hj : j = i
    · rw [hj, Function.update_self, Function.update_self]
    · rw [Function.update_of_ne hj, Function.update_of_ne hj]
  obtain ⟨before, after, hsplit⟩ := flatMap_split List.nodup_range (List.mem_range.mpr hi)
    (fun j => (A j).entries.map Entry.addr)
  have hnodes := h.nodes
  have hnodup := h.nodes_nodup
  have hnodes' := h'.nodes
  rw [hmap, hsplit, List.map_append] at hnodes'
  rw [← Function.update_eq_self i (fun j => (A j).entries.map Entry.addr), hsplit, hentries,
    List.map_append, List.map_cons] at hnodes hnodup
  have heq : before ++ (xs.map Entry.addr ++ e.addr :: ys.map Entry.addr) ++ after
      = (before ++ xs.map Entry.addr) ++ e.addr :: (ys.map Entry.addr ++ after) := by simp
  have heq' : before ++ (xs.map Entry.addr ++ ys.map Entry.addr) ++ after
      = (before ++ xs.map Entry.addr) ++ (ys.map Entry.addr ++ after) := by simp
  rw [heq] at hnodes hnodup
  rw [heq'] at hnodes'
  refine ⟨⟨_, _, hnodes, hnodes', (List.nodup_cons.mp (List.nodup_middle.mp hnodup)).1, ?_⟩,
    ⟨_, h'⟩, hreleased⟩
  intro b hb
  have hmem : b ∈ (List.range maxLen).flatMap (fun j =>
      (Function.update A i ⟨(A i).used, xs ++ ys⟩ j).entries.map Entry.addr) := by
    rw [hmap, hsplit, List.map_append, heq']
    exact hb
  obtain ⟨j, hj, hbj⟩ := List.mem_flatMap.mp hmem
  obtain ⟨x, hx, rfl⟩ := List.mem_map.mp hbj
  obtain ⟨_, _, hcell⟩ := h'.mem_cell (List.mem_range.mp hj) hx
  rw [hcell]
  rfl

/-! ### One call -/

/-- Where nothing is found, deleting by key does nothing, as it should. -/
theorem Lies.deletesAsFound_missing (h : t.Lies A) {key : UInt32}
    (hmissing : ∀ e ∈ (A (hashAtom key)).entries, e.key ≠ key) :
  DeletesAsFound t key
  := by
  have hsearch := h.search_isNone hmissing
  have hdelete := h.deleteByKey_not_found hmissing
  refine ⟨?_, fun a ha => ?_, fun _ => hdelete⟩
  · rw [hdelete, searchAndDelete_of_search hsearch]
    rfl
  · rw [hsearch] at ha
    cases ha

/-- Deleting by key is right exactly if the node that is found is not the last of its
bucket. -/
theorem Lies.deletesAsFound_iff (h : t.Lies A) (key : UInt32) :
  DeletesAsFound t key ↔ Followed t key
  := by
  have hi := hashAtom_lt key
  rcases h.search_cases key with ⟨hsearch, hmissing⟩ | ⟨xs, e, ys, hsearch, hentries, -, -⟩
  · apply iff_of_true (h.deletesAsFound_missing hmissing)
    intro a ha
    rw [hsearch] at ha
    cases ha
  · have hnode : ∀ {find : Option ℕ}, hashSearch t key = .ok (ccENone, find) →
        find = some e.addr := by
      intro find hfind
      rw [hsearch] at hfind
      cases hfind
      rfl
    have hboth := searchAndDelete_of_search hsearch
    have hlist : (A (hashAtom key)).list (hashAtom key)
        = bucketHead (hashAtom key) (A (hashAtom key)).used :: xs ++ e :: ys := by
      rw [Bucket.list, hentries, List.cons_append]
    have hcell := h.cell hi _ hlist
    cases ys with
    | nil =>
        obtain ⟨t', hdelete, hbyKey, -, -, hne⟩ := h.delete_last hi hentries
        apply iff_of_false
        · intro hright
          have hsame := hright.same
          rw [hbyKey key hsearch, hboth, hdelete] at hsame
          apply hne (Prod.mk.inj (Except.ok.inj hsame)).2
        · intro hfollowed
          obtain ⟨node, next, hat, hnext⟩ := hfollowed e.addr hsearch
          rw [hcell] at hat
          cases hat
          cases hnext
    | cons y zs =>
        obtain ⟨t', hdelete, hbyKey, hlies, hreleased⟩ := h.delete_middle hi hentries
        apply iff_of_true
        · refine ⟨?_, fun a ha => ?_, fun hnone => ?_⟩
          · rw [hbyKey key hsearch, hboth, hdelete]
          · obtain rfl := Option.some.inj (hnode ha)
            exact ⟨t', hbyKey key hsearch, h.takenOut hi hentries hlies hreleased⟩
          · rw [hsearch] at hnone
            cases hnone
        · intro a ha
          obtain rfl := Option.some.inj (hnode ha)
          exact ⟨_, _, hcell, rfl⟩

/-- As long as no key is deleted whose node is the last of a bucket, the buckets lie in the
table. -/
theorem Lies.tableStep (h : ∃ A, t.Lies A) {call : TableCall} (hcall : DeletesFollowed t call)
    {ret : ℤ} (hstep : tableStep t call = .ok (ret, t')) :
  ∃ A, t'.Lies A
  := by
  obtain ⟨A, hlies⟩ := h
  have hdelete : ∀ {key : UInt32}, searchAndDelete t key = .ok (ret, t') → ∃ A, t'.Lies A := by
    intro key hdelete
    rcases hlies.search_cases key with ⟨hsearch, -⟩ | ⟨xs, e, ys, hsearch, hentries, -⟩
    · rw [searchAndDelete_of_search hsearch] at hdelete
      cases hdelete
      exact ⟨A, hlies⟩
    · obtain ⟨t'', hok, hlies'⟩ := hlies.deleteByNode (hashAtom_lt key) hentries
      rw [searchAndDelete_of_search hsearch, hok] at hdelete
      cases hdelete
      exact ⟨_, hlies'⟩
  cases call with
  | insertHashTable key malloc now =>
      exact ⟨_, (hlies.insert_ok hstep).2⟩
  | hashSearch key =>
      rw [CcController.tableStep, hlies.search key] at hstep
      cases hstep
      exact ⟨A, hlies⟩
  | hashDeleteByNode key => exact hdelete hstep
  | hashDeleteByKey key =>
      -- what has been followed is deleted as by node
      have hsame := ((hlies.deletesAsFound_iff key).mpr hcall).same
      apply hdelete
      rw [← hsame]
      exact hstep

end HashTable

/-! ### Runs -/

/-- In every table that a run of calls reaches from a fresh one, as long as no key has been
deleted whose node was the last of its bucket, deleting a key does what searching for it and
deleting the node found does exactly if that node is not the last of its bucket either. -/
theorem hashDeleteByKey_iff (calls : List TableCall) (rets : List ℤ) (t : HashTable)
    (hcalls : Machine.Throughout tableStep DeletesFollowed initHashTable calls)
    (hrun : Machine.run tableStep initHashTable calls = .ok (rets, t)) (key : UInt32) :
  DeletesAsFound t key ↔ Followed t key
  := by
  obtain ⟨A, hlies⟩ : ∃ A, t.Lies A :=
    hcalls.run_invariant (R := fun t => ∃ A, HashTable.Lies t A)
      (fun _ _ _ _ h hcall hstep => HashTable.Lies.tableStep h hcall hstep)
      ⟨_, HashTable.lies_init⟩ hrun
  apply hlies.deletesAsFound_iff

/-- Two keys of one bucket: the first of them is deleted right. -/
theorem hashDeleteByKey_first :
  ∃ rets t, Machine.run tableStep initHashTable
      [.insertHashTable 0 true 0, .insertHashTable 1 true 0] = .ok (rets, t) ∧
    (DeletesAsFound t 0 ↔ Followed t 0)
  := by
  refine ⟨_, _, rfl, hashDeleteByKey_iff [.insertHashTable 0 true 0, .insertHashTable 1 true 0]
    _ _ ?_ rfl 0⟩
  intro pre call hpre _ _ _
  have hcall := hpre.subset (List.mem_append_right pre (List.mem_singleton_self call))
  rcases List.mem_cons.mp hcall with rfl | hcall
  · trivial
  · obtain rfl := List.mem_singleton.mp hcall
    trivial

/-- The only key of a bucket: the node is released and stays linked. -/
theorem hashDeleteByKey_stale :
  ¬ ∀ (calls : List TableCall) (rets : List ℤ) (t : HashTable) (key : UInt32),
    Machine.run tableStep initHashTable calls = .ok (rets, t) → DeletesAsFound t key
  := by
  intro h
  have hsame := (h [.insertHashTable 0 true 0] _ _ 0 rfl).same
  have hlinks := congrArg (fun result : Except Fault (ℤ × HashTable) =>
    result.toOption.map (fun r => (r.2.cells 0).map HashTableNode.next)) hsame
  exact absurd hlinks (by decide)

end CcController
