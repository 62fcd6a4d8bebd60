import CcController.HashTable
import Mathlib.Algebra.BigOperators.Group.Finset.Piecewise
import Mathlib.Data.Int.Basic

/-!
# The xid table

The xid table registers the xids of the requests sent, together with the second each was
sent in, and counts them. A reply takes its xid out of the table when it arrives within
`ccXidTimeout` seconds.

A late reply only decrements the count and leaves the xid in the table, and deleting an xid
by its key releases the last node of a bucket without unlinking it. The table is right about
the xids awaited as long as neither happens (`xidTable_awaits`).
-/

namespace CcController

/-- `CC_XID_TIMEOUT` -/
abbrev ccXidTimeout : ℤ := 5

/-- The count is an `int`. -/
structure XidTable where
  hashTable : HashTable
  count : Int32

def ccXidAlloc (xidLatest : UInt32) : UInt32 :=
  xidLatest + 1

/-- The table when its two allocations succeed. -/
def ccInitXidTable : XidTable where
  hashTable := initHashTable
  count := 0

def ccSendReqXid (xidTable : XidTable) (xidPrev : UInt32) (malloc : Bool) (now : ℤ) :
    Except Fault (ℤ × XidTable) := do
  let xid := ccXidAlloc xidPrev
  let (ret, find) ← hashSearch xidTable.hashTable xid
  if ret ≠ ccEErr ∧ find ≠ none then
    .ok (ccEErr, xidTable)
  else
    let (ret, hashTable) ← insertHashTable xidTable.hashTable xid malloc now
    if ret = ccEErr then
      .ok (ccEErr, { xidTable with hashTable := hashTable })
    else
      .ok (ccENone, { hashTable := hashTable, count := xidTable.count + 1 })

def ccRecvReplyXid (xidTable : XidTable) (xid : UInt32) (now : ℤ) :
    Except Fault (ℤ × XidTable) := do
  let (ret, find) ← hashSearch xidTable.hashTable xid
  if ret = ccEErr ∧ find = none then
    .ok (ccEErr, xidTable)
  else
    let node ← xidTable.hashTable.read find
    let time := now - node.tvSec
    if time ≥ 0 ∧ time < ccXidTimeout then
      let (ret, hashTable) ← hashDeleteByNode xidTable.hashTable find
      if ret = ccEErr then
        .ok (ccEErr, { xidTable with hashTable := hashTable })
      else
        .ok (ccEUntimeout, { hashTable := hashTable, count := xidTable.count - 1 })
    else
      .ok (ccETimeout, { xidTable with count := xidTable.count - 1 })

def ccDeleteXid (xidTable : XidTable) (xid : UInt32) : Except Fault (ℤ × XidTable) := do
  let (ret, hashTable) ← hashDeleteByKey xidTable.hashTable xid
  if ret = ccEErr then
    .ok (ccEErr, { xidTable with hashTable := hashTable })
  else
    .ok (ccENone, { hashTable := hashTable, count := xidTable.count - 1 })

/-! ### The xids awaited -/

/-- The xids awaited, in the order of their registration, with the second of it. -/
abbrev Awaited := List (UInt32 × ℤ)

namespace Awaited

/-- The second the xid was registered in. -/
def since (w : Awaited) (xid : UInt32) : Option ℤ :=
  (w.find? (fun p => xid == p.1)).map Prod.snd

/-- The xid is awaited no more. -/
def drop (w : Awaited) (xid : UInt32) : Awaited :=
  w.filter (fun p => p.1 != xid)

/-- The xid is not awaited any more if the reply is timely. -/
def replied (w : Awaited) (xid : UInt32) (now : ℤ) : Awaited :=
  match w.since xid with
  | none => w
  | some tv => if now - tv ≥ 0 ∧ now - tv < ccXidTimeout then w.drop xid else w

/-- The xids of the bucket `i`. -/
def bucket (w : Awaited) (i : ℕ) : Awaited :=
  w.filter (fun p => hashAtom p.1 == i)

/-- The xid of the bucket `i` that was registered last. -/
def newest (w : Awaited) (i : ℕ) : Option UInt32 :=
  (w.bucket i).getLast?.map Prod.fst

end Awaited

/-- The calls on an xid table. -/
inductive XidCall where
  | ccSendReqXid (xidPrev : UInt32) (malloc : Bool) (now : ℤ)
  | ccRecvReplyXid (xid : UInt32) (now : ℤ)
  | ccDeleteXid (xid : UInt32)

def xidStep (t : XidTable) : XidCall → Except Fault (ℤ × XidTable)
  | .ccSendReqXid xidPrev malloc now => ccSendReqXid t xidPrev malloc now
  | .ccRecvReplyXid xid now => ccRecvReplyXid t xid now
  | .ccDeleteXid xid => ccDeleteXid t xid

/-- What a call should return and do to the xids awaited: a reply, timely or late, and a
deletion take the xid out. -/
def awaitStep (w : Awaited) : XidCall → ℤ × Awaited
  | .ccSendReqXid xidPrev malloc now =>
    if (w.since (ccXidAlloc xidPrev)).isSome ∨ malloc = false then (ccEErr, w)
    else (ccENone, w ++ [(ccXidAlloc xidPrev, now)])
  | .ccRecvReplyXid xid now =>
    match w.since xid with
    | none => (ccEErr, w)
    | some tv =>
      (if now - tv ≥ 0 ∧ now - tv < ccXidTimeout then ccEUntimeout else ccETimeout, w.drop xid)
  | .ccDeleteXid xid =>
    match w.since xid with
    | none => (ccEErr, w)
    | some _ => (ccENone, w.drop xid)

/-- The call is a reply that is not late, the deletion of an xid that is not the newest of
its bucket, or a registration that does not overflow the count. -/
def Regular (w : Awaited) : XidCall → Prop
  | .ccSendReqXid xidPrev malloc _ =>
    malloc = true → w.since (ccXidAlloc xidPrev) = none → w.length + 1 < 2 ^ 31
  | .ccRecvReplyXid xid now => ∀ tv, w.since xid = some tv → 0 ≤ now - tv ∧ now - tv < ccXidTimeout
  | .ccDeleteXid xid => w.newest (hashAtom xid) ≠ some xid

namespace Awaited

theorem mem_of_since {w : Awaited} {xid : UInt32} {tv : ℤ} (h : w.since xid = some tv) :
  (xid, tv) ∈ w
  := by
  obtain ⟨p, hp, rfl⟩ := Option.map_eq_some_iff.mp h
  have hkey := List.find?_some hp
  have hxid : xid = p.1 := by simpa using hkey
  rw [hxid]
  apply List.mem_of_find?_eq_some hp

theorem since_eq_none {w : Awaited} {xid : UInt32} :
  w.since xid = none ↔ xid ∉ w.map Prod.fst
  := by
  simp only [since, Option.map_eq_none_iff, List.find?_eq_none, List.mem_map, not_exists, not_and,
    beq_iff_eq]
  constructor
  · intro h p hp heq
    apply h p hp heq.symm
  · intro h p hp heq
    apply h p hp heq.symm

theorem since_drop (w : Awaited) (xid : UInt32) :
  (w.drop xid).since xid = none
  := by
  rw [since_eq_none]
  intro h
  obtain ⟨p, hp, rfl⟩ := List.mem_map.mp h
  have hne := (List.mem_filter.mp hp).2
  simp at hne

theorem since_drop_none {w : Awaited} {xid : UInt32} (h : w.since xid = none) (xid' : UInt32) :
  (w.drop xid').since xid = none
  := by
  rw [since_eq_none] at h ⊢
  intro hin
  apply h
  apply (List.filter_sublist.map Prod.fst).subset hin

theorem bucket_append (w v : Awaited) (i : ℕ) :
  Awaited.bucket (w ++ v) i = w.bucket i ++ v.bucket i
  := List.filter_append w v

theorem bucket_drop (w : Awaited) (xid : UInt32) (i : ℕ) :
  (w.drop xid).bucket i = (w.bucket i).drop xid
  := by
  simp only [drop, bucket, List.filter_filter]
  apply List.filter_congr
  intro p _
  apply Bool.and_comm

theorem drop_of_not_mem {w : Awaited} {xid : UInt32} (h : xid ∉ w.map Prod.fst) :
  w.drop xid = w
  := by
  apply List.filter_eq_self.mpr
  intro p hp
  have hne : p.1 ≠ xid := by
    rintro rfl
    apply h (List.mem_map_of_mem hp)
  simpa using hne

/-- An xid awaited once counts one. -/
theorem length_drop {w : Awaited} (hw : (w.map Prod.fst).Nodup) {xid : UInt32}
    (h : xid ∈ w.map Prod.fst) :
  (w.drop xid).length + 1 = w.length
  := by
  have hone := List.count_eq_one_of_mem hw h
  rw [List.count, List.countP_map] at hone
  rw [List.length_eq_countP_add_countP ((· == xid) ∘ Prod.fst) (l := w), hone, drop,
    ← List.countP_eq_length_filter, Nat.add_comm]
  congr 1
  apply List.countP_congr
  simp

/-- The buckets have the xids awaited. -/
theorem length_buckets (w : Awaited) :
  ∑ i ∈ Finset.range maxLen, (w.bucket i).length = w.length
  := by
  induction w with
  | nil => simp [bucket]
  | cons p w ih =>
      have hcons : ∀ i, (Awaited.bucket (p :: w) i).length
          = (if hashAtom p.1 = i then 1 else 0) + (bucket w i).length := by
        intro i
        simp only [bucket, List.filter_cons, beq_iff_eq]
        split
        · rw [List.length_cons, Nat.add_comm]
        · rw [Nat.zero_add]
      simp only [hcons, Finset.sum_add_distrib, ih, Finset.sum_ite_eq, Finset.mem_range,
        hashAtom_lt, if_true, List.length_cons]
      apply Nat.add_comm

end Awaited

/-- The nodes of the table `t` are the xids `w`, bucket by bucket. -/
structure XidTable.Enlists (t : XidTable) (w : Awaited) (A : ℕ → Bucket) : Prop where
  lies : t.hashTable.Lies A
  entries : ∀ i < maxLen, (A i).entries.map (fun e => (e.key, e.tvSec)) = w.bucket i
  nodup : (w.map Prod.fst).Nodup

/-- The nodes of the table `t` are the xids awaited `w`, and the count counts them. -/
structure XidTable.Awaits (t : XidTable) (w : Awaited) (A : ℕ → Bucket) : Prop
    extends t.Enlists w A where
  count : t.count.toInt = w.length

theorem toInt_add_one {n : Int32} (h : n.toInt + 1 < 2 ^ 31) :
  (n + 1).toInt = n.toInt + 1
  := by
  have hle := n.le_toInt
  rw [Int32.toInt_add, Int32.toInt_one]
  apply Int.bmod_eq_of_le <;> omega

theorem toInt_sub_one {n : Int32} (h : 0 < n.toInt) :
  (n - 1).toInt = n.toInt - 1
  := by
  have hlt := n.toInt_lt
  rw [Int32.toInt_sub, Int32.toInt_one]
  apply Int.bmod_eq_of_le <;> omega

namespace XidTable

variable {t u : XidTable} {w : Awaited} {A : ℕ → Bucket}

theorem enlists_init :
  ccInitXidTable.Enlists [] (fun _ => ⟨false, []⟩)
  := by
  constructor
  · apply HashTable.lies_init
  · intro _ _
    rfl
  · simp

theorem awaits_init :
  ccInitXidTable.Awaits [] (fun _ => ⟨false, []⟩)
  := ⟨enlists_init, rfl⟩

/-- The count is the number of nodes that can be reached. -/
theorem Awaits.nodes (h : t.Awaits w A) :
  ∃ nodes, t.hashTable.nodes = .ok nodes ∧ t.count.toInt = nodes.length
  := by
  refine ⟨_, h.lies.nodes, ?_⟩
  have hlen : ∀ i ∈ Finset.range maxLen, ((A i).entries.map Entry.addr).length
      = (w.bucket i).length := by
    intro i hi
    rw [← h.entries i (Finset.mem_range.mp hi), List.length_map, List.length_map]
  rw [h.count, List.length_flatMap, ← w.length_buckets, ← Finset.sum_congr rfl hlen]
  rfl

/-- An xid that is not awaited has no node. -/
theorem Enlists.key_ne (h : t.Enlists w A) {xid : UInt32} (hxid : w.since xid = none) :
  ∀ e ∈ (A (hashAtom xid)).entries, e.key ≠ xid
  := by
  intro e he heq
  apply Awaited.since_eq_none.mp hxid
  have hmem : (e.key, e.tvSec) ∈ w.bucket (hashAtom xid) := by
    rw [← h.entries _ (hashAtom_lt xid)]
    apply List.mem_map_of_mem he
  rw [← heq]
  apply List.mem_map_of_mem (f := Prod.fst) (List.mem_of_mem_filter hmem)

/-- Searching for an xid that is not awaited fails. -/
theorem Enlists.search_none (h : t.Enlists w A) {xid : UInt32} (hxid : w.since xid = none) :
  hashSearch t.hashTable xid = .ok (ccEErr, none)
  := h.lies.search_isNone (h.key_ne hxid)

/-- The keys of a bucket are different. -/
theorem Enlists.keys_nodup (h : t.Enlists w A) {i : ℕ} (hi : i < maxLen) :
  ((A i).entries.map Entry.key).Nodup
  := by
  have hnodup : ((w.bucket i).map Prod.fst).Nodup := by
    apply List.Nodup.sublist _ h.nodup
    apply List.Sublist.map _ List.filter_sublist
  rw [← h.entries i hi, List.map_map] at hnodup
  exact hnodup

/-- Searching for an xid awaited finds the only node with it. -/
theorem Enlists.search_some (h : t.Enlists w A) {xid : UInt32} {tv : ℤ}
    (hxid : w.since xid = some tv) :
  ∃ xs e ys, (A (hashAtom xid)).entries = xs ++ e :: ys ∧ e.key = xid ∧ e.tvSec = tv ∧
    (∀ x ∈ xs ++ ys, x.key ≠ xid) ∧ hashSearch t.hashTable xid = .ok (ccENone, some e.addr)
  := by
  have hmem : (xid, tv) ∈ w.bucket (hashAtom xid) := by
    apply List.mem_filter.mpr
    exact ⟨Awaited.mem_of_since hxid, by simp⟩
  rw [← h.entries _ (hashAtom_lt xid)] at hmem
  obtain ⟨e₀, he₀, heq⟩ := List.mem_map.mp hmem
  obtain ⟨hkey₀, htv⟩ := Prod.mk.inj heq
  have hnodup := h.keys_nodup (hashAtom_lt xid)
  rcases h.lies.search_cases xid with ⟨-, hmissing⟩ | ⟨xs, e, ys, hsearch, hsplit, -, hkey⟩
  · exact absurd hkey₀ (hmissing e₀ he₀)
  · have he : e ∈ (A (hashAtom xid)).entries := by
      rw [hsplit]
      apply List.mem_append_right xs List.mem_cons_self
    have hsame : e = e₀ := List.inj_on_of_nodup_map hnodup he he₀ (hkey.trans hkey₀.symm)
    refine ⟨xs, e, ys, hsplit, hkey, by rw [hsame, htv], ?_, hsearch⟩
    have hmiddle : (xs ++ e :: ys).Perm (e :: (xs ++ ys)) := List.perm_middle
    rw [hsplit] at hnodup
    have hcons := (hmiddle.map Entry.key).nodup_iff.mp hnodup
    rw [List.map_cons, List.nodup_cons, hkey] at hcons
    intro x hx heqx
    apply hcons.1
    rw [← heqx]
    apply List.mem_map_of_mem hx

/-- Taking the only node with an xid out of its bucket. -/
theorem Enlists.drop (h : t.Enlists w A) {xid : UInt32} {xs ys : List Entry} {e : Entry}
    (hentries : (A (hashAtom xid)).entries = xs ++ e :: ys) (he : e.key = xid)
    (hne : ∀ x ∈ xs ++ ys, x.key ≠ xid)
    (hlies : u.hashTable.Lies
      (Function.update A (hashAtom xid) ⟨(A (hashAtom xid)).used, xs ++ ys⟩)) :
  ∃ A', u.Enlists (w.drop xid) A'
  := by
  refine ⟨_, hlies, ?_, ?_⟩
  · intro i hi
    rw [Awaited.bucket_drop, ← h.entries i hi]
    by_cases hi' : i = hashAtom xid
    · subst hi'
      have hkeep : ∀ zs : List Entry, (∀ z ∈ zs, z.key ≠ xid) →
          Awaited.drop (zs.map (fun e => (e.key, e.tvSec))) xid
            = zs.map (fun e => (e.key, e.tvSec)) := by
        intro zs hzs
        apply Awaited.drop_of_not_mem
        rintro hz
        rw [List.map_map] at hz
        obtain ⟨z, hz, heq⟩ := List.mem_map.mp hz
        apply hzs z hz heq
      have hxs := hkeep xs (fun x hx => hne x (List.mem_append_left ys hx))
      have hys := hkeep ys (fun y hy => hne y (List.mem_append_right xs hy))
      rw [Function.update_self, hentries, List.map_append, List.map_append, List.map_cons]
      simp only [Awaited.drop, List.filter_append, List.filter_cons, he, bne_self_eq_false,
        Bool.false_eq_true, if_false] at hxs hys ⊢
      rw [hxs, hys]
    · rw [Function.update_of_ne hi', Awaited.drop_of_not_mem]
      rw [h.entries i hi]
      intro hin
      obtain ⟨p, hp, rfl⟩ := List.mem_map.mp hin
      have hp' := (List.mem_filter.mp hp).2
      simp only [beq_iff_eq] at hp'
      apply hi' hp'.symm
  · apply List.Nodup.sublist _ h.nodup
    apply List.Sublist.map _ List.filter_sublist

theorem Awaits.drop (h : t.Awaits w A) {xid : UInt32} {tv : ℤ} (hxid : w.since xid = some tv)
    (hu : ∃ A', u.Enlists (w.drop xid) A') (hcount : u.count = t.count - 1) :
  ∃ A', u.Awaits (w.drop xid) A'
  := by
  obtain ⟨A', h'⟩ := hu
  have hmem : xid ∈ w.map Prod.fst :=
    List.mem_map_of_mem (f := Prod.fst) (Awaited.mem_of_since hxid)
  have hlen := Awaited.length_drop h.nodup hmem
  have hcount' := h.count
  refine ⟨A', h', ?_⟩
  rw [hcount, toInt_sub_one (by omega)]
  omega

/-- A node more in its bucket, registered last. -/
theorem Enlists.register (h : t.Enlists w A) {xid : UInt32} (hxid : w.since xid = none)
    {a : ℕ} {now : ℤ}
    (hlies : u.hashTable.Lies (Function.update A (hashAtom xid)
      ⟨true, (A (hashAtom xid)).entries ++ [⟨a, xid, now⟩]⟩)) :
  ∃ A', u.Enlists (w ++ [(xid, now)]) A'
  := by
  refine ⟨_, hlies, ?_, ?_⟩
  · intro i hi
    have hentries := h.entries i hi
    rw [Awaited.bucket_append]
    by_cases hi' : i = hashAtom xid
    · subst hi'
      rw [Function.update_self, List.map_append, hentries]
      simp [Awaited.bucket]
    · rw [Function.update_of_ne hi', hentries]
      simp [Awaited.bucket, Ne.symm hi']
  · rw [List.map_append, List.nodup_append]
    refine ⟨h.nodup, by simp, ?_⟩
    rintro x hx y hy rfl
    obtain rfl : x = xid := by simpa using hy
    apply Awaited.since_eq_none.mp hxid hx

/-- Only the head of a bucket changes. -/
theorem Enlists.rehead (h : t.Enlists w A) {i : ℕ}
    (hlies : u.hashTable.Lies (Function.update A i ⟨true, (A i).entries⟩)) :
  ∃ A', u.Enlists w A'
  := by
  refine ⟨_, hlies, ?_, h.nodup⟩
  intro j hj
  have hentries := h.entries j hj
  by_cases hj' : j = i
  · subst hj'
    rw [Function.update_self, hentries]
  · rw [Function.update_of_ne hj', hentries]

/-- Inserting an xid, when it returns, registers it or fails. -/
theorem Enlists.insert (h : t.Enlists w A) {xid : UInt32} (hxid : w.since xid = none)
    {malloc : Bool} {now r : ℤ} {hashTable : HashTable}
    (hok : insertHashTable t.hashTable xid malloc now = .ok (r, hashTable)) (count : Int32) :
  r = (if malloc then ccENone else ccEErr) ∧
    ∃ A', XidTable.Enlists ⟨hashTable, count⟩ (if malloc then w ++ [(xid, now)] else w) A'
  := by
  obtain ⟨hr, hlies⟩ := h.lies.insert_ok hok
  use hr
  cases malloc with
  | false =>
      rw [if_neg Bool.false_ne_true, List.append_nil] at hlies
      exact h.rehead (u := ⟨hashTable, count⟩) hlies
  | true => exact h.register (u := ⟨hashTable, count⟩) hxid hlies

end XidTable

/-! ### What a call does -/

section

variable {t t' : XidTable} {A : ℕ → Bucket}

/-- Registering an xid changes nothing, or the xid has no node and is inserted. -/
theorem ccSendReqXid_cases (h : t.hashTable.Lies A) {xidPrev : UInt32} {malloc : Bool} {now r : ℤ}
    (hok : ccSendReqXid t xidPrev malloc now = .ok (r, t')) :
  t' = t ∨
    (∀ e ∈ (A (hashAtom (ccXidAlloc xidPrev))).entries, e.key ≠ ccXidAlloc xidPrev) ∧
      ∃ ret, insertHashTable t.hashTable (ccXidAlloc xidPrev) malloc now
        = .ok (ret, t'.hashTable)
  := by
  rcases h.search_cases (ccXidAlloc xidPrev) with
    ⟨hsearch, hmissing⟩ | ⟨xs, e, ys, hsearch, -, -, -⟩
  · right
    use hmissing
    cases hinsert : insertHashTable t.hashTable (ccXidAlloc xidPrev) malloc now with
    | error f => simp [ccSendReqXid, hsearch, hinsert] at hok
    | ok inserted =>
        obtain ⟨ret, hashTable⟩ := inserted
        simp only [ccSendReqXid, hsearch, hinsert, ok_bind] at hok
        by_cases hret : ret = ccEErr
        · rw [if_pos hret] at hok
          cases hok
          exact ⟨ret, rfl⟩
        · rw [if_neg hret] at hok
          cases hok
          exact ⟨ret, rfl⟩
  · left
    have hsame : ccEErr = r ∧ t = t' := by simpa [ccSendReqXid, hsearch] using hok
    exact hsame.2.symm

/-- A reply is rejected if its xid has no node. A timely one deletes the node, another leaves
it. -/
theorem ccRecvReplyXid_cases (h : t.hashTable.Lies A) (xid : UInt32) (now : ℤ) :
  (hashSearch t.hashTable xid = .ok (ccEErr, none) ∧
      ccRecvReplyXid t xid now = .ok (ccEErr, t)) ∨
    ∃ xs e ys prev next, (A (hashAtom xid)).entries = xs ++ e :: ys ∧ e.key = xid ∧
      hashSearch t.hashTable xid = .ok (ccENone, some e.addr) ∧
      t.hashTable.read (some e.addr) = .ok ⟨e.key, e.tvSec, next, prev⟩ ∧
      if now - e.tvSec ≥ 0 ∧ now - e.tvSec < ccXidTimeout then
        ∃ hashTable, hashDeleteByNode t.hashTable (some e.addr) = .ok (ccENone, hashTable) ∧
          ccRecvReplyXid t xid now = .ok (ccEUntimeout, ⟨hashTable, t.count - 1⟩)
      else ccRecvReplyXid t xid now = .ok (ccETimeout, ⟨t.hashTable, t.count - 1⟩)
  := by
  have hi := hashAtom_lt xid
  rcases h.search_cases xid with ⟨hsearch, -⟩ | ⟨xs, e, ys, hsearch, hentries, -, hkey⟩
  · exact .inl ⟨hsearch, by simp [ccRecvReplyXid, hsearch]⟩
  · obtain ⟨next, prev, hcell⟩ := h.mem_cell hi (e := e) (by rw [hentries]; simp)
    refine .inr ⟨xs, e, ys, prev, next, hentries, hkey, hsearch, Heap.read_some hcell, ?_⟩
    have hfound : ¬ (ccENone = ccEErr ∧ some e.addr = none) := by simp
    split
    · next htime =>
        obtain ⟨hashTable, hdelete, -⟩ := h.deleteByNode hi hentries
        use hashTable, hdelete
        simp only [ccRecvReplyXid, hsearch, ok_bind, if_neg hfound, Heap.read_some hcell,
          if_pos htime, hdelete]
        rfl
    · next htime =>
        simp only [ccRecvReplyXid, hsearch, ok_bind, if_neg hfound, Heap.read_some hcell,
          if_neg htime]

end

section

variable {t t' : XidTable} {w : Awaited} {A : ℕ → Bucket} {r : ℤ}

/-- Registering an xid, when it returns, adds it to the xids of the table unless it is one of
them or there is no memory. -/
theorem ccSendReqXid_enlists (h : t.Enlists w A) {xidPrev : UInt32} {malloc : Bool} {now : ℤ}
    (hok : ccSendReqXid t xidPrev malloc now = .ok (r, t')) :
  r = (awaitStep w (.ccSendReqXid xidPrev malloc now)).1 ∧
    t'.count = (if r = ccENone then t.count + 1 else t.count) ∧
    ∃ A', t'.Enlists (awaitStep w (.ccSendReqXid xidPrev malloc now)).2 A'
  := by
  rw [ccSendReqXid] at hok
  cases hsince : w.since (ccXidAlloc xidPrev) with
  | some tv =>
      obtain ⟨_, e, _, _, _, _, _, hsearch⟩ := h.search_some hsince
      simp only [hsearch, ok_bind] at hok
      cases hok
      simp only [awaitStep, hsince, Option.isSome_some, true_or, if_true]
      exact ⟨trivial, rfl, A, h⟩
  | none =>
      have hnot : ¬ (ccEErr ≠ ccEErr ∧ (none : Option ℕ) ≠ none) := by simp
      simp only [h.search_none hsince, ok_bind, hnot, if_false] at hok
      cases hins : insertHashTable t.hashTable (ccXidAlloc xidPrev) malloc now with
      | error f => simp [hins] at hok
      | ok p =>
          obtain ⟨r', hashTable⟩ := p
          obtain ⟨rfl, A', h'⟩ :=
            h.insert hsince hins (if malloc then t.count + 1 else t.count)
          rw [hins] at hok
          cases malloc with
          | false =>
              cases hok
              simp only [awaitStep, or_true, if_true]
              exact ⟨trivial, rfl, A', h'⟩
          | true =>
              cases hok
              simp only [awaitStep, hsince, Option.isSome_none, Bool.false_eq_true,
                reduceCtorEq, or_self, if_false]
              exact ⟨trivial, rfl, A', h'⟩

theorem ccSendReqXid_regular (h : t.Awaits w A) {xidPrev : UInt32} {malloc : Bool} {now : ℤ}
    (hc : Regular w (.ccSendReqXid xidPrev malloc now))
    (hok : ccSendReqXid t xidPrev malloc now = .ok (r, t')) :
  r = (awaitStep w (.ccSendReqXid xidPrev malloc now)).1 ∧
    ∃ A, t'.Awaits (awaitStep w (.ccSendReqXid xidPrev malloc now)).2 A
  := by
  obtain ⟨hr, hcount, A', h'⟩ := ccSendReqXid_enlists h.toEnlists hok
  refine ⟨hr, A', h', ?_⟩
  have hbefore := h.count
  rw [hcount, hr]
  simp only [awaitStep]
  split
  · exact hbefore
  · next hregisters =>
      obtain ⟨hsince, hmalloc⟩ := not_or.mp hregisters
      have hlt := hc (Bool.not_eq_false _ ▸ hmalloc) (by simpa using hsince)
      simp only [if_true]
      rw [toInt_add_one (by omega), List.length_append, hbefore]
      rfl

/-- A reply takes its xid out of the xids of the table, if it is timely. -/
theorem ccRecvReplyXid_enlists (h : t.Enlists w A) {xid : UInt32} {now : ℤ}
    (hok : ccRecvReplyXid t xid now = .ok (r, t')) :
  r = (awaitStep w (.ccRecvReplyXid xid now)).1 ∧
    t'.count = (if r = ccEErr then t.count else t.count - 1) ∧
    ∃ A', t'.Enlists (w.replied xid now) A'
  := by
  rw [ccRecvReplyXid] at hok
  cases hsince : w.since xid with
  | none =>
      simp only [h.search_none hsince, ok_bind] at hok
      cases hok
      simp only [awaitStep, Awaited.replied, hsince]
      exact ⟨trivial, rfl, A, h⟩
  | some tv =>
      obtain ⟨xs, e, ys, hentries, he, rfl, hne, hsearch⟩ := h.search_some hsince
      obtain ⟨next, prev, hcell⟩ := h.lies.mem_cell (hashAtom_lt xid) (e := e)
        (by rw [hentries]; simp)
      obtain ⟨hashTable, hdel, hlies⟩ := h.lies.deleteByNode (hashAtom_lt xid) hentries
      have hcode : ¬ (ccENone = ccEErr ∧ some e.addr = none) := by simp
      simp only [hsearch, ok_bind, hcode, if_false, Heap.read_some hcell, hdel] at hok
      simp only [awaitStep, Awaited.replied, hsince]
      split at hok
      · next htimely =>
          cases hok
          simp only [if_pos htimely]
          exact ⟨trivial, rfl, h.drop hentries he hne hlies⟩
      · next hlate =>
          cases hok
          simp only [if_neg hlate]
          exact ⟨trivial, rfl, A, h.lies, h.entries, h.nodup⟩

theorem ccRecvReplyXid_regular (h : t.Awaits w A) {xid : UInt32} {now : ℤ}
    (hc : Regular w (.ccRecvReplyXid xid now)) (hok : ccRecvReplyXid t xid now = .ok (r, t')) :
  r = (awaitStep w (.ccRecvReplyXid xid now)).1 ∧
    ∃ A, t'.Awaits (awaitStep w (.ccRecvReplyXid xid now)).2 A
  := by
  obtain ⟨hr, hcount, h'⟩ := ccRecvReplyXid_enlists h.toEnlists hok
  use hr
  cases hsince : w.since xid with
  | none =>
      simp only [awaitStep, Awaited.replied, hsince] at h' hr ⊢
      rw [hr] at hcount
      obtain ⟨A', h'⟩ := h'
      exact ⟨A', h', hcount ▸ h.count⟩
  | some tv =>
      have htimely : now - tv ≥ 0 ∧ now - tv < ccXidTimeout := hc tv hsince
      simp only [awaitStep, Awaited.replied, hsince, if_pos htimely] at h' hr ⊢
      rw [hr] at hcount
      exact h.drop hsince h' hcount

theorem ccDeleteXid_regular (h : t.Awaits w A) {xid : UInt32} (hc : Regular w (.ccDeleteXid xid))
    (hok : ccDeleteXid t xid = .ok (r, t')) :
  r = (awaitStep w (.ccDeleteXid xid)).1 ∧ ∃ A, t'.Awaits (awaitStep w (.ccDeleteXid xid)).2 A
  := by
  rw [ccDeleteXid] at hok
  cases hsince : w.since xid with
  | none =>
      simp only [h.lies.deleteByKey_not_found (h.key_ne hsince), ok_bind, if_true] at hok
      cases hok
      simp only [awaitStep, hsince]
      exact ⟨trivial, A, h⟩
  | some tv =>
      obtain ⟨xs, e, ys, hentries, he, htv, hne, hsearch⟩ := h.search_some hsince
      cases ys with
      | nil =>
          -- the node of the xid would be the last of its bucket
          apply absurd _ hc
          rw [Awaited.newest, ← h.entries _ (hashAtom_lt xid), hentries]
          simp [he]
      | cons y zs =>
          obtain ⟨hashTable, hdel, hlies⟩ := h.lies.deleteByKey xid hentries
            (fun x hx => hne x (List.mem_append_left _ hx)) he
          have hcode : ccENone ≠ ccEErr := by decide
          simp only [hdel, ok_bind, hcode, if_false] at hok
          cases hok
          simp only [awaitStep, hsince]
          exact ⟨trivial, h.drop hsince (h.toEnlists.drop hentries he hne hlies) rfl⟩

/-- A regular call that returns answers and changes the table as it should. -/
theorem xidStep_regular (h : ∃ A, t.Awaits w A) {c : XidCall} (hc : Regular w c)
    (hok : xidStep t c = .ok (r, t')) :
  r = (awaitStep w c).1 ∧ ∃ A, t'.Awaits (awaitStep w c).2 A
  := by
  obtain ⟨A, h⟩ := h
  cases c with
  | ccSendReqXid xidPrev malloc now => apply ccSendReqXid_regular h hc hok
  | ccRecvReplyXid xid now => apply ccRecvReplyXid_regular h hc hok
  | ccDeleteXid xid => apply ccDeleteXid_regular h hc hok

end

/-! ### Runs -/

/-- The call asks for `xid` to be registered. -/
def XidCall.Sends (xid : UInt32) (c : XidCall) : Prop :=
  ∃ xidPrev malloc now, c = .ccSendReqXid xidPrev malloc now ∧ ccXidAlloc xidPrev = xid

/-- After the calls `calls` returned `os` and left the table `t`: the count is the number of
nodes that can be reached, and the last call fails if it is a reply for an xid that an
earlier call was a reply for and that no call between the two registered. -/
def XidTable.Matches (calls : List XidCall) (os : List ℤ) (t : XidTable) : Prop :=
  (∃ nodes, t.hashTable.nodes = .ok nodes ∧ t.count.toInt = nodes.length) ∧
  ∀ pre mid xid now now',
    calls = pre ++ .ccRecvReplyXid xid now :: (mid ++ [.ccRecvReplyXid xid now']) →
    (∀ c ∈ mid.zip (os.drop (pre.length + 1)), c.1.Sends xid → c.2 ≠ ccENone) →
    os.getLast? = some ccEErr

/-- An xid that is not awaited is not awaited after a call that does not register it. -/
theorem awaitStep_since_none {w : Awaited} {xid : UInt32} (h : w.since xid = none)
    {c : XidCall} (hc : c.Sends xid → (awaitStep w c).1 ≠ ccENone) :
  (awaitStep w c).2.since xid = none
  := by
  cases c with
  | ccSendReqXid xidPrev malloc now =>
      simp only [awaitStep] at hc ⊢
      split
      · apply h
      · next hregister =>
          rw [if_neg hregister] at hc
          rw [Awaited.since_eq_none] at h ⊢
          rw [List.map_append, List.mem_append]
          rintro (hw | hnew)
          · apply h hw
          · apply hc _ rfl
            have heq : xid = ccXidAlloc xidPrev := by simpa using hnew
            exact ⟨xidPrev, malloc, now, rfl, heq.symm⟩
  | ccRecvReplyXid xid' now =>
      simp only [awaitStep]
      split
      · apply h
      · apply Awaited.since_drop_none h
  | ccDeleteXid xid' =>
      simp only [awaitStep]
      split
      · apply h
      · apply Awaited.since_drop_none h

theorem trace_since_none {w : Awaited} {xid : UInt32} (h : w.since xid = none)
    {calls : List XidCall}
    (hcalls : ∀ c ∈ calls.zip (Machine.trace awaitStep w calls).1, c.1.Sends xid →
      c.2 ≠ ccENone) :
  (Machine.trace awaitStep w calls).2.since xid = none
  := by
  induction calls generalizing w with
  | nil => apply h
  | cons c calls ih =>
      apply ih
      · apply awaitStep_since_none h
        apply hcalls (c, (awaitStep w c).1)
        simp [Machine.trace]
      · intro p hp
        apply hcalls p
        simp [Machine.trace, hp]

/-- After a reply its xid is not awaited. -/
theorem awaitStep_reply (w : Awaited) (xid : UInt32) (now : ℤ) :
  (awaitStep w (.ccRecvReplyXid xid now)).2.since xid = none
  := by
  simp only [awaitStep]
  split
  · next hnone => apply hnone
  · apply Awaited.since_drop

/-- In a run of regular calls that returns, the count is always the number of nodes that can
be reached, and every registration is matched by at most one reply. -/
theorem xidTable_matches {calls : List XidCall} (hcalls : Machine.Meets awaitStep Regular [] calls)
    {os : List ℤ} {t : XidTable} (hrun : Machine.run xidStep ccInitXidTable calls = .ok (os, t)) :
  t.Matches calls os
  := by
  have hstep : ∀ (t : XidTable) w c r t', (∃ A, t.Awaits w A) → Regular w c →
      xidStep t c = .ok (r, t') → r = (awaitStep w c).1 ∧ ∃ A, t'.Awaits (awaitStep w c).2 A :=
    fun _ _ _ _ _ h hc hok => xidStep_regular h hc hok
  obtain ⟨rfl, A, h⟩ := Machine.run_invariant hstep ⟨_, XidTable.awaits_init⟩ hcalls hrun
  use h.nodes
  rintro pre mid xid now now' rfl hmid
  set w := (Machine.trace awaitStep [] pre).2 with hw
  set w' := (awaitStep w (.ccRecvReplyXid xid now)).2 with hw'
  -- what the calls return: first `pre` and the reply, then `mid`, then the last reply
  have hos : (Machine.trace awaitStep []
        (pre ++ .ccRecvReplyXid xid now :: (mid ++ [.ccRecvReplyXid xid now']))).1
      = (Machine.trace awaitStep [] pre).1 ++ (awaitStep w (.ccRecvReplyXid xid now)).1 ::
        ((Machine.trace awaitStep w' mid).1 ++
          [(awaitStep (Machine.trace awaitStep w' mid).2 (.ccRecvReplyXid xid now')).1]) := by
    rw [Machine.trace_append, ← hw]
    simp only [Machine.trace, ← hw', Machine.trace_append]
  have hnone : (Machine.trace awaitStep w' mid).2.since xid = none := by
    apply trace_since_none (awaitStep_reply w xid now)
    intro c hc
    apply hmid c
    have hzip : (mid ++ []).zip ((Machine.trace awaitStep w' mid).1 ++
          [(awaitStep (Machine.trace awaitStep w' mid).2 (.ccRecvReplyXid xid now')).1])
        = mid.zip (Machine.trace awaitStep w' mid).1 ++ [] :=
      List.zip_append (Machine.length_trace _ _).symm
    rw [List.append_nil, List.append_nil] at hzip
    rw [hos, ← List.drop_drop, ← Machine.length_trace [] pre,
      List.drop_left, List.drop_succ_cons, List.drop_zero, hzip]
    apply hc
  rw [hos, ← List.cons_append, ← List.append_assoc, List.getLast?_concat]
  simp [awaitStep, hnone]

theorem xidTable_matches_once :
  ∃ t, Machine.run xidStep ccInitXidTable
      [.ccSendReqXid 0 true 0, .ccRecvReplyXid 1 4, .ccRecvReplyXid 1 4] = .ok ([0, 3, -1], t) ∧
    t.Matches [.ccSendReqXid 0 true 0, .ccRecvReplyXid 1 4, .ccRecvReplyXid 1 4] [0, 3, -1]
  := by
  obtain ⟨t, ht⟩ : ∃ t, Machine.run xidStep ccInitXidTable
      [.ccSendReqXid 0 true 0, .ccRecvReplyXid 1 4, .ccRecvReplyXid 1 4] = .ok ([0, 3, -1], t) :=
    ⟨_, rfl⟩
  use t, ht
  apply xidTable_matches _ ht
  simp only [Machine.meets_cons, Regular]
  refine ⟨fun _ _ => by decide, ?_, ?_, Machine.meets_nil⟩
  · intro tv hsince
    have htv : 0 = tv := Option.some.inj hsince
    subst htv
    decide
  · intro tv hsince
    have hnone : none = some tv := hsince
    cases hnone

/-- Late replies leave the xid registered and make the count negative. -/
theorem xidTable_late_replies :
  ∃ t, Machine.run xidStep ccInitXidTable
      [.ccSendReqXid 0 true 0, .ccRecvReplyXid 1 9, .ccRecvReplyXid 1 9] = .ok ([0, 2, 2], t) ∧
    ¬ t.Matches [.ccSendReqXid 0 true 0, .ccRecvReplyXid 1 9, .ccRecvReplyXid 1 9] [0, 2, 2]
  := by
  refine ⟨_, rfl, ?_⟩
  rintro ⟨⟨nodes, -, hcount⟩, -⟩
  have hneg : (-1 : ℤ) = nodes.length := hcount
  omega

/-! ### Registered xids -/

namespace XidTable

/-- The nodes of the table lie in its buckets. -/
def Sound (t : XidTable) : Prop :=
  ∃ A, t.hashTable.Lies A

/-- The xid is found in the table. -/
def Registered (t : XidTable) (xid : UInt32) : Prop :=
  ∃ node, hashSearch t.hashTable xid = .ok (ccENone, some node)

/-- The xid is found in the table, and was registered less than `ccXidTimeout` seconds ago. -/
def Timely (t : XidTable) (xid : UInt32) (now : ℤ) : Prop :=
  ∃ a node, hashSearch t.hashTable xid = .ok (ccENone, some a) ∧
    t.hashTable.read (some a) = .ok node ∧
    now - node.tvSec ≥ 0 ∧ now - node.tvSec < ccXidTimeout

theorem sound_init :
  ccInitXidTable.Sound
  := ⟨_, HashTable.lies_init⟩

theorem registered_iff {t : XidTable} {A : ℕ → Bucket} (h : t.hashTable.Lies A) {xid : UInt32} :
  t.Registered xid ↔ ∃ e ∈ (A (hashAtom xid)).entries, e.key = xid
  := by
  rcases h.search_cases xid with ⟨hsearch, hmissing⟩ | ⟨xs, e, ys, hsearch, hentries, -, hkey⟩
  · apply iff_of_false
    · rintro ⟨node, hnode⟩
      rw [hsearch] at hnode
      cases hnode
    · rintro ⟨e, he, hkey⟩
      exact hmissing e he hkey
  · apply iff_of_true ⟨e.addr, hsearch⟩
    use e
    refine ⟨?_, hkey⟩
    rw [hentries]
    apply List.mem_append_right xs List.mem_cons_self

theorem Enlists.registered_iff {t : XidTable} {w : Awaited} {A : ℕ → Bucket} (h : t.Enlists w A)
    {xid : UInt32} :
  t.Registered xid ↔ w.since xid ≠ none
  := by
  cases hsince : w.since xid with
  | none =>
      apply iff_of_false _ (by simp)
      rintro ⟨node, hnode⟩
      rw [h.search_none hsince] at hnode
      cases hnode
  | some tv =>
      obtain ⟨_, e, _, _, _, _, _, hsearch⟩ := h.search_some hsince
      exact iff_of_true ⟨e.addr, hsearch⟩ (by simp)

/-- Inserting a key, when it returns, loses no node. -/
theorem insert_registered {t t' : XidTable} (ht : t.Sound) {key : UInt32} {malloc : Bool}
    {now r : ℤ} (hok : insertHashTable t.hashTable key malloc now = .ok (r, t'.hashTable)) :
  t'.Sound ∧ ∀ xid, t.Registered xid → t'.Registered xid
  := by
  obtain ⟨A, h⟩ := ht
  have h' := (h.insert_ok hok).2
  use ⟨_, h'⟩
  intro xid hxid
  obtain ⟨e, he, hkey⟩ := (registered_iff h).mp hxid
  apply (registered_iff h').mpr
  use e
  refine ⟨?_, hkey⟩
  by_cases hi : hashAtom xid = hashAtom key
  · rw [hi] at he ⊢
    rw [Function.update_self]
    apply List.mem_append_left _ he
  · rw [Function.update_of_ne hi]
    exact he

/-- Registering an xid, when it returns, loses no other. -/
theorem ccSendReqXid_registered {t t' : XidTable} (ht : t.Sound) {xidPrev : UInt32}
    {malloc : Bool} {now : ℤ} {r : ℤ} (hok : ccSendReqXid t xidPrev malloc now = .ok (r, t')) :
  t'.Sound ∧ ∀ xid, t.Registered xid → t'.Registered xid
  := by
  obtain ⟨A, h⟩ := id ht
  rcases ccSendReqXid_cases h hok with rfl | ⟨-, ret, hinsert⟩
  · exact ⟨ht, fun _ h => h⟩
  · apply insert_registered ht hinsert

/-- A reply whose xid is not registered is rejected, and the table stays as it is. -/
theorem ccRecvReplyXid_unregistered {t : XidTable} (ht : t.Sound) {xid : UInt32}
    (hxid : ¬ t.Registered xid) (now : ℤ) :
  ccRecvReplyXid t xid now = .ok (ccEErr, t)
  := by
  obtain ⟨A, h⟩ := ht
  rcases ccRecvReplyXid_cases h xid now with ⟨-, hreply⟩ | ⟨_, e, _, _, _, -, -, hsearch, -⟩
  · exact hreply
  · exact absurd ⟨e.addr, hsearch⟩ hxid

/-- A reply with a registered xid is not rejected, whenever it comes; it takes away no xid
but its own, and that only when it is timely. A reply with another xid is rejected. -/
theorem ccRecvReplyXid_registered {t : XidTable} (ht : t.Sound) (xid : UInt32) (now : ℤ) :
  ∃ r t', ccRecvReplyXid t xid now = .ok (r, t') ∧ (¬ r < 0 ↔ t.Registered xid) ∧ t'.Sound ∧
    ∀ xid', (xid' = xid → ¬ t.Timely xid now) → t.Registered xid' → t'.Registered xid'
  := by
  obtain ⟨A, h⟩ := id ht
  have hi := hashAtom_lt xid
  rcases ccRecvReplyXid_cases h xid now with
    ⟨hsearch, hreply⟩ | ⟨xs, e, ys, prev, next, hentries, hkey, hsearch, hread, hreply⟩
  · have hnot : ¬ t.Registered xid := by
      rintro ⟨node, hnode⟩
      rw [hsearch] at hnode
      cases hnode
    exact ⟨ccEErr, t, hreply, by simp [hnot], ht, fun _ _ h => h⟩
  · have hyes : t.Registered xid := ⟨e.addr, hsearch⟩
    split at hreply
    · next htime =>
        obtain ⟨hashTable, hdelete, hreply⟩ := hreply
        obtain ⟨hashTable', hdelete', h'⟩ := h.deleteByNode hi hentries
        obtain rfl : hashTable = hashTable' := by
          rw [hdelete] at hdelete'
          exact (Prod.mk.inj (Except.ok.inj hdelete')).2
        refine ⟨_, _, hreply, by simp [hyes], ⟨_, h'⟩, ?_⟩
        intro xid' hlate hxid'
        have hne : xid' ≠ xid := by
          intro heq
          apply hlate heq
          exact ⟨e.addr, _, hsearch, hread, htime⟩
        obtain ⟨e', he', hkey'⟩ := (registered_iff h).mp hxid'
        apply (registered_iff (t := ⟨hashTable, t.count - 1⟩) h').mpr
        use e'
        refine ⟨?_, hkey'⟩
        by_cases hsame : hashAtom xid' = hashAtom xid
        · rw [hsame, hentries] at he'
          rw [hsame, Function.update_self]
          rcases List.mem_append.mp he' with hxs | hys
          · apply List.mem_append_left _ hxs
          · rcases List.mem_cons.mp hys with rfl | hys
            · exact absurd (hkey'.symm.trans hkey) hne
            · apply List.mem_append_right _ hys
        · rw [Function.update_of_ne hsame]
          exact he'
    · exact ⟨_, _, hreply, by simp [hyes], ⟨A, h⟩, fun _ _ h => h⟩

end XidTable

end CcController
