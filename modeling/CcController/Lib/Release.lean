import CcController.Lib.Heap
import Mathlib.Data.Set.Insert

/-!
# Releasing lists

A loop that releases a list takes the link out of each cell before it releases the cell
(`Layout.Seg.freeAll`).

A set of addresses covers a heap if whatever is allocated lies in it. As long as the lists that a
program can reach cover its heap nothing has been lost, and when they have all been released the
heap is empty.
-/

theorem bind_eq_ok {φ α β : Type} {x : Except φ α} {f : α → Except φ β} {b : β} :
  (x >>= f) = .ok b ↔ ∃ a, x = .ok a ∧ f a = .ok b
  := by
  cases x with
  | error e => simp
  | ok a => simp

namespace Heap

variable {ν : Type}

/-- Release the cells that the links `next` lead to from `p` on, and return what they contained. -/
def freeAll (next : ν → Option ℕ) : ℕ → Option ℕ → Heap ν → Except Fault (List ν × Heap ν)
  | 0, _, _ => .error .diverges
  | fuel + 1, p, h =>
    match p with
    | none => .ok ([], h)
    | some a => do
      let v ← h.read (some a)
      let h ← h.free (some a)
      let (vs, h) ← freeAll next fuel (next v) h
      .ok (v :: vs, h)

theorem write_limit {h h' : Heap ν} {p : Option ℕ} {v : ν} (hwrite : h.write p v = .ok h') :
  h'.limit = h.limit
  := by
  cases p with
  | none => cases hwrite
  | some a =>
      cases ha : h.cells a with
      | none => simp [Heap.write, ha] at hwrite
      | some w =>
          rw [write_some v ha] at hwrite
          cases hwrite
          rfl

/-- Whatever is allocated lies in `A`. -/
def CoveredBy (h : Heap ν) (A : Set ℕ) : Prop :=
  ∀ a, (h.cells a).isSome → a ∈ A

variable {h h' : Heap ν} {A B : Set ℕ}

theorem coveredBy_empty :
  (empty : Heap ν).CoveredBy ∅
  := by
  intro a ha
  cases ha

theorem CoveredBy.mono (hcovered : h.CoveredBy A) (hle : A ⊆ B) :
  h.CoveredBy B
  := fun a ha => hle (hcovered a ha)

theorem CoveredBy.alloc (hcovered : h.CoveredBy A) (v : ν) :
  (h.alloc v).CoveredBy (insert h.limit A)
  := by
  intro a ha
  by_cases hlimit : a = h.limit
  · exact .inl hlimit
  · rw [alloc_cells_of_ne v hlimit] at ha
    exact .inr (hcovered a ha)

theorem CoveredBy.write (hcovered : h.CoveredBy A) {p : Option ℕ} {v : ν}
    (hwrite : h.write p v = .ok h') :
  h'.CoveredBy A
  := by
  cases p with
  | none => cases hwrite
  | some b =>
      cases hb : h.cells b with
      | none => simp [Heap.write, hb] at hwrite
      | some w =>
          rw [write_some v hb] at hwrite
          cases hwrite
          intro a ha
          by_cases heq : a = b
          · rw [heq]
            exact hcovered b (by rw [hb]; rfl)
          · rw [set_cells_of_ne v heq] at ha
            exact hcovered a ha

theorem CoveredBy.erase (hcovered : h.CoveredBy A) (b : ℕ) :
  (h.erase b).CoveredBy (A \ {b})
  := by
  intro a ha
  by_cases heq : a = b
  · rw [heq, erase_cells_self] at ha
    cases ha
  · rw [erase_cells_of_ne heq] at ha
    exact ⟨hcovered a ha, heq⟩

theorem CoveredBy.free (hcovered : h.CoveredBy A) {b : ℕ} (hfree : h.free (some b) = .ok h') :
  h'.CoveredBy (A \ {b})
  := by
  cases hb : h.cells b with
  | none => simp [Heap.free, hb] at hfree
  | some v =>
      rw [free_some hb] at hfree
      cases hfree
      exact hcovered.erase b

theorem CoveredBy.cells_eq_none (hcovered : h.CoveredBy ∅) (a : ℕ) :
  h.cells a = none
  := by
  cases ha : h.cells a with
  | none => rfl
  | some v => exact absurd (hcovered a (by rw [ha]; rfl)) (Set.notMem_empty a)

end Heap

namespace Layout

variable {ε ν ρ : Type} {L : Layout ε ν} {h : Heap ν}

/-- The loop releases the entries of a list, each once, and nothing else. -/
theorem Seg.freeAll (next : ν → Option ℕ) (hnext : ∀ e q p, next (L.cell e q p) = q)
    (content : ν → ρ) (datum : ε → ρ) (hcontent : ∀ e q p, content (L.cell e q p) = datum e)
    {p : Option ℕ} {es : List ε} (hs : L.Seg h.cells p es none) (hnodup : (es.map L.addr).Nodup)
    (fuel : ℕ) (hfuel : es.length < fuel) :
  ∃ vs h', h.freeAll next fuel (L.head es none) = .ok (vs, h') ∧
    vs.map content = es.map datum ∧ h'.limit = h.limit ∧
    (∀ a ∈ es.map L.addr, h'.cells a = none) ∧
    (∀ a ∉ es.map L.addr, h'.cells a = h.cells a)
  := by
  induction es generalizing h p fuel with
  | nil =>
      obtain ⟨fuel, rfl⟩ := Nat.exists_eq_add_of_lt hfuel
      exact ⟨[], h, rfl, rfl, rfl, by simp, by simp⟩
  | cons e es ih =>
      obtain ⟨fuel, rfl⟩ := Nat.exists_eq_add_of_lt hfuel
      obtain ⟨he, hes⟩ := hs
      rw [List.map_cons, List.nodup_cons] at hnodup
      have hrest : L.Seg (h.erase (L.addr e)).cells (some (L.addr e)) es none := by
        apply hes.congr
        intro x hx
        apply Heap.erase_cells_of_ne
        intro heq
        exact hnodup.1 (heq ▸ List.mem_map_of_mem hx)
      obtain ⟨vs, h', hfree, hvs, hlimit, hreleased, hkept⟩ :=
        ih hrest hnodup.2 (es.length + 1 + fuel) (by omega)
      refine ⟨L.cell e (L.head es none) p :: vs, h', ?_, ?_, hlimit, ?_, ?_⟩
      · simp only [head_cons, List.length_cons, Heap.freeAll, Heap.read_some he,
          Heap.free_some he, ok_bind, hnext]
        rw [hfree]
        rfl
      · rw [List.map_cons, List.map_cons, hcontent, hvs]
      · intro a ha
        by_cases hin : a ∈ es.map L.addr
        · exact hreleased a hin
        · rw [List.map_cons, List.mem_cons] at ha
          rw [hkept a hin, ha.resolve_right hin, Heap.erase_cells_self]
      · intro a ha
        rw [List.map_cons, List.mem_cons, not_or] at ha
        rw [hkept a ha.2, Heap.erase_cells_of_ne ha.1]

end Layout
