import Mathlib.Data.List.Basic
import Mathlib.Data.List.Range

/-!
# Tables of descriptors

A table of descriptors says what each number is open on. There are `bound` numbers, and what is
opened is given the lowest one that is free. Opening and closing again leaves a table as it was
(`close_install`).
-/

/-- A table of descriptors open on things of `δ`. -/
@[ext]
structure Descriptors (δ : Type) where
  entry : ℕ → Option δ
  bound : ℕ
  closed : ∀ n, bound ≤ n → entry n = none

namespace Descriptors

variable {δ : Type} {d : Descriptors δ} {n k : ℕ} {f g : δ}

/-- The lowest number that is free, or `bound` if none is. -/
def lowest (d : Descriptors δ) : ℕ :=
  ((List.range d.bound).find? (fun n => (d.entry n).isNone)).getD d.bound

/-- Open `f` under the number `n`. -/
def install (d : Descriptors δ) (n : ℕ) (f : δ) (hn : n < d.bound) : Descriptors δ where
  entry := Function.update d.entry n (some f)
  bound := d.bound
  closed := fun k hk => by
    rw [Function.update_of_ne (by omega)]
    exact d.closed k hk

/-- Open `f` under the lowest number that is free. -/
def new (d : Descriptors δ) (f : δ) : Option (ℕ × Descriptors δ) :=
  if h : d.lowest < d.bound then some (d.lowest, d.install d.lowest f h) else none

def close (d : Descriptors δ) (n : ℕ) : Descriptors δ where
  entry := Function.update d.entry n none
  bound := d.bound
  closed := fun k hk => by
    by_cases hkn : k = n
    · rw [hkn, Function.update_self]
    · rw [Function.update_of_ne hkn]
      exact d.closed k hk

/-- Open under `k` what is open under `n`, if anything is and there is such a number. -/
def dup2 (d : Descriptors δ) (n k : ℕ) : Descriptors δ :=
  match d.entry n with
  | none => d
  | some f => if hk : k < d.bound then d.install k f hk else d

/-- Nothing is open. -/
def empty (bound : ℕ) : Descriptors δ where
  entry _ := none
  bound := bound
  closed _ _ := rfl

/-! ### What is open -/

@[simp]
theorem entry_install_self {hn : n < d.bound} :
  (d.install n f hn).entry n = some f
  := Function.update_self _ _ _

theorem entry_install_of_ne {hn : n < d.bound} (hk : k ≠ n) :
  (d.install n f hn).entry k = d.entry k
  := Function.update_of_ne hk _ _

@[simp]
theorem bound_install {hn : n < d.bound} :
  (d.install n f hn).bound = d.bound
  := rfl

@[simp]
theorem entry_close_self :
  (d.close n).entry n = none
  := Function.update_self _ _ _

theorem entry_close_of_ne (hk : k ≠ n) :
  (d.close n).entry k = d.entry k
  := Function.update_of_ne hk _ _

@[simp]
theorem bound_close :
  (d.close n).bound = d.bound
  := rfl

/-- What is open after closing was open. -/
theorem entry_of_close (h : (d.close n).entry k = some f) :
  k ≠ n ∧ d.entry k = some f
  := by
  by_cases hk : k = n
  · rw [hk, entry_close_self] at h
    cases h
  · rw [entry_close_of_ne hk] at h
    exact ⟨hk, h⟩

theorem entry_install (hn : n < d.bound) (h : (d.install n f hn).entry k = some g) :
  (k = n ∧ g = f) ∨ (k ≠ n ∧ d.entry k = some g)
  := by
  by_cases hk : k = n
  · rw [hk, entry_install_self] at h
    cases h
    exact .inl ⟨hk, rfl⟩
  · rw [entry_install_of_ne hk] at h
    exact .inr ⟨hk, h⟩

/-- What is open after `dup2` is what was, or is what it has made a second name of. -/
theorem entry_of_dup2 {m : ℕ} (h : (d.dup2 n k).entry m = some f) :
  (m = k ∧ d.entry n = some f ∧ k < d.bound) ∨
    (d.entry m = some f ∧ (m ≠ k ∨ d.bound ≤ k ∨ d.entry n = none))
  := by
  unfold dup2 at h
  cases hn : d.entry n with
  | none =>
      rw [hn] at h
      exact .inr ⟨h, .inr (.inr rfl)⟩
  | some g =>
      rw [hn] at h
      dsimp only at h
      by_cases hk : k < d.bound
      · rw [dif_pos hk] at h
        obtain ⟨hm, hg⟩ | ⟨hm, hold⟩ := entry_install hk h
        · exact .inl ⟨hm, by rw [hg], hk⟩
        · exact .inr ⟨hold, .inl hm⟩
      · rw [dif_neg hk] at h
        exact .inr ⟨h, .inr (.inl (not_lt.mp hk))⟩

/-- Opening under a number that is free and closing it again changes nothing. -/
theorem close_install {hn : n < d.bound} (hfree : d.entry n = none) :
  (d.install n f hn).close n = d
  := by
  apply Descriptors.ext
  · funext k
    by_cases hk : k = n
    · rw [hk, entry_close_self, hfree]
    · rw [entry_close_of_ne hk, entry_install_of_ne hk]
  · rfl

/-! ### The lowest number that is free -/

/-- The numbers below the lowest free one are taken, and it is free. -/
theorem lowest_spec :
  d.lowest ≤ d.bound ∧ d.entry d.lowest = none ∧ ∀ k, k < d.lowest → (d.entry k).isSome
  := by
  unfold lowest
  cases hfind : (List.range d.bound).find? (fun n => (d.entry n).isNone) with
  | none =>
      rw [List.find?_range_eq_none] at hfind
      refine ⟨le_refl _, d.closed _ (le_refl _), fun k hk => ?_⟩
      simpa [Option.isSome_iff_ne_none] using hfind k hk
  | some n =>
      rw [List.find?_range_eq_some] at hfind
      obtain ⟨hfree, hmem, hbelow⟩ := hfind
      refine ⟨(List.mem_range.mp hmem).le, by simpa using hfree, fun k hk => ?_⟩
      simpa [Option.isSome_iff_ne_none] using hbelow k hk

theorem lowest_le :
  d.lowest ≤ d.bound
  := lowest_spec.1

@[simp]
theorem entry_lowest :
  d.entry d.lowest = none
  := lowest_spec.2.1

theorem isSome_of_lt_lowest (hk : k < d.lowest) :
  (d.entry k).isSome
  := lowest_spec.2.2 k hk

theorem le_lowest_of (h : ∀ k, k < n → (d.entry k).isSome) :
  n ≤ d.lowest
  := by
  by_contra hlt
  have hopen := h d.lowest (not_le.mp hlt)
  rw [entry_lowest] at hopen
  cases hopen

theorem lowest_le_of_free (h : d.entry n = none) :
  d.lowest ≤ n
  := by
  by_contra hlt
  have hopen := isSome_of_lt_lowest (not_le.mp hlt)
  rw [h] at hopen
  cases hopen

theorem close_install_lowest (hn : d.lowest < d.bound) (f : δ) :
  (d.install d.lowest f hn).close d.lowest = d
  := close_install entry_lowest

/-! ### Opening -/

/-- What is opened is given the lowest free number. -/
theorem new_eq_some {d' : Descriptors δ} (h : d.new f = some (n, d')) :
  ∃ hn : n < d.bound, n = d.lowest ∧ d' = d.install n f hn
  := by
  unfold new at h
  by_cases hlt : d.lowest < d.bound
  · rw [dif_pos hlt] at h
    cases h
    exact ⟨hlt, rfl, rfl⟩
  · rw [dif_neg hlt] at h
    cases h

theorem new_of_lt (h : d.lowest < d.bound) :
  d.new f = some (d.lowest, d.install d.lowest f h)
  := dif_pos h

theorem new_eq_none :
  d.new f = none ↔ d.lowest = d.bound
  := by
  unfold new
  by_cases hlt : d.lowest < d.bound
  · simp [hlt, hlt.ne]
  · simp [le_antisymm lowest_le (not_lt.mp hlt)]

end Descriptors
