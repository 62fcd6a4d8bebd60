import Mathlib.Algebra.BigOperators.Group.List.Basic
import Mathlib.Data.Int.ModEq
import Mathlib.Data.Nat.ModEq
import Mathlib.Tactic.Ring

/-!
# Sums in ones' complement

A sum of `w`-bit words in ones' complement is formed with an end-around carry: what does not
fit into `w` bits is added to the `w` lower bits. This neither changes a number modulo
`2 ^ w - 1` nor makes a number zero that is not, and `w`-bit words that agree in both are equal.
So it makes no difference whether the carry is added after each addition or at the end, as long
as no carry is lost.
-/

namespace OnesComplement

/-- The lower `w` bits, and the carry added to them. -/
def endAround (w n : ℕ) : ℕ :=
  n % 2 ^ w + n / 2 ^ w

/-- The sum of words with the carry added after each addition. -/
def sum (w : ℕ) (words : List ℕ) : ℕ :=
  words.foldl (fun s word => endAround w (s + word)) 0

/-- Numbers that stand for the same sum: they agree modulo `2 ^ w - 1`, and in whether they are
zero. -/
structure Same (w a b : ℕ) : Prop where
  zero : a = 0 ↔ b = 0
  modEq : a ≡ b [MOD 2 ^ w - 1]

variable {w a b c : ℕ}

theorem Same.refl (w a : ℕ) :
  Same w a a
  := ⟨Iff.rfl, Nat.ModEq.refl a⟩

theorem Same.symm (h : Same w a b) :
  Same w b a
  := ⟨h.zero.symm, h.modEq.symm⟩

theorem Same.trans (h : Same w a b) (h' : Same w b c) :
  Same w a c
  := ⟨h.zero.trans h'.zero, h.modEq.trans h'.modEq⟩

theorem Same.add_right (h : Same w a b) (c : ℕ) :
  Same w (a + c) (b + c)
  := by
  constructor
  · rw [Nat.add_eq_zero_iff, Nat.add_eq_zero_iff, h.zero]
  · apply h.modEq.add_right

/-- Words that stand for the same sum are equal. -/
theorem Same.eq (h : Same w a b) (ha : a < 2 ^ w) (hb : b < 2 ^ w) :
  a = b
  := by
  have hmod := h.modEq
  rcases Nat.eq_zero_or_pos a with hzero | hpos
  · rw [hzero, h.zero.mp hzero]
  · have hpos' : 0 < b := by
      apply Nat.pos_of_ne_zero
      intro hzero
      have hazero := h.zero.mpr hzero
      omega
    -- both are at least `1`, so they lie in one range of residues
    have hpred : a - 1 ≡ b - 1 [MOD 2 ^ w - 1] := by
      apply Nat.ModEq.add_right_cancel' 1
      rw [Nat.sub_add_cancel hpos, Nat.sub_add_cancel hpos']
      exact hmod
    have heq := hpred.eq_of_lt_of_lt (by omega) (by omega)
    omega

theorem same_endAround (w n : ℕ) :
  Same w (endAround w n) n
  := by
  have hdiv := Nat.mod_add_div n (2 ^ w)
  have hpos : 0 < 2 ^ w := Nat.two_pow_pos w
  constructor
  · rw [endAround, Nat.add_eq_zero_iff]
    constructor
    · rintro ⟨hmod, hquot⟩
      rw [hmod, hquot] at hdiv
      omega
    · rintro rfl
      simp
  · have hone : 2 ^ w ≡ 1 [MOD 2 ^ w - 1] := by
      apply (Nat.modEq_iff_dvd' hpos).mpr (dvd_refl _) |>.symm
    have hcarry : 2 ^ w * (n / 2 ^ w) ≡ 1 * (n / 2 ^ w) [MOD 2 ^ w - 1] := hone.mul_right _
    rw [Nat.one_mul] at hcarry
    have hsum := (Nat.ModEq.refl (n := 2 ^ w - 1) (n % 2 ^ w)).add hcarry.symm
    rw [hdiv] at hsum
    exact hsum

/-- Adding the carry makes a number smaller that has one. -/
theorem endAround_lt (hw : 0 < w) {n : ℕ} (h : 2 ^ w ≤ n) :
  endAround w n < n
  := by
  have hdiv := Nat.mod_add_div n (2 ^ w)
  have hquot : 0 < n / 2 ^ w := Nat.div_pos h (Nat.two_pow_pos w)
  have htwo : 1 < 2 ^ w := Nat.one_lt_two_pow hw.ne'
  have hlt : 1 * (n / 2 ^ w) < 2 ^ w * (n / 2 ^ w) := Nat.mul_lt_mul_of_pos_right htwo hquot
  rw [endAround]
  omega

/-- The sum of two words and its carry fit into a word. -/
theorem endAround_add_lt (ha : a < 2 ^ w) (hb : b < 2 ^ w) :
  endAround w (a + b) < 2 ^ w
  := by
  rw [endAround]
  rcases Nat.lt_or_ge (a + b) (2 ^ w) with hlt | hge
  · rw [Nat.mod_eq_of_lt hlt, Nat.div_eq_of_lt hlt]
    omega
  · have hquot : (a + b) / 2 ^ w = 1 := by
      apply Nat.div_eq_of_lt_le
      · omega
      · omega
    rw [hquot, Nat.mod_eq_sub_mod hge, Nat.mod_eq_of_lt (by omega)]
    omega

/-- A sum in ones' complement is a word, which stands for the sum of the numbers. -/
theorem sum_spec {words : List ℕ} (h : ∀ word ∈ words, word < 2 ^ w) :
  sum w words < 2 ^ w ∧ Same w (sum w words) words.sum
  := by
  have hgeneral : ∀ s < 2 ^ w,
      words.foldl (fun s word => endAround w (s + word)) s < 2 ^ w ∧
        Same w (words.foldl (fun s word => endAround w (s + word)) s) (s + words.sum) := by
    induction words with
    | nil =>
        intro s hs
        exact ⟨hs, Same.refl w s⟩
    | cons word words ih =>
        intro s hs
        have hword := h word List.mem_cons_self
        obtain ⟨hlt, hsame⟩ := ih (fun x hx => h x (List.mem_cons_of_mem word hx))
          (endAround w (s + word)) (endAround_add_lt hs hword)
        use hlt
        apply hsame.trans
        rw [List.sum_cons, ← Nat.add_assoc]
        apply (same_endAround w (s + word)).add_right
  have hzero := hgeneral 0 (Nat.two_pow_pos w)
  rw [Nat.zero_add] at hzero
  exact hzero

end OnesComplement
