import CcController.HostOrder
import CcController.Lib.OnesComplement

/-!
# The checksum

`get_checksum` adds the 16-bit words of some bytes in a `uint32_t`, and an odd byte at the end
as it is. Then it folds the carries until none is left, and complements. The sum is to be one in
ones' complement, with the odd byte followed by a zero byte.

When the words add up to `2 ^ 32` or more, the carries out of the `uint32_t` are lost; and on a
big-endian host an odd byte counts for too little. The checksum is right exactly when neither
happens, but for a few cases in which the one makes up for the other (`getChecksum_iff`).
-/

namespace CcController

/-! ### The loops -/

/-- What the loop over the words keeps: where it is, how many bytes are left, and the sum. -/
structure Summing where
  pos : ℕ
  size : UInt32
  csum : UInt32

def addWordRound (host : Host) (s : Summing) : MessageReader (Summing ⊕ Summing) :=
  if 2 ≤ s.size then do
    let word ← loadShort host s.pos
    return .inr ⟨s.pos + 2, s.size - 2, s.csum + word.toUInt32⟩
  else return .inl s

def addOddByte (s : Summing) : MessageReader UInt32 :=
  if s.size = 1 then do
    let byte ← Reader.read s.pos
    return s.csum + byte.toUInt32
  else return s.csum

def foldCarry (csum : UInt32) : UInt32 :=
  (csum &&& (0x0000ffff : UInt32)) + (csum >>> 16)

def foldRound (csum : UInt32) : MessageReader (UInt32 ⊕ UInt32) :=
  if (csum &&& (0xffff0000 : UInt32)) ≠ 0 then return .inr (foldCarry csum)
  else return .inl csum

def getChecksum (host : Host) (pos : ℕ) (size : UInt32) : MessageReader UInt16 := do
  let s ← Reader.loop (addWordRound host) ⟨pos, size, 0⟩
  let csum ← addOddByte s
  let csum ← Reader.loop foldRound csum
  return (~~~ csum).toUInt16

/-! ### What the checksum is to be -/

/-- The 16-bit words of the bytes, as the host reads them. An odd byte at the end is followed by a
zero byte. -/
def wordsOf (host : Host) : List UInt8 → List UInt16
  | [] => []
  | [byte] => [host.short [byte, 0] 0]
  | a :: b :: bytes => host.short [a, b] 0 :: wordsOf host bytes

/-- The complement of the sum of the words in ones' complement. -/
def onesChecksum (host : Host) (bytes : List UInt8) : UInt16 :=
  ~~~ UInt16.ofNat (OnesComplement.sum 16 ((wordsOf host bytes).map UInt16.toNat))

/-! ### What is added up -/

/-- What the words add up to when an odd byte counts as it is. -/
def plainSum (host : Host) : List UInt8 → ℕ
  | [] => 0
  | [byte] => byte.toNat
  | a :: b :: bytes => (host.short [a, b] 0).toNat + plainSum host bytes

/-- By how much an odd byte counts for too little: on a big-endian host it is the high byte of its
word. -/
def oddExcess (host : Host) : List UInt8 → ℕ
  | [] => 0
  | [byte] => if host.littleEndian then 0 else 255 * byte.toNat
  | _ :: _ :: bytes => oddExcess host bytes

section

variable {host : Host} {mem : Memory}

/-- A byte followed by a zero byte. -/
theorem short_odd (byte : UInt8) :
  (host.short [byte, 0] 0).toNat = byte.toNat + oddExcess host [byte]
  := by
  have hlt := byte.toNat_lt
  cases h : host.littleEndian with
  | true =>
      simp [Host.short, reorder, be16, oddExcess, h]
  | false =>
      simp [Host.short, reorder, be16, oddExcess, h]
      omega

theorem sum_wordsOf (host : Host) (bytes : List UInt8) :
  ((wordsOf host bytes).map UInt16.toNat).sum = plainSum host bytes + oddExcess host bytes
  := by
  induction bytes using wordsOf.induct with
  | case1 => rfl
  | case2 byte =>
      simp only [wordsOf, plainSum, List.map_cons, List.map_nil, List.sum_cons, List.sum_nil]
      apply short_odd
  | case3 a b bytes ih =>
      simp only [wordsOf, plainSum, oddExcess, List.map_cons, List.sum_cons, ih]
      omega

theorem plainSum_le (host : Host) (bytes : List UInt8) :
  2 * plainSum host bytes ≤ 65535 * bytes.length
  := by
  induction bytes using wordsOf.induct with
  | case1 => exact Nat.le_refl 0
  | case2 byte =>
      have hlt := byte.toNat_lt
      simp only [plainSum, List.length_cons, List.length_nil]
      omega
  | case3 a b bytes ih =>
      have hlt := (host.short [a, b] 0).toNat_lt
      simp only [plainSum, List.length_cons]
      omega

theorem oddExcess_le (host : Host) (bytes : List UInt8) :
  oddExcess host bytes ≤ 65025
  := by
  induction bytes using wordsOf.induct with
  | case1 => exact Nat.zero_le _
  | case2 byte =>
      have hlt := byte.toNat_lt
      rw [oddExcess]
      split
      · exact Nat.zero_le _
      · omega
  | case3 a b bytes ih => exact ih

/-! ### Adding up the words -/

/-- A round of the loop over the words adds the word it is at. -/
theorem round_addWordRound {s : Summing} (h : 2 ≤ s.size) :
  Reader.Round (addWordRound host) mem s
    ⟨s.pos + 2, s.size - 2,
      s.csum + UInt32.ofNat (host.short [mem s.pos, mem (s.pos + 1)] 0).toNat⟩
  := by
  have hword : (host.shortAt mem s.pos).toUInt32
      = UInt32.ofNat (host.short [mem s.pos, mem (s.pos + 1)] 0).toNat := by
    rw [← UInt32.toNat_inj]
    simp only [UInt16.toNat_toUInt32, UInt32.toNat_ofNat']
    symm
    apply Nat.mod_eq_of_lt
    have hlt := (host.short [mem s.pos, mem (s.pos + 1)] 0).toNat_lt
    omega
  simp [Reader.Round, addWordRound, h, hword]

/-- After the loop over the words at most one byte is left. -/
theorem addOddByte_returns {s : Summing} (h : s.size.toNat < 2) :
  (addOddByte s).Returns mem
    (s.csum + UInt32.ofNat (plainSum host (bytesAt mem s.pos s.size.toNat)))
  := by
  rcases Nat.eq_zero_or_pos s.size.toNat with hzero | hpos
  · have hne : s.size ≠ 1 := by
      intro heq
      rw [heq] at hzero
      cases hzero
    rw [hzero]
    simp [addOddByte, hne, bytesAt, plainSum]
  · have hone : s.size.toNat = 1 := by omega
    have heq : s.size = 1 := UInt32.toNat_inj.mp hone
    rw [hone]
    simp [addOddByte, heq, bytesAt, plainSum]

/-- The loop over the words and the odd byte add up the plain sum, modulo `2 ^ 32`. -/
theorem addWords_returns (host : Host) (mem : Memory) (s : Summing) :
  ∃ s', (Reader.loop (addWordRound host) s).Returns mem s' ∧
    (addOddByte s').Returns mem
      (s.csum + UInt32.ofNat (plainSum host (bytesAt mem s.pos s.size.toNat)))
  := by
  induction hn : s.size.toNat using Nat.strong_induction_on generalizing s with
  | h n ih =>
      subst hn
      by_cases h : 2 ≤ s.size
      · have htwo : 2 ≤ s.size.toNat := UInt32.le_iff_toNat_le.mp h
        have hsize : (s.size - 2).toNat = s.size.toNat - 2 := UInt32.toNat_sub_of_le _ _ h
        obtain ⟨k, hk⟩ : ∃ k, s.size.toNat = k + 2 := ⟨s.size.toNat - 2, by omega⟩
        obtain ⟨s', hreturns, hodd⟩ := ih k (by omega)
          ⟨s.pos + 2, s.size - 2,
            s.csum + UInt32.ofNat (host.short [mem s.pos, mem (s.pos + 1)] 0).toNat⟩
          (by rw [hsize, hk, Nat.add_sub_cancel])
        use s', Reader.returns_loop_of_round (round_addWordRound h) hreturns
        rw [hk, bytesAt_succ, bytesAt_succ, plainSum, UInt32.ofNat_add, ← UInt32.add_assoc]
        exact hodd
      · use s
        constructor
        · apply Reader.returns_loop_of_inl
          simp [addWordRound, h]
        · apply addOddByte_returns
          rw [UInt32.le_iff_toNat_le] at h
          exact Nat.lt_of_not_le h

/-! ### Folding the carries -/

theorem foldCarry_toNat (csum : UInt32) :
  (foldCarry csum).toNat = OnesComplement.endAround 16 csum.toNat
  := by
  have hlt := csum.toNat_lt
  have hand : csum.toNat &&& 65535 = csum.toNat % 2 ^ 16 := Nat.and_two_pow_sub_one_eq_mod _ 16
  simp [foldCarry, OnesComplement.endAround, Nat.shiftRight_eq_div_pow, hand]
  omega

/-- There is a carry to fold exactly when the sum is not a word. -/
theorem upper_eq_zero_iff (csum : UInt32) :
  (csum &&& (0xffff0000 : UInt32)) = 0 ↔ csum.toNat < 2 ^ 16
  := by
  have hlt := csum.toNat_lt
  have hnat : (csum &&& (0xffff0000 : UInt32)).toNat = csum.toNat &&& 0xffff0000 := by simp
  have hlower : (csum.toNat &&& 0xffff0000) % 2 ^ 16 = 0 := by
    rw [Nat.and_mod_two_pow]
    exact Nat.and_zero _
  have hupper : (csum.toNat &&& 0xffff0000) / 2 ^ 16 = csum.toNat / 2 ^ 16 := by
    calc
      (csum.toNat &&& 0xffff0000) / 2 ^ 16 = csum.toNat / 2 ^ 16 &&& 0xffff0000 / 2 ^ 16
          := Nat.and_div_two_pow
      _ = csum.toNat / 2 ^ 16 &&& 2 ^ 16 - 1 := by norm_num
      _ = csum.toNat / 2 ^ 16 := Nat.and_two_pow_sub_one_of_lt_two_pow (by omega)
  rw [← UInt32.toNat_inj, hnat, UInt32.toNat_zero]
  omega

/-- The loop that folds the carries ends with a word that stands for the same sum. -/
theorem foldLoop_returns (mem : Memory) (csum : UInt32) :
  ∃ c, (Reader.loop foldRound csum).Returns mem c ∧ c.toNat < 2 ^ 16 ∧
    OnesComplement.Same 16 c.toNat csum.toNat
  := by
  induction hn : csum.toNat using Nat.strong_induction_on generalizing csum with
  | h n ih =>
      subst hn
      rcases Nat.lt_or_ge csum.toNat (2 ^ 16) with hlt | hge
      · have hzero := (upper_eq_zero_iff csum).mpr hlt
        use csum
        refine ⟨?_, hlt, OnesComplement.Same.refl 16 _⟩
        apply Reader.returns_loop_of_inl
        simp [foldRound, hzero]
      · have hne : (csum &&& (0xffff0000 : UInt32)) ≠ 0 := by
          rw [Ne, upper_eq_zero_iff]
          omega
        have hround : Reader.Round foldRound mem csum (foldCarry csum) := by
          simp [Reader.Round, foldRound, hne]
        -- the sum gets smaller in every round
        have hsmaller : (foldCarry csum).toNat < csum.toNat := by
          rw [foldCarry_toNat]
          apply OnesComplement.endAround_lt (by decide) hge
        obtain ⟨c, hreturns, hc, hsame⟩ := ih _ hsmaller (foldCarry csum) rfl
        use c, Reader.returns_loop_of_round hround hreturns, hc
        apply hsame.trans
        rw [foldCarry_toNat]
        apply OnesComplement.same_endAround

/-! ### What is returned -/

/-- What is returned is the complement of a word that stands for what the accumulator has come
to. -/
theorem getChecksum_returns (host : Host) (mem : Memory) (pos : ℕ) (size : UInt32) :
  ∃ c, (getChecksum host pos size).Returns mem (~~~ UInt16.ofNat c) ∧ c < 2 ^ 16 ∧
    OnesComplement.Same 16 c (plainSum host (bytesAt mem pos size.toNat) % 2 ^ 32)
  := by
  obtain ⟨s, hwords, hodd⟩ := addWords_returns host mem ⟨pos, size, 0⟩
  obtain ⟨c, hfold, hlt, hsame⟩ := foldLoop_returns mem
    (0 + UInt32.ofNat (plainSum host (bytesAt mem pos size.toNat)))
  use c.toNat
  refine ⟨?_, hlt, ?_⟩
  · have hword : (~~~ c).toUInt16 = ~~~ UInt16.ofNat c.toNat := by
      rw [UInt32.toUInt16_not]
      rfl
    simp only [getChecksum, Reader.returns_bind, Reader.returns_pure]
    exact ⟨s, hwords, _, hodd, c, hfold, hword.symm⟩
  · rw [UInt32.zero_add, UInt32.toNat_ofNat'] at hsame
    exact hsame

theorem onesChecksum_eq (host : Host) (bytes : List UInt8) :
  ∃ c, onesChecksum host bytes = ~~~ UInt16.ofNat c ∧ c < 2 ^ 16 ∧
    OnesComplement.Same 16 c (plainSum host bytes + oddExcess host bytes)
  := by
  refine ⟨_, rfl, ?_⟩
  rw [← sum_wordsOf]
  apply OnesComplement.sum_spec
  intro word hword
  obtain ⟨v, -, rfl⟩ := List.mem_map.mp hword
  exact v.toNat_lt

/-- The checksum is returned exactly when what the accumulator has come to stands for the sum of
the words. -/
theorem getChecksum_same (host : Host) (mem : Memory) (pos : ℕ) (size : UInt32) :
  (getChecksum host pos size).Returns mem (onesChecksum host (bytesAt mem pos size.toNat)) ↔
    OnesComplement.Same 16 (plainSum host (bytesAt mem pos size.toNat) % 2 ^ 32)
      (plainSum host (bytesAt mem pos size.toNat) + oddExcess host (bytesAt mem pos size.toNat))
  := by
  obtain ⟨c, hreturns, hc, hsame⟩ := getChecksum_returns host mem pos size
  obtain ⟨d, hd, hdlt, hdsame⟩ := onesChecksum_eq host (bytesAt mem pos size.toNat)
  rw [hd]
  constructor
  · intro h
    have heq : c = d := by
      have hinj := UInt16.not_inj.mp (hreturns.unique h)
      rwa [← UInt16.toNat_inj, UInt16.toNat_ofNat_of_lt' hc, UInt16.toNat_ofNat_of_lt' hdlt] at hinj
    rw [heq] at hsame
    exact hsame.symm.trans hdsame
  · intro h
    have heq : c = d := (hsame.trans (h.trans hdsame.symm)).eq hc hdlt
    rw [← heq]
    exact hreturns

/-- Whether a sum still stands for the same when carries out of 32 bits are lost and an excess is
not counted. -/
theorem same_mod_iff {n e : ℕ} (hn : n / 2 ^ 32 ≤ 32767) (he : e ≤ 65025) :
  OnesComplement.Same 16 (n % 2 ^ 32) (n + e) ↔
    (n < 2 ^ 32 ∧ e = 0) ∨ (n / 2 ^ 32 + e = 65535 ∧ n % 2 ^ 32 ≠ 0)
  := by
  have hdiv := Nat.mod_add_div n (2 ^ 32)
  constructor
  · rintro ⟨hzero, hmod⟩
    rw [Nat.ModEq] at hmod
    omega
  · rintro (⟨hlt, rfl⟩ | ⟨hsum, hne⟩)
    · rw [Nat.mod_eq_of_lt hlt]
      apply OnesComplement.Same.refl
    · constructor
      · omega
      · rw [Nat.ModEq]
        omega

/-- The checksum is returned exactly when no carry out of 32 bits is lost and the odd byte counts
in full, or when the lost carries and what the odd byte lacks come to `65535`, which is zero in
ones' complement, and the accumulator is not itself zero. -/
theorem getChecksum_iff (host : Host) (mem : Memory) (pos : ℕ) (size : UInt32) :
  (getChecksum host pos size).Returns mem (onesChecksum host (bytesAt mem pos size.toNat)) ↔
    (plainSum host (bytesAt mem pos size.toNat) < 2 ^ 32 ∧
      oddExcess host (bytesAt mem pos size.toNat) = 0) ∨
    (plainSum host (bytesAt mem pos size.toNat) / 2 ^ 32
        + oddExcess host (bytesAt mem pos size.toNat) = 65535 ∧
      plainSum host (bytesAt mem pos size.toNat) % 2 ^ 32 ≠ 0)
  := by
  have hsum := plainSum_le host (bytesAt mem pos size.toNat)
  have hsize := size.toNat_lt
  have hlength : (bytesAt mem pos size.toNat).length = size.toNat := by simp [bytesAt]
  rw [getChecksum_same]
  apply same_mod_iff
  · omega
  · apply oddExcess_le

/-- Bytes that are all `0xff`. -/
theorem plainSum_replicate (host : Host) (n : ℕ) :
  plainSum host (List.replicate (2 * n) 0xff) = 65535 * n ∧
    oddExcess host (List.replicate (2 * n) 0xff) = 0
  := by
  induction n with
  | zero => exact ⟨rfl, rfl⟩
  | succ n ih =>
      have hword : (host.short [0xff, 0xff] 0).toNat = 65535 := by
        cases h : host.littleEndian with
        | true => simp [Host.short, reorder, be16, h]
        | false => simp [Host.short, reorder, be16, h]
      rw [Nat.mul_succ, List.replicate_succ, List.replicate_succ, plainSum, oddExcess, ih.1, hword]
      refine ⟨?_, ih.2⟩
      omega

/-- The sum of 65538 words `0xffff` is `0xffff`, but one carry is lost. -/
theorem getChecksum_loses_carry :
  ¬ (getChecksum (Host.plain true) 0 131076).Returns (fun _ => 0xff)
    (onesChecksum (Host.plain true) (bytesAt (fun _ => 0xff) 0 131076))
  := by
  have hgeneral : ∀ n, n = 2 * 65538 →
      ¬ OnesComplement.Same 16
        (plainSum (Host.plain true) (bytesAt (fun _ => 0xff) 0 n) % 2 ^ 32)
        (plainSum (Host.plain true) (bytesAt (fun _ => 0xff) 0 n)
          + oddExcess (Host.plain true) (bytesAt (fun _ => 0xff) 0 n)) := by
    rintro n hn ⟨-, hmod⟩
    have hbytes : bytesAt (fun _ => 0xff) 0 n = List.replicate n 0xff := by
      simp [bytesAt]
    obtain ⟨hplain, hodd⟩ := plainSum_replicate (Host.plain true) 65538
    rw [hbytes, hn, hplain, hodd, Nat.ModEq] at hmod
    omega
  rw [← show (131076 : UInt32).toNat = 131076 from rfl, getChecksum_same]
  exact hgeneral _ rfl

end

end CcController
