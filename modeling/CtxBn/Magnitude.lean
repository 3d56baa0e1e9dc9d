import Mathlib.Data.Nat.Size
import CtxBn.Bignum

/-!
# CtxBn.Magnitude

Facts about `magnitude d n = Σ_{i<n} d[i]·2^(w·i)` that the bit routines need: bit `b` of word
`k` of the magnitude is bit `b` of `d[k]` (`testBit_magnitude`), the magnitude reads only the
first `n` words (`magnitude_congr`) and ignores zero words on top (`magnitude_of_zero_above`),
and its bit length is fixed by its top word (`size_magnitude`).
-/

namespace CtxBn

variable {w : Nat}

@[simp] theorem magnitude_zero (d : Nat → BitVec w) : magnitude d 0 = 0 := rfl

theorem magnitude_succ (d : Nat → BitVec w) (n : Nat) :
    magnitude d (n + 1) = 2 ^ (w * n) * (d n).toNat + magnitude d n := by
  rw [magnitude, Nat.add_comm, Nat.mul_comm]

@[simp] theorem magnitude_one (d : Nat → BitVec w) : magnitude d 1 = (d 0).toNat := by
  rw [magnitude_succ, magnitude_zero, Nat.mul_zero, Nat.pow_zero, Nat.one_mul, Nat.add_zero]

theorem magnitude_lt (d : Nat → BitVec w) : ∀ n, magnitude d n < 2 ^ (w * n)
  | 0 => by simp
  | n + 1 => by
    have hn := magnitude_lt d n
    have hd := (d n).isLt
    calc magnitude d (n + 1) = 2 ^ (w * n) * (d n).toNat + magnitude d n := magnitude_succ d n
      _ < 2 ^ (w * n) * (d n).toNat + 2 ^ (w * n) := by omega
      _ = 2 ^ (w * n) * ((d n).toNat + 1) := (Nat.mul_succ _ _).symm
      _ ≤ 2 ^ (w * n) * 2 ^ w := Nat.mul_le_mul_left _ hd
      _ = 2 ^ (w * (n + 1)) := by rw [← Nat.pow_add, Nat.mul_succ]

theorem magnitude_congr {d d' : Nat → BitVec w} :
    ∀ {n}, (∀ i < n, d i = d' i) → magnitude d n = magnitude d' n
  | 0, _ => rfl
  | n + 1, h => by
    rw [magnitude, magnitude, magnitude_congr fun i hi => h i (by omega), h n (by omega)]

/-- Zero words above `m` do not count. -/
theorem magnitude_of_zero_above {d : Nat → BitVec w} {m : Nat} :
    ∀ {n}, m ≤ n → (∀ i, m ≤ i → i < n → d i = 0) → magnitude d n = magnitude d m
  | 0, h, _ => by rw [Nat.le_zero.mp h]
  | n + 1, h, hz => by
    rcases Nat.eq_or_lt_of_le h with rfl | h
    · rfl
    · rw [magnitude, hz n (by omega) (by omega), magnitude_of_zero_above (by omega)
        fun i h1 h2 => hz i h1 (by omega)]
      simp

/-- Bit `b < w` of word `k`. -/
theorem testBit_magnitude (d : Nat → BitVec w) {b : Nat} (hb : b < w) (k : Nat) :
    ∀ n, (magnitude d n).testBit (w * k + b) = (decide (k < n) && (d k).getLsbD b)
  | 0 => by simp
  | n + 1 => by
    rw [magnitude_succ, Nat.testBit_mul_pow_two_add _ (magnitude_lt d n), testBit_magnitude d hb k n]
    rcases Nat.lt_trichotomy k n with h | rfl | h
    · have : w * (k + 1) ≤ w * n := Nat.mul_le_mul_left w h
      have : w * k + b < w * n := by rw [Nat.mul_succ] at this; omega
      simp [this, h, Nat.lt_succ_of_lt h]
    · simp [BitVec.testBit_toNat]
    · have hk : w * (n + 1) ≤ w * k := Nat.mul_le_mul_left w h
      rw [Nat.mul_succ] at hk
      have h1 : ¬ w * k + b < w * n := by omega
      have h2 : w ≤ w * k + b - w * n := by omega
      simp [h1, BitVec.testBit_toNat, BitVec.getLsbD_ge _ _ h2, show ¬ k < n + 1 by omega]

/-- Every bit position `p` is bit `p % w` of word `p / w`. -/
theorem testBit_magnitude_div (hw : 0 < w) (d : Nat → BitVec w) (n p : Nat) :
    (magnitude d n).testBit p = (decide (p / w < n) && (d (p / w)).getLsbD (p % w)) := by
  conv_lhs => rw [← Nat.div_add_mod p w]
  exact testBit_magnitude d (Nat.mod_lt p hw) (p / w) n

/-- Words that read as those of `magnitude d n` plus bit `b` of word `k` make the magnitude
`magnitude d n ||| 2^(w·k + b)`. -/
theorem magnitude_eq_or_twoPow {d d' : Nat → BitVec w} {n n' k b : Nat} (hb : b < w)
    (h : ∀ j i, i < w → (decide (j < n') && (d' j).getLsbD i) =
      ((decide (j < n) && (d j).getLsbD i) || (decide (j = k) && decide (i = b)))) :
    magnitude d' n' = magnitude d n ||| 2 ^ (w * k + b) := by
  have hw : 0 < w := by omega
  have hpos : ∀ p, w * k + b = p ↔ p / w = k ∧ p % w = b := fun p =>
    ⟨by rintro rfl; exact ⟨by rw [Nat.mul_add_div hw, Nat.div_eq_of_lt hb, Nat.add_zero],
        by rw [Nat.mul_add_mod, Nat.mod_eq_of_lt hb]⟩,
      fun ⟨h1, h2⟩ => by rw [← h1, ← h2, Nat.div_add_mod]⟩
  refine Nat.eq_of_testBit_eq fun p => ?_
  rw [Nat.testBit_or, Nat.testBit_two_pow, testBit_magnitude_div hw, testBit_magnitude_div hw,
    h _ _ (Nat.mod_lt p hw), decide_eq_decide.2 (hpos p), Bool.decide_and]

/-- The bit length of `2^a·x + m` with `m < 2^a` and `x ≠ 0`. -/
theorem size_pow_mul_add {a x m : Nat} (hm : m < 2 ^ a) (hx : 0 < x) :
    Nat.size (2 ^ a * x + m) = a + Nat.size x := by
  have hs : 0 < Nat.size x := Nat.size_pos.2 hx
  apply Nat.le_antisymm
  · rw [Nat.size_le]
    calc 2 ^ a * x + m < 2 ^ a * (x + 1) := by rw [Nat.mul_succ]; omega
      _ ≤ 2 ^ a * 2 ^ Nat.size x := Nat.mul_le_mul_left _ (Nat.lt_size_self x)
      _ = 2 ^ (a + Nat.size x) := (Nat.pow_add 2 a _).symm
  · have hlow : 2 ^ (Nat.size x - 1) ≤ x := Nat.lt_size.1 (by omega)
    have : a + Nat.size x - 1 < Nat.size (2 ^ a * x + m) := by
      rw [Nat.lt_size]
      calc 2 ^ (a + Nat.size x - 1) = 2 ^ a * 2 ^ (Nat.size x - 1) := by
            rw [← Nat.pow_add]; congr 1; omega
        _ ≤ 2 ^ a * x := Nat.mul_le_mul_left _ hlow
        _ ≤ 2 ^ a * x + m := Nat.le_add_right _ _
    omega

/-- The bit length of a magnitude whose top word is nonzero. -/
theorem size_magnitude {d : Nat → BitVec w} {n : Nat} (hd : d n ≠ 0) :
    Nat.size (magnitude d (n + 1)) = w * n + Nat.size (d n).toNat := by
  rw [magnitude_succ, size_pow_mul_add (magnitude_lt d n)]
  exact Nat.pos_of_ne_zero fun h => hd (BitVec.eq_of_toNat_eq (by simpa using h))

/-- One bit fewer after a shift right by one. -/
theorem size_div_two {n : Nat} (hn : n ≠ 0) : Nat.size (n / 2) + 1 = Nat.size n := by
  rcases Nat.eq_zero_or_pos (n / 2) with h | h
  · have : n = 1 := by omega
    subst this; simp [Nat.size_one]
  · have := size_pow_mul_add (a := 1) (Nat.mod_lt n (by decide : 2 ^ 1 > 0)) h
    rw [pow_one, Nat.div_add_mod] at this
    omega

theorem size_toNat_le (x : BitVec w) : Nat.size x.toNat ≤ w := Nat.size_le.2 x.isLt

theorem size_toNat_pos {x : BitVec w} (hx : x ≠ 0) : 0 < Nat.size x.toNat :=
  Nat.size_pos.2 (Nat.pos_of_ne_zero fun h => hx (BitVec.eq_of_toNat_eq h))

/-- A magnitude with a nonzero word `n` reaches `2^(w·n)`. -/
theorem two_pow_le_magnitude {d : Nat → BitVec w} {n : Nat} (hd : d n ≠ 0) :
    2 ^ (w * n) ≤ magnitude d (n + 1) := by
  have := size_toNat_pos hd
  exact Nat.lt_size.1 (by rw [size_magnitude hd]; omega)

/-- Setting bit `p` makes the bit length at least `p + 1` and changes it no further. -/
theorem size_or_two_pow (m p : Nat) : Nat.size (m ||| 2 ^ p) = max (Nat.size m) (p + 1) := by
  apply Nat.le_antisymm
  · rw [Nat.size_le]
    exact Nat.or_lt_two_pow
      (Nat.lt_of_lt_of_le (Nat.lt_size_self m) (Nat.pow_le_pow_right (by decide) (Nat.le_max_left _ _)))
      (Nat.pow_lt_pow_right (by decide) (by omega))
  · refine Nat.max_le.2 ⟨Nat.size_le_size (Nat.le_of_testBit fun i hi => ?_), Nat.lt_size.2 ?_⟩
    · rw [Nat.testBit_or, hi, Bool.true_or]
    · exact Nat.testBit_implies_ge (by rw [Nat.testBit_or, Nat.testBit_two_pow_self, Bool.or_true])

/-- The top bit of a nonzero number is set. -/
theorem testBit_size_sub_one {n : Nat} (hn : n ≠ 0) : n.testBit (Nat.size n - 1) = true := by
  have hs : 0 < Nat.size n := Nat.size_pos.2 (Nat.pos_of_ne_zero hn)
  by_contra h
  have hlt : n < 2 ^ (Nat.size n - 1) := Nat.lt_pow_two_of_testBit n fun i hi => by
    rcases Nat.eq_or_lt_of_le hi with rfl | hi
    · simpa using h
    · exact Nat.testBit_lt_two_pow (Nat.lt_of_lt_of_le (Nat.lt_size_self n)
        (Nat.pow_le_pow_right (by decide) (by omega)))
  exact Nat.not_le.2 hlt (Nat.lt_size.1 (by omega))

/-- Bit 7 of byte `k` is bit `8·k + 7`. -/
theorem testBit_seven_byte (n k : Nat) : (n / 256 ^ k).testBit 7 = n.testBit (8 * k + 7) := by
  rw [show 256 ^ k = 2 ^ (8 * k) by rw [Nat.pow_mul], ← Nat.shiftRight_eq_div_pow,
    Nat.testBit_shiftRight]

/-- Bit 7 of the top byte of the minimal big-endian encoding of `n`, `(size n + 7) / 8` bytes
long, is set exactly when `n ≠ 0` and the bit length of `n` is a multiple of 8. -/
theorem testBit_topByte (n : Nat) :
    (n / 256 ^ ((Nat.size n + 7) / 8 - 1)).testBit 7 = decide (n ≠ 0 ∧ Nat.size n % 8 = 0) := by
  by_cases hn : n = 0
  · simp [hn]
  have hs : 0 < Nat.size n := Nat.size_pos.2 (Nat.pos_of_ne_zero hn)
  rw [testBit_seven_byte]
  by_cases h8 : Nat.size n % 8 = 0
  · rw [show 8 * ((Nat.size n + 7) / 8 - 1) + 7 = Nat.size n - 1 by omega,
      testBit_size_sub_one hn, decide_eq_true ⟨hn, h8⟩]
  · rw [decide_eq_false fun h => h8 h.2]
    exact Nat.testBit_lt_two_pow (Nat.lt_of_lt_of_le (Nat.lt_size_self n)
      (Nat.pow_le_pow_right (by decide) (by omega)))

end CtxBn
