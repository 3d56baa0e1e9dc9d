import CtxBn.Magnitude

/-!
# CtxBn.Bits

The routines that work word by word or bit by bit: `BN_num_bits_word`, `BN_num_bits`,
`BN_high_bit`, `BN_set_bit`, `BN_is_bit_set` and `BN_normalise`. Each `for` loop is a function of its own,
recursive in the loop variable with the loop's bound as measure, and has one lemma giving its
result in closed form (`numBitsLoop_eq`, `zeroFill_eq`, `normaliseLoop_spec`); the routines'
spec lemmas are built on those.

A bit number `bitNo ≥ 0` is `BN_BITS2 · k + b` with `b < BN_BITS2`: word `k`, bit `b`, which is
what the C divisions `bitNo / BN_BITS2` and `bitNo % BN_BITS2` compute. `BN_high_bit` splits
a byte number the same way, by `BN_BYTES`.
-/

namespace CtxBn

variable {w : Nat} (cfg : Config)

/-- `cryptStatusError( status )`. `cryptlib.h` is not among the sources; there `CRYPT_OK` is zero
and every error status is negative, as `Config.errorInternal` is. -/
def cryptStatusError (status : Int) : Prop := status < 0

instance (status : Int) : Decidable (cryptStatusError status) :=
  inferInstanceAs (Decidable (status < 0))

/-- `for( i = 0; i < 128 && value > 0; i++ ) value >>= 1;` from `i` on: the final `i`. -/
def numBitsLoop (i : Nat) (value : BitVec w) : Nat :=
  if i < 128 ∧ value ≠ 0 then numBitsLoop (i + 1) (value >>> 1) else i
termination_by 128 - i

def bnNumBitsWord (word : BitVec w) : Int :=
  let i := numBitsLoop 0 word
  if i < 128 then i else cfg.errorInternal

def bnNumBits (bn : Bignum w) : Int :=
  let lastWordIndex : Int := bn.top - 1
  if ¬ sanityCheckBignum cfg bn then cfg.errorInternal
  else if bn.top ≤ 0 then 0
  else
    let status := bnNumBitsWord cfg (bn.d lastWordIndex.toNat)
    if cryptStatusError status then status else lastWordIndex * w + status

/-- `BN_BYTES`: the bytes of a word of `BN_BITS2 = w` bits (`bn.h` is not among the sources). -/
def bnBytes (w : Nat) : Nat := w / 8

/-- Modelled from the spec: `BN_num_bytes` is a macro of `bn.h`, which is not among the
sources. The spec's `high_bit` reads "the most-significant used byte", so the macro counts the
bytes that the `BN_num_bits` used bits occupy, rounded up: `( BN_num_bits( a ) + 7 ) / 8`. -/
def bnNumBytes (bn : Bignum w) : Int := (bnNumBits cfg bn + 7).tdiv 8

/-- `BN_high_bit`. The shifted word is cast to `int`, 32 bits, which keeps its low bits. -/
def bnHighBit (bn : Bignum w) : Bool :=
  let noBytes := bnNumBytes cfg bn - 1
  if ¬ sanityCheckBignum cfg bn then false
  else if noBytes < 0 then false
  else
    let highWord := bn.d (noBytes.tdiv (bnBytes w)).toNat
    let highByte : BitVec 32 :=
      (highWord >>> ((noBytes.tmod (bnBytes w)) * 8).toNat).setWidth 32
    (highByte &&& 0x80#32) ≠ 0

/-- `for( index = top; index < limit; index++ ) d[ index ] = 0;` from `index` on: the words and
the final `index`. -/
def zeroFill (limit index : Nat) (d : Nat → BitVec w) : (Nat → BitVec w) × Nat :=
  if index < limit then zeroFill limit (index + 1) (Function.update d index 0) else (d, index)
termination_by limit - index

def bnSetBit (bitNo : Int) : BnM w Unit := do
  let bn ← get
  let wordIndex := bitNo.tdiv w
  let bitIndex := bitNo.tmod w
  let iterationBound := getBNMaxSize cfg bn
  require (sanityCheckBignum cfg bn)
  require (bn.flags.staticData = false)
  require (0 ≤ bitNo ∧ bitNo < bn.dmax * w)
  if (bn.top : Int) < wordIndex + 1 then
    require (wordIndex < bn.dmax)
    let (d, index) := zeroFill (wordIndex + 1).toNat bn.top bn.d
    set { bn with d := d }
    ensure (index < iterationBound)
    modify fun bn => { bn with top := (wordIndex + 1).toNat }
  modify fun bn => { bn with d := Function.update bn.d wordIndex.toNat
                                   (bn.d wordIndex.toNat ||| (1 : BitVec w) <<< bitIndex.toNat) }
  ensure (sanityCheckBignum cfg (← get))

/-- `BN_is_bit_set`; a failed `REQUIRES_B` returns `FALSE` like a clear bit. -/
def bnIsBitSet (bn : Bignum w) (bitNo : Int) : Bool :=
  let wordIndex := bitNo.tdiv w
  let bitIndex := bitNo.tmod w
  if ¬ sanityCheckBignum cfg bn then false
  else if ¬ bitNo < bn.dmax * w then false
  else if bitNo < 0 then false
  else if wordIndex ≥ bn.top then false
  else (bn.d wordIndex.toNat &&& (1 : BitVec w) <<< bitIndex.toNat) ≠ 0

/-- `for( count = 0; top > 0 && count < bound; top--, count++ ) if( d[ top - 1 ] != 0 ) break;`
from `iterationCount` on: the final count and bignum. -/
def normaliseLoop (iterationBound iterationCount : Nat) (bn : Bignum w) : Nat × Bignum w :=
  if bn.top > 0 ∧ iterationCount < iterationBound then
    if bn.d (bn.top - 1) ≠ 0 then (iterationCount, bn)
    else normaliseLoop iterationBound (iterationCount + 1) { bn with top := bn.top - 1 }
  else (iterationCount, bn)
termination_by iterationBound - iterationCount

def bnNormalise : BnM w Unit := do
  let bn ← get
  let iterationBound := getBNMaxSize cfg bn
  require (sanityCheckBignum cfg bn)
  if bnIsZero bn then return
  let iterationCount ← modifyGet (normaliseLoop iterationBound 0)
  ensure (iterationCount < iterationBound)
  ensure (sanityCheckBignum cfg (← get))

/-! ## The loops -/

theorem numBitsLoop_eq : ∀ (i : Nat) (value : BitVec w), i + Nat.size value.toNat ≤ 128 →
    numBitsLoop i value = i + Nat.size value.toNat := by
  intro i value
  induction i, value using numBitsLoop.induct with
  | case1 i value h ih =>
    intro hle
    have hv : value.toNat ≠ 0 := fun h0 => h.2 (BitVec.eq_of_toNat_eq (by simpa using h0))
    have hs := size_div_two hv
    rw [numBitsLoop, if_pos h, ih (by simp only [BitVec.toNat_ushiftRight,
      Nat.shiftRight_eq_div_pow, pow_one]; omega)]
    simp only [BitVec.toNat_ushiftRight, Nat.shiftRight_eq_div_pow, pow_one]
    omega
  | case2 i value h =>
    intro hle
    rw [numBitsLoop, if_neg h]
    by_cases hv : value = 0
    · simp [hv, Nat.size_zero]
    · have := Nat.size_pos.2 (Nat.pos_of_ne_zero fun h0 => hv (BitVec.eq_of_toNat_eq (by simpa using h0)))
      have : ¬ i < 128 := fun hi => h ⟨hi, hv⟩
      omega

theorem zeroFill_eq : ∀ (limit index : Nat) (d : Nat → BitVec w),
    zeroFill limit index d = (fun j => if index ≤ j ∧ j < limit then 0 else d j, max index limit) := by
  intro limit index d
  induction index, d using zeroFill.induct limit with
  | case1 index d h ih =>
    rw [zeroFill, if_pos h, ih]
    congr 1
    · funext j
      by_cases hj : j = index
      · subst hj; simp [h]
      · simp only [Function.update_noteq hj]
        congr 1
        exact propext ⟨fun ⟨h1, h2⟩ => ⟨by omega, h2⟩, fun ⟨h1, h2⟩ => ⟨by omega, h2⟩⟩
    · omega
  | case2 index d h =>
    rw [zeroFill, if_neg h]
    congr 1
    · funext j; rw [if_neg (by omega)]
    · omega

/-- The normalising loop drops zero words from the top, one per iteration, and stops at a
nonzero top word, at `top = 0`, or when the count reaches the bound. -/
theorem normaliseLoop_spec (bound : Nat) : ∀ (count : Nat) (bn : Bignum w),
    ∃ t, t ≤ bn.top ∧ normaliseLoop bound count bn = (count + (bn.top - t), { bn with top := t }) ∧
      (∀ i, t ≤ i → i < bn.top → bn.d i = 0) ∧
      (t = 0 ∨ bn.d (t - 1) ≠ 0 ∨ bound ≤ count + (bn.top - t)) := by
  intro count bn
  induction count, bn using normaliseLoop.induct bound with
  | case1 count bn h hd =>
    exact ⟨bn.top, le_refl _, by rw [normaliseLoop, if_pos h, if_pos hd]; simp,
      fun i h1 h2 => absurd h2 (by omega), .inr (.inl hd)⟩
  | case2 count bn h hd ih =>
    obtain ⟨t, ht, heq, hz, hstop⟩ := ih
    refine ⟨t, by simp at ht; omega, ?_, fun i h1 h2 => ?_, ?_⟩
    · rw [normaliseLoop, if_pos h, if_neg hd, heq]
      simp only at ht ⊢
      congr 1; omega
    · rcases Nat.lt_or_ge i (bn.top - 1) with hi | hi
      · exact hz i h1 hi
      · have : i = bn.top - 1 := by omega
        subst this; simpa using hd
    · simp only at ht hstop
      exact hstop.imp_right (Or.imp_right fun _ => by omega)
  | case3 count bn h =>
    refine ⟨bn.top, le_refl _, by rw [normaliseLoop, if_neg h]; simp, fun i h1 h2 => absurd h2 (by omega), ?_⟩
    by_cases ht : bn.top = 0
    · exact .inl ht
    · have : ¬ count < bound := fun hc => h ⟨by omega, hc⟩
      exact .inr (.inr (by omega))

/-! ## Spec lemmas -/

section Spec

variable {cfg} {bn : Bignum w} {k b : Nat}

theorem tdiv_wordBit (hb : b < w) : ((w * k + b : Nat) : Int).tdiv w = k := by
  rw [← Int.ofNat_tdiv, Nat.mul_add_div (by omega), Nat.div_eq_of_lt hb, Nat.add_zero]

theorem tmod_wordBit (hb : b < w) : ((w * k + b : Nat) : Int).tmod w = b := by
  rw [← Int.ofNat_tmod, Nat.mul_add_mod, Nat.mod_eq_of_lt hb]

/-- `w·k + b < w·dmax` for a bit `b < w` of a word `k < dmax`. -/
theorem wordBit_lt (hb : b < w) {m : Nat} (hk : k < m) : w * k + b < m * w := by
  have := Nat.mul_le_mul_left w hk
  rw [Nat.mul_succ] at this
  rw [Nat.mul_comm m]; omega

theorem lt_of_wordBit_lt {m : Nat} (h : w * k + b < m * w) : k < m := by
  rw [Nat.mul_comm m] at h
  exact Nat.lt_of_mul_lt_mul_left (Nat.lt_of_le_of_lt (Nat.le_add_right _ b) h)

/-- Every bit number `bitNo ≥ 0` is bit `b` of word `k`. -/
theorem exists_wordBit (hw : 0 < w) {bitNo : Int} (h0 : 0 ≤ bitNo) :
    ∃ k b, b < w ∧ bitNo = ((w * k + b : Nat) : Int) :=
  ⟨bitNo.toNat / w, bitNo.toNat % w, Nat.mod_lt _ hw, by rw [Nat.div_add_mod]; omega⟩

/-- A bit number inside the capacity `[0, m·BN_BITS2)` is bit `b < BN_BITS2` of a word `k < m`. -/
theorem exists_wordBit_lt {bitNo : Int} {m : Nat} (h0 : 0 ≤ bitNo) (hlt : bitNo < m * w) :
    ∃ k b, b < w ∧ k < m ∧ bitNo = ((w * k + b : Nat) : Int) := by
  have hw : 0 < w := Nat.pos_of_mul_pos_left (show 0 < m * w by exact_mod_cast (by omega : (0 : Int) < m * w))
  obtain ⟨k, b, hb, rfl⟩ := exists_wordBit hw h0
  exact ⟨k, b, hb, lt_of_wordBit_lt (by exact_mod_cast hlt), rfl⟩

theorem bnSetBit_requires {bitNo : Int}
    (h : ¬ (sanityCheckBignum cfg bn ∧ bn.flags.staticData = false ∧ 0 ≤ bitNo ∧ bitNo < bn.dmax * w)) :
    bnSetBit cfg bitNo bn = .error .requires bn := by
  by_cases h1 : sanityCheckBignum cfg bn
  · by_cases h2 : bn.flags.staticData = false
    · simp only [bnSetBit, bind_apply, get_apply, require_apply, if_pos h1, if_pos h2,
        if_neg fun h3 => h ⟨h1, h2, h3⟩]
    · simp only [bnSetBit, bind_apply, get_apply, require_apply, if_pos h1, if_neg h2]
  · simp only [bnSetBit, bind_apply, get_apply, require_apply, if_neg h1]

/-- Setting a bit inside the used words changes only that word. -/
theorem bnSetBit_within (h : sanityCheckBignum cfg bn) (hs : bn.flags.staticData = false)
    (hb : b < w) (hk : k < bn.top) :
    bnSetBit cfg (w * k + b : Nat) bn =
      .ok () { bn with d := Function.update bn.d k (bn.d k ||| (1 : BitVec w) <<< b) } := by
  have hlt : ((w * k + b : Nat) : Int) < bn.dmax * w := by
    exact_mod_cast wordBit_lt hb (Nat.lt_of_lt_of_le hk h.2.2)
  have : ¬ ((bn.top : Int) < k + 1) := by omega
  simp only [bnSetBit, bind_apply, get_apply, require_apply, if_pos h, if_pos hs,
    if_pos (And.intro (Int.ofNat_nonneg _) hlt), tdiv_wordBit hb, tmod_wordBit hb, if_neg this,
    modify_apply, ensure_apply, Int.toNat_ofNat, pure_apply]
  exact if_pos h

/-- Setting a bit above the used words zero-fills up to its word and lengthens the bignum,
unless the word reached is the last the class allocates: then the loop's closing
`ENSURES_B( index < iterationBound )` fails after the zero-fill. -/
theorem bnSetBit_extend (h : sanityCheckBignum cfg bn) (hs : bn.flags.staticData = false)
    (hb : b < w) (htop : bn.top ≤ k) (hk : k < bn.dmax) :
    bnSetBit cfg (w * k + b : Nat) bn =
      if k + 1 < getBNMaxSize cfg bn then
        .ok () { bn with d := Function.update (fun j => if bn.top ≤ j ∧ j < k + 1 then 0 else bn.d j)
                                k ((1 : BitVec w) <<< b)
                         top := k + 1 }
      else .error .ensures { bn with d := fun j => if bn.top ≤ j ∧ j < k + 1 then 0 else bn.d j } := by
  have hlt : ((w * k + b : Nat) : Int) < bn.dmax * w := by exact_mod_cast wordBit_lt hb hk
  have htop' : (bn.top : Int) < k + 1 := by omega
  have hk1 : ((k : Int) + 1).toNat = k + 1 := by omega
  simp only [bnSetBit, bind_apply, get_apply, require_apply, if_pos h, if_pos hs,
    if_pos (And.intro (Int.ofNat_nonneg _) hlt), tdiv_wordBit hb, tmod_wordBit hb, if_pos htop',
    if_pos (show (k : Int) < bn.dmax by omega), hk1, zeroFill_eq, set_apply, ensure_apply,
    Nat.max_eq_right (by omega : bn.top ≤ k + 1), modify_apply, Int.toNat_ofNat]
  split_ifs with hfull
  · have hz : ((0 : BitVec w) ||| (1 : BitVec w) <<< b) = (1 : BitVec w) <<< b := by simp
    simp only [Function.update_same, if_pos (And.intro htop (Nat.lt_succ_self k)), hz]
    exact if_pos (show sanityCheckBignum cfg { bn with top := k + 1 } from ⟨h.1, h.2.1, hk⟩)
  · rfl

/-- `( x & ( ( BN_ULONG ) 1 << b ) ) != 0` tests bit `b`. -/
theorem and_one_shiftLeft_eq_zero (hb : b < w) (x : BitVec w) :
    x &&& 1#w <<< b = 0#w ↔ x.getLsbD b = false := by
  show x &&& BitVec.twoPow w b = 0#w ↔ _
  have h2 : BitVec.twoPow w b ≠ 0#w := fun h0 => by
    have := congrArg BitVec.toNat h0
    rw [BitVec.toNat_twoPow, Nat.mod_eq_of_lt (Nat.pow_lt_pow_right (by decide) hb)] at this
    simp at this
  rw [BitVec.and_twoPow]
  cases x.getLsbD b <;> simp [h2]

/-- `( ( int ) ( x >> s ) & 0x80 ) != 0` tests bit `s + 7` of the word. -/
theorem highByte_and_0x80 (x : BitVec w) (s : Nat) :
    decide (((x >>> s).setWidth 32 &&& 0x80#32) ≠ 0) = x.getLsbD (s + 7) := by
  rw [show (0x80#32) = 1#32 <<< 7 by decide, show (0 : BitVec 32) = 0#32 from rfl, Bool.eq_iff_iff,
    decide_eq_true_iff, Ne, and_one_shiftLeft_eq_zero (by decide), BitVec.getLsbD_setWidth,
    BitVec.getLsbD_ushiftRight]
  simp

theorem bnIsBitSet_neg {bitNo : Int} (h : bitNo < 0) : bnIsBitSet cfg bn bitNo = false := by
  simp only [bnIsBitSet, if_pos h]
  split_ifs <;> rfl

/-- Within capacity, `BN_is_bit_set` reads the bit of the magnitude. -/
theorem bnIsBitSet_eq (h : sanityCheckBignum cfg bn) (hb : b < w) (hk : k < bn.dmax) :
    bnIsBitSet cfg bn (w * k + b : Nat) = bn.mag.testBit (w * k + b) := by
  have hlt : ((w * k + b : Nat) : Int) < bn.dmax * w := by exact_mod_cast wordBit_lt hb hk
  rw [Bignum.mag, testBit_magnitude _ hb]
  simp only [bnIsBitSet, tdiv_wordBit hb, tmod_wordBit hb, if_neg (not_not_intro h),
    if_neg (not_not_intro hlt), if_neg (Int.not_lt.2 (Int.ofNat_nonneg _)), Int.toNat_ofNat,
    Int.ofNat_le]
  by_cases hk' : bn.top ≤ k
  · simp [hk', Nat.not_lt.2 hk']
  · simp [hk', Nat.lt_of_not_le hk', and_one_shiftLeft_eq_zero hb]

/-- `BN_normalise` on a sane bignum: `top` comes down to `t`, past zero words only, where the
top word is nonzero or `t = 0`. The return is `TRUE` unless the loop ran `getBNMaxSize` times. -/
theorem bnNormalise_spec (h : sanityCheckBignum cfg bn) :
    ∃ t, t ≤ bn.top ∧ (∀ i, t ≤ i → i < bn.top → bn.d i = 0) ∧ (t = 0 ∨ bn.d (t - 1) ≠ 0) ∧
      bnNormalise cfg bn = if bn.top - t < getBNMaxSize cfg bn then .ok () { bn with top := t }
                           else .error .ensures { bn with top := t } := by
  have hB : bn.top ≤ getBNMaxSize cfg bn := Nat.le_trans h.2.2 h.2.1
  by_cases hz : bn.top = 0
  · refine ⟨0, Nat.zero_le _, fun i h1 h2 => absurd h2 (by omega), .inl rfl, ?_⟩
    have : ({ bn with top := 0 } : Bignum w) = bn := by cases bn; simp_all
    simp [bnNormalise, h, bnIsZero, hz, this, if_pos (show 0 < getBNMaxSize cfg bn by have := h.1; have := h.2.1; omega)]
  · obtain ⟨t, ht, hloop, hzero, hstop⟩ := normaliseLoop_spec (getBNMaxSize cfg bn) 0 bn
    have hstop' : t = 0 ∨ bn.d (t - 1) ≠ 0 := by
      rcases hstop with h0 | h1 | h2
      · exact .inl h0
      · exact .inr h1
      · exact .inl (by omega)
    refine ⟨t, ht, hzero, hstop', ?_⟩
    simp only [bnNormalise, bind_apply, get_apply, require_apply, if_pos h, bnIsZero, if_neg hz,
      pure_apply, modifyGet_apply, hloop, Nat.zero_add, ensure_apply]
    split_ifs with hc
    · exact if_pos (show sanityCheckBignum cfg { bn with top := t } from
        ⟨h.1, h.2.1, show t ≤ bn.dmax by have := h.2.2; omega⟩)
    · rfl

theorem bnNumBitsWord_eq (hw : w < 128) (word : BitVec w) :
    bnNumBitsWord cfg word = Nat.size word.toNat := by
  have hs := size_toNat_le word
  simp only [bnNumBitsWord, numBitsLoop_eq 0 word (by omega), Nat.zero_add]
  rw [if_pos (by omega)]

end Spec

end CtxBn
