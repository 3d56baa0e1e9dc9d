import CtxBn.BignumCorrect

/-!
# CtxBn.BitsCorrect

The bit routines against the magnitude `mag = Σ_{i<top} d[i]·2^(BN_BITS2·i)`.

* `bnNumBits_eq_size`: for words of fewer than 128 bits, `BN_num_bits_word`'s loop ends at the
  bit length of the word and `BN_num_bits` of a canonical bignum is the bit length of `mag`.
* `bnHighBit_top_byte`: for 32- and 64-bit words, `BN_high_bit` of a canonical bignum is bit 7 of
  the top byte of the minimal big-endian encoding of `mag`, set exactly when `mag ≠ 0` and the
  bit length of `mag` is a multiple of 8.
* `bnNormalise_keeps_value`: `BN_normalise` keeps `mag`, the sign and sanity and leaves a
  nonzero top word; it reports success unless it ran `getBNMaxSize` times. It never clears the
  sign, so a negative zero stays negative (`bnNormalise_negative_zero`).
* `bnSetBit_sets_bit_or_fails`: `BN_set_bit` ors `2^bitNo` into `mag` and leaves a canonical
  bignum, except for a bit above `top` in the last word the class allocates, where the
  zero-fill loop's closing `ENSURES_B( index < iterationBound )` fails and the bit is not set.
* `bnNumBits_counts_top_word`: on any sane bignum `BN_num_bits` is the bit length of `mag`,
  except that a zero top word still counts the words below it; after `BN_normalise` it is exact.
* `bnNumBits_bnSetBit`: a successful `BN_set_bit( bn, bitNo )` makes `BN_num_bits` the larger of
  its old value and `bitNo + 1`.
* `bnRecpCtxSet_outcome`: `BN_RECP_CTX_set` loads any sane modulus that fits a standard bignum,
  and otherwise leaves the reset context.
* `bnIsBitSet_reads_mag`: `BN_is_bit_set` of any bignum at any bit number is the bit of `mag`,
  `FALSE` for a negative bit number or a failed check.
-/

namespace CtxBn

variable {w : Nat} {cfg : Config} {bn : Bignum w}

/-! ## `BN_num_bits` -/

/-- `BN_num_bits` of a sane bignum with `top = n + 1` reads its top word `d[n]`, zero or not. -/
theorem bnNumBits_top_word (hw : w < 128) (h : sanityCheckBignum cfg bn) {n : Nat}
    (hn : bn.top = n + 1) : bnNumBits cfg bn = ((w * n + Nat.size (bn.d n).toNat : Nat) : Int) := by
  have hidx : ((n + 1 : Nat) - 1 : Int) = n := by omega
  have hnn : ¬ cryptStatusError (Nat.size (bn.d n).toNat : Int) := by
    simp only [cryptStatusError]; omega
  simp only [bnNumBits, if_neg (not_not_intro h), hn, hidx, Int.toNat_ofNat, bnNumBitsWord_eq hw,
    if_neg hnn]
  rw [if_neg (by omega)]
  push_cast
  rw [Int.mul_comm]

/-- `BN_num_bits` of a canonical bignum is the bit length of its magnitude. -/
theorem bnNumBits_of_canonical (hw : w < 128) (h : bn.Canonical cfg) :
    bnNumBits cfg bn = Nat.size bn.mag := by
  by_cases ht : bn.top = 0
  · simp [bnNumBits, h.1, ht, Bignum.mag]
  · obtain ⟨n, hn, hd⟩ := h.top_word ht
    rw [bnNumBits_top_word hw h.1 hn, Bignum.mag, hn, size_magnitude hd]

/-- `Nat.size n` is the least `m` with `n < 2^m` (`Nat.size_le`). -/
theorem bnNumBits_eq_size (hw : w < 128) :
    (∀ word : BitVec w, numBitsLoop 0 word = Nat.size word.toNat ∧
      bnNumBitsWord cfg word = Nat.size word.toNat) ∧
    ∀ bn : Bignum w, bn.Canonical cfg → bnNumBits cfg bn = Nat.size bn.mag := by
  refine ⟨fun word => ⟨?_, bnNumBitsWord_eq hw word⟩, fun bn h => bnNumBits_of_canonical hw h⟩
  have := size_toNat_le word
  rw [numBitsLoop_eq 0 word (by omega), Nat.zero_add]

theorem bnNumBits_eq_size_valueOne :
    bnNumBits sampleConfig (bnValueOne sampleConfig : Bignum 64) =
      Nat.size (bnValueOne sampleConfig : Bignum 64).mag :=
  (bnNumBits_eq_size (by decide)).2 _ ⟨⟨by decide, by decide, by decide⟩, .inr (by decide),
    fun h => nomatch h⟩

/-! ## `BN_high_bit` -/

section HighBit

variable {B : Nat}

theorem bnBytes_eq : bnBytes (8 * B) = B := by simp [bnBytes]

/-- `BN_num_bytes` of a canonical bignum is the length of the minimal byte encoding of `mag`. -/
theorem bnNumBytes_of_canonical (hw : w < 128) (h : bn.Canonical cfg) :
    bnNumBytes cfg bn = ((Nat.size bn.mag + 7) / 8 : Nat) := by
  rw [bnNumBytes, bnNumBits_of_canonical hw h]
  exact (Int.ofNat_tdiv _ 8).symm

/-- For a word of whole bytes, `BN_high_bit` of a canonical bignum is bit 7 of the top byte of
the minimal byte encoding of `mag`: the word index `noBytes / BN_BYTES` is the top word, and the
byte index `noBytes % BN_BYTES` its top used byte. -/
theorem bnHighBit_eq_topByte (hw : w < 128) (h8 : 8 ∣ w) (h : bn.Canonical cfg) :
    bnHighBit cfg bn = (bn.mag / 256 ^ ((Nat.size bn.mag + 7) / 8 - 1)).testBit 7 := by
  obtain ⟨B, rfl⟩ := h8
  have hbytes := bnNumBytes_of_canonical hw h
  by_cases ht : bn.top = 0
  · have hm : bn.mag = 0 := by rw [Bignum.mag, ht, magnitude_zero]
    simp [bnHighBit, hbytes, hm]
  obtain ⟨t, htop, hd⟩ := h.top_word ht
  have hsize : Nat.size bn.mag = 8 * B * t + Nat.size (bn.d t).toNat := by
    rw [Bignum.mag, htop, size_magnitude hd]
  have hs : 0 < Nat.size (bn.d t).toNat :=
    Nat.size_pos.2 (Nat.pos_of_ne_zero fun h0 => hd (BitVec.eq_of_toNat_eq h0))
  have hsw := size_toNat_le (bn.d t)
  -- the encoding has `B·t + p + 1` bytes: the top used byte is byte `p` of word `t`
  obtain ⟨p, hp, hpB⟩ : ∃ p, (Nat.size (bn.d t).toNat + 7) / 8 = p + 1 ∧ p < B :=
    ⟨(Nat.size (bn.d t).toNat - 1) / 8,
      by rw [show Nat.size (bn.d t).toNat + 7 = Nat.size (bn.d t).toNat - 1 + 8 by omega,
        Nat.add_div_right _ (by decide)],
      Nat.div_lt_of_lt_mul (by omega)⟩
  have hlen : (Nat.size bn.mag + 7) / 8 = B * t + (p + 1) := by
    rw [hsize, Nat.mul_assoc, Nat.add_assoc, Nat.mul_add_div (by decide), hp]
  have hno : bnNumBytes cfg bn - 1 = ((B * t + p : Nat) : Int) := by
    rw [hbytes, hlen]; omega
  have hbit : 8 * ((Nat.size bn.mag + 7) / 8 - 1) + 7 = 8 * B * t + (p * 8 + 7) := by
    rw [hlen, Nat.mul_assoc]; omega
  have hshift : ((p : Int) * 8).toNat = p * 8 := Int.toNat_ofNat (p * 8)
  rw [testBit_seven_byte, hbit, Bignum.mag, testBit_magnitude _ (by omega : p * 8 + 7 < 8 * B)]
  simp only [bnHighBit, hno, if_neg (not_not_intro h.1), if_neg (Int.not_lt.2 (Int.ofNat_nonneg _)),
    bnBytes_eq, tdiv_wordBit hpB, tmod_wordBit hpB, Int.toNat_ofNat, hshift, highByte_and_0x80, htop,
    Nat.lt_succ_self, decide_True, Bool.true_and]

/-- `BN_high_bit` for the word widths `BN_BITS2` takes, on canonical bignums: it tests bit 7 of
the most significant byte of the minimal big-endian encoding of `mag` (`(size mag + 7) / 8`
bytes long), which is set exactly when `mag ≠ 0` and the bit length of `mag` is a multiple of 8. -/
theorem bnHighBit_top_byte (hw : w = 32 ∨ w = 64) (h : bn.Canonical cfg) :
    (bnHighBit cfg bn = true ↔ bn.mag ≠ 0 ∧ Nat.size bn.mag % 8 = 0) ∧
    bnHighBit cfg bn = (bn.mag / 256 ^ ((Nat.size bn.mag + 7) / 8 - 1)).testBit 7 ∧
    (bn.mag = 0 → bnHighBit cfg bn = false) := by
  have h8 : 8 ∣ w := by rcases hw with rfl | rfl <;> decide
  rw [bnHighBit_eq_topByte (by omega) h8 h, testBit_topByte]
  exact ⟨decide_eq_true_iff, rfl, fun hm => decide_eq_false fun hc => hc.1 hm⟩

/-- One used word holding `0x80`: eight bits, so its top byte has bit 7 set. -/
theorem bnHighBit_top_byte_0x80 :
    let bn : Bignum 64 :=
      { dmax := 4, top := 1, neg := false, flags := Flags.none,
        d := fun i => if i = 0 then 0x80 else 0 }
    bn.mag = 2 ^ 7 ∧ bnHighBit sampleConfig bn = true := by
  intro bn
  have hm : bn.mag = 2 ^ 7 := by decide
  refine ⟨hm, (bnHighBit_top_byte (.inr rfl)
    ⟨⟨by decide, by decide, by decide⟩, .inr (by decide), by decide⟩).1.2 ⟨?_, ?_⟩⟩
  · rw [hm]; decide
  · rw [hm, Nat.size_pow]

end HighBit

/-! ## `BN_normalise` -/

/-- `BN_normalise` on any sane bignum: only `top` moves, down past zero words, so the result is
sane with the same magnitude and sign and a nonzero top word (or `top = 0`); the call reports
success whenever the magnitude is nonzero or `top` is below the class maximum. -/
theorem bnNormalise_keeps_value (h : sanityCheckBignum cfg bn) :
    (∃ t ≤ bn.top, resultState (bnNormalise cfg bn) = { bn with top := t }) ∧
    sanityCheckBignum cfg (resultState (bnNormalise cfg bn)) ∧
    (resultState (bnNormalise cfg bn)).mag = bn.mag ∧
    (resultState (bnNormalise cfg bn)).neg = bn.neg ∧
    ((resultState (bnNormalise cfg bn)).top = 0 ∨
      (resultState (bnNormalise cfg bn)).d ((resultState (bnNormalise cfg bn)).top - 1) ≠ 0) ∧
    (bn.mag ≠ 0 ∨ bn.top < getBNMaxSize cfg bn →
      bnNormalise cfg bn = .ok () (resultState (bnNormalise cfg bn))) := by
  obtain ⟨t, ht, hz, hstop, heq⟩ := bnNormalise_spec h
  have hr : resultState (bnNormalise cfg bn) = { bn with top := t } := by
    rw [heq]; split_ifs <;> rfl
  rw [hr]
  refine ⟨⟨t, ht, rfl⟩, sanityCheckBignum_of_eq h rfl rfl (Nat.le_trans ht h.2.2),
    (magnitude_of_zero_above ht hz).symm, rfl, hstop, fun hc => ?_⟩
  have hB := Nat.le_trans h.2.2 h.2.1
  have ht0 : bn.mag ≠ 0 → 0 < t := fun hm => Nat.pos_of_ne_zero fun h0 => hm (by
    rw [Bignum.mag, magnitude_of_zero_above ht hz, h0, magnitude_zero])
  rw [heq, if_pos (by rcases hc with hm | hm <;> [have := ht0 hm; skip] <;> omega)]

/-- A negative bignum with two zero words above its one nonzero word: `BN_normalise` succeeds and
lowers `top` from 3 to 1, keeping the magnitude 5 and the sign. -/
theorem bnNormalise_keeps_value_zeroTop :
    let bn : Bignum 64 :=
      { dmax := 4, top := 3, neg := true, flags := Flags.none,
        d := fun i => if i = 0 then 5 else 0 }
    sanityCheckBignum sampleConfig bn ∧ bn.mag = 5 ∧
      bnNormalise sampleConfig bn = .ok () (resultState (bnNormalise sampleConfig bn)) ∧
      (resultState (bnNormalise sampleConfig bn)).top = 1 ∧
      (resultState (bnNormalise sampleConfig bn)).mag = 5 ∧
      (resultState (bnNormalise sampleConfig bn)).neg = true := by
  intro bn
  have hs : sanityCheckBignum sampleConfig bn := ⟨by decide, by decide, by decide⟩
  have hm : bn.mag = 5 := by decide
  obtain ⟨⟨t, ht, hr⟩, -, hmag, hneg, hstop, hok⟩ := bnNormalise_keeps_value hs
  -- the new top keeps the magnitude and ends on a nonzero word, so it is 1
  have htop : t = 1 := by
    rw [hr] at hstop hmag
    rcases t with _ | _ | _ | _ | t
    · exact absurd hmag (by decide)
    · rfl
    · exact absurd hstop (by decide)
    · exact absurd hstop (by decide)
    · exact absurd ht (show ¬ _ ≤ 3 by omega)
  refine ⟨hs, hm, hok (.inl (by rw [hm]; decide)), by rw [hr]; exact htop, hmag.trans hm, hneg⟩

/-- Two sane bignums of magnitude zero. A negative one whose one used word is zero:
`BN_normalise` succeeds and leaves `top = 0` with `neg = TRUE`, which is not canonical. One
whose `top` is the class maximum of zero words: the loop runs `getBNMaxSize` times and the
closing `ENSURES_B( iterationCount < iterationBound )` fails. -/
theorem bnNormalise_negative_zero :
    let bn : Bignum 64 := { dmax := 4, top := 1, neg := true, flags := Flags.none, d := fun _ => 0 }
    let full : Bignum 64 := { bn with top := 4, neg := false }
    sanityCheckBignum sampleConfig bn ∧ bnNormalise sampleConfig bn = .ok () { bn with top := 0 } ∧
      ¬ ({ bn with top := 0 } : Bignum 64).Canonical sampleConfig ∧
      sanityCheckBignum sampleConfig full ∧
      bnNormalise sampleConfig full = .error .ensures { full with top := 0 } := by
  refine ⟨⟨by decide, by decide, by decide⟩, ?_, fun h => absurd (h.2.2 rfl) (by decide),
    ⟨by decide, by decide, by decide⟩, ?_⟩ <;>
  simp [bnNormalise, normaliseLoop, sanityCheckBignum, getBNMaxSize, bnIsZero, sampleConfig,
    Flags.none]

/-! ## `BN_set_bit` -/

section SetBit

variable {k b : Nat}

theorem div_wordBit (hb : b < w) : (w * k + b) / w = k := by
  rw [Nat.mul_add_div (by omega), Nat.div_eq_of_lt hb, Nat.add_zero]

theorem getLsbD_one_shiftLeft (hb : b < w) (i : Nat) :
    ((1#w) <<< b).getLsbD i = decide (i = b) := by
  show (BitVec.twoPow w b).getLsbD i = _
  rw [BitVec.getLsbD_twoPow]; simp [hb, eq_comm]

/-- The words `BN_set_bit` leaves for a bit inside the used words. -/
theorem setBit_words_within (hb : b < w) (hk : k < bn.top) (j i : Nat) :
    (decide (j < bn.top) &&
        (Function.update bn.d k (bn.d k ||| 1#w <<< b) j).getLsbD i) =
      ((decide (j < bn.top) && (bn.d j).getLsbD i) || (decide (j = k) && decide (i = b))) := by
  by_cases hj : j = k
  · subst hj; simp [hk, getLsbD_one_shiftLeft hb]
  · simp [Function.update_noteq hj, hj]

/-- The words `BN_set_bit` leaves for a bit above the used words: zeros up to its word. -/
theorem setBit_words_extend (hb : b < w) (hk : bn.top ≤ k) (j i : Nat) :
    (decide (j < k + 1) &&
        (Function.update (fun j => if bn.top ≤ j ∧ j < k + 1 then 0 else bn.d j) k (1#w <<< b)
          j).getLsbD i) =
      ((decide (j < bn.top) && (bn.d j).getLsbD i) || (decide (j = k) && decide (i = b))) := by
  by_cases hj : j = k
  · subst hj; simp [show ¬ j < bn.top by omega, getLsbD_one_shiftLeft hb]
  · rw [Function.update_noteq hj]
    by_cases ht : j < bn.top
    · simp [ht, hj, show j < k + 1 by omega, show ¬ bn.top ≤ j by omega]
    · by_cases hjk : j < k + 1 <;> simp [ht, hj, hjk, Nat.le_of_not_lt ht]

theorem bnIsBitSet_of_top_le (hb : b < w) (hk : bn.top ≤ k) :
    bnIsBitSet cfg bn (w * k + b : Nat) = false := by
  have hge : ((w * k + b : Nat) : Int).tdiv w ≥ bn.top := by rw [tdiv_wordBit hb]; exact_mod_cast hk
  simp only [bnIsBitSet, if_pos hge, ite_self]

/-- `BN_is_bit_set` after a write that ors bit `p` into the magnitude and keeps the capacity. -/
theorem bnIsBitSet_of_mag_or {bn' : Bignum w} (h : sanityCheckBignum cfg bn)
    (h' : sanityCheckBignum cfg bn') (hd : bn'.dmax = bn.dmax) {p : Nat}
    (hm : bn'.mag = bn.mag ||| 2 ^ p) {c : Int} (hc : c < bn.dmax * w) :
    bnIsBitSet cfg bn' c = (decide (c = p) || bnIsBitSet cfg bn c) := by
  rcases Int.lt_or_le c 0 with hneg | h0
  · rw [bnIsBitSet_neg hneg, bnIsBitSet_neg hneg, decide_eq_false (by omega)]; rfl
  · obtain ⟨k, b, hb, hk, rfl⟩ := exists_wordBit_lt h0 hc
    rw [bnIsBitSet_eq h' hb (hd ▸ hk), bnIsBitSet_eq h hb hk, hm, Nat.testBit_or,
      Nat.testBit_two_pow, Bool.or_comm]
    simp only [Int.ofNat_inj, @eq_comm _ p]

/-- `BN_set_bit` on a canonical, non-static bignum and any `bitNo` in `[0, dmax·BN_BITS2)`.
Except in one case it sets exactly that bit: the magnitude gains `2^bitNo`, the result is
canonical with the same sign, and `BN_is_bit_set` reports the new bit on top of the old ones.
The exception is a bit above `top` in the word `getBNMaxSize − 1`: the zero-fill loop then
stops at `index = getBNMaxSize` and `ENSURES_B( index < iterationBound )` fails, so the call
returns `FALSE` with the bit not set. -/
theorem bnSetBit_sets_bit_or_fails (h : bn.Canonical cfg) (hs : bn.flags.staticData = false)
    {bitNo : Int} (h0 : 0 ≤ bitNo) (hlt : bitNo < bn.dmax * w) :
    (bn.top ≤ bitNo.toNat / w → getBNMaxSize cfg bn ≤ bitNo.toNat / w + 1 →
      ∃ bn', bnSetBit cfg bitNo bn = .error .ensures bn' ∧ bn'.top = bn.top ∧
        bn'.mag = bn.mag ∧ bnIsBitSet cfg bn' bitNo = false) ∧
    (bitNo.toNat / w < bn.top ∨ bitNo.toNat / w + 1 < getBNMaxSize cfg bn →
      ∃ bn', bnSetBit cfg bitNo bn = .ok () bn' ∧ bn'.Canonical cfg ∧ bn'.neg = bn.neg ∧
        bn'.mag = bn.mag ||| 2 ^ bitNo.toNat ∧
        ∀ c : Int, c < bn.dmax * w → bnIsBitSet cfg bn' c = (decide (c = bitNo) || bnIsBitSet cfg bn c)) := by
  obtain ⟨k, b, hb, hk, rfl⟩ := exists_wordBit_lt h0 hlt
  simp only [Int.toNat_ofNat, div_wordBit hb]
  refine ⟨fun ht hfull => ?_, fun hok => ?_⟩
  · rw [bnSetBit_extend h.1 hs hb ht hk, if_neg (by omega)]
    refine ⟨_, rfl, rfl, magnitude_congr fun i hi => by simp [Nat.not_le.2 hi], ?_⟩
    exact bnIsBitSet_of_top_le hb ht
  · obtain ⟨bn', hbn, hmag, hd, hneg⟩ : ∃ bn', bnSetBit cfg (w * k + b : Nat) bn = .ok () bn' ∧
        bn'.mag = bn.mag ||| 2 ^ (w * k + b) ∧ bn'.dmax = bn.dmax ∧ bn'.neg = bn.neg := by
      by_cases hkt : k < bn.top
      · exact ⟨_, bnSetBit_within h.1 hs hb hkt,
          magnitude_eq_or_twoPow hb fun j i _ => setBit_words_within hb hkt j i, rfl, rfl⟩
      · rw [bnSetBit_extend h.1 hs hb (by omega) hk, if_pos (by omega)]
        exact ⟨_, rfl, magnitude_eq_or_twoPow hb fun j i _ => setBit_words_extend hb (by omega) j i,
          rfl, rfl⟩
    have hc : bn'.Canonical cfg := by
      have := canonical_bnSetBit h ((w * k + b : Nat) : Int)
      rwa [hbn, resultState_ok] at this
    exact ⟨bn', hbn, hc, hneg, hmag, fun c hcl => bnIsBitSet_of_mag_or h.1 hc.1 hd hmag hcl⟩

/-- Bit 255 of a fresh standard bignum of four 64-bit words: the last word of the class. -/
theorem bnSetBit_last_word_fails :
    ∃ bn', bnSetBit sampleConfig 255 (bnInit sampleConfig : Bignum 64) = .error .ensures bn' ∧
      bn'.top = 0 ∧ bn'.mag = 0 ∧ bnIsBitSet sampleConfig bn' 255 = false :=
  (bnSetBit_sets_bit_or_fails (canonical_bnInit (w := 64)) rfl (by decide) (by decide)).1
    (by decide) (by decide)

end SetBit

/-! ## `BN_num_bits` of any sane bignum, and after the routines that write one -/

section NumBits

/-- `BN_num_bits` of a sane bignum is the bit length of `mag`, except that a zero top word still
counts the `BN_BITS2·(top − 1)` bits of the words below it. -/
theorem bnNumBits_sane (hw : w < 128) (h : sanityCheckBignum cfg bn) :
    bnNumBits cfg bn =
      ((if bn.top = 0 then 0 else max (Nat.size bn.mag) (w * (bn.top - 1)) : Nat) : Int) := by
  cases htop : bn.top with
  | zero => simp [bnNumBits, h, htop]
  | succ n =>
    rw [bnNumBits_top_word hw h htop, if_neg n.succ_ne_zero, Nat.add_sub_cancel, Bignum.mag, htop]
    by_cases hd : bn.d n = 0
    · -- a zero top word: the magnitude lives in the `n` words below it
      have h0 : (bn.d n).toNat = 0 := by simp [hd]
      rw [magnitude_succ, h0, Nat.size_zero, Nat.mul_zero, Nat.zero_add,
        Nat.add_zero, max_eq_right (Nat.size_le.2 (magnitude_lt bn.d n))]
    · rw [size_magnitude hd, max_eq_left (Nat.le_add_right _ _)]

/-- After `BN_normalise`, `BN_num_bits` counts exactly the bits of the magnitude. -/
theorem bnNumBits_bnNormalise (hw : w < 128) (h : sanityCheckBignum cfg bn) :
    bnNumBits cfg (resultState (bnNormalise cfg bn)) = Nat.size bn.mag := by
  obtain ⟨t, ht, hz, hstop, heq⟩ := bnNormalise_spec h
  have hr : resultState (bnNormalise cfg bn) = { bn with top := t } := by
    rw [heq]; split_ifs <;> rfl
  have hs : sanityCheckBignum cfg { bn with top := t } :=
    sanityCheckBignum_of_eq h rfl rfl (Nat.le_trans ht h.2.2)
  simp only [hr, bnNumBits_sane hw hs, Bignum.mag, magnitude_of_zero_above ht hz]
  rcases Nat.eq_zero_or_pos t with rfl | hpos
  · rw [if_pos rfl, magnitude_zero, Nat.size_zero]
  · obtain ⟨n, rfl⟩ : ∃ n, t = n + 1 := ⟨t - 1, by omega⟩
    have hd : bn.d n ≠ 0 := hstop.resolve_left n.succ_ne_zero
    rw [if_neg n.succ_ne_zero, Nat.add_sub_cancel, size_magnitude hd, max_eq_left (Nat.le_add_right _ _)]

/-- `BN_num_bits` of every sane bignum, for words of fewer than 128 bits: the bit length of the
magnitude, except that a zero top word still counts the `BN_BITS2·(top − 1)` bits below it, so
the count is never short and is exact once `BN_normalise` has lowered `top`. -/
theorem bnNumBits_counts_top_word (hw : w < 128) (h : sanityCheckBignum cfg bn) :
    bnNumBits cfg bn =
      ((if bn.top = 0 then 0 else max (Nat.size bn.mag) (w * (bn.top - 1)) : Nat) : Int) ∧
    bnNumBits cfg (resultState (bnNormalise cfg bn)) = Nat.size bn.mag :=
  ⟨bnNumBits_sane hw h, bnNumBits_bnNormalise hw h⟩

/-- The value one held in two words, the top one zero: 64 bits counted, one after normalising. -/
theorem bnNumBits_counts_top_word_zeroTop :
    let bn : Bignum 64 :=
      { dmax := 4, top := 2, neg := false, flags := Flags.none, d := fun i => if i = 0 then 1 else 0 }
    bnNumBits sampleConfig bn = 64 ∧ bnNumBits sampleConfig (resultState (bnNormalise sampleConfig bn)) = 1 := by
  intro bn
  have hm : bn.mag = 1 := by decide
  have h := bnNumBits_counts_top_word (by decide)
    (show sanityCheckBignum sampleConfig bn from ⟨by decide, by decide, by decide⟩)
  rw [hm, Nat.size_one] at h
  exact ⟨h.1.trans (by decide), h.2⟩

/-- What a successful `BN_set_bit` did: it set bit `b` of word `k < dmax` of a sane bignum, so
the magnitude gained `2^bitNo`, `top` grew to cover word `k`, and nothing else moved. -/
theorem bnSetBit_ok_inv {bitNo : Int} {bn' : Bignum w} (hok : bnSetBit cfg bitNo bn = .ok () bn') :
    ∃ k b, b < w ∧ bitNo = ((w * k + b : Nat) : Int) ∧ sanityCheckBignum cfg bn ∧ k < bn.dmax ∧
      bn'.mag = bn.mag ||| 2 ^ (w * k + b) ∧ bn'.dmax = bn.dmax ∧ bn'.flags = bn.flags ∧
      bn'.top = max bn.top (k + 1) := by
  by_cases hr : sanityCheckBignum cfg bn ∧ bn.flags.staticData = false ∧ 0 ≤ bitNo ∧
      bitNo < bn.dmax * w
  · obtain ⟨hsane, hs, h0, hlt⟩ := hr
    obtain ⟨k, b, hb, hk, rfl⟩ := exists_wordBit_lt h0 hlt
    refine ⟨k, b, hb, rfl, hsane, hk, ?_⟩
    by_cases hkt : k < bn.top
    · rw [bnSetBit_within hsane hs hb hkt] at hok
      cases hok
      exact ⟨magnitude_eq_or_twoPow hb fun j i _ => setBit_words_within hb hkt j i, rfl, rfl,
        (max_eq_left (show k + 1 ≤ bn.top by omega)).symm⟩
    · rw [bnSetBit_extend hsane hs hb (by omega) hk] at hok
      split_ifs at hok
      cases hok
      exact ⟨magnitude_eq_or_twoPow hb fun j i _ => setBit_words_extend hb (by omega) j i, rfl, rfl,
        (max_eq_right (show bn.top ≤ k + 1 by omega)).symm⟩
  · rw [bnSetBit_requires hr] at hok
    cases hok

theorem natCast_eq_max_add_one {A B p : Nat} (h : A = max B (p + 1)) :
    (A : Int) = max (B : Int) ((p : Int) + 1) := by
  subst h; omega

/-- After a successful `BN_set_bit( bn, bitNo )`, `BN_num_bits` is the larger of its old value
and `bitNo + 1`: on every bignum the call accepts, canonical or not. -/
theorem bnNumBits_bnSetBit (hw : w < 128) {bitNo : Int} {bn' : Bignum w}
    (hok : bnSetBit cfg bitNo bn = .ok () bn') :
    bnNumBits cfg bn' = max (bnNumBits cfg bn) (bitNo + 1) := by
  obtain ⟨k, b, hb, rfl, h, hk, hmag, hd, hf, htop⟩ := bnSetBit_ok_inv hok
  have h' : sanityCheckBignum cfg bn' := sanityCheckBignum_of_eq h hd hf (by have := h.2.2; omega)
  have hsize : Nat.size bn.mag ≤ w * bn.top := Nat.size_le.2 (magnitude_lt _ _)
  rw [bnNumBits_sane hw h', bnNumBits_sane hw h, hmag, size_or_two_pow, htop]
  apply natCast_eq_max_add_one
  by_cases hkt : k < bn.top
  · have ht0 : bn.top ≠ 0 := by omega
    simp only [max_eq_left hkt, if_neg ht0]
    rw [max_assoc, max_comm (w * k + b + 1), ← max_assoc]
  · -- the bit lies above the used words, so it alone decides the count
    have hle : w * bn.top ≤ w * k := Nat.mul_le_mul_left _ (by omega)
    have hlow : w * (bn.top - 1) ≤ w * bn.top := Nat.mul_le_mul_left _ (Nat.sub_le _ _)
    rw [max_eq_right (show bn.top ≤ k + 1 by omega), if_neg k.succ_ne_zero, Nat.add_sub_cancel,
      max_eq_right (show Nat.size bn.mag ≤ w * k + b + 1 by omega),
      max_eq_left (show w * k ≤ w * k + b + 1 by omega)]
    split_ifs
    · exact (max_eq_right (Nat.zero_le _)).symm
    · exact (max_eq_right (max_le (by omega) (by omega))).symm

/-- Bit 3 of a fresh standard bignum. -/
theorem bnNumBits_bnSetBit_init :
    ∃ bn', bnSetBit sampleConfig 3 (bnInit sampleConfig : Bignum 64) = .ok () bn' ∧
      bnNumBits sampleConfig bn' = max (bnNumBits sampleConfig (bnInit sampleConfig : Bignum 64)) (3 + 1) := by
  have hset := @bnSetBit_extend 64 sampleConfig (bnInit sampleConfig) 0 3 sanityCheckBignum_bnInit rfl
    (by decide) (Nat.zero_le _) (by decide)
  rw [if_pos (by decide)] at hset
  exact ⟨_, hset, bnNumBits_bnSetBit (by decide) hset⟩

/-- `BN_RECP_CTX_set( recp, d )` resets the context and then succeeds exactly when `d` is sane
and fits in a standard bignum: `N` then holds `d`'s words, sign and magnitude, `Nr` is a fresh
standard bignum and `num_bits` is `BN_num_bits( d )`. Otherwise it reports `FALSE` and leaves the
reset context, whatever the context held before. -/
theorem bnRecpCtxSet_outcome (hw : w < 128) (r : BnRecpCtx w) (d : Bignum w) :
    (sanityCheckBignum cfg d ∧ d.top ≤ cfg.allocWords →
      ∃ r', bnRecpCtxSet cfg d r = .ok true r' ∧ r'.N.SameValue d ∧ r'.N.mag = d.mag ∧
        r'.N.dmax = cfg.allocWords ∧ r'.Nr = bnInit cfg ∧
        r'.numBits = ((if d.top = 0 then 0 else max (Nat.size d.mag) (w * (d.top - 1)) : Nat) : Int)) ∧
    (¬ (sanityCheckBignum cfg d ∧ d.top ≤ cfg.allocWords) →
      bnRecpCtxSet cfg d r = .ok false (bnRecpCtxInit cfg)) := by
  refine ⟨fun hc => ?_, fun hc => ?_⟩
  · have hz : resultState (bnZero cfg (bnInit cfg : Bignum w)) = bnInit cfg := by
      have hd : Function.update (zeroise cfg.allocWords fun _ => (0 : BitVec w)) 0 0 = fun _ => 0 :=
        Function.update_eq_iff.2 ⟨rfl, fun _ _ => ite_self _⟩
      rw [bnZero_bnInit, bnSetWord_ok sanityCheckBignum_bnInit rfl, resultState_ok]
      simp only [bnInit, ne_eq, not_true_eq_false, if_false, hd]
    refine ⟨{ N := (bnInit cfg).copyFrom d, Nr := bnInit cfg, numBits := bnNumBits cfg d }, ?_,
      sameValue_copyFrom _ _, mag_copyFrom _ _, rfl, rfl, bnNumBits_sane hw hc.1⟩
    simp only [bnRecpCtxSet, bind_apply, set_apply, bnRecpCtxInit,
      bnCopy_ok sanityCheckBignum_bnInit hc.1 hc.2, pure_apply, hz]
  · simp only [bnRecpCtxSet, bind_apply, set_apply, bnRecpCtxInit, pure_apply,
      @bnCopy_fail w cfg (bnInit cfg) d fun hr => hc ⟨hr.2.1, hr.2.2⟩]

/-- The value one loaded into a reciprocal context. -/
theorem bnRecpCtxSet_outcome_valueOne :
    ∃ r', bnRecpCtxSet sampleConfig (bnValueOne sampleConfig : Bignum 64)
        (bnRecpCtxInit sampleConfig) = .ok true r' ∧ r'.N.mag = (bnValueOne sampleConfig : Bignum 64).mag :=
  let ⟨r', hr, _, hmag, _⟩ := (bnRecpCtxSet_outcome (by decide) (bnRecpCtxInit sampleConfig)
    (bnValueOne sampleConfig : Bignum 64)).1 ⟨⟨by decide, by decide, by decide⟩, by decide⟩
  ⟨r', hr, hmag⟩

end NumBits

/-! ## `BN_is_bit_set` on every input -/

/-- `BN_is_bit_set` of any bignum at any `int` bit number reads the magnitude: a failed sanity
check and a negative `bitNo` give `FALSE`, and so does every bit from `bnWordsToBits( dmax )` on,
where the `REQUIRES_B` stops the call, as the magnitude has no bit there. -/
theorem bnIsBitSet_reads_mag (bn : Bignum w) (bitNo : Int) :
    bnIsBitSet cfg bn bitNo =
      (decide (sanityCheckBignum cfg bn) && decide (0 ≤ bitNo) && bn.mag.testBit bitNo.toNat) := by
  by_cases h : sanityCheckBignum cfg bn
  · rcases Int.lt_or_le bitNo 0 with hneg | h0
    · rw [bnIsBitSet_neg hneg, decide_eq_false (Int.not_le.2 hneg), Bool.and_false, Bool.false_and]
    rw [decide_eq_true h, decide_eq_true h0, Bool.true_and, Bool.true_and]
    rcases Int.lt_or_le bitNo (bn.dmax * w) with hlt | hge
    · obtain ⟨k, b, hb, hk, rfl⟩ := exists_wordBit_lt h0 hlt
      rw [bnIsBitSet_eq h hb hk, Int.toNat_ofNat]
    · -- past the capacity: the call's check fails, and `mag < 2^(BN_BITS2·top)` has no such bit
      have hcap : w * bn.top ≤ bitNo.toNat := by
        have := Nat.mul_le_mul_left w h.2.2
        rw [Nat.mul_comm w bn.dmax] at this; omega
      have hmag : bn.mag < 2 ^ bitNo.toNat :=
        Nat.lt_of_lt_of_le (magnitude_lt _ _) (Nat.pow_le_pow_right (by decide) hcap)
      rw [Nat.testBit_lt_two_pow hmag]
      simp only [bnIsBitSet, if_neg (not_not_intro h), if_pos (Int.not_lt.2 hge)]
  · rw [decide_eq_false h, Bool.false_and, Bool.false_and]
    simp only [bnIsBitSet, if_pos h]

end CtxBn
