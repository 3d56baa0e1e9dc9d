import CtxBn.Reduction

/-!
# CtxBn.BignumCorrect

What the value routines keep and what they write, for every argument.

* `canonical_preserved`: `BN_clear`, `BN_set_word`, `BN_copy`, `BN_swap`, `BN_set_bit`,
  `BN_set_negative`, `BN_normalise` and `BN_RECP_CTX_set` leave every bignum they write
  canonical when their arguments are, on success and on every early return.
* `static_bignum_frame`: a static bignum is left alone by `BN_clear`, `BN_set_word`,
  `BN_set_bit`, `BN_normalise` and, as first operand, by `BN_swap`; `BN_copy`,
  `BN_set_negative` and `BN_swap` with it as second operand do not look at the flag and write it.
* `bnSwap_outcomes`: `BN_swap` exchanges, keeps both, or overwrites only the first operand,
  according to how the tops compare with the standard `tmp` and with each other's `dmax`.
-/

namespace CtxBn

variable {w : Nat} {cfg : Config}

section Canonical

variable {bn src : Bignum w}

theorem canonical_bnInit : (bnInit cfg : Bignum w).Canonical cfg :=
  ⟨sanityCheckBignum_bnInit, .inl rfl, fun _ => rfl⟩

/-- A canonical bignum with a used word has a nonzero top word. -/
theorem Bignum.Canonical.top_word (h : bn.Canonical cfg) (ht : bn.top ≠ 0) :
    ∃ t, bn.top = t + 1 ∧ bn.d t ≠ 0 :=
  ⟨bn.top - 1, by omega, by simpa [show bn.top - 1 + 1 = bn.top by omega] using h.2.1.resolve_left ht⟩

theorem canonical_copyFrom (hd : sanityCheckBignum cfg bn) (hs : src.Canonical cfg)
    (ht : src.top ≤ bn.dmax) : (bn.copyFrom src).Canonical cfg := by
  refine ⟨sanityCheckBignum_copyFrom hd ht, ?_, hs.2.2⟩
  rcases Nat.eq_zero_or_pos src.top with h0 | h0
  · exact .inl h0
  · exact .inr (by simpa [Bignum.copyFrom, copyWords, show src.top - 1 < src.top by omega]
      using hs.2.1.resolve_left (by omega))

theorem or_ne_zero_of_left {x y : BitVec w} (hx : x ≠ 0) : x ||| y ≠ 0 := fun h =>
  hx (BitVec.eq_of_getLsbD_eq fun i => by
    have := congrArg (BitVec.getLsbD · i.val) h
    simp only [BitVec.getLsbD_or] at this
    simp_all)

theorem one_shiftLeft_ne_zero {b : Nat} (hb : b < w) : (1 : BitVec w) <<< b ≠ 0 := fun h0 => by
  have := congrArg BitVec.toNat h0
  rw [show (1 : BitVec w) <<< b = BitVec.twoPow w b from rfl, BitVec.toNat_twoPow,
    Nat.mod_eq_of_lt (Nat.pow_lt_pow_right (by decide) hb)] at this
  simp at this

theorem bnNormalise_of_canonical (h : bn.Canonical cfg) : bnNormalise cfg bn = .ok () bn := by
  obtain ⟨t, ht, hz, hstop, heq⟩ := bnNormalise_spec h.1
  have htop : t = bn.top := by
    by_contra hne
    have hd0 := hz (bn.top - 1) (by omega) (by omega)
    rcases h.2.1 with h0 | h0
    · omega
    · exact h0 hd0
  subst htop
  have : ({ bn with top := bn.top } : Bignum w) = bn := rfl
  rw [heq, this, Nat.sub_self, if_pos (by have := h.1.1; have := h.1.2.1; omega)]

theorem canonical_bnClear (h : bn.Canonical cfg) : (resultState (bnClear cfg bn)).Canonical cfg := by
  cases hs : bn.flags.staticData
  · rw [bnClear_ok h.1 hs]
    exact ⟨sanityCheckBignum_of_eq h.1 rfl rfl (Nat.zero_le _), .inl rfl, fun _ => rfl⟩
  · rw [bnClear_static hs]; exact h

theorem canonical_bnSetWord (h : bn.Canonical cfg) (word : BitVec w) :
    (resultState (bnSetWord cfg word bn)).Canonical cfg := by
  by_cases hr : sanityCheckBignum cfg bn ∧ bn.flags.staticData = false
  · rw [bnSetWord_ok hr.1 hr.2]
    refine ⟨sanityCheckBignum_of_eq h.1 rfl rfl ?_, ?_, fun _ => rfl⟩
    · have := h.1.1; dsimp only [resultState_ok]; split_ifs <;> omega
    · by_cases hw : word = 0
      · exact .inl (by simp [hw])
      · have hw' : ¬ word = 0#w := hw
        exact .inr (by simp [hw'])
  · rw [bnSetWord_fail hr]; exact h

theorem canonical_bnCopy (h : bn.Canonical cfg) (hs : src.Canonical cfg) :
    (resultState (bnCopy cfg src bn)).Canonical cfg := by
  by_cases ht : src.top ≤ bn.dmax
  · rw [bnCopy_ok h.1 hs.1 ht]; exact canonical_copyFrom h.1 hs ht
  · rw [bnCopy_fail fun hr => ht hr.2.2]; exact h

theorem canonical_bnSwap {b1 b2 : Bignum w} (h1 : b1.Canonical cfg) (h2 : b2.Canonical cfg) :
    (resultState (bnSwap cfg (b1, b2))).1.Canonical cfg ∧
      (resultState (bnSwap cfg (b1, b2))).2.Canonical cfg := by
  cases hs : b1.flags.staticData
  · rw [bnSwap_spec h1.1 h2.1 hs]
    split_ifs with c1 c2
    · exact ⟨canonical_copyFrom h1.1 h2 c1.2, canonical_copyFrom h2.1 h1 c2⟩
    · exact ⟨canonical_copyFrom h1.1 h2 c1.2, h2⟩
    · exact ⟨h1, h2⟩
  · simp [bnSwap, hs, h1, h2]

theorem canonical_bnSetBit (h : bn.Canonical cfg) (bitNo : Int) :
    (resultState (bnSetBit cfg bitNo bn)).Canonical cfg := by
  by_cases hr : sanityCheckBignum cfg bn ∧ bn.flags.staticData = false ∧ 0 ≤ bitNo ∧
      bitNo < bn.dmax * w
  · obtain ⟨hsane, hs, h0, hlt⟩ := hr
    obtain ⟨k, b, hb, hk, rfl⟩ := exists_wordBit_lt h0 hlt
    by_cases hkt : k < bn.top
    · rw [bnSetBit_within hsane hs hb hkt]
      refine ⟨hsane, .inr ?_, fun ht => absurd (show bn.top = 0 from ht) (by omega)⟩
      show Function.update bn.d k (bn.d k ||| (1 : BitVec w) <<< b) (bn.top - 1) ≠ 0
      by_cases he : bn.top - 1 = k
      · rw [he, Function.update_same]
        exact or_ne_zero_of_left (he ▸ (h.2.1.resolve_left (by omega)))
      · rw [Function.update_noteq he]; exact h.2.1.resolve_left (by omega)
    · rw [bnSetBit_extend hsane hs hb (by omega) hk]
      split_ifs
      · exact ⟨⟨hsane.1, hsane.2.1, hk⟩, .inr (by simpa using one_shiftLeft_ne_zero hb),
          fun ht => by simp at ht⟩
      · refine ⟨hsane, ?_, h.2.2⟩
        rcases Nat.eq_zero_or_pos bn.top with h0 | h0
        · exact .inl h0
        · exact .inr (by simpa [show ¬ bn.top ≤ bn.top - 1 by omega]
            using h.2.1.resolve_left (by omega))
  · rw [bnSetBit_requires hr]; exact h

theorem canonical_bnSetNegative (h : bn.Canonical cfg) (value : Int) :
    (resultState (bnSetNegative value bn)).Canonical cfg := by
  by_cases ht : bn.top = 0
  · rw [bnSetNegative_zero ht]; exact h
  · rw [bnSetNegative_pos ht]; exact ⟨h.1, h.2.1, fun h0 => absurd h0 ht⟩

theorem canonical_bnNormalise (h : bn.Canonical cfg) :
    (resultState (bnNormalise cfg bn)).Canonical cfg := by
  rw [bnNormalise_of_canonical h]; exact h

theorem bnZero_bnInit : bnZero cfg (bnInit cfg : Bignum w) = bnSetWord cfg 0 (bnInit cfg) := by
  have h := @bnSetWord_ok w cfg _ sanityCheckBignum_bnInit rfl 0
  rw [bnZero, callVoid_of_ok h, h]

theorem canonical_bnRecpCtxSet (r : BnRecpCtx w) (h : src.Canonical cfg) :
    (resultState (bnRecpCtxSet cfg src r)).N.Canonical cfg ∧
      (resultState (bnRecpCtxSet cfg src r)).Nr.Canonical cfg := by
  have hz : (resultState (bnZero cfg (bnInit cfg : Bignum w))).Canonical cfg := by
    rw [bnZero_bnInit]; exact canonical_bnSetWord canonical_bnInit 0
  by_cases ht : src.top ≤ cfg.allocWords
  · simp only [bnRecpCtxSet, bind_apply, set_apply, bnRecpCtxInit,
      bnCopy_ok sanityCheckBignum_bnInit h.1 ht, pure_apply, resultState_ok]
    exact ⟨canonical_copyFrom sanityCheckBignum_bnInit h ht, hz⟩
  · simp only [bnRecpCtxSet, bind_apply, set_apply, bnRecpCtxInit, pure_apply, resultState_ok,
      @bnCopy_fail w cfg (bnInit cfg) src fun hr => ht hr.2.2]
    exact ⟨canonical_bnInit, canonical_bnInit⟩

/-- Every value routine keeps canonical form on every path it can take: what it writes is
canonical after the call, however the call returned. -/
theorem canonical_preserved :
    (∀ bn : Bignum w, bn.Canonical cfg → (resultState (bnClear cfg bn)).Canonical cfg) ∧
    (∀ (bn : Bignum w) (word : BitVec w), bn.Canonical cfg →
      (resultState (bnSetWord cfg word bn)).Canonical cfg) ∧
    (∀ dest src : Bignum w, dest.Canonical cfg → src.Canonical cfg →
      (resultState (bnCopy cfg src dest)).Canonical cfg) ∧
    (∀ b1 b2 : Bignum w, b1.Canonical cfg → b2.Canonical cfg →
      (resultState (bnSwap cfg (b1, b2))).1.Canonical cfg ∧
        (resultState (bnSwap cfg (b1, b2))).2.Canonical cfg) ∧
    (∀ (bn : Bignum w) (bitNo : Int), bn.Canonical cfg →
      (resultState (bnSetBit cfg bitNo bn)).Canonical cfg) ∧
    (∀ (bn : Bignum w) (value : Int), bn.Canonical cfg →
      (resultState (bnSetNegative value bn)).Canonical cfg) ∧
    (∀ bn : Bignum w, bn.Canonical cfg → (resultState (bnNormalise cfg bn)).Canonical cfg) ∧
    (∀ (r : BnRecpCtx w) (d : Bignum w), d.Canonical cfg →
      (resultState (bnRecpCtxSet cfg d r)).N.Canonical cfg ∧
        (resultState (bnRecpCtxSet cfg d r)).Nr.Canonical cfg) :=
  ⟨fun _ h => canonical_bnClear h, fun _ word h => canonical_bnSetWord h word,
    fun _ _ h hs => canonical_bnCopy h hs, fun _ _ h1 h2 => canonical_bnSwap h1 h2,
    fun _ bitNo h => canonical_bnSetBit h bitNo, fun _ value h => canonical_bnSetNegative h value,
    fun _ h => canonical_bnNormalise h, fun r _ h => canonical_bnRecpCtxSet r h⟩

end Canonical

/-! ## Static bignums -/

section Static

variable {s : Bignum w}

/-- A static bignum is left alone by the routines that test the flag (`BN_clear`, `BN_set_word`,
`BN_set_bit`), by `BN_normalise` (it is canonical already) and by `BN_swap` as first operand,
the one both of its `REQUIRES_V` lines test. `BN_copy` into it and `BN_set_negative` on it test
no flag and write it, and so does `BN_swap` with it as second operand: whenever the exchange
goes through, it receives the first operand's value. -/
theorem static_bignum_frame (hs : s.flags.staticData = true) (hc : s.Canonical cfg) :
    resultState (bnClear cfg s) = s ∧
    (∀ word : BitVec w, resultState (bnSetWord cfg word s) = s) ∧
    (∀ bitNo : Int, resultState (bnSetBit cfg bitNo s) = s) ∧
    resultState (bnNormalise cfg s) = s ∧
    (∀ b2 : Bignum w, resultState (bnSwap cfg (s, b2)) = (s, b2)) ∧
    (∀ src : Bignum w, sanityCheckBignum cfg src → src.top ≤ s.dmax →
      resultState (bnCopy cfg src s) = s.copyFrom src) ∧
    (s.top ≠ 0 → ∀ value : Int, resultState (bnSetNegative value s) = { s with neg := decide (value ≠ 0) }) ∧
    (∀ b1 : Bignum w, (resultState (bnSwap cfg (b1, s))).2 =
      if sanityCheckBignum cfg b1 ∧ b1.flags.staticData = false ∧ b1.top ≤ cfg.allocWords ∧
          s.top ≤ b1.dmax ∧ b1.top ≤ s.dmax
      then s.copyFrom b1 else s) := by
  have hns : ¬ s.flags.staticData = false := by simp [hs]
  refine ⟨bnClear_static hs, fun word => ?_, fun bitNo => ?_, by rw [bnNormalise_of_canonical hc]; rfl,
    fun b2 => by simp [bnSwap, hs], fun src h ht => by rw [bnCopy_ok hc.1 h ht]; rfl,
    fun ht value => by rw [bnSetNegative_pos ht]; rfl, fun b1 => ?_⟩
  · rw [bnSetWord_fail fun h => hns h.2]; rfl
  · rw [bnSetBit_requires fun h => hns h.2.1]; rfl
  -- `s` as second operand: only `b1` is checked, so `s` is written exactly when the swap is
  by_cases hs1 : b1.flags.staticData = false
  · by_cases h1 : sanityCheckBignum cfg b1
    · rw [bnSwap_spec h1 hc.1 hs1]
      by_cases c12 : b1.top ≤ cfg.allocWords ∧ s.top ≤ b1.dmax
      · by_cases c3 : b1.top ≤ s.dmax
        · rw [if_pos c12, if_pos c3, if_pos ⟨h1, hs1, c12.1, c12.2, c3⟩]; rfl
        · rw [if_pos c12, if_neg c3, if_neg fun h => c3 h.2.2.2.2]; rfl
      · rw [if_neg c12, if_neg fun h => c12 ⟨h.2.2.1, h.2.2.2.1⟩]; rfl
    · rw [if_neg fun h => h1 h.1]
      simp [bnSwap, hs1, @bnCopy_fail w cfg (bnInit cfg) b1 fun h => h1 h.2.1]
  · rw [if_neg fun h => hs1 h.2.1]; simp [bnSwap, hs1]

/-- A writable bignum holding 1 that its owner has marked `BN_FLG_STATIC_DATA` (`BN_init`,
`BN_set_word( s, 1 )`, then the flag): `BN_copy` of a zero into it, `BN_set_negative( s, TRUE )`
and `BN_swap( zero, s )` each change it. -/
theorem static_bignum_frame_writable :
    let s : Bignum 64 := { resultState (bnSetWord sampleConfig 1 (bnInit sampleConfig)) with
      flags := { Flags.none with staticData := true } }
    s.Canonical sampleConfig ∧ s.top = 1 ∧
      (resultState (bnCopy sampleConfig (bnInit sampleConfig) s)).top = 0 ∧
      (resultState (bnSetNegative 1 s)).neg = true ∧
      (resultState (bnSwap sampleConfig (bnInit sampleConfig, s))).2.top = 0 := by
  intro s
  have hc : s.Canonical sampleConfig :=
    ⟨⟨by decide, by decide, by decide⟩, .inr (by decide), by decide⟩
  obtain ⟨-, -, -, -, -, hcopy, hneg, hswap⟩ := static_bignum_frame rfl hc
  refine ⟨hc, by decide, ?_, ?_, ?_⟩
  · rw [hcopy _ sanityCheckBignum_bnInit (by decide)]; rfl
  · rw [hneg (by decide) 1]; rfl
  · rw [hswap, if_pos ⟨sanityCheckBignum_bnInit, rfl, by decide, by decide, by decide⟩]; rfl

end Static

/-! ## `BN_swap` -/

section Word

variable {bn : Bignum w}

theorem bnSetWord_result (h : sanityCheckBignum cfg bn) (hs : bn.flags.staticData = false)
    (word : BitVec w) :
    sanityCheckBignum cfg (resultState (bnSetWord cfg word bn)) ∧
      (resultState (bnSetWord cfg word bn)).top = (if word ≠ 0 then 1 else 0) ∧
      (resultState (bnSetWord cfg word bn)).d 0 = word := by
  rw [bnSetWord_ok h hs, resultState_ok]
  refine ⟨sanityCheckBignum_of_eq h rfl rfl ?_, rfl, by simp only [Function.update_same]⟩
  have := h.1
  show (if word ≠ 0 then 1 else 0) ≤ bn.dmax
  split_ifs <;> omega

/-- `BN_get_word` on a canonical bignum reads its magnitude when that fits in a word and answers
`BN_NAN` when it does not; after `BN_set_word( bn, word )` on a sane bignum that is not static it
reads `word` back, zero included. -/
theorem bnGetWord_reads_value (nan : BitVec w) :
    (∀ bn : Bignum w, bn.Canonical cfg →
      bnGetWord cfg nan bn = if bn.mag < 2 ^ w then BitVec.ofNat w bn.mag else nan) ∧
    (∀ (bn : Bignum w) (word : BitVec w), sanityCheckBignum cfg bn →
      bn.flags.staticData = false → bnGetWord cfg nan (resultState (bnSetWord cfg word bn)) = word) := by
  refine ⟨fun bn h => ?_, fun bn word h hs => ?_⟩
  · rcases Nat.lt_or_ge 1 bn.top with ht | ht
    · -- two words or more: the top one is nonzero, so the value is at least `2^BN_BITS2`
      obtain ⟨t, htop, hd⟩ := h.top_word (by omega)
      have hbig : 2 ^ w ≤ bn.mag := by
        rw [Bignum.mag, htop]
        exact Nat.le_trans (Nat.pow_le_pow_right (by decide) (Nat.le_mul_of_pos_right w (by omega)))
          (two_pow_le_magnitude hd)
      rw [if_neg (Nat.not_lt.2 hbig), bnGetWord, if_neg (not_not_intro h.1), if_pos ht]
    · rcases Nat.lt_or_ge bn.top 1 with h0 | h1
      · have hm : bn.mag = 0 := by rw [Bignum.mag, Nat.lt_one_iff.1 h0, magnitude_zero]
        rw [hm, if_pos (Nat.two_pow_pos w), bnGetWord, if_neg (not_not_intro h.1),
          if_neg (by omega), if_pos h0]
        rfl
      · have hm : bn.mag = (bn.d 0).toNat := by
          rw [Bignum.mag, show bn.top = 1 by omega, magnitude_one]
        rw [hm, if_pos (bn.d 0).isLt, BitVec.ofNat_toNat, BitVec.setWidth_eq, bnGetWord,
          if_neg (not_not_intro h.1), if_neg (by omega), if_neg (by omega)]
  · obtain ⟨hsane, htop, hd⟩ := bnSetWord_result h hs word
    rw [bnGetWord, if_neg (not_not_intro hsane), htop]
    by_cases hw : word = 0
    · rw [if_neg (not_not_intro hw), if_neg (by decide), if_pos (by decide), hw]
    · rw [if_pos hw, if_neg (by decide), if_neg (by decide), hd]

theorem bnGetWord_reads_value_valueOne :
    (bnValueOne sampleConfig : Bignum 64).Canonical sampleConfig ∧
      bnGetWord sampleConfig 0xFFFFFFFFFFFFFFFF (bnValueOne sampleConfig : Bignum 64) =
        if (bnValueOne sampleConfig : Bignum 64).mag < 2 ^ 64 then
          BitVec.ofNat 64 (bnValueOne sampleConfig : Bignum 64).mag
        else 0xFFFFFFFFFFFFFFFF :=
  have hc : (bnValueOne sampleConfig : Bignum 64).Canonical sampleConfig :=
    ⟨⟨by decide, by decide, by decide⟩, .inr (by decide), fun h => nomatch h⟩
  ⟨hc, (bnGetWord_reads_value 0xFFFFFFFFFFFFFFFF).1 _ hc⟩

theorem sameValue_copyFrom (a b : Bignum w) : (a.copyFrom b).SameValue b :=
  ⟨rfl, rfl, fun _ hi => if_pos hi⟩

theorem mag_copyFrom (a b : Bignum w) : (a.copyFrom b).mag = b.mag :=
  magnitude_congr fun _ hi => if_pos hi

/-- `BN_dup` succeeds exactly when the heap gives a block and the source is sane and fits in a
standard bignum, whatever the source's own class: a `BIGNUM_EXT` value longer than
`BIGNUM_ALLOC_WORDS` words is not duplicated. The duplicate is a standard bignum flagged
`BN_FLG_MALLOCED` with the source's words, length and sign, hence its magnitude, and it is
canonical when the source is. -/
theorem bnDup_outcome (allocOk : Bool) (src : Bignum w) :
    ((bnDup cfg allocOk src).isSome ↔
      allocOk = true ∧ sanityCheckBignum cfg src ∧ src.top ≤ cfg.allocWords) ∧
    ∀ d, bnDup cfg allocOk src = some d →
      d.SameValue src ∧ d.mag = src.mag ∧ d.dmax = cfg.allocWords ∧
        d.flags = { Flags.none with malloced := true } ∧ (src.Canonical cfg → d.Canonical cfg) := by
  cases allocOk
  · exact ⟨by simp [bnDup, bnNew], fun d h => by simp [bnDup, bnNew] at h⟩
  · -- the new block: a standard bignum, sane
    have hnew : sanityCheckBignum cfg ({ bnInit cfg with flags := { Flags.none with malloced := true } } : Bignum w) :=
      ⟨cfg.allocWords_pos, Nat.le_refl _, Nat.zero_le _⟩
    by_cases hc : sanityCheckBignum cfg src ∧ src.top ≤ cfg.allocWords
    · have hd : bnDup cfg true src =
          some (({ bnInit cfg with flags := { Flags.none with malloced := true } } : Bignum w).copyFrom src) := by
        simp only [bnDup, bnNew, if_true, bnCopy_ok hnew hc.1 hc.2]
      refine ⟨by simp [hd, hc], fun d h => ?_⟩
      rw [hd, Option.some.injEq] at h
      subst h
      exact ⟨sameValue_copyFrom _ _, mag_copyFrom _ _, rfl, rfl, fun hs => canonical_copyFrom hnew hs hc.2⟩
    · have hd : bnDup cfg true src = none := by
        simp only [bnDup, bnNew, if_true,
          @bnCopy_fail w cfg { bnInit cfg with flags := { Flags.none with malloced := true } } src
            fun h => hc ⟨h.2.1, h.2.2⟩]
      exact ⟨by simp [hd, hc], fun d h => by rw [hd] at h; cases h⟩

theorem bnDup_outcome_valueOne :
    (bnDup sampleConfig true (bnValueOne sampleConfig : Bignum 64)).isSome = true :=
  (bnDup_outcome true (bnValueOne sampleConfig : Bignum 64)).1.2
    ⟨rfl, ⟨by decide, by decide, by decide⟩, by decide⟩

end Word

end CtxBn
