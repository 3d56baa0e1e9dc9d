import CtxBn.BitsCorrect

/-!
# CtxBn.Values

The value routines against the integers they stand for. A bignum holds the integer `val`, its
magnitude with the sign `neg`; `absReg` forgets the words and keeps that integer together with
the bignum's `dmax` and the words its class allows (`getBNMaxSize`). These `IntReg`s are the
abstract machine: `BnOp.absStep` says what `BN_clear`, `BN_set_word`, `BN_copy`, `BN_swap`,
`BN_set_negative`, `BN_set_bit` and `BN_normalise` do to the integers, including the failures that
the capacities force and the one `BN_set_bit`'s off-by-one adds (a bit above `top` in the last
word of the class), and `BnOp.exec` runs the routines of `CtxBn.Bignum` and `CtxBn.Bits` on
numbered bignums, with the caller going on whatever each call returns.

Each routine is stated once against the abstract machine (`holds_bnClear`, ..., `holds_bnSetBit`),
as a `Holds` record: the bignum it leaves is canonical, has the old capacity and flags, and holds
the integer the abstract step computes. The failure conditions are read through
`Bignum.Canonical.top_eq_wordLen`: a canonical bignum uses exactly the words its magnitude needs.

* `value_routines_refine`: from canonical, non-static bignums, every run of value routines keeps
  them canonical and non-static and maps, through `absReg`, to the run of the abstract machine.
-/

namespace CtxBn

/-- `m` with the sign `neg`. -/
def signed (neg : Bool) (m : Nat) : Int := if neg then -(m : Int) else m

/-- The integer a bignum holds. -/
def Bignum.val {w : Nat} (bn : Bignum w) : Int := signed bn.neg bn.mag

/-- The words a magnitude needs: `⌈ Nat.size m / BN_BITS2 ⌉`. -/
def wordLen (w m : Nat) : Nat := (Nat.size m + w - 1) / w

/-- A bignum as the value routines see it: the integer it holds, its `dmax` and the words its
class allows. -/
structure IntReg where
  val : Int
  dmax : Nat
  maxSize : Nat
  deriving DecidableEq, Repr

variable {w : Nat} (cfg : Config)

def absReg (bn : Bignum w) : IntReg := ⟨bn.val, bn.dmax, getBNMaxSize cfg bn⟩

def absRegs (bns : Nat → Bignum w) : Nat → IntReg := absReg cfg ∘ bns

@[simp] theorem absRegs_apply (bns : Nat → Bignum w) (r : Nat) : absRegs cfg bns r = absReg cfg (bns r) := rfl

@[simp] theorem absReg_val (bn : Bignum w) : (absReg cfg bn).val = bn.val := rfl

@[simp] theorem absReg_dmax (bn : Bignum w) : (absReg cfg bn).dmax = bn.dmax := rfl

@[simp] theorem absReg_maxSize (bn : Bignum w) : (absReg cfg bn).maxSize = getBNMaxSize cfg bn := rfl

/-- A call of a value routine on numbered bignums. -/
inductive BnOp (w : Nat) where
  | clear (r : Nat)
  | setWord (r : Nat) (word : BitVec w)
  | copy (dest src : Nat)
  | swap (a b : Nat)
  | setNegative (r : Nat) (value : Int)
  | setBit (r : Nat) (bitNo : Int)
  | normalise (r : Nat)

/-- Register `r` now holds `x`. -/
def setVal (v : Nat → IntReg) (r : Nat) (x : Int) : Nat → IntReg :=
  Function.update v r { v r with val := x }

namespace BnOp

/-- The routine on the numbered bignums; the caller goes on with the bignums as the call left
them, whatever it returned. -/
def exec : BnOp w → (Nat → Bignum w) → Nat → Bignum w
  | .clear r, bns => Function.update bns r (resultState (bnClear cfg (bns r)))
  | .setWord r word, bns => Function.update bns r (resultState (bnSetWord cfg word (bns r)))
  | .copy dest src, bns => Function.update bns dest (resultState (bnCopy cfg (bns src) (bns dest)))
  | .swap a b, bns =>
    Function.update (Function.update bns a (resultState (bnSwap cfg (bns a, bns b))).1) b
      (resultState (bnSwap cfg (bns a, bns b))).2
  | .setNegative r value, bns => Function.update bns r (resultState (bnSetNegative value (bns r)))
  | .setBit r bitNo, bns => Function.update bns r (resultState (bnSetBit cfg bitNo (bns r)))
  | .normalise r, bns => Function.update bns r (resultState (bnNormalise cfg (bns r)))

/-- What each routine does to the integers: clear to zero, set to a word, copy, exchange, set
the sign of a nonzero value, or in the magnitude, leaving the value alone. A copy needs room in
the destination, an exchange room in a standard temporary and in both operands (the last copy
failing leaves `a` overwritten), and a bit must lie inside `dmax` and, above the used words,
below the last word of the class: `BN_set_bit`'s zero fill fails its closing check for a bit
above `top` in word `getBNMaxSize − 1`, though that bit fits. -/
def absStep : BnOp w → (Nat → IntReg) → Nat → IntReg
  | .clear r, v => setVal v r 0
  | .setWord r word, v => setVal v r word.toNat
  | .copy dest src, v =>
    if wordLen w (v src).val.natAbs ≤ (v dest).dmax then setVal v dest (v src).val else v
  | .swap a b, v =>
    if wordLen w (v a).val.natAbs ≤ cfg.allocWords ∧ wordLen w (v b).val.natAbs ≤ (v a).dmax then
      if wordLen w (v a).val.natAbs ≤ (v b).dmax then setVal (setVal v a (v b).val) b (v a).val
      else setVal v a (v b).val
    else v
  | .setNegative r value, v =>
    setVal v r (if (v r).val = 0 then 0 else signed (decide (value ≠ 0)) (v r).val.natAbs)
  | .setBit r bitNo, v =>
    if 0 ≤ bitNo ∧ bitNo < (v r).dmax * w ∧
        (bitNo.toNat / w < wordLen w (v r).val.natAbs ∨ bitNo.toNat / w + 1 < (v r).maxSize) then
      setVal v r (signed (decide ((v r).val < 0)) ((v r).val.natAbs ||| 2 ^ bitNo.toNat))
    else v
  | .normalise _, v => v

end BnOp

def execOps : List (BnOp w) → (Nat → Bignum w) → Nat → Bignum w
  | [], bns => bns
  | op :: ops, bns => execOps ops (op.exec cfg bns)

def absRun : List (BnOp w) → (Nat → IntReg) → Nat → IntReg
  | [], v => v
  | op :: ops, v => absRun ops (op.absStep cfg v)

/-! ## Canonical bignums and their integers -/

section Canonical

variable {cfg} {bn : Bignum w}

theorem natAbs_signed (neg : Bool) (m : Nat) : (signed neg m).natAbs = m := by
  cases neg <;> simp [signed]

theorem signed_eq_zero {neg : Bool} {m : Nat} : signed neg m = 0 ↔ m = 0 := by
  cases neg <;> simp [signed]

theorem signed_neg_iff {neg : Bool} {m : Nat} (hm : m ≠ 0) : signed neg m < 0 ↔ neg = true := by
  cases neg
  · exact iff_of_false (Int.not_lt.2 (Int.ofNat_nonneg m)) Bool.false_ne_true
  · exact iff_of_true (show -(m : Int) < 0 by omega) rfl

theorem wordLen_zero : wordLen w 0 = 0 := by
  rw [wordLen, Nat.size_zero, Nat.zero_add]
  rcases Nat.eq_zero_or_pos w with rfl | hw
  · rfl
  · exact Nat.div_eq_of_lt (by omega)

/-- A canonical bignum uses exactly the words its magnitude needs. -/
theorem Bignum.Canonical.top_eq_wordLen (h : bn.Canonical cfg) : bn.top = wordLen w bn.mag := by
  by_cases ht : bn.top = 0
  · rw [Bignum.mag, ht, magnitude_zero, wordLen_zero]
  obtain ⟨t, htop, hd⟩ := h.top_word ht
  have hs := size_toNat_pos hd
  have hsw := size_toNat_le (bn.d t)
  rw [wordLen, Bignum.mag, htop, size_magnitude hd,
    show w * t + Nat.size (bn.d t).toNat + w - 1 = w * t + (Nat.size (bn.d t).toNat + w - 1) by omega,
    Nat.mul_add_div (by omega),
    Nat.div_eq_of_lt_le (show 1 * w ≤ Nat.size (bn.d t).toNat + w - 1 by omega) (by omega)]

theorem Bignum.Canonical.neg_of_mag_eq_zero (h : bn.Canonical cfg) (hm : bn.mag = 0) :
    bn.neg = false :=
  h.2.2 (by
    by_contra ht
    obtain ⟨t, htop, hd⟩ := h.top_word ht
    have := two_pow_le_magnitude hd
    rw [Bignum.mag, htop] at hm
    have := Nat.two_pow_pos (w * t)
    omega)

theorem Bignum.Canonical.natAbs_val (_ : bn.Canonical cfg) : bn.val.natAbs = bn.mag :=
  natAbs_signed _ _

theorem Bignum.Canonical.val_neg_iff (h : bn.Canonical cfg) : bn.val < 0 ↔ bn.neg = true := by
  by_cases hm : bn.mag = 0
  · simp [Bignum.val, hm, h.neg_of_mag_eq_zero hm, signed]
  · exact signed_neg_iff hm

end Canonical

/-! ## Each routine against the abstract machine -/

/-- What a routine left of `bn`: canonical, with `bn`'s capacity and flags, holding `x`. -/
structure Holds (bn bn' : Bignum w) (x : Int) : Prop where
  canonical : bn'.Canonical cfg
  dmax : bn'.dmax = bn.dmax
  flags : bn'.flags = bn.flags
  val : bn'.val = x

section Routines

variable {cfg} {bn src : Bignum w}

theorem Holds.absReg_eq {bn' : Bignum w} {x : Int} (h : Holds cfg bn bn' x) :
    absReg cfg bn' = { absReg cfg bn with val := x } := by
  simp only [absReg, getBNMaxSize, h.dmax, h.flags, h.val]

theorem Holds.refl (h : bn.Canonical cfg) : Holds cfg bn bn bn.val := ⟨h, rfl, rfl, rfl⟩

theorem holds_bnClear (h : bn.Canonical cfg) (hs : bn.flags.staticData = false) :
    Holds cfg bn (resultState (bnClear cfg bn)) 0 := by
  refine ⟨canonical_bnClear h, ?_, ?_, ?_⟩ <;> rw [bnClear_ok h.1 hs] <;> rfl

theorem holds_bnSetWord (h : bn.Canonical cfg) (hs : bn.flags.staticData = false) (word : BitVec w) :
    Holds cfg bn (resultState (bnSetWord cfg word bn)) word.toNat := by
  refine ⟨canonical_bnSetWord h word, ?_, ?_, ?_⟩ <;> rw [bnSetWord_ok h.1 hs, resultState_ok]
  by_cases hw : word = 0
  · simp [Bignum.val, Bignum.mag, signed, hw]
  · rw [if_pos hw]
    simp [Bignum.val, Bignum.mag, signed, magnitude_one]

theorem holds_copyFrom (h : sanityCheckBignum cfg bn) (hs : src.Canonical cfg) (ht : src.top ≤ bn.dmax) :
    Holds cfg bn (bn.copyFrom src) src.val :=
  ⟨canonical_copyFrom h hs ht, rfl, rfl, by rw [Bignum.val, mag_copyFrom]; rfl⟩

theorem holds_bnCopy (h : bn.Canonical cfg) (hs : src.Canonical cfg) :
    Holds cfg bn (resultState (bnCopy cfg src bn)) (if src.top ≤ bn.dmax then src.val else bn.val) := by
  by_cases ht : src.top ≤ bn.dmax
  · rw [bnCopy_ok h.1 hs.1 ht, resultState_ok, if_pos ht]
    exact holds_copyFrom h.1 hs ht
  · rw [bnCopy_fail fun hr => ht hr.2.2, resultState_error, if_neg ht]
    exact .refl h

/-- `BN_swap`: each operand takes the other's integer once the copies into it have run. -/
theorem holds_bnSwap {b1 b2 : Bignum w} (h1 : b1.Canonical cfg) (h2 : b2.Canonical cfg)
    (hs : b1.flags.staticData = false) :
    Holds cfg b1 (resultState (bnSwap cfg (b1, b2))).1
        (if b1.top ≤ cfg.allocWords ∧ b2.top ≤ b1.dmax then b2.val else b1.val) ∧
      Holds cfg b2 (resultState (bnSwap cfg (b1, b2))).2
        (if (b1.top ≤ cfg.allocWords ∧ b2.top ≤ b1.dmax) ∧ b1.top ≤ b2.dmax then b1.val else b2.val) := by
  rw [bnSwap_spec h1.1 h2.1 hs]
  by_cases c : b1.top ≤ cfg.allocWords ∧ b2.top ≤ b1.dmax
  · by_cases c3 : b1.top ≤ b2.dmax
    · rw [if_pos c, if_pos c3, if_pos c, if_pos ⟨c, c3⟩]
      exact ⟨holds_copyFrom h1.1 h2 c.2, holds_copyFrom h2.1 h1 c3⟩
    · rw [if_pos c, if_neg c3, if_pos c, if_neg fun hc => c3 hc.2]
      exact ⟨holds_copyFrom h1.1 h2 c.2, .refl h2⟩
  · rw [if_neg c, if_neg c, if_neg fun hc => c hc.1]
    exact ⟨.refl h1, .refl h2⟩

theorem holds_bnSetNegative (h : bn.Canonical cfg) (value : Int) :
    Holds cfg bn (resultState (bnSetNegative value bn))
      (if bn.val = 0 then 0 else signed (decide (value ≠ 0)) bn.val.natAbs) := by
  by_cases ht : bn.top = 0
  · have hm : bn.mag = 0 := by rw [Bignum.mag, ht, magnitude_zero]
    have hv : bn.val = 0 := signed_eq_zero.2 hm
    rw [bnSetNegative_zero ht, resultState_ok, if_pos hv, ← hv]
    exact .refl h
  · have hm : bn.mag ≠ 0 := fun hm => ht (by
      rw [h.top_eq_wordLen, hm, wordLen_zero])
    rw [bnSetNegative_pos ht, resultState_ok, if_neg (show bn.val ≠ 0 from mt signed_eq_zero.1 hm),
      h.natAbs_val]
    have hc := canonical_bnSetNegative h value
    rw [bnSetNegative_pos ht, resultState_ok] at hc
    exact ⟨hc, rfl, rfl, rfl⟩

/-- `BN_set_bit`: the magnitude gains the bit whenever the call goes through: a bit inside
`dmax`, and above the used words only below the last word of the class. -/
theorem holds_bnSetBit (h : bn.Canonical cfg) (hs : bn.flags.staticData = false) (bitNo : Int) :
    Holds cfg bn (resultState (bnSetBit cfg bitNo bn))
      (if 0 ≤ bitNo ∧ bitNo < bn.dmax * w ∧
          (bitNo.toNat / w < bn.top ∨ bitNo.toNat / w + 1 < getBNMaxSize cfg bn)
        then signed bn.neg (bn.mag ||| 2 ^ bitNo.toNat) else bn.val) := by
  have hc := canonical_bnSetBit h bitNo
  by_cases hr : 0 ≤ bitNo ∧ bitNo < bn.dmax * w
  · obtain ⟨h0, hlt⟩ := hr
    obtain ⟨k, b, hb, hk, rfl⟩ := exists_wordBit_lt h0 hlt
    simp only [Int.toNat_ofNat, div_wordBit hb]
    by_cases hkt : k < bn.top
    · rw [bnSetBit_within h.1 hs hb hkt, resultState_ok] at hc ⊢
      rw [if_pos ⟨h0, hlt, .inl hkt⟩]
      exact ⟨hc, rfl, rfl, congrArg (signed bn.neg)
        (magnitude_eq_or_twoPow hb fun j i _ => setBit_words_within hb hkt j i)⟩
    · rw [bnSetBit_extend h.1 hs hb (by omega) hk] at hc ⊢
      by_cases hfull : k + 1 < getBNMaxSize cfg bn
      · rw [if_pos hfull, resultState_ok] at hc ⊢
        rw [if_pos ⟨h0, hlt, .inr hfull⟩]
        exact ⟨hc, rfl, rfl, congrArg (signed bn.neg)
          (magnitude_eq_or_twoPow hb fun j i _ => setBit_words_extend hb (by omega) j i)⟩
      · -- the zero fill reaches the end of the class: words above `top` only, value kept
        rw [if_neg hfull, resultState_error] at hc ⊢
        rw [if_neg fun hcond => hcond.2.2.elim hkt hfull]
        exact ⟨hc, rfl, rfl, congrArg (signed bn.neg)
          (magnitude_congr fun i hi => by simp [Nat.not_le.2 hi])⟩
  · rw [bnSetBit_requires fun hr' => hr hr'.2.2, resultState_error, if_neg fun hc' => hr ⟨hc'.1, hc'.2.1⟩]
    exact .refl h

theorem holds_bnNormalise (h : bn.Canonical cfg) : Holds cfg bn (resultState (bnNormalise cfg bn)) bn.val := by
  rw [bnNormalise_of_canonical h, resultState_ok]
  exact .refl h

theorem Holds.of_eq {bn' bn'' : Bignum w} {x : Int} (h : Holds cfg bn bn' x) (hd : bn''.dmax = bn.dmax)
    (hf : bn''.flags = bn.flags) : Holds cfg bn'' bn' x :=
  ⟨h.canonical, h.dmax.trans hd.symm, h.flags.trans hf.symm, h.val⟩

end Routines

/-! ## Runs -/

/-- The bignums the routines are called on: canonical, and not static. -/
def RegsOk (bns : Nat → Bignum w) : Prop :=
  ∀ r, (bns r).Canonical cfg ∧ (bns r).flags.staticData = false

section Runs

variable {cfg} {bns : Nat → Bignum w}

theorem setVal_self (v : Nat → IntReg) (r : Nat) : setVal v r (v r).val = v :=
  Function.update_eq_self r v

theorem setVal_apply_ne {v : Nat → IntReg} {r r' : Nat} (x : Int) (h : r' ≠ r) :
    setVal v r x r' = v r' :=
  Function.update_noteq h _ _

/-- A routine that leaves one bignum holding `x` is `setVal` on the integers. -/
theorem RegsOk.update (h : RegsOk cfg bns) {r : Nat} {bn : Bignum w} {x : Int}
    (hb : Holds cfg (bns r) bn x) :
    RegsOk cfg (Function.update bns r bn) ∧
      absRegs cfg (Function.update bns r bn) = setVal (absRegs cfg bns) r x := by
  refine ⟨fun r' => ?_, by rw [absRegs, Function.comp_update, hb.absReg_eq]; rfl⟩
  by_cases hr : r' = r
  · subst hr
    rw [Function.update_same]
    exact ⟨hb.canonical, hb.flags ▸ (h r').2⟩
  · rw [Function.update_noteq hr]
    exact h r'

/-- One routine call is one step of the abstract machine. -/
theorem BnOp.exec_refines (h : RegsOk cfg bns) (op : BnOp w) :
    RegsOk cfg (op.exec cfg bns) ∧ absRegs cfg (op.exec cfg bns) = op.absStep cfg (absRegs cfg bns) := by
  cases op with
  | clear r => exact h.update (holds_bnClear (h r).1 (h r).2)
  | setWord r word => exact h.update (holds_bnSetWord (h r).1 (h r).2 word)
  | copy dest src =>
    refine (h.update (holds_bnCopy (h dest).1 (h src).1)).imp_right fun he => he.trans ?_
    simp only [BnOp.absStep, absRegs_apply, absReg_val, absReg_dmax, (h src).1.natAbs_val,
      ← (h src).1.top_eq_wordLen]
    split_ifs
    · rfl
    · exact setVal_self (absRegs cfg bns) dest
  | swap a b =>
    obtain ⟨h1, h2⟩ := holds_bnSwap (h a).1 (h b).1 (h a).2
    obtain ⟨hr1, he1⟩ := h.update h1
    -- the second write sees the first one when `a = b`
    have hab : ∀ f : Bignum w → Nat, f (bns a) = f (resultState (bnSwap cfg (bns a, bns b))).1 →
        f (Function.update bns a (resultState (bnSwap cfg (bns a, bns b))).1 b) = f (bns b) := by
      intro f hf
      by_cases hba : b = a
      · subst hba; rw [Function.update_same, ← hf]
      · rw [Function.update_noteq hba]
    obtain ⟨hr2, he2⟩ := hr1.update (h2.of_eq (hab Bignum.dmax h1.dmax.symm) (by
      by_cases hba : b = a
      · subst hba; rw [Function.update_same, h1.flags]
      · rw [Function.update_noteq hba]))
    refine ⟨hr2, he2.trans ?_⟩
    rw [he1]
    simp only [BnOp.absStep, absRegs_apply, absReg_val, absReg_dmax, (h a).1.natAbs_val,
      (h b).1.natAbs_val, ← (h a).1.top_eq_wordLen, ← (h b).1.top_eq_wordLen]
    by_cases c : (bns a).top ≤ cfg.allocWords ∧ (bns b).top ≤ (bns a).dmax
    · by_cases c3 : (bns a).top ≤ (bns b).dmax
      · simp only [if_pos c, if_pos c3, if_pos (And.intro c c3)]
      · -- only the last copy failed, so `a ≠ b` and `b` keeps its integer
        simp only [if_pos c, if_neg c3, if_neg fun hc : (_ ∧ _) ∧ _ => c3 hc.2]
        have hba : b ≠ a := fun hba => c3 (hba ▸ (h b).1.1.2.2)
        have := setVal_self (setVal (absRegs cfg bns) a (bns b).val) b
        rw [setVal_apply_ne _ hba] at this
        exact this
    · simp only [if_neg c, if_neg fun hc : (_ ∧ _) ∧ _ => c hc.1]
      show setVal (setVal (absRegs cfg bns) a (absRegs cfg bns a).val) b (absRegs cfg bns b).val = _
      rw [setVal_self, setVal_self]
  | setNegative r value => exact h.update (holds_bnSetNegative (h r).1 value)
  | setBit r bitNo =>
    refine (h.update (holds_bnSetBit (h r).1 (h r).2 bitNo)).imp_right fun he => he.trans ?_
    have hneg : decide ((bns r).val < 0) = (bns r).neg := by
      cases hn : (bns r).neg <;> simp [(h r).1.val_neg_iff, hn]
    simp only [BnOp.absStep, absRegs_apply, absReg_val, absReg_dmax, absReg_maxSize, hneg,
      (h r).1.natAbs_val, ← (h r).1.top_eq_wordLen]
    split_ifs
    · rfl
    · exact setVal_self (absRegs cfg bns) r
  | normalise r =>
    refine (h.update (holds_bnNormalise (h r).1)).imp_right fun he => he.trans ?_
    exact setVal_self (absRegs cfg bns) r

end Runs

/-- The value routines refine integer registers over every run. From bignums that are canonical
and not static, any sequence of `BN_clear`, `BN_set_word`, `BN_copy`, `BN_swap`,
`BN_set_negative`, `BN_set_bit` and `BN_normalise` calls, whatever each returns, leaves every
bignum canonical and not static, with its capacity and class, holding the integer the abstract
machine computes: the routine's operation on integers, where a copy, an exchange or a bit that
does not fit leaves the integers as `BnOp.absStep` says. -/
theorem value_routines_refine (ops : List (BnOp w)) {bns : Nat → Bignum w} (h : RegsOk cfg bns) :
    RegsOk cfg (execOps cfg ops bns) ∧
      absRegs cfg (execOps cfg ops bns) = absRun cfg ops (absRegs cfg bns) := by
  induction ops generalizing bns with
  | nil => exact ⟨h, rfl⟩
  | cons op ops ih =>
    obtain ⟨h₁, he₁⟩ := BnOp.exec_refines h op
    obtain ⟨h₂, he₂⟩ := ih h₁
    exact ⟨h₂, he₂.trans (congrArg (absRun cfg ops) he₁)⟩

/-- Five loaded into a fresh standard bignum, copied to a second one and negated there. -/
theorem value_routines_refine_fresh :
    absRegs sampleConfig (execOps sampleConfig [.setWord 0 5, .copy 1 0, .setNegative 1 1]
        (fun _ => bnInit sampleConfig : Nat → Bignum 64)) =
      absRun sampleConfig ([.setWord 0 5, .copy 1 0, .setNegative 1 1] : List (BnOp 64))
        (absRegs sampleConfig (fun _ => bnInit sampleConfig : Nat → Bignum 64)) :=
  (value_routines_refine sampleConfig _ fun _ => ⟨canonical_bnInit, rfl⟩).2

end CtxBn
