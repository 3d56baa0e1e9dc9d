import Mathlib.Algebra.Group.Nat.Basic
import CtxBn.Basic

/-!
# CtxBn.Bignum

The `BIGNUM` of `ctx_bn.c` and the routines that treat one as a whole: `BN_clear`, `BN_init`,
`BN_init_ext`, `BN_new`, `BN_free`, `BN_dup`, `BN_copy`, `BN_swap`, `BN_value_one`,
`BN_get_word`, `BN_set_word` and `BN_set_negative`.

A bignum is a fixed block of `dmax` words `d` of `BN_BITS2 = w` bits, of which the first `top`
hold its magnitude `mag = Σ_{i<top} d[i]·2^(w·i)`, least significant first; `neg` is the sign.
`Canonical` adds to `sanityCheckBignum` what the arithmetic relies on: the top used word is
nonzero, and zero is not negative.

Each routine has one spec lemma per way it can end (`bnCopy_ok`, `bnCopy_fail`, ...); later
files use those and never unfold the routine.
-/

namespace CtxBn

/-- The flags of `bn.h` that `ctx_bn.c` sets or tests, one `Bool` each. `sanityCheckBignum`
admits every combination of them (`BN_FLG_NONE ≤ flags ≤ BN_FLG_MAX`). -/
structure Flags where
  malloced : Bool
  staticData : Bool
  allocExt : Bool
  allocExt2 : Bool
  deriving DecidableEq, Repr

/-- `BN_FLG_NONE`. -/
def Flags.none : Flags := ⟨false, false, false, false⟩

/-- A `BIGNUM` with words of `w` bits. The C fields `top` and `dmax` are `int`s; no routine
here makes one negative and `sanityCheckBignum` rejects a negative one, so they are naturals. -/
structure Bignum (w : Nat) where
  dmax : Nat
  top : Nat
  neg : Bool
  flags : Flags
  d : Nat → BitVec w

abbrev BnM (w : Nat) := EStateM Exit (Bignum w)

/-- `Σ_{i<n} d[i]·2^(w·i)`. -/
def magnitude {w : Nat} (d : Nat → BitVec w) : Nat → Nat
  | 0 => 0
  | n + 1 => magnitude d n + (d n).toNat * 2 ^ (w * n)

namespace Bignum

variable {w : Nat}

/-- The magnitude of a bignum: its first `top` words. -/
def mag (bn : Bignum w) : Nat := magnitude bn.d bn.top

/-- The cleared state: all `dmax` words zero, `top = 0`, `neg = FALSE`. -/
def IsCleared (bn : Bignum w) : Prop := (∀ i < bn.dmax, bn.d i = 0) ∧ bn.top = 0 ∧ bn.neg = false

/-- Same words, length and sign. -/
def SameValue (a b : Bignum w) : Prop :=
  a.top = b.top ∧ a.neg = b.neg ∧ ∀ i < a.top, a.d i = b.d i

end Bignum

/-- `memcpy( dest, src, bnWordsToBytes( n ) )`. -/
def copyWords {w : Nat} (n : Nat) (src dest : Nat → BitVec w) : Nat → BitVec w :=
  fun i => if i < n then src i else dest i

/-- What `BN_copy( dest, src )` writes: the words below `src.top`, `top` and the sign; `dmax`
and the flags stay. -/
def Bignum.copyFrom {w : Nat} (dest src : Bignum w) : Bignum w :=
  { dest with d := copyWords src.top src.d dest.d, top := src.top, neg := src.neg }

variable {w : Nat} (cfg : Config)

/-- `getBNMaxSize`: the words the bignum's class allocates. -/
def getBNMaxSize (bn : Bignum w) : Nat :=
  if bn.flags.allocExt then cfg.allocWordsExt
  else if bn.flags.allocExt2 then cfg.allocWordsExt2
  else cfg.allocWords

def sanityCheckBignum (bn : Bignum w) : Prop :=
  1 ≤ bn.dmax ∧ bn.dmax ≤ getBNMaxSize cfg bn ∧ bn.top ≤ bn.dmax

instance (bn : Bignum w) : Decidable (sanityCheckBignum cfg bn) :=
  inferInstanceAs (Decidable (_ ∧ _ ∧ _))

/-- Sane, with a nonzero top word and no negative zero. -/
def Bignum.Canonical (bn : Bignum w) : Prop :=
  sanityCheckBignum cfg bn ∧ (bn.top = 0 ∨ bn.d (bn.top - 1) ≠ 0) ∧ (bn.top = 0 → bn.neg = false)

/-- Modelled from the spec: `BN_is_zero` is a macro of `bn.h`, which is not among the sources.
The spec's zero "always has `top == 0`", and `BN_get_word` reads a bignum with `top < 1` as
zero, so the macro tests `top = 0`. -/
def bnIsZero (bn : Bignum w) : Prop := bn.top = 0

instance (bn : Bignum w) : Decidable (bnIsZero bn) := inferInstanceAs (Decidable (bn.top = 0))

/-- `zeroise( d, bnWordsToBytes( n ) )`. -/
def zeroise (n : Nat) (d : Nat → BitVec w) : Nat → BitVec w := fun i => if i < n then 0 else d i

def bnClear : BnM w Unit := do
  let bn ← get
  require (sanityCheckBignum cfg bn)
  if !bn.flags.staticData then
    set { bn with d := zeroise bn.dmax bn.d, top := 0, neg := false }

def bnInit : Bignum w :=
  { dmax := cfg.allocWords, top := 0, neg := false, flags := .none, d := fun _ => 0 }

def bnInitExt (isExt2Bignum : Bool) : Bignum w :=
  if isExt2Bignum then
    { dmax := cfg.allocWordsExt2, top := 0, neg := false
      flags := { Flags.none with allocExt2 := true }, d := fun _ => 0 }
  else
    { dmax := cfg.allocWordsExt, top := 0, neg := false
      flags := { Flags.none with allocExt := true }, d := fun _ => 0 }

/-- `BN_new`. The heap is not modelled; `allocOk` is whether `clAlloc` returned a block. The
block is `BN_init`ed and flagged `BN_FLG_MALLOCED`. -/
def bnNew (allocOk : Bool) : Option (Bignum w) :=
  if allocOk then some { bnInit cfg with flags := { Flags.none with malloced := true } } else none

/-- `BN_free`: `BN_clear`, then `clFree` of a block that came from `BN_new`. The bignum as
`BN_clear` left it, and whether its block went back to the heap. -/
def bnFree (bignum : Bignum w) : Bignum w × Bool :=
  (resultState (bnClear cfg bignum), (resultState (bnClear cfg bignum)).flags.malloced)

/-- `BN_value_one`: the static constant `{ BIGNUM_ALLOC_WORDS, 1, FALSE, BN_FLG_STATIC_DATA,
{ 1, 0, 0, 0 } }`. -/
def bnValueOne : Bignum w :=
  { dmax := cfg.allocWords, top := 1, neg := false
    flags := { Flags.none with staticData := true }, d := fun i => if i = 0 then 1 else 0 }

/-- `BN_copy( dest, src )` on the destination; `src` is read only. -/
def bnCopy (srcBignum : Bignum w) : BnM w Unit := do
  let destBignum ← get
  require (sanityCheckBignum cfg destBignum)
  require (sanityCheckBignum cfg srcBignum)
  require (destBignum.dmax ≥ srcBignum.top)
  set { destBignum with d := copyWords srcBignum.top srcBignum.d destBignum.d
                        top := srcBignum.top, neg := srcBignum.neg }

/-- `BN_dup`: `BN_new`, then `BN_copy` into it. When the copy fails, `BN_free` releases the new
block and the result is `NULL`. -/
def bnDup (allocOk : Bool) (bignum : Bignum w) : Option (Bignum w) :=
  match bnNew cfg allocOk with
  | none => none
  | some newBignum =>
    match bnCopy cfg bignum newBignum with
    | .ok _ b => some b
    | .error _ _ => none

/-- `BN_swap( bignum1, bignum2 )` through the standard-size local `tmp`. Its two `REQUIRES_V`
lines both test `bignum1`. Each `BN_copy` runs only if the one before succeeded, and the final
`BN_clear( &tmp )` touches only the local. -/
def bnSwap : EStateM Exit (Bignum w × Bignum w) Unit := do
  let (bignum1, bignum2) ← get
  require (bignum1.flags.staticData = false)
  require (bignum1.flags.staticData = false)
  match bnCopy cfg bignum1 (bnInit cfg) with
  | .error _ _ => ensure False
  | .ok _ tmp =>
    match bnCopy cfg bignum2 bignum1 with
    | .error _ _ => ensure False
    | .ok _ bignum1 =>
      set (bignum1, bignum2)
      match bnCopy cfg tmp bignum2 with
      | .error _ _ => ensure False
      | .ok _ bignum2 => set (bignum1, bignum2)

/-- `BN_get_word`. `BN_NAN`, its answer for a value wider than a word and for a failed check, is
a constant of `bn.h`, which is not among the sources, so it is a parameter. -/
def bnGetWord (bnNan : BitVec w) (bignum : Bignum w) : BitVec w :=
  if ¬ sanityCheckBignum cfg bignum then bnNan
  else if bignum.top > 1 then bnNan
  else if bignum.top < 1 then 0
  else bignum.d 0

def bnSetWord (word : BitVec w) : BnM w Unit := do
  require (sanityCheckBignum cfg (← get))
  require ((← get).flags.staticData = false)
  callVoid (bnClear cfg)
  modify fun bn => { bn with d := Function.update bn.d 0 word, top := if word ≠ 0 then 1 else 0 }

def bnSetNegative (value : Int) : BnM w Unit := do
  if bnIsZero (← get) then return
  modify fun bn => { bn with neg := decide (value ≠ 0) }

/-- Modelled from the spec: `BN_zero` is a macro of `bn.h`, which is not among the sources;
the spec has `BN_RECP_CTX_set` reset the reciprocal "to zero", as `BN_set_word( a, 0 )` does. -/
def bnZero : BnM w Unit := callVoid (bnSetWord cfg 0)

/-! ## Spec lemmas -/

section Spec

variable {cfg} {bn src : Bignum w}

@[simp] theorem getBNMaxSize_bnInit : getBNMaxSize cfg (bnInit cfg : Bignum w) = cfg.allocWords := rfl

theorem sanityCheckBignum_bnInit : sanityCheckBignum cfg (bnInit cfg : Bignum w) :=
  ⟨cfg.allocWords_pos, Nat.le_refl _, Nat.zero_le _⟩

theorem bnClear_ok (h : sanityCheckBignum cfg bn) (hs : bn.flags.staticData = false) :
    bnClear cfg bn = .ok () { bn with d := zeroise bn.dmax bn.d, top := 0, neg := false } := by
  simp [bnClear, h, hs]

/-- `BN_clear` leaves a sane, non-static bignum cleared, sane, and with its flags. -/
theorem bnClear_clears (h : sanityCheckBignum cfg bn) (hs : bn.flags.staticData = false) :
    (resultState (bnClear cfg bn)).IsCleared ∧ sanityCheckBignum cfg (resultState (bnClear cfg bn)) ∧
      (resultState (bnClear cfg bn)).flags = bn.flags := by
  rw [bnClear_ok h hs]
  exact ⟨⟨fun i hi => if_pos hi, rfl, rfl⟩, ⟨h.1, h.2.1, Nat.zero_le _⟩, rfl⟩

theorem bnClear_static (hs : bn.flags.staticData = true) : resultState (bnClear cfg bn) = bn := by
  by_cases h : sanityCheckBignum cfg bn <;> simp [bnClear, h, hs]

theorem bnClear_insane (h : ¬ sanityCheckBignum cfg bn) : bnClear cfg bn = .error .requires bn := by
  simp [bnClear, h]

theorem bnCopy_ok (hd : sanityCheckBignum cfg bn) (hs : sanityCheckBignum cfg src)
    (htop : src.top ≤ bn.dmax) : bnCopy cfg src bn = .ok () (bn.copyFrom src) := by
  simp [bnCopy, hd, hs, htop, Bignum.copyFrom]

theorem bnCopy_fail (h : ¬ (sanityCheckBignum cfg bn ∧ sanityCheckBignum cfg src ∧ src.top ≤ bn.dmax)) :
    bnCopy cfg src bn = .error .requires bn := by
  by_cases hd : sanityCheckBignum cfg bn <;> by_cases hs : sanityCheckBignum cfg src <;>
    by_cases ht : src.top ≤ bn.dmax <;> simp [bnCopy, hd, hs, ht] at h ⊢

theorem bnSetWord_ok (h : sanityCheckBignum cfg bn) (hs : bn.flags.staticData = false)
    (word : BitVec w) :
    bnSetWord cfg word bn = .ok () { bn with d := Function.update (zeroise bn.dmax bn.d) 0 word
                                             top := if word ≠ 0 then 1 else 0, neg := false } := by
  simp [bnSetWord, h, hs, callVoid_of_ok (bnClear_ok h hs)]

theorem bnSetWord_fail (h : ¬ (sanityCheckBignum cfg bn ∧ bn.flags.staticData = false))
    (word : BitVec w) : bnSetWord cfg word bn = .error .requires bn := by
  by_cases hd : sanityCheckBignum cfg bn <;> simp_all [bnSetWord]

theorem bnSetNegative_zero (h : bn.top = 0) (value : Int) :
    bnSetNegative value bn = .ok () bn := by
  simp [bnSetNegative, bnIsZero, h]

theorem bnSetNegative_pos (h : bn.top ≠ 0) (value : Int) :
    bnSetNegative value bn = .ok () { bn with neg := decide (value ≠ 0) } := by
  simp [bnSetNegative, bnIsZero, h]

/-- Sanity reads only `dmax`, `top` and the flags. -/
theorem sanityCheckBignum_of_eq (h : sanityCheckBignum cfg bn) {bn' : Bignum w}
    (hd : bn'.dmax = bn.dmax) (hf : bn'.flags = bn.flags) (ht : bn'.top ≤ bn.dmax) :
    sanityCheckBignum cfg bn' := by
  unfold sanityCheckBignum getBNMaxSize at *
  rw [hd, hf]
  exact ⟨h.1, h.2.1, ht⟩

theorem sanityCheckBignum_copyFrom (hd : sanityCheckBignum cfg bn) (htop : src.top ≤ bn.dmax) :
    sanityCheckBignum cfg (bn.copyFrom src) := ⟨hd.1, hd.2.1, htop⟩

@[simp] theorem copyFrom_copyFrom (a b c : Bignum w) : a.copyFrom (b.copyFrom c) = a.copyFrom c := by
  simp only [Bignum.copyFrom]
  congr 1
  funext i
  simp only [copyWords]
  split_ifs <;> rfl

/-- `BN_swap` on sane operands whose first is not static: it exchanges the values when
`tmp` (a standard bignum) can take `bignum1` and each operand can take the other; it stops
with both unchanged when the first or second copy fails, and with `bignum1` overwritten and
`bignum2` unchanged when only the third fails. -/
theorem bnSwap_spec {b1 b2 : Bignum w} (h1 : sanityCheckBignum cfg b1)
    (h2 : sanityCheckBignum cfg b2) (hs : b1.flags.staticData = false) :
    bnSwap cfg (b1, b2) =
      if b1.top ≤ cfg.allocWords ∧ b2.top ≤ b1.dmax then
        if b1.top ≤ b2.dmax then .ok () (b1.copyFrom b2, b2.copyFrom b1)
        else .error .ensures (b1.copyFrom b2, b2)
      else .error .ensures (b1, b2) := by
  have hi : sanityCheckBignum cfg (bnInit cfg : Bignum w) := sanityCheckBignum_bnInit
  by_cases c1 : b1.top ≤ cfg.allocWords
  · have ht := sanityCheckBignum_copyFrom hi (show b1.top ≤ (bnInit cfg : Bignum w).dmax from c1)
    by_cases c2 : b2.top ≤ b1.dmax
    · by_cases c3 : b1.top ≤ b2.dmax
      · simp [bnSwap, hs, bnCopy_ok hi h1 c1, bnCopy_ok h1 h2 c2, c1, c2, c3,
          bnCopy_ok h2 ht (show (Bignum.copyFrom _ b1).top ≤ b2.dmax from c3)]
      · simp [bnSwap, hs, bnCopy_ok hi h1 c1, bnCopy_ok h1 h2 c2, c1, c2, c3,
          @bnCopy_fail w cfg b2 ((bnInit cfg).copyFrom b1)
            (fun h => c3 (show (Bignum.copyFrom _ b1).top ≤ b2.dmax from h.2.2))]
    · simp [bnSwap, hs, bnCopy_ok hi h1 c1, @bnCopy_fail w cfg b1 b2 (fun h => c2 h.2.2),
        c1, c2]
  · simp [bnSwap, hs, c1, @bnCopy_fail w cfg (bnInit cfg) b1
      (fun h => c1 (show b1.top ≤ (bnInit cfg : Bignum w).dmax from h.2.2))]

end Spec

end CtxBn
