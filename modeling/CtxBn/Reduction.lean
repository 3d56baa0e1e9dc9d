import CtxBn.Bits

/-!
# CtxBn.Reduction

The two modular-reduction contexts of `ctx_bn.c`. `BN_MONT_CTX_init`/`_free` set up and clear a
Montgomery context, `BN_MONT_CTX_new` allocates one, and `sanityCheckBNMontCTX` is the check
every context they give passes (`sanityCheckBNMontCTX_init`, `sanityCheckBNMontCTX_free`);
`BN_RECP_CTX_init`/`_free` set up and clear a reciprocal context, and
`BN_RECP_CTX_set` loads a modulus into it: `N` becomes a copy of the modulus, `Nr` zero, and
`num_bits` the modulus's bit length. The reciprocal itself is computed by the Barrett code,
outside this file. Heap release (`clFree` of a `BN_FLG_MALLOCED` context) is not modelled.
-/

namespace CtxBn

structure BnMontCtx (w : Nat) where
  RR : Bignum w
  N : Bignum w
  ri : Int
  /-- `flags == BN_FLG_MALLOCED`: the context came from `BN_MONT_CTX_new`. -/
  malloced : Bool

structure BnRecpCtx (w : Nat) where
  N : Bignum w
  Nr : Bignum w
  numBits : Int

variable {w : Nat} (cfg : Config)

def bnMontCtxInit : BnMontCtx w :=
  { RR := bnInit cfg, N := bnInit cfg, ri := 0, malloced := false }

def bnMontCtxFree : EStateM Exit (BnMontCtx w) Unit :=
  modify fun c => { c with RR := resultState (bnClear cfg c.RR), N := resultState (bnClear cfg c.N) }

/-- `BN_MONT_CTX_new`, as built with the ECC code (the other build returns `NULL`). `allocOk` is
whether `clAlloc` returned a block. -/
def bnMontCtxNew (allocOk : Bool) : Option (BnMontCtx w) :=
  if allocOk then some { bnMontCtxInit cfg with malloced := true } else none

/-- `sanityCheckBNMontCTX`. `maxRi` is `bytesToBits( CRYPT_MAX_PKCSIZE )`, built from macros of
headers that are not among the sources. The test `flags != 0 && flags != BN_FLG_MALLOCED` always
passes here, since `BN_FLG_MALLOCED` is the only flag a context can carry. -/
def sanityCheckBNMontCTX (maxRi : Int) (bnMontCTX : BnMontCtx w) : Prop :=
  sanityCheckBignum cfg bnMontCTX.RR ∧ sanityCheckBignum cfg bnMontCTX.N ∧
    0 ≤ bnMontCTX.ri ∧ bnMontCTX.ri ≤ maxRi

instance (maxRi : Int) (bnMontCTX : BnMontCtx w) : Decidable (sanityCheckBNMontCTX cfg maxRi bnMontCTX) :=
  inferInstanceAs (Decidable (_ ∧ _ ∧ _ ∧ _))

def bnRecpCtxInit : BnRecpCtx w := { N := bnInit cfg, Nr := bnInit cfg, numBits := 0 }

def bnRecpCtxFree : EStateM Exit (BnRecpCtx w) Unit :=
  modify fun c => { c with N := resultState (bnClear cfg c.N), Nr := resultState (bnClear cfg c.Nr) }

/-- `BN_RECP_CTX_set( bnRecpCTX, d, bnCTX )`; the `BN_CTX` argument is unused. Returns `TRUE`
or `FALSE`. -/
def bnRecpCtxSet (d : Bignum w) : EStateM Exit (BnRecpCtx w) Bool := do
  set (bnRecpCtxInit cfg : BnRecpCtx w)
  match bnCopy cfg d (bnRecpCtxInit cfg : BnRecpCtx w).N with
  | .error _ _ => return false
  | .ok _ N =>
    set ({ N := N, Nr := resultState (bnZero cfg (bnRecpCtxInit cfg : BnRecpCtx w).Nr), numBits := bnNumBits cfg d }
      : BnRecpCtx w)
    return true

section Mont

variable {cfg} {maxRi : Int} {m : BnMontCtx w}

/-- `BN_clear` keeps every sane bignum sane, whether it clears it or skips a static one. -/
theorem sanityCheckBignum_bnClear {bn : Bignum w} (h : sanityCheckBignum cfg bn) :
    sanityCheckBignum cfg (resultState (bnClear cfg bn)) := by
  cases hs : bn.flags.staticData
  · exact (bnClear_clears h hs).2.1
  · rw [bnClear_static hs]; exact h

/-- A context from `BN_MONT_CTX_init` or `BN_MONT_CTX_new` passes `sanityCheckBNMontCTX`, and
`BN_MONT_CTX_free` keeps it passing. -/
theorem sanityCheckBNMontCTX_init (h : 0 ≤ maxRi) :
    sanityCheckBNMontCTX cfg maxRi (bnMontCtxInit cfg : BnMontCtx w) ∧
      ∀ m ∈ (bnMontCtxNew cfg true : Option (BnMontCtx w)), sanityCheckBNMontCTX cfg maxRi m :=
  have hi : sanityCheckBNMontCTX cfg maxRi (bnMontCtxInit cfg : BnMontCtx w) :=
    ⟨sanityCheckBignum_bnInit, sanityCheckBignum_bnInit, Int.le_refl 0, h⟩
  ⟨hi, fun _ hm => by cases hm; exact hi⟩

theorem sanityCheckBNMontCTX_free (h : sanityCheckBNMontCTX cfg maxRi m) :
    sanityCheckBNMontCTX cfg maxRi (resultState (bnMontCtxFree cfg m)) :=
  ⟨sanityCheckBignum_bnClear h.1, sanityCheckBignum_bnClear h.2.1, h.2.2⟩

end Mont

end CtxBn
