import CtxBn.Bignum

/-!
# CtxBn.Ctx

The `BN_CTX` pool of `ctx_bn.c`: `BN_CTX_init`, `BN_CTX_final`, `BN_CTX_start`, `BN_CTX_end`,
`BN_CTX_get`, `BN_CTX_get_ext` and `BN_CTX_end_ext`, and the heap-allocated pool of the ECC code,
`BN_CTX_new` and `BN_CTX_free`.

`bnArray` holds `BN_CTX_ARRAY_SIZE` standard bignums, handed out in stack order. `stack[ k ]` is
the top of frame `k`: the slots `[stack[ k - 1 ], stack[ k ])` belong to it, and `stackPos` is
the innermost open frame. `bnArrayMax` is the high-water mark of all frames. The extended
bignums are addressed by purpose (`BIGNUM_EXT_TYPE`) instead.

`BN_CTX` is declared in `bn.h`, which is not among the sources. Both `bnArray` and `stack` have
`BN_CTX_ARRAY_SIZE` entries (`sanityCheckBNCTX` bounds `stackPos` by that size); every access to
them goes through `readStack`, `writeStack` or `clearSlot`, which exit with `outOfBounds` at an
index outside `[0, BN_CTX_ARRAY_SIZE)`. The extended arrays are read only at the fixed indices
`BN_CTX_get_ext` returns, so they are total functions here.
-/

namespace CtxBn

/-- `BIGNUM_EXT_TYPE`, in the order of its declaration. -/
inductive BignumExtType where
  | none
  | mont
  | mul1
  | mul2
  | last
  deriving DecidableEq, Repr

/-- A slot of one of the extended arrays. -/
inductive ExtSlot where
  | ext (i : Nat)
  | ext2 (i : Nat)
  deriving DecidableEq, Repr

structure BnCtx (w : Nat) where
  bnArray : Int → Bignum w
  bnExtArray : Nat → Bignum w
  bnExt2Array : Nat → Bignum w
  bnArrayMax : Int
  stack : Int → Int
  stackPos : Int

abbrev CtxM (w : Nat) := EStateM Exit (BnCtx w)

namespace BnCtx

variable {w : Nat}

def extSlot (c : BnCtx w) : ExtSlot → Bignum w
  | .ext i => c.bnExtArray i
  | .ext2 i => c.bnExt2Array i

def setExtSlot (c : BnCtx w) (bn : Bignum w) : ExtSlot → BnCtx w
  | .ext i => { c with bnExtArray := Function.update c.bnExtArray i bn }
  | .ext2 i => { c with bnExt2Array := Function.update c.bnExt2Array i bn }

@[simp] theorem setExtSlot_bnArray (c : BnCtx w) (bn : Bignum w) (s : ExtSlot) :
    (c.setExtSlot bn s).bnArray = c.bnArray := by cases s <;> rfl

@[simp] theorem setExtSlot_stack (c : BnCtx w) (bn : Bignum w) (s : ExtSlot) :
    (c.setExtSlot bn s).stack = c.stack := by cases s <;> rfl

@[simp] theorem setExtSlot_stackPos (c : BnCtx w) (bn : Bignum w) (s : ExtSlot) :
    (c.setExtSlot bn s).stackPos = c.stackPos := by cases s <;> rfl

@[simp] theorem setExtSlot_bnArrayMax (c : BnCtx w) (bn : Bignum w) (s : ExtSlot) :
    (c.setExtSlot bn s).bnArrayMax = c.bnArrayMax := by cases s <;> rfl

end BnCtx

variable {w : Nat} (cfg : Config)

def sanityCheckBNCTX (c : BnCtx w) : Prop :=
  0 ≤ c.bnArrayMax ∧ c.bnArrayMax ≤ cfg.ctxArraySize ∧ 0 ≤ c.stackPos ∧
    c.stackPos < cfg.ctxArraySize

instance (c : BnCtx w) : Decidable (sanityCheckBNCTX cfg c) :=
  inferInstanceAs (Decidable (_ ∧ _ ∧ _ ∧ _))

/-- An index of `bnArray` or `stack`. -/
def InArray (i : Int) : Prop := 0 ≤ i ∧ i < cfg.ctxArraySize

instance (i : Int) : Decidable (InArray cfg i) := inferInstanceAs (Decidable (_ ∧ _))

/-- `stack[ i ]` as an rvalue. -/
def readStack (i : Int) : CtxM w Int := fun c =>
  if InArray cfg i then .ok (c.stack i) c else .error (.outOfBounds i) c

/-- `stack[ i ] = v`. -/
def writeStack (i v : Int) : CtxM w Unit := fun c =>
  if InArray cfg i then .ok () { c with stack := Function.update c.stack i v }
  else .error (.outOfBounds i) c

/-- `BN_clear( &bnCTX->bnArray[ i ] )`; `BN_clear` returns nothing, so a failed check inside it
leaves the slot as it was. -/
def clearSlot (i : Int) : CtxM w Unit := fun c =>
  if InArray cfg i then
    .ok () { c with bnArray := Function.update c.bnArray i (resultState (bnClear cfg (c.bnArray i))) }
  else .error (.outOfBounds i) c

/-- `for( ; i < stack[ stackPos ] && i < BN_CTX_ARRAY_SIZE; i++ ) BN_clear( &bnArray[ i ] );`
from `i` on, returning the final `i`. `BN_CTX_end` has read `stack[ stackPos ]` in range before
the loop, and the loop does not move `stackPos`. -/
def clearFrame (i : Int) : CtxM w Int := fun c =>
  if i < c.stack c.stackPos ∧ i < cfg.ctxArraySize then
    match clearSlot cfg i c with
    | .ok _ c' => clearFrame (i + 1) c'
    | .error e c' => .error e c'
  else .ok i c
termination_by (cfg.ctxArraySize - i).toNat
decreasing_by omega

/-- `BN_CTX_init`: `memset` to zero, then `BN_init` / `BN_init_ext` on every slot. Its
`ENSURES_V( i == ... )` checks follow the loops it has just run and always pass. -/
def bnCtxInit : BnCtx w where
  bnArray := fun _ => bnInit cfg
  bnExtArray := fun _ => bnInitExt cfg false
  bnExt2Array := fun _ => bnInitExt cfg true
  bnArrayMax := 0
  stack := fun _ => 0
  stackPos := 0

/-- `BN_CTX_final`: after the sanity check, `zeroise` and the same re-initialisation as
`BN_CTX_init`. -/
def bnCtxFinal : CtxM w Unit := do
  require (sanityCheckBNCTX cfg (← get))
  set (bnCtxInit cfg : BnCtx w)

/-- `BN_CTX_new`, built with the ECC code. `allocOk` is whether `clAlloc` returned a block. -/
def bnCtxNew (allocOk : Bool) : Option (BnCtx w) :=
  if allocOk then some (bnCtxInit cfg) else none

/-- `BN_CTX_free`: its own `REQUIRES_V( sanityCheckBNCTX( bnCTX ) )`, then `BN_CTX_final`; the
`clFree` that follows is not modelled. -/
def bnCtxFree : CtxM w Unit := do
  require (sanityCheckBNCTX cfg (← get))
  bnCtxFinal cfg

def bnCtxStart : CtxM w Unit := do
  require (sanityCheckBNCTX cfg (← get))
  modify fun c => { c with stackPos := c.stackPos + 1 }
  let stackPos := (← get).stackPos
  writeStack cfg stackPos (← readStack cfg (stackPos - 1))
  ensure (sanityCheckBNCTX cfg (← get))

def bnCtxEnd : CtxM w Unit := do
  require (sanityCheckBNCTX cfg (← get))
  let stackPos := (← get).stackPos
  require ((← readStack cfg (stackPos - 1)) ≤ (← readStack cfg stackPos))
  let i ← clearFrame cfg (← readStack cfg (stackPos - 1))
  ensure (i < cfg.ctxArraySize)
  writeStack cfg stackPos 0
  modify fun c => { c with stackPos := c.stackPos - 1 }
  ensure (sanityCheckBNCTX cfg (← get))

/-- `BN_CTX_get`, returning the index of the slot it hands out (`none` for `NULL`). It reads
`stack[ stackPos ]` in its first declaration, before any check. -/
def bnCtxGet : CtxM w (Option Int) := do
  let arrayIndex := (← readStack cfg (← get).stackPos) + 1
  if (← get).bnArrayMax ≥ cfg.ctxArraySize then return none
  require (sanityCheckBNCTX cfg (← get))
  writeStack cfg (← get).stackPos arrayIndex
  if arrayIndex > (← get).bnArrayMax then
    modify fun c => { c with bnArrayMax := arrayIndex }
  ensure (sanityCheckBNCTX cfg (← get))
  return some (arrayIndex - 1)

/-- `BN_CTX_get_ext`: a fixed slot per purpose. Its `ENSURES_N` rejects `BIGNUM_EXT_NONE` and
`BIGNUM_EXT_LAST` with `NULL`, so the closing `retIntError_Null()` is not reached. -/
def bnCtxGetExt : BignumExtType → Option ExtSlot
  | .mont => some (.ext 0)
  | .mul1 => some (.ext2 0)
  | .mul2 => some (.ext2 1)
  | _ => none

/-- `BN_clear( BN_CTX_get_ext( bnCTX, bnExtType ) )`. `BN_CTX_end_ext` calls it only for
`MUL1`, `MUL2` and `MONT`, for which `BN_CTX_get_ext` is never `NULL`. -/
def clearExt (bnExtType : BignumExtType) : CtxM w Unit := fun c =>
  match bnCtxGetExt bnExtType with
  | some s => .ok () (c.setExtSlot (resultState (bnClear cfg (c.extSlot s))) s)
  | none => .ok () c

/-- `BN_CTX_end_ext`. The `BN_CTX_end` it starts with returns nothing, so it goes on whether or
not that call's checks passed. -/
def bnCtxEndExt (bnExtType : BignumExtType) : CtxM w Unit := do
  callVoid (bnCtxEnd cfg)
  ensure (bnExtType = .mul1 ∨ bnExtType = .mont)
  if bnExtType = .mul1 then
    clearExt cfg .mul1
    clearExt cfg .mul2
  else
    clearExt cfg .mont


/-! ## Spec lemmas -/

/-- `BN_clear` on every slot of `[lo, hi)`. -/
def clearSlots (lo hi : Int) (c : BnCtx w) : BnCtx w :=
  { c with bnArray := fun j => if lo ≤ j ∧ j < hi then resultState (bnClear cfg (c.bnArray j))
                               else c.bnArray j }

section Spec

variable {cfg} {c : BnCtx w}

@[simp] theorem clearSlots_bnArray (lo hi j : Int) :
    (clearSlots cfg lo hi c).bnArray j =
      if lo ≤ j ∧ j < hi then resultState (bnClear cfg (c.bnArray j)) else c.bnArray j := rfl

theorem clearSlots_bnArray_of_lt {lo hi j : Int} (h : j < lo) :
    (clearSlots cfg lo hi c).bnArray j = c.bnArray j :=
  if_neg fun hj => absurd hj.1 (Int.not_le.2 h)

@[simp] theorem clearSlots_stack (lo hi : Int) : (clearSlots cfg lo hi c).stack = c.stack := rfl

@[simp] theorem clearSlots_stackPos (lo hi : Int) : (clearSlots cfg lo hi c).stackPos = c.stackPos :=
  rfl

theorem clearSlot_ok {i : Int} (h : InArray cfg i) :
    clearSlot cfg i c =
      .ok () { c with bnArray := Function.update c.bnArray i (resultState (bnClear cfg (c.bnArray i))) } :=
  if_pos h

theorem clearSlots_self (i : Int) : clearSlots cfg i i c = c := by
  simp only [clearSlots, show ∀ j, ¬ (i ≤ j ∧ j < i) from fun j => by omega, if_false]

theorem clearSlots_succ {i n : Int} (hi : i < n) :
    clearSlots cfg (i + 1) n { c with bnArray := Function.update c.bnArray i
                                                (resultState (bnClear cfg (c.bnArray i))) } =
      clearSlots cfg i n c := by
  simp only [clearSlots, BnCtx.mk.injEq, and_true, true_and]
  funext j
  by_cases hj : j = i
  · subst hj; simp [hi, show ¬ (j + 1 ≤ j) by omega]
  · simp only [Function.update_noteq hj]
    by_cases h : i ≤ j ∧ j < n
    · rw [if_pos h, if_pos (by omega)]
    · rw [if_neg h, if_neg (by omega)]

/-- The clearing loop of `BN_CTX_end` runs from `i` to `min(stack[ stackPos ], BN_CTX_ARRAY_SIZE)`
and clears exactly those slots. -/
theorem clearFrame_eq : ∀ (i : Int) (c : BnCtx w), 0 ≤ i →
    i ≤ min (c.stack c.stackPos) cfg.ctxArraySize →
    clearFrame cfg i c = .ok (min (c.stack c.stackPos) cfg.ctxArraySize)
      (clearSlots cfg i (min (c.stack c.stackPos) cfg.ctxArraySize) c) := by
  intro i c
  induction i, c using clearFrame.induct cfg with
  | case1 i c hc _ c' hs ih =>
    intro h0 hle
    rw [clearSlot_ok ⟨h0, hc.2⟩] at hs
    cases hs
    rw [clearFrame, if_pos hc, clearSlot_ok ⟨h0, hc.2⟩]
    simp only
    have hlt : i < min (c.stack c.stackPos) cfg.ctxArraySize := by omega
    rw [ih (by omega) (by simpa using hlt), clearSlots_succ hlt]
  | case2 i c hc e c' hs =>
    intro h0 _
    rw [clearSlot_ok ⟨h0, hc.2⟩] at hs
    cases hs
  | case3 i c hc =>
    intro _ hle
    have hi : i = min (c.stack c.stackPos) cfg.ctxArraySize := by
      rw [not_and_or] at hc; omega
    rw [clearFrame, if_neg hc, ← hi, clearSlots_self]


theorem bnCtxFinal_ok (h : sanityCheckBNCTX cfg c) : bnCtxFinal cfg c = .ok () (bnCtxInit cfg) := by
  simp [bnCtxFinal, h]

theorem bnCtxFree_ok (h : sanityCheckBNCTX cfg c) : bnCtxFree cfg c = .ok () (bnCtxInit cfg) := by
  simp only [bnCtxFree, bind_apply, get_apply, require_apply, if_pos h, bnCtxFinal_ok h]

/-- `BN_CTX_start` on a sane context: a new frame, empty, at `stackPos + 1`; at the deepest
`stackPos` that sanity admits, it writes `stack[ BN_CTX_ARRAY_SIZE ]`. -/
theorem bnCtxStart_eq (h : sanityCheckBNCTX cfg c) :
    bnCtxStart cfg c =
      if c.stackPos + 1 < cfg.ctxArraySize then
        .ok () { c with stackPos := c.stackPos + 1
                        stack := Function.update c.stack (c.stackPos + 1) (c.stack c.stackPos) }
      else .error (.outOfBounds (c.stackPos + 1)) { c with stackPos := c.stackPos + 1 } := by
  have hr : InArray cfg c.stackPos := ⟨h.2.2.1, h.2.2.2⟩
  simp only [bnCtxStart, bind_apply, get_apply, require_apply, if_pos h, modify_apply,
    Int.add_sub_cancel, readStack, if_pos hr, writeStack, ensure_apply]
  by_cases hs : c.stackPos + 1 < cfg.ctxArraySize
  · have h0 := h.2.2.1
    rw [if_pos (show InArray cfg (c.stackPos + 1) from ⟨by omega, hs⟩), if_pos hs]
    exact if_pos ⟨h.1, h.2.1, show 0 ≤ c.stackPos + 1 by omega, hs⟩
  · rw [if_neg fun hi => hs hi.2, if_neg hs]

/-- `BN_CTX_end` with an open frame whose bounds are in order: it clears the frame's slots and
pops it, unless the frame reaches the end of the array, where the loop's closing
`ENSURES_V( i < BN_CTX_ARRAY_SIZE )` fails after the slots are cleared. -/
theorem bnCtxEnd_eq (h : sanityCheckBNCTX cfg c) (hpos : 1 ≤ c.stackPos)
    (hlo : 0 ≤ c.stack (c.stackPos - 1)) (hle : c.stack (c.stackPos - 1) ≤ c.stack c.stackPos)
    (hhi : c.stack c.stackPos ≤ cfg.ctxArraySize) :
    bnCtxEnd cfg c =
      if c.stack c.stackPos < cfg.ctxArraySize then
        .ok () { clearSlots cfg (c.stack (c.stackPos - 1)) (c.stack c.stackPos) c with
                 stack := Function.update c.stack c.stackPos 0, stackPos := c.stackPos - 1 }
      else .error .ensures (clearSlots cfg (c.stack (c.stackPos - 1)) (c.stack c.stackPos) c) := by
  have hr1 : InArray cfg (c.stackPos - 1) := ⟨by omega, by have := h.2.2.2; omega⟩
  have hr : InArray cfg c.stackPos := ⟨h.2.2.1, h.2.2.2⟩
  have hmin : min (c.stack c.stackPos) cfg.ctxArraySize = c.stack c.stackPos := by omega
  simp only [bnCtxEnd, bind_apply, get_apply, require_apply, if_pos h, readStack, if_pos hr1,
    if_pos hr, if_pos hle, @clearFrame_eq w cfg _ c hlo (by omega), hmin, ensure_apply]
  by_cases hs : c.stack c.stackPos < cfg.ctxArraySize
  · simp only [if_pos hs, writeStack, clearSlots, if_pos hr, modify_apply]
    exact if_pos ⟨h.1, h.2.1, show 0 ≤ c.stackPos - 1 by omega,
      show c.stackPos - 1 < cfg.ctxArraySize by have := h.2.2.2; omega⟩
  · rw [if_neg hs, if_neg hs]

/-- `BN_CTX_end` with no frame open reads `stack[ -1 ]`. -/
theorem bnCtxEnd_stackPos_zero (h : sanityCheckBNCTX cfg c) (h0 : c.stackPos = 0) :
    bnCtxEnd cfg c = .error (.outOfBounds (-1)) c := by
  have hr : ¬ InArray cfg (c.stackPos - 1) := fun hr => by have := hr.1; omega
  simp only [bnCtxEnd, bind_apply, get_apply, require_apply, if_pos h, readStack, if_neg hr, h0]
  rfl

/-- `BN_CTX_get` on a sane context: `NULL` when the high-water mark has reached the end of the
array; otherwise the slot at the top of the current frame, which grows by one. -/
theorem bnCtxGet_eq (h : sanityCheckBNCTX cfg c) (htop : c.stack c.stackPos ≤ c.bnArrayMax) :
    bnCtxGet cfg c =
      if c.bnArrayMax ≥ cfg.ctxArraySize then .ok none c
      else .ok (some (c.stack c.stackPos))
        { c with stack := Function.update c.stack c.stackPos (c.stack c.stackPos + 1)
                 bnArrayMax := max c.bnArrayMax (c.stack c.stackPos + 1) } := by
  have hr : InArray cfg c.stackPos := ⟨h.2.2.1, h.2.2.2⟩
  by_cases hm : c.bnArrayMax ≥ cfg.ctxArraySize
  · simp only [bnCtxGet, bind_apply, get_apply, readStack, if_pos hr, if_pos hm]
    rfl
  · simp only [bnCtxGet, bind_apply, get_apply, pure_apply, readStack, if_pos hr, if_neg hm,
      require_apply, if_pos h, writeStack, modify_apply, ensure_apply, Int.add_sub_cancel]
    by_cases hg : c.stack c.stackPos + 1 > c.bnArrayMax
    · have hs : sanityCheckBNCTX cfg
          { c with stack := Function.update c.stack c.stackPos (c.stack c.stackPos + 1)
                   bnArrayMax := c.stack c.stackPos + 1 } :=
        ⟨show 0 ≤ c.stack c.stackPos + 1 by have := h.1; omega,
          show c.stack c.stackPos + 1 ≤ cfg.ctxArraySize by omega, h.2.2.1, h.2.2.2⟩
      simp only [if_pos hg, bind_apply, get_apply, pure_apply, modify_apply, ensure_apply, if_pos hs,
        Int.max_eq_right (Int.le_of_lt hg)]
    · have hs : sanityCheckBNCTX cfg
          { c with stack := Function.update c.stack c.stackPos (c.stack c.stackPos + 1) } := h
      simp only [if_neg hg, bind_apply, get_apply, pure_apply, ensure_apply, if_pos hs,
        Int.max_eq_left (Int.not_lt.1 hg)]

theorem clearExt_eq (t : BignumExtType) (c : BnCtx w) :
    ∃ e e2, clearExt cfg t c = .ok () { c with bnExtArray := e, bnExt2Array := e2 } := by
  unfold clearExt
  split
  · rename_i s _
    cases s
    · exact ⟨_, _, rfl⟩
    · exact ⟨_, _, rfl⟩
  · exact ⟨_, _, rfl⟩

/-- `BN_CTX_end_ext` leaves the standard part of the context as its `BN_CTX_end` does; only the
extended arrays differ. -/
theorem bnCtxEndExt_returned {t : BignumExtType} {c' : BnCtx w}
    (h : Returned (bnCtxEndExt cfg t c) c') :
    ∃ c₁, Returned (bnCtxEnd cfg c) c₁ ∧
      ∃ e e2, c' = { c₁ with bnExtArray := e, bnExt2Array := e2 } := by
  obtain ⟨c₁, h₁, hc⟩ : ∃ c₁, Returned (bnCtxEnd cfg c) c₁ ∧ callVoid (bnCtxEnd cfg) c = .ok () c₁ := by
    cases hr : bnCtxEnd cfg c with
    | ok _ c₁ => exact ⟨c₁, rfl, callVoid_of_ok hr⟩
    | error e c₁ =>
      cases e with
      | outOfBounds i => simp [bnCtxEndExt, callVoid, hr, Returned] at h
      | requires => exact ⟨c₁, rfl, callVoid_of_check hr nofun⟩
      | ensures => exact ⟨c₁, rfl, callVoid_of_check hr nofun⟩
  refine ⟨c₁, h₁, ?_⟩
  simp only [bnCtxEndExt, bind_apply, hc, ensure_apply] at h
  by_cases ht : t = .mul1 ∨ t = .mont
  · by_cases hm : t = .mul1
    · obtain ⟨e, e2, he⟩ := @clearExt_eq w cfg .mul1 c₁
      obtain ⟨e', e2', he'⟩ := @clearExt_eq w cfg .mul2 { c₁ with bnExtArray := e, bnExt2Array := e2 }
      simp only [if_pos ht, if_pos hm, bind_apply, he, he'] at h
      exact ⟨e', e2', h.symm⟩
    · obtain ⟨e, e2, he⟩ := @clearExt_eq w cfg .mont c₁
      simp only [if_pos ht, if_neg hm, he] at h
      exact ⟨e, e2, h.symm⟩
  · simp only [if_neg ht] at h
    exact ⟨c₁.bnExtArray, c₁.bnExt2Array, h.symm⟩

end Spec

end CtxBn
