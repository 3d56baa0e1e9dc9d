import CtxBn.Ctx

/-!
# CtxBn.Pool

The `BN_CTX` stack discipline over whole runs of `BN_CTX_start`, `BN_CTX_get` and `BN_CTX_end`.

`PoolInv` is the invariant of every context such a run reaches (`PoolReach.inv`): the context
is sane, the frame tops `stack[ 0 ] ≤ … ≤ stack[ stackPos ]` are in order and at most the
high-water mark `bnArrayMax`, and the high-water mark reaches `BN_CTX_ARRAY_SIZE` only together
with the current frame top. Each routine keeps it (`PoolInv.start`, `PoolInv.get`,
`PoolInv.pop`). From it:

* `bnCtxGet_null_iff_full`: `BN_CTX_get` returns `NULL` exactly when the current frame reaches
  the end of the array, and otherwise hands out the slot at its top.
* `ctx_checks_miss_stack_bounds`: the checks let two calls index `stack[]` outside the array,
  `BN_CTX_end` with no frame open and `BN_CTX_start` at the last admitted `stackPos`.
* `full_frame_stays_open`: a frame filled up to `BN_CTX_ARRAY_SIZE` cannot be ended, since the
  clearing loop then stops at `i = BN_CTX_ARRAY_SIZE` and fails `ENSURES_V( i < ... )`.
-/

namespace CtxBn

variable {w : Nat} (cfg : Config)

/-- The invariant of the contexts that runs of `BN_CTX_start`, `BN_CTX_get` and `BN_CTX_end`
reach from `BN_CTX_init`. -/
structure PoolInv (c : BnCtx w) : Prop where
  sane : sanityCheckBNCTX cfg c
  base : 0 ≤ c.stack 0
  mono : ∀ j k, 0 ≤ j → j ≤ k → k ≤ c.stackPos → c.stack j ≤ c.stack k
  top_le : c.stack c.stackPos ≤ c.bnArrayMax
  full : c.bnArrayMax = cfg.ctxArraySize → c.stack c.stackPos = cfg.ctxArraySize

/-- Reachable from `BN_CTX_init` by `BN_CTX_start` issued at `stackPos ≤ BN_CTX_ARRAY_SIZE − 2`,
`BN_CTX_get`, and `BN_CTX_end` issued while a frame is open, each call having returned. -/
inductive PoolReach : BnCtx w → Prop
  | init : PoolReach (bnCtxInit cfg)
  | start {c c' : BnCtx w} : PoolReach c → c.stackPos ≤ cfg.ctxArraySize - 2 →
      Returned (bnCtxStart cfg c) c' → PoolReach c'
  | get {c c' : BnCtx w} : PoolReach c → Returned (bnCtxGet cfg c) c' → PoolReach c'
  | «end» {c c' : BnCtx w} : PoolReach c → 1 ≤ c.stackPos → Returned (bnCtxEnd cfg c) c' →
      PoolReach c'

namespace PoolInv

variable {cfg} {c : BnCtx w}

theorem init : PoolInv cfg (bnCtxInit cfg : BnCtx w) where
  sane := ⟨Int.le_refl 0, Int.ofNat_nonneg _, Int.le_refl 0, Int.ofNat_pos.2 cfg.ctxArraySize_pos⟩
  base := Int.le_refl 0
  mono := fun _ _ _ _ _ => Int.le_refl 0
  top_le := Int.le_refl 0
  full := fun h => absurd h (by have := cfg.ctxArraySize_pos; simp [bnCtxInit]; omega)

theorem stack_nonneg (hi : PoolInv cfg c) {j : Int} (h0 : 0 ≤ j) (hj : j ≤ c.stackPos) :
    0 ≤ c.stack j :=
  Int.le_trans hi.base (hi.mono 0 j (Int.le_refl 0) h0 hj)

theorem top_le_size (hi : PoolInv cfg c) : c.stack c.stackPos ≤ cfg.ctxArraySize :=
  Int.le_trans hi.top_le hi.sane.2.1

/-- The exhaustion test of `BN_CTX_get` reads the high-water mark, but under the invariant it
is the test on the current frame top. -/
theorem max_ge_iff (hi : PoolInv cfg c) :
    c.bnArrayMax ≥ cfg.ctxArraySize ↔ c.stack c.stackPos = cfg.ctxArraySize :=
  ⟨fun h => hi.full (by have := hi.sane.2.1; omega), fun h => by have := hi.top_le; omega⟩

theorem start (hi : PoolInv cfg c) (hs : c.stackPos + 1 < cfg.ctxArraySize) :
    PoolInv cfg { c with stackPos := c.stackPos + 1
                         stack := Function.update c.stack (c.stackPos + 1) (c.stack c.stackPos) } where
  sane := ⟨hi.sane.1, hi.sane.2.1, show 0 ≤ c.stackPos + 1 by have := hi.sane.2.2.1; omega, hs⟩
  base := by
    have := hi.sane.2.2.1
    simpa [Function.update_apply, show (0 : Int) ≠ c.stackPos + 1 by omega] using hi.base
  mono := fun j k h0 hjk hk => by
    dsimp only at hk ⊢
    simp only [Function.update_apply]
    split_ifs <;> first
      | exact Int.le_refl _
      | omega
      | exact hi.mono _ _ h0 (by omega) (by omega)
  top_le := by simpa using hi.top_le
  full := fun h => by simpa using hi.full h

theorem get (hi : PoolInv cfg c) (hm : c.bnArrayMax < cfg.ctxArraySize) :
    PoolInv cfg { c with stack := Function.update c.stack c.stackPos (c.stack c.stackPos + 1)
                         bnArrayMax := max c.bnArrayMax (c.stack c.stackPos + 1) } where
  sane := ⟨show 0 ≤ max _ _ by have := hi.sane.1; omega,
    show max _ _ ≤ (cfg.ctxArraySize : Int) by have := hi.top_le; omega, hi.sane.2.2⟩
  base := by
    have := hi.stack_nonneg hi.sane.2.2.1 (Int.le_refl _)
    simp only [Function.update_apply]
    split_ifs <;> have := hi.base <;> omega
  mono := fun j k h0 hjk hk => by
    dsimp only at hk ⊢
    simp only [Function.update_apply]
    have := hi.mono j c.stackPos h0
    split_ifs <;> first
      | omega
      | exact hi.mono j k h0 hjk hk
  top_le := by dsimp only; rw [Function.update_same]; omega
  full := fun h => by dsimp only at h ⊢; rw [Function.update_same]; omega

/-- `BN_CTX_end` popping a frame that does not reach the end of the array. -/
theorem pop (hi : PoolInv cfg c) (hpos : 1 ≤ c.stackPos) (hs : c.stack c.stackPos < cfg.ctxArraySize)
    (a b : Int) :
    PoolInv cfg { clearSlots cfg a b c with
                  stack := Function.update c.stack c.stackPos 0, stackPos := c.stackPos - 1 } where
  sane := ⟨hi.sane.1, hi.sane.2.1, show 0 ≤ c.stackPos - 1 by omega,
    show c.stackPos - 1 < (cfg.ctxArraySize : Int) by have := hi.sane.2.2.2; omega⟩
  base := by simpa [Function.update_apply, show (0 : Int) ≠ c.stackPos by omega] using hi.base
  mono := fun j k h0 hjk hk => by
    dsimp only at hk ⊢
    simp only [Function.update_apply, show j ≠ c.stackPos by omega, show k ≠ c.stackPos by omega,
      if_false]
    exact hi.mono j k h0 hjk (by omega)
  top_le := by
    dsimp only
    simp only [Function.update_apply, show c.stackPos - 1 ≠ c.stackPos by omega, if_false]
    exact Int.le_trans (hi.mono _ _ (by omega) (by omega) (Int.le_refl _)) hi.top_le
  full := fun h => absurd (hi.full h) (by omega)

theorem clear (hi : PoolInv cfg c) (a b : Int) : PoolInv cfg (clearSlots cfg a b c) :=
  ⟨hi.sane, hi.base, hi.mono, hi.top_le, hi.full⟩

/-- `BN_CTX_end` on a context of the invariant with a frame open. -/
theorem end_eq (hi : PoolInv cfg c) (hpos : 1 ≤ c.stackPos) :
    bnCtxEnd cfg c =
      if c.stack c.stackPos < cfg.ctxArraySize then
        .ok () { clearSlots cfg (c.stack (c.stackPos - 1)) (c.stack c.stackPos) c with
                 stack := Function.update c.stack c.stackPos 0, stackPos := c.stackPos - 1 }
      else .error .ensures (clearSlots cfg (c.stack (c.stackPos - 1)) (c.stack c.stackPos) c) :=
  bnCtxEnd_eq hi.sane hpos (hi.stack_nonneg (by omega) (by omega))
    (hi.mono _ _ (by omega) (by omega) (Int.le_refl _)) hi.top_le_size

/-- `BN_CTX_get` on a context of the invariant. -/
theorem get_eq (hi : PoolInv cfg c) :
    bnCtxGet cfg c =
      if c.stack c.stackPos = cfg.ctxArraySize then .ok none c
      else .ok (some (c.stack c.stackPos))
        { c with stack := Function.update c.stack c.stackPos (c.stack c.stackPos + 1)
                 bnArrayMax := max c.bnArrayMax (c.stack c.stackPos + 1) } := by
  rw [bnCtxGet_eq hi.sane hi.top_le]
  exact if_congr hi.max_ge_iff rfl rfl

end PoolInv

variable {cfg} in
/-- Every context a run reaches satisfies the invariant. -/
theorem PoolReach.inv {c : BnCtx w} (h : PoolReach cfg c) : PoolInv cfg c := by
  induction h with
  | init => exact .init
  | @start c _ _ hs hr ih =>
    have hs' : c.stackPos + 1 < (cfg.ctxArraySize : Int) := by omega
    rw [bnCtxStart_eq ih.sane, if_pos hs'] at hr
    cases hr; exact ih.start hs'
  | get _ hr ih =>
    rw [ih.get_eq] at hr
    split_ifs at hr with hf
    · cases hr; exact ih
    · cases hr; exact ih.get (by have := ih.max_ge_iff; omega)
  | «end» _ hpos hr ih =>
    rw [ih.end_eq hpos] at hr
    split_ifs at hr with hs
    · cases hr; exact ih.pop hpos hs _ _
    · cases hr; exact ih.clear _ _

/-! ## Exhaustion -/

/-- `BN_CTX_get` in every reachable context: `NULL`, with the context unchanged, exactly when the
current frame reaches `BN_CTX_ARRAY_SIZE`; otherwise the slot `stack[ stackPos ]`, with that frame
top one higher and the high-water mark raised to it, and nothing else changed. `BN_CTX_end`
never lowers the high-water mark. -/
theorem bnCtxGet_null_iff_full {c : BnCtx w} (h : PoolReach cfg c) :
    bnCtxGet cfg c =
      (if c.stack c.stackPos = cfg.ctxArraySize then .ok none c
       else .ok (some (c.stack c.stackPos))
         { c with stack := Function.update c.stack c.stackPos (c.stack c.stackPos + 1)
                  bnArrayMax := max c.bnArrayMax (c.stack c.stackPos + 1) }) ∧
    ∀ c', Returned (bnCtxEnd cfg c) c' → c'.bnArrayMax = c.bnArrayMax := by
  have hi := h.inv
  refine ⟨hi.get_eq, fun c' hr => ?_⟩
  by_cases hpos : 1 ≤ c.stackPos
  · rw [hi.end_eq hpos] at hr
    split_ifs at hr <;> (cases hr; rfl)
  · rw [bnCtxEnd_stackPos_zero hi.sane (by have := hi.sane.2.2.1; omega)] at hr
    exact hr.elim

/-- A frame filled: after `BN_CTX_start` and four `BN_CTX_get`s on a four-slot array, the current
frame top is `BN_CTX_ARRAY_SIZE`, so the next `BN_CTX_get` returns `NULL` and changes nothing, and
`BN_CTX_end` (whose closing check fails there) keeps the high-water mark. -/
theorem bnCtxGet_null_iff_full_filled :
    ∃ c : BnCtx 64, PoolReach sampleConfig c ∧ c.stackPos = 1 ∧ c.stack 1 = 4 ∧
      bnCtxGet sampleConfig c = .ok none c ∧
      ∀ c', Returned (bnCtxEnd sampleConfig c) c' → c'.bnArrayMax = 4 := by
  have h1 : PoolReach sampleConfig _ := .start (.init : PoolReach sampleConfig (bnCtxInit sampleConfig : BnCtx 64))
    (by decide) (by rw [bnCtxStart_eq PoolInv.init.sane, if_pos (by decide)]; rfl)
  have h2 : PoolReach sampleConfig _ := .get h1 (by rw [h1.inv.get_eq, if_neg (by decide)]; rfl)
  have h3 : PoolReach sampleConfig _ := .get h2 (by rw [h2.inv.get_eq, if_neg (by decide)]; rfl)
  have h4 : PoolReach sampleConfig _ := .get h3 (by rw [h3.inv.get_eq, if_neg (by decide)]; rfl)
  have h5 : PoolReach sampleConfig _ := .get h4 (by rw [h4.inv.get_eq, if_neg (by decide)]; rfl)
  obtain ⟨c, hc, hsp, hs1, hmax⟩ : ∃ c : BnCtx 64, PoolReach sampleConfig c ∧ c.stackPos = 1 ∧
      c.stack 1 = 4 ∧ c.bnArrayMax = 4 := ⟨_, h5, rfl, by decide, by decide⟩
  obtain ⟨hget, hend⟩ := bnCtxGet_null_iff_full sampleConfig hc
  rw [hsp, hs1, if_pos (by decide)] at hget
  exact ⟨c, hc, hsp, hs1, hget, fun c' h => (hend c' h).trans hmax⟩

/-! ## Out-of-range indices -/

/-- Every `stackPos` below `BN_CTX_ARRAY_SIZE` is reached, by starting that many frames. -/
theorem PoolReach.exists_stackPos :
    ∀ n : Nat, n < cfg.ctxArraySize → ∃ c : BnCtx w, PoolReach cfg c ∧ c.stackPos = n
  | 0, _ => ⟨_, .init, rfl⟩
  | n + 1, hn => by
    obtain ⟨c, hc, hp⟩ := exists_stackPos n (by omega)
    have hs : c.stackPos + 1 < (cfg.ctxArraySize : Int) := by omega
    refine ⟨_, .start hc (by omega) (by rw [bnCtxStart_eq hc.inv.sane, if_pos hs]; rfl), ?_⟩
    simp [hp]

/-- The checks of `BN_CTX_end` and `BN_CTX_start` pass where their index arithmetic leaves the
arrays: `BN_CTX_end` on a fresh context reads `stack[ -1 ]` in its second `REQUIRES_V`, and
`BN_CTX_start` at `stackPos = BN_CTX_ARRAY_SIZE - 1`, which that many starts reach, writes
`stack[ BN_CTX_ARRAY_SIZE ]`. -/
theorem ctx_checks_miss_stack_bounds :
    bnCtxEnd cfg (bnCtxInit cfg : BnCtx w) = .error (.outOfBounds (-1)) (bnCtxInit cfg) ∧
    ∃ c : BnCtx w, PoolReach cfg c ∧ c.stackPos = cfg.ctxArraySize - 1 ∧
      bnCtxStart cfg c = .error (.outOfBounds cfg.ctxArraySize) { c with stackPos := cfg.ctxArraySize } := by
  refine ⟨bnCtxEnd_stackPos_zero PoolInv.init.sane rfl, ?_⟩
  have hpos := cfg.ctxArraySize_pos
  obtain ⟨c, hc, hp⟩ := PoolReach.exists_stackPos (w := w) cfg (cfg.ctxArraySize - 1) (by omega)
  have hs : c.stackPos + 1 = cfg.ctxArraySize := by omega
  refine ⟨c, hc, by omega, ?_⟩
  rw [bnCtxStart_eq hc.inv.sane, if_neg (by omega), hs]

/-! ## A frame that fills the array -/

/-- The context after `BN_CTX_init`, `BN_CTX_start` and `n` calls of `BN_CTX_get`. -/
def oneFrame (n : Int) : BnCtx w :=
  { bnCtxInit cfg with stack := fun j => if j = 1 then n else 0, bnArrayMax := n, stackPos := 1 }

theorem bnClear_bnInit : resultState (bnClear cfg (bnInit cfg : Bignum w)) = bnInit cfg := by
  rw [bnClear_ok sanityCheckBignum_bnInit rfl]
  simp only [resultState_ok, bnInit, Bignum.mk.injEq, and_true, true_and]
  funext i
  simp [zeroise]

/-- A balanced run that fills one frame: `BN_CTX_start` at `stackPos = 0`, then
`BN_CTX_ARRAY_SIZE` calls of `BN_CTX_get`, which all succeed. The `BN_CTX_end` that closes the
frame clears it, ends its loop at `i = BN_CTX_ARRAY_SIZE`, fails `ENSURES_V( i < ... )` and
returns with the frame still open. -/
theorem full_frame_stays_open (hs : 2 ≤ cfg.ctxArraySize) :
    bnCtxStart cfg (bnCtxInit cfg : BnCtx w) = .ok () (oneFrame cfg 0) ∧
    (∀ n : Nat, n < cfg.ctxArraySize →
      bnCtxGet cfg (oneFrame cfg n : BnCtx w) = .ok (some n) (oneFrame cfg (n + 1))) ∧
    bnCtxEnd cfg (oneFrame cfg cfg.ctxArraySize : BnCtx w) =
      .error .ensures (oneFrame cfg cfg.ctxArraySize) := by
  have hpos := cfg.ctxArraySize_pos
  refine ⟨?_, fun n hn => ?_, ?_⟩
  · rw [bnCtxStart_eq PoolInv.init.sane, if_pos (by simp [bnCtxInit]; omega)]
    simp only [oneFrame, bnCtxInit, EStateM.Result.ok.injEq, BnCtx.mk.injEq, true_and, and_true]
    refine ⟨?_, rfl⟩
    funext j
    simp [Function.update_apply]
  · have hsane : sanityCheckBNCTX cfg (oneFrame cfg n : BnCtx w) :=
      ⟨Int.ofNat_nonneg n, by simp only [oneFrame]; omega, by simp [oneFrame], by simp [oneFrame]; omega⟩
    rw [bnCtxGet_eq hsane (by simp [oneFrame]), if_neg (by simp only [oneFrame]; omega)]
    simp only [oneFrame, bnCtxInit, if_pos, EStateM.Result.ok.injEq, BnCtx.mk.injEq, true_and,
      and_true]
    refine ⟨by omega, ?_⟩
    funext j
    by_cases hj : j = 1 <;> simp [Function.update_apply, hj]
  · have hsane : sanityCheckBNCTX cfg (oneFrame cfg cfg.ctxArraySize : BnCtx w) :=
      ⟨Int.ofNat_nonneg _, by simp [oneFrame], by simp [oneFrame], by simp [oneFrame]; omega⟩
    rw [bnCtxEnd_eq hsane (by simp [oneFrame]) (by simp [oneFrame])
      (by simp only [oneFrame]; split_ifs <;> omega) (by simp [oneFrame]),
      if_neg (by simp [oneFrame])]
    simp only [clearSlots, oneFrame, bnCtxInit, bnClear_bnInit, ite_self]

theorem full_frame_stays_open_sample :
    (oneFrame sampleConfig sampleConfig.ctxArraySize : BnCtx 64).stackPos = 1 ∧
      bnCtxEnd sampleConfig (oneFrame sampleConfig sampleConfig.ctxArraySize : BnCtx 64) =
        .error .ensures (oneFrame sampleConfig sampleConfig.ctxArraySize) :=
  ⟨rfl, (full_frame_stays_open sampleConfig (by decide)).2.2⟩

end CtxBn
