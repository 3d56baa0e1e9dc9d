import CtxBn.Client

/-!
# CtxBn.Ext

The extended-size bignums of a `BN_CTX`. "The bignum multiplication code requires a few
temporary values that grow to an enormous size": `BN_CTX_get_ext` hands out one fixed slot per
purpose, `bnExtArray[ 0 ]` for `BIGNUM_EXT_MONT` and `bnExt2Array[ 0 ]`, `[ 1 ]` for
`BIGNUM_EXT_MUL1` and `BIGNUM_EXT_MUL2`, and `BN_CTX_end_ext` ends the current frame with
`BN_CTX_end` and then clears the slots of one purpose: both multiplication slots for `MUL1`, the
Montgomery slot for `MONT`.

`ExtInv` is what every client run keeps of these slots (`ClientReach.extInv`): each one is sane
and keeps the flags `BN_CTX_init` gave it, so it stays of its array's class and is never static.
`BN_clear` therefore never skips one.

* `ext_slots_cleared`: in every reachable client state the extended slots are sane and of their
  class, and `BN_CTX_end_ext` leaves the standard part of the context as its `BN_CTX_end` does,
  clears exactly the slots `BN_CTX_get_ext` hands out for its purpose and leaves the other
  extended slots as they were.
-/

namespace CtxBn

variable {w : Nat} (cfg : Config)

namespace BnCtx

@[simp] theorem extSlot_setExtSlot (c : BnCtx w) (bn : Bignum w) (s s' : ExtSlot) :
    (c.setExtSlot bn s).extSlot s' = if s' = s then bn else c.extSlot s' := by
  cases s <;> cases s' <;> simp [setExtSlot, extSlot, Function.update_apply]

end BnCtx

/-- The extended slots `BN_CTX_end_ext( bnExtType )` clears: for `MUL1` the two that
`BN_CTX_get_ext` hands out for `MUL1` and `MUL2`, for `MONT` the one it hands out for `MONT`. -/
def EndExtClears (bnExtType : BignumExtType) (slot : ExtSlot) : Prop :=
  (bnExtType = .mul1 ∧ (bnCtxGetExt .mul1 = some slot ∨ bnCtxGetExt .mul2 = some slot)) ∨
    (bnExtType = .mont ∧ bnCtxGetExt .mont = some slot)

instance (bnExtType : BignumExtType) (slot : ExtSlot) : Decidable (EndExtClears bnExtType slot) :=
  inferInstanceAs (Decidable (_ ∨ _))

/-- The extended slots of a context: each sane, with the flags `BN_CTX_init` gave it. -/
def ExtInv (c : BnCtx w) : Prop :=
  ∀ slot, sanityCheckBignum cfg (c.extSlot slot) ∧
    (c.extSlot slot).flags = ((bnCtxInit cfg : BnCtx w).extSlot slot).flags

section Spec

variable {cfg} {c c' : BnCtx w}

/-- `BN_clear( BN_CTX_get_ext( bnCTX, bnExtType ) )` on every slot. -/
theorem clearExt_extSlot (t : BignumExtType) (c : BnCtx w) (slot : ExtSlot) :
    (resultState (clearExt cfg t c)).extSlot slot =
      if bnCtxGetExt t = some slot then resultState (bnClear cfg (c.extSlot slot)) else c.extSlot slot := by
  cases hs : bnCtxGetExt t with
  | none => simp [clearExt, hs]
  | some s =>
    simp only [clearExt, hs, resultState_ok, BnCtx.extSlot_setExtSlot, Option.some.injEq]
    by_cases he : slot = s
    · subst he; simp
    · simp [he, Ne.symm he]

theorem clearExt_ok (t : BignumExtType) (c : BnCtx w) :
    clearExt cfg t c = .ok () (resultState (clearExt cfg t c)) := by
  obtain ⟨e, e2, he⟩ := @clearExt_eq w cfg t c
  rw [he, resultState_ok]

/-- `BN_CTX_end_ext( bnExtType )`, as it returned: its `BN_CTX_end` returned, and then only the
extended slots that `EndExtClears` names were cleared. -/
theorem bnCtxEndExt_extSlot {t : BignumExtType} (h : Returned (bnCtxEndExt cfg t c) c') :
    ∃ c₁, Returned (bnCtxEnd cfg c) c₁ ∧
      c' = { c₁ with bnExtArray := c'.bnExtArray, bnExt2Array := c'.bnExt2Array } ∧
      ∀ slot, c'.extSlot slot =
        if EndExtClears t slot then resultState (bnClear cfg (c₁.extSlot slot)) else c₁.extSlot slot := by
  obtain ⟨c₁, h₁, h₂⟩ := returned_callVoid_bind h
  refine ⟨c₁, h₁, ?_⟩
  simp only [bind_apply, ensure_apply] at h₂
  cases t with
  | mul1 =>
    simp only [true_or, if_true, bind_apply] at h₂
    rw [clearExt_ok] at h₂
    dsimp only at h₂
    rw [clearExt_ok] at h₂
    subst h₂
    refine ⟨?_, fun slot => ?_⟩
    · obtain ⟨e, e2, he⟩ := @clearExt_eq w cfg .mul1 c₁
      obtain ⟨e', e2', he'⟩ := @clearExt_eq w cfg .mul2 (resultState (clearExt cfg .mul1 c₁))
      rw [he']; simp only [resultState_ok]; rw [he]; rfl
    · rw [clearExt_extSlot, clearExt_extSlot]
      rcases slot with i | ((_ | _) | i) <;> simp [EndExtClears, bnCtxGetExt]
  | mont =>
    simp only [or_true, if_true] at h₂
    rw [if_neg (by decide), clearExt_ok] at h₂
    subst h₂
    refine ⟨?_, fun slot => ?_⟩
    · obtain ⟨e, e2, he⟩ := @clearExt_eq w cfg .mont c₁
      rw [he]; rfl
    · rw [clearExt_extSlot]
      rcases slot with (_ | i) | i <;> simp [EndExtClears, bnCtxGetExt]
  | none | mul2 | last =>
    -- `ENSURES_V` rejects the type after the frame has been ended
    simp at h₂
    subst h₂
    exact ⟨rfl, fun slot => by simp [EndExtClears]⟩

end Spec

/-! ## The extended slots over the client's runs -/

namespace ExtInv

variable {cfg} {c c' : BnCtx w}

theorem init : ExtInv cfg (bnCtxInit cfg : BnCtx w) := fun slot => by
  refine ⟨?_, rfl⟩
  cases slot
  · exact ⟨cfg.allocWordsExt_pos, Nat.le_refl _, Nat.zero_le _⟩
  · exact ⟨cfg.allocWordsExt2_pos, Nat.le_refl _, Nat.zero_le _⟩

theorem of_extSlot (hi : ExtInv cfg c) (he : c'.extSlot = c.extSlot) : ExtInv cfg c' := fun slot => by
  rw [he]; exact hi slot

/-- No extended slot is static, so `BN_clear` clears it and keeps it sane, with its flags. -/
theorem clear (hi : ExtInv cfg c) (slot : ExtSlot) :
    (resultState (bnClear cfg (c.extSlot slot))).IsCleared ∧
      sanityCheckBignum cfg (resultState (bnClear cfg (c.extSlot slot))) ∧
      (resultState (bnClear cfg (c.extSlot slot))).flags = ((bnCtxInit cfg : BnCtx w).extSlot slot).flags := by
  have hs : (c.extSlot slot).flags.staticData = false := by rw [(hi slot).2]; cases slot <;> rfl
  obtain ⟨hc, hsane, hf⟩ := bnClear_clears (hi slot).1 hs
  exact ⟨hc, hsane, hf.trans (hi slot).2⟩

end ExtInv

variable {cfg} in
/-- `BN_CTX_end` leaves the extended arrays alone, in every context of the pool invariant. -/
theorem PoolInv.end_extSlot {c c' : BnCtx w} (hi : PoolInv cfg c) (h : Returned (bnCtxEnd cfg c) c') :
    c'.extSlot = c.extSlot := by
  by_cases hpos : 1 ≤ c.stackPos
  · rw [hi.end_eq hpos] at h
    split_ifs at h <;> (cases h; rfl)
  · rw [bnCtxEnd_stackPos_zero hi.sane (by have := hi.sane.2.2.1; omega)] at h
    exact h.elim

section Runs

variable {cfg} {s s' : Client w}

theorem ExtInv.poolCall (he : ExtInv cfg s.ctx) (hc : ClientInv cfg s) (h : PoolCall cfg s s') :
    ExtInv cfg s'.ctx := by
  cases h with
  | start hs hr =>
    rw [bnCtxStart_eq hc.pool.sane, if_pos (by omega)] at hr
    cases hr; exact he
  | get hr =>
    rw [hc.pool.get_eq] at hr
    split_ifs at hr <;> (cases hr; exact he)
  | getFail hr _ => rw [hc.pool.get_eq] at hr; split_ifs at hr
  | «end» _ hr => exact he.of_extSlot (hc.pool.end_extSlot hr)
  | getExt _ => exact he
  | endExt _ hr =>
    obtain ⟨c₁, h₁, -, hslot⟩ := bnCtxEndExt_extSlot hr
    intro slot
    rw [hslot, hc.pool.end_extSlot h₁]
    split_ifs
    · exact (he.clear slot).2
    · exact he slot

theorem ExtInv.write (he : ExtInv cfg s.ctx) (h : ClientWriteStep cfg s s') : ExtInv cfg s'.ctx := by
  cases h with
  | slot _ _ => exact he
  | @ext slot v _ hw =>
    intro slot'
    show sanityCheckBignum cfg ((s.ctx.setExtSlot v slot).extSlot slot') ∧ _
    rw [BnCtx.extSlot_setExtSlot]
    split_ifs with hs
    · subst hs; exact ⟨hw.2, hw.1.trans (he slot').2⟩
    · exact he slot'

/-- Every context the client reaches keeps its extended slots sane and of their class. -/
theorem ClientReach.extInv (h : ClientReach cfg s) : ExtInv cfg s.ctx := by
  induction h with
  | init => exact .init
  | final hr hf _ =>
    rw [bnCtxFinal_ok hr.inv.pool.sane] at hf
    cases hf; exact .init
  | call hr hc ih => exact ih.poolCall hr.inv hc
  | write _ hw ih => exact ih.write hw

end Runs

/-- The extended-size temporaries over every run of the client from `BN_CTX_init` or
`BN_CTX_final`: each extended slot stays sane with the flags `BN_CTX_init` gave it (so of its
array's class and never static), and `BN_CTX_end_ext( bnExtType )`, whenever it returns, leaves
the standard part of the context as its `BN_CTX_end` does, clears the slots that
`BN_CTX_get_ext` hands out for `MUL1` and `MUL2` (for `bnExtType = MUL1`) or for `MONT` (for
`bnExtType = MONT`), and leaves every other extended slot as it was; for any other type its
`ENSURES_V` fails and no extended slot is cleared. -/
theorem ext_slots_cleared {s : Client w} (h : ClientReach cfg s) :
    ExtInv cfg s.ctx ∧
    ∀ t c', Returned (bnCtxEndExt cfg t s.ctx) c' →
      ∃ c₁, Returned (bnCtxEnd cfg s.ctx) c₁ ∧
        c' = { c₁ with bnExtArray := c'.bnExtArray, bnExt2Array := c'.bnExt2Array } ∧
        ∀ slot, (EndExtClears t slot → (c'.extSlot slot).IsCleared) ∧
          (¬ EndExtClears t slot → c'.extSlot slot = s.ctx.extSlot slot) := by
  have he := h.extInv
  refine ⟨he, fun t c' hr => ?_⟩
  obtain ⟨c₁, h₁, hrec, hslot⟩ := bnCtxEndExt_extSlot hr
  have h1 := h.inv.pool.end_extSlot h₁
  refine ⟨c₁, h₁, hrec, fun slot => ⟨fun hc => ?_, fun hc => ?_⟩⟩
  · rw [hslot, if_pos hc, h1]
    exact (he.clear slot).1
  · rw [hslot, if_neg hc, h1]

/-- `BN_CTX_end_ext( MUL1 )` after `BN_CTX_start`, `BN_CTX_get_ext( MUL1 )` and a write of 5 into
that slot: the call returns with the frame popped, the slot cleared and the Montgomery slot as
it was. -/
theorem ext_slots_cleared_mul1 :
    ∃ s : Client 64, ClientReach sampleConfig s ∧ s.depth = 1 ∧ (s.ctx.extSlot (.ext2 0)).top = 1 ∧
      ExtInv sampleConfig s.ctx ∧
      ∃ c', Returned (bnCtxEndExt sampleConfig .mul1 s.ctx) c' ∧ c'.stackPos = 0 ∧
        (c'.extSlot (.ext2 0)).IsCleared ∧ c'.extSlot (.ext 0) = s.ctx.extSlot (.ext 0) := by
  have h0 : ClientReach sampleConfig (Client.fresh (bnCtxInit sampleConfig) : Client 64) := .init
  have h1 : ClientReach sampleConfig _ := .call h0
    (.start (by decide) (by rw [bnCtxStart_eq h0.inv.pool.sane, if_pos (by decide)]; rfl))
  have h2 : ClientReach sampleConfig _ := .call h1 (@PoolCall.getExt 64 sampleConfig _ .mul1 _ rfl)
  have h3 : ClientReach sampleConfig _ := .write h2
    (@ClientWriteStep.ext 64 sampleConfig _ (.ext2 0)
      (resultState (bnSetWord sampleConfig 5 (bnInitExt sampleConfig true))) rfl ⟨rfl, by decide⟩)
  have hend := h3.inv.pool.end_eq (by decide)
  rw [if_pos (by decide)] at hend
  -- `BN_CTX_end_ext( MUL1 )` returns whenever its `BN_CTX_end` does
  have hr : ∀ {c c₁ : BnCtx 64}, bnCtxEnd sampleConfig c = .ok () c₁ →
      Returned (bnCtxEndExt sampleConfig .mul1 c)
        (resultState (clearExt sampleConfig .mul2 (resultState (clearExt sampleConfig .mul1 c₁)))) := fun h => by
    simp only [bnCtxEndExt, bind_apply, callVoid_of_ok h, ensure_apply, true_or, if_true]
    exact rfl
  obtain ⟨hinv, hcl⟩ := ext_slots_cleared sampleConfig h3
  obtain ⟨c₁, h₁, hrec, hslot⟩ := hcl .mul1 _ (hr hend)
  have hpos : c₁.stackPos = 0 := by rw [hend] at h₁; rw [← h₁]; rfl
  exact ⟨_, h3, rfl, by decide, hinv, _, hr hend, by rw [hrec]; exact hpos, (hslot _).1 (by decide),
    (hslot _).2 (by decide)⟩

end CtxBn
