import CtxBn.Pool

/-!
# CtxBn.Client

Frame isolation of the `BN_CTX` pool, seen from its client. The client is the bignum code that
brackets its temporaries with `BN_CTX_start` / `BN_CTX_end`: besides the context it has the
frames it has opened and the slots it holds, each with the frame it was obtained in and the
value the client expects there (what it last wrote, or what `BN_CTX_get` handed out). Between
pool calls it writes into the standard slots it holds and the extended slots it has obtained.

`ClientInv` extends `PoolInv` by what the client sees: the slots from the current frame top up
are cleared, and each held slot lies below the top of its frame and holds the expected value.
The client's depth equals `stackPos` until a frame fills the array; that frame can then not be
popped (`full_frame_stays_open`), so later ends leave `stackPos` above the client's depth, with
the current frame top stuck at `BN_CTX_ARRAY_SIZE` and no further slot handed out.

* `pool_frames_isolated`: in every run, `BN_CTX_get` hands out a cleared slot in range that no
  handle refers to, no pool call changes a slot held after it, and every held slot holds
  the value the client expects.
-/

namespace CtxBn

variable {w : Nat} (cfg : Config)

/-- What a client writes into a bignum it was handed: any value that keeps it sane, in the same
storage, so with the same flags. The flags describe the storage, not the value: no routine of
`ctx_bn.c` that writes a value changes them (`BN_clear` and `BN_set_word` keep them, and
`BN_copy` leaves the destination's flags, "since these may differ for the two bignums"), so a
value written into a slot leaves its `BN_FLG_MALLOCED`, static and class flags as they were. -/
def ClientWrite (old new : Bignum w) : Prop :=
  new.flags = old.flags ∧ sanityCheckBignum cfg new

/-- A client of the pool. `held j = some (k, v)`: the client holds slot `j`, obtained in frame
`k`, and expects it to hold `v`. -/
structure Client (w : Nat) where
  ctx : BnCtx w
  depth : Nat
  held : Int → Option (Nat × Bignum w)
  obtained : ExtSlot → Bool

namespace Client

/-- A client that has opened nothing and holds nothing. -/
def fresh (c : BnCtx w) : Client w := ⟨c, 0, fun _ => none, fun _ => false⟩

/-- The handles after `BN_CTX_get` returned `r`. -/
def took (s : Client w) : Option Int → Int → Option (Nat × Bignum w)
  | some j => Function.update s.held j (some (s.depth, s.ctx.bnArray j))
  | none => s.held

/-- The handles after the client ends its innermost frame: that frame's are gone. -/
def released (s : Client w) (j : Int) : Option (Nat × Bignum w) :=
  match s.held j with
  | some (k, v) => if k = s.depth then none else some (k, v)
  | none => none

theorem released_eq_some {s : Client w} {j : Int} {k : Nat} {v : Bignum w} :
    s.released j = some (k, v) ↔ s.held j = some (k, v) ∧ k ≠ s.depth := by
  unfold released
  rcases s.held j with _ | ⟨k', v'⟩
  · simp
  · by_cases hk : k' = s.depth
    · subst hk; simp only [if_true, Option.some.injEq, Prod.mk.injEq]
      constructor
      · intro h; cases h
      · rintro ⟨⟨rfl, -⟩, h⟩; exact absurd rfl h
    · simp only [if_neg hk, Option.some.injEq, Prod.mk.injEq]
      constructor
      · rintro ⟨rfl, rfl⟩; exact ⟨⟨rfl, rfl⟩, hk⟩
      · rintro ⟨h, -⟩; exact h

end Client

/-- One pool call by the client, as it returned. The client starts frames at
`stackPos ≤ BN_CTX_ARRAY_SIZE − 2` and ends only frames it has opened. -/
inductive PoolCall : Client w → Client w → Prop
  | start {s : Client w} {c' : BnCtx w} : s.ctx.stackPos ≤ cfg.ctxArraySize - 2 →
      Returned (bnCtxStart cfg s.ctx) c' → PoolCall s { s with ctx := c', depth := s.depth + 1 }
  | get {s : Client w} {r : Option Int} {c' : BnCtx w} : bnCtxGet cfg s.ctx = .ok r c' →
      PoolCall s { s with ctx := c', held := s.took r }
  | getFail {s : Client w} {e : Exit} {c' : BnCtx w} : bnCtxGet cfg s.ctx = .error e c' →
      (∀ i, e ≠ .outOfBounds i) → PoolCall s { s with ctx := c' }
  | «end» {s : Client w} {c' : BnCtx w} : 0 < s.depth → Returned (bnCtxEnd cfg s.ctx) c' →
      PoolCall s { s with ctx := c', depth := s.depth - 1, held := s.released }
  | getExt {s : Client w} {t : BignumExtType} {slot : ExtSlot} : bnCtxGetExt t = some slot →
      PoolCall s { s with obtained := Function.update s.obtained slot true }
  | endExt {s : Client w} {t : BignumExtType} {c' : BnCtx w} : 0 < s.depth →
      Returned (bnCtxEndExt cfg t s.ctx) c' →
      PoolCall s { s with ctx := c', depth := s.depth - 1, held := s.released }

/-- A client write: into a standard slot it holds, or an extended slot it has obtained. -/
inductive ClientWriteStep : Client w → Client w → Prop
  | slot {s : Client w} {j : Int} {k : Nat} {old v : Bignum w} : s.held j = some (k, old) →
      ClientWrite cfg (s.ctx.bnArray j) v →
      ClientWriteStep s { s with ctx := { s.ctx with bnArray := Function.update s.ctx.bnArray j v }
                                 held := Function.update s.held j (some (k, v)) }
  | ext {s : Client w} {slot : ExtSlot} {v : Bignum w} : s.obtained slot = true →
      ClientWrite cfg (s.ctx.extSlot slot) v →
      ClientWriteStep s { s with ctx := s.ctx.setExtSlot v slot }

/-- The client's runs: from `BN_CTX_init` or `BN_CTX_final`, pool calls and client writes. -/
inductive ClientReach : Client w → Prop
  | init : ClientReach (.fresh (bnCtxInit cfg))
  | final {s : Client w} {c' : BnCtx w} : ClientReach s → bnCtxFinal cfg s.ctx = .ok () c' →
      ClientReach (.fresh c')
  | call {s s' : Client w} : ClientReach s → PoolCall cfg s s' → ClientReach s'
  | write {s s' : Client w} : ClientReach s → ClientWriteStep cfg s s' → ClientReach s'

/-- The invariant of the client's runs. -/
structure ClientInv (s : Client w) : Prop where
  pool : PoolInv cfg s.ctx
  slots : ∀ j, sanityCheckBignum cfg (s.ctx.bnArray j) ∧ (s.ctx.bnArray j).flags.staticData = false
  cleared : ∀ j, s.ctx.stack s.ctx.stackPos ≤ j → j < cfg.ctxArraySize → (s.ctx.bnArray j).IsCleared
  depth_le : (s.depth : Int) ≤ s.ctx.stackPos
  stuck : (s.depth : Int) < s.ctx.stackPos → s.ctx.stack s.ctx.stackPos = cfg.ctxArraySize
  held : ∀ j k v, s.held j = some (k, v) →
    k ≤ s.depth ∧ 0 ≤ j ∧ j < s.ctx.stack k ∧ s.ctx.bnArray j = v


namespace ClientInv

variable {cfg} {s : Client w}

theorem held_below (hi : ClientInv cfg s) {j : Int} {k : Nat} {v : Bignum w}
    (hj : s.held j = some (k, v)) {m : Int} (hkm : (k : Int) ≤ m) (hm : m ≤ s.ctx.stackPos) :
    j < s.ctx.stack m :=
  Int.lt_of_lt_of_le (hi.held j k v hj).2.2.1 (hi.pool.mono _ _ (Int.ofNat_nonneg k) hkm hm)

theorem fresh_init : ClientInv cfg (.fresh (bnCtxInit cfg) : Client w) where
  pool := .init
  slots := fun _ => ⟨sanityCheckBignum_bnInit, rfl⟩
  cleared := fun _ _ _ => ⟨fun _ _ => rfl, rfl, rfl⟩
  depth_le := Int.le_refl 0
  stuck := fun h => absurd h (Int.lt_irrefl 0)
  held := fun _ _ _ h => nomatch h

/-- The extended arrays do not enter the invariant. -/
theorem ext (hi : ClientInv cfg s) {e e2 : Nat → Bignum w} :
    ClientInv cfg { s with ctx := { s.ctx with bnExtArray := e, bnExt2Array := e2 } } :=
  ⟨⟨hi.pool.sane, hi.pool.base, hi.pool.mono, hi.pool.top_le, hi.pool.full⟩, hi.slots, hi.cleared,
    hi.depth_le, hi.stuck, hi.held⟩

theorem start (hi : ClientInv cfg s) (hs : s.ctx.stackPos ≤ cfg.ctxArraySize - 2) {c' : BnCtx w}
    (hr : Returned (bnCtxStart cfg s.ctx) c') :
    ClientInv cfg { s with ctx := c', depth := s.depth + 1 } := by
  have hs' : s.ctx.stackPos + 1 < cfg.ctxArraySize := by omega
  have hd := hi.depth_le
  rw [bnCtxStart_eq hi.pool.sane, if_pos hs'] at hr
  cases hr
  exact
    { pool := hi.pool.start hs'
      slots := hi.slots
      cleared := fun j hj => hi.cleared j (by simpa using hj)
      depth_le := by push_cast; omega
      stuck := fun h => by simpa using hi.stuck (by push_cast at h; omega)
      held := fun j k v hj => by
        obtain ⟨hk, h0, hlt, hv⟩ := hi.held j k v hj
        refine ⟨Nat.le_succ_of_le hk, h0, ?_, hv⟩
        show j < Function.update s.ctx.stack _ _ (k : Int)
        rwa [Function.update_noteq (by omega)] }

theorem get (hi : ClientInv cfg s) {r : Option Int} {c' : BnCtx w}
    (hr : bnCtxGet cfg s.ctx = .ok r c') : ClientInv cfg { s with ctx := c', held := s.took r } := by
  rw [hi.pool.get_eq] at hr
  split_ifs at hr with hf
  · cases hr; exact hi
  · cases hr
    have hsync : (s.depth : Int) = s.ctx.stackPos :=
      Int.le_antisymm hi.depth_le (Int.not_lt.1 fun h => hf (hi.stuck h))
    have h0 := hi.pool.stack_nonneg hi.pool.sane.2.2.1 (Int.le_refl _)
    exact
      { pool := hi.pool.get (by have := hi.pool.max_ge_iff; omega)
        slots := hi.slots
        cleared := fun j hj => hi.cleared j (by simp at hj; omega)
        depth_le := hi.depth_le
        stuck := fun h => absurd h (by simp; omega)
        held := fun j k v hj => by
          change Function.update s.held _ _ j = _ at hj
          by_cases hjt : j = s.ctx.stack s.ctx.stackPos
          · subst hjt
            rw [Function.update_same, Option.some.injEq, Prod.mk.injEq] at hj
            obtain ⟨rfl, rfl⟩ := hj
            refine ⟨Nat.le_refl _, h0, ?_, rfl⟩
            show _ < Function.update s.ctx.stack s.ctx.stackPos _ (s.depth : Int)
            rw [hsync, Function.update_same]; omega
          · rw [Function.update_noteq hjt] at hj
            obtain ⟨hkd, hj0, hlt, hv⟩ := hi.held j k v hj
            refine ⟨hkd, hj0, ?_, hv⟩
            show _ < Function.update s.ctx.stack s.ctx.stackPos _ (k : Int)
            rw [Function.update_apply]
            split_ifs with hk
            · rw [hk] at hlt; omega
            · exact hlt }

/-- The slots after `BN_CLEAR` on a range are still sane and not static. -/
theorem slots_clearSlots (hi : ClientInv cfg s) (lo hi' j : Int) :
    sanityCheckBignum cfg ((clearSlots cfg lo hi' s.ctx).bnArray j) ∧
      ((clearSlots cfg lo hi' s.ctx).bnArray j).flags.staticData = false := by
  rw [clearSlots_bnArray]
  split_ifs
  · obtain ⟨-, hs, hf⟩ := bnClear_clears (hi.slots j).1 (hi.slots j).2
    exact ⟨hs, hf ▸ (hi.slots j).2⟩
  · exact hi.slots j

/-- After `BN_CTX_end` clears `[lo, stack[ stackPos ])`, every slot from `lo` up is cleared. -/
theorem cleared_clearSlots (hi : ClientInv cfg s) {lo j : Int} (hj : lo ≤ j)
    (hjs : j < cfg.ctxArraySize) :
    ((clearSlots cfg lo (s.ctx.stack s.ctx.stackPos) s.ctx).bnArray j).IsCleared := by
  rw [clearSlots_bnArray]
  split_ifs with hin
  · exact (bnClear_clears (hi.slots j).1 (hi.slots j).2).1
  · exact hi.cleared j (by omega) hjs

/-- Ending the client's innermost frame: whether or not `BN_CTX_end` pops it, the handles of
outer frames lie below the slots it clears. -/
theorem end_ (hi : ClientInv cfg s) (hd : 0 < s.depth) {c' : BnCtx w}
    (hr : Returned (bnCtxEnd cfg s.ctx) c') :
    ClientInv cfg { s with ctx := c', depth := s.depth - 1, held := s.released } := by
  have hdle := hi.depth_le
  have hpos : 1 ≤ s.ctx.stackPos := by omega
  have hout : ∀ j k v, s.released j = some (k, v) → k ≤ s.depth - 1 ∧ 0 ≤ j ∧ j < s.ctx.stack k ∧
      (clearSlots cfg (s.ctx.stack (s.ctx.stackPos - 1)) (s.ctx.stack s.ctx.stackPos) s.ctx).bnArray j
        = v := fun j k v hj => by
    obtain ⟨hj, hk⟩ := Client.released_eq_some.1 hj
    obtain ⟨hkd, h0, hlt, hv⟩ := hi.held j k v hj
    exact ⟨by omega, h0, hlt,
      by rw [clearSlots_bnArray_of_lt (hi.held_below hj (by omega) (by omega)), hv]⟩
  rw [hi.pool.end_eq hpos] at hr
  split_ifs at hr with hs
  · cases hr
    have hsync : (s.depth : Int) = s.ctx.stackPos :=
      Int.le_antisymm hdle (Int.not_lt.1 fun h => by have := hi.stuck h; omega)
    have hk : ∀ k : Nat, k ≤ s.depth - 1 → (k : Int) ≠ s.ctx.stackPos := fun k hk => by omega
    exact
      { pool := hi.pool.pop hpos hs _ _
        slots := hi.slots_clearSlots _ _
        cleared := fun j hj => hi.cleared_clearSlots (by
          dsimp only at hj; rwa [Function.update_noteq (by omega)] at hj)
        depth_le := by dsimp only; omega
        stuck := fun h => absurd h (by dsimp only; omega)
        held := fun j k v hj => by
          obtain ⟨hkd, h0, hlt, hv⟩ := hout j k v hj
          exact ⟨hkd, h0, by dsimp only; rwa [Function.update_noteq (hk k hkd)], hv⟩ }
  · cases hr
    exact
      { pool := hi.pool.clear _ _
        slots := hi.slots_clearSlots _ _
        cleared := fun j hj hjs => absurd hjs (by simp only [clearSlots_stack, clearSlots_stackPos] at hj; omega)
        depth_le := by simp only [clearSlots_stackPos]; omega
        stuck := fun _ => by
          simp only [clearSlots_stack, clearSlots_stackPos]; have := hi.pool.top_le_size; omega
        held := hout }

theorem write (hi : ClientInv cfg s) {j : Int} {k : Nat} {old v : Bignum w}
    (hj : s.held j = some (k, old)) (hw : ClientWrite cfg (s.ctx.bnArray j) v) :
    ClientInv cfg { s with ctx := { s.ctx with bnArray := Function.update s.ctx.bnArray j v }
                           held := Function.update s.held j (some (k, v)) } := by
  have htop : j < s.ctx.stack s.ctx.stackPos :=
    hi.held_below hj (by have := (hi.held j k old hj).1; have := hi.depth_le; omega) (Int.le_refl _)
  exact
    { pool := ⟨hi.pool.sane, hi.pool.base, hi.pool.mono, hi.pool.top_le, hi.pool.full⟩
      slots := fun j' => by
        dsimp only
        by_cases hj' : j' = j
        · subst hj'
          rw [Function.update_same, hw.1]
          exact ⟨hw.2, (hi.slots j').2⟩
        · rw [Function.update_noteq hj']; exact hi.slots j'
      cleared := fun j' h1 h2 => by
        dsimp only at h1 ⊢
        rw [Function.update_noteq (by omega)]
        exact hi.cleared j' h1 h2
      depth_le := hi.depth_le
      stuck := hi.stuck
      held := fun j' k' v' hj' => by
        dsimp only at hj' ⊢
        by_cases hjj : j' = j
        · subst hjj
          rw [Function.update_same, Option.some.injEq, Prod.mk.injEq] at hj'
          obtain ⟨rfl, rfl⟩ := hj'
          obtain ⟨hk, h0, hlt, -⟩ := hi.held j' k old hj
          exact ⟨hk, h0, hlt, Function.update_same _ _ _⟩
        · rw [Function.update_noteq hjj] at hj' ⊢
          exact hi.held j' k' v' hj' }

end ClientInv


section Runs

variable {cfg} {s s' : Client w}

theorem PoolCall.inv (hi : ClientInv cfg s) (h : PoolCall cfg s s') : ClientInv cfg s' := by
  cases h with
  | start hs hr => exact hi.start hs hr
  | get hr => exact hi.get hr
  | getFail hr _ => rw [hi.pool.get_eq] at hr; split_ifs at hr
  | «end» hd hr => exact hi.end_ hd hr
  | getExt _ => exact ⟨hi.pool, hi.slots, hi.cleared, hi.depth_le, hi.stuck, hi.held⟩
  | endExt hd hr =>
    obtain ⟨c₁, h₁, e, e2, rfl⟩ := bnCtxEndExt_returned hr
    exact (hi.end_ hd h₁).ext

/-- A pool call keeps every handle it does not drop, and adds at most the one `BN_CTX_get`
hands out, expecting what that slot holds. -/
theorem PoolCall.held_of {j : Int} {k : Nat} {v : Bignum w} (h : PoolCall cfg s s')
    (hj : s'.held j = some (k, v)) : s.held j = some (k, v) ∨ v = s.ctx.bnArray j := by
  cases h with
  | @get r _ _ =>
    cases r with
    | none => exact .inl hj
    | some j₀ =>
      change Function.update s.held j₀ _ j = _ at hj
      by_cases hj₀ : j = j₀
      · subst hj₀
        rw [Function.update_same, Option.some.injEq, Prod.mk.injEq] at hj
        exact .inr hj.2.symm
      · rw [Function.update_noteq hj₀] at hj; exact .inl hj
  | «end» _ _ => exact .inl (Client.released_eq_some.1 hj).1
  | endExt _ _ => exact .inl (Client.released_eq_some.1 hj).1
  | start _ _ => exact .inl hj
  | getFail _ _ => exact .inl hj
  | getExt _ => exact .inl hj

theorem ClientWriteStep.inv (hi : ClientInv cfg s) (h : ClientWriteStep cfg s s') :
    ClientInv cfg s' := by
  cases h with
  | slot hj hw => exact hi.write hj hw
  | @ext slot _ _ _ => cases slot <;> exact hi.ext

theorem ClientReach.inv (h : ClientReach cfg s) : ClientInv cfg s := by
  induction h with
  | init => exact .fresh_init
  | final _ hf ih =>
    rw [bnCtxFinal_ok ih.pool.sane] at hf
    cases hf; exact .fresh_init
  | call _ hc ih => exact hc.inv ih
  | write _ hw ih => exact hw.inv ih

/-- `BN_CTX_final` and `BN_CTX_free` pass their checks in every reachable context and leave it
as `BN_CTX_init` does. -/
theorem ClientReach.bnCtxFree_eq (h : ClientReach cfg s) :
    bnCtxFinal cfg s.ctx = .ok () (bnCtxInit cfg) ∧ bnCtxFree cfg s.ctx = .ok () (bnCtxInit cfg) :=
  ⟨bnCtxFinal_ok h.inv.pool.sane, bnCtxFree_ok h.inv.pool.sane⟩

end Runs

/-- Frame isolation and freshness, over every run of the client from `BN_CTX_init` or
`BN_CTX_final`: (a) a successful `BN_CTX_get` returns a slot in `[0, BN_CTX_ARRAY_SIZE)` that no
handle refers to, in the cleared state; (b) a pool call leaves every slot that is held after it
as it was; and so every held slot holds what the client last wrote there, or the cleared state
`BN_CTX_get` handed out. -/
theorem pool_frames_isolated {s : Client w} (h : ClientReach cfg s) :
    (∀ j c', bnCtxGet cfg s.ctx = .ok (some j) c' →
      0 ≤ j ∧ j < cfg.ctxArraySize ∧ s.held j = none ∧ (s.ctx.bnArray j).IsCleared) ∧
    (∀ s', PoolCall cfg s s' → ∀ j, (s'.held j).isSome → s'.ctx.bnArray j = s.ctx.bnArray j) ∧
    (∀ j k v, s.held j = some (k, v) → s.ctx.bnArray j = v) := by
  have hi := h.inv
  refine ⟨fun j c' hg => ?_, fun s' hc j hj => ?_, fun j k v hj => (hi.held j k v hj).2.2.2⟩
  · rw [hi.pool.get_eq] at hg
    split_ifs at hg with hf
    · cases hg
    cases hg
    have htop := hi.pool.top_le_size
    refine ⟨hi.pool.stack_nonneg hi.pool.sane.2.2.1 (Int.le_refl _), by omega, ?_,
      hi.cleared _ (Int.le_refl _) (by omega)⟩
    cases hh : s.held (s.ctx.stack s.ctx.stackPos) with
    | none => rfl
    | some e =>
      have := hi.held_below hh (by have := (hi.held _ e.1 e.2 hh).1; have := hi.depth_le; omega)
        (Int.le_refl _)
      omega
  · obtain ⟨⟨k, v⟩, hkv⟩ := Option.isSome_iff_exists.1 hj
    rw [((hc.inv hi).held j k v hkv).2.2.2]
    rcases hc.held_of hkv with ho | ho
    · exact ((hi.held j k v ho).2.2.2).symm
    · exact ho

/-- A slot handed out again after a returned `BN_CTX_end`: `BN_CTX_start`, `BN_CTX_get` (slot 0),
a write of 5 into slot 0, `BN_CTX_end` and `BN_CTX_start` again. The high-water mark is 1, and the
next `BN_CTX_get` hands out slot 0 again, unheld and cleared. -/
theorem pool_frames_isolated_reused :
    ∃ s : Client 64, ClientReach sampleConfig s ∧ s.depth = 1 ∧ s.ctx.bnArrayMax = 1 ∧
      ∃ c', bnCtxGet sampleConfig s.ctx = .ok (some 0) c' ∧ s.held 0 = none ∧
        (s.ctx.bnArray 0).IsCleared := by
  have h0 : ClientReach sampleConfig (Client.fresh (bnCtxInit sampleConfig) : Client 64) := .init
  have h1 : ClientReach sampleConfig _ := .call h0
    (.start (by decide) (by rw [bnCtxStart_eq h0.inv.pool.sane, if_pos (by decide)]; rfl))
  have h2 : ClientReach sampleConfig _ := .call h1 (.get (by rw [h1.inv.pool.get_eq, if_neg (by decide)]))
  have h3 : ClientReach sampleConfig _ := .write h2
    (@ClientWriteStep.slot 64 sampleConfig _ 0 _ _ (resultState (bnSetWord sampleConfig 5 (bnInit sampleConfig)))
      rfl ⟨rfl, by decide⟩)
  have h4 : ClientReach sampleConfig _ := .call h3
    (.end (by decide) (by rw [h3.inv.pool.end_eq (by decide), if_pos (by decide)]; rfl))
  have h5 : ClientReach sampleConfig _ := .call h4
    (.start (by decide) (by rw [bnCtxStart_eq h4.inv.pool.sane, if_pos (by decide)]; rfl))
  obtain ⟨s, hs, hd, hsp, hs1, hmax⟩ : ∃ s : Client 64, ClientReach sampleConfig s ∧ s.depth = 1 ∧
      s.ctx.stackPos = 1 ∧ s.ctx.stack 1 = 0 ∧ s.ctx.bnArrayMax = 1 :=
    ⟨_, h5, rfl, by decide, by decide, by decide⟩
  have hg := hs.inv.pool.get_eq
  rw [hsp, hs1, if_neg (by decide)] at hg
  obtain ⟨-, -, hheld, hclear⟩ := (pool_frames_isolated sampleConfig hs).1 _ _ hg
  exact ⟨s, hs, hd, hmax, _, hg, hheld, hclear⟩

end CtxBn
