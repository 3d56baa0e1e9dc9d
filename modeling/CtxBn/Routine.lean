import Mathlib.Data.Nat.Defs
import CtxBn.Client

/-!
# CtxBn.Routine

Nested routines on the `BN_CTX` pool, as the comment on the `BN_CTX` code of `ctx_bn.c` sketches
them: `BN_foo()` starts a frame, takes `foo_a`, `foo_b`, `foo_c` with `BN_CTX_get()`, calls
`BN_bar()`, which starts its own frame, takes `bar_a`, `bar_b` and ends it, and then ends its
frame; "the first `BN_CTX_end()` frees up the BNs grabbed in `BN_bar()` and the second frees up
the ones grabbed in `BN_foo()`".

A routine (`CtxProg`) takes slots with `BN_CTX_get`, runs bignum routines on the bignums it
holds, and calls nested routines, each bracketed by `BN_CTX_start` / `BN_CTX_end`. It reaches
only its own handles, as a C function reaches only its local pointers, and it stops at the
first `NULL` or failed operation (the `goto err` of the bignum code); a call still ends the
nested frame on the way out. `runProg` runs one through the pool routines of `CtxBn.Ctx`.

The footprint of a routine: `need`, the most slots it holds at once above the frame top it
starts at, nested routines included; `gets`, the slots it leaves taken in its own frame; `depth`,
how many frames it nests.

* `routine_restores_pool`: from every reachable client state, a nested routine whose peak stays
  strictly below `BN_CTX_ARRAY_SIZE` returns with the context as it was, except that the
  high-water mark has risen to the routine's peak and the slots it used are cleared again. A
  peak of exactly `BN_CTX_ARRAY_SIZE` is excluded: the routine's `BN_CTX_end` then fails
  (`full_frame_stays_open`).
-/

namespace CtxBn

/-- A routine that uses the pool, one statement at a time. -/
inductive CtxProg (w : Nat) where
  /-- The routine returns. -/
  | done
  /-- `x = BN_CTX_get( bnCTX ); if( x == NULL ) goto err;` -/
  | get (rest : CtxProg w)
  /-- `if( !f( x ) ) goto err;` on the `i`-th most recently taken bignum the routine holds. -/
  | op (i : Nat) (f : BnM w Unit) (rest : CtxProg w)
  /-- A call of a nested routine: `BN_CTX_start`, its body, `BN_CTX_end`. -/
  | call (body rest : CtxProg w)

namespace CtxProg

variable {w : Nat}

/-- The most slots the routine holds at once above the frame top it starts at. -/
def need : CtxProg w → Nat
  | .done => 0
  | .get rest => rest.need + 1
  | .op _ _ rest => rest.need
  | .call body rest => max body.need rest.need

/-- The slots the routine leaves taken in its own frame. -/
def gets : CtxProg w → Nat
  | .done => 0
  | .get rest => rest.gets + 1
  | .op _ _ rest => rest.gets
  | .call _ rest => rest.gets

/-- How many frames the routine nests. -/
def depth : CtxProg w → Nat
  | .done => 0
  | .get rest => rest.depth
  | .op _ _ rest => rest.depth
  | .call body rest => max (body.depth + 1) rest.depth

end CtxProg

variable {w : Nat} (cfg : Config)

/-- Every operation of the routine writes what a client may write into a bignum it holds: a
sane value with the same flags (`ClientWrite`), however the operation returns. -/
def CtxProg.OpsSane : CtxProg w → Prop
  | .done => True
  | .get rest => rest.OpsSane
  | .op _ f rest =>
    (∀ bn : Bignum w, sanityCheckBignum cfg bn → ClientWrite cfg bn (resultState (f bn))) ∧
      rest.OpsSane
  | .call body rest => body.OpsSane ∧ rest.OpsSane

/-- A bignum routine on slot `j`: what it leaves replaces the slot, and the caller sees whether
it succeeded. -/
def applyOp (j : Int) (f : BnM w Unit) : CtxM w Bool := fun c =>
  match f (c.bnArray j) with
  | .ok _ b => .ok true { c with bnArray := Function.update c.bnArray j b }
  | .error _ b => .ok false { c with bnArray := Function.update c.bnArray j b }

/-- Run a routine holding the handles `hs`, most recent first; `TRUE` if it ran to the end. An
operation on a handle the routine does not hold does nothing. -/
def runProg : CtxProg w → List Int → CtxM w Bool
  | .done, _ => pure true
  | .get rest, hs => do
    match ← bnCtxGet cfg with
    | some j => runProg rest (j :: hs)
    | none => pure false
  | .op i f rest, hs => do
    if h : i < hs.length then
      if ← applyOp (hs.get ⟨i, h⟩) f then runProg rest hs else pure false
    else runProg rest hs
  | .call body rest, hs => do
    callVoid (bnCtxStart cfg)
    let ok ← runProg body []
    callVoid (bnCtxEnd cfg)
    if ok then runProg rest hs else pure false

/-! ## Runs of a routine -/

/-- What a routine needs of the context it starts in: the pool invariant, sane slots that are
not static, the slots from the frame top up cleared, no frame tops above `stackPos`, and its
handles below the frame top. -/
structure Ready (c : BnCtx w) (hs : List Int) : Prop where
  pool : PoolInv cfg c
  slots : ∀ j, sanityCheckBignum cfg (c.bnArray j) ∧ (c.bnArray j).flags.staticData = false
  cleared : ∀ j, c.stack c.stackPos ≤ j → j < cfg.ctxArraySize → (c.bnArray j).IsCleared
  above : ∀ k, c.stackPos < k → c.stack k = 0
  held : ∀ j ∈ hs, j < c.stack c.stackPos

/-- A run of a routine from `c` to `c'` holding `hs`: the context is ready again, the frame top
rose by `g`, the routine held at most `m` slots at once above the old top, and nothing else
changed outside its handles and `[top, top + m)`. -/
structure BodyRun (c c' : BnCtx w) (hs : List Int) (g m : Nat) : Prop where
  ready : Ready cfg c' hs
  stack : c'.stack = Function.update c.stack c.stackPos (c.stack c.stackPos + g)
  stackPos : c'.stackPos = c.stackPos
  ext : c'.bnExtArray = c.bnExtArray ∧ c'.bnExt2Array = c.bnExt2Array
  arrayMax : c'.bnArrayMax = max c.bnArrayMax (c.stack c.stackPos + m)
  frame : ∀ j, j ∉ hs → j < c.stack c.stackPos ∨ c.stack c.stackPos + m ≤ j →
    c'.bnArray j = c.bnArray j
  le : g ≤ m

section Run

variable {cfg} {c c₁ c₂ : BnCtx w} {hs hs' : List Int} {g g₁ g₂ m m₁ m₂ : Nat}

theorem Ready.push (hr : Ready cfg c hs) (j : Int) (hj : j < c.stack c.stackPos) :
    Ready cfg c (j :: hs) :=
  ⟨hr.pool, hr.slots, hr.cleared, hr.above, fun i hi => by
    rcases List.mem_cons.1 hi with rfl | hi
    · exact hj
    · exact hr.held i hi⟩

theorem BodyRun.top (h : BodyRun cfg c c' hs g m) :
    c'.stack c'.stackPos = c.stack c.stackPos + g := by
  rw [h.stack, h.stackPos, Function.update_same]

theorem BodyRun.refl (hr : Ready cfg c hs) : BodyRun cfg c c hs 0 0 where
  ready := hr
  stack := by
    rw [show c.stack c.stackPos + ((0 : Nat) : Int) = c.stack c.stackPos by omega,
      Function.update_eq_self]
  stackPos := rfl
  ext := ⟨rfl, rfl⟩
  arrayMax := by have := hr.pool.top_le; omega
  frame := fun _ _ _ => rfl
  le := Nat.le_refl 0

/-- Two runs in a row: the second may hold the first's handles and the slots it took. -/
theorem BodyRun.trans (h₁ : BodyRun cfg c c₁ hs g₁ m₁) (h₂ : BodyRun cfg c₁ c₂ hs' g₂ m₂)
    (hheld : ∀ j ∈ hs', j ∈ hs ∨ c.stack c.stackPos ≤ j ∧ j < c.stack c.stackPos + g₁) :
    BodyRun cfg c c₂ hs (g₁ + g₂) (max m₁ (g₁ + m₂)) where
  ready := ⟨h₂.ready.pool, h₂.ready.slots, h₂.ready.cleared, h₂.ready.above, fun j hj => by
    have := h₁.ready.held j hj; have := h₁.top; have := h₂.top; omega⟩
  stack := by
    rw [h₂.stack, h₁.top, h₁.stack, h₁.stackPos, Function.update_idem,
      show c.stack c.stackPos + g₁ + g₂ = c.stack c.stackPos + ((g₁ + g₂ : Nat) : Int) by omega]
  stackPos := h₂.stackPos.trans h₁.stackPos
  ext := ⟨h₂.ext.1.trans h₁.ext.1, h₂.ext.2.trans h₁.ext.2⟩
  arrayMax := by rw [h₂.arrayMax, h₁.top, h₁.arrayMax]; omega
  frame := fun j hj hout => by
    have hj' : j ∉ hs' := fun hm => by
      rcases hheld j hm with hm | hm
      · exact hj hm
      · omega
    rw [h₂.frame j hj' (by rw [h₁.top]; omega), h₁.frame j hj (by omega)]
  le := by have := h₂.le; omega

/-- `BN_CTX_get` below the end of the array: the slot at the frame top. -/
theorem BodyRun.get (hr : Ready cfg c hs) (hT : c.stack c.stackPos < cfg.ctxArraySize) :
    ∃ c₁, bnCtxGet cfg c = .ok (some (c.stack c.stackPos)) c₁ ∧ BodyRun cfg c c₁ hs 1 1 := by
  have hne : c.stackPos + 0 ≠ c.stackPos + 1 := by omega
  refine ⟨_, by rw [hr.pool.get_eq, if_neg (by omega)], ?_⟩
  exact
    { ready :=
        { pool := hr.pool.get (by have := hr.pool.max_ge_iff; omega)
          slots := hr.slots
          cleared := fun j hj hjs => hr.cleared j (by
            dsimp only at hj; rw [Function.update_same] at hj; omega) hjs
          above := fun k hk => by
            dsimp only at hk ⊢
            rw [Function.update_noteq (by omega)]; exact hr.above k hk
          held := fun j hj => by
            show j < Function.update c.stack c.stackPos _ c.stackPos
            rw [Function.update_same]; have := hr.held j hj; omega }
      stack := rfl
      stackPos := rfl
      ext := ⟨rfl, rfl⟩
      arrayMax := rfl
      frame := fun _ _ _ => rfl
      le := Nat.le_refl 1 }

/-- A bignum routine on a slot the routine holds, whatever it returns. -/
theorem applyOp_eq (j : Int) (f : BnM w Unit) (c : BnCtx w) : ∃ ok,
    applyOp j f c = .ok ok { c with bnArray := Function.update c.bnArray j (resultState (f (c.bnArray j))) } := by
  unfold applyOp
  cases f (c.bnArray j) <;> exact ⟨_, rfl⟩

theorem BodyRun.op (hr : Ready cfg c hs) {j : Int} (hj : j ∈ hs) {f : BnM w Unit}
    (hf : ∀ bn : Bignum w, sanityCheckBignum cfg bn → ClientWrite cfg bn (resultState (f bn))) :
    BodyRun cfg c { c with bnArray := Function.update c.bnArray j (resultState (f (c.bnArray j))) }
      hs 0 0 where
  ready :=
    { pool := ⟨hr.pool.sane, hr.pool.base, hr.pool.mono, hr.pool.top_le, hr.pool.full⟩
      slots := fun i => by
        dsimp only
        rw [Function.update_apply]
        split_ifs with hi
        · subst hi
          obtain ⟨hfl, hsn⟩ := hf _ (hr.slots i).1
          exact ⟨hsn, hfl ▸ (hr.slots i).2⟩
        · exact hr.slots i
      cleared := fun i hi hin => by
        dsimp only at hi ⊢
        rw [Function.update_noteq (by have := hr.held j hj; omega)]
        exact hr.cleared i hi hin
      above := hr.above
      held := hr.held }
  stack := (BodyRun.refl hr).stack
  stackPos := rfl
  ext := ⟨rfl, rfl⟩
  arrayMax := (BodyRun.refl hr).arrayMax
  frame := fun i hi _ => Function.update_noteq (fun h => hi (by rw [h]; exact hj)) _ _
  le := Nat.le_refl 0

/-- `BN_CTX_start` with room for another frame opens an empty one at the current top. -/
theorem Ready.start (hr : Ready cfg c hs) (hs₁ : c.stackPos + 1 < cfg.ctxArraySize) :
    bnCtxStart cfg c = .ok () { c with stackPos := c.stackPos + 1
                                       stack := Function.update c.stack (c.stackPos + 1) (c.stack c.stackPos) } ∧
      Ready cfg { c with stackPos := c.stackPos + 1
                         stack := Function.update c.stack (c.stackPos + 1) (c.stack c.stackPos) } [] := by
  refine ⟨by rw [bnCtxStart_eq hr.pool.sane, if_pos hs₁], ?_⟩
  exact
    { pool := hr.pool.start hs₁
      slots := hr.slots
      cleared := fun j hj => hr.cleared j (by dsimp only at hj; rwa [Function.update_same] at hj)
      above := fun k hk => by
        dsimp only at hk ⊢
        rw [Function.update_noteq (by omega)]; exact hr.above k (by omega)
      held := fun _ h => absurd h (List.not_mem_nil _) }

/-- A nested routine's frame: `BN_CTX_start` opens it at the current top, the body runs in it,
and `BN_CTX_end` clears the slots the body left taken and pops it, when the body's peak stays
below the end of the array. -/
theorem BodyRun.call (hr : Ready cfg c hs)
    (hb : BodyRun cfg { c with stackPos := c.stackPos + 1
                               stack := Function.update c.stack (c.stackPos + 1) (c.stack c.stackPos) }
      c₂ [] g m)
    (hroom : c.stack c.stackPos + m < cfg.ctxArraySize) :
    ∃ c₃, bnCtxEnd cfg c₂ = .ok () c₃ ∧ BodyRun cfg c c₃ hs 0 m := by
  have h0 := hr.pool.sane.2.2.1
  have hsp : c₂.stackPos = c.stackPos + 1 := hb.stackPos
  have hst : c₂.stack = Function.update c.stack (c.stackPos + 1) (c.stack c.stackPos + g) := by
    rw [hb.stack]; dsimp only; rw [Function.update_same, Function.update_idem]
  have htop : c₂.stack c₂.stackPos = c.stack c.stackPos + g := by
    rw [hst, hsp, Function.update_same]
  have hpos : c₂.stackPos - 1 = c.stackPos := by omega
  have hbase : c₂.stack (c₂.stackPos - 1) = c.stack c.stackPos := by
    rw [hpos, hst, Function.update_noteq (by omega)]
  have hg := hb.le
  have hs₂ : c₂.stack c₂.stackPos < cfg.ctxArraySize := by omega
  -- `BN_CTX_end` zeroes the popped entry, which was zero before the call
  have hstack : Function.update c₂.stack c₂.stackPos 0 = c.stack := by
    rw [hst, hsp, Function.update_idem]
    exact Function.update_eq_self_iff.2 (hr.above _ (by omega)).symm
  have hmax : c₂.bnArrayMax = max c.bnArrayMax (c.stack c.stackPos + m) := by
    rw [hb.arrayMax]; dsimp only; rw [Function.update_same]
  have hcl : ∀ j, (resultState (bnClear cfg (c₂.bnArray j))).IsCleared ∧
      sanityCheckBignum cfg (resultState (bnClear cfg (c₂.bnArray j))) ∧
      (resultState (bnClear cfg (c₂.bnArray j))).flags.staticData = false := fun j => by
    obtain ⟨hc, hs, hf⟩ := bnClear_clears (hb.ready.slots j).1 (hb.ready.slots j).2
    exact ⟨hc, hs, hf ▸ (hb.ready.slots j).2⟩
  refine ⟨_, by rw [hb.ready.pool.end_eq (by omega), if_pos hs₂], ?_⟩
  exact
    { ready :=
        { pool := hb.ready.pool.pop (by omega) hs₂ _ _
          slots := fun j => by
            dsimp only
            rw [clearSlots_bnArray]
            split_ifs
            · exact (hcl j).2
            · exact hb.ready.slots j
          cleared := fun j hj hjs => by
            dsimp only at hj ⊢
            rw [hstack, hpos] at hj
            rw [clearSlots_bnArray, hbase, htop]
            split_ifs with hin
            · exact (hcl j).1
            · exact hb.ready.cleared j (by rw [htop]; omega) hjs
          above := fun k hk => by
            dsimp only at hk ⊢
            rw [hstack]; exact hr.above k (by omega)
          held := fun j hj => by
            dsimp only; rw [hstack, hpos]; exact hr.held j hj }
      stack := by
        dsimp only
        rw [hstack, show c.stack c.stackPos + ((0 : Nat) : Int) = c.stack c.stackPos by omega,
          Function.update_eq_self]
      stackPos := hpos
      ext := hb.ext
      arrayMax := hmax
      frame := fun j hj hout => by
        dsimp only
        rw [clearSlots_bnArray, hbase, htop, if_neg (by omega),
          hb.frame j (List.not_mem_nil j) (by dsimp only; rw [Function.update_same]; exact hout)]
      le := Nat.zero_le m }

/-- A run of any routine whose peak and nesting stay below the end of the arrays: it returns,
never out of bounds, having taken at most `gets` slots in its frame at a peak of at most `need`,
and exactly these when it ran to the end. -/
theorem runProg_bodyRun (p : CtxProg w) : ∀ (hs : List Int) (c : BnCtx w), Ready cfg c hs →
    p.OpsSane cfg → c.stack c.stackPos + p.need < cfg.ctxArraySize →
    c.stackPos + p.depth < cfg.ctxArraySize →
    ∃ b c' g m, runProg cfg p hs c = .ok b c' ∧ BodyRun cfg c c' hs g m ∧ g ≤ p.gets ∧
      m ≤ p.need ∧ (b = true → g = p.gets ∧ m = p.need) := by
  induction p with
  | done =>
    intro hs c hr _ _ _
    exact ⟨true, c, 0, 0, rfl, .refl hr, Nat.le_refl 0, Nat.le_refl 0, fun _ => ⟨rfl, rfl⟩⟩
  | get rest ih =>
    intro hs c hr hops hroom hdepth
    simp only [CtxProg.need, CtxProg.depth, CtxProg.gets] at hroom hdepth ⊢
    obtain ⟨c₁, hget, h₁⟩ := BodyRun.get hr (by omega)
    obtain ⟨b, c', g, m, hrun, h₂, hg, hm, hb⟩ :=
      ih _ _ (h₁.ready.push (c.stack c.stackPos) (by rw [h₁.top]; omega)) hops (by rw [h₁.top]; omega)
        (by rw [h₁.stackPos]; omega)
    refine ⟨b, c', 1 + g, max 1 (1 + m), ?_, h₁.trans h₂ fun j hj => ?_, by omega, by omega,
      fun h => by have := hb h; omega⟩
    · simp only [runProg, bind_apply, hget]; exact hrun
    · rcases List.mem_cons.1 hj with rfl | hj
      · exact .inr ⟨Int.le_refl _, by omega⟩
      · exact .inl hj
  | op i f rest ih =>
    intro hs c hr hops hroom hdepth
    simp only [CtxProg.need, CtxProg.depth, CtxProg.gets, CtxProg.OpsSane] at hroom hdepth hops ⊢
    by_cases hi : i < hs.length
    · obtain ⟨ok, hop⟩ := applyOp_eq (hs.get ⟨i, hi⟩) f c
      have h₁ := BodyRun.op hr (List.get_mem hs i hi) hops.1
      cases ok
      · exact ⟨false, _, 0, 0, by simp only [runProg, dif_pos hi, bind_apply, hop]; rfl, h₁,
          Nat.zero_le _, Nat.zero_le _, nofun⟩
      · obtain ⟨b, c', g, m, hrun, h₂, hg, hm, hb⟩ :=
          ih hs _ h₁.ready hops.2 (by rw [h₁.top]; omega) (by rw [h₁.stackPos]; omega)
        refine ⟨b, c', 0 + g, max 0 (0 + m), ?_, h₁.trans h₂ fun j hj => .inl hj, by omega,
          by omega, fun h => by have := hb h; omega⟩
        simp only [runProg, dif_pos hi, bind_apply, hop]; exact hrun
    · obtain ⟨b, c', g, m, hrun, h, hg, hm, hb⟩ := ih hs c hr hops.2 hroom hdepth
      exact ⟨b, c', g, m, by simp only [runProg, dif_neg hi]; exact hrun, h, hg, hm, hb⟩
  | call body rest ihb ihr =>
    intro hs c hr hops hroom hdepth
    simp only [CtxProg.need, CtxProg.depth, CtxProg.gets, CtxProg.OpsSane] at hroom hdepth hops ⊢
    obtain ⟨hstart, hr₁⟩ := hr.start (by omega)
    obtain ⟨b₁, c₂, g₁, m₁, hrun₁, h₁, hg₁, hm₁, hb₁⟩ :=
      ihb [] _ hr₁ hops.1 (by dsimp only; rw [Function.update_same]; omega) (by dsimp only; omega)
    obtain ⟨c₃, hend, h₃⟩ := BodyRun.call hr h₁ (by omega)
    have hcall : runProg cfg (.call body rest) hs c =
        (if b₁ then runProg cfg rest hs else pure false) c₃ := by
      simp only [runProg, bind_apply, callVoid_of_ok hstart, hrun₁, callVoid_of_ok hend]
    cases b₁
    · exact ⟨false, c₃, 0, m₁, hcall, h₃, Nat.zero_le _, by omega, nofun⟩
    · obtain ⟨b, c', g, m, hrun, h₂, hg, hm, hb⟩ :=
        ihr hs c₃ h₃.ready hops.2 (by rw [h₃.top]; omega) (by rw [h₃.stackPos]; omega)
      refine ⟨b, c', 0 + g, max m₁ (0 + m), hcall.trans hrun,
        h₃.trans h₂ fun j hj => .inl hj, by omega, by omega, fun h => ?_⟩
      have := hb h; have := hb₁ rfl; omega

end Run

/-! ## From every reachable client state -/

section Reach

variable {cfg} {s : Client w}

/-- `BN_CTX_end` zeroes the entry of the frame it pops, so no frame top stays above
`stackPos`. -/
theorem stack_above_end {c c' : BnCtx w} (hi : PoolInv cfg c) (hpos : 1 ≤ c.stackPos)
    (habove : ∀ k, c.stackPos < k → c.stack k = 0) (hr : Returned (bnCtxEnd cfg c) c') :
    ∀ k, c'.stackPos < k → c'.stack k = 0 := by
  rw [hi.end_eq hpos] at hr
  split_ifs at hr
  · cases hr
    intro k hk
    dsimp only at hk ⊢
    rw [Function.update_apply]
    split_ifs with he
    · rfl
    · exact habove k (by omega)
  · cases hr; exact habove

theorem ClientReach.stack_above (h : ClientReach cfg s) :
    ∀ k, s.ctx.stackPos < k → s.ctx.stack k = 0 := by
  induction h with
  | init => exact fun _ _ => rfl
  | final hs hf _ =>
    rw [bnCtxFinal_ok hs.inv.pool.sane] at hf
    cases hf; exact fun _ _ => rfl
  | call hs hc ih =>
    have hi := hs.inv
    cases hc with
    | start hsp hr =>
      rw [bnCtxStart_eq hi.pool.sane, if_pos (by omega)] at hr
      cases hr
      intro k hk
      dsimp only at hk ⊢
      rw [Function.update_noteq (by omega)]; exact ih k (by omega)
    | get hr =>
      rw [hi.pool.get_eq] at hr
      split_ifs at hr
      · cases hr; exact ih
      · cases hr
        intro k hk
        dsimp only at hk ⊢
        rw [Function.update_noteq (by omega)]; exact ih k hk
    | getFail hr _ => rw [hi.pool.get_eq] at hr; split_ifs at hr
    | «end» hd hr => exact stack_above_end hi.pool (by have := hi.depth_le; omega) ih hr
    | getExt _ => exact ih
    | endExt hd hr =>
      obtain ⟨c₁, h₁, e, e2, rfl⟩ := bnCtxEndExt_returned hr
      have := stack_above_end hi.pool (by have := hi.depth_le; omega) ih h₁
      exact this
  | write _ hw ih =>
    cases hw with
    | slot _ _ => exact ih
    | @ext slot _ _ _ => simpa using ih

/-- Every reachable client state is ready for a routine that holds nothing yet. -/
theorem ClientReach.ready (h : ClientReach cfg s) : Ready cfg s.ctx [] :=
  have hi := h.inv
  ⟨hi.pool, hi.slots, hi.cleared, h.stack_above, fun _ h => absurd h (List.not_mem_nil _)⟩

end Reach

/-- A nested routine called from any reachable state of a client of the pool, with room for its
peak and its frames: the call returns, never out of bounds, and leaves the context as it was,
frames and frame tops included, except for two things. The high-water mark has risen to the
routine's peak (to at most that if it stopped early), and the slots above the frame top are
cleared again, the routine's temporaries among them; no other slot has changed. -/
theorem routine_restores_pool {s : Client w} (h : ClientReach cfg s) (body : CtxProg w)
    (hops : body.OpsSane cfg)
    (hroom : s.ctx.stack s.ctx.stackPos + body.need < cfg.ctxArraySize)
    (hdepth : s.ctx.stackPos + body.depth + 1 < cfg.ctxArraySize) :
    ∃ b c', runProg cfg (.call body .done) [] s.ctx = .ok b c' ∧
      c' = { s.ctx with bnArray := c'.bnArray, bnArrayMax := c'.bnArrayMax } ∧
      (∀ j, j < s.ctx.stack s.ctx.stackPos ∨ s.ctx.stack s.ctx.stackPos + body.need ≤ j →
        c'.bnArray j = s.ctx.bnArray j) ∧
      (∀ j, s.ctx.stack s.ctx.stackPos ≤ j → j < cfg.ctxArraySize → (c'.bnArray j).IsCleared) ∧
      s.ctx.bnArrayMax ≤ c'.bnArrayMax ∧
      c'.bnArrayMax ≤ max s.ctx.bnArrayMax (s.ctx.stack s.ctx.stackPos + body.need) ∧
      (b = true → c'.bnArrayMax = max s.ctx.bnArrayMax (s.ctx.stack s.ctx.stackPos + body.need)) := by
  obtain ⟨b, c', g, m, hrun, hb, hg, hm, hdone⟩ :=
    runProg_bodyRun (.call body .done) [] s.ctx h.ready ⟨hops, trivial⟩
      (by simp only [CtxProg.need]; omega) (by simp only [CtxProg.depth]; omega)
  simp only [CtxProg.gets, CtxProg.need, Nat.le_zero] at hg hm hdone
  subst hg
  have hstack : c'.stack = s.ctx.stack := by
    rw [hb.stack, show s.ctx.stack s.ctx.stackPos + ((0 : Nat) : Int) = s.ctx.stack s.ctx.stackPos by omega,
      Function.update_eq_self]
  refine ⟨b, c', hrun, ?_, fun j hj => hb.frame j (List.not_mem_nil j) (by omega),
    fun j hj hjs => hb.ready.cleared j (by rw [hb.top]; omega) hjs, by rw [hb.arrayMax]; omega,
    by rw [hb.arrayMax]; omega, fun hd => by rw [hb.arrayMax, (hdone hd).2]; omega⟩
  obtain ⟨a, e, e2, mx, st, sp⟩ := c'
  obtain ⟨he, he2⟩ := hb.ext
  have hsp : sp = s.ctx.stackPos := hb.stackPos
  dsimp only at hstack he he2
  subst hstack he he2 hsp
  rfl

/-- A routine that takes two slots, called from a fresh context. -/
theorem routine_restores_pool_fresh :
    ∃ b c', runProg sampleConfig (.call (.get (.get .done)) .done) []
        (Client.fresh (bnCtxInit sampleConfig) : Client 64).ctx = .ok b c' ∧
      c'.bnArrayMax ≤ 2 :=
  have h := routine_restores_pool sampleConfig ClientReach.init (.get (.get .done)) trivial
    (by decide) (by decide)
  let ⟨b, c', hrun, _, _, _, _, hmax, _⟩ := h
  ⟨b, c', hrun, by simpa [CtxProg.need, Client.fresh, bnCtxInit] using hmax⟩

end CtxBn
