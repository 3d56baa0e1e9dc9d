import Mathlib.Logic.Function.Basic

/-!
# CtxBn.Basic

How a routine of `ctx_bn.c` ends. Every routine starts with `REQUIRES` checks and may end with
`ENSURES` checks; a failed check returns at once (with `NULL`, `FALSE`, `CRYPT_ERROR_INTERNAL`
or nothing), and whatever the routine had written before stays written. A routine that
touches state is therefore an `EStateM Exit σ` computation: `.error e s` carries the state `s`
at the point of return. Reading or writing a C array outside its bounds is undefined behaviour,
not a return; it is the third kind of `Exit`, and a caller never continues after it.

`bn.h` and `cryptlib.h`, which fix the array sizes and status values, are not among the
sources, so those constants are the fields of `Config`. Each size is the length of a C array,
hence positive, and the status `CRYPT_ERROR_INTERNAL` is negative like every cryptlib error.
-/

namespace CtxBn

/-- Why a routine stopped early. -/
inductive Exit where
  | requires
  | ensures
  | outOfBounds (i : Int)
  deriving DecidableEq, Repr

/-- The constants of `bn.h` and `cryptlib.h` that `ctx_bn.c` reads. -/
structure Config where
  /-- `BIGNUM_ALLOC_WORDS`: the words of a standard `BIGNUM`. -/
  allocWords : Nat
  /-- `BIGNUM_ALLOC_WORDS_EXT`. -/
  allocWordsExt : Nat
  /-- `BIGNUM_ALLOC_WORDS_EXT2`. -/
  allocWordsExt2 : Nat
  /-- `BN_CTX_ARRAY_SIZE`: the length of `bnArray` and of `stack`. -/
  ctxArraySize : Nat
  /-- `CRYPT_ERROR_INTERNAL`, what a failed check returns from a routine returning `int`. -/
  errorInternal : Int
  allocWords_pos : 0 < allocWords
  allocWordsExt_pos : 0 < allocWordsExt
  allocWordsExt2_pos : 0 < allocWordsExt2
  ctxArraySize_pos : 0 < ctxArraySize
  errorInternal_neg : errorInternal < 0

/-- A small configuration, for the closed instances that follow the general theorems. -/
def sampleConfig : Config where
  allocWords := 4
  allocWordsExt := 8
  allocWordsExt2 := 16
  ctxArraySize := 4
  errorInternal := -16
  allocWords_pos := by decide
  allocWordsExt_pos := by decide
  allocWordsExt2_pos := by decide
  ctxArraySize_pos := by decide
  errorInternal_neg := by decide

section Checks

variable {σ α β : Type}

/-- `REQUIRES(p)`: return at once, state as it is, unless `p` holds. -/
def require (p : Prop) [Decidable p] : EStateM Exit σ Unit := fun s =>
  if p then .ok () s else .error .requires s

/-- `ENSURES(p)`: the same check at the end of a routine. -/
def ensure (p : Prop) [Decidable p] : EStateM Exit σ Unit := fun s =>
  if p then .ok () s else .error .ensures s

/-- The state a call leaves, however it returned. -/
def resultState : EStateM.Result Exit σ α → σ
  | .ok _ s => s
  | .error _ s => s

/-- A call of a `void` routine: the caller cannot see whether its checks passed and goes on
with the state it left; only undefined behaviour is not survived. -/
def callVoid (m : EStateM Exit σ Unit) : EStateM Exit σ Unit := fun s =>
  match m s with
  | .error (.outOfBounds i) s' => .error (.outOfBounds i) s'
  | r => .ok () (resultState r)

/-- The call returned to its caller, normally or through a failed check, and left `s'`. -/
def Returned : EStateM.Result Exit σ α → σ → Prop
  | .ok _ s, s' => s = s'
  | .error (.outOfBounds _) _, _ => False
  | .error _ s, s' => s = s'

@[simp] theorem bind_apply (x : EStateM Exit σ α) (f : α → EStateM Exit σ β) (s : σ) :
    (x >>= f) s = match x s with
      | .ok a s' => f a s'
      | .error e s' => .error e s' := by
  simp only [bind, EStateM.bind]
  rcases x s <;> rfl

@[simp] theorem pure_apply (a : α) (s : σ) : (pure a : EStateM Exit σ α) s = .ok a s := rfl

@[simp] theorem get_apply (s : σ) : (get : EStateM Exit σ σ) s = .ok s s := rfl

@[simp] theorem set_apply (s s' : σ) : (set s' : EStateM Exit σ PUnit) s = .ok ⟨⟩ s' := rfl

@[simp] theorem modify_apply (f : σ → σ) (s : σ) :
    (modify f : EStateM Exit σ PUnit) s = .ok ⟨⟩ (f s) := rfl

@[simp] theorem modifyGet_apply (f : σ → α × σ) (s : σ) :
    (modifyGet f : EStateM Exit σ α) s = .ok (f s).1 (f s).2 := rfl

@[simp] theorem throw_apply (e : Exit) (s : σ) :
    (throw e : EStateM Exit σ α) s = .error e s := rfl

@[simp] theorem require_apply (p : Prop) [Decidable p] (s : σ) :
    (require p : EStateM Exit σ Unit) s = if p then .ok () s else .error .requires s := rfl

@[simp] theorem ensure_apply (p : Prop) [Decidable p] (s : σ) :
    (ensure p : EStateM Exit σ Unit) s = if p then .ok () s else .error .ensures s := rfl

@[simp] theorem resultState_ok (a : α) (s : σ) :
    resultState (.ok a s : EStateM.Result Exit σ α) = s := rfl

@[simp] theorem resultState_error (e : Exit) (s : σ) :
    resultState (.error e s : EStateM.Result Exit σ α) = s := rfl

theorem callVoid_of_ok {m : EStateM Exit σ Unit} {s s' : σ} (h : m s = .ok () s') :
    callVoid m s = .ok () s' := by
  simp [callVoid, h]

theorem callVoid_of_check {m : EStateM Exit σ Unit} {s s' : σ} {e : Exit}
    (h : m s = .error e s') (he : ∀ i, e ≠ .outOfBounds i) : callVoid m s = .ok () s' := by
  cases e <;> simp_all [callVoid]

theorem returned_ok (a : α) (s : σ) : Returned (.ok a s : EStateM.Result Exit σ α) s := rfl

/-- A routine that starts with a `void` call returned: so did that call, and the rest of the
routine ran from the state it left. -/
theorem returned_callVoid_bind {m : EStateM Exit σ Unit} {f : Unit → EStateM Exit σ α} {s s' : σ}
    (h : Returned ((callVoid m >>= f) s) s') : ∃ s₁, Returned (m s) s₁ ∧ Returned (f () s₁) s' := by
  rw [bind_apply] at h
  cases hm : m s with
  | ok _ s₁ => rw [callVoid_of_ok hm] at h; exact ⟨s₁, rfl, h⟩
  | error e s₁ =>
    cases e with
    | outOfBounds i => simp [callVoid, hm, Returned] at h
    | requires => rw [callVoid_of_check hm nofun] at h; exact ⟨s₁, rfl, h⟩
    | ensures => rw [callVoid_of_check hm nofun] at h; exact ⟨s₁, rfl, h⟩

end Checks

end CtxBn
