import Mathlib.Algebra.Group.Int.Defs

/-! Fixed-width integers over the whole numbers.

A step of arithmetic is exact where its result fits the width. Elsewhere the
build decides: with overflow checks there is no result, without them it is the
number of the width that differs by a multiple of the range.
-/

set_option autoImplicit false

namespace Library.Machine

inductive Width where
  | u32 | u64 | i64
  deriving DecidableEq, Repr

inductive Build where
  | checked | wrapping
  deriving DecidableEq, Repr

namespace Width

def low : Width → Int
  | u32 => 0
  | u64 => 0
  | i64 => -2 ^ 63

def high : Width → Int
  | u32 => 2 ^ 32
  | u64 => 2 ^ 64
  | i64 => 2 ^ 63

def Holds (width : Width) (n : Int) : Prop := width.low ≤ n ∧ n < width.high

instance (width : Width) (n : Int) : Decidable (width.Holds n) := inferInstanceAs (Decidable (_ ∧ _))

def wrap (width : Width) (n : Int) : Int := width.low + (n - width.low) % (width.high - width.low)

/-- A step with the exact result `n`. -/
def step (width : Width) (build : Build) (n : Int) : Option Int :=
  match build with
  | .checked => if width.Holds n then some n else none
  | .wrapping => some (width.wrap n)

theorem wrap_of_holds {width : Width} {n : Int} (holds : width.Holds n) : width.wrap n = n := by
  obtain ⟨above, below⟩ := holds
  rw [wrap, Int.emod_eq_of_lt (by omega) (by omega)]
  omega

theorem step_of_holds {width : Width} (build : Build) {n : Int} (holds : width.Holds n) : width.step build n = some n := by
  cases build with
  | checked => exact if_pos holds
  | wrapping => exact congrArg some (wrap_of_holds holds)

theorem step_u32 (build : Build) {n : Int} (above : 0 ≤ n) (below : n < 2 ^ 32) : u32.step build n = some n :=
  step_of_holds build ⟨above, below⟩

theorem step_u64 (build : Build) {n : Int} (above : 0 ≤ n) (below : n < 2 ^ 64) : u64.step build n = some n :=
  step_of_holds build ⟨above, below⟩

theorem step_i64 (build : Build) {n : Int} (above : -2 ^ 63 ≤ n) (below : n < 2 ^ 63) : i64.step build n = some n :=
  step_of_holds build ⟨above, below⟩

theorem wrap_u64 {n : Int} (above : 0 ≤ n) (below : n < 2 ^ 64) : u64.wrap n = n := wrap_of_holds ⟨above, below⟩

theorem wrap_i64 {n : Int} (above : -2 ^ 63 ≤ n) (below : n < 2 ^ 63) : i64.wrap n = n := wrap_of_holds ⟨above, below⟩

theorem wrap_u64_eq (n : Int) : u64.wrap n = n % 2 ^ 64 := by
  simp [wrap, low, high]

/-- What wrapped on the way is right again where the whole is in range. -/
theorem wrap_i64_add_wrap {a b : Int} (holds : i64.Holds (a + b)) : i64.wrap (u64.wrap (a + u64.wrap b)) = a + b := by
  obtain ⟨above, below⟩ := holds
  rw [wrap_u64_eq, wrap_u64_eq, Int.add_emod_emod]
  simp only [wrap, low, high, Int.reducePow, Int.reduceNeg, Int.reduceSub] at *
  omega

end Width

end Library.Machine
