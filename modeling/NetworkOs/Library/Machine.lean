import Mathlib.Data.Int.Basic
import Mathlib.Tactic

/-! Fixed-width integer results. A C++ `int` operation is the exact operation
followed by reduction into the 32-bit two's complement range. -/
namespace Machine

/-- The largest value of a 32-bit `int`. -/
def intMax : Int := 2147483647

/-- Reduction of an exact result into the 32-bit two's complement range. -/
def int32 (z : Int) : Int := (z + 2147483648) % 4294967296 - 2147483648

theorem int32_of_range {z : Int} (low : -2147483648 ≤ z) (high : z ≤ intMax) : int32 z = z := by
  unfold int32 intMax at *
  omega

/-- The exact result of an operation, if an `int` can hold it. -/
def represented (z : Int) : Option Int := if -2147483648 ≤ z ∧ z ≤ intMax then some z else none

/-- `1 << count`, which is defined for less than the width. -/
def shiftOne (count : Int) : Option Int := if 0 ≤ count ∧ count < 32 then some (int32 (2 ^ count.toNat)) else none

/-- `a % b`, which truncates. -/
def remainder (a b : Int) : Option Int := if b = 0 ∨ a = -2147483648 ∧ b = -1 then none else some (a.tmod b)

theorem represented_of_range {z : Int} (low : -2147483648 ≤ z) (high : z ≤ intMax) : represented z = some z :=
  if_pos ⟨low, high⟩

theorem shiftOne_of_le {count : Nat} (within : count ≤ 30) : shiftOne count = some (2 ^ count) := by
  have below : (2 : Int) ^ count ≤ 2 ^ 30 := pow_le_pow_right₀ (by decide) within
  have positive : (0 : Int) < 2 ^ count := by positivity
  unfold shiftOne
  rw [if_pos (by omega), Int.toNat_natCast, int32_of_range (by omega)]
  exact below.trans (by decide)

/-- The bit of the sign. -/
theorem shiftOne_31 : shiftOne 31 = some (-2147483648) := by decide

theorem shiftOne_of_lt {count : Int} (wide : 31 < count) : shiftOne count = none :=
  if_neg (by omega)

theorem remainder_of_nonneg {a b : Int} (nonneg : 0 ≤ a) (apart : b ≠ 0) : remainder a b = some (a.tmod b) :=
  if_neg (by omega)

end Machine
