import Mathlib.Algebra.Order.Ring.Int

/-!
The conversion of a 64-bit value to a C `int`, and the arithmetic facts a proof
needs to follow a counter across the wrap.
-/

namespace HxcppLuv

/-- What an `int` keeps of a wider integer. -/
def cInt (x : Int) : Int := x.bmod (2 ^ 32)

theorem cInt_eq (x : Int) : cInt x = (x + 2 ^ 31) % 2 ^ 32 - 2 ^ 31 := by
  simp only [cInt, Int.bmod_def]
  split <;> omega

theorem cInt_of_mem {x : Int} (hl : -2 ^ 31 ≤ x) (hu : x < 2 ^ 31) : cInt x = x := by
  rw [cInt_eq]; omega

end HxcppLuv
