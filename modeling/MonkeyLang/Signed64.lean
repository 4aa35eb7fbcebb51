/-! Signed 64-bit arithmetic on unbounded integers. Results are folded into the range by two's complement, and
division cuts toward zero before it folds. -/

namespace MonkeyLang.Signed64

/-- The number of 64-bit words. -/
def modulus : Nat := 18446744073709551616

/-- The least and the greatest signed 64-bit integer. -/
def least : Int := -9223372036854775808
def greatest : Int := 9223372036854775807

/-- The representative of an integer modulo the number of words in the signed range. -/
def wrap (value : Int) : Int := Int.bmod value modulus

/-- The quotient cut toward zero, folded into the range; none for a divisor of zero. -/
def divide? (left right : Int) : Option Int :=
  if right = 0 then none else some (wrap (Int.tdiv left right))

theorem least_le_wrap (value : Int) : least ≤ wrap value :=
  Int.le_bmod (x := value) (m := modulus) (by decide)

theorem wrap_le_greatest (value : Int) : wrap value ≤ greatest := by
  have below := Int.bmod_lt (x := value) (m := modulus) (by decide)
  have half : ((modulus : Int) + 1) / 2 = greatest + 1 := by decide
  rw [half] at below
  exact Int.lt_add_one_iff.mp below

end MonkeyLang.Signed64
