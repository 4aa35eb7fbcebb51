import MonkeyLang.Token.Basic
import MonkeyLang.Value

/-! Digests. Equal things have equal digests; integers are folded modulo a Mersenne prime, so that some different
ones have equal digests too. -/

namespace MonkeyLang.Digest

/-- Integers are folded modulo this prime, one less than the sixty-first power of two. -/
def prime : Nat := 2305843009213693951

/-- The residue of an integer with the sign of the integer; -1 stands for failure and gives way to -2. -/
def integer (value : Int) : Int :=
  let residue := Int.tmod value prime
  if residue = -1 then -2 else residue

def sameToken (first second : Token) : Bool :=
  first.kind == second.kind && first.literal == second.literal &&
    integer first.position.line == integer second.position.line &&
    integer first.position.column == integer second.position.column

/-- Whether two values have one digest; only integers and errors have any. -/
def sameValue? : Value → Value → Option Bool
  | .integer value, .integer value' => some (integer value == integer value')
  | .error reason, .error reason' => some (reason.message == reason'.message)
  | .integer _, .error _ | .error _, .integer _ => some false
  | _, _ => none

end MonkeyLang.Digest
