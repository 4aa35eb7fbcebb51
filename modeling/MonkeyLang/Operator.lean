import MonkeyLang.Fault
import MonkeyLang.Signed64
import MonkeyLang.Value

/-! Operators on values. Integers wrap around, booleans can be compared for equality, and every other combination
is a runtime error. -/

namespace MonkeyLang.Operator

def applyUnary (operator : String) (right : Value) : Value :=
  if operator = "!" then .boolean (!right.isTruthy)
  else if operator = "-" then
    match right with
    | .integer value => .integer (Signed64.wrap (-value))
    | _ => .error (.unknownUnary "-" right.type)
  else .error (.unknownUnary operator right.type)

def applyInteger (operator : String) (left right : Int) : Value :=
  if operator = "+" then .integer (Signed64.wrap (left + right))
  else if operator = "-" then .integer (Signed64.wrap (left - right))
  else if operator = "*" then .integer (Signed64.wrap (left * right))
  else if operator = "/" then
    match Signed64.divide? left right with
    | some quotient => .integer quotient
    | none => .error .divisionByZero
  else if operator = "<" then .boolean (left < right)
  else if operator = ">" then .boolean (right < left)
  else if operator = "==" then .boolean (left = right)
  else if operator = "!=" then .boolean (left ≠ right)
  else .error (.unknownBinary .integer operator .integer)

def applyBinary (operator : String) (left right : Value) : Value :=
  match left, right with
  | .integer value, .integer value' => applyInteger operator value value'
  | .boolean value, .boolean value' =>
    if operator = "==" then .boolean (value = value')
    else if operator = "!=" then .boolean (value ≠ value')
    else .error (.unknownBinary .boolean operator .boolean)
  | _, _ =>
    if left.type = right.type then .error (.unknownBinary left.type operator right.type)
    else .error (.typeMismatch left.type operator right.type)

/-- The operator before an operand that may be missing. -/
def applyUnary? (operator : String) : Option Value → Except Fault Value
  | some right => .ok (applyUnary operator right)
  | none =>
    if operator = "!" then .ok (.boolean (!Value.isTruthy? none)) else .error (.lacks Fault.nothing .type)

/-- The operator between two operands that may be missing. -/
def applyBinary? (operator : String) : Option Value → Option Value → Except Fault Value
  | some left, some right => .ok (applyBinary operator left right)
  | _, _ => .error (.lacks Fault.nothing .type)

end MonkeyLang.Operator
