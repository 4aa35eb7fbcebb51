import MonkeyLang.Node.Rendering

/-! Runtime values. Plain values are what a program computes with; a returned value and an error are signals, which
end the evaluation of everything around them up to a call or the program. -/

namespace MonkeyLang

inductive ValueType
  | null
  | boolean
  | integer
  | returned
  | error
  | function
deriving DecidableEq

def ValueType.name : ValueType → String
  | null => "NULL"
  | boolean => "BOOLEAN"
  | integer => "INTEGER"
  | returned => "RETURN_VALUE"
  | error => "ERROR"
  | function => "FUNCTION"

/-- What a program did wrong when it ran. -/
inductive RuntimeError
  | unknownIdentifier (name : String)
  | unknownUnary (operator : String) (operand : ValueType)
  | unknownBinary (left : ValueType) (operator : String) (right : ValueType)
  | typeMismatch (left : ValueType) (operator : String) (right : ValueType)
  | divisionByZero
  | notFunction (callee : ValueType)
  | argumentCount (want got : Nat)
  /-- An error that was given from outside. -/
  | other (text : String)
deriving DecidableEq

def RuntimeError.message : RuntimeError → String
  | unknownIdentifier name => "identifier not found: " ++ name
  | unknownUnary operator operand => "unknown operator: " ++ operator ++ operand.name
  | unknownBinary left operator right =>
    "unknown operator: " ++ left.name ++ " " ++ operator ++ " " ++ right.name
  | typeMismatch left operator right => "type mismatch: " ++ left.name ++ " " ++ operator ++ " " ++ right.name
  | divisionByZero => "division by zero"
  | notFunction callee => "not a function: " ++ callee.name
  | argumentCount want got =>
    "wrong number of arguments: want=" ++ toString want ++ ", got=" ++ toString got
  | other text => text

/-- Runtime values. A function keeps its parameters, its body and the number of the scope that it was made in. -/
inductive Value
  | null
  | boolean (value : Bool)
  | integer (value : Int)
  | returned (value : Value)
  /-- A return of nothing at all, which no program makes. -/
  | returnedNothing
  | error (reason : RuntimeError)
  | function (parameters body : Node) (scope : Nat)

namespace Value

def type : Value → ValueType
  | null => .null
  | boolean _ => .boolean
  | integer _ => .integer
  | returned _ | returnedNothing => .returned
  | error _ => .error
  | function _ _ _ => .function

def inspect : Value → String
  | null => "null"
  | boolean value => if value then "true" else "false"
  | integer value => toString value
  | returned value => value.inspect
  | returnedNothing => ""
  | error reason => "ERROR: " ++ reason.message
  | function parameters body _ => (Node.function none parameters body).render

/-- What keeps a value from having a text in room for so many levels: an integer may be too long to be written, and a
function is shown by its source text. -/
def inspectFault? : Value → Nat → Option Fault
  | _, 0 => some .exhausted
  | null, _ + 1 | boolean _, _ + 1 | error _, _ + 1 => none
  | integer value, _ + 1 => Fault.ofInteger? value
  | returned value, room + 1 => value.inspectFault? room
  | returnedNothing, _ + 1 => some (.lacks Fault.nothing .text)
  | function parameters body _, room + 1 => (Node.function none parameters body).renderFault? (room + 1)

/-- The height of the tree that the text is made from. -/
def height : Value → Nat
  | returned value => value.height + 1
  | function parameters body _ => (Node.function none parameters body).height
  | _ => 1

/-- Only `false` and `null` are not. -/
def isTruthy : Value → Bool
  | null => false
  | boolean value => value
  | _ => true

def isError : Value → Bool
  | error _ => true
  | _ => false

/-- Signals stop evaluation. -/
def isSignal : Value → Bool
  | returned _ | returnedNothing | error _ => true
  | _ => false

/-- Integers are equal by value, errors by message, and `null`, `true` and `false` to themselves; two functions or
two returned values are different things even if they look alike. -/
def same : Value → Value → Bool
  | null, null => true
  | boolean value, boolean value' => value == value'
  | integer value, integer value' => value == value'
  | error reason, error reason' => reason.message == reason'.message
  | _, _ => false

/-- How a value is described: the constructor for its type around its text. -/
def describe (value : Value) : String :=
  let constructorName :=
    match value with
    | null => "Null"
    | boolean _ => "Boolean"
    | integer _ => "Integer"
    | returned _ | returnedNothing => "ReturnValue"
    | error _ => "Error"
    | function _ _ _ => "Function"
  constructorName ++ "(" ++ value.inspect ++ ")"

/-! What is asked of a value that may be missing. What is missing is not false and is the same only as what is
missing too. -/

def isTruthy? (value : Option Value) : Bool := value.elim true isTruthy

def same? : Option Value → Option Value → Bool
  | some first, some second => first.same second
  | none, none => true
  | _, _ => false

def describe? (value : Option Value) : String := value.elim "None" describe

end Value

end MonkeyLang
