import MonkeyLang.Operator
import MonkeyLang.Scope

/-! Evaluation of nodes in a scope. Statements may have no value, expressions must have one. A signal ends the
evaluation of all that is around it: a call takes a returned value out of its signal, the program does so too and
lets an error through. A call is noted with the source text of the function, which is rendered each time and has no
more room than the evaluation of the body. What was bound before a fault stays bound. -/

namespace MonkeyLang

abbrev Eval := ExceptT Fault (StateM World)

namespace Eval

def fault {α : Type} (fault : Fault) : Eval α := throw fault

def get (scope : Nat) (name : String) : Eval (Option Value) := return (← getThe World).get scope name

def enclose (outer : Nat) : Eval Nat := modifyGet (·.enclose (some outer))

/-- Notes a call. A function whose source text cannot be had is not called. -/
def noteCall (text : Node → Except Fault String) (parameters body : Node) (count : Nat) : Eval Unit := do
  let source ← text (.function none parameters body)
  modify fun world => { world with calls := ⟨source, count⟩ :: world.calls }

/-- The value that a step must have. -/
def required (step : Eval (Option Value)) : Eval Value := do
  match ← step with
  | some value => return value
  | none => fault .noValue

/-- Binds what a node has as its value. -/
def bind (scope : Nat) (target : Node) (value : Option Value) : Eval Unit := do
  let name ← Name.ofNode target
  modify (·.bind scope name value)

/-- Binds parameters to the arguments in their places. -/
def bindAll (scope : Nat) : List Node → List (Option Value) → Eval Unit
  | parameter :: parameters, argument :: arguments => do
    bind scope parameter argument
    bindAll scope parameters arguments
  | _, _ => return ()

/-! In what follows `eval node scope` evaluates a node one level down, and `text node` is its source text in the room
that is left there. -/

section Levels

variable (eval : Node → Nat → Eval (Option Value)) (text : Node → Except Fault String)

/-- The value of the last statement. A returned value ends the program and is its value, an error ends it too. -/
def programStatements (scope : Nat) (last : Option Value) : List Node → Eval (Option Value)
  | [] => return last
  | statement :: rest => do
    match ← eval statement scope with
    | some (.returned value) => return some value
    | some .returnedNothing => return none
    | some (.error reason) => return some (.error reason)
    | result => programStatements scope result rest

/-- The value of the last statement; a signal ends the block and is its value. -/
def blockStatements (scope : Nat) (last : Option Value) : List Node → Eval (Option Value)
  | [] => return last
  | statement :: rest => do
    match ← eval statement scope with
    | some value => if value.isSignal then return some value else blockStatements scope (some value) rest
    | none => blockStatements scope none rest

/-- The values of the expressions from left to right, or the first signal among them. -/
def arguments (scope : Nat) (values : List Value) : List Node → Eval (Except Value (List Value))
  | [] => return .ok values.reverse
  | expression :: rest => do
    let value ← required (eval expression scope)
    if value.isSignal then return .error value else arguments scope (value :: values) rest

/-- The value of a call. The arguments are bound in a new scope inside the one that the function was made in. -/
def apply (callee : Value) (values : List (Option Value)) : Eval (Option Value) := do
  match callee with
  | .function parameters body outer =>
    let targets ← parameters.elements .count
    if values.length ≠ targets.length then
      return some (.error (.argumentCount targets.length values.length))
    else
      let scope ← enclose outer
      bindAll scope targets values
      noteCall text parameters body values.length
      match ← eval body scope with
      | some (.returned value) => return some value
      | some .returnedNothing => return none
      | some value => return some value
      | none => return some .null
  | other => return some (.error (.notFunction other.type))

def level (node : Node) (scope : Nat) : Eval (Option Value) := do
  match node with
  | .program statements => programStatements eval scope none (← statements.elements .items)
  | .block _ statements => blockStatements eval scope none (← statements.elements .items)
  | .statement _ expression => some <$> required (eval expression scope)
  | .letBinding _ name expression =>
    let value ← required (eval expression scope)
    if value.isSignal then return some value
    else
      bind scope name (some value)
      return none
  | .returning _ expression =>
    let value ← required (eval expression scope)
    if value.isSignal then return some value else return some (.returned value)
  | .integer _ value => return some (.integer value)
  | .boolean _ value => return some (.boolean value)
  | .identifier _ name =>
    match ← get scope name with
    | some value => return some value
    | none => return some (.error (.unknownIdentifier name))
  | .function _ parameters body => return some (.function parameters body scope)
  | .unary _ operator expression =>
    let right ← required (eval expression scope)
    if right.isSignal then return some right else return some (Operator.applyUnary operator right)
  | .binary _ first operator second =>
    let left ← required (eval first scope)
    if left.isSignal then return some left
    else
      let right ← required (eval second scope)
      if right.isSignal then return some right
      else return some (Operator.applyBinary operator left right)
  | .conditional _ condition consequence alternative =>
    let value ← required (eval condition scope)
    if value.isSignal then return some value
    else if value.isTruthy then return some ((← eval consequence scope).getD .null)
    else
      match alternative with
      | .missing => return some .null
      | _ => return some ((← eval alternative scope).getD .null)
  | .call _ function expressions =>
    let callee ← required (eval function scope)
    if callee.isSignal then return some callee
    else
      match ← arguments eval scope [] (← expressions.elements .items) with
      | .error signal => return some signal
      | .ok values => apply eval text callee (values.map some)
  | .bare token => fault (.noMeaning (Node.bare token).position)
  | .missing | .sequence _ => fault (.lacks node.sort .kind)

end Levels

/-- The value of a node, nested and called at most `limit` levels deep. -/
def eval : Nat → Node → Nat → Eval (Option Value)
  | 0, _, _ => fault .exhausted
  | limit + 1, node, scope => level (eval limit) (Node.text? limit) node scope

/-- The value of a call in which the body and its text have at most `limit` levels. -/
def call (limit : Nat) (callee : Value) (values : List (Option Value)) : Eval (Option Value) :=
  apply (eval limit) (Node.text? limit) callee values

end Eval

end MonkeyLang
