import MonkeyLang.Operator
import MonkeyLang.Scope

/-! The meaning of programs with exceptions in the place of signals. A return raises its value and a runtime error raises
its reason; nothing is checked on the way, and only a call and the program catch what is returned. The scopes are
those of evaluation and change in the same way. -/

namespace MonkeyLang

/-- What is raised. -/
inductive Raised
  | returned (value : Value)
  | failed (reason : RuntimeError)
  /-- The nesting is deeper than the limit. -/
  | exhausted
  /-- The tree has no meaning here. -/
  | stuck

/-- A step that changes scopes and may raise. -/
abbrev Raising := ExceptT Raised (StateM (Array Scope))

namespace Raising

variable {α β : Type}

/-- How a step ends, and the scopes after it. -/
def ends (step : Raising α) (scopes : Array Scope) : Except Raised α × Array Scope := step.run.run scopes

/-- The value that a step must have. -/
def required (step : Raising (Option Value)) : Raising Value := do
  match ← step with
  | some value => return value
  | none => throw .stuck

/-- What an operator gives; its error is raised. -/
def settle : Value → Raising (Option Value)
  | .error reason => throw (.failed reason)
  | value => return some value

/-- A step, of which a returned value is caught. -/
def catching (step : Raising (Option Value)) : Raising (Option Value) :=
  tryCatch step fun
    | .returned value => return some value
    | raised => throw raised

def look (scope : Nat) (name : String) : Raising (Option Value) := do
  match World.lookup (← get) scope name with
  | some value => return some value
  | none => throw (.failed (.unknownIdentifier name))

/-- A scope with parameters set to the arguments in their places. -/
def withArguments : List Node → List Value → Scope → Scope
  | .identifier _ name :: parameters, value :: values, scope =>
    withArguments parameters values (scope.set name (some value))
  | _, _, scope => scope

/-! In what follows `eval node scope` evaluates a node one level down, where there is room for so many levels. -/

section Levels

variable (eval : Node → Nat → Raising (Option Value)) (room : Nat)

/-- Statements in their order, and the value of the last one. -/
def statements (scope : Nat) (last : Option Value) : List Node → Raising (Option Value)
  | [] => return last
  | statement :: rest => do statements scope (← eval statement scope) rest

/-- Expressions from left to right, and their values. -/
def arguments (scope : Nat) : List Node → Raising (List Value)
  | [] => return []
  | expression :: rest => do
    let value ← required (eval expression scope)
    let values ← arguments scope rest
    return value :: values

/-- The body runs in a new scope, inside the one that the function was made in. A function that is higher than the room
for its body is not called. -/
def apply (callee : Value) (values : List Value) : Raising (Option Value) := do
  match callee with
  | .function (.sequence parameters) body outer =>
    if values.length ≠ parameters.length then throw (.failed (.argumentCount parameters.length values.length))
    else
      let inside := (← get).size
      modify (·.push (withArguments parameters values ⟨[], [], some outer⟩))
      if room < (Node.function none (.sequence parameters) body).height then throw .exhausted
      else catching (do return some ((← eval body inside).getD .null))
  | .function _ _ _ => throw .stuck
  | other => throw (.failed (.notFunction other.type))

/-- One level of the meaning. -/
def level (node : Node) (scope : Nat) : Raising (Option Value) := do
  match node with
  | .program (.sequence nodes) => catching (statements eval scope none nodes)
  | .block _ (.sequence nodes) => statements eval scope none nodes
  | .statement _ expression => return some (← required (eval expression scope))
  | .letBinding _ (.identifier _ name) expression =>
    let value ← required (eval expression scope)
    modify (·.modify scope (·.set name (some value)))
    return none
  | .returning _ expression =>
    let value ← required (eval expression scope)
    throw (.returned value)
  | .integer _ value => return some (.integer value)
  | .boolean _ value => return some (.boolean value)
  | .identifier _ name => look scope name
  | .function _ parameters body => return some (.function parameters body scope)
  | .unary _ operator expression =>
    let right ← required (eval expression scope)
    settle (Operator.applyUnary operator right)
  | .binary _ first operator second =>
    let left ← required (eval first scope)
    let right ← required (eval second scope)
    settle (Operator.applyBinary operator left right)
  | .conditional _ condition consequence alternative =>
    let value ← required (eval condition scope)
    if value.isTruthy then return some ((← eval consequence scope).getD .null)
    else
      match alternative with
      | .missing => return some .null
      | _ => return some ((← eval alternative scope).getD .null)
  | .call _ function (.sequence expressions) =>
    let callee ← required (eval function scope)
    let values ← arguments eval scope expressions
    apply eval room callee values
  | _ => throw .stuck

end Levels

/-- The meaning of a node, nested and called at most `limit` levels deep. -/
def eval : Nat → Node → Nat → Raising (Option Value)
  | 0, _, _ => throw .exhausted
  | limit + 1, node, scope => level (eval limit) limit node scope

/-! How steps end. -/

theorem ends_bind (step : Raising β) (next : β → Raising α) (scopes : Array Scope) : ends (step >>= next) scopes =
    match ends step scopes with
    | (.ok value, after) => ends (next value) after
    | (.error raised, after) => (.error raised, after) := by
  simp only [ends, ExceptT.run_bind, StateT.run_bind]
  rcases step.run.run scopes with ⟨⟨⟩ | ⟨⟩, after⟩ <;> rfl

theorem ends_catching (step : Raising (Option Value)) (scopes : Array Scope) : ends (catching step) scopes =
    match ends step scopes with
    | (.error (.returned value), after) => (.ok (some value), after)
    | ended => ended := by
  have opened : StateT.run step scopes = step.run.run scopes := rfl
  simp only [catching, ends, tryCatch, tryCatchThe, MonadExceptOf.tryCatch, ExceptT.tryCatch, ExceptT.run_mk,
    StateT.run_bind, opened]
  rcases step.run.run scopes with ⟨raised | value, after⟩
  · cases raised <;> rfl
  · rfl

end Raising

end MonkeyLang
