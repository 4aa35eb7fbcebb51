import MonkeyLang.Evaluation
import MonkeyLang.Log
import MonkeyLang.Parser.Grammar
import MonkeyLang.Token.Cursor

/-! Programs: from a text to its tree, and from a tree to its value and its text. -/

namespace MonkeyLang

/-- What parsing comes to: the program, or why it stopped, and the errors recorded up to then. -/
structure Parsed where
  result : Except Failure Node
  errors : List SyntaxError

namespace Parsed

def ofTokens (limit : Nat) (tokens : List Token) : Parsed :=
  let (result, parser) := (Parse.program limit).run.run (Parser.ofTokens tokens)
  ⟨result, parser.errors⟩

def ofText (limit : Nat) (text : String) : Parsed := ofTokens limit (Token.ofText text)

def messages (parsed : Parsed) : List String := parsed.errors.map SyntaxError.message

/-- The errors as they were recorded and, once the program is read, what it came to. -/
def log (parsed : Parsed) : List LogEntry :=
  parsed.errors.map .syntaxError ++
    match parsed.result with
    | .ok (.program (.sequence statements)) => [.parsed statements.length parsed.errors.length]
    | _ => []

end Parsed

/-- Runs a step of evaluation. -/
def World.run {α : Type} (world : World) (step : Eval α) : Except Fault α × World :=
  ExceptT.run step |>.run world

/-- Evaluates a node in a scope. -/
def World.eval (world : World) (limit : Nat) (node : Node) (scope : Nat) : Except Fault (Option Value) × World :=
  world.run (Eval.eval limit node scope)

/-- The description of a node, if it can be had with so many levels. -/
def Node.description? (limit : Nat) (node : Node) : Except Fault String :=
  match node.outline.describeFault? limit with
  | some fault => .error fault
  | none => .ok node.describe

/-- The text of a value, if it can be had with so many levels. -/
def Value.text? (limit : Nat) (value : Value) : Except Fault String :=
  match value.inspectFault? limit with
  | some fault => .error fault
  | none => .ok value.inspect

/-- The tokens of a text, one a line, without the end of input. -/
def tokenLines (text : String) : String :=
  String.join ((Token.ofText text).dropLast.map fun token => token.describe ++ "\n")

end MonkeyLang
