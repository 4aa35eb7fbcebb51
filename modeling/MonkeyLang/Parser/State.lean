import MonkeyLang.Fault
import MonkeyLang.SyntaxError

/-! The state of parsing: the tokens from the current one on, the end of input that follows them, and the syntax
errors recorded so far. A parsing step that fails leaves the state where it stopped. -/

namespace MonkeyLang

/-- Tokens that are still to be read, none of them an end of input, and the errors so far, the first one first. -/
structure Parser where
  rest : List Token
  finish : Token
  errors : List SyntaxError
deriving DecidableEq

/-- Why a parsing step stops: the statement it is in cannot be read, or there is a fault. -/
inductive Failure
  | unreadable (error : SyntaxError)
  | fault (fault : Fault)
deriving DecidableEq

/-- A step of parsing. -/
abbrev Parse := ExceptT Failure (StateM Parser)

/-- The end of input of a token list that has none: right after its last token, or at the start of an empty list. -/
def Token.finishAfter (tokens : List Token) : Token :=
  match tokens.getLast? with
  | none => .endAt .start
  | some last => .endAt ⟨last.position.line, last.position.column + last.literal.length⟩

namespace Parser

/-- What comes after the first end of input is never read. -/
def ofTokens (tokens : List Token) : Parser where
  rest := tokens.takeWhile (·.kind ≠ .endOfInput)
  finish := (tokens.find? (·.kind = .endOfInput)).getD (Token.finishAfter tokens)
  errors := []

/-- The token under examination; the end of input once all others are read. -/
def current (parser : Parser) : Token := parser.rest.headD parser.finish

/-- The token after the current one. -/
def upcoming (parser : Parser) : Token := parser.rest.tail.headD parser.finish

/-- One token further on. -/
def advance (parser : Parser) : Parser := { parser with rest := parser.rest.tail }

def record (parser : Parser) (error : SyntaxError) : Parser :=
  { parser with errors := parser.errors ++ [error] }

end Parser

namespace Parse

def current : Parse Token := return (← get).current

def upcoming : Parse Token := return (← get).upcoming

def advance : Parse Unit := modify Parser.advance

def unreadable {α : Type} (error : SyntaxError) : Parse α := throw (.unreadable error)

def fault {α : Type} (fault : Fault) : Parse α := throw (.fault fault)

/-- Moves to the next token if it is of the kind. -/
def expect (kind : Kind) : Parse Unit := do
  let next ← upcoming
  if next.kind = kind then advance else unreadable (.expected kind next)

/-- Moves to the next token if it is a semicolon. -/
def passSemicolon : Parse Unit := do
  if (← upcoming).kind = .semicolon then advance

end Parse

end MonkeyLang
