import MonkeyLang.Node.Basic
import MonkeyLang.Parser.Recovery
import MonkeyLang.Signed64

/-! The grammar. Statements are told apart by their first word; expressions are read by precedence, each operand
followed by the operators that bind more tightly than the floor it was asked for. Every level of nesting takes
one from a limit, and loops run for at most as many rounds as there are tokens. -/

namespace MonkeyLang

namespace Kind

/-- How tightly an operator binds its operands. Kinds that stand between no operands have the lowest precedence. -/
def precedence : Kind → Int
  | equal | notEqual => 2
  | less | greater => 3
  | plus | minus => 4
  | asterisk | slash => 5
  | leftParen => 7
  | _ => 1

/-- The precedence below all operators, and that of an operator in front of its operand. -/
def lowest : Int := 1
def unary : Int := 6

/-- The operators that stand between two operands. -/
def isBinary : Kind → Bool
  | equal | notEqual | less | greater | plus | minus | asterisk | slash => true
  | _ => false

end Kind

namespace Parse

def identifier : Parse Node := do
  let token ← current
  return .identifier token token.literal

def boolean : Parse Node := do
  let token ← current
  return .boolean token (token.kind = .trueWord)

/-- Integers above the signed 64-bit range are syntax errors; literals that are no numerals are faults. -/
def integer : Parse Node := do
  let token ← current
  match Numeral.read token.literal with
  | .error reason => fault (.numeral reason)
  | .ok value =>
    if Signed64.greatest < value then unreadable (.tooGreat token) else return .integer token value

/-- Names after a comma each, up to the first token that is no comma. -/
def moreParameters : Nat → List Node → Parse (List Node)
  | 0, _ => fault .exhausted
  | rounds + 1, read => do
    if (← upcoming).kind = .comma then
      advance
      expect .identifier
      moreParameters rounds ((← identifier) :: read)
    else return read.reverse

/-- The rest of a parameter list after its opening parenthesis. -/
def parameters : Parse (List Node) := do
  if (← upcoming).kind = .rightParen then
    advance
    return []
  else
    expect .identifier
    let first ← identifier
    let all ← moreParameters ((← get).rest.length + 1) [first]
    expect .rightParen
    return all

/-! In what follows `expression floor` reads an expression one level down, with the operators above the floor. -/

section Levels

variable (expression : Int → Parse Node)

def letBinding : Parse Node := do
  let token ← current
  expect .identifier
  let name ← identifier
  expect .assign
  advance
  let value ← expression Kind.lowest
  passSemicolon
  return .letBinding token name value

def returning : Parse Node := do
  let token ← current
  advance
  let value ← expression Kind.lowest
  passSemicolon
  return .returning token value

def expressionStatement : Parse Node := do
  let token ← current
  let value ← expression Kind.lowest
  passSemicolon
  return .statement token value

def statement : Parse Node := do
  match (← current).kind with
  | .letWord => letBinding expression
  | .returnWord => returning expression
  | _ => expressionStatement expression

/-- Statements up to the terminator or the end of input; those that are malformed are recorded and left out. -/
def moreStatements (terminator : Kind) : Nat → List Node → Parse (List Node)
  | 0, _ => fault .exhausted
  | rounds + 1, read => do
    let token ← current
    if token.kind = terminator || token.kind = .endOfInput then return read.reverse
    else
      match ← recovering terminator (do let node ← statement expression; advance; return node) with
      | some node => moreStatements terminator rounds (node :: read)
      | none => moreStatements terminator rounds read

def statements (terminator : Kind) : Parse (List Node) := do
  moreStatements expression terminator ((← get).rest.length + 1) []

/-- A block from its opening brace on; its closing brace is left as the current token. -/
def block : Parse Node := do
  let opening ← current
  advance
  let nodes ← statements expression .rightBrace
  let closing ← current
  if closing.kind = .rightBrace then return .block opening (.sequence nodes)
  else unreadable (.unclosed opening closing)

def unary : Parse Node := do
  let token ← current
  advance
  let right ← expression Kind.unary
  return .unary token token.literal right

def binary (left : Node) : Parse Node := do
  let token ← current
  advance
  let right ← expression token.kind.precedence
  return .binary token left token.literal right

def grouped : Parse Node := do
  advance
  let inner ← expression Kind.lowest
  expect .rightParen
  return inner

def conditional : Parse Node := do
  let token ← current
  expect .leftParen
  advance
  let condition ← expression Kind.lowest
  expect .rightParen
  expect .leftBrace
  let consequence ← block expression
  if (← upcoming).kind = .elseWord then
    advance
    expect .leftBrace
    let alternative ← block expression
    return .conditional token condition consequence alternative
  else return .conditional token condition consequence .missing

def functionLiteral : Parse Node := do
  let token ← current
  expect .leftParen
  let names ← parameters
  expect .leftBrace
  let body ← block expression
  return .function token (.sequence names) body

/-- Expressions after a comma each, up to the first token that is no comma. -/
def moreExpressions : Nat → List Node → Parse (List Node)
  | 0, _ => fault .exhausted
  | rounds + 1, read => do
    if (← upcoming).kind = .comma then
      advance
      advance
      moreExpressions rounds ((← expression Kind.lowest) :: read)
    else return read.reverse

/-- Expressions between the current token and the next one of the closing kind. -/
def expressions (closing : Kind) : Parse (List Node) := do
  if (← upcoming).kind = closing then
    advance
    return []
  else
    advance
    let first ← expression Kind.lowest
    let all ← moreExpressions expression ((← get).rest.length + 1) [first]
    expect closing
    return all

def call (callee : Node) : Parse Node := do
  let token ← current
  let arguments ← expressions expression .rightParen
  return .call token callee (.sequence arguments)

/-- An expression without the operators after it. -/
def operand : Parse Node := do
  let token ← current
  match token.kind with
  | .identifier => identifier
  | .integer => integer
  | .trueWord | .falseWord => boolean
  | .bang | .minus => unary expression
  | .leftParen => grouped expression
  | .ifWord => conditional expression
  | .functionWord => functionLiteral expression
  | _ => unreadable (.noExpression token)

/-- The operators above the floor that follow an operand, each taking what is read so far as its left side. -/
def operators (floor : Int) : Nat → Node → Parse Node
  | 0, _ => fault .exhausted
  | rounds + 1, left => do
    let next ← upcoming
    if next.kind ≠ .semicolon ∧ floor < next.kind.precedence then
      if next.kind = .leftParen then
        advance
        operators floor rounds (← call expression left)
      else if next.kind.isBinary then
        advance
        operators floor rounds (← binary expression left)
      else return left
    else return left

/-- One level of an expression. -/
def level (floor : Int) : Parse Node := do
  let left ← operand expression
  operators expression floor ((← get).rest.length + 1) left

end Levels

/-- An expression with the operators above the floor, nested at most `limit` levels deep. -/
def expression : Nat → Int → Parse Node
  | 0, _ => fault .exhausted
  | limit + 1, floor => level (expression limit) floor

/-- The program that the tokens from the current one on make. -/
def program (limit : Nat) : Parse Node := do
  return .program (.sequence (← statements (expression limit) .endOfInput))

end Parse

end MonkeyLang
