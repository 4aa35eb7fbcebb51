import MonkeyLang.Text.Quoted
import MonkeyLang.Token.Basic

/-! Syntax errors: why a statement cannot be read, and at which token that shows. -/

namespace MonkeyLang

/-- What is wrong with the text of a statement. -/
inductive SyntaxError
  /-- Another kind of token had to come next. -/
  | expected (kind : Kind) (found : Token)
  /-- No expression begins with the token. -/
  | noExpression (found : Token)
  /-- The integer is greater than a literal may be. -/
  | tooGreat (literal : Token)
  /-- The input ends before the brace that closes a block. -/
  | unclosed (opening found : Token)
deriving DecidableEq

namespace SyntaxError

/-- The token at which the error shows. -/
def token : SyntaxError → Token
  | expected _ found | noExpression found | tooGreat found | unclosed _ found => found

def message : SyntaxError → String
  | expected kind found =>
    "expected next token to be " ++ kind.name ++ ", got " ++ found.kind.name ++ " (" ++
      Text.quote found.literal ++ ") at " ++ found.position.text
  | noExpression found =>
    "no prefix parse function for " ++ found.kind.name ++ " (" ++ Text.quote found.literal ++ ") at " ++
      found.position.text
  | tooGreat literal =>
    "could not parse " ++ Text.quote literal.literal ++ " as integer at " ++ literal.position.text
  | unclosed opening found =>
    "expected RBRACE to close block opened at " ++ opening.position.text ++ ", got " ++ found.kind.name ++
      " at " ++ found.position.text

end SyntaxError

end MonkeyLang
