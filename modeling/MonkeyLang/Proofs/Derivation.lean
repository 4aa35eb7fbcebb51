import MonkeyLang.Node.Basic
import MonkeyLang.Signed64

/-! The grammar of programs, apart from any way of reading it: which runs of tokens make which phrase, and the tree of
each. Binary operators associate to the left on four levels. The semicolon of a statement may be left out, except
before a statement whose first token would go on with the expression before it. -/

namespace MonkeyLang

/-- What a run of tokens may be. Expressions have levels: from 0 to 3 those of the binary operators, the loosest first,
then operators in front of an operand, calls, and expressions that hold together by themselves. -/
inductive Phrase
  | program
  | statements
  /-- A statement, with or without its semicolon. -/
  | statement (closed : Bool)
  | block
  | expression (level : Nat)
  /-- Expressions with commas between them, possibly none. -/
  | arguments
  | expressions
  /-- Names with commas between them, possibly none. -/
  | parameters
  | names

namespace Grammar

/-- The binary operators of each level. -/
def operators : Nat → List Kind
  | 0 => [.equal, .notEqual]
  | 1 => [.less, .greater]
  | 2 => [.plus, .minus]
  | 3 => [.asterisk, .slash]
  | _ => []

def unaryLevel : Nat := 4
def callLevel : Nat := 5
def primaryLevel : Nat := 6

/-- The number that a run of ASCII digits writes. -/
def decimal (literal : String) : Nat :=
  literal.toList.foldl (fun number digit => 10 * number + (digit.toNat - '0'.toNat)) 0

/-- The tokens would go on with an expression that ends in front of them, had it no semicolon. -/
def Continues (tokens : List Token) : Prop := ∃ token ∈ tokens.head?, token.kind = .minus ∨ token.kind = .leftParen

/-- How a statement ends: in its semicolon or in nothing. -/
inductive Ending : Bool → List Token → Prop
  | closed {token : Token} (semicolon : token.kind = .semicolon) : Ending true [token]
  | bare : Ending false []

/-- The tokens make the phrase, and the node is its tree. A list of phrases has a sequence for its tree. -/
inductive Derives : Phrase → List Token → Node → Prop
  | program {tokens nodes} (statements : Derives .statements tokens (.sequence nodes)) :
      Derives .program tokens (.program (.sequence nodes))
  | noStatements : Derives .statements [] (.sequence [])
  | statements {closed first rest node nodes} (statement : Derives (.statement closed) first node)
      (others : Derives .statements rest (.sequence nodes)) (apart : closed = false → ¬Continues rest) :
      Derives .statements (first ++ rest) (.sequence (node :: nodes))
  | letBinding {word name sign : Token} {tokens ending closed value} (letWord : word.kind = .letWord)
      (identifier : name.kind = .identifier) (assign : sign.kind = .assign)
      (expression : Derives (.expression 0) tokens value) (ends : Ending closed ending) :
      Derives (.statement closed) (word :: name :: sign :: tokens ++ ending)
        (.letBinding word (.identifier name name.literal) value)
  | returning {word : Token} {tokens ending closed value} (returnWord : word.kind = .returnWord)
      (expression : Derives (.expression 0) tokens value) (ends : Ending closed ending) :
      Derives (.statement closed) (word :: tokens ++ ending) (.returning word value)
  | statement {first : Token} {tokens ending closed value}
      (expression : Derives (.expression 0) (first :: tokens) value) (ends : Ending closed ending) :
      Derives (.statement closed) (first :: tokens ++ ending) (.statement first value)
  | block {opening closing : Token} {tokens nodes} (leftBrace : opening.kind = .leftBrace)
      (statements : Derives .statements tokens (.sequence nodes)) (rightBrace : closing.kind = .rightBrace) :
      Derives .block (opening :: tokens ++ [closing]) (.block opening (.sequence nodes))
  /-- An expression is also one of every looser level. -/
  | looser {level tokens node} (expression : Derives (.expression (level + 1)) tokens node) :
      Derives (.expression level) tokens node
  | binary {level operator first second left right} (leftSide : Derives (.expression level) first left)
      (ofLevel : operator.kind ∈ operators level) (rightSide : Derives (.expression (level + 1)) second right) :
      Derives (.expression level) (first ++ operator :: second) (.binary operator left operator.literal right)
  | unary {operator : Token} {tokens right} (sign : operator.kind = .bang ∨ operator.kind = .minus)
      (operand : Derives (.expression unaryLevel) tokens right) :
      Derives (.expression unaryLevel) (operator :: tokens) (.unary operator operator.literal right)
  | call {opening closing : Token} {first tokens callee nodes} (function : Derives (.expression callLevel) first callee)
      (leftParen : opening.kind = .leftParen) (arguments : Derives .arguments tokens (.sequence nodes))
      (rightParen : closing.kind = .rightParen) :
      Derives (.expression callLevel) (first ++ opening :: tokens ++ [closing])
        (.call opening callee (.sequence nodes))
  | identifier {token : Token} (identifier : token.kind = .identifier) :
      Derives (.expression primaryLevel) [token] (.identifier token token.literal)
  | integer {token : Token} (integer : token.kind = .integer)
      (inRange : (decimal token.literal : Int) ≤ Signed64.greatest) :
      Derives (.expression primaryLevel) [token] (.integer token (decimal token.literal))
  | trueLiteral {token : Token} (trueWord : token.kind = .trueWord) :
      Derives (.expression primaryLevel) [token] (.boolean token true)
  | falseLiteral {token : Token} (falseWord : token.kind = .falseWord) :
      Derives (.expression primaryLevel) [token] (.boolean token false)
  | grouped {opening closing : Token} {tokens node} (leftParen : opening.kind = .leftParen)
      (inner : Derives (.expression 0) tokens node) (rightParen : closing.kind = .rightParen) :
      Derives (.expression primaryLevel) (opening :: tokens ++ [closing]) node
  | conditional {word opening closing : Token} {tokens first condition consequence} (ifWord : word.kind = .ifWord)
      (leftParen : opening.kind = .leftParen) (test : Derives (.expression 0) tokens condition)
      (rightParen : closing.kind = .rightParen) (yes : Derives .block first consequence) :
      Derives (.expression primaryLevel) (word :: opening :: tokens ++ closing :: first)
        (.conditional word condition consequence .missing)
  | alternative {word opening closing other : Token} {tokens first second condition consequence alternative}
      (ifWord : word.kind = .ifWord) (leftParen : opening.kind = .leftParen)
      (test : Derives (.expression 0) tokens condition) (rightParen : closing.kind = .rightParen)
      (yes : Derives .block first consequence) (elseWord : other.kind = .elseWord)
      (no : Derives .block second alternative) :
      Derives (.expression primaryLevel) (word :: opening :: tokens ++ closing :: first ++ other :: second)
        (.conditional word condition consequence alternative)
  | function {word opening closing : Token} {tokens second nodes body} (functionWord : word.kind = .functionWord)
      (leftParen : opening.kind = .leftParen) (parameters : Derives .parameters tokens (.sequence nodes))
      (rightParen : closing.kind = .rightParen) (block : Derives .block second body) :
      Derives (.expression primaryLevel) (word :: opening :: tokens ++ closing :: second)
        (.function word (.sequence nodes) body)
  | noArguments : Derives .arguments [] (.sequence [])
  | arguments {tokens nodes} (expressions : Derives .expressions tokens (.sequence nodes)) :
      Derives .arguments tokens (.sequence nodes)
  | lastExpression {tokens node} (expression : Derives (.expression 0) tokens node) :
      Derives .expressions tokens (.sequence [node])
  | moreExpressions {comma : Token} {first rest node nodes} (expression : Derives (.expression 0) first node)
      (isComma : comma.kind = .comma) (others : Derives .expressions rest (.sequence nodes)) :
      Derives .expressions (first ++ comma :: rest) (.sequence (node :: nodes))
  | noParameters : Derives .parameters [] (.sequence [])
  | parameters {tokens nodes} (names : Derives .names tokens (.sequence nodes)) :
      Derives .parameters tokens (.sequence nodes)
  | lastName {name : Token} (identifier : name.kind = .identifier) :
      Derives .names [name] (.sequence [.identifier name name.literal])
  | moreNames {name comma : Token} {rest nodes} (identifier : name.kind = .identifier)
      (isComma : comma.kind = .comma) (others : Derives .names rest (.sequence nodes)) :
      Derives .names (name :: comma :: rest) (.sequence (.identifier name name.literal :: nodes))

theorem Derives.ne_nil {level : Nat} {tokens : List Token} {node : Node}
    (derives : Derives (.expression level) tokens node) : tokens ≠ [] := by
  generalize phrase : Phrase.expression level = expression at derives
  induction derives generalizing level with
  | looser _ ih => exact ih rfl
  | _ => simp_all

theorem Derives.looser_of_le {level reached : Nat} {tokens : List Token} {node : Node}
    (derives : Derives (.expression reached) tokens node) (le : level ≤ reached) :
    Derives (.expression level) tokens node := by
  induction le with
  | refl => exact derives
  | step _ ih => exact ih derives.looser

end Grammar

end MonkeyLang
