import MonkeyLang.Text.Quoted

/-! Tokens: what the text of a program is cut into. A token has a kind, the text that it was cut from and the
position of its first character. -/

namespace MonkeyLang

/-- A line and a column. Text read from its start begins at line 1, column 1; a node without a token stands
at 0:0. -/
structure Position where
  line : Int
  column : Int
deriving DecidableEq

namespace Position

def start : Position := ⟨1, 1⟩

/-- The position of what has no place in a text. -/
def nowhere : Position := ⟨0, 0⟩

/-- The position after a character that stands here: a line feed ends its line. -/
def after (position : Position) (c : Char) : Position :=
  if c = '\n' then ⟨position.line + 1, 1⟩ else ⟨position.line, position.column + 1⟩

def afterAll (position : Position) (text : List Char) : Position := text.foldl after position

def text (position : Position) : String := toString position.line ++ ":" ++ toString position.column

@[simp] theorem afterAll_nil (position : Position) : position.afterAll [] = position := rfl

@[simp] theorem afterAll_cons (position : Position) (c : Char) (rest : List Char) :
    position.afterAll (c :: rest) = (position.after c).afterAll rest := rfl

theorem afterAll_append (position : Position) (first second : List Char) :
    position.afterAll (first ++ second) = (position.afterAll first).afterAll second :=
  List.foldl_append

end Position

/-- The kinds of tokens. Token lists may come from elsewhere, so a kind may also be one that no text has. -/
inductive Kind
  | illegal
  | endOfInput
  | identifier
  | integer
  | assign
  | plus
  | minus
  | bang
  | asterisk
  | slash
  | less
  | greater
  | equal
  | notEqual
  | comma
  | semicolon
  | leftParen
  | rightParen
  | leftBrace
  | rightBrace
  | functionWord
  | letWord
  | trueWord
  | falseWord
  | ifWord
  | elseWord
  | returnWord
  | other (name : String)
deriving DecidableEq

namespace Kind

def name : Kind → String
  | illegal => "ILLEGAL"
  | endOfInput => "EOF"
  | identifier => "IDENT"
  | integer => "INT"
  | assign => "ASSIGN"
  | plus => "PLUS"
  | minus => "MINUS"
  | bang => "BANG"
  | asterisk => "ASTERISK"
  | slash => "SLASH"
  | less => "LT"
  | greater => "GT"
  | equal => "EQ"
  | notEqual => "NOT_EQ"
  | comma => "COMMA"
  | semicolon => "SEMICOLON"
  | leftParen => "LPAREN"
  | rightParen => "RPAREN"
  | leftBrace => "LBRACE"
  | rightBrace => "RBRACE"
  | functionWord => "FUNCTION"
  | letWord => "LET"
  | trueWord => "TRUE"
  | falseWord => "FALSE"
  | ifWord => "IF"
  | elseWord => "ELSE"
  | returnWord => "RETURN"
  | other name => name

/-- The kinds that texts have. -/
def known : List Kind :=
  [illegal, endOfInput, identifier, integer, assign, plus, minus, bang, asterisk, slash, less, greater, equal,
    notEqual, comma, semicolon, leftParen, rightParen, leftBrace, rightBrace, functionWord, letWord, trueWord,
    falseWord, ifWord, elseWord, returnWord]

def ofName (name : String) : Kind := (known.find? fun kind => kind.name = name).getD (other name)

end Kind

/-- A token: its kind, its text and the position of its first character. -/
structure Token where
  kind : Kind
  literal : String
  position : Position
deriving DecidableEq

namespace Token

/-- The end of a text, which has no characters. -/
def endAt (position : Position) : Token := ⟨.endOfInput, "", position⟩

def describe (token : Token) : String := "Token(" ++ token.kind.name ++ ", " ++ token.literal ++ ")"

/-- A token cannot be changed; this is said to whoever tries to set a field of it. -/
def refusal (field : String) : String := "Token is immutable; cannot set " ++ Text.quote field

end Token

end MonkeyLang
