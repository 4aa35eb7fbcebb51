import MonkeyLang.Token.Basic

/-! Lexemes: the longest piece of text that makes one token. Words are runs of letters and underscores, numbers
are runs of digits, operators are matched at their longest spelling, and any other character is a lexeme
by itself. -/

namespace MonkeyLang

/-- A piece cut from the front of a text: its kind, its characters and the text after it. -/
structure Lexeme where
  kind : Kind
  text : List Char
  rest : List Char
deriving DecidableEq

namespace Lexeme

/-- The characters of words: ASCII letters and the underscore. -/
def isLetter (c : Char) : Bool := ('a' ≤ c && c ≤ 'z') || ('A' ≤ c && c ≤ 'Z') || c == '_'

/-- The characters of numbers: ASCII digits. -/
def isDigit (c : Char) : Bool := '0' ≤ c && c ≤ '9'

/-- A text that counts as a letter: letters without an underscore, or an underscore by itself. -/
def isLetterText (text : List Char) : Bool :=
  text == ['_'] || (!text.isEmpty && text.all fun c => isLetter c && c != '_')

/-- A text that counts as a digit: digits and nothing else. -/
def isDigitText (text : List Char) : Bool := !text.isEmpty && text.all isDigit

/-- The characters between lexemes. -/
def isGap (c : Char) : Bool := c == ' ' || c == '\t' || c == '\r' || c == '\n'

/-- The kind of a word: its own for a reserved word. -/
def wordKind (word : List Char) : Kind :=
  match word with
  | ['f', 'n'] => .functionWord
  | ['l', 'e', 't'] => .letWord
  | ['t', 'r', 'u', 'e'] => .trueWord
  | ['f', 'a', 'l', 's', 'e'] => .falseWord
  | ['i', 'f'] => .ifWord
  | ['e', 'l', 's', 'e'] => .elseWord
  | ['r', 'e', 't', 'u', 'r', 'n'] => .returnWord
  | _ => .identifier

/-- The kind of an operator or delimiter of one character. -/
def signKind? (c : Char) : Option Kind :=
  match c with
  | '=' => some .assign
  | '+' => some .plus
  | '-' => some .minus
  | '!' => some .bang
  | '*' => some .asterisk
  | '/' => some .slash
  | '<' => some .less
  | '>' => some .greater
  | ',' => some .comma
  | ';' => some .semicolon
  | '(' => some .leftParen
  | ')' => some .rightParen
  | '\x7b' => some .leftBrace
  | '\x7d' => some .rightBrace
  | _ => none

/-- The longest operator or delimiter that the text begins with. -/
def operator? : List Char → Option Lexeme
  | '=' :: '=' :: rest => some ⟨.equal, ['=', '='], rest⟩
  | '!' :: '=' :: rest => some ⟨.notEqual, ['!', '='], rest⟩
  | c :: rest => (signKind? c).map fun kind => ⟨kind, [c], rest⟩
  | [] => none

/-- The lexeme that a text beginning with `c` begins with. -/
def longest (c : Char) (rest : List Char) : Lexeme :=
  if isLetter c then
    let word := (c :: rest).takeWhile isLetter
    ⟨wordKind word, word, (c :: rest).dropWhile isLetter⟩
  else if isDigit c then
    ⟨.integer, (c :: rest).takeWhile isDigit, (c :: rest).dropWhile isDigit⟩
  else (operator? (c :: rest)).getD ⟨.illegal, [c], rest⟩

theorem append_of_operator? {text : List Char} {lexeme : Lexeme} (found : operator? text = some lexeme) :
    lexeme.text ++ lexeme.rest = text := by
  unfold operator? at found
  split at found <;> simp only [Option.map_eq_some_iff, Option.some.injEq, reduceCtorEq] at found <;> grind

theorem longest_append (c : Char) (rest : List Char) :
    (longest c rest).text ++ (longest c rest).rest = c :: rest := by
  unfold longest
  split
  · exact List.takeWhile_append_dropWhile
  · split
    · exact List.takeWhile_append_dropWhile
    · cases found : operator? (c :: rest) with
      | none => rfl
      | some result => exact append_of_operator? found

theorem longest_ne_nil (c : Char) (rest : List Char) : (longest c rest).text ≠ [] := by
  unfold longest
  split
  next letter => simp [letter]
  next =>
    split
    next digit => simp [digit]
    next =>
      unfold operator?
      split
      · simp
      · simp
      · cases signKind? _ <;> simp
      · simp

theorem longest_rest_length (c : Char) (rest : List Char) : (longest c rest).rest.length ≤ rest.length := by
  have whole := congrArg List.length (longest_append c rest)
  have some := List.length_pos_iff.mpr (longest_ne_nil c rest)
  simp only [List.length_append, List.length_cons] at whole
  omega

end Lexeme

end MonkeyLang
