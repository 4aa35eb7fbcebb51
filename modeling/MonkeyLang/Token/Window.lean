import MonkeyLang.Token.Cursor

/-! A window on a text: reading single characters and tokens at an index that may lie anywhere. An index before
the text counts from its end when a character is read there; at an index past the end nothing is left. -/

namespace MonkeyLang

/-- A text, the index of the next character and the position that this character is given. -/
structure Window where
  source : List Char
  index : Int
  position : Position
deriving DecidableEq

/-- Reading a character fails at the end of the text, and where not even counting from the end reaches. -/
inductive WindowFault
  | pastEnd (index line : Int)
  | beforeStart
deriving DecidableEq

def WindowFault.message : WindowFault → String
  | .pastEnd index line =>
    "CharacterStreamError: Attempted to read past end of source at position=<" ++ toString index ++
      ">, line=<" ++ toString line ++ ">"
  | .beforeStart => "string index out of range"

namespace Window

def size (window : Window) : Int := window.source.length

def atEnd (window : Window) : Bool := window.size ≤ window.index

/-- The character at an index inside the text. -/
def charAt? (window : Window) (index : Int) : Option Char :=
  if index < 0 then none else window.source[index.toNat]?

/-- The character that is some way ahead of the window or, by a negative offset, behind it. -/
def peek (window : Window) (offset : Int) : Option Char := window.charAt? (window.index + offset)

/-- The next character; before the text it is counted from the end. -/
def current (window : Window) : Except WindowFault (Option Char) :=
  if window.atEnd then .ok none
  else match window.charAt? (if window.index < 0 then window.size + window.index else window.index) with
    | some c => .ok (some c)
    | none => .error .beforeStart

def next (window : Window) : Except WindowFault (Char × Window) :=
  match window.current with
  | .ok (some c) => .ok (c, { window with index := window.index + 1, position := window.position.after c })
  | .ok none => .error (.pastEnd window.index window.position.line)
  | .error fault => .error fault

/-- Whatever stands before the text is passed over: the window moves to the first character. -/
def enter (window : Window) : Except WindowFault Window :=
  if window.index < 0 then
    if window.index < -window.size then .error .beforeStart
    else .ok { window with
      index := 0
      position := window.position.afterAll (window.source.drop (window.size + window.index).toNat) }
  else .ok window

def cursor (window : Window) : Cursor := ⟨window.source.drop window.index.toNat, window.position⟩

/-- The window at a cursor further on in its text. -/
def moveTo (window : Window) (cursor : Cursor) : Window :=
  { window with
    index := window.index + (window.cursor.rest.length - cursor.rest.length : Nat)
    position := cursor.position }

def skipGap (window : Window) : Except WindowFault Window :=
  window.enter.map fun entered => entered.moveTo entered.cursor.skipGap

def nextToken (window : Window) : Except WindowFault (Token × Window) :=
  window.enter.map fun entered =>
    let (token, cursor) := entered.cursor.nextToken
    (token, entered.moveTo cursor)

/-- Reads an operator or delimiter if one stands directly at the window. -/
def matchOperator (window : Window) : Option (Token × Window) :=
  if window.index < 0 then none
  else match Lexeme.operator? window.cursor.rest with
    | none => none
    | some lexeme =>
      some (⟨lexeme.kind, String.ofList lexeme.text, window.position⟩,
        window.moveTo ⟨lexeme.rest, window.position.afterAll lexeme.text⟩)

end Window

end MonkeyLang
