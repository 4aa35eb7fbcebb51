import MonkeyLang.Text.Blank
import MonkeyLang.Text.Quoted

/-! Modes: what is shown for a text. -/

namespace MonkeyLang

/-- A text is evaluated, cut into tokens or read into a tree, and the result is shown. -/
inductive Mode
  | eval
  | tokens
  | ast
deriving DecidableEq

namespace Mode

def name : Mode → String
  | eval => "eval"
  | tokens => "tokens"
  | ast => "ast"

def all : List Mode := [eval, tokens, ast]

def ofName? (name : String) : Option Mode := all.find? fun mode => mode.name = name

theorem ofName?_name (mode : Mode) : ofName? mode.name = some mode := by cases mode <;> decide

/-- What a line asks for that starts with the mode command. -/
inductive Request
  | accepted (mode : Mode)
  | refused (requested : String)
deriving DecidableEq

def command : List Char := ":mode".toList

/-- A line that starts with the mode command asks for the mode that the rest of it names; a line that does not
asks for nothing. -/
def request? (line : String) : Option Request :=
  if command.isPrefixOf line.toList then
    let requested := String.ofList (Text.trim (line.toList.drop command.length))
    some (match ofName? requested with
      | some mode => .accepted mode
      | none => .refused requested)
  else none

def Request.answer : Request → String
  | accepted mode => "[mode] >>> " ++ mode.name ++ "\n"
  | refused requested =>
    "[error] >>> Unknown mode " ++ Text.quote requested ++ "; choose one of " ++
      ", ".intercalate (all.map name) ++ "\n"

end Mode

end MonkeyLang
