import MonkeyLang.Numeral
import MonkeyLang.Token.Basic

/-! Faults: what stops the work on a program from outside its own rules. Syntax errors are recorded and runtime
errors are values; a fault is neither and reaches the caller. -/

namespace MonkeyLang

/-- Levels of nesting that parsing, evaluation and rendering go down before they give up. -/
def defaultLimit : Nat := 4000

/-- What a node or a value can be asked for. -/
inductive Feature
  | kind
  | value
  | type
  | text
  | literal
deriving DecidableEq

def Feature.name : Feature → String
  | kind => "kind"
  | value => "value"
  | type => "type"
  | text => "inspect"
  | literal => "token_literal"

inductive ListUse
  | items
  | first
  | count
deriving DecidableEq

/-- The causes of giving up. Where a tree is at fault, they name the sort of thing that was found. -/
inductive Fault
  /-- The nesting is deeper than the limit. -/
  | exhausted
  | numeral (fault : Numeral.Fault)
  | noValue
  /-- A node of no particular kind is evaluated. -/
  | noMeaning (position : Position)
  /-- A node of no particular kind is rendered. -/
  | noRendering
  /-- A thing does not have what it is asked for. -/
  | lacks (sort : String) (feature : Feature)
  /-- A thing that is no list is used as one. -/
  | noList (sort : String) (use : ListUse)
  /-- A thing that may change is bound as if it were a name. -/
  | noName (sort : String)
deriving DecidableEq

/-- The sort of what is missing. -/
def Fault.nothing : String := "NoneType"

def Fault.message : Fault → String
  | .exhausted => "maximum recursion depth exceeded"
  | .numeral fault => fault.message
  | .noValue => ""
  | .noMeaning position =>
    "No evaluator method for node kind 'node' (line " ++ toString position.line ++ ", col " ++
      toString position.column ++ ")"
  | .noRendering => "No rendering for node kind 'node'"
  | .lacks sort feature => "'" ++ sort ++ "' object has no attribute '" ++ feature.name ++ "'"
  | .noList sort .items => "'" ++ sort ++ "' object is not iterable"
  | .noList sort .first => "'" ++ sort ++ "' object is not subscriptable"
  | .noList sort .count => "object of type '" ++ sort ++ "' has no len()"
  | .noName sort => "unhashable type: '" ++ sort ++ "'"

/-- What keeps an integer from being written. -/
def Fault.ofInteger? (value : Int) : Option Fault :=
  if Numeral.Writable value then none else some (.numeral .unwritable)

theorem Fault.ofInteger?_eq_none {value : Int} (writable : Numeral.Writable value) : ofInteger? value = none :=
  if_pos writable

end MonkeyLang
