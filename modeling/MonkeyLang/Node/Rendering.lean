import MonkeyLang.Node.Outline

/-! Rendering: the canonical source text of a node. Operators are put in parentheses with their operands and
statements end in a semicolon, so that no precedence is needed to read the text back. -/

namespace MonkeyLang.Node

mutual

/-- The source text of a node, empty where there is none. A list in the place of a node is shown as a list of
descriptions. -/
def render : Node → String
  | program (sequence statements) => " ".intercalate (renderAll statements)
  | letBinding _ name value => "let " ++ name.render ++ " = " ++ value.render ++ ";"
  | returning _ value => "return " ++ value.render ++ ";"
  | statement _ expression => expression.render ++ ";"
  | block _ (sequence []) => "\x7b \x7d"
  | block _ (sequence statements) => "\x7b " ++ " ".intercalate (renderAll statements) ++ " \x7d"
  | identifier _ name => name
  | integer _ value => toString value
  | boolean _ value => if value then "true" else "false"
  | unary _ operator right => "(" ++ operator ++ right.render ++ ")"
  | binary _ left operator right => "(" ++ left.render ++ " " ++ operator ++ " " ++ right.render ++ ")"
  | conditional _ condition consequence missing =>
    "if (" ++ condition.render ++ ") " ++ consequence.render
  | conditional _ condition consequence alternative =>
    "if (" ++ condition.render ++ ") " ++ consequence.render ++ " else " ++ alternative.render
  | function _ (sequence parameters) body =>
    "fn(" ++ ", ".intercalate (renderAll parameters) ++ ") " ++ body.render
  | call _ callee (sequence arguments) =>
    callee.render ++ "(" ++ ", ".intercalate (renderAll arguments) ++ ")"
  | missing => "None"
  | sequence nodes => (sequence nodes).describe
  | bare _ | program _ | block _ _ | function _ _ _ | call _ _ _ => ""
termination_by structural node => node

def renderAll : List Node → List String
  | [] => []
  | node :: rest => node.render :: renderAll rest
termination_by structural nodes => nodes

end

mutual

/-- What keeps a node from having a source text in room for so many levels: the first part of it for which there is no
room, the first node of no particular kind, the first integer that cannot be written, or the first thing that is no list
where a list is written out. -/
def renderFault? : Node → Nat → Option Fault
  | _, 0 => some .exhausted
  | bare _, _ + 1 => some .noRendering
  | program (sequence nodes), room + 1 | block _ (sequence nodes), room + 1 => renderFaultOfAll? nodes room
  | letBinding _ first second, room + 1 | binary _ first _ second, room + 1 =>
    (first.renderFault? room).or (second.renderFault? room)
  | returning _ child, room + 1 | statement _ child, room + 1 | unary _ _ child, room + 1 => child.renderFault? room
  | conditional _ condition consequence alternative, room + 1 =>
    (condition.renderFault? room).or ((consequence.renderFault? room).or (alternative.renderFault? room))
  | function _ (sequence parameters) body, room + 1 => (renderFaultOfAll? parameters room).or (body.renderFault? room)
  | call _ callee (sequence arguments), room + 1 => (renderFaultOfAll? arguments room).or (callee.renderFault? room)
  | program other, _ + 1 | block _ other, _ + 1 | function _ other _, _ + 1 | call _ _ other, _ + 1 =>
    some (.noList other.sort .items)
  | integer _ value, _ + 1 => Fault.ofInteger? value
  | sequence nodes, room + 1 => (sequence nodes).outline.describeFault? (room + 1)
  | identifier _ _, _ + 1 | boolean _ _, _ + 1 | missing, _ + 1 => none
termination_by structural node => node

/-- A list is a level of its own. -/
def renderFaultOfAll? : List Node → Nat → Option Fault
  | _, 0 => some .exhausted
  | [], _ + 1 => none
  | node :: rest, room + 1 => (node.renderFault? room).or (renderFaultOfAll? rest (room + 1))
termination_by structural nodes => nodes

end

/-- The source text of a node, if it can be had with so many levels. -/
def text? (limit : Nat) (node : Node) : Except Fault String :=
  match node.renderFault? limit with
  | some fault => .error fault
  | none => .ok node.render

end MonkeyLang.Node
