import MonkeyLang.Fault
import MonkeyLang.Node.Basic
import MonkeyLang.Text.Quoted

/-! Outlines: nodes as plain data. An outline names the kind of a node, its position and its fields, and its
description shows the same tree as nested constructors without the positions. -/

namespace MonkeyLang

/-- Data without behaviour: what a field of a node may hold. -/
inductive Outline
  | nothing
  | text (value : String)
  | number (value : Int)
  | truth (value : Bool)
  | list (items : List Outline)
  | node (kind : NodeKind) (position : Position) (fields : List (String × Outline))

namespace Node

mutual

def outline : Node → Outline
  | bare token => .node .bare (bare token).position []
  | program statements => .node .program .nowhere [("statements", statements.outline)]
  | letBinding token name value =>
    .node .letBinding (bare token).position [("name", name.outline), ("value", value.outline)]
  | returning token value => .node .returning (bare token).position [("value", value.outline)]
  | statement token expression =>
    .node .statement (bare token).position [("expression", expression.outline)]
  | block token statements =>
    .node .block (bare token).position [("statements", statements.outline)]
  | identifier token name => .node .identifier (bare token).position [("value", .text name)]
  | integer token value => .node .integer (bare token).position [("value", .number value)]
  | boolean token value => .node .boolean (bare token).position [("value", .truth value)]
  | unary token operator right =>
    .node .unary (bare token).position [("operator", .text operator), ("right", right.outline)]
  | binary token left operator right =>
    .node .binary (bare token).position
      [("left", left.outline), ("operator", .text operator), ("right", right.outline)]
  | conditional token condition consequence alternative =>
    .node .conditional (bare token).position
      [("condition", condition.outline), ("consequence", consequence.outline),
        ("alternative", alternative.outline)]
  | function token parameters body =>
    .node .function (bare token).position
      [("parameters", parameters.outline), ("body", body.outline)]
  | call token callee arguments =>
    .node .call (bare token).position
      [("function", callee.outline), ("arguments", arguments.outline)]
  | missing => .nothing
  | sequence nodes => .list (outlines nodes)
termination_by structural node => node

def outlines : List Node → List Outline
  | [] => []
  | node :: rest => node.outline :: outlines rest
termination_by structural nodes => nodes

end

end Node

namespace Outline

mutual

/-- The outline as nested constructors, each with its kind and its fields by name. -/
def describe : Outline → String
  | nothing => "None"
  | text value => Text.quote value
  | number value => toString value
  | truth value => if value then "True" else "False"
  | list items => "[" ++ ", ".intercalate (describeAll items) ++ "]"
  | node kind _ fields =>
    kind.constructorName ++ "(" ++ ", ".intercalate (kind.name :: describeFields fields) ++ ")"
termination_by structural outline => outline

def describeAll : List Outline → List String
  | [] => []
  | item :: rest => item.describe :: describeAll rest
termination_by structural items => items

def describeFields : List (String × Outline) → List String
  | [] => []
  | (name, value) :: rest => (name ++ "=" ++ value.describe) :: describeFields rest
termination_by structural fields => fields

end

mutual

/-- What keeps an outline from being described in room for so many levels: the first of its parts for which there is no
room, or the first of its numbers that cannot be written. -/
def describeFault? : Outline → Nat → Option Fault
  | nothing, _ | text _, _ | truth _, _ => none
  | number value, _ => Fault.ofInteger? value
  | list items, room => describeFaultOfAll? items room
  | node _ _ _, 0 => some .exhausted
  | node _ _ fields, room + 1 => describeFaultOfFields? fields room
termination_by structural outline => outline

/-- A list is a level of its own. -/
def describeFaultOfAll? : List Outline → Nat → Option Fault
  | _, 0 => some .exhausted
  | [], _ + 1 => none
  | item :: rest, room + 1 => (item.describeFault? room).or (describeFaultOfAll? rest (room + 1))
termination_by structural items => items

def describeFaultOfFields? : List (String × Outline) → Nat → Option Fault
  | [], _ => none
  | (_, value) :: rest, room => (value.describeFault? room).or (describeFaultOfFields? rest room)
termination_by structural fields => fields

end

end Outline

def Node.describe (node : Node) : String := node.outline.describe

end MonkeyLang
