import MonkeyLang.Node.Equality
import MonkeyLang.Node.Outline

/-! Equality of nodes against equality of their outlines. Nodes are compared by a recursion over nodes and outlines by
one over plain data, and on the outlines of nodes the two agree: what they tell apart is exactly what is left of a tree
when its tokens are reduced to their places. -/

namespace MonkeyLang

namespace Outline

mutual

/-- Plain data compared by content. A truth value counts as the number one or zero, and fields are found by their
names in whatever order they stand. -/
def same : Outline → Outline → Bool
  | nothing, nothing => true
  | text value, text value' => value == value'
  | number value, number value' => value == value'
  | number value, truth value' => value == value'.toInt
  | truth value, number value' => value.toInt == value'
  | truth value, truth value' => value == value'
  | list items, list items' => sameAll items items'
  | node kind position fields, node kind' position' fields' =>
    kind.name == kind'.name && position.line == position'.line && position.column == position'.column &&
      fields.length == fields'.length && sameFields fields fields'
  | _, _ => false
termination_by structural outline => outline

def sameAll : List Outline → List Outline → Bool
  | [], [] => true
  | item :: rest, item' :: rest' => same item item' && sameAll rest rest'
  | _, _ => false
termination_by structural items => items

/-- Each of the fields has a counterpart of its name among the others. -/
def sameFields : List (String × Outline) → List (String × Outline) → Bool
  | [], _ => true
  | (name, value) :: rest, others =>
    (match others.lookup name with
      | some other => same value other
      | none => false) && sameFields rest others
termination_by structural fields => fields

end

variable {kind kind' : NodeKind} {position position' : Position} {fields fields' : List (String × Outline)}
  {name name' name'' : String} {first second third first' second' third' : Outline}

theorem same_other_kind (differ : kind ≠ kind') :
    (node kind position fields).same (node kind' position' fields') = false := by
  have names : (kind.name == kind'.name) = false := by
    revert differ
    cases kind <;> cases kind' <;> decide
  simp only [same, names, Bool.false_and]

theorem same_kind : (node kind position fields).same (node kind position' fields') =
    (position == position' && fields.length == fields'.length && sameFields fields fields') := by
  have places : (position.line == position'.line && position.column == position'.column) = (position == position') := by
    rw [Bool.eq_iff_iff, Bool.and_eq_true, beq_iff_eq, beq_iff_eq, beq_iff_eq, ← Position.mk.injEq]
  simp only [same, beq_self_eq_true, Bool.true_and, places]

theorem same_bare : (node kind position []).same (node kind position' []) = (position == position') := by
  simp [same_kind, sameFields]

theorem same_one_field : (node kind position [(name, first)]).same (node kind position' [(name, first')]) =
    (position == position' && first.same first') := by
  simp [same_kind, sameFields]

theorem same_two_fields (differ : name' ≠ name) :
    (node kind position [(name, first), (name', second)]).same
        (node kind position' [(name, first'), (name', second')]) =
      (position == position' && first.same first' && second.same second') := by
  simp [same_kind, sameFields, List.lookup_cons, beq_false_of_ne differ, Bool.and_assoc]

theorem same_three_fields (differ : name' ≠ name) (last : name'' ≠ name) (last' : name'' ≠ name') :
    (node kind position [(name, first), (name', second), (name'', third)]).same
        (node kind position' [(name, first'), (name', second'), (name'', third')]) =
      (position == position' && first.same first' && second.same second' && third.same third') := by
  simp [same_kind, sameFields, List.lookup_cons, beq_false_of_ne differ, beq_false_of_ne last, beq_false_of_ne last',
    Bool.and_assoc]

end Outline

namespace Node

/-- A token that says where a token stands and nothing else. -/
def mark (token : Option Token) : Option Token := some ⟨.illegal, "", (bare token).position⟩

mutual

/-- The node with every token reduced to its place. -/
def placed : Node → Node
  | bare token => bare (mark token)
  | program statements => program statements.placed
  | letBinding token name value => letBinding (mark token) name.placed value.placed
  | returning token value => returning (mark token) value.placed
  | statement token expression => statement (mark token) expression.placed
  | block token statements => block (mark token) statements.placed
  | identifier token name => identifier (mark token) name
  | integer token value => integer (mark token) value
  | boolean token value => boolean (mark token) value
  | unary token operator right => unary (mark token) operator right.placed
  | binary token left operator right => binary (mark token) left.placed operator right.placed
  | conditional token condition consequence alternative =>
    conditional (mark token) condition.placed consequence.placed alternative.placed
  | function token parameters body => function (mark token) parameters.placed body.placed
  | call token callee arguments => call (mark token) callee.placed arguments.placed
  | missing => missing
  | sequence nodes => sequence (placedAll nodes)
termination_by structural node => node

def placedAll : List Node → List Node
  | [] => []
  | node :: rest => node.placed :: placedAll rest
termination_by structural nodes => nodes

end

theorem position_mark (token : Option Token) : (bare (mark token)).position = (bare token).position := rfl

theorem samePlace_eq (first second : Option Token) :
    samePlace first second = ((bare first).position == (bare second).position) := by
  cases first <;> cases second <;> rfl

theorem samePlace_iff {first second : Option Token} : samePlace first second = true ↔ mark first = mark second := by
  simp only [samePlace_eq, beq_iff_eq, mark, Option.some.injEq, Token.mk.injEq, true_and]

mutual

/-- Sameness is equality of all that is not said by a token. -/
theorem same_iff_placed : ∀ first second : Node, first.same second = true ↔ first.placed = second.placed
  | bare _, second | missing, second | identifier _ _, second | integer _ _, second | boolean _ _, second => by
    cases second <;> simp [same, placed, samePlace_iff]
  | program child, second | returning _ child, second | statement _ child, second | block _ child, second
  | unary _ _ child, second => by
    cases second <;> simp [same, placed, samePlace_iff, same_iff_placed child, and_assoc]
  | letBinding _ left right, second | binary _ left _ right, second | function _ left right, second
  | call _ left right, second => by
    cases second <;> simp [same, placed, samePlace_iff, same_iff_placed left, same_iff_placed right, and_assoc]
  | conditional _ condition consequence alternative, second => by
    cases second <;> simp [same, placed, samePlace_iff, same_iff_placed condition, same_iff_placed consequence,
      same_iff_placed alternative, and_assoc]
  | sequence nodes, second => by cases second <;> simp [same, placed, sameAll_iff_placedAll nodes]
termination_by structural first => first

theorem sameAll_iff_placedAll : ∀ first second : List Node,
    sameAll first second = true ↔ placedAll first = placedAll second
  | [], second => by cases second <;> simp [sameAll, placedAll]
  | node :: rest, second => by
    cases second <;> simp [sameAll, placedAll, same_iff_placed node, sameAll_iff_placedAll rest]
termination_by structural first => first

end

mutual

theorem outline_placed : ∀ node : Node, node.placed.outline = node.outline
  | bare _ | missing | identifier _ _ | integer _ _ | boolean _ _ => rfl
  | program child | returning _ child | statement _ child | block _ child | unary _ _ child => by
    simp only [placed, outline, position_mark, outline_placed child]
  | letBinding _ left right | binary _ left _ right | function _ left right | call _ left right => by
    simp only [placed, outline, position_mark, outline_placed left, outline_placed right]
  | conditional _ condition consequence alternative => by
    simp only [placed, outline, position_mark, outline_placed condition, outline_placed consequence,
      outline_placed alternative]
  | sequence nodes => by simp only [placed, outline, outlines_placedAll nodes]
termination_by structural node => node

theorem outlines_placedAll : ∀ nodes : List Node, outlines (placedAll nodes) = outlines nodes
  | [] => rfl
  | node :: rest => by simp only [placedAll, outlines, outline_placed node, outlines_placedAll rest]
termination_by structural nodes => nodes

end

-- By recursion over the first node. A second one of another kind is told apart by the kind on both sides, so that only nodes
-- of one kind compare fields, and their fields have the same names in the same order.

mutual

/-- Outlines of nodes are compared as the nodes are. -/
theorem same_outline : ∀ first second : Node, first.outline.same second.outline = first.same second
  | bare _, second => by
    cases second <;> simp [outline, same, samePlace_eq, Outline.same_other_kind, Outline.same_bare, Outline.same]
  | missing, second => by cases second <;> simp [outline, same, Outline.same]
  | identifier _ _, second | integer _ _, second | boolean _ _, second => by
    cases second <;> simp [outline, same, samePlace_eq, Outline.same_other_kind, Outline.same_one_field, Outline.same]
  | program child, second | returning _ child, second | statement _ child, second | block _ child, second => by
    cases second <;> simp [outline, same, samePlace_eq, Outline.same_other_kind, Outline.same_one_field, Outline.same,
      same_outline child]
  | letBinding _ left right, second | function _ left right, second | call _ left right, second => by
    cases second <;> simp [outline, same, samePlace_eq, Outline.same_other_kind, Outline.same_two_fields, Outline.same,
      same_outline left, same_outline right]
  | unary _ _ child, second => by
    cases second <;> simp [outline, same, samePlace_eq, Outline.same_other_kind, Outline.same_two_fields, Outline.same,
      same_outline child]
  | binary _ left _ right, second => by
    cases second <;> simp [outline, same, samePlace_eq, Outline.same_other_kind, Outline.same_three_fields, Outline.same,
      same_outline left, same_outline right]
  | conditional _ condition consequence alternative, second => by
    cases second <;> simp [outline, same, samePlace_eq, Outline.same_other_kind, Outline.same_three_fields, Outline.same,
      same_outline condition, same_outline consequence, same_outline alternative]
  | sequence nodes, second => by
    cases second <;> simp [outline, Outline.same, same, sameAll_outlines nodes]
termination_by structural first => first

theorem sameAll_outlines : ∀ first second : List Node,
    Outline.sameAll (outlines first) (outlines second) = sameAll first second
  | [], second => by cases second <;> rfl
  | node :: rest, second => by
    cases second with
    | nil => rfl
    | cons node' rest' =>
      simp only [outlines, Outline.sameAll, sameAll, same_outline node, sameAll_outlines rest]
termination_by structural first => first

end

theorem same_equivalence : Equivalence fun first second : Node => first.same second = true where
  refl node := (same_iff_placed node node).mpr rfl
  symm {first second} agree := (same_iff_placed second first).mpr ((same_iff_placed first second).mp agree).symm
  trans {first second third} agree agree' :=
    (same_iff_placed first third).mpr
      (((same_iff_placed first second).mp agree).trans ((same_iff_placed second third).mp agree'))

theorem same_iff_outline_eq (first second : Node) : first.same second = true ↔ first.outline = second.outline := by
  constructor
  · intro agree
    rw [← outline_placed first, (same_iff_placed first second).mp agree, outline_placed]
  · intro equal
    rw [← same_outline, equal, same_outline]
    exact same_equivalence.refl second

/-- Nodes are the same exactly where the outlines are, as data compared by content or as outlines that are equal. So
sameness is an equivalence, and what it leaves out is the kind and the text of the tokens and nothing else. -/
theorem same_iff_same_outlines :
    (∀ first second : Node, first.same second = true ↔ first.outline.same second.outline = true) ∧
    (∀ first second : Node, first.same second = true ↔ first.outline = second.outline) ∧
    Equivalence (fun first second : Node => first.same second = true) ∧
    ∀ first second : Node, first.same second = true ↔ first.placed = second.placed := by
  refine ⟨fun first second => ?_, same_iff_outline_eq, same_equivalence, same_iff_placed⟩
  rw [same_outline]

end Node

end MonkeyLang
