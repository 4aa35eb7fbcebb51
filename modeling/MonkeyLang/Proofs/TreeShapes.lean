import MonkeyLang.Node.Rendering

/-! The shape of a tree and its outline. Two trees have one shape where their outlines differ in positions only, and the
text of a tree depends on its shape alone. -/

namespace MonkeyLang

namespace Outline

mutual

/-- The outline with all positions taken out. -/
def unplaced : Outline → Outline
  | nothing => nothing
  | text value => text value
  | number value => number value
  | truth value => truth value
  | list items => list (unplacedAll items)
  | node kind _ fields => node kind .nowhere (unplacedFields fields)
termination_by structural outline => outline

def unplacedAll : List Outline → List Outline
  | [] => []
  | item :: rest => item.unplaced :: unplacedAll rest
termination_by structural items => items

def unplacedFields : List (String × Outline) → List (String × Outline)
  | [] => []
  | (name, value) :: rest => (name, value.unplaced) :: unplacedFields rest
termination_by structural fields => fields

end

end Outline

namespace Node

mutual

theorem outline_shape : ∀ node : Node, node.shape.outline = node.outline.unplaced
  | bare _ | missing => rfl
  | identifier _ _ | integer _ _ | boolean _ _ => rfl
  | program child => by
    simp only [shape, outline, Outline.unplaced, Outline.unplacedFields, outline_shape child]
  | returning _ child | statement _ child | block _ child | unary _ _ child => by
    simp only [shape, outline, Outline.unplaced, Outline.unplacedFields, outline_shape child]
    rfl
  | letBinding _ first second | binary _ first _ second | function _ first second | call _ first second => by
    simp only [shape, outline, Outline.unplaced, Outline.unplacedFields, outline_shape first, outline_shape second]
    rfl
  | conditional _ condition consequence alternative => by
    simp only [shape, outline, Outline.unplaced, Outline.unplacedFields, outline_shape condition,
      outline_shape consequence, outline_shape alternative]
    rfl
  | sequence nodes => by simp only [shape, outline, Outline.unplaced, outlines_shapes nodes]
termination_by structural node => node

theorem outlines_shapes : ∀ nodes : List Node, outlines (shapes nodes) = Outline.unplacedAll (outlines nodes)
  | [] => rfl
  | node :: rest => by simp only [shapes, outlines, Outline.unplacedAll, outline_shape node, outlines_shapes rest]
termination_by structural nodes => nodes

end

mutual

theorem shape_of_outline : ∀ first second : Node, first.shape.outline = second.shape.outline → first.shape = second.shape
  | bare _, second | missing, second | identifier _ _, second | integer _ _, second | boolean _ _, second => by
    cases second <;> simp [shape, outline]
  | program child, second | returning _ child, second | statement _ child, second | block _ child, second => by
    cases second <;> simp only [shape, outline, Outline.node.injEq, reduceCtorEq, false_and, false_implies, List.cons.injEq,
      Prod.mk.injEq, true_and, and_true, program.injEq, returning.injEq, statement.injEq, block.injEq]
    exact shape_of_outline _ _
  | unary _ operator child, second => by
    cases second <;> simp [shape, outline]
    exact fun same rest => ⟨same, shape_of_outline _ _ rest⟩
  | letBinding _ left right, second | function _ left right, second | call _ left right, second => by
    cases second <;> simp [shape, outline]
    exact fun one other => ⟨shape_of_outline _ _ one, shape_of_outline _ _ other⟩
  | binary _ left operator right, second => by
    cases second <;> simp [shape, outline]
    exact fun one same other => ⟨shape_of_outline _ _ one, same, shape_of_outline _ _ other⟩
  | conditional _ condition consequence alternative, second => by
    cases second <;> simp [shape, outline]
    exact fun test yes no => ⟨shape_of_outline _ _ test, shape_of_outline _ _ yes, shape_of_outline _ _ no⟩
  | sequence nodes, second => by
    cases second <;> simp [shape, outline]
    exact shapes_of_outlines _ _
termination_by structural node => node

theorem shapes_of_outlines : ∀ first second : List Node, outlines (shapes first) = outlines (shapes second) →
    shapes first = shapes second
  | [], second => by cases second <;> simp [shapes, outlines]
  | node :: rest, second => by
    cases second with
    | nil => simp [shapes, outlines]
    | cons node' rest' =>
      simp only [shapes, outlines, List.cons.injEq]
      exact fun ⟨first, others⟩ => ⟨shape_of_outline _ _ first, shapes_of_outlines _ _ others⟩
termination_by structural nodes => nodes

end

/-- Two nodes have one shape where their outlines are the same but for the positions. -/
theorem shape_eq_iff {first second : Node} :
    first.shape = second.shape ↔ first.outline.unplaced = second.outline.unplaced := by
  rw [← outline_shape, ← outline_shape]
  exact ⟨congrArg outline, shape_of_outline first second⟩

end Node

namespace Outline

mutual

theorem describe_unplaced : ∀ outline : Outline, outline.unplaced.describe = outline.describe
  | nothing | text _ | number _ | truth _ => rfl
  | list items => by simp only [unplaced, describe, describeAll_unplaced items]
  | node kind _ fields => by simp only [unplaced, describe, describeFields_unplaced fields]
termination_by structural outline => outline

theorem describeAll_unplaced : ∀ items : List Outline, describeAll (unplacedAll items) = describeAll items
  | [] => rfl
  | item :: rest => by simp only [unplacedAll, describeAll, describe_unplaced item, describeAll_unplaced rest]
termination_by structural items => items

theorem describeFields_unplaced : ∀ fields : List (String × Outline),
    describeFields (unplacedFields fields) = describeFields fields
  | [] => rfl
  | (name, value) :: rest => by
    simp only [unplacedFields, describeFields, describe_unplaced value, describeFields_unplaced rest]
termination_by structural fields => fields

end

mutual

theorem describeFault_unplaced : ∀ (outline : Outline) (room : Nat),
    outline.unplaced.describeFault? room = outline.describeFault? room
  | nothing, _ | text _, _ | number _, _ | truth _, _ | node _ _ _, 0 => rfl
  | list items, room => by simp only [unplaced, describeFault?, describeFaultOfAll_unplaced items]
  | node kind _ fields, room + 1 => by simp only [unplaced, describeFault?, describeFaultOfFields_unplaced fields]
termination_by structural outline => outline

theorem describeFaultOfAll_unplaced : ∀ (items : List Outline) (room : Nat),
    describeFaultOfAll? (unplacedAll items) room = describeFaultOfAll? items room
  | [], _ => rfl
  | _ :: _, 0 => rfl
  | item :: rest, room + 1 => by
    simp only [unplacedAll, describeFaultOfAll?, describeFault_unplaced item, describeFaultOfAll_unplaced rest]
termination_by structural items => items

theorem describeFaultOfFields_unplaced : ∀ (fields : List (String × Outline)) (room : Nat),
    describeFaultOfFields? (unplacedFields fields) room = describeFaultOfFields? fields room
  | [], _ => rfl
  | (name, value) :: rest, room => by
    simp only [unplacedFields, describeFaultOfFields?, describeFault_unplaced value, describeFaultOfFields_unplaced rest]
termination_by structural fields => fields

end

end Outline

namespace Node

theorem render_alternative {token : Option Token} {condition consequence alternative : Node}
    (some : alternative ≠ missing) : (conditional token condition consequence alternative).render =
      "if (" ++ condition.render ++ ") " ++ consequence.render ++ " else " ++ alternative.render := by
  cases alternative <;> simp [render] at some ⊢

theorem describe_shape (node : Node) : node.shape.describe = node.describe := by
  rw [describe, describe, outline_shape, Outline.describe_unplaced]

mutual

/-- Positions leave no trace in the text of a node. -/
theorem render_shape : ∀ node : Node, node.shape.render = node.render
  | bare _ | missing | identifier _ _ | integer _ _ | boolean _ _ => rfl
  | letBinding _ first second => by simp only [shape, render, render_shape first, render_shape second]
  | binary _ first _ second => by simp only [shape, render, render_shape first, render_shape second]
  | returning _ child | statement _ child | unary _ _ child => by simp only [shape, render, render_shape child]
  | program child => by
    cases child with
    | sequence nodes => simp only [shape, render, renderAll_shapes nodes]
    | _ => rfl
  | block _ child => by
    match child with
    | sequence [] => rfl
    | sequence (node :: rest) => simp only [shape, shapes, render, renderAll, render_shape node, renderAll_shapes rest]
    | bare _ | program _ | letBinding _ _ _ | returning _ _ | statement _ _ | block _ _ | identifier _ _ | integer _ _
    | boolean _ _ | unary _ _ _ | binary _ _ _ _ | conditional _ _ _ _ | function _ _ _ | call _ _ _ | missing => rfl
  | function _ child body => by
    cases child with
    | sequence nodes => simp only [shape, render, renderAll_shapes nodes, render_shape body]
    | _ => rfl
  | call _ callee child => by
    cases child with
    | sequence nodes => simp only [shape, render, renderAll_shapes nodes, render_shape callee]
    | _ => rfl
  | conditional _ condition consequence alternative => by
    have third := render_shape alternative
    by_cases none : alternative = missing
    · subst none
      simp only [shape, render, render_shape condition, render_shape consequence]
    · have some : alternative.shape ≠ missing := by cases alternative <;> simp [shape] at none ⊢
      rw [shape, render_alternative none, render_alternative some, render_shape condition, render_shape consequence, third]
  | sequence nodes => describe_shape (sequence nodes)
termination_by structural node => node

theorem renderAll_shapes : ∀ nodes : List Node, renderAll (shapes nodes) = renderAll nodes
  | [] => rfl
  | node :: rest => by simp only [shapes, renderAll, render_shape node, renderAll_shapes rest]
termination_by structural nodes => nodes

end

theorem elements_shape (node : Node) (use : ListUse) : node.shape.elements use = (node.elements use).map shapes := by
  cases node <;> rfl

mutual

/-- Whether a node has a text does not depend on positions either. -/
theorem renderFault_shape : ∀ (node : Node) (room : Nat), node.shape.renderFault? room = node.renderFault? room
  | node, 0 => by cases node <;> rfl
  | bare _, _ + 1 | missing, _ + 1 | identifier _ _, _ + 1 | integer _ _, _ + 1 | boolean _ _, _ + 1 => rfl
  | sequence nodes, room + 1 => by
    have same := outline_shape (sequence nodes)
    simp only [shape] at same
    simp only [shape, renderFault?, same, Outline.describeFault_unplaced]
  | letBinding _ first second, room + 1 | binary _ first _ second, room + 1 => by
    simp only [shape, renderFault?, renderFault_shape first, renderFault_shape second]
  | returning _ child, room + 1 | statement _ child, room + 1 | unary _ _ child, room + 1 => by
    simp only [shape, renderFault?, renderFault_shape child]
  | conditional _ condition consequence alternative, room + 1 => by
    simp only [shape, renderFault?, renderFault_shape condition, renderFault_shape consequence,
      renderFault_shape alternative]
  | program child, room + 1 | block _ child, room + 1 => by
    cases child with
    | sequence nodes => simp only [shape, renderFault?, renderFaultOfAll_shapes nodes]
    | _ => rfl
  | function _ child body, room + 1 => by
    cases child with
    | sequence nodes => simp only [shape, renderFault?, renderFaultOfAll_shapes nodes, renderFault_shape body]
    | _ => rfl
  | call _ callee child, room + 1 => by
    cases child with
    | sequence nodes => simp only [shape, renderFault?, renderFaultOfAll_shapes nodes, renderFault_shape callee]
    | _ => rfl
termination_by structural node => node

theorem renderFaultOfAll_shapes : ∀ (nodes : List Node) (room : Nat),
    renderFaultOfAll? (shapes nodes) room = renderFaultOfAll? nodes room
  | [], _ => rfl
  | _ :: _, 0 => rfl
  | node :: rest, room + 1 => by
    simp only [shapes, renderFaultOfAll?, renderFault_shape node, renderFaultOfAll_shapes rest]
termination_by structural nodes => nodes

end

theorem text_shape (limit : Nat) (node : Node) : node.shape.text? limit = node.text? limit := by
  rw [text?, text?, renderFault_shape, render_shape]

end Node

end MonkeyLang
