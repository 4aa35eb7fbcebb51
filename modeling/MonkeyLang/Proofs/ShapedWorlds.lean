import MonkeyLang.Operator
import MonkeyLang.Proofs.TreeShapes
import MonkeyLang.Scope

/-! Worlds without token positions. Functions carry the trees they were made from, so values, scopes and worlds have a shape
as trees have one. What can be seen of a value depends on its shape alone, and whatever is done to values and scopes is
done to their shapes in the same way. -/

namespace MonkeyLang

namespace Value

def shape : Value → Value
  | function parameters body scope => function parameters.shape body.shape scope
  | returned value => returned value.shape
  | value => value

@[simp] theorem type_shape (value : Value) : value.shape.type = value.type := by
  cases value <;> rfl

@[simp] theorem isSignal_shape (value : Value) : value.shape.isSignal = value.isSignal := by
  cases value <;> rfl

@[simp] theorem isTruthy_shape (value : Value) : value.shape.isTruthy = value.isTruthy := by
  cases value <;> rfl

theorem inspect_shape (value : Value) : value.shape.inspect = value.inspect := by
  induction value with
  | returned value ih => exact ih
  | function parameters body scope => exact Node.render_shape (.function none parameters body)
  | _ => rfl

end Value

namespace Operator

theorem applyUnary_shape (operator : String) (right : Value) :
    applyUnary operator right.shape = (applyUnary operator right).shape := by
  unfold applyUnary
  rw [Value.isTruthy_shape, Value.type_shape]
  split
  · rfl
  · split
    · cases right <;> rfl
    · rfl

theorem applyInteger_shape (operator : String) (left right : Int) :
    (applyInteger operator left right).shape = applyInteger operator left right := by
  unfold applyInteger
  repeat' split
  all_goals rfl

theorem applyBinary_shape (operator : String) (left right : Value) :
    applyBinary operator left.shape right.shape = (applyBinary operator left right).shape := by
  -- only integers and booleans are looked into, and they are their own shape
  have seen : applyBinary operator left.shape right.shape = applyBinary operator left right := by
    cases left <;> cases right <;> rfl
  have plain : (applyBinary operator left right).shape = applyBinary operator left right := by
    unfold applyBinary
    split
    · exact applyInteger_shape _ _ _
    · repeat' split
      all_goals rfl
    · split <;> rfl
  rw [seen, plain]

end Operator

/-- What is bound, in a list of bindings under names of any sort. -/
def Value.shapeBound {α : Type} (binding : α × Option Value) : α × Option Value :=
  (binding.1, binding.2.map Value.shape)

namespace Scope

def shape (scope : Scope) : Scope :=
  ⟨scope.bindings.map Value.shapeBound, scope.strays.map Value.shapeBound, scope.outer⟩

theorem find?_shape (scope : Scope) (name : String) :
    scope.shape.find? name = (scope.find? name).map (Option.map Value.shape) := by
  obtain ⟨bindings, strays, outer⟩ := scope
  simp only [shape, find?]
  induction bindings with
  | nil => rfl
  | cons binding rest ih =>
    obtain ⟨bound, value⟩ := binding
    simp only [List.map_cons, Value.shapeBound, lookup_binding]
    split
    · rfl
    · exact ih

theorem setIn_shape (name : String) (value : Option Value) (bindings : List (String × Option Value)) :
    setIn name (value.map Value.shape) (bindings.map Value.shapeBound) =
      (setIn name value bindings).map Value.shapeBound := by
  induction bindings with
  | nil => rfl
  | cons binding rest ih =>
    obtain ⟨bound, old⟩ := binding
    simp only [List.map_cons, Value.shapeBound, setIn]
    split
    · rfl
    · exact congrArg _ ih

theorem setStrayIn_shape (name : Name) (value : Option Value) (strays : List (Name × Option Value)) :
    setStrayIn name (value.map Value.shape) (strays.map Value.shapeBound) =
      (setStrayIn name value strays).map Value.shapeBound := by
  induction strays with
  | nil => rfl
  | cons stray rest ih =>
    obtain ⟨bound, old⟩ := stray
    simp only [List.map_cons, Value.shapeBound, setStrayIn]
    split
    · rfl
    · exact congrArg _ ih

theorem bind_shape (scope : Scope) (name : Name) (value : Option Value) :
    scope.shape.bind name (value.map Value.shape) = (scope.bind name value).shape := by
  cases name with
  | word text => simp only [bind, set, shape, setIn_shape]
  | number | truth | nothing => simp only [bind, shape, setStrayIn_shape]

theorem sorted_shape (scope : Scope) : scope.shape.sorted = scope.sorted.map Value.shapeBound := by
  rw [sorted, sorted, shape]
  exact (List.map_mergeSort (f := Value.shapeBound) fun _ _ _ _ => rfl).symm

end Scope

theorem Name.ofNode_shape (node : Node) : ofNode node.shape = ofNode node := by
  cases node with
  | letBinding _ _ value | returning _ value => cases value <;> rfl
  | _ => rfl

theorem Array.map_modify {α β : Type} (image : α → β) {change : α → α} {change' : β → β} (items : Array α) (place : Nat)
    (commutes : ∀ item, image (change item) = change' (image item)) :
    (items.modify place change).map image = (items.map image).modify place change' := by
  apply Array.ext_getElem?
  intro index
  simp only [Array.getElem?_map, Array.getElem?_modify]
  split
  · cases items[index]? with
    | none => rfl
    | some item => exact congrArg some (commutes item)
  · rfl

namespace World

/-- The calls that were made are noted by the texts of functions, in which there are no positions. -/
def shape (world : World) : World := { world with scopes := world.scopes.map Scope.shape }

theorem lookup_shape (scopes : Array Scope) (scope : Nat) (name : String) :
    lookup (scopes.map Scope.shape) scope name = (lookup scopes scope name).map Value.shape := by
  fun_induction lookup scopes scope name with
  | case1 scope place => simp [lookup, place]
  | case2 scope inside place bound found => simp [lookup, place, Scope.find?_shape, found]
  | case3 scope inside place free last =>
    have last : inside.shape.outer = none := last
    simp [lookup, place, Scope.find?_shape, free, last]
  | case4 scope inside place free outer around earlier ih =>
    have around : inside.shape.outer = some outer := around
    rw [lookup]
    simp [place, Scope.find?_shape, free, around, earlier, ih]
  | case5 scope inside place free outer around later =>
    have around : inside.shape.outer = some outer := around
    rw [lookup]
    simp [place, Scope.find?_shape, free, around, later]

theorem bind_shape (world : World) (scope : Nat) (name : Name) (value : Option Value) :
    world.shape.bind scope name (value.map Value.shape) = (world.bind scope name value).shape := by
  have bound : (world.scopes.modify scope (·.bind name value)).map Scope.shape =
      (world.scopes.map Scope.shape).modify scope (·.bind name (value.map Value.shape)) :=
    Array.map_modify Scope.shape _ _ fun found => (found.bind_shape name value).symm
  simp only [bind, shape, bound]

theorem enclose_shape (world : World) (outer : Option Nat) :
    world.shape.enclose outer = ((world.enclose outer).1, (world.enclose outer).2.shape) := by
  simp [enclose, shape, Scope.shape]

/-- The own bindings of a scope are the same but for their shape. -/
theorem bindings_shape (world : World) (scope : Nat) :
    world.shape.bindings scope = (world.bindings scope).map Value.shapeBound := by
  simp only [bindings, shape, Array.getElem?_map]
  cases world.scopes[scope]? with
  | none => rfl
  | some found =>
    simp only [Option.map_some, Scope.sorted_shape, List.map_map, List.map_append]
    rfl

end World

end MonkeyLang
