import MonkeyLang.Value

/-! Scopes. A scope binds names and lies inside an outer one, made before it; a name means what the innermost scope
binds it to. A name may be bound to nothing, which hides outer bindings. -/

namespace MonkeyLang

/-- What is bound. In a tree that was parsed this is a word; elsewhere a number, a truth value or nothing may stand
in its place, and no identifier means the binding. -/
inductive Name
  | word (text : String)
  | number (value : Int)
  | truth (value : Bool)
  | nothing
deriving DecidableEq

namespace Name

/-- What a node binds: its value, if that is fit to be bound. -/
def ofNode : Node → Except Fault Name
  | .identifier _ name => .ok (.word name)
  | .integer _ value => .ok (.number value)
  | .boolean _ value => .ok (.truth value)
  | .letBinding _ _ .missing | .returning _ .missing => .ok .nothing
  | .letBinding _ _ value | .returning _ value => .error (.noName value.sort)
  | node => .error (.lacks node.sort .value)

/-- Names that are bound in one place have one key: a truth value is as good as 0 or 1. -/
def key : Name → Name
  | truth value => number (if value then 1 else 0)
  | name => name

end Name

/-- One scope: its own bindings in the order in which they were first set, those under words apart from the strays
under anything else, and the scope around it. -/
structure Scope where
  bindings : List (String × Option Value)
  strays : List (Name × Option Value)
  outer : Option Nat

namespace Scope

/-- What the scope itself binds the name to, if it binds it at all. -/
def find? (scope : Scope) (name : String) : Option (Option Value) := scope.bindings.lookup name

/-- The bindings with a name set, in its place if it was bound before. -/
def setIn (name : String) (value : Option Value) : List (String × Option Value) → List (String × Option Value)
  | [] => [(name, value)]
  | (bound, old) :: rest =>
    if bound = name then (name, value) :: rest else (bound, old) :: setIn name value rest

def set (scope : Scope) (name : String) (value : Option Value) : Scope :=
  { scope with bindings := setIn name value scope.bindings }

theorem lookup_binding (key : String) (value : Option Value) (rest : List (String × Option Value)) (other : String) :
    ((key, value) :: rest).lookup other = if other = key then some value else rest.lookup other := by
  by_cases same : other = key
  · simp [same]
  · simp [List.lookup_cons, same, beq_eq_false_iff_ne.mpr same]

theorem lookup_setIn (name : String) (value : Option Value) (bindings : List (String × Option Value))
    (other : String) :
    (setIn name value bindings).lookup other = if other = name then some value else bindings.lookup other := by
  induction bindings with
  | nil => simp [setIn, lookup_binding]
  | cons binding rest ih =>
    obtain ⟨bound, old⟩ := binding
    rw [setIn]
    split <;> grind [lookup_binding]

/-- A set name means its new value, every other name what it meant before. -/
theorem find?_set (scope : Scope) (name : String) (value : Option Value) (other : String) :
    (scope.set name value).find? other = if other = name then some value else scope.find? other :=
  lookup_setIn name value scope.bindings other

/-- The strays with one set, in its place if it was bound before. -/
def setStrayIn (name : Name) (value : Option Value) : List (Name × Option Value) → List (Name × Option Value)
  | [] => [(name, value)]
  | (bound, old) :: rest =>
    if bound.key = name.key then (bound, value) :: rest else (bound, old) :: setStrayIn name value rest

/-- The scope with anything bound. -/
def bind (scope : Scope) (name : Name) (value : Option Value) : Scope :=
  match name with
  | .word text => scope.set text value
  | stray => { scope with strays := setStrayIn stray value scope.strays }

/-- The scope's own bindings by name. -/
def sorted (scope : Scope) : List (String × Option Value) :=
  scope.bindings.mergeSort fun first second => !decide (second.1 < first.1)

/-- The names that a scope binds and whether there is a scope around it. -/
def describe (scope : Scope) : String :=
  "Environment([" ++ ", ".intercalate (scope.sorted.map (·.1)) ++ "], outer=" ++
    (if scope.outer.isSome then "yes" else "no") ++ ")"

end Scope

/-- A call that was made: the source text of the function and the number of its arguments. -/
structure Call where
  text : String
  count : Nat

/-- All scopes there are, numbered in the order in which they were made, and the calls so far, the latest first. -/
structure World where
  scopes : Array Scope
  calls : List Call

namespace World

def empty : World := ⟨#[], []⟩

/-- A new scope, around which the given one lies, and its number. -/
def enclose (world : World) (outer : Option Nat) : Nat × World :=
  (world.scopes.size, { world with scopes := world.scopes.push ⟨[], [], outer⟩ })

/-- A world with a single scope. -/
def fresh : World := (empty.enclose none).2

/-- Binds a name in the scope itself. -/
def set (world : World) (scope : Nat) (name : String) (value : Option Value) : World :=
  { world with scopes := world.scopes.modify scope (·.set name value) }

/-- Binds anything in the scope itself. -/
def bind (world : World) (scope : Nat) (name : Name) (value : Option Value) : World :=
  { world with scopes := world.scopes.modify scope (·.bind name value) }

/-- What the innermost scope, from the given one outward, binds the name to. -/
def lookup (scopes : Array Scope) (scope : Nat) (name : String) : Option Value :=
  match scopes[scope]? with
  | none => none
  | some found =>
    match found.find? name with
    | some bound => bound
    | none =>
      match found.outer with
      | none => none
      | some outer => if outer < scope then lookup scopes outer name else none
termination_by scope

def get (world : World) (scope : Nat) (name : String) : Option Value := lookup world.scopes scope name

/-- The name has a value in the scope or outside of it. -/
def contains (world : World) (scope : Nat) (name : String) : Bool := (world.get scope name).isSome

/-- The own bindings of a scope by name, and the strays after them. -/
def bindings (world : World) (scope : Nat) : List (Name × Option Value) :=
  match world.scopes[scope]? with
  | some found => (found.sorted.map fun (name, value) => (.word name, value)) ++ found.strays
  | none => []

end World

end MonkeyLang
