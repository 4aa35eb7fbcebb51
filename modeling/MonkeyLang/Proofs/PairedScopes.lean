import MonkeyLang.Proofs.Footprints

/-! Worlds whose scopes correspond. A run depends on scopes only through what names are bound to in them, and on a function
only through its source text and what the names there mean. So a world can be exchanged for another one if corresponding
scopes bind the names that matter to corresponding values. A pairing says which scopes correspond. It goes on while both
worlds get new scopes: these correspond in the order in which they are made. -/

namespace MonkeyLang

namespace Node

mutual

/-- The names in a tree: those used, those bound and those of parameters. -/
def words : Node → List String
  | bare _ | integer _ _ | boolean _ _ | missing => []
  | identifier _ name => [name]
  | program child | block _ child | returning _ child | statement _ child | unary _ _ child => child.words
  | letBinding _ first second | binary _ first _ second | function _ first second | call _ first second =>
    first.words ++ second.words
  | conditional _ condition consequence alternative => condition.words ++ (consequence.words ++ alternative.words)
  | sequence nodes => wordsOfAll nodes
termination_by structural node => node

def wordsOfAll : List Node → List String
  | [] => []
  | node :: rest => node.words ++ wordsOfAll rest
termination_by structural nodes => nodes

end

/-- All names in the tree are known. -/
def Speaks (known : String → Prop) (node : Node) : Prop := ∀ name ∈ node.words, known name

variable {known : String → Prop}

theorem speaks_all (node : Node) : node.Speaks fun _ => True := fun _ _ => trivial

theorem Speaks.each {nodes : List Node} (speaks : (sequence nodes).Speaks known) : ∀ node ∈ nodes, node.Speaks known := by
  change ∀ name ∈ wordsOfAll nodes, known name at speaks
  induction nodes with
  | nil => nofun
  | cons node rest ih =>
    obtain ⟨first, others⟩ := List.forall_mem_append.mp speaks
    exact List.forall_mem_cons.mpr ⟨first, ih others⟩

end Node

/-- Which scopes of two worlds correspond, and how many scopes there are in each of them. -/
@[ext]
structure Pairing where
  pairs : Nat → Nat → Prop
  size : Nat
  size' : Nat
  inside : ∀ {index index'}, pairs index index' → index < size ∧ index' < size'

namespace Pairing

variable {pairing : Pairing} {index index' made more : Nat}

/-- Every scope and itself. -/
def diagonal (size : Nat) : Pairing where
  pairs index index' := index = index' ∧ index < size
  size := size
  size' := size
  inside := by
    intro index index' same
    omega

/-- Both worlds have that many new scopes. -/
def grown (pairing : Pairing) (made : Nat) : Pairing where
  pairs index index' :=
    pairing.pairs index index' ∨ ∃ place < made, index = pairing.size + place ∧ index' = pairing.size' + place
  size := pairing.size + made
  size' := pairing.size' + made
  inside := by
    rintro index index' (pair | ⟨place, new, rfl, rfl⟩)
    · have inside := pairing.inside pair
      omega
    · omega

theorem grown_zero : pairing.grown 0 = pairing := by
  refine Pairing.ext (funext₂ fun index index' => propext ?_) rfl rfl
  constructor
  · rintro (pair | ⟨place, none, -⟩)
    · exact pair
    · exact absurd none (Nat.not_lt_zero place)
  · exact .inl

theorem grown_grown : (pairing.grown made).grown more = pairing.grown (made + more) := by
  refine Pairing.ext (funext₂ fun index index' => propext ?_) (Nat.add_assoc ..) (Nat.add_assoc ..)
  constructor
  · rintro ((pair | ⟨place, new, rfl, rfl⟩) | ⟨place, new, rfl, rfl⟩)
    · exact .inl pair
    · exact .inr ⟨place, by omega, rfl, rfl⟩
    · exact .inr ⟨made + place, by omega, Nat.add_assoc .., Nat.add_assoc ..⟩
  · rintro (pair | ⟨place, new, rfl, rfl⟩)
    · exact .inl (.inl pair)
    · by_cases old : place < made
      · exact .inl (.inr ⟨place, old, rfl, rfl⟩)
      · have first : pairing.size + place = pairing.size + made + (place - made) := by omega
        have second : pairing.size' + place = pairing.size' + made + (place - made) := by omega
        exact .inr ⟨place - made, by omega, first, second⟩

theorem diagonal_grown (size made : Nat) : (diagonal size).grown made = diagonal (size + made) := by
  refine Pairing.ext (funext₂ fun index index' => propext ?_) rfl rfl
  constructor
  · rintro (⟨rfl, inside⟩ | ⟨place, new, rfl, rfl⟩)
    · exact ⟨rfl, by omega⟩
    · exact ⟨rfl, Nat.add_lt_add_left new size⟩
  · rintro ⟨rfl, inside⟩
    by_cases old : index < size
    · exact .inl ⟨rfl, old⟩
    · have place : index = size + (index - size) := by omega
      exact .inr ⟨index - size, by omega, place, place⟩

/-- The two scopes correspond to each other and to no other one. -/
structure Sole (pairing : Pairing) (index index' : Nat) : Prop where
  pair : pairing.pairs index index'
  only : ∀ {other other'}, pairing.pairs other other' → (other = index ↔ other' = index')

theorem Sole.grown (sole : pairing.Sole index index') : (pairing.grown made).Sole index index' where
  pair := .inl sole.pair
  only := by
    have inside := pairing.inside sole.pair
    rintro other other' (pair | ⟨place, new, rfl, rfl⟩)
    · exact sole.only pair
    · omega

theorem sole_made : (pairing.grown 1).Sole pairing.size pairing.size' where
  pair := .inr ⟨0, Nat.zero_lt_one, rfl, rfl⟩
  only := by
    rintro other other' (pair | ⟨place, new, rfl, rfl⟩)
    · have inside := pairing.inside pair
      omega
    · omega

theorem sole_diagonal {size : Nat} (inside : index < size) : (diagonal size).Sole index index where
  pair := ⟨rfl, inside⟩
  only := by
    intro other other' same
    have same := same.1
    omega

end Pairing

/-- The literal of a function, and the scope that it was made in. A returned value has those of what is returned. -/
def Value.closure? : Value → Option (Node × Nat)
  | function parameters body scope => some (.function none parameters body, scope)
  | returned value => value.closure?
  | _ => none

/-- Values that correspond: the same, but that functions may have been made in corresponding scopes. -/
inductive Value.Matches (known : String → Prop) (pairing : Pairing) : Value → Value → Prop
  | null : Matches known pairing .null .null
  | boolean (value : Bool) : Matches known pairing (.boolean value) (.boolean value)
  | integer (value : Int) : Matches known pairing (.integer value) (.integer value)
  | returned {value value' : Value} (same : Matches known pairing value value') :
      Matches known pairing (.returned value) (.returned value')
  | returnedNothing : Matches known pairing .returnedNothing .returnedNothing
  | error (reason : RuntimeError) : Matches known pairing (.error reason) (.error reason)
  | function {parameters body : Node} {scope scope' : Nat} (speaks : (Node.function none parameters body).Speaks known)
      (pair : pairing.pairs scope scope') :
      Matches known pairing (.function parameters body scope) (.function parameters body scope')

/-- Values where there may be none. -/
abbrev Value.Matches? (known : String → Prop) (pairing : Pairing) : Option Value → Option Value → Prop :=
  Option.Rel (Value.Matches known pairing)

/-- Scopes that correspond bind each known name to corresponding values, or neither of them binds it. The scopes around
them were made before them and correspond too. -/
structure Scope.Matches (known : String → Prop) (pairing : Pairing) (index index' : Nat) (scope scope' : Scope) : Prop where
  bound : ∀ name, known name → Option.Rel (Value.Matches? known pairing) (scope.find? name) (scope'.find? name)
  outer : Option.Rel (fun outer outer' => pairing.pairs outer outer' ∧ outer < index ∧ outer' < index')
    scope.outer scope'.outer

/-- The two worlds correspond. -/
structure Pairing.Holds (known : String → Prop) (pairing : Pairing) (first second : World) : Prop where
  size : first.scopes.size = pairing.size
  size' : second.scopes.size = pairing.size'
  scopes : ∀ index index', pairing.pairs index index' → ∃ scope scope', first.scopes[index]? = some scope ∧
    second.scopes[index']? = some scope' ∧ scope.Matches known pairing index index' scope'

variable {known : String → Prop} {pairing later : Pairing} {first second : World}

namespace Value.Matches

variable {value value' left left' right right' : Value}

theorem mono (same : value.Matches known pairing value')
    (kept : ∀ index index', pairing.pairs index index' → later.pairs index index') : value.Matches known later value' := by
  induction same with
  | null => exact .null
  | boolean value => exact .boolean value
  | integer value => exact .integer value
  | returned _ ih => exact .returned ih
  | returnedNothing => exact .returnedNothing
  | error reason => exact .error reason
  | function speaks pair => exact .function speaks (kept _ _ pair)

theorem grown {made : Nat} (same : value.Matches known pairing value') :
    value.Matches known (pairing.grown made) value' :=
  same.mono fun _ _ => .inl

theorem isSignal (same : value.Matches known pairing value') : value'.isSignal = value.isSignal := by
  cases same <;> rfl

theorem isTruthy (same : value.Matches known pairing value') : value'.isTruthy = value.isTruthy := by
  cases same <;> rfl

theorem type (same : value.Matches known pairing value') : value'.type = value.type := by
  cases same <;> rfl

theorem inspect (same : value.Matches known pairing value') : value'.inspect = value.inspect := by
  induction same with
  | returned _ ih => exact ih
  | _ => rfl

/-- Operators look at integers and booleans, which are the same in both worlds, and at types. -/
theorem applyUnary (operator : String) (same : right.Matches known pairing right') :
    (Operator.applyUnary operator right).Matches known pairing (Operator.applyUnary operator right') := by
  have equal : Operator.applyUnary operator right' = Operator.applyUnary operator right := by
    cases same <;> rfl
  rw [equal]
  unfold Operator.applyUnary
  repeat' split
  all_goals constructor

theorem applyBinary (operator : String) (first : left.Matches known pairing left')
    (second : right.Matches known pairing right') :
    (Operator.applyBinary operator left right).Matches known pairing (Operator.applyBinary operator left' right') := by
  have equal : Operator.applyBinary operator left' right' = Operator.applyBinary operator left right := by
    cases first <;> cases second <;> rfl
  rw [equal]
  unfold Operator.applyBinary Operator.applyInteger
  repeat' split
  all_goals constructor

end Value.Matches

/-- Only what a function has in it and where it was made can keep a value from corresponding to itself. -/
theorem Value.matches_self {value : Value} (closes : ∀ literal scope, value.closure? = some (literal, scope) →
    literal.Speaks known ∧ pairing.pairs scope scope) : value.Matches known pairing value := by
  induction value with
  | function parameters body made =>
    obtain ⟨speaks, pair⟩ := closes _ made rfl
    exact .function speaks pair
  | returned value ih => exact .returned (ih closes)
  | null => exact .null
  | boolean value => exact .boolean value
  | integer value => exact .integer value
  | returnedNothing => exact .returnedNothing
  | error reason => exact .error reason

theorem Value.Matches?.mono {value value' : Option Value} (same : Value.Matches? known pairing value value')
    (kept : ∀ index index', pairing.pairs index index' → later.pairs index index') :
    Value.Matches? known later value value' := by
  cases same with
  | some same => exact .some (same.mono kept)
  | none => exact .none

/-- A scope corresponds to itself if the values in it and the scope around it do. -/
theorem Scope.matches_self {index : Nat} {scope : Scope}
    (bound : ∀ name value, known name → scope.find? name = some (some value) → value.Matches known pairing value)
    (outer : ∀ outer, scope.outer = some outer → pairing.pairs outer outer ∧ outer < index) :
    scope.Matches known pairing index index scope where
  bound name matters := by
    cases found : scope.find? name with
    | none => exact .none
    | some binding =>
      cases binding with
      | none => exact .some .none
      | some value => exact .some (.some (bound name value matters found))
  outer := by
    cases around : scope.outer with
    | none => exact .none
    | some place =>
      obtain ⟨pair, earlier⟩ := outer place around
      exact .some ⟨pair, earlier, earlier⟩

namespace Scope.Matches

variable {index index' : Nat} {scope scope' : Scope}

theorem mono (same : scope.Matches known pairing index index' scope')
    (kept : ∀ index index', pairing.pairs index index' → later.pairs index index') :
    scope.Matches known later index index' scope' where
  bound name matters := by
    have bound := same.bound name matters
    cases found : scope.find? name <;> cases found' : scope'.find? name <;> rw [found, found'] at bound
    · exact .none
    · cases bound
    · cases bound
    · cases bound with
      | some bound => exact .some (bound.mono kept)
  outer := by
    have outer := same.outer
    cases around : scope.outer <;> cases around' : scope'.outer <;> rw [around, around'] at outer
    · exact .none
    · cases outer
    · cases outer
    · cases outer with
      | some outer => exact .some ⟨kept _ _ outer.1, outer.2⟩

theorem bind {value value' : Option Value} (same : scope.Matches known pairing index index' scope') (name : Name)
    (bound : Value.Matches? known pairing value value') :
    (scope.bind name value).Matches known pairing index index' (scope'.bind name value') := by
  cases name with
  | word text =>
    refine ⟨?_, same.outer⟩
    intro other matters
    rw [Scope.bind, Scope.bind, find?_set, find?_set]
    split
    · exact .some bound
    · exact same.bound other matters
  | number | truth | nothing => exact ⟨same.bound, same.outer⟩

end Scope.Matches

namespace Pairing.Holds

variable {index index' : Nat}

/-- Known names mean corresponding things in corresponding scopes. -/
theorem lookup (holds : pairing.Holds known first second) {name : String} (matters : known name)
    (pair : pairing.pairs index index') : Value.Matches? known pairing (World.lookup first.scopes index name)
      (World.lookup second.scopes index' name) := by
  induction index using Nat.strong_induction_on generalizing index' with
  | _ index ih =>
    obtain ⟨scope, scope', place, place', same⟩ := holds.scopes index index' pair
    rw [World.lookup, World.lookup, place, place']
    dsimp only
    have bound := same.bound name matters
    generalize scope.find? name = found at bound
    generalize scope'.find? name = found' at bound
    cases bound with
    | some bound => exact bound
    | none =>
      have outer := same.outer
      generalize scope.outer = around at outer
      generalize scope'.outer = around' at outer
      cases outer with
      | none => exact .none
      | some outer =>
        obtain ⟨pair, earlier, earlier'⟩ := outer
        simp only [earlier, earlier', if_true]
        exact ih _ earlier pair

/-- What is bound in both of two scopes that correspond to no others. -/
theorem bind {value value' : Option Value} (holds : pairing.Holds known first second) (sole : pairing.Sole index index')
    (name : Name) (bound : Value.Matches? known pairing value value') :
    pairing.Holds known (first.bind index name value) (second.bind index' name value') where
  size := (Array.size_modify ..).trans holds.size
  size' := (Array.size_modify ..).trans holds.size'
  scopes other other' pair := by
    obtain ⟨scope, scope', place, place', same⟩ := holds.scopes other other' pair
    have only := sole.only pair
    rw [World.bind, World.bind, Array.getElem?_modify, Array.getElem?_modify, place, place']
    by_cases here : index = other
    · rw [if_pos here, if_pos (only.mp here.symm).symm]
      exact ⟨_, _, rfl, rfl, same.bind name bound⟩
    · rw [if_neg here, if_neg fun there => here (only.mpr there.symm).symm]
      exact ⟨_, _, rfl, rfl, same⟩

/-- New scopes in corresponding ones. -/
theorem enclose (holds : pairing.Holds known first second) (pair : pairing.pairs index index') :
    (pairing.grown 1).Holds known (first.enclose (some index)).2 (second.enclose (some index')).2 where
  size := by rw [World.enclose, Array.size_push, holds.size, grown]
  size' := by rw [World.enclose, Array.size_push, holds.size', grown]
  scopes := by
    have inside := pairing.inside pair
    rintro other other' (old | ⟨place, new, rfl, rfl⟩)
    · obtain ⟨scope, scope', place, place', same⟩ := holds.scopes other other' old
      have inside := pairing.inside old
      refine ⟨scope, scope', ?_, ?_, same.mono fun _ _ => .inl⟩
      · rw [World.enclose, Array.getElem?_push, if_neg (by rw [holds.size]; omega), place]
      · rw [World.enclose, Array.getElem?_push, if_neg (by rw [holds.size']; omega), place']
    · obtain rfl : place = 0 := by omega
      refine ⟨⟨[], [], some index⟩, ⟨[], [], some index'⟩, ?_, ?_, fun _ _ => .none, .some ⟨.inl pair, inside⟩⟩
      · rw [World.enclose, Nat.add_zero, Array.getElem?_push, if_pos holds.size.symm]
      · rw [World.enclose, Nat.add_zero, Array.getElem?_push, if_pos holds.size'.symm]

/-- Either world may go on alone as long as the scopes there are stay as they are. -/
theorem intact {after after' : World} (holds : pairing.Holds known first second) (intact : first.Intact after)
    (intact' : second.Intact after') :
    ∃ later : Pairing, later.pairs = pairing.pairs ∧ later.Holds known after after' := by
  have grows := intact.grows
  have grows' := intact'.grows
  rw [holds.size] at grows
  rw [holds.size'] at grows'
  have inside {index index' : Nat} (pair : pairing.pairs index index') :
      index < after.scopes.size ∧ index' < after'.scopes.size := by
    have inside := pairing.inside pair
    omega
  refine ⟨⟨pairing.pairs, after.scopes.size, after'.scopes.size, inside⟩, rfl, rfl, rfl, ?_⟩
  intro index index' pair
  obtain ⟨scope, scope', place, place', same⟩ := holds.scopes index index' pair
  have before := pairing.inside pair
  rw [← holds.size, ← holds.size'] at before
  exact ⟨scope, scope', (intact.same index before.1).trans place, (intact'.same index' before.2).trans place',
    same.mono fun _ _ => id⟩

/-- Two ways in which the worlds correspond, taken together. -/
theorem union (one : pairing.Holds known first second) (other : later.Holds known first second) :
    ∃ both : Pairing, (∀ index index', both.pairs index index' ↔ pairing.pairs index index' ∨ later.pairs index index') ∧
      both.Holds known first second := by
  have inside {index index' : Nat} (pair : pairing.pairs index index' ∨ later.pairs index index') :
      index < first.scopes.size ∧ index' < second.scopes.size := by
    rcases pair with pair | pair
    · rw [one.size, one.size']
      exact pairing.inside pair
    · rw [other.size, other.size']
      exact later.inside pair
  refine ⟨⟨fun index index' => pairing.pairs index index' ∨ later.pairs index index', _, _, inside⟩,
    fun _ _ => .rfl, rfl, rfl, ?_⟩
  rintro index index' (pair | pair)
  · obtain ⟨scope, scope', place, place', same⟩ := one.scopes index index' pair
    exact ⟨scope, scope', place, place', same.mono fun _ _ => .inl⟩
  · obtain ⟨scope, scope', place, place', same⟩ := other.scopes index index' pair
    exact ⟨scope, scope', place, place', same.mono fun _ _ => .inr⟩

end Pairing.Holds

end MonkeyLang
