import MonkeyLang.Proofs.ParsedTrees
import MonkeyLang.Scope

/-! Scopes that bind plain values only. A plain value is no signal, and the body of a plain function is a block that
could have been parsed; what such scopes bind a name to is plain, and they stay so when plain values are bound. -/

namespace MonkeyLang

namespace Node

/-- The right kinds of nodes are in the right places, and the integers among them can be written. -/
abbrev Regular : Role → Node → Prop := Formed fun
  | .integer _ value => Numeral.Writable value
  | _ => True

variable {role : Role} {node : Node}

theorem Formed.regular {fits : Node → Prop} (formed : Formed fits role node)
    (writes : ∀ {token value}, fits (.integer token value) → Numeral.Writable value) : Regular role node := by
  refine formed.imp fun node fit => ?_
  cases node with
  | integer => exact writes fit
  | _ => trivial

theorem Built.regular {source : Token → Prop} (built : Built source role node) : Regular role node :=
  Formed.regular built FromSource.writable

theorem Regular.renderFault (regular : Regular role node) (room : Nat) :
    node.renderFault? room = Fault.ofHeight? room node.height :=
  Formed.renderFault regular id room

theorem Regular.text (regular : Regular role node) (room : Nat) :
    node.text? room = if room < node.height then .error .exhausted else .ok node.render :=
  Formed.text regular id room

end Node

namespace Value

def Plain : Value → Prop
  | returned _ | returnedNothing | error _ => False
  | function parameters body _ => Node.Regular .expression (.function none parameters body)
  | null | boolean _ | integer _ => True

variable {value : Value}

theorem Plain.not_signal (plain : value.Plain) : value.isSignal = false := by
  cases value with
  | returned | returnedNothing | error => exact plain.elim
  | null | boolean | integer | function => rfl

end Value

/-- Whatever the scope binds has a plain value, if it has a value. -/
def Scope.Plain (scope : Scope) : Prop := ∀ name value, (name, some value) ∈ scope.bindings → value.Plain

def PlainScopes (scopes : Array Scope) : Prop := ∀ (index : Nat) scope, scopes[index]? = some scope → scope.Plain

namespace Scope

theorem mem_setIn {name other : String} {value bound : Option Value} {bindings : List (String × Option Value)}
    (member : (other, bound) ∈ setIn name value bindings) : bound = value ∨ (other, bound) ∈ bindings := by
  induction bindings with
  | nil =>
    rw [setIn, List.mem_singleton] at member
    exact .inl (Prod.mk.inj member).2
  | cons binding rest ih =>
    obtain ⟨first, old⟩ := binding
    rw [setIn] at member
    split at member
    · rcases List.mem_cons.mp member with same | later
      · exact .inl (Prod.mk.inj same).2
      · exact .inr (List.mem_cons_of_mem _ later)
    · rcases List.mem_cons.mp member with same | later
      · exact .inr (same ▸ List.mem_cons_self)
      · exact (ih later).imp id (List.mem_cons_of_mem _)

theorem Plain.set {scope : Scope} {value : Value} (plain : scope.Plain) (name : String) (fits : value.Plain) :
    (scope.set name (some value)).Plain := by
  intro other bound member
  rcases mem_setIn member with same | before
  · exact Option.some.inj same ▸ fits
  · exact plain other bound before

theorem mem_of_find {scope : Scope} {name : String} {bound : Option Value} (found : scope.find? name = some bound) :
    (name, bound) ∈ scope.bindings := by
  obtain ⟨before, after, same, -⟩ := List.lookup_eq_some_iff.mp found
  simp [same]

theorem Plain.of_lookup {scope : Scope} {name : String} {value : Value} (plain : scope.Plain)
    (found : scope.find? name = some (some value)) : value.Plain :=
  plain name value (mem_of_find found)

end Scope

/-- What a lookup finds is bound in one of the scopes. -/
theorem World.bound_of_lookup {scopes : Array Scope} {scope : Nat} {name : String} {value : Value}
    (found : lookup scopes scope name = some value) :
    ∃ (index : Nat) (inside : Scope), scopes[index]? = some inside ∧ inside.find? name = some (some value) := by
  fun_induction lookup scopes scope name with
  | case1 => cases found
  | case2 scope inside place bound same => exact ⟨scope, inside, place, found ▸ same⟩
  | case3 => cases found
  | case4 _ _ _ _ _ _ _ ih => exact ih found
  | case5 => cases found

theorem Array.modify_twice {α : Type} (items : Array α) (place : Nat) (first second : α → α) :
    (items.modify place first).modify place second = items.modify place fun item => second (first item) := by
  apply Array.ext_getElem?
  intro index
  simp only [Array.getElem?_modify]
  split
  · rw [Option.map_map]
    rfl
  · rfl

theorem Array.modify_same {α : Type} (items : Array α) (place : Nat) : items.modify place (fun item => item) = items := by
  apply Array.ext_getElem?
  intro index
  simp [Array.getElem?_modify]

theorem Array.modify_last {α : Type} (items : Array α) (last : α) (change : α → α) :
    (items.push last).modify items.size change = items.push (change last) := by
  apply Array.ext_getElem?
  intro index
  simp only [Array.getElem?_modify, Array.getElem?_push]
  split
  · simp_all
  · split <;> simp_all

/-- A property of all items in their places. -/
def AtEach {α : Type} (items : Array α) (property : Nat → α → Prop) : Prop :=
  ∀ (index : Nat) item, items[index]? = some item → property index item

namespace AtEach

variable {α : Type} {items : Array α} {property : Nat → α → Prop}

theorem push {item : α} (kept : AtEach items property) (last : property items.size item) :
    AtEach (items.push item) property := by
  intro index found place
  rw [Array.getElem?_push] at place
  split at place
  next same =>
    subst same
    exact Option.some.inj place ▸ last
  next => exact kept index found place

theorem modify {change : α → α} (kept : AtEach items property) (place : Nat)
    (keeps : ∀ index item, property index item → property index (change item)) :
    AtEach (items.modify place change) property := by
  intro index found there
  rw [Array.getElem?_modify] at there
  split at there
  · obtain ⟨old, same, rfl⟩ := Option.map_eq_some_iff.mp there
    exact keeps index old (kept index old same)
  · exact kept index found there

end AtEach

namespace PlainScopes

variable {scopes : Array Scope}

theorem push {scope : Scope} (plain : PlainScopes scopes) (fits : scope.Plain) : PlainScopes (scopes.push scope) := by
  have kept : AtEach scopes fun _ scope => scope.Plain := plain
  exact kept.push fits

theorem fresh : PlainScopes World.fresh.scopes := by
  have empty : PlainScopes World.empty.scopes := fun _ _ place => nomatch place
  exact empty.push fun _ _ member => nomatch member

theorem modify {change : Scope → Scope} (plain : PlainScopes scopes) (place : Nat)
    (keeps : ∀ scope : Scope, scope.Plain → (change scope).Plain) : PlainScopes (scopes.modify place change) := by
  have kept : AtEach scopes fun _ scope => scope.Plain := plain
  exact kept.modify place fun _ => keeps

theorem lookup (plain : PlainScopes scopes) {scope : Nat} {name : String} {value : Value}
    (found : World.lookup scopes scope name = some value) : value.Plain := by
  obtain ⟨index, inside, place, bound⟩ := World.bound_of_lookup found
  exact (plain index inside place).of_lookup bound

end PlainScopes

end MonkeyLang
