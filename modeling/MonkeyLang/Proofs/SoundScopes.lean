import MonkeyLang.Proofs.SignalPassing

/-! What must be true of the scopes that programs run in. Each binds values that can be stored and nothing else, integers
are in range, and whatever refers to a scope refers to one there is; the scope around a scope was made before it, so
that every lookup ends. It stays true when a value that can be stored is bound and when a call makes a scope. -/

namespace MonkeyLang

namespace Signed64

/-- A signed 64-bit integer. -/
def InRange (value : Int) : Prop := least ≤ value ∧ value ≤ greatest

theorem inRange_wrap (value : Int) : InRange (wrap value) := ⟨least_le_wrap value, wrap_le_greatest value⟩

theorem InRange.writable {value : Int} (inRange : InRange value) : Numeral.Writable value := by
  obtain ⟨low, high⟩ := inRange
  refine Numeral.writable_of_natAbs_le ?_
  simp only [least, greatest, modulus] at low high ⊢
  omega

theorem inRange_divide {left right quotient : Int} (divided : divide? left right = some quotient) : InRange quotient := by
  unfold divide? at divided
  split at divided
  · cases divided
  · exact Option.some.inj divided ▸ inRange_wrap _

end Signed64

/-- A tree whose numbers are in range. -/
abbrev Node.Ranged : Role → Node → Prop := Node.Formed fun
  | .integer _ value => Signed64.InRange value
  | _ => True

theorem Node.Ranged.regular {role : Role} {node : Node} (ranged : Node.Ranged role node) : Node.Regular role node :=
  Node.Formed.regular ranged Signed64.InRange.writable

namespace Value

/-- A value that can be stored where there are so many scopes. -/
def Storable (count : Nat) : Value → Prop
  | null | boolean _ => True
  | integer value => Signed64.InRange value
  | function parameters body scope => scope < count ∧ Node.Ranged .expression (.function none parameters body)
  | returned _ | returnedNothing | error _ => False

/-- A value that a node may come to. What is returned can be stored and is no signal again. -/
inductive Sound (count : Nat) : Value → Prop
  | plain {value} (storable : value.Storable count) : Sound count value
  | returned {value : Value} (storable : value.Storable count) : Sound count (.returned value)
  | error {reason} : Sound count (.error reason)

variable {count more : Nat} {value : Value}

theorem Storable.mono (storable : value.Storable count) (le : count ≤ more) : value.Storable more := by
  cases value with
  | function parameters body scope => exact ⟨Nat.lt_of_lt_of_le storable.1 le, storable.2⟩
  | null | boolean | integer => exact storable
  | returned | returnedNothing | error => exact storable.elim

theorem Sound.storable (sound : value.Sound count) (plain : value.isSignal = false) : value.Storable count := by
  cases sound with
  | plain storable => exact storable
  | returned | error => cases plain

end Value

namespace Operator

variable {count : Nat}

theorem applyUnary_sound (operator : String) (right : Value) : (applyUnary operator right).Sound count := by
  unfold applyUnary
  split
  · exact .plain trivial
  · split
    · split
      · exact .plain (Signed64.inRange_wrap _)
      · exact .error
    · exact .error

theorem applyInteger_sound (operator : String) (left right : Int) : (applyInteger operator left right).Sound count := by
  unfold applyInteger
  repeat' split
  all_goals first | exact .error | exact .plain trivial | exact .plain (Signed64.inRange_wrap _) | skip
  next divided => exact .plain (Signed64.inRange_divide divided)

theorem applyBinary_sound (operator : String) (left right : Value) : (applyBinary operator left right).Sound count := by
  unfold applyBinary
  split
  · exact applyInteger_sound _ _ _
  · repeat' split
    all_goals first | exact .plain trivial | exact .error
  · split <;> exact .error

end Operator

/-- A scope in its place among so many others. -/
structure Scope.Sound (count index : Nat) (scope : Scope) : Prop where
  stored : ∀ name bound, (name, bound) ∈ scope.bindings → ∃ value, bound = some value ∧ value.Storable count
  words : scope.strays = []
  earlier : ∀ outer, scope.outer = some outer → outer < index

def SoundScopes (scopes : Array Scope) : Prop := AtEach scopes fun index scope => scope.Sound scopes.size index

namespace Scope.Sound

variable {count index : Nat} {scope : Scope}

theorem mono {more : Nat} (sound : scope.Sound count index) (le : count ≤ more) : scope.Sound more index where
  stored name bound member := by
    obtain ⟨value, same, storable⟩ := sound.stored name bound member
    exact ⟨value, same, storable.mono le⟩
  words := sound.words
  earlier := sound.earlier

theorem set {value : Value} (sound : scope.Sound count index) (name : String) (storable : value.Storable count) :
    (scope.set name (some value)).Sound count index where
  stored other bound member := by
    rcases mem_setIn member with same | before
    · exact ⟨value, same, storable⟩
    · exact sound.stored other bound before
  words := sound.words
  earlier := sound.earlier

theorem withArguments {parameters : List Node} {values : List Value} (sound : scope.Sound count index)
    (storable : ∀ value ∈ values, value.Storable count) :
    (Raising.withArguments parameters values scope).Sound count index := by
  fun_induction Raising.withArguments parameters values scope with
  | case1 =>
    rename_i ih
    obtain ⟨first, others⟩ := List.forall_mem_cons.mp storable
    exact ih (sound.set _ first) others
  | case2 => exact sound

end Scope.Sound

namespace SoundScopes

variable {scopes : Array Scope}

theorem push {scope : Scope} (sound : SoundScopes scopes) (fits : scope.Sound (scopes.size + 1) scopes.size) :
    SoundScopes (scopes.push scope) := by
  have kept : AtEach scopes fun index scope => scope.Sound (scopes.size + 1) index :=
    fun index scope place => (sound index scope place).mono (Nat.le_succ _)
  rw [SoundScopes, Array.size_push]
  exact kept.push fits

theorem fresh : SoundScopes World.fresh.scopes := by
  have empty : SoundScopes World.empty.scopes := fun _ _ place => nomatch place
  exact empty.push ⟨nofun, rfl, nofun⟩

/-- A call makes a scope around which the one of the function lies. -/
theorem call {outer : Nat} {parameters : List Node} {values : List Value} (sound : SoundScopes scopes)
    (there : outer < scopes.size) (storable : ∀ value ∈ values, value.Storable scopes.size) :
    SoundScopes (scopes.push (Raising.withArguments parameters values ⟨[], [], some outer⟩)) := by
  have made : Scope.Sound (scopes.size + 1) scopes.size ⟨[], [], some outer⟩ :=
    ⟨nofun, rfl, fun _ same => Option.some.inj same ▸ there⟩
  exact sound.push (made.withArguments fun value member => (storable value member).mono (Nat.le_succ _))

theorem set {value : Value} (sound : SoundScopes scopes) (scope : Nat) (name : String)
    (storable : value.Storable scopes.size) : SoundScopes (scopes.modify scope (·.set name (some value))) := by
  rw [SoundScopes, Array.size_modify]
  exact sound.modify scope fun _ _ fits => fits.set name storable

theorem lookup (sound : SoundScopes scopes) {scope : Nat} {name : String} {value : Value}
    (found : World.lookup scopes scope name = some value) : value.Storable scopes.size := by
  obtain ⟨index, inside, place, bound⟩ := World.bound_of_lookup found
  obtain ⟨_, same, storable⟩ := (sound index inside place).stored name _ (Scope.mem_of_find bound)
  exact Option.some.inj same ▸ storable

end SoundScopes

/-- A lookup that follows the scopes outward, wherever they lead, until one binds the name or there is none around. -/
inductive Finds (scopes : Array Scope) (name : String) : Nat → Option Value → Prop
  | bound {index scope bound} (place : scopes[index]? = some scope) (binds : scope.find? name = some bound) :
      Finds scopes name index bound
  | unbound {index scope} (place : scopes[index]? = some scope) (free : scope.find? name = none)
      (last : scope.outer = none) : Finds scopes name index none
  | outward {index outer scope result} (place : scopes[index]? = some scope) (free : scope.find? name = none)
      (around : scope.outer = some outer) (later : Finds scopes name outer result) : Finds scopes name index result

/-- A lookup ends, with what the name means, where the scope around a scope was made before it. -/
theorem World.finds {scopes : Array Scope} (earlier : ∀ (index : Nat) scope, scopes[index]? = some scope →
    ∀ outer, scope.outer = some outer → outer < index) {index : Nat} (there : index < scopes.size) (name : String) :
    Finds scopes name index (World.lookup scopes index name) := by
  induction index using Nat.strong_induction_on with
  | _ index ih =>
    have place : scopes[index]? = some scopes[index] := Array.getElem?_eq_getElem there
    rw [World.lookup, place]
    dsimp only
    cases found : scopes[index].find? name with
    | some bound => exact .bound place found
    | none =>
      cases around : scopes[index].outer with
      | none => exact .unbound place found around
      | some outer =>
        have before := earlier index _ place outer around
        simp only [before, if_true]
        exact .outward place found around (ih outer before (Nat.lt_trans before there))

/-- Every lookup in sound scopes ends. -/
theorem SoundScopes.finds {scopes : Array Scope} (sound : SoundScopes scopes) {index : Nat} (there : index < scopes.size)
    (name : String) : Finds scopes name index (World.lookup scopes index name) :=
  World.finds (fun index scope place => (sound index scope place).earlier) there name

end MonkeyLang
