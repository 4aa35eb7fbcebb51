import MonkeyLang.Proofs.RepeatedCalls

/-! Names that nothing mentions. Evaluation gets from its scope to those around it, and from a scope to those in which the
functions were made that it binds. As long as neither what is evaluated nor any of these functions has a name, it does not
matter to what that name is bound: the scopes correspond to themselves but for this name, and corresponding runs cannot be
told apart. -/

namespace MonkeyLang

variable {known : String → Prop} {pairing : Pairing}

theorem Value.Matches?.seen {value value' : Option Value} (same : Value.Matches? known pairing value value') :
    value.map Value.seen = value'.map Value.seen := by
  cases same with
  | none => rfl
  | some same => exact congrArg some same.seen

namespace Outcomes

variable {result result' : Except Fault (Option Value)}

theorem seen (outcomes : Outcomes Eq (Value.Matches? known pairing) result result') :
    result.map (Option.map Value.seen) = result'.map (Option.map Value.seen) := by
  cases outcomes with
  | error same => exact congrArg Except.error same
  | ok same => exact congrArg Except.ok (Value.Matches?.seen same)

theorem stopped_iff (outcomes : Outcomes Eq (Value.Matches? known pairing) result result') (cause : Fault) :
    result = .error cause ↔ result' = .error cause := by
  cases outcomes with
  | error same => rw [same]
  | ok => exact ⟨nofun, nofun⟩

end Outcomes

namespace World

/-- The scopes that evaluation can get to from one of them, if it looks up only names that are known. -/
inductive Reaches (world : World) (known : String → Prop) (start : Nat) : Nat → Prop
  | start : Reaches world known start start
  | around {index scope outer} (reaches : Reaches world known start index) (place : world.scopes[index]? = some scope)
      (around : scope.outer = some outer) : Reaches world known start outer
  | closure {index scope name value literal made} (reaches : Reaches world known start index)
      (place : world.scopes[index]? = some scope) (matters : known name) (bound : scope.find? name = some (some value))
      (closes : value.closure? = some (literal, made)) : Reaches world known start made

/-- Every function that evaluation can get to in this way has only known names in its parameters and its body. -/
def Confined (world : World) (known : String → Prop) (start : Nat) : Prop :=
  ∀ ⦃index scope name value literal made⦄, world.Reaches known start index → world.scopes[index]? = some scope →
    known name → scope.find? name = some (some value) → value.closure? = some (literal, made) → literal.Speaks known

/-- What can be seen of a name in a scope: what the scope itself binds it to, if it does, and what it means there. -/
def shows (world : World) (scope : Nat) (name : String) :
    Option (Option (ValueType × String)) × Option (ValueType × String) :=
  ((world.scopes[scope]?.bind (·.find? name)).map (Option.map Value.seen), (world.get scope name).map Value.seen)

variable {world : World} {start index : Nat}

theorem Reaches.inside (closed : world.Closed) (there : start < world.scopes.size)
    (reaches : world.Reaches known start index) : index < world.scopes.size := by
  induction reaches with
  | start => exact there
  | around _ place around ih => exact Nat.lt_trans (closed.earlier _ _ _ place around) ih
  | closure _ place _ bound closes _ => exact (closed.present _ _ _ _ place bound).closure closes

/-- The scopes that evaluation can get to correspond to themselves. -/
theorem Confined.holds (confined : world.Confined known start) (closed : world.Closed)
    (there : start < world.scopes.size) :
    ∃ pairing : Pairing, (∀ index index', pairing.pairs index index' ↔ index = index' ∧ world.Reaches known start index) ∧
      pairing.Holds known world world := by
  have inside {index index' : Nat} (pair : index = index' ∧ world.Reaches known start index) :
      index < world.scopes.size ∧ index' < world.scopes.size := by
    obtain ⟨rfl, reaches⟩ := pair
    exact ⟨reaches.inside closed there, reaches.inside closed there⟩
  refine ⟨⟨fun index index' => index = index' ∧ world.Reaches known start index, _, _, inside⟩, fun _ _ => .rfl, rfl, rfl, ?_⟩
  rintro index _ ⟨rfl, reaches⟩
  obtain ⟨scope, place⟩ : ∃ scope, world.scopes[index]? = some scope :=
    ⟨_, Array.getElem?_eq_getElem (reaches.inside closed there)⟩
  refine ⟨scope, scope, place, place, Scope.matches_self ?_ ?_⟩
  · intro name value matters bound
    apply Value.matches_self
    intro literal made closes
    exact ⟨confined reaches place matters bound closes, rfl, reaches.closure place matters bound closes⟩
  · intro outer around
    exact ⟨⟨rfl, reaches.around place around⟩, closed.earlier index scope outer place around⟩

end World

variable {first second : World} {index index' : Nat} {name : String}

/-- Names that are not known do not count. -/
theorem Scope.Matches.set_unknown {scope scope' : Scope} (same : scope.Matches known pairing index index' scope')
    (unknown : ¬known name) (value : Option Value) :
    scope.Matches known pairing index index' (scope'.set name value) where
  bound other matters := by
    have different : other ≠ name := fun hidden => unknown (hidden ▸ matters)
    rw [Scope.find?_set, if_neg different]
    exact same.bound other matters
  outer := same.outer

namespace Pairing.Holds

theorem set_unknown (holds : pairing.Holds known first second) (unknown : ¬known name) (scope : Nat)
    (value : Option Value) : pairing.Holds known first (second.set scope name value) where
  size := holds.size
  size' := (Array.size_modify ..).trans holds.size'
  scopes index index' pair := by
    obtain ⟨found, found', place, place', same⟩ := holds.scopes index index' pair
    rw [World.set, Array.getElem?_modify, place']
    split
    · exact ⟨found, _, place, rfl, same.set_unknown unknown value⟩
    · exact ⟨found, found', place, rfl, same⟩

theorem shows (holds : pairing.Holds known first second) (matters : known name) (pair : pairing.pairs index index') :
    first.shows index name = second.shows index' name := by
  obtain ⟨scope, scope', place, place', same⟩ := holds.scopes index index' pair
  have meaning := holds.lookup matters pair
  rw [World.shows, World.shows, place, place']
  refine Prod.ext ?_ (Value.Matches?.seen meaning)
  have bound := same.bound name matters
  dsimp only [Option.bind_some]
  generalize scope.find? name = found at bound
  generalize scope'.find? name = found' at bound
  cases bound with
  | none => rfl
  | some bound => exact congrArg some (Value.Matches?.seen bound)

end Pairing.Holds

/-- A binding that nothing mentions has no influence. In every world that programs lead to, everything that scopes refer to
is there. In such a world let a name occur neither in what is evaluated nor in a function that evaluation can get to by
other names. Then the name can be bound to anything, also to a function that was made in one of these scopes or in one that
is new: at every limit both runs come to values that look the same, or both to none, or both are stopped by the same
fault, and afterwards every other name is bound to what looks the same and means what looks the same, in the scope of the
evaluation and in all that can be got to from there. -/
theorem unmentioned_name_ignored :
    (∀ {given : List Token → Prop} {world : World}, world.Reached given → world.Closed) ∧
    ∀ {world other : World} {scope : Nat} {name : String} {node : Node}, world.Closed → scope < world.scopes.size →
      world.Intact other → name ∉ node.words → world.Confined (· ≠ name) scope → ∀ (value : Option Value) (depth : Nat),
        let plain := world.eval depth node scope
        let rebound := (other.set scope name value).eval depth node scope
        plain.1.map (Option.map Value.seen) = rebound.1.map (Option.map Value.seen) ∧
        (plain.1 = .error .exhausted ↔ rebound.1 = .error .exhausted) ∧
        ∀ index, world.Reaches (· ≠ name) scope index → ∀ word ≠ name,
          plain.2.shows index word = rebound.2.shows index word := by
  refine ⟨World.Reached.closed, ?_⟩
  intro world other scope name node closed there intact absent confined value depth plain rebound
  have speaks : node.Speaks (· ≠ name) := fun word member same => absent (same ▸ member)
  have unknown : ¬name ≠ name := fun different => different rfl
  obtain ⟨self, pairs, self_holds⟩ := confined.holds closed there
  obtain ⟨pairing, same_pairs, holds⟩ := self_holds.intact (.of_scopes rfl) intact
  have reached (index : Nat) (reaches : world.Reaches (· ≠ name) scope index) : pairing.pairs index index := by
    rw [same_pairs, pairs]
    exact ⟨rfl, reaches⟩
  have sole : pairing.Sole scope scope := by
    refine ⟨reached scope .start, ?_⟩
    intro index index' pair
    rw [same_pairs, pairs] at pair
    rw [pair.1]
  obtain ⟨made, after, outcomes⟩ := eval_together depth speaks sole world _ (holds.set_unknown unknown scope value)
  refine ⟨outcomes.seen, outcomes.stopped_iff .exhausted, ?_⟩
  intro index reaches word matters
  exact after.shows matters (.inl (reached index reaches))

namespace Parsed

/-- The function literals `fn(a) { a }` and `fn(a) { x(g(a)) }`. -/
def giving : Node :=
  .function (some ⟨.functionWord, "fn", ⟨2, 9⟩⟩) (.sequence [.identifier (some ⟨.identifier, "a", ⟨2, 12⟩⟩) "a"])
    (.block (some ⟨.leftBrace, "\x7b", ⟨2, 15⟩⟩) (.sequence
      [.statement (some ⟨.identifier, "a", ⟨2, 17⟩⟩) (.identifier (some ⟨.identifier, "a", ⟨2, 17⟩⟩) "a")]))

def endless : Node :=
  .function (some ⟨.functionWord, "fn", ⟨1, 9⟩⟩) (.sequence [.identifier (some ⟨.identifier, "a", ⟨1, 12⟩⟩) "a"])
    (.block (some ⟨.leftBrace, "\x7b", ⟨1, 15⟩⟩) (.sequence
      [.statement (some ⟨.identifier, "x", ⟨1, 17⟩⟩) (.call (some ⟨.leftParen, "(", ⟨1, 18⟩⟩)
        (.identifier (some ⟨.identifier, "x", ⟨1, 17⟩⟩) "x") (.sequence
          [.call (some ⟨.leftParen, "(", ⟨1, 20⟩⟩) (.identifier (some ⟨.identifier, "g", ⟨1, 19⟩⟩) "g")
            (.sequence [.identifier (some ⟨.identifier, "a", ⟨1, 21⟩⟩) "a"])]))]))

/-- The program that binds them to `g` and `x`, and the program `g(2)`. -/
def definitions : Node :=
  .program (.sequence
    [.letBinding (some ⟨.letWord, "let", ⟨1, 1⟩⟩) (.identifier (some ⟨.identifier, "x", ⟨1, 5⟩⟩) "x") endless,
      .letBinding (some ⟨.letWord, "let", ⟨2, 1⟩⟩) (.identifier (some ⟨.identifier, "g", ⟨2, 5⟩⟩) "g") giving])

def asking : Node :=
  .program (.sequence [.statement (some ⟨.identifier, "g", ⟨1, 1⟩⟩) (.call (some ⟨.leftParen, "(", ⟨1, 2⟩⟩)
    (.identifier (some ⟨.identifier, "g", ⟨1, 1⟩⟩) "g")
    (.sequence [.integer (some ⟨.integer, "2", ⟨1, 3⟩⟩) 2]))])

/-- The only scope in the world that the first program leaves, and this world. -/
def leftScope : Scope := ⟨[("x", some (made 0 endless)), ("g", some (made 0 giving))], [], none⟩

def leftWorld : World := ⟨#[leftScope], []⟩

/-- By other names than `x` evaluation gets to no other scope and to no function but that of `g`. -/
theorem leftWorld_confined : leftWorld.Confined (· ≠ "x") 0 := by
  have bound {scope : Scope} {name : String} {value : Value} (place : leftWorld.scopes[0]? = some scope)
      (other : name ≠ "x") (found : scope.find? name = some (some value)) : value = made 0 giving := by
    obtain rfl : leftScope = scope := Option.some.inj place
    rw [Scope.find?, leftScope, Scope.lookup_binding, if_neg other, Scope.lookup_binding] at found
    split at found
    · exact (Option.some.inj (Option.some.inj found)).symm
    · cases found
  have only {index : Nat} (reaches : leftWorld.Reaches (· ≠ "x") 0 index) : index = 0 := by
    induction reaches with
    | start => rfl
    | around _ place around ih =>
      subst ih
      cases place
      cases around
    | closure _ place other found closes ih =>
      subst ih
      cases bound place other found
      cases closes
      rfl
  intro index scope name value literal inner reaches place other found closes
  cases only reaches
  cases bound place other found
  cases closes
  intro word member
  revert word
  decide

set_option maxRecDepth 2000 in
/-- `x` can be bound to a function that was made where it is bound itself. That the one which it was bound to before has
`x` in it does not matter, since evaluation can get to it only by that name. -/
theorem endless_ignored :
    (ofText 30 "let x = fn(a) \x7b x(g(a)) \x7d;\nlet g = fn(a) \x7b a \x7d;").result = .ok definitions ∧
    (ofText 30 "g(2)").result = .ok asking ∧ (World.fresh.eval 9 definitions 0).2 = leftWorld ∧
    leftWorld.Reached (fun _ => True) ∧ leftWorld.Closed ∧ leftWorld.Confined (· ≠ "x") 0 ∧ "x" ∉ asking.words ∧
    let plain := leftWorld.eval 9 asking 0
    let rebound := (leftWorld.set 0 "x" (some (made 0 giving))).eval 9 asking 0
    plain.1 = .ok (some (.integer 2)) ∧ rebound.1.map (Option.map Value.seen) = .ok (some (.integer, "2")) ∧
      ∀ word ≠ "x", plain.2.shows 0 word = rebound.2.shows 0 word := by
  have defined : (ofText 30 "let x = fn(a) \x7b x(g(a)) \x7d;\nlet g = fn(a) \x7b a \x7d;").result = .ok definitions := by
    cbv
  have both : (World.fresh.eval 9 definitions 0).2 = leftWorld := by cbv
  have reached : leftWorld.Reached fun _ => True := by
    rw [← both]
    exact .later .fresh trivial defined 9 Nat.zero_lt_one
  have closed := unmentioned_name_ignored.1 reached
  have absent : "x" ∉ asking.words := by decide
  have plain : (leftWorld.eval 9 asking 0).1 = .ok (some (.integer 2)) := by cbv
  obtain ⟨seen, -, shown⟩ := unmentioned_name_ignored.2 closed Nat.zero_lt_one (.of_scopes rfl) absent leftWorld_confined
    (some (made 0 giving)) 9
  rw [plain] at seen
  exact ⟨defined, by cbv, both, reached, closed, leftWorld_confined, absent, plain, seen.symm, shown 0 .start⟩

end Parsed

end MonkeyLang
