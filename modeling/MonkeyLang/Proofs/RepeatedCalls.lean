import MonkeyLang.Proofs.PairedRuns
import MonkeyLang.Proofs.ShapeInvariance

/-! Calls that are made again. The second call finds more scopes than the first one did, and what it returns may be a
function made in a scope of its own. But the scopes from before are as they were, so the world after the first call
corresponds to the one before it, and the scopes that the two calls make correspond to each other: their results cannot be
told apart, not by calling them either. -/

namespace MonkeyLang

/-- A value where there are so many scopes: a function was made in one of them. -/
def Value.Present (count : Nat) : Value → Prop
  | function _ _ scope => scope < count
  | returned value => value.Present count
  | _ => True

/-- Everything that the scopes of the world refer to is there, and scopes lie inside earlier ones. -/
structure World.Closed (world : World) : Prop where
  present : ∀ (index : Nat) (scope : Scope) (name : String) (value : Value), world.scopes[index]? = some scope →
    scope.find? name = some (some value) → value.Present world.scopes.size
  earlier : ∀ (index : Nat) (scope : Scope) (outer : Nat), world.scopes[index]? = some scope → scope.outer = some outer → outer < index

/-- The two values look the same; and called with the same arguments, the second one after the first, they both come to
values of which this holds again, or both to none, or both are stopped by the same fault. What has to hold again goes on
to the given depth. -/
def Value.Indistinct : Nat → World → Value → Value → Prop
  | 0, _, first, second => first.seen = second.seen
  | depth + 1, world, first, second => first.seen = second.seen ∧
    ∀ (limit : Nat) (values : List Value), (∀ value ∈ values, value.Present world.scopes.size) →
      let once := world.run (Eval.call limit first (values.map some))
      let twice := once.2.run (Eval.call limit second (values.map some))
      Outcomes Eq (Option.Rel (Indistinct depth twice.2)) once.1 twice.1

/-- Everything may be named. -/
abbrev anyName (_ : String) : Prop := True

variable {pairing : Pairing} {value value' : Value} {count : Nat}

namespace Value

theorem Present.mono {more : Nat} (present : value.Present count) (le : count ≤ more) : value.Present more := by
  induction value with
  | function parameters body scope => exact Nat.lt_of_lt_of_le present le
  | returned value ih => exact ih present
  | null | boolean | integer | returnedNothing | error => trivial

theorem Present.closure {literal : Node} {scope : Nat} (present : value.Present count)
    (closes : value.closure? = some (literal, scope)) : scope < count := by
  induction value with
  | function parameters body made =>
    obtain ⟨-, rfl⟩ := Prod.mk.inj (Option.some.inj closes)
    exact present
  | returned value ih => exact ih present closes
  | null | boolean | integer | returnedNothing | error => cases closes

theorem Present.matches (present : value.Present count) (self : ∀ index < count, pairing.pairs index index) :
    value.Matches anyName pairing value := by
  apply matches_self
  intro literal scope closes
  exact ⟨literal.speaks_all, self scope (present.closure closes)⟩

theorem matches_all {values : List Value} (each : ∀ value ∈ values, value.Present count)
    (self : ∀ index < count, pairing.pairs index index) :
    List.Forall₂ (Matches? anyName pairing) (values.map some) (values.map some) := by
  apply List.forall₂_same.mpr
  intro bound member
  obtain ⟨value, given, rfl⟩ := List.mem_map.mp member
  exact .some ((each value given).matches self)

theorem Matches.present (same : value.Matches anyName pairing value') :
    value.Present pairing.size ∧ value'.Present pairing.size' := by
  induction same with
  | function _ pair => exact pairing.inside pair
  | returned _ ih => exact ih
  | null | boolean | integer | returnedNothing | error => exact ⟨trivial, trivial⟩

theorem Matches.seen {known : String → Prop} (same : value.Matches known pairing value') : value.seen = value'.seen := by
  rw [Value.seen, Value.seen, same.type, same.inspect]

end Value

namespace World

variable {world : World}

/-- A closed world corresponds to itself. -/
theorem Closed.holds (closed : world.Closed) : (Pairing.diagonal world.scopes.size).Holds anyName world world := by
  refine ⟨rfl, rfl, ?_⟩
  rintro index _ ⟨rfl, inside⟩
  have place : world.scopes[index]? = some world.scopes[index] := Array.getElem?_eq_getElem inside
  refine ⟨_, _, place, place, Scope.matches_self ?_ ?_⟩
  · intro name value _ found
    have present := closed.present index _ name value place found
    exact present.matches fun index inside => ⟨rfl, inside⟩
  · intro outer around
    have earlier := closed.earlier index _ outer place around
    exact ⟨⟨rfl, Nat.lt_trans earlier inside⟩, earlier⟩

/-- Only a closed world does. -/
theorem closed_of_holds (holds : (Pairing.diagonal world.scopes.size).Holds anyName world world) : world.Closed := by
  have self {index : Nat} {scope : Scope} (place : world.scopes[index]? = some scope) :
      scope.Matches anyName (Pairing.diagonal world.scopes.size) index index scope := by
    obtain ⟨inside, -⟩ := Array.getElem?_eq_some_iff.mp place
    obtain ⟨first, second, there, there', same⟩ := holds.scopes index index ⟨rfl, inside⟩
    rw [place] at there there'
    cases there
    cases there'
    exact same
  constructor
  · intro index scope name value place found
    have bound := (self place).bound name trivial
    rw [found] at bound
    cases bound with
    | some bound =>
      cases bound with
      | some same => exact same.present.1
  · intro index scope outer place around
    have outer := (self place).outer
    rw [around] at outer
    cases outer with
    | some outer => exact outer.2.1

variable {α : Type} {values : Pairing → α → α → Prop}

theorem Closed.run {step : Eval α} (closed : world.Closed)
    (runs : Together anyName (Pairing.diagonal world.scopes.size) values step step) : (world.run step).2.Closed := by
  obtain ⟨made, holds, -⟩ := runs world world closed.holds
  rw [Pairing.diagonal_grown] at holds
  have size : (world.run step).2.scopes.size = world.scopes.size + made := holds.size
  apply closed_of_holds
  rw [size]
  exact holds

theorem Closed.eval (closed : world.Closed) (depth : Nat) (node : Node) {scope : Nat}
    (there : scope < world.scopes.size) : (world.eval depth node scope).2.Closed :=
  closed.run (eval_together depth node.speaks_all (Pairing.sole_diagonal there))

theorem Closed.apply (closed : world.Closed) (limit : Nat) {callee : Value} (present : callee.Present world.scopes.size)
    {values : List Value} (each : ∀ value ∈ values, value.Present world.scopes.size) :
    (world.run (Eval.call limit callee (values.map some))).2.Closed := by
  have self : ∀ index < world.scopes.size, (Pairing.diagonal world.scopes.size).pairs index index :=
    fun index inside => ⟨rfl, inside⟩
  have arguments : List.Forall₂ (Value.Matches? anyName (Pairing.diagonal world.scopes.size)) (values.map some)
      (values.map some) := Value.matches_all each self
  exact closed.run (call_together limit (present.matches self) arguments)

theorem Reached.closed {given : List Token → Prop} (reached : world.Reached given) : world.Closed := by
  induction reached with
  | fresh =>
    refine closed_of_holds ⟨rfl, rfl, ?_⟩
    rintro index _ ⟨rfl, inside⟩
    obtain rfl : index = 0 := Nat.lt_one_iff.mp inside
    exact ⟨_, _, rfl, rfl, fun _ _ => .none, .none⟩
  | later _ _ _ depth there ih => exact ih.eval depth _ there

end World

/-- The pairing goes on from each pair of calls to the next: it has the scopes that they made, and every scope corresponds
to itself as well, since later arguments may come from anywhere. -/
theorem Value.Matches.indistinct {world : World} (closed : world.Closed) (holds : pairing.Holds anyName world world)
    (self : ∀ index < world.scopes.size, pairing.pairs index index) (same : value.Matches anyName pairing value')
    (depth : Nat) : value.Indistinct depth world value' := by
  induction depth generalizing pairing world value value' with
  | zero => exact same.seen
  | succ depth ih =>
    refine ⟨same.seen, ?_⟩
    intro limit values each once twice
    have present := same.present
    rw [← holds.size, ← holds.size'] at present
    have first : world.Intact once.2 := apply_intact (eval_writes limit) value _ world
    have second : once.2.Intact twice.2 := apply_intact (eval_writes limit) value' _ once.2
    have afterOnce : once.2.Closed := closed.apply limit present.1 each
    have afterTwice : twice.2.Closed := by
      apply afterOnce.apply limit (present.2.mono first.grows)
      intro value member
      exact (each value member).mono first.grows
    -- the first call runs in the world before it, the second one in the world that it left
    obtain ⟨between, pairs, between_holds⟩ := holds.intact (.of_scopes rfl) first
    have kept : ∀ index index', pairing.pairs index index' → between.pairs index index' := by
      intro index index' pair
      rw [pairs]
      exact pair
    have arguments : List.Forall₂ (Value.Matches? anyName between) (values.map some) (values.map some) :=
      Value.matches_all each fun index inside => kept _ _ (self index inside)
    obtain ⟨made, results_hold, outcomes⟩ := call_together limit (same.mono kept) arguments world once.2 between_holds
    obtain ⟨later, pairs', later_holds⟩ := results_hold.intact second (.of_scopes rfl)
    obtain ⟨both, union, both_hold⟩ := later_holds.union afterTwice.holds
    have again {result result' : Value} (same : result.Matches anyName (between.grown made) result') :
        result.Indistinct depth twice.2 result' := by
      apply ih afterTwice both_hold
      · intro index inside
        exact (union index index).mpr (.inr ⟨rfl, inside⟩)
      · apply same.mono
        intro index index' pair
        apply (union index index').mpr
        rw [pairs']
        exact .inl pair
    apply outcomes.imp
    intro result result' same
    cases same with
    | none => exact .none
    | some same => exact .some (again same)

/-- In every world that programs lead to, everything that scopes refer to is there; evaluation in a scope that is there
and calls of what is there keep it so. In such a world nothing can tell a function from itself a call later: called twice
with the same arguments it comes twice to a value, twice to none or twice to the same fault. The two values look the
same, and called with the same arguments they again come to values that look the same, to any depth. -/
theorem applications_repeat :
    (∀ {given : List Token → Prop} {world : World}, world.Reached given → world.Closed) ∧
    (∀ {world : World}, world.Closed → ∀ limit : Nat,
      (∀ (node : Node) (scope : Nat), scope < world.scopes.size → (world.eval limit node scope).2.Closed) ∧
      ∀ (callee : Value) (values : List Value), callee.Present world.scopes.size →
        (∀ value ∈ values, value.Present world.scopes.size) →
        (world.run (Eval.call limit callee (values.map some))).2.Closed) ∧
    ∀ {world : World}, world.Closed → ∀ callee : Value, callee.Present world.scopes.size → ∀ depth : Nat,
      callee.Indistinct depth world callee := by
  refine ⟨World.Reached.closed, ?_, ?_⟩
  · intro world closed limit
    exact ⟨fun node scope there => closed.eval limit node there, fun callee values present each =>
      closed.apply limit present each⟩
  · intro world closed callee present depth
    have self : ∀ index < world.scopes.size, (Pairing.diagonal world.scopes.size).pairs index index :=
      fun index inside => ⟨rfl, inside⟩
    exact (present.matches self).indistinct closed closed.holds self depth

namespace Parsed

/-- The function literals `fn(y) { x }` and `fn(x) { fn(y) { x } }`. -/
def constant : Node :=
  .function (some ⟨.functionWord, "fn", ⟨1, 17⟩⟩) (.sequence [.identifier (some ⟨.identifier, "y", ⟨1, 20⟩⟩) "y"])
    (.block (some ⟨.leftBrace, "\x7b", ⟨1, 23⟩⟩) (.sequence
      [.statement (some ⟨.identifier, "x", ⟨1, 25⟩⟩) (.identifier (some ⟨.identifier, "x", ⟨1, 25⟩⟩) "x")]))

def maker : Node :=
  .function (some ⟨.functionWord, "fn", ⟨1, 9⟩⟩) (.sequence [.identifier (some ⟨.identifier, "x", ⟨1, 12⟩⟩) "x"])
    (.block (some ⟨.leftBrace, "\x7b", ⟨1, 15⟩⟩) (.sequence
      [.statement (some ⟨.functionWord, "fn", ⟨1, 17⟩⟩) constant]))

/-- The program that binds the second one to `f`. -/
def constants : Node :=
  .program (.sequence
    [.letBinding (some ⟨.letWord, "let", ⟨1, 1⟩⟩) (.identifier (some ⟨.identifier, "f", ⟨1, 5⟩⟩) "f") maker])

/-- The function that a literal makes in a scope. -/
def made (scope : Nat) : Node → Value
  | .function _ parameters body => .function parameters body scope
  | _ => .null

set_option maxRecDepth 2000 in
/-- Called twice, `f` gives functions made in two scopes, which look the same and do the same. -/
theorem constants_repeat :
    (ofTokens 20 (Token.ofText "let f = fn(x) \x7b fn(y) \x7b x \x7d \x7d;")).result = .ok constants ∧
    let world := (World.fresh.eval 9 constants 0).2
    world.Reached (fun _ => True) ∧ world.get 0 "f" = some (made 0 maker) ∧ (made 0 maker).Present world.scopes.size ∧
      let once := world.run (Eval.call 9 (made 0 maker) [some (.integer 1)])
      let twice := once.2.run (Eval.call 9 (made 0 maker) [some (.integer 1)])
      once.1 = .ok (some (made 1 constant)) ∧ twice.1 = .ok (some (made 2 constant)) ∧
      ∀ depth, (made 1 constant).Indistinct depth twice.2 (made 2 constant) := by
  have parsed : (ofTokens 20 (Token.ofText "let f = fn(x) \x7b fn(y) \x7b x \x7d \x7d;")).result = .ok constants := by cbv
  have reached : (World.fresh.eval 9 constants 0).2.Reached fun _ => True :=
    .later .fresh trivial parsed 9 Nat.zero_lt_one
  have closed := applications_repeat.1 reached
  have there : 0 < (World.fresh.eval 9 constants 0).2.scopes.size := by cbv
  refine ⟨parsed, reached, by cbv, there, rfl, rfl, ?_⟩
  intro depth
  obtain ⟨-, calls⟩ := applications_repeat.2.2 closed (made 0 maker) there (depth + 1)
  cases calls 9 [.integer 1] (List.forall_mem_singleton.mpr trivial) with
  | ok same =>
    cases same with
    | some same => exact same

end Parsed

end MonkeyLang
