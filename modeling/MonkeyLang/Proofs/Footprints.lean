import MonkeyLang.Proofs.EvaluationSafety

/-! What evaluation writes. A node binds names in the scope that it is evaluated in, and only those that a let statement
of it has as targets; function literals are not looked into, since a call binds what it binds in a scope of its own.
Scopes gain bindings and never lose one, and a call leaves all scopes there are as they were. -/

namespace MonkeyLang

namespace Node

/-- The nodes directly below a node that are evaluated in its scope. -/
def inner : Node → List Node
  | program (sequence nodes) | block _ (sequence nodes) => nodes
  | letBinding _ _ value | returning _ value | statement _ value | unary _ _ value => [value]
  | binary _ left _ right => [left, right]
  | conditional _ condition consequence .missing => [condition, consequence]
  | conditional _ condition consequence alternative => [condition, consequence, alternative]
  | call _ callee (sequence arguments) => callee :: arguments
  | call _ callee _ => [callee]
  | _ => []

/-- The nodes of a tree that are not inside of a function literal. -/
inductive Outside (root : Node) : Node → Prop
  | root : Outside root root
  | child {parent child} (outside : Outside root parent) (member : child ∈ parent.inner) : Outside root child

/-- A let statement outside of function literals has the name as its target. -/
def Binds (node : Node) (name : Name) : Prop :=
  ∃ token target value, node.Outside (.letBinding token target value) ∧ Name.ofNode target = .ok name

variable {parent child node : Node}

theorem Outside.under (outside : child.Outside node) (member : child ∈ parent.inner) : parent.Outside node := by
  induction outside with
  | root => exact .child .root member
  | child _ inside ih => exact .child ih inside

theorem Binds.under {name : Name} (binds : child.Binds name) (member : child ∈ parent.inner) : parent.Binds name := by
  obtain ⟨token, target, value, outside, named⟩ := binds
  exact ⟨token, target, value, outside.under member, named⟩

theorem Formed.outside {fits : Node → Prop} {role : Role} (formed : Formed fits role parent) (evaluated : role ≠ .name)
    (outside : parent.Outside node) : ∃ role, role ≠ .name ∧ Formed fits role node := by
  induction outside with
  | root => exact ⟨role, evaluated, formed⟩
  | child _ member ih =>
    obtain ⟨role, -, form⟩ := ih
    apply form.child
    cases form with
    | program | block | returning | statement | unary | binary | conditional | call => exact member
    | letBinding => exact List.mem_cons_of_mem _ member
    | alternative _ _ no =>
      cases no with
      | block => exact member
    | name | identifier | integer | boolean | function => cases member

/-- In a tree with the right kinds of nodes in the right places only words are bound. -/
theorem Binds.word {role : Role} {name : Name} (binds : node.Binds name) (regular : Node.Regular role node)
    (evaluated : role ≠ .name) : ∃ text token target value, name = .word text ∧
      node.Outside (.letBinding token (.identifier target text) value) := by
  obtain ⟨token, target, value, outside, named⟩ := binds
  obtain ⟨role, -, form⟩ := regular.outside evaluated outside
  cases form with
  | letBinding bound _ =>
    cases bound with
    | @name target text => exact ⟨text, token, target, value, (Except.ok.inj named).symm, outside⟩

end Node

/-- What a scope may become while names are bound in it. -/
structure Scope.Rebound (names : Name → Prop) (before after : Scope) : Prop where
  outer : after.outer = before.outer
  kept : ∀ name, (before.find? name).isSome → (after.find? name).isSome
  words : ∀ name, ¬names (.word name) → after.find? name = before.find? name
  strays : (∀ name, names name → ∃ text, name = .word text) → after.strays = before.strays

namespace Scope.Rebound

variable {names more : Name → Prop} {first second third : Scope}

theorem refl (scope : Scope) : scope.Rebound names scope := ⟨rfl, fun _ => id, fun _ _ => rfl, fun _ => rfl⟩

theorem trans (earlier : first.Rebound names second) (later : second.Rebound names third) : first.Rebound names third where
  outer := later.outer.trans earlier.outer
  kept name bound := later.kept name (earlier.kept name bound)
  words name other := (later.words name other).trans (earlier.words name other)
  strays words := (later.strays words).trans (earlier.strays words)

theorem mono (rebound : first.Rebound names second) (implies : ∀ name, names name → more name) :
    first.Rebound more second where
  outer := rebound.outer
  kept := rebound.kept
  words name other := rebound.words name fun bound => other (implies _ bound)
  strays words := rebound.strays fun name bound => words name (implies name bound)

theorem bind (scope : Scope) (name : Name) (value : Option Value) : scope.Rebound (· = name) (scope.bind name value) := by
  cases name with
  | word text =>
    refine ⟨rfl, ?_, ?_, fun _ => rfl⟩
    · intro other bound
      rw [Scope.bind, find?_set]
      split
      · rfl
      · exact bound
    · intro other different
      rw [Scope.bind, find?_set, if_neg]
      exact fun same => different (same ▸ rfl)
  | number | truth | nothing =>
    refine ⟨rfl, fun _ => id, fun _ _ => rfl, ?_⟩
    intro words
    obtain ⟨text, same⟩ := words _ rfl
    cases same

end Scope.Rebound

namespace World

/-- Names were bound in the one scope; the others are as they were. Scopes that were made on the way come after those
there are. -/
structure Footprint (scope : Nat) (names : Name → Prop) (before after : World) : Prop where
  grows : before.scopes.size ≤ after.scopes.size
  others : ∀ index < before.scopes.size, index ≠ scope → after.scopes[index]? = before.scopes[index]?
  own : ∀ found, before.scopes[scope]? = some found →
    ∃ later, after.scopes[scope]? = some later ∧ found.Rebound names later

/-- The scopes there are have stayed as they were. -/
structure Intact (before after : World) : Prop where
  grows : before.scopes.size ≤ after.scopes.size
  same : ∀ index < before.scopes.size, after.scopes[index]? = before.scopes[index]?

variable {scope : Nat} {names more : Name → Prop} {first second third : World}

theorem Intact.of_scopes (same : second.scopes = first.scopes) : first.Intact second :=
  ⟨Nat.le_of_eq (congrArg Array.size same.symm), fun _ _ => by rw [same]⟩

theorem Intact.footprint (intact : first.Intact second) : first.Footprint scope names second where
  grows := intact.grows
  others index inside _ := intact.same index inside
  own found place := by
    obtain ⟨inside, -⟩ := Array.getElem?_eq_some_iff.mp place
    exact ⟨found, (intact.same scope inside).trans place, .refl found⟩

namespace Footprint

theorem trans (earlier : first.Footprint scope names second) (later : second.Footprint scope names third) :
    first.Footprint scope names third where
  grows := Nat.le_trans earlier.grows later.grows
  others index inside other :=
    (later.others index (Nat.lt_of_lt_of_le inside earlier.grows) other).trans (earlier.others index inside other)
  own found place := by
    obtain ⟨middle, place, rebound⟩ := earlier.own found place
    obtain ⟨last, place, again⟩ := later.own middle place
    exact ⟨last, place, rebound.trans again⟩

theorem mono (footprint : first.Footprint scope names second) (implies : ∀ name, names name → more name) :
    first.Footprint scope more second where
  grows := footprint.grows
  others := footprint.others
  own found place := by
    obtain ⟨later, place, rebound⟩ := footprint.own found place
    exact ⟨later, place, rebound.mono implies⟩

theorem bind (world : World) (scope : Nat) (name : Name) (value : Option Value) :
    world.Footprint scope (· = name) (world.bind scope name value) where
  grows := Nat.le_of_eq (Array.size_modify ..).symm
  others index inside other := by rw [World.bind, Array.getElem?_modify, if_neg (Ne.symm other)]
  own found place := by
    refine ⟨found.bind name value, ?_, .bind found name value⟩
    rw [World.bind, Array.getElem?_modify, if_pos rfl, place]
    rfl

/-- What is bound in a scope that was just made concerns none of those from before. -/
theorem intact {made : Scope} {calls : List Call} {after : World}
    (footprint : Footprint first.scopes.size names ⟨first.scopes.push made, calls⟩ after) : first.Intact after := by
  have pushed : (first.scopes.push made).size = first.scopes.size + 1 := Array.size_push made
  constructor
  · have grows := footprint.grows
    dsimp only at grows
    omega
  · intro index inside
    have kept := footprint.others index (by dsimp only; omega) (Nat.ne_of_lt inside)
    rw [kept, Array.getElem?_push, if_neg (Nat.ne_of_lt inside)]

end Footprint

end World

/-- From every world the step binds the names in the scope and does no more to the scopes there are. -/
def Writes {α : Type} (scope : Nat) (names : Name → Prop) (step : Eval α) : Prop :=
  ∀ world : World, world.Footprint scope names (world.run step).2

namespace Writes

variable {α β : Type} {scope : Nat} {names more : Name → Prop}

theorem mono {step : Eval α} (writes : Writes scope names step) (implies : ∀ name, names name → more name) :
    Writes scope more step :=
  fun world => (writes world).mono implies

theorem of_intact {step : Eval α} (intact : ∀ world : World, world.Intact (world.run step).2) : Writes scope names step :=
  fun world => (intact world).footprint

theorem of_scopes {step : Eval α} (same : ∀ world : World, (world.run step).2.scopes = world.scopes) :
    Writes scope names step :=
  of_intact fun world => .of_scopes (same world)

theorem pure (value : α) : Writes scope names (Pure.pure value) := of_scopes fun _ => rfl

theorem fault (cause : Fault) : Writes scope names (Eval.fault cause : Eval α) := of_scopes fun _ => rfl

theorem get (inside : Nat) (name : String) : Writes scope names (Eval.get inside name) := of_scopes fun _ => rfl

theorem bind {step : Eval β} {next : β → Eval α} (first : Writes scope names step)
    (later : ∀ value, Writes scope names (next value)) : Writes scope names (step >>= next) := by
  intro world
  have begun := first world
  rw [World.run_bind]
  generalize world.run step = ended at *
  obtain ⟨cause | value, middle⟩ := ended
  · exact begun
  · exact begun.trans (later value middle)

theorem required {step : Eval (Option Value)} (first : Writes scope names step) :
    Writes scope names (Eval.required step) := by
  apply first.bind
  intro result
  cases result with
  | none => exact fault _
  | some value => exact pure value

theorem checked {step : Eval (Option Value)} {next : Value → Eval (Option Value)} (first : Writes scope names step)
    (later : ∀ value, Writes scope names (next value)) :
    Writes scope names
      (Eval.required step >>= fun value => if value.isSignal then Pure.pure (some value) else next value) := by
  apply first.required.bind
  intro value
  split
  · exact pure _
  · exact later value

theorem bindName (scope : Nat) (target : Node) (value : Option Value) :
    Writes scope (fun name => Name.ofNode target = .ok name) (Eval.bind scope target value) := by
  unfold Eval.bind
  cases named : Name.ofNode target with
  | error cause => exact fault cause
  | ok name =>
    intro world
    apply (World.Footprint.bind world scope name value).mono
    intro other same
    rw [same]

theorem bindAll (scope : Nat) (targets : List Node) (values : List (Option Value)) :
    Writes scope (fun _ => True) (Eval.bindAll scope targets values) := by
  induction targets generalizing values with
  | nil => exact pure ()
  | cons target targets ih =>
    cases values with
    | nil => exact pure ()
    | cons value values =>
      apply ((bindName scope target value).mono fun _ _ => trivial).bind
      intro _
      exact ih values

theorem noteCall (text : Node → Except Fault String) (parameters body : Node) (count : Nat) :
    Writes scope names (Eval.noteCall text parameters body count) :=
  of_scopes (run_noteCall_scopes text parameters body count)

end Writes

section Levels

variable {eval : Node → Nat → Eval (Option Value)} {text : Node → Except Fault String} {scope : Nat}
  {names : Name → Prop} (below : ∀ node scope, Writes scope node.Binds (eval node scope))
include below

theorem blockStatements_writes {nodes : List Node} (last : Option Value)
    (each : ∀ node ∈ nodes, ∀ name, node.Binds name → names name) :
    Writes scope names (Eval.blockStatements eval scope last nodes) := by
  induction nodes generalizing last with
  | nil => exact .pure last
  | cons node rest ih =>
    obtain ⟨first, others⟩ := List.forall_mem_cons.mp each
    apply ((below node scope).mono first).bind
    intro result
    cases result with
    | none => exact ih none others
    | some value =>
      dsimp only
      split
      · exact .pure _
      · exact ih (some value) others

theorem programStatements_writes {nodes : List Node} (last : Option Value)
    (each : ∀ node ∈ nodes, ∀ name, node.Binds name → names name) :
    Writes scope names (Eval.programStatements eval scope last nodes) := by
  induction nodes generalizing last with
  | nil => exact .pure last
  | cons node rest ih =>
    obtain ⟨first, others⟩ := List.forall_mem_cons.mp each
    apply ((below node scope).mono first).bind
    intro result
    cases result with
    | none => exact ih none others
    | some value =>
      cases value with
      | returned | returnedNothing | error => exact .pure _
      | null | boolean | integer | function => exact ih (some _) others

theorem arguments_writes {nodes : List Node} (values : List Value)
    (each : ∀ node ∈ nodes, ∀ name, node.Binds name → names name) :
    Writes scope names (Eval.arguments eval scope values nodes) := by
  induction nodes generalizing values with
  | nil => exact .pure _
  | cons node rest ih =>
    obtain ⟨first, others⟩ := List.forall_mem_cons.mp each
    apply ((below node scope).mono first).required.bind
    intro value
    split
    · exact .pure _
    · exact ih (value :: values) others

/-- The parameters and all that the body binds are bound in the scope that is made for the call. -/
theorem entered_writes (parameters body : Node) (targets : List Node) (values : List (Option Value)) :
    Writes scope (fun _ => True) (do
      Eval.bindAll scope targets values
      Eval.noteCall text parameters body values.length
      match ← eval body scope with
      | some (.returned value) => return some value
      | some .returnedNothing => return none
      | some value => return some value
      | none => return some .null) := by
  apply (Writes.bindAll scope targets values).bind
  intro _
  apply (Writes.noteCall text parameters body values.length).bind
  intro _
  apply ((below body scope).mono fun _ _ => trivial).bind
  intro result
  split
  all_goals exact .pure _

theorem apply_intact (callee : Value) (values : List (Option Value)) (world : World) :
    world.Intact (world.run (Eval.apply eval text callee values)).2 := by
  cases callee with
  | null | boolean | integer | returned | returnedNothing | error => exact .of_scopes rfl
  | function parameters body outer =>
    rw [Eval.apply]
    cases parameters.elements .count with
    | error cause => exact .of_scopes rfl
    | ok targets =>
      change world.Intact (world.run (ite _ _ _)).2
      split
      · exact .of_scopes rfl
      · exact (entered_writes below parameters body targets values
          ⟨world.scopes.push ⟨[], [], some outer⟩, world.calls⟩).intact

omit below in
theorem branch_writes {node : Node} (branch : Writes scope names (eval node scope)) :
    Writes scope names (do return some ((← eval node scope).getD .null)) := by
  apply branch.bind
  intro result
  exact .pure _

/-- One level: the nodes one level down are used through what is known of them. -/
theorem level_writes (node : Node) : Writes scope node.Binds (Eval.level eval text node scope) := by
  have inner {child : Node} (member : child ∈ node.inner) : Writes scope node.Binds (eval child scope) :=
    (below child scope).mono fun _ binds => binds.under member
  cases node with
  | bare token => exact .fault _
  | program statements =>
    cases statements with
    | sequence nodes => exact programStatements_writes below none fun _ member _ binds => binds.under member
    | _ => exact .fault _
  | block token statements =>
    cases statements with
    | sequence nodes => exact blockStatements_writes below none fun _ member _ binds => binds.under member
    | _ => exact .fault _
  | letBinding token target value =>
    apply (inner List.mem_cons_self).checked
    intro result
    have bound : Writes scope (Node.letBinding token target value).Binds (Eval.bind scope target (some result)) :=
      (Writes.bindName scope target (some result)).mono fun name named => ⟨token, target, value, .root, named⟩
    apply bound.bind
    intro _
    exact .pure none
  | returning token value =>
    apply (inner List.mem_cons_self).checked
    intro result
    exact .pure _
  | statement token expression =>
    rw [Eval.level, ← bind_pure_comp]
    apply (inner List.mem_cons_self).required.bind
    intro result
    exact .pure _
  | identifier token name =>
    apply (Writes.get scope name).bind
    intro found
    cases found with
    | none => exact .pure _
    | some value => exact .pure _
  | integer | boolean | function => exact .pure _
  | unary token operator right =>
    apply (inner List.mem_cons_self).checked
    intro result
    exact .pure _
  | binary token left operator right =>
    apply (inner List.mem_cons_self).checked
    intro first
    apply (inner (List.mem_cons_of_mem _ List.mem_cons_self)).checked
    intro second
    exact .pure _
  | conditional token condition consequence alternative =>
    have first : condition ∈ (Node.conditional token condition consequence alternative).inner := by
      cases alternative <;> exact List.mem_cons_self
    have second : consequence ∈ (Node.conditional token condition consequence alternative).inner := by
      cases alternative <;> exact List.mem_cons_of_mem _ List.mem_cons_self
    apply (inner first).checked
    intro value
    split
    · exact branch_writes (inner second)
    · cases alternative with
      | missing => exact .pure _
      | _ => exact branch_writes (inner (List.mem_cons_of_mem _ (List.mem_cons_of_mem _ List.mem_cons_self)))
  | call token callee arguments =>
    have first : callee ∈ (Node.call token callee arguments).inner := by
      cases arguments <;> exact List.mem_cons_self
    apply (inner first).checked
    intro function
    cases arguments with
    | sequence nodes =>
      have each : ∀ child ∈ nodes, ∀ name, child.Binds name → (Node.call token callee (.sequence nodes)).Binds name :=
        fun _ member _ binds => binds.under (List.mem_cons_of_mem _ member)
      apply (arguments_writes below [] each).bind
      intro result
      cases result with
      | error signal => exact .pure _
      | ok values => exact .of_intact (apply_intact below function _)
    | _ => exact .fault _
  | missing => exact .fault _
  | sequence nodes => exact .fault _

end Levels

theorem eval_writes (limit : Nat) (node : Node) (scope : Nat) : Writes scope node.Binds (Eval.eval limit node scope) := by
  induction limit generalizing node scope with
  | zero => exact .fault _
  | succ limit ih => exact level_writes ih node

namespace Parsed

variable {limit : Nat} {tokens : List Token} {program node : Node}

/-- However a node of a parsed program ends, in whatever world: of the scopes there are it has changed at most the one
that it was evaluated in. This one still binds every name that it bound, and what a name is bound to has changed only
for targets of let statements of the node that are in no function literal. A call changes none of the scopes there are,
whatever is called with whatever arguments. -/
theorem evaluation_writes_own_targets (parsed : (ofTokens limit tokens).result = .ok program)
    (within : program.Within node) (world : World) (depth scope : Nat) :
    (∀ index < world.scopes.size, index ≠ scope →
      (world.eval depth node scope).2.scopes[index]? = world.scopes[index]?) ∧
    (∀ before, world.scopes[scope]? = some before → ∃ after, (world.eval depth node scope).2.scopes[scope]? = some after ∧
      after.outer = before.outer ∧ after.strays = before.strays ∧
      (∀ name, (before.find? name).isSome → (after.find? name).isSome) ∧
      ∀ name, after.find? name ≠ before.find? name →
        ∃ token target value, node.Outside (.letBinding token (.identifier target name) value)) ∧
    ∀ callee values, ∀ index < world.scopes.size,
      (world.run (Eval.call depth callee values)).2.scopes[index]? = world.scopes[index]? := by
  obtain ⟨role, evaluated, regular⟩ := (program_regular parsed).within nofun within
  have footprint := eval_writes depth node scope world
  refine ⟨footprint.others, ?_, ?_⟩
  · intro before place
    obtain ⟨after, place, rebound⟩ := footprint.own before place
    refine ⟨after, place, rebound.outer, ?_, rebound.kept, ?_⟩
    · apply rebound.strays
      intro name binds
      obtain ⟨text, -, -, -, word, -⟩ := binds.word regular evaluated
      exact ⟨text, word⟩
    · intro name changed
      have binds : node.Binds (.word name) := by
        by_contra other
        exact changed (rebound.words name other)
      obtain ⟨text, token, target, value, word, outside⟩ := binds.word regular evaluated
      cases word
      exact ⟨token, target, value, outside⟩
  · intro callee values
    exact (apply_intact (eval_writes depth) callee values world).same

/-- The world in which `f` was defined and called. -/
def called : World := ((World.fresh.eval 9 definition 0).2.eval 9 application 0).2

set_option maxRecDepth 2000 in
/-- Defined again, `f` is bound in the scope of the program; that of the call is as before. -/
theorem definition_writes_again :
    (ofTokens 20 (Token.ofText "let 5; let f = fn(x) \x7b let y = x; \x7d; g")).result = .ok definition ∧
    definition.Within definition ∧ called.scopes.size = 2 ∧ (∃ scope, called.scopes[0]? = some scope) ∧
    (called.eval 9 definition 0).2.scopes[1]? = called.scopes[1]? ∧
    ∀ before : Scope, called.scopes[0]? = some before → ∃ after : Scope,
      (called.eval 9 definition 0).2.scopes[0]? = some after ∧
      after.outer = before.outer ∧ after.strays = before.strays ∧
      (∀ name, (before.find? name).isSome → (after.find? name).isSome) ∧
      ∀ name, after.find? name ≠ before.find? name →
        ∃ token target value, definition.Outside (.letBinding token (.identifier target name) value) := by
  have defined : (ofTokens 20 (Token.ofText "let 5; let f = fn(x) \x7b let y = x; \x7d; g")).result = .ok definition := by
    cbv
  have size : called.scopes.size = 2 := by cbv
  have first : 0 < called.scopes.size := by
    rw [size]
    exact Nat.zero_lt_two
  have second : 1 < called.scopes.size := by
    rw [size]
    exact Nat.one_lt_two
  have there : ∃ scope, called.scopes[0]? = some scope := ⟨_, Array.getElem?_eq_getElem first⟩
  obtain ⟨others, own, -⟩ := evaluation_writes_own_targets defined .root called 9 0
  exact ⟨defined, .root, size, there, others 1 second Nat.one_ne_zero, own⟩

end Parsed

end MonkeyLang
