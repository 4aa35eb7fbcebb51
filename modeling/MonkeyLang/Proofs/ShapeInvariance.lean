import MonkeyLang.Proofs.ExceptionRefinement
import MonkeyLang.Proofs.RenderingRoundTrip
import MonkeyLang.Proofs.ShapedWorlds

/-! Evaluation sees the shape of a program only. Run on the shape of a tree, in the shape of a world, it ends in the shape
of what it comes to on the tree itself, node by node and call by call. So programs that differ in positions run alike,
and the text of a program means what the program means. -/

namespace MonkeyLang

variable {α β γ δ : Type}

/-- A fault that does not say where. -/
def Fault.unplaced : Fault → Fault
  | noMeaning _ => noMeaning .nowhere
  | fault => fault

/-- Two ends that are the same but for positions, given what the one result is but for them. -/
inductive Alike (image : α → β) : Except Fault α → Except Fault β → Prop
  | ok (value : α) : Alike image (.ok value) (.ok (image value))
  | error {cause cause' : Fault} (same : cause'.unplaced = cause.unplaced) : Alike image (.error cause) (.error cause')

/-- In the shape of a world the second step comes to the shape of what the first one comes to in the world, and leaves the
shape of what that leaves. -/
def Mirrors (image : α → β) (step : Eval α) (step' : Eval β) : Prop :=
  ∀ world : World, Alike image (world.run step).1 (world.shape.run step').1 ∧
    (world.shape.run step').2 = (world.run step).2.shape

abbrev shapeOf? : Option Value → Option Value := Option.map Value.shape

/-- The values of arguments, or the signal that takes their place. -/
def shapeOfArguments : Except Value (List Value) → Except Value (List Value)
  | .ok values => .ok (values.map Value.shape)
  | .error signal => .error signal.shape

namespace Mirrors

variable {image : α → β} {image' : γ → δ}

theorem pure (value : α) : Mirrors image (Pure.pure value) (Pure.pure (image value)) := fun _ => ⟨.ok value, rfl⟩

theorem fault {cause cause' : Fault} (same : cause'.unplaced = cause.unplaced) :
    Mirrors image (Eval.fault cause) (Eval.fault cause') :=
  fun _ => ⟨.error same, rfl⟩

theorem bind {step : Eval α} {step' : Eval β} {next : α → Eval γ} {next' : β → Eval δ} (first : Mirrors image step step')
    (later : ∀ value, Mirrors image' (next value) (next' (image value))) :
    Mirrors image' (step >>= next) (step' >>= next') := by
  intro world
  obtain ⟨alike, same⟩ := first world
  rw [World.run_bind, World.run_bind]
  generalize world.run step = ended at *
  generalize world.shape.run step' = ended' at *
  obtain ⟨result, after⟩ := ended
  obtain ⟨result', after'⟩ := ended'
  obtain rfl : after' = after.shape := same
  cases alike with
  | ok value => exact later value after
  | error same => exact ⟨.error same, rfl⟩

theorem elements (node : Node) (use : ListUse) :
    Mirrors Node.shapes (liftM (node.elements use)) (liftM (node.shape.elements use)) := by
  rw [Node.elements_shape]
  cases node.elements use with
  | ok nodes => exact .pure nodes
  | error cause => exact .fault rfl

theorem get (scope : Nat) (name : String) : Mirrors shapeOf? (Eval.get scope name) (Eval.get scope name) := by
  intro world
  have run (world : World) : world.run (Eval.get scope name) = (.ok (World.lookup world.scopes scope name), world) := rfl
  rw [run, run, World.shape, World.lookup_shape]
  exact ⟨.ok _, rfl⟩

theorem enclose (outer : Nat) : Mirrors id (Eval.enclose outer) (Eval.enclose outer) := by
  intro world
  have made := world.enclose_shape (some outer)
  have run (world : World) : world.run (Eval.enclose outer) =
      (.ok (world.enclose (some outer)).1, (world.enclose (some outer)).2) := rfl
  rw [run, run, made]
  exact ⟨.ok _, rfl⟩

theorem noteCall {text : Node → Except Fault String} (placeless : ∀ node, text node.shape = text node)
    (parameters body : Node) (count : Nat) :
    Mirrors id (Eval.noteCall text parameters body count) (Eval.noteCall text parameters.shape body.shape count) := by
  intro world
  have same := placeless (.function none parameters body)
  rw [Node.shape] at same
  rw [run_noteCall, run_noteCall, same]
  cases text (.function none parameters body) with
  | ok source => exact ⟨.ok (), rfl⟩
  | error cause => exact ⟨.error rfl, rfl⟩

theorem bindName (scope : Nat) (target : Node) (value : Option Value) :
    Mirrors id (Eval.bind scope target value) (Eval.bind scope target.shape (shapeOf? value)) := by
  unfold Eval.bind
  rw [Name.ofNode_shape]
  cases Name.ofNode target with
  | ok name => exact fun world => ⟨.ok (), world.bind_shape scope name value⟩
  | error cause => exact fun world => ⟨.error rfl, rfl⟩

theorem bindAll (scope : Nat) (parameters : List Node) (values : List (Option Value)) :
    Mirrors id (Eval.bindAll scope parameters values)
      (Eval.bindAll scope (Node.shapes parameters) (values.map shapeOf?)) := by
  induction parameters generalizing values with
  | nil => exact .pure ()
  | cons parameter parameters ih =>
    cases values with
    | nil => exact .pure ()
    | cons value values => exact (bindName scope parameter value).bind fun _ => ih values

theorem required {step step' : Eval (Option Value)} (first : Mirrors shapeOf? step step') :
    Mirrors Value.shape (Eval.required step) (Eval.required step') := by
  refine first.bind fun result => ?_
  cases result with
  | none => exact .fault rfl
  | some value => exact .pure value

/-- A signal is one by its shape. -/
theorem checked {step step' : Eval (Option Value)} {next next' : Value → Eval (Option Value)}
    (first : Mirrors shapeOf? step step') (later : ∀ value, Mirrors shapeOf? (next value) (next' value.shape)) :
    Mirrors shapeOf?
      (Eval.required step >>= fun value => if value.isSignal then Pure.pure (some value) else next value)
      (Eval.required step' >>= fun value => if value.isSignal then Pure.pure (some value) else next' value) := by
  refine first.required.bind fun value => ?_
  rw [Value.isSignal_shape]
  split
  · exact .pure (some value)
  · exact later value

end Mirrors

section Levels

variable {eval eval' : Node → Nat → Eval (Option Value)} {text : Node → Except Fault String} {scope : Nat}
  (below : ∀ node scope, Mirrors shapeOf? (eval node scope) (eval' node.shape scope))
include below

theorem blockStatements_mirrors (nodes : List Node) (last : Option Value) :
    Mirrors shapeOf? (Eval.blockStatements eval scope last nodes)
      (Eval.blockStatements eval' scope (shapeOf? last) (Node.shapes nodes)) := by
  induction nodes generalizing last with
  | nil => exact .pure last
  | cons node rest ih =>
    refine (below node scope).bind fun result => ?_
    cases result with
    | none => exact ih none
    | some value =>
      simp only [Option.map_some, Value.isSignal_shape]
      split
      · exact .pure (some value)
      · exact ih (some value)

theorem programStatements_mirrors (nodes : List Node) (last : Option Value) :
    Mirrors shapeOf? (Eval.programStatements eval scope last nodes)
      (Eval.programStatements eval' scope (shapeOf? last) (Node.shapes nodes)) := by
  induction nodes generalizing last with
  | nil => exact .pure last
  | cons node rest ih =>
    refine (below node scope).bind fun result => ?_
    cases result with
    | none => exact ih none
    | some value =>
      cases value with
      | returned value => exact .pure (some value)
      | returnedNothing => exact .pure none
      | error reason => exact .pure (some (Value.error reason))
      | null | boolean | integer | function => exact ih (some _)

theorem arguments_mirrors (nodes : List Node) (values : List Value) :
    Mirrors shapeOfArguments
      (Eval.arguments eval scope values nodes)
      (Eval.arguments eval' scope (values.map Value.shape) (Node.shapes nodes)) := by
  induction nodes generalizing values with
  | nil =>
    have read : Mirrors shapeOfArguments (pure (.ok values.reverse)) _ := .pure _
    rw [shapeOfArguments, List.map_reverse] at read
    exact read
  | cons node rest ih =>
    refine (below node scope).required.bind fun value => ?_
    rw [Value.isSignal_shape]
    split
    · exact .pure (Except.error value)
    · exact ih (value :: values)

theorem apply_mirrors (placeless : ∀ node, text node.shape = text node) (callee : Value) (values : List Value) :
    Mirrors shapeOf? (Eval.apply eval text callee (values.map some))
      (Eval.apply eval' text callee.shape ((values.map Value.shape).map some)) := by
  cases callee with
  | null | boolean | integer | returned | returnedNothing | error => exact .pure (some (Value.error _))
  | function parameters body outer =>
    refine (Mirrors.elements parameters .count).bind fun targets => ?_
    have lengths : (Node.shapes targets).length = targets.length := by rw [Node.shapes_eq_map, List.length_map]
    simp only [List.length_map, lengths]
    split
    · exact .pure (some (Value.error _))
    · refine (Mirrors.enclose outer).bind fun inside => ?_
      have bound : Mirrors id (Eval.bindAll inside targets (values.map some))
          (Eval.bindAll inside (Node.shapes targets) ((values.map Value.shape).map some)) := by
        have shapes : (values.map Value.shape).map some = (values.map some).map shapeOf? := by
          simp only [List.map_map]
          rfl
        rw [shapes]
        exact .bindAll inside targets _
      refine bound.bind fun _ => (Mirrors.noteCall placeless parameters body values.length).bind fun _ => ?_
      refine (below body inside).bind fun result => ?_
      cases result with
      | none => exact .pure (some Value.null)
      | some value =>
        cases value with
        | returned value => exact .pure (some value)
        | returnedNothing => exact .pure none
        | null | boolean | integer | error | function => exact .pure (some _)

theorem branch_mirrors (node : Node) :
    Mirrors shapeOf? (do return some ((← eval node scope).getD .null))
      (do return some ((← eval' node.shape scope).getD .null)) := by
  refine (below node scope).bind fun result => ?_
  cases result with
  | none => exact .pure (some Value.null)
  | some value => exact .pure (some value)

/-- One level: the nodes one level down are used through what is known of them. -/
theorem level_mirrors (placeless : ∀ node, text node.shape = text node) (node : Node) :
    Mirrors shapeOf? (Eval.level eval text node scope) (Eval.level eval' text node.shape scope) := by
  cases node with
  | bare token => exact .fault rfl
  | program statements =>
    exact (Mirrors.elements statements .items).bind fun nodes => programStatements_mirrors below nodes none
  | letBinding token name value =>
    refine (below value scope).checked fun value => ?_
    exact (Mirrors.bindName scope name (some value)).bind fun _ => .pure none
  | returning token value => exact (below value scope).checked fun value => .pure (some (Value.returned value))
  | statement token expression =>
    rw [Node.shape, Eval.level, Eval.level, ← bind_pure_comp, ← bind_pure_comp]
    exact (below expression scope).required.bind fun value => .pure (some value)
  | block token statements =>
    exact (Mirrors.elements statements .items).bind fun nodes => blockStatements_mirrors below nodes none
  | identifier token name =>
    refine (Mirrors.get scope name).bind fun found => ?_
    cases found with
    | none => exact .pure (some (Value.error (.unknownIdentifier name)))
    | some value => exact .pure (some value)
  | integer token value => exact .pure (some (Value.integer value))
  | boolean token value => exact .pure (some (Value.boolean value))
  | unary token operator right =>
    refine (below right scope).checked fun value => ?_
    rw [Operator.applyUnary_shape]
    exact .pure (some (Operator.applyUnary operator value))
  | binary token left operator right =>
    refine (below left scope).checked fun first => (below right scope).checked fun second => ?_
    rw [Operator.applyBinary_shape]
    exact .pure (some (Operator.applyBinary operator first second))
  | conditional token condition consequence alternative =>
    refine (below condition scope).checked fun value => ?_
    rw [Value.isTruthy_shape]
    split
    · exact branch_mirrors below consequence
    · cases alternative with
      | missing => exact .pure (some Value.null)
      | _ => exact branch_mirrors below _
  | function token parameters body => exact .pure (some (Value.function parameters body scope))
  | call token callee arguments =>
    refine (below callee scope).checked fun function => ?_
    refine (Mirrors.elements arguments .items).bind fun nodes => ?_
    refine (arguments_mirrors below nodes []).bind fun result => ?_
    cases result with
    | error signal => exact .pure (some signal)
    | ok values => exact apply_mirrors below placeless function values
  | missing => exact .fault rfl
  | sequence nodes => exact .fault rfl

end Levels

theorem eval_mirrors (limit : Nat) (node : Node) (scope : Nat) :
    Mirrors shapeOf? (Eval.eval limit node scope) (Eval.eval limit node.shape scope) := by
  induction limit generalizing node scope with
  | zero => exact .fault rfl
  | succ limit ih => exact level_mirrors ih (Node.text_shape limit) node

/-- What can be seen of a value. -/
def Value.seen (value : Value) : ValueType × String := (value.type, value.inspect)

theorem Value.seen_shape (value : Value) : value.shape.seen = value.seen := by
  rw [seen, type_shape, inspect_shape, seen]

/-- What can be seen of a run in a fresh world: how it ends, and what the names are bound to then. -/
def Node.seen (depth : Nat) (program : Node) :
    Except Fault (Option (ValueType × String)) × List (Name × Option (ValueType × String)) :=
  let (result, after) := World.fresh.eval depth program 0
  (result.map (Option.map Value.seen), (after.bindings 0).map fun (name, value) => (name, value.map Value.seen))

theorem World.bindings_seen (world : World) (scope : Nat) :
    ((world.shape.bindings scope).map fun (name, value) => (name, value.map Value.seen)) =
      (world.bindings scope).map fun (name, value) => (name, value.map Value.seen) := by
  rw [bindings_shape, List.map_map]
  refine List.map_congr_left fun binding _ => ?_
  obtain ⟨name, value⟩ := binding
  cases value with
  | none => rfl
  | some value => simp only [Function.comp_apply, Value.shapeBound, Option.map_some, Value.seen_shape]

theorem Alike.seen_eq {result result' : Except Fault (Option Value)} (alike : Alike shapeOf? result result')
    (faults : ∀ cause, result = .error cause → cause = .exhausted) :
    result'.map (Option.map Value.seen) = result.map (Option.map Value.seen) := by
  cases alike with
  | ok value =>
    cases value with
    | none => rfl
    | some value => exact congrArg (fun seen => Except.ok (some seen)) value.seen_shape
  | @error cause cause' same =>
    obtain rfl := faults cause rfl
    cases cause' with
    | exhausted => rfl
    | _ => cases same

namespace Parsed

variable {limit : Nat} {tokens : List Token} {program : Node}

theorem seen_shape (parsed : (ofTokens limit tokens).result = .ok program) (depth : Nat) :
    program.shape.seen depth = program.seen depth := by
  obtain ⟨encodes, -, -⟩ := eval_refines depth 0 (program_regular parsed) nofun World.fresh .fresh
  obtain ⟨alike, same⟩ := eval_mirrors depth program 0 .fresh
  have fresh : World.fresh.shape = World.fresh := by simp [World.fresh, World.enclose, World.empty, World.shape, Scope.shape]
  rw [fresh] at alike same
  have result := alike.seen_eq fun cause stopped => (encodes.fault_eq stopped).1
  have bindings := World.bindings_seen (World.fresh.run (Eval.eval depth program 0)).2 0
  rw [← same] at bindings
  exact Prod.ext result bindings

/-- Programs that have the same outline but for the positions run alike in fresh worlds: at every limit they end with results
and bindings that look the same, or are both given up. So a text that was parsed, with recorded errors or without, can be
replaced by the text of its program, which is parsed without an error and runs as the program does. -/
theorem shape_determines_run :
    (∀ {limit limit' tokens tokens'} {first second : Node}, (ofTokens limit tokens).result = .ok first →
      (ofTokens limit' tokens').result = .ok second → first.outline.unplaced = second.outline.unplaced → ∀ depth,
      first.seen depth = second.seen depth ∧
        ((World.fresh.eval depth first 0).1 = .error .exhausted ↔ (World.fresh.eval depth second 0).1 = .error .exhausted)) ∧
    ∀ {limit text} {program : Node}, (ofText limit text).result = .ok program →
      (∀ limit', ¬(ofText limit' program.render).Exhausted → ∃ again, ofText limit' program.render = ⟨.ok again, []⟩ ∧
        ∀ depth, again.seen depth = program.seen depth) ∧
      ∀ limit', (Token.ofText program.render).length < limit' → ¬(ofText limit' program.render).Exhausted := by
  have alike {limit limit' tokens tokens'} {first second : Node} (parsed : (ofTokens limit tokens).result = .ok first)
      (parsed' : (ofTokens limit' tokens').result = .ok second) (same : first.shape = second.shape) (depth : Nat) :
      first.seen depth = second.seen depth := by
    rw [← seen_shape parsed, same, seen_shape parsed']
  refine ⟨fun {limit limit' tokens tokens' first second} parsed parsed' same depth => ?_,
    fun {limit text program} parsed => ⟨fun limit' completed => ?_, fun limit' room => ?_⟩⟩
  · have seen := alike parsed parsed' (Node.shape_eq_iff.mpr same) depth
    have ended (program : Node) : (program.seen depth).1 = .error .exhausted ↔
        (World.fresh.eval depth program 0).1 = .error .exhausted := by
      unfold Node.seen
      rcases World.fresh.eval depth program 0 with ⟨cause | value, after⟩ <;> simp [Except.map]
    exact ⟨seen, by rw [← ended, seen, ended]⟩
  · obtain ⟨again, derives, shape, numerals⟩ := derives_of_built (built_of_parsed parsed)
    have read := clean_of_derives numerals derives completed
    exact ⟨again, read, alike (congrArg Parsed.result read) parsed shape⟩
  · exact not_exhausted_of_length room

/-- The program `fn(x) { x }` in one column or another. -/
def identity (column : Nat) : Node :=
  .program (.sequence [.statement (some ⟨.functionWord, "fn", ⟨1, column⟩⟩)
    (.function (some ⟨.functionWord, "fn", ⟨1, column⟩⟩)
      (.sequence [.identifier (some ⟨.identifier, "x", ⟨1, column + 3⟩⟩) "x"])
      (.block (some ⟨.leftBrace, "\x7b", ⟨1, column + 6⟩⟩) (.sequence
        [.statement (some ⟨.identifier, "x", ⟨1, column + 8⟩⟩) (.identifier (some ⟨.identifier, "x", ⟨1, column + 8⟩⟩) "x")])))])

theorem identity_runs_alike :
    (ofText 9 "fn(x) \x7b x \x7d").result = .ok (identity 1) ∧ (ofText 9 " fn(x) \x7b x \x7d").result = .ok (identity 2) ∧
    (identity 1).outline.unplaced = (identity 2).outline.unplaced ∧
    (∀ depth, (identity 1).seen depth = (identity 2).seen depth) ∧
    ∃ again, ofText 12 (identity 2).render = ⟨.ok again, []⟩ ∧ ∀ depth, again.seen depth = (identity 2).seen depth := by
  have first : (ofText 9 "fn(x) \x7b x \x7d").result = .ok (identity 1) := by cbv
  have second : (ofText 9 " fn(x) \x7b x \x7d").result = .ok (identity 2) := by cbv
  have runs := shape_determines_run.2 second
  exact ⟨first, second, rfl, fun depth => (shape_determines_run.1 first second rfl depth).1,
    runs.1 12 (runs.2 12 (by cbv))⟩

end Parsed

end MonkeyLang
