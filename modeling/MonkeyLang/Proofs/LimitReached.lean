import MonkeyLang.Proofs.SignalPassing
import MonkeyLang.Proofs.TextRoom

/-! Where evaluation gives up. An evaluation that reaches the limit has come to a node nested too deeply, or to a call of
a function whose text is too high for the room that is left. It leaves the world as it was found there: an evaluation that
goes on beyond the limit in another way comes to the same place in the same world. -/

namespace MonkeyLang

/-- What lies beyond the limit: what comes of nodes nested too deeply, and of texts for which there is too little room. -/
structure Beyond where
  eval : Node → Nat → Eval (Option Value)
  text : Nat → Node → Except Fault String

/-- Where there is no room for something: a node that is to be evaluated in a scope, or a text. -/
inductive Place
  | node (node : Node) (scope : Nat)
  | text (room : Nat) (node : Node)

/-- What lies beyond the limit fails at this place, found in this world; the text of a node leaves the world alone. -/
def Beyond.Fails (beyond : Beyond) (world : World) (cause : Fault) (last : World) : Place → Prop
  | .node node scope => world.run (beyond.eval node scope) = (.error cause, last)
  | .text room node => beyond.text room node = .error cause ∧ world = last

/-- What lies beyond a limit is done under one that is higher by so many levels. -/
def Beyond.higher (more : Nat) : Beyond := ⟨Eval.eval more, fun room => Node.text? (more + room)⟩

namespace Eval

/-- Texts, handed over where there is too little room for them. -/
def textOver (beyond : Beyond) (room : Nat) (node : Node) : Except Fault String :=
  match node.text? room with
  | .error .exhausted => beyond.text room node
  | ended => ended

theorem textOver_of_settled {node : Node} {room : Nat} (settled : node.text? room ≠ .error .exhausted) (beyond : Beyond) :
    textOver beyond room node = node.text? room := by
  unfold textOver
  split
  next exhausted => exact absurd exhausted settled
  next => rfl

theorem textOver_of_exhausted {node : Node} {room : Nat} (exhausted : node.text? room = .error .exhausted)
    (beyond : Beyond) : textOver beyond room node = beyond.text room node := by
  rw [textOver, exhausted]

/-- Evaluation that hands over the nodes and the texts at which the limit is reached. -/
def evalOver (beyond : Beyond) : Nat → Node → Nat → Eval (Option Value)
  | 0, node, scope => beyond.eval node scope
  | limit + 1, node, scope => level (evalOver beyond limit) (textOver beyond limit) node scope

theorem textOver_higher (more room : Nat) : textOver (.higher more) room = Node.text? (more + room) := by
  funext node
  by_cases exhausted : node.text? room = .error .exhausted
  · exact textOver_of_exhausted exhausted (.higher more)
  · rw [textOver_of_settled exhausted, Node.text_higher exhausted]

/-- A limit that is reached in evaluation is one of a higher limit, which goes on. -/
theorem evalOver_higher (limit more : Nat) : evalOver (.higher more) limit = eval (more + limit) := by
  induction limit with
  | zero => rfl
  | succ limit ih =>
    funext node scope
    rw [evalOver, ih, textOver_higher, ← Nat.add_assoc, eval]

/-- A fault beyond the limit, at this place in such a world, is the fault that the step ends with. -/
def Surfaces {α : Type} (step : Beyond → Eval α) (world : World) (place : Place) (middle : World) : Prop :=
  ∀ beyond cause last, beyond.Fails middle cause last place → world.run (step beyond) = (.error cause, last)

end Eval

variable {α β : Type}

/-- A step that hands over gives what the other one gives, unless that reaches the limit: then the first place handed over
is found in the world that is left. -/
structure HandsOver (step : Eval α) (step' : Beyond → Eval α) : Prop where
  same : ∀ (world : World) beyond, (world.run step).1 ≠ .error .exhausted → world.run (step' beyond) = world.run step
  reaches : ∀ world after : World, world.run step = (.error .exhausted, after) → ∃ place, Eval.Surfaces step' world place after

namespace HandsOver

variable {step : Eval α} {step' : Beyond → Eval α}

/-- A step without nodes below it is the same for both. -/
theorem fixed (always : ∀ world : World, ∃ value, (world.run step).1 = .ok value) : HandsOver step fun _ => step where
  same _ _ _ := rfl
  reaches world _ ends := by
    obtain ⟨value, gives⟩ := always world
    rw [ends] at gives
    cases gives

theorem pure (value : α) : HandsOver (Pure.pure value) fun _ => Pure.pure value := fixed fun _ => ⟨value, rfl⟩

theorem fault {cause : Fault} (other : cause ≠ .exhausted) :
    HandsOver (Eval.fault cause : Eval α) fun _ => Eval.fault cause where
  same _ _ _ := rfl
  reaches _ _ ends := absurd (Except.error.inj (congrArg Prod.fst ends)) other

theorem bind {next : α → Eval β} {next' : Beyond → α → Eval β} (first : HandsOver step step')
    (later : ∀ value, HandsOver (next value) fun beyond => next' beyond value) :
    HandsOver (step >>= next) fun beyond => step' beyond >>= next' beyond := by
  constructor
  · intro world beyond goes
    have begins := first.same world beyond
    rw [World.run_bind] at goes
    rw [World.run_bind, World.run_bind]
    generalize world.run step = ended at goes begins
    obtain ⟨cause | value, after⟩ := ended
    · have stops : cause ≠ .exhausted := fun same => goes (congrArg Except.error same)
      rw [begins fun same => stops (Except.error.inj same)]
    · rw [begins nofun]
      exact (later value).same after beyond goes
  · intro world last ends
    have begins := first.same world
    have stops := first.reaches world
    rw [World.run_bind] at ends
    generalize world.run step = ended at ends begins stops
    obtain ⟨cause | value, after⟩ := ended
    · cases ends
      obtain ⟨place, surfaces⟩ := stops _ rfl
      refine ⟨place, ?_⟩
      intro beyond cause final fails
      rw [World.run_bind, surfaces beyond cause final fails]
    · obtain ⟨place, surfaces⟩ := (later value).reaches after last ends
      refine ⟨place, ?_⟩
      intro beyond cause final fails
      rw [World.run_bind, begins beyond nofun]
      exact surfaces beyond cause final fails

theorem elements (node : Node) (use : ListUse) :
    HandsOver (liftM (node.elements use) : Eval (List Node)) fun _ => liftM (node.elements use) := by
  cases node with
  | sequence nodes => exact .pure nodes
  | _ => exact .fault Fault.noConfusion

theorem get (scope : Nat) (name : String) : HandsOver (Eval.get scope name) fun _ => Eval.get scope name :=
  fixed fun _ => ⟨_, rfl⟩

theorem enclose (outer : Nat) : HandsOver (Eval.enclose outer) fun _ => Eval.enclose outer :=
  fixed fun _ => ⟨_, rfl⟩

theorem bindName (scope : Nat) (target : Node) (value : Option Value) :
    HandsOver (Eval.bind scope target value) fun _ => Eval.bind scope target value := by
  unfold Eval.bind
  have name : HandsOver (liftM (Name.ofNode target) : Eval Name) fun _ => liftM (Name.ofNode target) := by
    cases found : Name.ofNode target with
    | ok name => exact .pure name
    | error cause =>
      refine .fault ?_
      rintro rfl
      unfold Name.ofNode at found
      split at found
      all_goals cases found
  exact name.bind fun _ => fixed fun _ => ⟨_, rfl⟩

theorem bindAll (scope : Nat) (parameters : List Node) (values : List (Option Value)) :
    HandsOver (Eval.bindAll scope parameters values) fun _ => Eval.bindAll scope parameters values := by
  induction parameters generalizing values with
  | nil => exact .pure ()
  | cons parameter parameters ih =>
    cases values with
    | nil => exact .pure ()
    | cons value values => exact (bindName scope parameter value).bind fun _ => ih values

theorem required {step : Eval (Option Value)} {step' : Beyond → Eval (Option Value)}
    (first : HandsOver step step') : HandsOver (Eval.required step) fun beyond => Eval.required (step' beyond) := by
  refine first.bind fun result => ?_
  cases result with
  | none => exact .fault Fault.noConfusion
  | some value => exact .pure value

theorem checked {step : Eval (Option Value)} {step' : Beyond → Eval (Option Value)}
    {next : Value → Eval (Option Value)} {next' : Beyond → Value → Eval (Option Value)}
    (first : HandsOver step step') (later : ∀ value, HandsOver (next value) fun beyond => next' beyond value) :
    HandsOver (Eval.required step >>= fun value => if value.isSignal then Pure.pure (some value) else next value)
      fun beyond => Eval.required (step' beyond) >>= fun value =>
        if value.isSignal then Pure.pure (some value) else next' beyond value := by
  refine first.required.bind fun value => ?_
  split
  · exact .pure (some value)
  · exact later value

end HandsOver

/-- A call is given up where there is too little room for the text of the function; the world is as it was. -/
theorem HandsOver.noteCall (room : Nat) (parameters body : Node) (count : Nat) :
    HandsOver (Eval.noteCall (Node.text? room) parameters body count) fun beyond =>
      Eval.noteCall (Eval.textOver beyond room) parameters body count := by
  by_cases exhausted : (Node.function none parameters body).text? room = .error .exhausted
  · have ends (world : World) : world.run (Eval.noteCall (Node.text? room) parameters body count) =
        (.error .exhausted, world) := by
      rw [run_noteCall, exhausted]
    constructor
    · intro world beyond goes
      exact absurd (congrArg Prod.fst (ends world)) goes
    · intro world after stops
      cases (ends world).symm.trans stops
      refine ⟨.text room (.function none parameters body), ?_⟩
      rintro beyond cause last ⟨fails, rfl⟩
      rw [run_noteCall, Eval.textOver_of_exhausted exhausted, fails]
  · simp only [Eval.noteCall, Eval.textOver_of_settled exhausted]
    cases found : (Node.function none parameters body).text? room with
    | ok source => exact fixed fun _ => ⟨_, rfl⟩
    | error cause =>
      refine .fault ?_
      rintro rfl
      exact exhausted found

section Levels

variable {eval : Node → Nat → Eval (Option Value)} {eval' : Beyond → Node → Nat → Eval (Option Value)} {room : Nat}
  (lower : ∀ node scope, HandsOver (eval node scope) fun beyond => eval' beyond node scope)
include lower

variable {scope : Nat}

theorem blockStatements_handsOver (nodes : List Node) (last : Option Value) :
    HandsOver (Eval.blockStatements eval scope last nodes) fun beyond => Eval.blockStatements (eval' beyond) scope last nodes := by
  induction nodes generalizing last with
  | nil => exact .pure last
  | cons node rest ih =>
    refine (lower node scope).bind fun result => ?_
    cases result with
    | none => exact ih none
    | some value =>
      dsimp only
      split
      · exact .pure (some value)
      · exact ih (some value)

theorem programStatements_handsOver (nodes : List Node) (last : Option Value) :
    HandsOver (Eval.programStatements eval scope last nodes) fun beyond =>
      Eval.programStatements (eval' beyond) scope last nodes := by
  induction nodes generalizing last with
  | nil => exact .pure last
  | cons node rest ih =>
    refine (lower node scope).bind fun result => ?_
    cases result with
    | none => exact ih none
    | some value =>
      cases value with
      | returned value => exact .pure (some value)
      | returnedNothing => exact .pure none
      | error reason => exact .pure (some (Value.error reason))
      | null | boolean | integer | function => exact ih (some _)

theorem arguments_handsOver (nodes : List Node) (values : List Value) :
    HandsOver (Eval.arguments eval scope values nodes) fun beyond => Eval.arguments (eval' beyond) scope values nodes := by
  induction nodes generalizing values with
  | nil => exact .pure _
  | cons node rest ih =>
    refine (lower node scope).required.bind fun value => ?_
    split
    · exact .pure (Except.error value)
    · exact ih (value :: values)

theorem apply_handsOver (callee : Value) (values : List (Option Value)) :
    HandsOver (Eval.apply eval (Node.text? room) callee values) fun beyond =>
      Eval.apply (eval' beyond) (Eval.textOver beyond room) callee values := by
  cases callee with
  | null | boolean | integer | returned | returnedNothing | error => exact .pure _
  | function parameters body outer =>
    refine (HandsOver.elements parameters .count).bind fun targets => ?_
    split
    · exact .pure _
    · refine (HandsOver.enclose outer).bind fun inside => (HandsOver.bindAll inside targets values).bind fun _ => ?_
      refine (HandsOver.noteCall room parameters body values.length).bind fun _ => (lower body inside).bind fun result => ?_
      cases result with
      | none => exact .pure _
      | some value =>
        cases value with
        | returned value => exact .pure _
        | returnedNothing => exact .pure _
        | null | boolean | integer | error | function => exact .pure _

theorem branch_handsOver (node : Node) :
    HandsOver (do return some ((← eval node scope).getD .null)) fun beyond =>
      (do return some ((← eval' beyond node scope).getD .null)) :=
  (lower node scope).bind fun _ => .pure _

/-- One level: the nodes one level down are used through what is known of them. -/
theorem level_handsOver (node : Node) :
    HandsOver (Eval.level eval (Node.text? room) node scope) fun beyond =>
      Eval.level (eval' beyond) (Eval.textOver beyond room) node scope := by
  cases node with
  | bare token => exact .fault Fault.noConfusion
  | program statements =>
    exact (HandsOver.elements statements .items).bind fun nodes => programStatements_handsOver lower nodes none
  | letBinding token name value =>
    exact (lower value scope).checked fun value => (HandsOver.bindName scope name (some value)).bind fun _ => .pure none
  | returning token value => exact (lower value scope).checked fun value => .pure _
  | statement token expression =>
    simp only [Eval.level, ← bind_pure_comp]
    exact (lower expression scope).required.bind fun value => .pure _
  | block token statements =>
    exact (HandsOver.elements statements .items).bind fun nodes => blockStatements_handsOver lower nodes none
  | identifier token name =>
    refine (HandsOver.get scope name).bind fun found => ?_
    cases found with
    | none => exact .pure _
    | some value => exact .pure _
  | integer token value => exact .pure _
  | boolean token value => exact .pure _
  | unary token operator right => exact (lower right scope).checked fun value => .pure _
  | binary token left operator right =>
    exact (lower left scope).checked fun first => (lower right scope).checked fun second => .pure _
  | conditional token condition consequence alternative =>
    refine (lower condition scope).checked fun value => ?_
    split
    · exact branch_handsOver lower consequence
    · cases alternative with
      | missing => exact .pure _
      | _ => exact branch_handsOver lower _
  | function token parameters body => exact .pure _
  | call token callee arguments =>
    refine (lower callee scope).checked fun function => ?_
    refine (HandsOver.elements arguments .items).bind fun nodes => (arguments_handsOver lower nodes []).bind fun result => ?_
    cases result with
    | error signal => exact .pure _
    | ok values => exact apply_handsOver lower function _
  | missing => exact .fault Fault.noConfusion
  | sequence nodes => exact .fault Fault.noConfusion

end Levels

theorem eval_handsOver (limit : Nat) (node : Node) (scope : Nat) :
    HandsOver (Eval.eval limit node scope) fun beyond => Eval.evalOver beyond limit node scope := by
  induction limit generalizing node scope with
  | zero =>
    constructor
    · intro world beyond other
      exact absurd rfl other
    · intro world after ends
      cases ends
      exact ⟨.node node scope, fun beyond cause last fails => fails⟩
  | succ limit ih => exact level_handsOver ih node

end MonkeyLang
