import MonkeyLang.Program
import MonkeyLang.Proofs.ExceptionSemantics
import MonkeyLang.Proofs.PlainScopes

/-! Passing signals on amounts to raising exceptions. A step of evaluation refines a step of the exception semantics when
both leave the same scopes and the result of the one stands for the end of the other: a signal for what was raised. A
continuation that gives signals back unchanged refines the one that never sees them, which is all that the nodes have
to do; only a call and the program look into a signal. -/

namespace MonkeyLang

/-- A statement may be without a value. -/
def PlainResult (result : Option Value) : Prop := ∀ value, result = some value → value.Plain

def HasValue (result : Option Value) : Prop := ∃ value : Value, result = some value ∧ value.Plain

theorem HasValue.plainResult {result : Option Value} (holds : HasValue result) : PlainResult result := by
  obtain ⟨value, rfl, plain⟩ := holds
  rintro _ ⟨⟩
  exact plain

/-- The results that a node in this role can have. -/
def Role.Accepts : Role → Option Value → Prop
  | .expression | .name => HasValue
  | .program | .statement | .block => PlainResult

/-- A result of evaluation stands for the end that the exception semantics comes to. -/
inductive Encodes (accepts : Option Value → Prop) :
    Except Raised (Option Value) → Except Fault (Option Value) → Prop
  | normal {result} (accepted : accepts result) : Encodes accepts (.ok result) (.ok result)
  | returned {value} (plain : Value.Plain value) :
      Encodes accepts (.error (.returned value)) (.ok (some (.returned value)))
  | failed {reason} : Encodes accepts (.error (.failed reason)) (.ok (some (.error reason)))
  | exhausted : Encodes accepts (.error .exhausted) (.error .exhausted)

namespace World

variable {α β : Type}

theorem run_bind (world : World) (step : Eval β) (next : β → Eval α) : world.run (step >>= next) =
    match world.run step with
    | (.ok value, after) => after.run (next value)
    | (.error fault, after) => (.error fault, after) := by
  simp only [run, ExceptT.run_bind, StateT.run_bind]
  rcases step.run.run world with ⟨⟨⟩ | ⟨⟩, after⟩ <;> rfl

end World

/-- In plain scopes the step ends as the other one does, with the same scopes, which are still plain. -/
def Refines (accepts : Option Value → Prop) (step : Eval (Option Value)) (meaning : Raising (Option Value)) : Prop :=
  ∀ world : World, PlainScopes world.scopes → Encodes accepts (meaning.ends world.scopes).1 (world.run step).1 ∧
    (world.run step).2.scopes = (meaning.ends world.scopes).2 ∧ PlainScopes (world.run step).2.scopes

namespace Refines

variable {accepts accepts' : Option Value → Prop} {step : Eval (Option Value)} {meaning : Raising (Option Value)}

theorem pure {result : Option Value} (accepted : accepts result) : Refines accepts (pure result) (pure result) :=
  fun _ plain => ⟨.normal accepted, rfl, plain⟩

theorem returned {value : Value} (plain : value.Plain) :
    Refines accepts (Pure.pure (some (.returned value))) (throw (.returned value)) :=
  fun _ scopes => ⟨.returned plain, rfl, scopes⟩

theorem failed (reason : RuntimeError) : Refines accepts (Pure.pure (some (.error reason))) (throw (.failed reason)) :=
  fun _ scopes => ⟨.failed, rfl, scopes⟩

/-- Plain results go on on both sides; a signal is given back on the one side as it is passed over on the other. -/
theorem bind {next : Option Value → Eval (Option Value)} {next' : Option Value → Raising (Option Value)}
    (first : Refines accepts step meaning)
    (passes : ∀ signal : Value, signal.isSignal = true → next (some signal) = Pure.pure (some signal))
    (later : ∀ result, accepts result → Refines accepts' (next result) (next' result)) :
    Refines accepts' (step >>= next) (meaning >>= next') := by
  intro world scopes
  obtain ⟨encodes, same, plain⟩ := first world scopes
  rw [World.run_bind, Raising.ends_bind]
  generalize world.run step = ended at *
  generalize meaning.ends world.scopes = ended' at *
  obtain ⟨result, after⟩ := ended
  obtain ⟨result', scopes'⟩ := ended'
  obtain rfl : after.scopes = scopes' := same
  cases encodes with
  | normal accepted => exact later _ accepted after plain
  | returned fits =>
    simp only [passes (.returned _) rfl]
    exact ⟨.returned fits, rfl, plain⟩
  | failed =>
    simp only [passes (.error _) rfl]
    exact ⟨.failed, rfl, plain⟩
  | exhausted => exact ⟨.exhausted, rfl, plain⟩

theorem required {next : Value → Eval (Option Value)} {next' : Value → Raising (Option Value)}
    (first : Refines HasValue step meaning)
    (passes : ∀ signal : Value, signal.isSignal = true → next signal = Pure.pure (some signal))
    (later : ∀ value : Value, value.Plain → Refines accepts (next value) (next' value)) :
    Refines accepts (Eval.required step >>= next) (Raising.required meaning >>= next') := by
  simp only [Eval.required, Raising.required, bind_assoc]
  refine first.bind (fun signal isSignal => ?_) fun result accepted => ?_
  · simp only [pure_bind, passes signal isSignal]
  · obtain ⟨value, rfl, plain⟩ := accepted
    simp only [pure_bind]
    exact later value plain

/-- A value that is looked at before it is used: a signal is given back at once. -/
theorem checked {next : Value → Eval (Option Value)} {next' : Value → Raising (Option Value)}
    (first : Refines HasValue step meaning)
    (later : ∀ value : Value, value.Plain → Refines accepts (next value) (next' value)) :
    Refines accepts
      (Eval.required step >>= fun value => if value.isSignal then Pure.pure (some value) else next value)
      (Raising.required meaning >>= next') := by
  refine first.required (fun signal isSignal => if_pos isSignal) fun value plain => ?_
  rw [if_neg (by simp [plain.not_signal])]
  exact later value plain

theorem settles {result : Value} (sort : (∃ reason, result = .error reason) ∨ result.Plain) :
    Refines HasValue (Pure.pure (some result)) (Raising.settle result) := by
  rcases sort with ⟨reason, rfl⟩ | plain
  · exact .failed reason
  · have same : Raising.settle result = Pure.pure (some result) := by
      cases result with
      | error => exact plain.elim
      | _ => rfl
    rw [same]
    exact .pure ⟨result, rfl, plain⟩

end Refines

namespace Operator

theorem applyUnary_sort (operator : String) (right : Value) :
    (∃ reason, applyUnary operator right = .error reason) ∨ (applyUnary operator right).Plain := by
  unfold applyUnary
  split
  · exact .inr trivial
  · split
    · split
      · exact .inr trivial
      · exact .inl ⟨_, rfl⟩
    · exact .inl ⟨_, rfl⟩

theorem applyInteger_sort (operator : String) (left right : Int) :
    (∃ reason, applyInteger operator left right = .error reason) ∨ (applyInteger operator left right).Plain := by
  unfold applyInteger
  repeat' split
  all_goals first | exact .inr trivial | exact .inl ⟨_, rfl⟩

theorem applyBinary_sort (operator : String) (left right : Value) :
    (∃ reason, applyBinary operator left right = .error reason) ∨ (applyBinary operator left right).Plain := by
  unfold applyBinary
  split
  · exact applyInteger_sort _ _ _
  · repeat' split
    all_goals first | exact .inr trivial | exact .inl ⟨_, rfl⟩
  · split <;> exact .inl ⟨_, rfl⟩

end Operator

section Levels

variable {eval : Node → Nat → Eval (Option Value)} {text : Node → Except Fault String} {room scope : Nat}
  {eval' : Node → Nat → Raising (Option Value)}

/-- A block gives back the first signal of its statements. -/
theorem blockStatements_refines {nodes : List Node} {last : Option Value} (accepted : PlainResult last)
    (each : ∀ node ∈ nodes, Refines PlainResult (eval node scope) (eval' node scope)) :
    Refines PlainResult (Eval.blockStatements eval scope last nodes) (Raising.statements eval' scope last nodes) := by
  induction nodes generalizing last with
  | nil => exact .pure accepted
  | cons node rest ih =>
    obtain ⟨first, others⟩ := List.forall_mem_cons.mp each
    rw [Eval.blockStatements, Raising.statements]
    refine first.bind (fun signal isSignal => if_pos isSignal) fun result plain => ?_
    cases result with
    | none => exact ih plain others
    | some value =>
      simp only [(plain value rfl).not_signal, Bool.false_eq_true, if_false]
      exact ih plain others

/-- The program takes a returned value out of its signal where the exception is caught. -/
theorem programStatements_refines {nodes : List Node} {last : Option Value} (accepted : PlainResult last)
    (each : ∀ node ∈ nodes, Refines PlainResult (eval node scope) (eval' node scope)) :
    Refines PlainResult (Eval.programStatements eval scope last nodes)
      (Raising.catching (Raising.statements eval' scope last nodes)) := by
  induction nodes generalizing last with
  | nil => exact .pure accepted
  | cons node rest ih =>
    obtain ⟨first, others⟩ := List.forall_mem_cons.mp each
    intro world scopes
    obtain ⟨encodes, same, plain⟩ := first world scopes
    rw [Eval.programStatements, Raising.statements, World.run_bind, Raising.ends_catching, Raising.ends_bind]
    generalize world.run (eval node scope) = ended at *
    generalize (eval' node scope).ends world.scopes = ended' at *
    obtain ⟨result, after⟩ := ended
    obtain ⟨result', scopes'⟩ := ended'
    obtain rfl : after.scopes = scopes' := same
    cases encodes with
    | @normal result accepted =>
      have later := ih accepted others after plain
      rw [Raising.ends_catching] at later
      cases result with
      | none => exact later
      | some value =>
        have fits := accepted value rfl
        cases value with
        | returned | returnedNothing | error => exact fits.elim
        | null | boolean | integer | function => exact later
    | returned fits =>
      refine ⟨.normal ?_, rfl, plain⟩
      rintro _ ⟨⟩
      exact fits
    | failed => exact ⟨.failed, rfl, plain⟩
    | exhausted => exact ⟨.exhausted, rfl, plain⟩

/-- The first signal among the arguments takes the place of the call. -/
theorem arguments_refines {nodes : List Node} (values : List Value) {apply : List Value → Eval (Option Value)}
    {apply' : List Value → Raising (Option Value)} {accepts : Option Value → Prop}
    (each : ∀ node ∈ nodes, Refines HasValue (eval node scope) (eval' node scope))
    (plain : ∀ value ∈ values, value.Plain)
    (calls : ∀ all : List Value, (∀ value ∈ all, value.Plain) → Refines accepts (apply all) (apply' all)) :
    Refines accepts
      (do match ← Eval.arguments eval scope values nodes with
        | .error signal => return some signal
        | .ok all => apply all)
      (do apply' (values.reverse ++ (← Raising.arguments eval' scope nodes))) := by
  induction nodes generalizing values with
  | nil =>
    simp only [Eval.arguments, Raising.arguments, pure_bind, List.append_nil]
    exact calls _ fun value member => plain value (List.mem_reverse.mp member)
  | cons node rest ih =>
    obtain ⟨first, others⟩ := List.forall_mem_cons.mp each
    simp only [Eval.arguments, Raising.arguments, bind_assoc, pure_bind]
    refine first.required (fun signal isSignal => ?_) fun value fits => ?_
    · simp only [isSignal, if_true, pure_bind]
    · have later := ih (value :: values) others (List.forall_mem_cons.mpr ⟨fits, plain⟩)
      simpa [fits.not_signal] using later

/-- A call takes a returned value out of its signal, and what has no value gives `null`. -/
theorem called_refines {step : Eval (Option Value)} {meaning : Raising (Option Value)}
    (body : Refines PlainResult step meaning) :
    Refines HasValue
      (do match ← step with
        | some (.returned value) => return some value
        | some .returnedNothing => return none
        | some value => return some value
        | none => return some .null)
      (Raising.catching (do return some ((← meaning).getD .null))) := by
  intro world scopes
  obtain ⟨encodes, same, plain⟩ := body world scopes
  rw [World.run_bind, Raising.ends_catching, Raising.ends_bind]
  generalize world.run step = ended at *
  generalize meaning.ends world.scopes = ended' at *
  obtain ⟨result, after⟩ := ended
  obtain ⟨result', scopes'⟩ := ended'
  obtain rfl : after.scopes = scopes' := same
  cases encodes with
  | @normal result accepted =>
    cases result with
    | none => exact ⟨.normal ⟨.null, rfl, trivial⟩, rfl, plain⟩
    | some value =>
      have fits := accepted value rfl
      cases value with
      | returned | returnedNothing | error => exact fits.elim
      | null | boolean | integer | function => exact ⟨.normal ⟨_, rfl, fits⟩, rfl, plain⟩
  | returned fits => exact ⟨.normal ⟨_, rfl, fits⟩, rfl, plain⟩
  | failed => exact ⟨.failed, rfl, plain⟩
  | exhausted => exact ⟨.exhausted, rfl, plain⟩

theorem run_enclose (world : World) (outer : Nat) : world.run (Eval.enclose outer) =
    (.ok world.scopes.size, { world with scopes := world.scopes.push ⟨[], [], some outer⟩ }) := rfl

theorem run_noteCall (text : Node → Except Fault String) (parameters body : Node) (count : Nat) (world : World) :
    world.run (Eval.noteCall text parameters body count) =
      match text (.function none parameters body) with
      | .ok source => (.ok (), { world with calls := ⟨source, count⟩ :: world.calls })
      | .error fault => (.error fault, world) := by
  rw [Eval.noteCall]
  cases text (.function none parameters body) <;> rfl

/-- The note of a call is no scope. -/
theorem run_noteCall_scopes (text : Node → Except Fault String) (parameters body : Node) (count : Nat) (world : World) :
    (world.run (Eval.noteCall text parameters body count)).2.scopes = world.scopes := by
  rw [run_noteCall]
  cases text (.function none parameters body) <;> rfl

/-- Binding parameters one after the other comes to the scope with all arguments. -/
theorem run_bindAll {parameters : List Node} (names : ∀ node ∈ parameters, Node.Regular .name node) (values : List Value)
    (world : World) : world.run (Eval.bindAll scope parameters (values.map some)) =
      (.ok (), { world with scopes := world.scopes.modify scope (Raising.withArguments parameters values) }) := by
  induction parameters generalizing values world with
  | nil =>
    simp only [Raising.withArguments, Array.modify_same]
    rfl
  | cons node rest ih =>
    obtain ⟨first, others⟩ := List.forall_mem_cons.mp names
    cases first with
    | @name token text =>
      cases values with
      | nil =>
        simp only [Raising.withArguments, Array.modify_same]
        rfl
      | cons value values =>
        rw [List.map_cons, Eval.bindAll, World.run_bind]
        simp only [Raising.withArguments]
        refine (ih others values _).trans ?_
        simp only [World.bind, Scope.bind, Array.modify_twice]

theorem withArguments_plain {parameters : List Node} {values : List Value} {target : Scope} (plain : target.Plain)
    (fits : ∀ value ∈ values, value.Plain) : (Raising.withArguments parameters values target).Plain := by
  fun_induction Raising.withArguments parameters values target with
  | case1 =>
    rename_i ih
    obtain ⟨first, others⟩ := List.forall_mem_cons.mp fits
    exact ih (plain.set _ first) others
  | case2 => exact plain

/-- With as many arguments as parameters the call is noted and the body runs, both when a new scope is there that has
the parameters set. -/
theorem run_apply {values : List Value} {nodes : List Node} {body : Node} {outer : Nat}
    (count : values.length = nodes.length) (names : ∀ node ∈ nodes, Node.Regular .name node) (world : World) :
    world.run (Eval.apply eval text (.function (.sequence nodes) body outer) (values.map some)) =
      World.run { world with scopes := world.scopes.push (Raising.withArguments nodes values ⟨[], [], some outer⟩) } (do
        Eval.noteCall text (.sequence nodes) body (values.map some).length
        match ← eval body world.scopes.size with
        | some (.returned value) => return some value
        | some .returnedNothing => return none
        | some value => return some value
        | none => return some .null) := by
  change world.run (if (values.map some).length ≠ nodes.length then _ else _) = _
  rw [if_neg (by simpa using count), World.run_bind, run_enclose]
  dsimp only
  rw [World.run_bind, run_bindAll names]
  exact congrArg (fun scopes => World.run ⟨scopes, _⟩ _) (Array.modify_last ..)

theorem apply_mismatch {values : List Value} {nodes : List Node} (body : Node) (outer : Nat)
    (count : values.length ≠ nodes.length) :
    Eval.apply eval text (.function (.sequence nodes) body outer) (values.map some) =
      pure (some (.error (.argumentCount nodes.length values.length))) := by
  change (if (values.map some).length ≠ nodes.length then _ else _) = _
  rw [if_pos (by simpa using count), List.length_map]

/-- What comes after the note of a call is done where there is room for the text of the function. -/
theorem noted_refines {parameters body : Node} (regular : Node.Regular .expression (.function none parameters body))
    (count : Nat) {accepts : Option Value → Prop} {step : Eval (Option Value)} {meaning : Raising (Option Value)}
    (later : Refines accepts step meaning) :
    Refines accepts (do Eval.noteCall (Node.text? room) parameters body count; step)
      (if room < (Node.function none parameters body).height then throw .exhausted else meaning) := by
  intro world scopes
  rw [World.run_bind, run_noteCall, regular.text room]
  split
  · exact ⟨.exhausted, rfl, scopes⟩
  · exact later ⟨world.scopes, ⟨_, count⟩ :: world.calls⟩ scopes

theorem apply_refines {callee : Value} {values : List Value} (plain : callee.Plain) (fits : ∀ value ∈ values, value.Plain)
    (below : ∀ body scope, Node.Regular .block body → Refines PlainResult (eval body scope) (eval' body scope)) :
    Refines HasValue (Eval.apply eval (Node.text? room) callee (values.map some))
      (Raising.apply eval' room callee values) := by
  cases callee with
  | returned | returnedNothing | error => exact plain.elim
  | null | boolean | integer => exact .failed _
  | function parameters body outer =>
    have formed : Node.Regular .expression (.function none parameters body) := plain
    cases formed with
    | @function _ nodes _ names block =>
      by_cases count : values.length = nodes.length
      · intro world scopes
        have inside : PlainScopes (world.scopes.push (Raising.withArguments nodes values ⟨[], [], some outer⟩)) :=
          scopes.push (withArguments_plain (fun _ _ member => nomatch member) fits)
        have entered : (Raising.apply eval' room (.function (.sequence nodes) body outer) values).ends world.scopes =
            (if room < (Node.function none (.sequence nodes) body).height then throw .exhausted
              else Raising.catching (do return some ((← eval' body world.scopes.size).getD .null))).ends
              (world.scopes.push (Raising.withArguments nodes values ⟨[], [], some outer⟩)) := by
          rw [Raising.apply, if_neg (by simpa using count)]
          rfl
        rw [run_apply count names, entered]
        exact noted_refines plain _ (called_refines (below body world.scopes.size block)) ⟨_, _⟩ inside
      · have mismatch : Raising.apply eval' room (.function (.sequence nodes) body outer) values =
            throw (.failed (.argumentCount nodes.length values.length)) := by
          rw [Raising.apply, if_pos count]
        rw [apply_mismatch body outer count, mismatch]
        exact .failed _

theorem branch_refines {step : Eval (Option Value)} {meaning : Raising (Option Value)}
    (first : Refines PlainResult step meaning) :
    Refines HasValue (do return some ((← step).getD .null)) (do return some ((← meaning).getD .null)) := by
  refine first.bind (fun _ _ => rfl) fun result plain => .pure ?_
  cases result with
  | none => exact ⟨_, rfl, trivial⟩
  | some value => exact ⟨_, rfl, plain value rfl⟩

theorem identifier_refines (token : Option Token) (name : String) :
    Refines HasValue (Eval.level eval text (.identifier token name) scope) (Raising.look scope name) := by
  intro world scopes
  have got : world.run (Eval.get scope name) = (.ok (World.lookup world.scopes scope name), world) := rfl
  have got' : (get : Raising (Array Scope)).ends world.scopes = (.ok world.scopes, world.scopes) := rfl
  rw [Eval.level, World.run_bind, got, Raising.look, Raising.ends_bind, got']
  dsimp only
  cases means : World.lookup world.scopes scope name with
  | none => exact ⟨.failed, rfl, scopes⟩
  | some value => exact ⟨.normal ⟨value, rfl, scopes.lookup means⟩, rfl, scopes⟩

/-- One level: the nodes one level down are used through what is known of them. -/
theorem level_refines (below : ∀ {role : Role} {node : Node} scope, Node.Regular role node → role ≠ .name →
      Refines role.Accepts (eval node scope) (eval' node scope))
    {role : Role} {node : Node} (regular : Node.Regular role node) (evaluated : role ≠ .name) :
    Refines role.Accepts (Eval.level eval (Node.text? room) node scope) (Raising.level eval' room node scope) := by
  cases regular with
  | program statements =>
    exact programStatements_refines nofun fun node member => below scope (statements node member) nofun
  | letBinding bound expression =>
    cases bound with
    | name =>
      refine (below scope expression nofun).checked fun value plain => ?_
      intro world scopes
      exact ⟨.normal nofun, rfl, scopes.modify scope fun _ same => same.set _ plain⟩
  | returning expression => exact (below scope expression nofun).checked fun value plain => .returned plain
  | statement expression =>
    rw [Eval.level, ← bind_pure_comp]
    refine (below scope expression nofun).required (fun _ _ => rfl) fun value plain => .pure ?_
    exact HasValue.plainResult ⟨value, rfl, plain⟩
  | block statements =>
    exact blockStatements_refines nofun fun node member => below scope (statements node member) nofun
  | name => exact absurd rfl evaluated
  | identifier => exact identifier_refines _ _
  | integer => exact .pure ⟨_, rfl, trivial⟩
  | boolean => exact .pure ⟨_, rfl, trivial⟩
  | unary _ operand =>
    exact (below scope operand nofun).checked fun right _ => .settles (Operator.applyUnary_sort _ right)
  | binary _ leftSide rightSide =>
    refine (below scope leftSide nofun).checked fun left _ => ?_
    exact (below scope rightSide nofun).checked fun right _ => .settles (Operator.applyBinary_sort _ left right)
  | conditional test yes =>
    refine (below scope test nofun).checked fun value _ => ?_
    split
    · exact branch_refines (below scope yes nofun)
    · exact .pure ⟨_, rfl, trivial⟩
  | alternative test yes no =>
    refine (below scope test nofun).checked fun value _ => ?_
    split
    · exact branch_refines (below scope yes nofun)
    · cases no with
      | block statements => exact branch_refines (below scope (.block statements) nofun)
  | function parameters block => exact .pure ⟨_, rfl, .function parameters block⟩
  | call function arguments =>
    refine (below scope function nofun).checked fun callee plain => ?_
    have applied : ∀ all : List Value, (∀ value ∈ all, value.Plain) →
        Refines HasValue (Eval.apply eval (Node.text? room) callee (all.map some)) (Raising.apply eval' room callee all) :=
      fun _ fits => apply_refines plain fits fun _ inside block => below inside block nofun
    have calls := arguments_refines [] (fun node member => below scope (arguments node member) nofun) nofun applied
    simp only [List.reverse_nil, List.nil_append] at calls
    exact calls

end Levels

theorem eval_refines (limit : Nat) {role : Role} {node : Node} (scope : Nat) (regular : Node.Regular role node)
    (evaluated : role ≠ .name) : Refines role.Accepts (Eval.eval limit node scope) (Raising.eval limit node scope) := by
  induction limit generalizing role node scope with
  | zero => exact fun _ scopes => ⟨.exhausted, rfl, scopes⟩
  | succ limit ih => exact level_refines (fun scope regular evaluated => ih scope regular evaluated) regular evaluated

end MonkeyLang
