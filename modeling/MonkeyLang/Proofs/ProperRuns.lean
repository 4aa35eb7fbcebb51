import MonkeyLang.Proofs.SoundScopes

/-! Runs in scopes that were not made by programs. Such a scope may also bind errors, returned values and integers out of
range. As long as integers can be written, the tree of a function could have been parsed and what is returned is there,
only the limit can stop a node, and what it comes to has a text. -/

namespace MonkeyLang

/-- A value that has a text and, if it is a function, a body that runs. -/
def Value.Proper : Value → Prop
  | returned value => value.Proper
  | returnedNothing => False
  | function parameters body _ => Node.Regular .expression (.function none parameters body)
  | integer value => Numeral.Writable value
  | null | boolean _ | error _ => True

namespace Value

variable {value : Value}

/-- Only its height keeps it from having a text. -/
theorem Proper.inspectFault (proper : value.Proper) (room : Nat) :
    value.inspectFault? room = Fault.ofHeight? room value.height := by
  induction value generalizing room with
  | returned value ih =>
    cases room with
    | zero => rfl
    | succ room => rw [inspectFault?, ih proper, height, Fault.ofHeight?_succ]
  | returnedNothing => exact proper.elim
  | null | boolean | error => cases room <;> rfl
  | integer =>
    cases room with
    | zero => rfl
    | succ room =>
      rw [inspectFault?, Fault.ofInteger?_eq_none proper]
      rfl
  | function parameters body =>
    have regular : Node.Regular .expression (.function none parameters body) := proper
    cases room with
    | zero => exact (regular.renderFault 0).symm ▸ rfl
    | succ room => exact regular.renderFault (room + 1)

theorem Proper.text (proper : value.Proper) (room : Nat) :
    value.text? room = if room < value.height then .error .exhausted else .ok value.inspect := by
  rw [text?, proper.inspectFault, Fault.ofHeight?]
  by_cases high : room < value.height
  · simp only [if_pos high]
  · simp only [if_neg high]

theorem Storable.proper {count : Nat} (storable : value.Storable count) : value.Proper := by
  cases value with
  | returned | returnedNothing | error => exact storable.elim
  | null | boolean => trivial
  | integer => exact Signed64.InRange.writable storable
  | function => exact Node.Ranged.regular storable.2

/-- What an operator comes to is sound wherever it is used. -/
theorem Sound.proper (sound : value.Sound 0) : value.Proper := by
  cases sound with
  | plain storable => exact storable.proper
  | returned storable => exact storable.proper
  | error => trivial

end Value

/-- Whatever the scope binds has a proper value, if it has a value. -/
def Scope.Proper (scope : Scope) : Prop := ∀ name value, (name, some value) ∈ scope.bindings → value.Proper

def ProperScopes (scopes : Array Scope) : Prop := AtEach scopes fun _ scope => scope.Proper

namespace Scope.Proper

variable {scope : Scope}

theorem set {value : Value} (proper : scope.Proper) (name : String) (fits : value.Proper) :
    (scope.set name (some value)).Proper := by
  intro other bound member
  rcases mem_setIn member with same | before
  · exact Option.some.inj same ▸ fits
  · exact proper other bound before

theorem withArguments {parameters : List Node} {values : List Value} (proper : scope.Proper)
    (fits : ∀ value ∈ values, value.Proper) : (Raising.withArguments parameters values scope).Proper := by
  fun_induction Raising.withArguments parameters values scope with
  | case1 =>
    rename_i ih
    obtain ⟨first, others⟩ := List.forall_mem_cons.mp fits
    exact ih (proper.set _ first) others
  | case2 => exact proper

end Scope.Proper

namespace ProperScopes

variable {scopes : Array Scope}

theorem fresh : ProperScopes World.fresh.scopes := by
  have empty : ProperScopes World.empty.scopes := fun _ _ place => nomatch place
  exact AtEach.push empty fun _ _ member => nomatch member

theorem lookup (proper : ProperScopes scopes) {scope : Nat} {name : String} {value : Value}
    (found : World.lookup scopes scope name = some value) : value.Proper := by
  obtain ⟨index, inside, place, bound⟩ := World.bound_of_lookup found
  exact proper index inside place name value (Scope.mem_of_find bound)

end ProperScopes

/-- A result that has a text, if it is a value. -/
def ProperResult (result : Option Value) : Prop := ∀ value, result = some value → value.Proper

def HasProper (result : Option Value) : Prop := ∃ value : Value, result = some value ∧ value.Proper

theorem ProperResult.some {value : Value} (proper : value.Proper) : ProperResult (some value) :=
  fun _ same => Option.some.inj same ▸ proper

/-- The results that a node in this role can have where scopes are proper. -/
def Role.Yields : Role → Option Value → Prop
  | .expression | .name => HasProper
  | .program | .statement | .block => ProperResult

/-- The scopes are proper at the end, and the result is accepted unless the limit was reached. -/
structure Settled {α : Type} (accepts : α → Prop) (ended : Except Fault α × World) : Prop where
  scopes : ProperScopes ended.2.scopes
  result : ∀ value, ended.1 = .ok value → accepts value
  stopped : ∀ cause, ended.1 = .error cause → cause = .exhausted

/-- So ends the step from proper scopes. -/
def Settles {α : Type} (accepts : α → Prop) (step : Eval α) : Prop :=
  ∀ world : World, ProperScopes world.scopes → Settled accepts (world.run step)

namespace Settles

variable {α β : Type} {accepts : α → Prop}

theorem pure {value : α} (accepted : accepts value) : Settles accepts (Pure.pure value) :=
  fun _ proper => ⟨proper, fun _ same => Except.ok.inj same ▸ accepted, nofun⟩

theorem some {value : Value} (proper : value.Proper) : Settles HasProper (Pure.pure (some value)) :=
  .pure ⟨value, rfl, proper⟩

theorem exhausted : Settles accepts (Eval.fault .exhausted) :=
  fun _ proper => ⟨proper, nofun, fun _ same => (Except.error.inj same).symm⟩

theorem bind {first : β → Prop} {step : Eval β} {next : β → Eval α} (settles : Settles first step)
    (later : ∀ value, first value → Settles accepts (next value)) : Settles accepts (step >>= next) := by
  intro world proper
  obtain ⟨scopes, result, stopped⟩ := settles world proper
  rw [World.run_bind]
  generalize world.run step = ended at *
  obtain ⟨cause | value, middle⟩ := ended
  · exact ⟨scopes, nofun, fun _ same => Except.error.inj same ▸ stopped cause rfl⟩
  · exact later value (result value rfl) middle scopes

theorem required {step : Eval (Option Value)} (settles : Settles HasProper step) :
    Settles Value.Proper (Eval.required step) := by
  apply settles.bind
  rintro _ ⟨value, rfl, proper⟩
  exact .pure proper

/-- A value that is looked at before it is used; one that is passed on must be accepted too. -/
theorem checked {accepts : Option Value → Prop} {step : Eval (Option Value)} {next : Value → Eval (Option Value)}
    (settles : Settles HasProper step) (passes : ∀ value : Value, value.Proper → accepts (Option.some value))
    (later : ∀ value : Value, value.Proper → Settles accepts (next value)) :
    Settles accepts
      (Eval.required step >>= fun value => if value.isSignal then Pure.pure (Option.some value) else next value) := by
  apply settles.required.bind
  intro value proper
  split
  · exact .pure (passes value proper)
  · exact later value proper

theorem get (scope : Nat) (name : String) : Settles ProperResult (Eval.get scope name) := by
  intro world proper
  refine ⟨proper, ?_, nofun⟩
  rintro _ ⟨⟩ value found
  exact proper.lookup found

/-- The text of a function that could have been parsed is had where there is room for it. -/
theorem noteCall {parameters body : Node} (regular : Node.Regular .expression (.function none parameters body))
    (room count : Nat) : Settles (fun _ => True) (Eval.noteCall (Node.text? room) parameters body count) := by
  intro world proper
  rw [run_noteCall, regular.text room]
  by_cases high : room < (Node.function none parameters body).height
  · rw [if_pos high]
    exact exhausted world proper
  · rw [if_neg high]
    exact ⟨proper, fun _ _ => trivial, nofun⟩

end Settles

section Levels

variable {eval : Node → Nat → Eval (Option Value)} {room : Nat}
  (below : ∀ {role : Role} {node : Node} (scope : Nat), Node.Regular role node → role ≠ .name →
    Settles role.Yields (eval node scope))
include below

variable {scope : Nat}

theorem blockStatements_settles {nodes : List Node} {last : Option Value} (proper : ProperResult last)
    (each : ∀ node ∈ nodes, Node.Regular .statement node) :
    Settles ProperResult (Eval.blockStatements eval scope last nodes) := by
  induction nodes generalizing last with
  | nil => exact .pure proper
  | cons node rest ih =>
    obtain ⟨first, others⟩ := List.forall_mem_cons.mp each
    apply (below scope first nofun).bind
    intro result proper
    cases result with
    | none => exact ih nofun others
    | some value =>
      dsimp only
      split
      · exact .pure proper
      · exact ih proper others

/-- A returned value is taken out of its signal. -/
theorem programStatements_settles {nodes : List Node} {last : Option Value} (proper : ProperResult last)
    (each : ∀ node ∈ nodes, Node.Regular .statement node) :
    Settles ProperResult (Eval.programStatements eval scope last nodes) := by
  induction nodes generalizing last with
  | nil => exact .pure proper
  | cons node rest ih =>
    obtain ⟨first, others⟩ := List.forall_mem_cons.mp each
    apply (below scope first nofun).bind
    intro result proper
    cases result with
    | none => exact ih nofun others
    | some value =>
      have fits := proper value rfl
      cases value with
      | returned value => exact .pure (.some fits)
      | returnedNothing => exact fits.elim
      | error => exact .pure proper
      | null | boolean | integer | function => exact ih proper others

/-- Either the first signal or all values, those from before among them. -/
theorem arguments_settles {nodes : List Node} {values : List Value} (proper : ∀ value ∈ values, value.Proper)
    (each : ∀ node ∈ nodes, Node.Regular .expression node) :
    Settles (fun
        | .error signal => signal.Proper
        | .ok all => ∀ value ∈ all, value.Proper)
      (Eval.arguments eval scope values nodes) := by
  induction nodes generalizing values with
  | nil => exact .pure fun value member => proper value (List.mem_reverse.mp member)
  | cons node rest ih =>
    obtain ⟨first, others⟩ := List.forall_mem_cons.mp each
    apply (below scope first nofun).required.bind
    intro value fits
    split
    · exact .pure fits
    · exact ih (List.forall_mem_cons.mpr ⟨fits, proper⟩) others

/-- The value of a call is that of the body, taken out of its signal. -/
theorem body_settles {body : Node} (block : Node.Regular .block body) :
    Settles HasProper (do
      match ← eval body scope with
      | some (.returned value) => return some value
      | some .returnedNothing => return none
      | some value => return some value
      | none => return some .null) := by
  apply (below scope block nofun).bind
  intro result proper
  cases result with
  | none => exact .some trivial
  | some value =>
    have fits := proper value rfl
    cases value with
    | returnedNothing => exact fits.elim
    | null | boolean | integer | returned | error | function => exact .some fits

theorem apply_settles {callee : Value} {values : List Value} (function : callee.Proper)
    (proper : ∀ value ∈ values, value.Proper) :
    Settles HasProper (Eval.apply eval (Node.text? room) callee (values.map some)) := by
  cases callee with
  | null | boolean | integer | returned | returnedNothing | error => exact .some trivial
  | function parameters body outer =>
    have formed : Node.Regular .expression (.function none parameters body) := function
    cases formed with
    | @function _ nodes _ names block =>
      by_cases count : values.length = nodes.length
      · intro world scopes
        have empty : Scope.Proper ⟨[], [], some outer⟩ := fun _ _ member => nomatch member
        rw [run_apply count names]
        apply (Settles.noteCall function room (values.map some).length).bind fun _ _ => body_settles below block
        exact AtEach.push scopes (empty.withArguments proper)
      · rw [apply_mismatch body outer count]
        exact .some trivial

theorem branch_settles {node : Node} (block : Node.Regular .block node) :
    Settles HasProper (do return some ((← eval node scope).getD .null)) := by
  apply (below scope block nofun).bind
  intro result proper
  cases result with
  | none => exact .some trivial
  | some value => exact .some (proper value rfl)

/-- One level: the nodes one level down are used through what is known of them. -/
theorem level_settles {role : Role} {node : Node} (regular : Node.Regular role node) (evaluated : role ≠ .name) :
    Settles role.Yields (Eval.level eval (Node.text? room) node scope) := by
  have passes (value : Value) (proper : value.Proper) : HasProper (some value) := ⟨value, rfl, proper⟩
  cases regular with
  | program statements => exact programStatements_settles below nofun statements
  | letBinding bound expression =>
    cases bound with
    | name =>
      apply (below scope expression nofun).checked fun _ => .some
      intro value proper world scopes
      refine ⟨AtEach.modify scopes scope fun _ _ kept => kept.set _ proper, ?_, nofun⟩
      rintro _ ⟨⟩
      exact nofun
  | returning expression =>
    apply (below scope expression nofun).checked fun _ => .some
    intro value proper
    exact .pure (.some proper)
  | statement expression =>
    rw [Eval.level, ← bind_pure_comp]
    apply (below scope expression nofun).required.bind
    intro value proper
    exact .pure (.some proper)
  | block statements => exact blockStatements_settles below nofun statements
  | name => exact absurd rfl evaluated
  | identifier =>
    apply (Settles.get scope _).bind
    intro found proper
    cases found with
    | none => exact .some trivial
    | some value => exact .some (proper value rfl)
  | integer fit => exact .some fit
  | boolean => exact .some trivial
  | unary _ operand =>
    apply (below scope operand nofun).checked passes
    intro right _
    exact .some (Operator.applyUnary_sound _ right).proper
  | binary _ leftSide rightSide =>
    apply (below scope leftSide nofun).checked passes
    intro left _
    apply (below scope rightSide nofun).checked passes
    intro right _
    exact .some (Operator.applyBinary_sound _ left right).proper
  | conditional test yes =>
    apply (below scope test nofun).checked passes
    intro value _
    split
    · exact branch_settles below yes
    · exact .some trivial
  | alternative test yes no =>
    apply (below scope test nofun).checked passes
    intro value _
    split
    · exact branch_settles below yes
    · cases no with
      | block statements => exact branch_settles below (.block statements)
  | function parameters block =>
    have proper : Node.Regular .expression (.function none (.sequence _) _) := .function parameters block
    exact .some proper
  | call function arguments =>
    apply (below scope function nofun).checked passes
    intro callee proper
    apply (arguments_settles below (List.forall_mem_nil _) arguments).bind
    intro result fits
    cases result with
    | error signal => exact .some fits
    | ok values => exact apply_settles below proper fits

end Levels

theorem eval_settles (limit : Nat) {role : Role} {node : Node} (scope : Nat) (regular : Node.Regular role node)
    (evaluated : role ≠ .name) : Settles role.Yields (Eval.eval limit node scope) := by
  induction limit generalizing role node scope with
  | zero => exact .exhausted
  | succ limit ih => exact level_settles (fun scope regular evaluated => ih scope regular evaluated) regular evaluated

end MonkeyLang
