import MonkeyLang.Proofs.ShapeInvariance

/-! Programs that are run one after the other. As long as no statement ends in a signal, the statements of the second program
go on where those of the first one have come to, as if they were one program. What was called before does not matter to
what is bound, nor to the value; and what is shown of a value depends on its shape alone. -/

namespace MonkeyLang

namespace World

/-- No statement has a signal for its value, each of them evaluated in the world that the ones before it leave. -/
def Quiet (depth scope : Nat) : World → List Node → Prop
  | _, [] => True
  | world, statement :: rest =>
    (∀ value, (world.eval depth statement scope).1 = .ok (some value) → value.isSignal = false) ∧
      Quiet depth scope (world.eval depth statement scope).2 rest

variable {depth scope : Nat} {world : World} {front back : List Node} {result : Option Value}

theorem eval_program (world : World) (depth scope : Nat) (statements : List Node) :
    world.eval (depth + 1) (.program (.sequence statements)) scope =
      world.run (Eval.programStatements (Eval.eval depth) scope none statements) := rfl

/-- Quiet statements have the ones behind them go on with their result, in the world that they leave. -/
theorem run_programStatements_append {last : Option Value} (quiet : world.Quiet depth scope front)
    (ends : (world.run (Eval.programStatements (Eval.eval depth) scope last front)).1 = .ok result) :
    world.run (Eval.programStatements (Eval.eval depth) scope last (front ++ back)) =
      (world.run (Eval.programStatements (Eval.eval depth) scope last front)).2.run
        (Eval.programStatements (Eval.eval depth) scope result back) := by
  induction front generalizing world last with
  | nil =>
    obtain rfl := Except.ok.inj ends
    rfl
  | cons statement rest ih =>
    obtain ⟨first, others⟩ := quiet
    rw [eval] at first others
    rw [List.cons_append, Eval.programStatements, Eval.programStatements, run_bind, run_bind] at *
    generalize world.run (Eval.eval depth statement scope) = ended at *
    obtain ⟨ended | ended, after⟩ := ended
    · cases ends
    · cases ended with
      | none => exact ih others ends
      | some value =>
        have plain := first value rfl
        cases value with
        | returned | returnedNothing | error => cases plain
        | null | boolean | integer | function => exact ih others ends

/-- Two programs run as one, if there is anything in the second one. -/
theorem eval_append (quiet : world.Quiet depth scope front)
    (ends : (world.eval (depth + 1) (.program (.sequence front)) scope).1 = .ok result) (some : back ≠ []) :
    world.eval (depth + 1) (.program (.sequence (front ++ back))) scope =
      (world.eval (depth + 1) (.program (.sequence front)) scope).2.eval (depth + 1) (.program (.sequence back)) scope := by
  obtain ⟨statement, rest, rfl⟩ := List.exists_cons_of_ne_nil some
  simp only [eval_program] at ends ⊢
  -- another statement follows, so the result up to there is dropped
  refine (run_programStatements_append quiet ends).trans ?_
  rw [Eval.programStatements, Eval.programStatements]

end World

theorem Encodes.unique {accepts : Option Value → Prop} {meaning : Except Raised (Option Value)}
    {result result' : Except Fault (Option Value)} (first : Encodes accepts meaning result)
    (second : Encodes accepts meaning result') : result = result' := by
  cases first <;> cases second <;> rfl

/-- How a step ends depends on the scopes alone. -/
theorem Refines.same {accepts : Option Value → Prop} {step : Eval (Option Value)} {meaning : Raising (Option Value)}
    (refines : Refines accepts step meaning) {world world' : World} (plain : PlainScopes world.scopes)
    (same : world'.scopes = world.scopes) :
    (world'.run step).1 = (world.run step).1 ∧ (world'.run step).2.scopes = (world.run step).2.scopes := by
  obtain ⟨encodes, scopes, -⟩ := refines world plain
  obtain ⟨encodes', scopes', -⟩ := refines world' (same ▸ plain)
  rw [same] at encodes' scopes'
  exact ⟨encodes'.unique encodes, scopes'.trans scopes.symm⟩

namespace Value

theorem inspectFault_shape (value : Value) (room : Nat) : value.shape.inspectFault? room = value.inspectFault? room := by
  induction value generalizing room with
  | returned value ih =>
    cases room with
    | zero => rfl
    | succ room => exact ih room
  | function parameters body scope =>
    cases room with
    | zero => rfl
    | succ room => exact Node.renderFault_shape (.function none parameters body) (room + 1)
  | _ => cases room <;> rfl

theorem text_shape (limit : Nat) (value : Value) : value.shape.text? limit = value.text? limit := by
  rw [text?, text?, inspectFault_shape, inspect_shape]

end Value

/-- Trees of one shape come to values of one shape, in worlds that look the same. -/
theorem World.eval_of_shape {first second : Node} (same : first.shape = second.shape) {depth scope : Nat} {world : World}
    {result : Option Value} (ends : (world.eval depth first scope).1 = .ok result) :
    (∃ result', (world.eval depth second scope).1 = .ok result' ∧ shapeOf? result' = shapeOf? result) ∧
      (world.eval depth second scope).2.shape = (world.eval depth first scope).2.shape := by
  obtain ⟨alike, after⟩ := eval_mirrors depth first scope world
  obtain ⟨alike', after'⟩ := eval_mirrors depth second scope world
  rw [← same] at alike' after'
  refine ⟨?_, after'.symm.trans after⟩
  rw [eval] at ends ⊢
  rw [ends] at alike
  generalize (world.shape.run (Eval.eval depth first.shape scope)).1 = shaped at alike alike'
  generalize (world.run (Eval.eval depth second scope)).1 = ended' at alike' ⊢
  cases alike
  generalize image : Except.ok (shapeOf? result) = shaped at alike'
  cases alike' with
  | ok result' => exact ⟨result', rfl, (Except.ok.inj image).symm⟩
  | error => cases image

end MonkeyLang
