import MonkeyLang.Parser.Grammar

/-! Assertions about steps of parsing. A step either returns a result or stops, and in both cases leaves a state; an
assertion speaks about both endings. The rules read a step backwards from its last action, so that a function of the
grammar is opened once and the functions it calls are used through what is known of them. -/

namespace MonkeyLang.Parse

variable {α β : Type}

/-- What a step comes to from a state, and the state in which it leaves. -/
def outcome (step : Parse α) (before : Parser) : Except Failure α × Parser := step.run.run before

/-- A result satisfies the first assertion together with the state after it; where the step stops instead, the reason
and the state satisfy the second one. -/
def Ensures (step : Parse α) (before : Parser) (post : α → Parser → Prop) (stop : Failure → Parser → Prop) : Prop :=
  match step.outcome before with
  | (.ok value, after) => post value after
  | (.error failure, after) => stop failure after

variable {before : Parser} {post : α → Parser → Prop} {stop : Failure → Parser → Prop}

theorem Ensures.imp {step : Parse α} {post' : α → Parser → Prop} {stop' : Failure → Parser → Prop}
    (ensured : Ensures step before post stop) (result : ∀ value after, post value after → post' value after)
    (stopped : ∀ failure after, stop failure after → stop' failure after) : Ensures step before post' stop' := by
  unfold Ensures at *
  split at ensured
  · exact result _ _ ensured
  · exact stopped _ _ ensured

theorem Ensures.and {step : Parse α} {post' : α → Parser → Prop} {stop' : Failure → Parser → Prop}
    (first : Ensures step before post stop) (second : Ensures step before post' stop') :
    Ensures step before (fun value after => post value after ∧ post' value after)
      (fun failure after => stop failure after ∧ stop' failure after) := by
  unfold Ensures at *
  split <;> simp_all

theorem Ensures.of_ok {step : Parse α} {value : α} {after : Parser} (ensured : Ensures step before post stop)
    (ends : step.outcome before = (.ok value, after)) : post value after := by
  simpa only [Ensures, ends] using ensured

theorem Ensures.of_error {step : Parse α} {failure : Failure} {after : Parser}
    (ensured : Ensures step before post stop) (ends : step.outcome before = (.error failure, after)) :
    stop failure after := by
  simpa only [Ensures, ends] using ensured

theorem Ensures.ends {step : Parse α} (ensured : Ensures step before post stop) :
    (∃ value after, step.outcome before = (.ok value, after) ∧ post value after) ∨
      ∃ failure after, step.outcome before = (.error failure, after) ∧ stop failure after := by
  unfold Ensures at ensured
  split at ensured
  next ends => exact .inl ⟨_, _, ends, ensured⟩
  next ends => exact .inr ⟨_, _, ends, ensured⟩

theorem Ensures.outcome_eq {step : Parse α} {ending : Except Failure α × Parser}
    (ensured : Ensures step before (fun value after => (.ok value, after) = ending)
      (fun failure after => (.error failure, after) = ending)) : step.outcome before = ending := by
  obtain ⟨value, after, ends, same⟩ | ⟨failure, after, ends, same⟩ := ensured.ends
  · exact ends.trans same
  · exact ends.trans same

/-! The rules. -/

theorem ensures_pure (value : α) : Ensures (pure value) before post stop ↔ post value before := Iff.rfl

theorem outcome_bind (step : Parse β) (next : β → Parse α) (before : Parser) : (step >>= next).outcome before =
    match step.outcome before with
    | (.ok value, after) => (next value).outcome after
    | (.error failure, after) => (.error failure, after) := by
  simp only [outcome, ExceptT.run_bind, StateT.run_bind]
  rcases step.run.run before with ⟨⟨⟩ | ⟨⟩, after⟩ <;> rfl

theorem ensures_bind (step : Parse β) (next : β → Parse α) : Ensures (step >>= next) before post stop ↔
    Ensures step before (fun value after => Ensures (next value) after post stop) stop := by
  unfold Ensures
  rw [outcome_bind]
  rcases step.outcome before with ⟨⟨⟩ | ⟨⟩, after⟩ <;> rfl

theorem ensures_ite (condition : Prop) [Decidable condition] (yes no : Parse α) :
    Ensures (if condition then yes else no) before post stop ↔
      (condition → Ensures yes before post stop) ∧ (¬condition → Ensures no before post stop) := by
  split <;> simp_all

theorem ensures_get {post : Parser → Parser → Prop} : Ensures get before post stop ↔ post before before := Iff.rfl

theorem ensures_current {post : Token → Parser → Prop} :
    Ensures current before post stop ↔ post before.current before := Iff.rfl

theorem ensures_upcoming {post : Token → Parser → Prop} :
    Ensures upcoming before post stop ↔ post before.upcoming before := Iff.rfl

theorem ensures_advance {post : Unit → Parser → Prop} :
    Ensures advance before post stop ↔ post () before.advance := Iff.rfl

theorem ensures_unreadable (error : SyntaxError) :
    Ensures (unreadable error) before post stop ↔ stop (.unreadable error) before := Iff.rfl

theorem ensures_expect (kind : Kind) {post : Unit → Parser → Prop} : Ensures (expect kind) before post stop ↔
    (before.upcoming.kind = kind → post () before.advance) ∧
      (before.upcoming.kind ≠ kind → stop (.unreadable (.expected kind before.upcoming)) before) := by
  simp only [expect, ensures_bind, ensures_upcoming, ensures_ite, ensures_advance, ensures_unreadable, ne_eq]

theorem ensures_passSemicolon {post : Unit → Parser → Prop} : Ensures passSemicolon before post stop ↔
    (before.upcoming.kind = .semicolon → post () before.advance) ∧
      (before.upcoming.kind ≠ .semicolon → post () before) := by
  simp only [passSemicolon, ensures_bind, ensures_upcoming, ensures_ite, ensures_advance, ensures_pure, ne_eq]

theorem ensures_identifier {post : Node → Parser → Prop} : Ensures identifier before post stop ↔
    post (.identifier before.current before.current.literal) before := Iff.rfl

theorem ensures_boolean {post : Node → Parser → Prop} : Ensures boolean before post stop ↔
    post (.boolean before.current (before.current.kind = .trueWord)) before := Iff.rfl

theorem ensures_map (change : β → α) (step : Parse β) : Ensures (change <$> step) before post stop ↔
    Ensures step before (fun value after => post (change value) after) stop := by
  rw [← bind_pure_comp, ensures_bind]
  rfl

theorem ensures_tryCatch (step : Parse α) (handle : Failure → Parse α) :
    Ensures (tryCatch step handle) before post stop ↔
      Ensures step before post (fun failure after => Ensures (handle failure) after post stop) := by
  have run : (tryCatch step handle).outcome before = match step.outcome before with
      | (.ok value, after) => (.ok value, after)
      | (.error failure, after) => (handle failure).outcome after := by
    have opened : StateT.run step before = step.outcome before := rfl
    simp only [outcome, tryCatch, tryCatchThe, MonadExceptOf.tryCatch, ExceptT.tryCatch, ExceptT.run_mk,
      StateT.run_bind, opened]
    rcases step.run.run before with ⟨⟨⟩ | ⟨⟩, after⟩ <;> rfl
  unfold Ensures
  rw [run]
  rcases step.outcome before with ⟨⟨⟩ | ⟨⟩, after⟩ <;> rfl

/-- A syntax error ends up in the record, and the rest of its statement is skipped; a fault passes through. -/
theorem ensures_recovering (terminator : Kind) (step : Parse β) {post : Option β → Parser → Prop} :
    Ensures (recovering terminator step) before post stop ↔
      Ensures step before (fun value after => post (some value) after) (fun failure after =>
        match failure with
        | .unreadable error => post none ((after.record error).synchronize terminator)
        | .fault cause => stop (.fault cause) after) := by
  rw [recovering, ensures_tryCatch, ensures_map]
  constructor
  all_goals
    intro ensured
    refine ensured.imp (fun _ _ holds => holds) fun failure after holds => ?_
    cases failure <;> exact holds

theorem outcome_recovering (terminator : Kind) (step : Parse β) (before : Parser) :
    (recovering terminator step).outcome before = match step.outcome before with
      | (.ok value, after) => (.ok (some value), after)
      | (.error (.unreadable error), after) => (.ok none, (after.record error).synchronize terminator)
      | (.error (.fault cause), after) => (.error (.fault cause), after) := by
  refine Ensures.outcome_eq ((ensures_recovering terminator step).mpr ?_)
  unfold Ensures
  rcases step.outcome before with ⟨failure | value, after⟩
  · cases failure <;> rfl
  · rfl

end MonkeyLang.Parse
