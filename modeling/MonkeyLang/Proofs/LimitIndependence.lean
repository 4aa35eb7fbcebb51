import Mathlib
import MonkeyLang.Proofs.GrammarAcceptance
import MonkeyLang.Proofs.LimitReached

/-! What the limit decides. Parsing that reaches it has come to an expression that is nested too deeply: no list of
statements recovers from the fault there, and the errors of the program are those recorded before. Parsing and evaluation
that do not reach it are the same under every higher limit. -/

namespace MonkeyLang

namespace Parse

variable {α β : Type}

/-- Expressions with another way to read those that are nested one level deeper than the limit. -/
def expressionOver (below : Int → Parse Node) : Nat → Int → Parse Node
  | 0, floor => below floor
  | limit + 1, floor => level (expressionOver below limit) floor

def programOver (below : Int → Parse Node) (limit : Nat) : Parse Node := do
  return .program (.sequence (← statements (expressionOver below limit) .endOfInput))

theorem expressionOver_exhausted (limit : Nat) : expressionOver (fun _ => fault .exhausted) limit = expression limit := by
  induction limit with
  | zero => rfl
  | succ limit ih =>
    funext floor
    rw [expressionOver, ih, expression]

/-- A limit that is reached in parsing is one of a higher limit, which goes on. -/
theorem expressionOver_expression (limit more : Nat) : expressionOver (expression more) limit = expression (more + limit) := by
  induction limit with
  | zero => rfl
  | succ limit ih =>
    funext floor
    rw [expressionOver, ih, ← Nat.add_assoc, expression]

theorem programOver_exhausted (limit : Nat) : programOver (fun _ => fault .exhausted) limit = program limit := by
  rw [programOver, expressionOver_exhausted, program]

theorem programOver_expression (limit more : Nat) : programOver (expression more) limit = program (more + limit) := by
  rw [programOver, expressionOver_expression, program]

/-- A fault of the expression that is read one level too deep, from such a state, is a fault of the step. -/
def Surfaces (step : (Int → Parse Node) → Parse α) (before : Parser) (floor : Int) (middle : Parser) : Prop :=
  ∀ below cause last, (below floor).outcome middle = (.error (.fault cause), last) →
    (step below).outcome before = (.error (.fault cause), last)

/-- The step ends the same however expressions that are nested too deeply are read, or it comes to the first one of them
and does not survive a fault in it. -/
def HandsOver (step : (Int → Parse Node) → Parse α) : Prop :=
  ∀ before, (∃ ending, ∀ below, (step below).outcome before = ending) ∨ ∃ floor middle, Surfaces step before floor middle

namespace HandsOver

variable {step : (Int → Parse Node) → Parse α}

/-- A step that reads no expression. -/
theorem fixed (step : Parse α) : HandsOver fun _ => step := fun before => .inl ⟨step.outcome before, fun _ => rfl⟩

theorem bind {next : (Int → Parse Node) → α → Parse β} (first : HandsOver step)
    (later : ∀ value, HandsOver fun below => next below value) : HandsOver fun below => step below >>= next below := by
  intro before
  rcases first before with ⟨⟨failure | value, middle⟩, ends⟩ | ⟨floor, middle, surfaces⟩
  · refine .inl ⟨(.error failure, middle), fun below => ?_⟩
    rw [outcome_bind, ends]
  · have goesOn (below : Int → Parse Node) : (step below >>= next below).outcome before = (next below value).outcome middle := by
      rw [outcome_bind, ends]
    rcases later value middle with ⟨ending, ends⟩ | ⟨floor, last, surfaces⟩
    · exact .inl ⟨ending, fun below => (goesOn below).trans (ends below)⟩
    · exact .inr ⟨floor, last, fun below cause final fails => (goesOn below).trans (surfaces below cause final fails)⟩
  · refine .inr ⟨floor, middle, ?_⟩
    intro below cause last fails
    rw [outcome_bind, surfaces below cause last fails]

/-- Recovery catches syntax errors only. -/
theorem recovering (terminator : Kind) (first : HandsOver step) :
    HandsOver fun below => recovering terminator (step below) := by
  intro before
  rcases first before with ⟨ending, ends⟩ | ⟨floor, middle, surfaces⟩
  · refine .inl ⟨(Parse.recovering terminator (step fun _ => fault .exhausted)).outcome before, fun below => ?_⟩
    rw [outcome_recovering, outcome_recovering, ends, ends]
  · refine .inr ⟨floor, middle, ?_⟩
    intro below cause last fails
    rw [outcome_recovering, surfaces below cause last fails]

end HandsOver

section Levels

variable {expression : (Int → Parse Node) → Int → Parse Node}
  (lower : ∀ floor, HandsOver fun below => expression below floor)
include lower

theorem letBinding_handsOver : HandsOver fun below => letBinding (expression below) :=
  (HandsOver.fixed current).bind fun _ => (HandsOver.fixed (expect _)).bind fun _ => (HandsOver.fixed identifier).bind fun _ =>
    (HandsOver.fixed (expect _)).bind fun _ => (HandsOver.fixed advance).bind fun _ => (lower _).bind fun _ => .fixed _

theorem returning_handsOver : HandsOver fun below => returning (expression below) :=
  (HandsOver.fixed current).bind fun _ => (HandsOver.fixed advance).bind fun _ => (lower _).bind fun _ => .fixed _

theorem expressionStatement_handsOver : HandsOver fun below => expressionStatement (expression below) :=
  (HandsOver.fixed current).bind fun _ => (lower _).bind fun _ => .fixed _

theorem statement_handsOver : HandsOver fun below => statement (expression below) := by
  refine (HandsOver.fixed current).bind fun token => ?_
  split
  · exact letBinding_handsOver lower
  · exact returning_handsOver lower
  · exact expressionStatement_handsOver lower

theorem moreStatements_handsOver (terminator : Kind) (rounds : Nat) (read : List Node) :
    HandsOver fun below => moreStatements (expression below) terminator rounds read := by
  induction rounds generalizing read with
  | zero => exact .fixed _
  | succ rounds ih =>
    refine (HandsOver.fixed current).bind fun token => ?_
    split
    · exact .fixed _
    · have whole : HandsOver fun below => (do let node ← statement (expression below); advance; return node) :=
        (statement_handsOver lower).bind fun _ => .fixed _
      refine (whole.recovering terminator).bind fun result => ?_
      cases result with
      | none => exact ih read
      | some node => exact ih (node :: read)

theorem statements_handsOver (terminator : Kind) : HandsOver fun below => statements (expression below) terminator :=
  (HandsOver.fixed get).bind fun _ => moreStatements_handsOver lower terminator _ _

theorem block_handsOver : HandsOver fun below => block (expression below) :=
  (HandsOver.fixed current).bind fun _ => (HandsOver.fixed advance).bind fun _ =>
    (statements_handsOver lower _).bind fun _ => .fixed _

theorem unary_handsOver : HandsOver fun below => unary (expression below) :=
  (HandsOver.fixed current).bind fun _ => (HandsOver.fixed advance).bind fun _ => (lower _).bind fun _ => .fixed _

theorem binary_handsOver (left : Node) : HandsOver fun below => binary (expression below) left :=
  (HandsOver.fixed current).bind fun _ => (HandsOver.fixed advance).bind fun _ => (lower _).bind fun _ => .fixed _

theorem grouped_handsOver : HandsOver fun below => grouped (expression below) :=
  (HandsOver.fixed advance).bind fun _ => (lower _).bind fun _ => .fixed _

theorem conditional_handsOver : HandsOver fun below => conditional (expression below) := by
  refine (HandsOver.fixed current).bind fun token => (HandsOver.fixed (expect _)).bind fun _ =>
    (HandsOver.fixed advance).bind fun _ => (lower _).bind fun condition => (HandsOver.fixed (expect _)).bind fun _ =>
      (HandsOver.fixed (expect _)).bind fun _ => (block_handsOver lower).bind fun consequence =>
        (HandsOver.fixed upcoming).bind fun next => ?_
  split
  · exact (HandsOver.fixed advance).bind fun _ => (HandsOver.fixed (expect _)).bind fun _ =>
      (block_handsOver lower).bind fun _ => .fixed _
  · exact .fixed _

theorem functionLiteral_handsOver : HandsOver fun below => functionLiteral (expression below) :=
  (HandsOver.fixed current).bind fun _ => (HandsOver.fixed (expect _)).bind fun _ => (HandsOver.fixed parameters).bind fun _ =>
    (HandsOver.fixed (expect _)).bind fun _ => (block_handsOver lower).bind fun _ => .fixed _

theorem moreExpressions_handsOver (rounds : Nat) (read : List Node) :
    HandsOver fun below => moreExpressions (expression below) rounds read := by
  induction rounds generalizing read with
  | zero => exact .fixed _
  | succ rounds ih =>
    refine (HandsOver.fixed upcoming).bind fun next => ?_
    split
    · exact (HandsOver.fixed advance).bind fun _ => (HandsOver.fixed advance).bind fun _ => (lower _).bind fun node => ih _
    · exact .fixed _

theorem expressions_handsOver (closing : Kind) : HandsOver fun below => expressions (expression below) closing := by
  refine (HandsOver.fixed upcoming).bind fun next => ?_
  split
  · exact .fixed _
  · exact (HandsOver.fixed advance).bind fun _ => (lower _).bind fun first => (HandsOver.fixed get).bind fun _ =>
      (moreExpressions_handsOver lower _ _).bind fun _ => .fixed _

theorem call_handsOver (callee : Node) : HandsOver fun below => call (expression below) callee :=
  (HandsOver.fixed current).bind fun _ => (expressions_handsOver lower _).bind fun _ => .fixed _

theorem operand_handsOver : HandsOver fun below => operand (expression below) := by
  refine (HandsOver.fixed current).bind fun token => ?_
  split
  · exact .fixed _
  · exact .fixed _
  · exact .fixed _
  · exact .fixed _
  · exact unary_handsOver lower
  · exact unary_handsOver lower
  · exact grouped_handsOver lower
  · exact conditional_handsOver lower
  · exact functionLiteral_handsOver lower
  · exact .fixed _

theorem operators_handsOver (floor : Int) (rounds : Nat) (left : Node) :
    HandsOver fun below => operators (expression below) floor rounds left := by
  induction rounds generalizing left with
  | zero => exact .fixed _
  | succ rounds ih =>
    refine (HandsOver.fixed upcoming).bind fun next => ?_
    split
    · split
      · exact (HandsOver.fixed advance).bind fun _ => (call_handsOver lower left).bind fun _ => ih _
      · split
        · exact (HandsOver.fixed advance).bind fun _ => (binary_handsOver lower left).bind fun _ => ih _
        · exact .fixed _
    · exact .fixed _

theorem level_handsOver (floor : Int) : HandsOver fun below => level (expression below) floor :=
  (operand_handsOver lower).bind fun left => (HandsOver.fixed get).bind fun _ => operators_handsOver lower floor _ left

end Levels

theorem expressionOver_handsOver (limit : Nat) (floor : Int) : HandsOver fun below => expressionOver below limit floor := by
  induction limit generalizing floor with
  | zero =>
    intro before
    exact .inr ⟨floor, before, fun below cause last fails => fails⟩
  | succ limit ih => exact level_handsOver ih floor

theorem programOver_handsOver (limit : Nat) : HandsOver fun below => programOver below limit :=
  (statements_handsOver (expressionOver_handsOver limit) .endOfInput).bind fun _ => .fixed _

/-- Where the fault at the limit is another one, no round of a loop gives up. -/
theorem expressionOver_roomy {cause : Fault} (other : cause ≠ .exhausted) (limit room : Nat) :
    Roomy (expressionOver (fun _ => fault cause) limit) room := by
  induction limit generalizing room with
  | zero => exact ⟨fun _ => moving.fault cause, fun _ _ _ _ same => other (Failure.fault.inj same)⟩
  | succ limit ih =>
    exact ⟨moving.level (ih room).moving, fun floor _ ready enough => ends_level (ih room) floor ready (Nat.le_of_lt enough)⟩

theorem programOver_ends {cause : Fault} (other : cause ≠ .exhausted) (limit : Nat) {before : Parser} (ready : before.Ready) :
    Ends (programOver (fun _ => fault cause) limit) before := by
  simp only [Ends, programOver, statements, ensures_bind, ensures_get, ensures_pure]
  have enough : before.rest.length < before.rest.length + 1 := Nat.lt_succ_self _
  exact ends_moreStatements (expressionOver_roomy other limit _) _ _ ready enough enough

/-- A program is read without regard to what is nested too deeply, or parsing gives up at the first such expression. -/
theorem program_settles_or_surfaces (limit : Nat) {before : Parser} (ready : before.Ready) :
    (((program limit).outcome before).1 ≠ .error (.fault .exhausted) ∧
      ∀ below, (programOver below limit).outcome before = (program limit).outcome before) ∨
    ∃ floor after, (program limit).outcome before = (.error (.fault .exhausted), after) ∧
      Surfaces (fun below => programOver below limit) before floor after := by
  rcases programOver_handsOver limit before with ⟨ending, ends⟩ | ⟨floor, middle, surfaces⟩
  · have given : (program limit).outcome before = ending := by rw [← programOver_exhausted, ends]
    refine .inl ⟨?_, fun below => (ends below).trans given.symm⟩
    intro exhausted
    -- the loops have rounds enough, so that the ending is not theirs
    have other : Fault.noValue ≠ .exhausted := Fault.noConfusion
    have completed := programOver_ends other limit ready
    rw [Ends, Ensures, ends, ← given] at completed
    generalize (program limit).outcome before = ended at exhausted completed
    obtain ⟨failure | node, after⟩ := ended
    · exact completed (Except.error.inj exhausted)
    · cases exhausted
  · refine .inr ⟨floor, middle, ?_, surfaces⟩
    rw [← programOver_exhausted]
    exact surfaces (fun _ => fault .exhausted) .exhausted middle rfl

end Parse

/-- The state in front of a text. -/
def Parser.ofText (text : String) : Parser := ofTokens (Token.ofText text)

/-- A text that is read under a limit is read in the same way under a higher one. -/
theorem Parsed.ofText_higher {text : String} {limit higher : Nat} (le : limit ≤ higher)
    (completed : ¬(ofText limit text).Exhausted) : ofText higher text = ofText limit text := by
  obtain ⟨more, rfl⟩ := Nat.exists_eq_add_of_le' le
  rcases Parse.program_settles_or_surfaces limit (Parser.ofTokens_ready (Token.ofText text)) with
    ⟨-, settles⟩ | ⟨floor, after, ends, -⟩
  · have same := settles (Parse.expression more)
    rw [Parse.programOver_expression] at same
    rw [ofText, ofText, ofTokens_eq, ofTokens_eq, same]
  · exact absurd (congrArg Prod.fst ends) completed

namespace World

variable (world : World) (node : Node) (scope : Nat)

/-- A node that is evaluated under a limit is evaluated in the same way under a higher one. -/
theorem eval_higher {limit higher : Nat} (le : limit ≤ higher) (completed : (world.eval limit node scope).1 ≠ .error .exhausted) :
    world.eval higher node scope = world.eval limit node scope := by
  obtain ⟨more, rfl⟩ := Nat.exists_eq_add_of_le' le
  have same := (eval_handsOver limit node scope).same world (.higher more) completed
  rwa [Eval.evalOver_higher] at same

/-- A node is evaluated without regard to what lies beyond the limit, or evaluation gives up at the first place there. -/
theorem eval_settles_or_surfaces (limit : Nat) :
    ((world.eval limit node scope).1 ≠ .error .exhausted ∧
      ∀ beyond, world.run (Eval.evalOver beyond limit node scope) = world.eval limit node scope) ∨
    ∃ place after, world.eval limit node scope = (.error .exhausted, after) ∧
      Eval.Surfaces (fun beyond => Eval.evalOver beyond limit node scope) world place after := by
  by_cases exhausted : (world.eval limit node scope).1 = .error .exhausted
  · have ends : world.eval limit node scope = (.error .exhausted, (world.eval limit node scope).2) := Prod.ext exhausted rfl
    obtain ⟨place, surfaces⟩ := (eval_handsOver limit node scope).reaches world _ ends
    exact .inr ⟨place, _, ends, surfaces⟩
  · exact .inl ⟨exhausted, fun beyond => (eval_handsOver limit node scope).same world beyond exhausted⟩

end World

/-- The limit decides whether there is an answer, not which. What a text is read to, errors and all, and what a node is
evaluated to, with the bindings that are left, is the same under a higher limit. And where an expression or a node comes up
that is nested one level too deep, or a function is called whose text is too high for the levels that are left, nothing
recovers: any fault raised there, that of the limit and every other one, is what the whole ends with, in the state that it
was raised in. -/
theorem limit_changes_no_answer (text : String) (world : World) (scope : Nat) {limit higher : Nat} (le : limit ≤ higher) :
    (¬(Parsed.ofText limit text).Exhausted → Parsed.ofText higher text = Parsed.ofText limit text) ∧
    (∀ node, (world.eval limit node scope).1 ≠ .error .exhausted →
      world.eval higher node scope = world.eval limit node scope) ∧
    (¬(Parsed.ofText limit text).Exhausted ∧ (∀ below, (Parse.programOver below limit).outcome (.ofText text) =
        (Parse.program limit).outcome (.ofText text)) ∨
      ∃ floor after, (Parse.program limit).outcome (.ofText text) = (.error (.fault .exhausted), after) ∧
        Parse.Surfaces (fun below => Parse.programOver below limit) (.ofText text) floor after) ∧
    ∀ node, (world.eval limit node scope).1 ≠ .error .exhausted ∧
        (∀ beyond, world.run (Eval.evalOver beyond limit node scope) = world.eval limit node scope) ∨
      ∃ place after, world.eval limit node scope = (.error .exhausted, after) ∧
        Eval.Surfaces (fun beyond => Eval.evalOver beyond limit node scope) world place after := by
  refine ⟨Parsed.ofText_higher le, fun node => world.eval_higher node scope le, ?_, ?_⟩
  · exact Parse.program_settles_or_surfaces limit (Parser.ofTokens_ready (Token.ofText text))
  · exact fun node => world.eval_settles_or_surfaces node scope limit

/-- The tree of `let a = 5; a`. -/
def fiveBound : Node :=
  .program (.sequence
    [.letBinding (some ⟨.letWord, "let", ⟨1, 1⟩⟩) (.identifier (some ⟨.identifier, "a", ⟨1, 5⟩⟩) "a")
        (.integer (some ⟨.integer, "5", ⟨1, 9⟩⟩) 5),
      .statement (some ⟨.identifier, "a", ⟨1, 12⟩⟩) (.identifier (some ⟨.identifier, "a", ⟨1, 12⟩⟩) "a")])

theorem limit_changes_no_answer_bound :
    (3 ≤ 4000 ∧ ¬(Parsed.ofText 3 "let a = 5; a").Exhausted ∧ (World.fresh.eval 3 fiveBound 0).1 ≠ .error .exhausted) ∧
    (Parsed.ofText 4000 "let a = 5; a").result = .ok fiveBound ∧
      (World.fresh.eval 4000 fiveBound 0).1 = .ok (some (.integer 5)) := by
  have parsed : (Parsed.ofText 3 "let a = 5; a").result = .ok fiveBound := by cbv
  have evaluated : (World.fresh.eval 3 fiveBound 0).1 = .ok (some (.integer 5)) := by cbv
  have completed : ¬(Parsed.ofText 3 "let a = 5; a").Exhausted := by
    intro exhausted
    cases parsed.symm.trans exhausted
  have settled : (World.fresh.eval 3 fiveBound 0).1 ≠ .error .exhausted := by
    intro exhausted
    cases evaluated.symm.trans exhausted
  have le : 3 ≤ 4000 := by decide
  obtain ⟨reads, evaluates, -⟩ := limit_changes_no_answer "let a = 5; a" .fresh 0 le
  refine ⟨⟨le, completed, settled⟩, ?_, ?_⟩
  · rw [reads completed, parsed]
  · rw [evaluates fiveBound settled, evaluated]

/-- The call of `fn() { if (false) { -------1 } }`. -/
def unusedBranch : Node :=
  .call none (.function none (.sequence []) (.block none (.sequence [.statement none
    (.conditional none (.boolean none false) (.block none (.sequence [.statement none
      (Nat.repeat (Node.unary none "-") 7 (.integer none 1))])) .missing)]))) (.sequence [])

/-- Its evaluation is five levels deep. It is given up for the text of the function, which is sixteen levels high, unless
that many are left for the body. -/
example : (World.fresh.eval 16 unusedBranch 0).1 = .error .exhausted ∧
    (World.fresh.eval 17 unusedBranch 0).1 = .ok (some .null) := ⟨rfl, rfl⟩

end MonkeyLang
