import MonkeyLang.Proofs.GrammarAcceptance

/-! Parsing does not look at positions. On tokens that differ in nothing else every step goes on or stops alike, with trees
of one shape and errors that differ in positions only. -/

namespace MonkeyLang

namespace Token

/-- The token without its place. -/
def unplaced (token : Token) : Token := { token with position := .nowhere }

variable {first second : Token}

theorem unplaced_eq_iff : first.unplaced = second.unplaced ↔ first.kind = second.kind ∧ first.literal = second.literal := by
  simp [unplaced]

end Token

def SyntaxError.unplaced : SyntaxError → SyntaxError
  | expected kind found => expected kind found.unplaced
  | noExpression found => noExpression found.unplaced
  | tooGreat literal => tooGreat literal.unplaced
  | unclosed opening found => unclosed opening.unplaced found.unplaced

def Failure.unplaced : Failure → Failure
  | unreadable error => unreadable error.unplaced
  | fault cause => fault cause

namespace Parser

def unplaced (parser : Parser) : Parser :=
  ⟨parser.rest.map Token.unplaced, parser.finish.unplaced, parser.errors.map SyntaxError.unplaced⟩

variable {first second : Parser}

theorem unplaced_current (parser : Parser) : parser.unplaced.current = parser.current.unplaced := by
  cases rest : parser.rest <;> simp [unplaced, current, rest]

theorem unplaced_advance (parser : Parser) : parser.unplaced.advance = parser.advance.unplaced := by
  simp [unplaced, advance]

theorem unplaced_record (parser : Parser) (error : SyntaxError) :
    (parser.record error).unplaced = parser.unplaced.record error.unplaced := by
  simp [unplaced, record]

theorem unplaced_skip (terminator : Kind) (depth : Nat) (tokens : List Token) :
    Recovery.skip terminator depth (tokens.map Token.unplaced) = (Recovery.skip terminator depth tokens).map Token.unplaced := by
  have kind (token : Token) : token.unplaced.kind = token.kind := rfl
  fun_induction Recovery.skip terminator depth tokens with
  | case1 => simp [Recovery.skip]
  | _ => simp_all [Recovery.skip]

theorem unplaced_synchronize (parser : Parser) (terminator : Kind) :
    (parser.synchronize terminator).unplaced = parser.unplaced.synchronize terminator := by
  simp only [unplaced, synchronize, unplaced_skip]

end Parser

namespace Parse

variable {α β γ δ : Type}

/-- Two ends that differ in positions only, as far as the results do. -/
inductive EndsAlike (alike : α → β → Prop) : Except Failure α × Parser → Except Failure β × Parser → Prop
  | ok {value value' after after'} (result : alike value value') (same : after.unplaced = after'.unplaced) :
      EndsAlike alike (.ok value, after) (.ok value', after')
  | error {failure failure' after after'} (reason : failure.unplaced = failure'.unplaced)
      (same : after.unplaced = after'.unplaced) : EndsAlike alike (.error failure, after) (.error failure', after')

/-- From states that differ in positions only the steps come to such ends. -/
def Blind (alike : α → β → Prop) (step : Parse α) (step' : Parse β) : Prop :=
  ∀ before before' : Parser, before.unplaced = before'.unplaced → EndsAlike alike (step.outcome before) (step'.outcome before')

namespace Blind

variable {alike : α → β → Prop} {alike' : γ → δ → Prop} {step : Parse α} {step' : Parse β}

theorem pure {value : α} {value' : β} (result : alike value value') : Blind alike (pure value) (pure value') :=
  fun _ _ same => .ok result same

theorem bind {next : α → Parse γ} {next' : β → Parse δ} (first : Blind alike step step')
    (later : ∀ value value', alike value value' → Blind alike' (next value) (next' value')) :
    Blind alike' (step >>= next) (step' >>= next') := by
  intro before before' same
  have ends := first before before' same
  rw [outcome_bind, outcome_bind]
  generalize step.outcome before = ended at ends
  generalize step'.outcome before' = ended' at ends
  cases ends with
  | ok result same => exact later _ _ result _ _ same
  | error reason same => exact .error reason same

theorem fault (cause : Fault) : Blind alike (Parse.fault cause) (Parse.fault cause) := fun _ _ same => .error rfl same

theorem unreadable {error error' : SyntaxError} (reason : error.unplaced = error'.unplaced) :
    Blind alike (Parse.unreadable error) (Parse.unreadable error') :=
  fun _ _ same => .error (congrArg Failure.unreadable reason) same

theorem current : Blind (fun token token' => token.unplaced = token'.unplaced) current current := by
  intro before before' same
  refine .ok ?_ same
  rw [← Parser.unplaced_current, ← Parser.unplaced_current, same]

theorem advance : Blind (fun _ _ => True) advance advance := by
  intro before before' same
  refine .ok trivial ?_
  rw [← Parser.unplaced_advance, ← Parser.unplaced_advance, same]

theorem upcoming : Blind (fun token token' => token.unplaced = token'.unplaced) upcoming upcoming := by
  intro before before' same
  have next : before.advance.unplaced = before'.advance.unplaced := by
    rw [← Parser.unplaced_advance, ← Parser.unplaced_advance, same]
  refine .ok ?_ same
  have here := congrArg Parser.current next
  rwa [Parser.unplaced_current, Parser.unplaced_current] at here

/-- As many tokens are left. -/
theorem get : Blind (fun parser parser' => parser.rest.length = parser'.rest.length) get get := by
  intro before before' same
  have lengths := congrArg (fun parser : Parser => parser.rest.length) same
  simp only [Parser.unplaced, List.length_map] at lengths
  exact .ok lengths same

theorem expect (kind : Kind) : Blind (fun _ _ => True) (expect kind) (expect kind) := by
  refine upcoming.bind fun token token' same => ?_
  rw [(Token.unplaced_eq_iff.mp same).1]
  split
  · exact advance
  · exact .unreadable (congrArg (SyntaxError.expected kind) same)

theorem passSemicolon : Blind (fun _ _ => True) passSemicolon passSemicolon := by
  refine upcoming.bind fun token token' same => ?_
  rw [(Token.unplaced_eq_iff.mp same).1]
  split
  · exact advance
  · exact .pure trivial

theorem recovering (terminator : Kind) (first : Blind alike step step') :
    Blind (Option.Rel alike) (recovering terminator step) (recovering terminator step') := by
  intro before before' same
  have ends := first before before' same
  rw [outcome_recovering, outcome_recovering]
  generalize step.outcome before = ended at ends
  generalize step'.outcome before' = ended' at ends
  cases ends with
  | ok result same => exact .ok (.some result) same
  | @error failure failure' after after' reason same =>
    cases failure with
    | unreadable error =>
      cases failure' with
      | fault cause => cases reason
      | unreadable error' =>
        have reason := Failure.unreadable.inj reason
        refine .ok .none ?_
        rw [Parser.unplaced_synchronize, Parser.unplaced_synchronize, Parser.unplaced_record, Parser.unplaced_record, same,
          reason]
    | fault cause =>
      cases failure' with
      | unreadable error => cases reason
      | fault cause' => exact .error reason same

end Blind

open Node (shapes)

abbrev SameShape (node node' : Node) : Prop := node.shape = node'.shape

abbrev SameShapes (nodes nodes' : List Node) : Prop := shapes nodes = shapes nodes'

theorem SameShapes.reverse {nodes nodes' : List Node} (same : SameShapes nodes nodes') :
    SameShapes nodes.reverse nodes'.reverse := by
  simp only [SameShapes, Node.shapes_eq_map, List.map_reverse] at *
  rw [same]

theorem identifier_blind : Blind SameShape identifier identifier :=
  Blind.current.bind fun _ _ same => .pure (congrArg (Node.identifier none) (Token.unplaced_eq_iff.mp same).2)

theorem boolean_blind : Blind SameShape boolean boolean := by
  refine Blind.current.bind fun token token' same => ?_
  rw [(Token.unplaced_eq_iff.mp same).1]
  exact .pure rfl

theorem integer_blind : Blind SameShape integer integer := by
  refine Blind.current.bind fun token token' same => ?_
  rw [(Token.unplaced_eq_iff.mp same).2]
  split
  · exact .fault _
  · split
    · exact .unreadable (congrArg SyntaxError.tooGreat same)
    · exact .pure rfl

theorem moreParameters_blind (rounds : Nat) {read read' : List Node} (same : SameShapes read read') :
    Blind SameShapes (moreParameters rounds read) (moreParameters rounds read') := by
  induction rounds generalizing read read' with
  | zero => exact .fault _
  | succ rounds ih =>
    refine Blind.upcoming.bind fun token token' next => ?_
    rw [(Token.unplaced_eq_iff.mp next).1]
    split
    · refine Blind.advance.bind fun _ _ _ => (Blind.expect _).bind fun _ _ _ => identifier_blind.bind fun node node' one => ?_
      exact ih (congrArg₂ List.cons one same)
    · exact .pure same.reverse

theorem parameters_blind : Blind SameShapes parameters parameters := by
  refine Blind.upcoming.bind fun token token' next => ?_
  rw [(Token.unplaced_eq_iff.mp next).1]
  split
  · exact Blind.advance.bind fun _ _ _ => .pure rfl
  · refine (Blind.expect _).bind fun _ _ _ => identifier_blind.bind fun node node' one => ?_
    refine Blind.get.bind fun before before' length => ?_
    rw [length]
    have alone : SameShapes [node] [node'] := congrArg (fun node => [node]) one
    refine (moreParameters_blind _ alone).bind fun all all' same => ?_
    exact (Blind.expect _).bind fun _ _ _ => .pure same

section Levels

variable {expression : Int → Parse Node} (below : ∀ floor, Blind SameShape (expression floor) (expression floor))
include below

theorem letBinding_blind : Blind SameShape (letBinding expression) (letBinding expression) := by
  refine Blind.current.bind fun token token' _ => (Blind.expect _).bind fun _ _ _ => ?_
  refine identifier_blind.bind fun name name' bound => (Blind.expect _).bind fun _ _ _ => Blind.advance.bind fun _ _ _ => ?_
  refine (below _).bind fun value value' same => Blind.passSemicolon.bind fun _ _ _ => ?_
  exact .pure (congrArg₂ (Node.letBinding none) bound same)

theorem returning_blind : Blind SameShape (returning expression) (returning expression) := by
  refine Blind.current.bind fun token token' _ => Blind.advance.bind fun _ _ _ => ?_
  refine (below _).bind fun value value' same => Blind.passSemicolon.bind fun _ _ _ => ?_
  exact .pure (congrArg (Node.returning none) same)

theorem expressionStatement_blind : Blind SameShape (expressionStatement expression) (expressionStatement expression) := by
  refine Blind.current.bind fun token token' _ => (below _).bind fun value value' same => ?_
  exact Blind.passSemicolon.bind fun _ _ _ => .pure (congrArg (Node.statement none) same)

theorem statement_blind : Blind SameShape (statement expression) (statement expression) := by
  refine Blind.current.bind fun token token' same => ?_
  rw [(Token.unplaced_eq_iff.mp same).1]
  split
  · exact letBinding_blind below
  · exact returning_blind below
  · exact expressionStatement_blind below

theorem moreStatements_blind (terminator : Kind) (rounds : Nat) {read read' : List Node} (same : SameShapes read read') :
    Blind SameShapes (moreStatements expression terminator rounds read) (moreStatements expression terminator rounds read') := by
  induction rounds generalizing read read' with
  | zero => exact .fault _
  | succ rounds ih =>
    refine Blind.current.bind fun token token' here => ?_
    rw [(Token.unplaced_eq_iff.mp here).1]
    split
    · exact .pure same.reverse
    · have whole : Blind SameShape (do let node ← statement expression; advance; return node)
          (do let node ← statement expression; advance; return node) :=
        (statement_blind below).bind fun _ _ same => Blind.advance.bind fun _ _ _ => .pure same
      refine (whole.recovering terminator).bind fun result result' one => ?_
      cases one with
      | none => exact ih same
      | some one => exact ih (congrArg₂ List.cons one same)

theorem statements_blind (terminator : Kind) :
    Blind SameShapes (statements expression terminator) (statements expression terminator) := by
  refine Blind.get.bind fun before before' length => ?_
  rw [length]
  exact moreStatements_blind below terminator _ rfl

theorem block_blind : Blind SameShape (block expression) (block expression) := by
  refine Blind.current.bind fun opening opening' begins => Blind.advance.bind fun _ _ _ => ?_
  refine (statements_blind below _).bind fun nodes nodes' same => Blind.current.bind fun closing closing' ends => ?_
  rw [(Token.unplaced_eq_iff.mp ends).1]
  split
  · exact .pure (congrArg (fun nodes => Node.block none (.sequence nodes)) same)
  · exact .unreadable (congrArg₂ SyntaxError.unclosed begins ends)

theorem unary_blind : Blind SameShape (unary expression) (unary expression) := by
  refine Blind.current.bind fun token token' here => Blind.advance.bind fun _ _ _ => (below _).bind fun right right' same => ?_
  exact .pure (congrArg₂ (Node.unary none) (Token.unplaced_eq_iff.mp here).2 same)

theorem binary_blind {left left' : Node} (first : SameShape left left') :
    Blind SameShape (binary expression left) (binary expression left') := by
  refine Blind.current.bind fun token token' here => Blind.advance.bind fun _ _ _ => ?_
  obtain ⟨kind, literal⟩ := Token.unplaced_eq_iff.mp here
  rw [kind]
  refine (below _).bind fun right right' second => .pure ?_
  simp only [SameShape, Node.shape, first, second, literal]

theorem grouped_blind : Blind SameShape (grouped expression) (grouped expression) := by
  refine Blind.advance.bind fun _ _ _ => (below _).bind fun inner inner' same => ?_
  exact (Blind.expect _).bind fun _ _ _ => .pure same

theorem conditional_blind : Blind SameShape (conditional expression) (conditional expression) := by
  refine Blind.current.bind fun token token' _ => (Blind.expect _).bind fun _ _ _ => Blind.advance.bind fun _ _ _ => ?_
  refine (below _).bind fun condition condition' test => (Blind.expect _).bind fun _ _ _ => (Blind.expect _).bind fun _ _ _ => ?_
  refine (block_blind below).bind fun consequence consequence' yes => Blind.upcoming.bind fun next next' follows => ?_
  rw [(Token.unplaced_eq_iff.mp follows).1]
  split
  · refine Blind.advance.bind fun _ _ _ => (Blind.expect _).bind fun _ _ _ => ?_
    refine (block_blind below).bind fun alternative alternative' no => .pure ?_
    simp only [SameShape, Node.shape, test, yes, no]
  · refine .pure ?_
    simp only [SameShape, Node.shape, test, yes]

theorem functionLiteral_blind : Blind SameShape (functionLiteral expression) (functionLiteral expression) := by
  refine Blind.current.bind fun token token' _ => (Blind.expect _).bind fun _ _ _ => ?_
  refine parameters_blind.bind fun names names' bound => (Blind.expect _).bind fun _ _ _ => ?_
  refine (block_blind below).bind fun body body' same => .pure ?_
  simp only [SameShape, Node.shape, bound, same]

theorem moreExpressions_blind (rounds : Nat) {read read' : List Node} (same : SameShapes read read') :
    Blind SameShapes (moreExpressions expression rounds read) (moreExpressions expression rounds read') := by
  induction rounds generalizing read read' with
  | zero => exact .fault _
  | succ rounds ih =>
    refine Blind.upcoming.bind fun token token' next => ?_
    rw [(Token.unplaced_eq_iff.mp next).1]
    split
    · refine Blind.advance.bind fun _ _ _ => Blind.advance.bind fun _ _ _ => (below _).bind fun node node' one => ?_
      exact ih (congrArg₂ List.cons one same)
    · exact .pure same.reverse

theorem expressions_blind (closing : Kind) : Blind SameShapes (expressions expression closing) (expressions expression closing) := by
  refine Blind.upcoming.bind fun token token' next => ?_
  rw [(Token.unplaced_eq_iff.mp next).1]
  split
  · exact Blind.advance.bind fun _ _ _ => .pure rfl
  · refine Blind.advance.bind fun _ _ _ => (below _).bind fun first first' one => Blind.get.bind fun before before' length => ?_
    rw [length]
    have alone : SameShapes [first] [first'] := congrArg (fun node => [node]) one
    refine (moreExpressions_blind below _ alone).bind fun all all' same => ?_
    exact (Blind.expect _).bind fun _ _ _ => .pure same

theorem call_blind {callee callee' : Node} (first : SameShape callee callee') :
    Blind SameShape (call expression callee) (call expression callee') := by
  refine Blind.current.bind fun token token' _ => (expressions_blind below _).bind fun arguments arguments' same => .pure ?_
  simp only [SameShape, Node.shape, first, same]

theorem operand_blind : Blind SameShape (operand expression) (operand expression) := by
  refine Blind.current.bind fun token token' same => ?_
  rw [(Token.unplaced_eq_iff.mp same).1]
  split
  · exact identifier_blind
  · exact integer_blind
  · exact boolean_blind
  · exact boolean_blind
  · exact unary_blind below
  · exact unary_blind below
  · exact grouped_blind below
  · exact conditional_blind below
  · exact functionLiteral_blind below
  · exact .unreadable (congrArg SyntaxError.noExpression same)

theorem operators_blind (floor : Int) (rounds : Nat) {left left' : Node} (same : SameShape left left') :
    Blind SameShape (operators expression floor rounds left) (operators expression floor rounds left') := by
  induction rounds generalizing left left' with
  | zero => exact .fault _
  | succ rounds ih =>
    refine Blind.upcoming.bind fun token token' next => ?_
    rw [(Token.unplaced_eq_iff.mp next).1]
    split
    · split
      · exact Blind.advance.bind fun _ _ _ => (call_blind below same).bind fun _ _ same => ih same
      · split
        · exact Blind.advance.bind fun _ _ _ => (binary_blind below same).bind fun _ _ same => ih same
        · exact .pure same
    · exact .pure same

theorem level_blind (floor : Int) : Blind SameShape (level expression floor) (level expression floor) := by
  refine (operand_blind below).bind fun left left' same => Blind.get.bind fun before before' length => ?_
  rw [length]
  exact operators_blind below floor _ same

end Levels

theorem expression_blind (limit : Nat) (floor : Int) : Blind SameShape (expression limit floor) (expression limit floor) := by
  induction limit generalizing floor with
  | zero => exact .fault _
  | succ limit ih => exact level_blind ih floor

theorem program_blind (limit : Nat) : Blind SameShape (program limit) (program limit) :=
  (statements_blind (expression_blind limit) _).bind fun _ _ same =>
    .pure (congrArg (fun nodes => Node.program (.sequence nodes)) same)

end Parse

/-- At the start the state is that of the tokens up to the end of input, which differs from another one in its place only. -/
theorem Parser.ofTokens_unplaced {tokens : List Token}
    (ends : ∀ token, tokens.find? (·.kind = .endOfInput) = some token → token.literal = "") : (ofTokens tokens).unplaced =
      ⟨(tokens.takeWhile (·.kind ≠ .endOfInput)).map Token.unplaced, .endAt .nowhere, []⟩ := by
  have finish : (ofTokens tokens).finish.unplaced = .endAt .nowhere := by
    cases found : tokens.find? (·.kind = .endOfInput) with
    | none =>
      rw [ofTokens, found, Option.getD_none]
      unfold Token.finishAfter
      split
      all_goals rfl
    | some token =>
      have kind : token.kind = .endOfInput := by simpa using List.find?_some found
      rw [ofTokens, found, Option.getD_some, Token.unplaced, kind, ends token found]
      rfl
  rw [unplaced, finish]
  rfl

namespace Parsed

variable {limit : Nat} {tokens tokens' : List Token} {program : Node}

/-- Where tokens stand does not matter to whether they have syntax errors, nor to the shape of their program. -/
theorem ofTokens_clean (same : (Parser.ofTokens tokens).unplaced = (Parser.ofTokens tokens').unplaced)
    (clean : ofTokens limit tokens = ⟨.ok program, []⟩) :
    ∃ program', ofTokens limit tokens' = ⟨.ok program', []⟩ ∧ program.shape = program'.shape := by
  have ends := Parse.program_blind limit _ _ same
  rw [ofTokens_eq] at clean
  rw [ofTokens_eq]
  generalize (Parse.program limit).outcome (.ofTokens tokens) = ended at ends clean
  generalize (Parse.program limit).outcome (.ofTokens tokens') = ended' at ends
  cases ends with
  | @ok value value' after after' shape same =>
    obtain ⟨result, none⟩ := Parsed.mk.inj clean
    cases result
    have nothing : after.errors = [] := none
    have errors : after.errors.map SyntaxError.unplaced = after'.errors.map SyntaxError.unplaced := congrArg Parser.errors same
    rw [nothing, List.map_nil, eq_comm, List.map_eq_nil_iff] at errors
    exact ⟨value', congrArg (Parsed.mk (.ok value')) errors, shape⟩
  | error reason same =>
    obtain ⟨result, -⟩ := Parsed.mk.inj clean
    cases result

end Parsed

end MonkeyLang
