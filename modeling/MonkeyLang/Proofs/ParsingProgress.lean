import MonkeyLang.Proofs.ParsingMotion

/-! Parsing comes to an end by itself. Every round of a loop and every level of nesting uses up a token, so that no limit
above the number of tokens is ever reached. -/

namespace MonkeyLang

namespace Parser

variable {before : Parser}

theorem Moves.length_le {after : Parser} (moves : before.Moves after) : after.rest.length ≤ before.rest.length :=
  moves.rest.length_le

theorem Ready.advance_lt (ready : before.Ready) (more : before.current.kind ≠ .endOfInput) :
    before.advance.rest.length < before.rest.length := by
  obtain ⟨others, rest⟩ := ready.rest_of_current more
  simp only [advance, rest, List.tail_cons, List.length_cons]
  omega

theorem Ready.advance_lt_of_upcoming (ready : before.Ready) (more : before.upcoming.kind ≠ .endOfInput) :
    before.advance.rest.length < before.rest.length := by
  obtain ⟨others, rest⟩ := ready.rest_of_upcoming more
  rw [rest, advance, rest]
  simp

end Parser

namespace Parse

variable {α : Type} {before : Parser}

/-- The step does not give up for want of depth or rounds. -/
def Ends (step : Parse α) (before : Parser) : Prop :=
  Ensures step before (fun _ after => before.Moves after) (fun failure _ => failure ≠ .fault .exhausted)

theorem ends_integer : Ends integer before := by
  simp only [Ends, integer, ensures_bind, ensures_current]
  split
  · exact nofun
  · rw [ensures_ite]
    exact ⟨fun _ => nofun, fun _ => .refl _⟩

theorem ends_moreParameters {rounds : Nat} (read : List Node) (ready : before.Ready)
    (enough : before.rest.length < rounds) : Ends (moreParameters rounds read) before := by
  induction rounds generalizing read before with
  | zero => omega
  | succ rounds ih =>
    simp only [Ends, moreParameters, ensures_bind, ensures_upcoming, ensures_ite, ensures_advance, ensures_expect,
      ensures_identifier, ensures_pure]
    refine ⟨fun comma => ⟨fun name => ?_, fun _ => nofun⟩, fun _ => .refl _⟩
    have moves := (Parser.Moves.advance before).trans (.advance _)
    have less := ready.advance_lt_of_upcoming (by simp [comma])
    have le := (Parser.Moves.advance before.advance).length_le
    exact (ih _ (moves.ready ready) (by omega)).imp (fun _ _ => moves.trans) fun _ _ => id

theorem ends_parameters (ready : before.Ready) : Ends parameters before := by
  have moves := Parser.Moves.advance before
  simp only [Ends, parameters, ensures_bind, ensures_upcoming, ensures_ite, ensures_advance, ensures_expect,
    ensures_identifier, ensures_pure, ensures_get]
  refine ⟨fun _ => moves, fun _ => ⟨fun name => ?_, fun _ => nofun⟩⟩
  refine (ends_moreParameters _ (moves.ready ready) (by omega)).imp (fun _ after later => ?_) fun _ _ => id
  exact ⟨fun _ => (moves.trans later).trans (.advance _), fun _ => nofun⟩

/-- There is depth enough for an expression that has fewer tokens in front of it than there is room. -/
structure Roomy (expression : Int → Parse Node) (room : Nat) : Prop where
  moving : ∀ floor, Moving (expression floor)
  ends : ∀ floor (before : Parser), before.Ready → before.rest.length < room → Ends (expression floor) before

section Levels

variable {expression : Int → Parse Node} {room : Nat} (roomy : Roomy expression room)
include roomy

theorem ends_ending (ready : before.Ready) (enough : before.rest.length < room) :
    Ensures (expression Kind.lowest) before (fun _ middle => Ensures passSemicolon middle
      (fun _ after => before.Moves after) (fun failure _ => failure ≠ .fault .exhausted))
      (fun failure _ => failure ≠ .fault .exhausted) := by
  refine (roomy.ends _ _ ready enough).imp (fun _ after moves => ?_) fun _ _ => id
  rw [ensures_passSemicolon]
  exact ⟨fun _ => moves.trans (.advance _), fun _ => moves⟩

theorem ends_statement (ready : before.Ready) (enough : before.rest.length < room) :
    Ends (statement expression) before := by
  have ending : ∀ {start : Parser}, before.Moves start → Ensures (expression Kind.lowest) start (fun _ middle =>
      Ensures passSemicolon middle (fun _ after => before.Moves after) (fun failure _ => failure ≠ .fault .exhausted))
      (fun failure _ => failure ≠ .fault .exhausted) := fun moves =>
    (ends_ending roomy (moves.ready ready) (Nat.lt_of_le_of_lt moves.length_le enough)).imp
      (fun _ _ later => later.imp (fun _ _ => moves.trans) fun _ _ => id) fun _ _ => id
  have begun := Parser.Moves.advance before
  simp only [Ends, statement, ensures_bind, ensures_current]
  split
  · simp only [letBinding, ensures_bind, ensures_current, ensures_expect, ensures_identifier, ensures_advance,
      ensures_pure]
    exact ⟨fun _ => ⟨fun _ => ending ((begun.trans (.advance _)).trans (.advance _)), fun _ => nofun⟩, fun _ => nofun⟩
  · simp only [returning, ensures_bind, ensures_current, ensures_advance, ensures_pure]
    exact ending begun
  · simp only [expressionStatement, ensures_bind, ensures_current, ensures_pure]
    exact ending (.refl _)

omit roomy in
/-- A statement uses up a token, whether it is read or skipped. -/
theorem recovering_shortens {terminator : Kind} (moving : ∀ floor, Moving (expression floor)) (ready : before.Ready)
    (other : before.current.kind ≠ terminator) (more : before.current.kind ≠ .endOfInput) :
    Ensures (recovering terminator (do let node ← statement expression; advance; return node)) before
      (fun _ after => before.Moves after ∧ after.rest.length < before.rest.length) (fun _ _ => True) := by
  obtain ⟨others, rest⟩ := ready.rest_of_current more
  have some : 0 < before.rest.length := by simp [rest]
  simp only [ensures_recovering, ensures_bind, ensures_advance, ensures_pure]
  refine (Parse.moving.statement moving before).imp (fun node middle moves => ?_) fun failure middle moves => ?_
  · have le := moves.length_le
    refine ⟨moves.trans (.advance _), ?_⟩
    simp only [Parser.advance, List.length_tail]
    omega
  · cases failure with
    | fault cause => trivial
    | unreadable error =>
      have skipped := (moves.skips ready other more).length_le
      exact ⟨(moves.trans (.record _ error)).trans (.synchronize _ terminator),
        Nat.lt_of_le_of_lt skipped (ready.advance_lt more)⟩

theorem ends_recovering (terminator : Kind) (ready : before.Ready) (enough : before.rest.length < room) :
    Ensures (recovering terminator (do let node ← statement expression; advance; return node)) before
      (fun _ _ => True) (fun failure _ => failure ≠ .fault .exhausted) := by
  simp only [ensures_recovering, ensures_bind, ensures_advance, ensures_pure]
  refine (ends_statement roomy ready enough).imp (fun _ _ _ => trivial) fun failure middle notExhausted => ?_
  cases failure with
  | fault cause => exact notExhausted
  | unreadable error => trivial

theorem ends_moreStatements (terminator : Kind) {rounds : Nat} (read : List Node) (ready : before.Ready)
    (enough : before.rest.length < room) (turns : before.rest.length < rounds) :
    Ends (moreStatements expression terminator rounds read) before := by
  induction rounds generalizing read before with
  | zero => omega
  | succ rounds ih =>
    rw [Ends, moreStatements]
    simp only [ensures_bind, ensures_current, ensures_ite, ensures_pure, Bool.or_eq_true, decide_eq_true_eq, not_or]
    refine ⟨fun _ => .refl _, fun ⟨other, more⟩ => ?_⟩
    refine ((recovering_shortens roomy.moving ready other more).and (ends_recovering roomy terminator ready enough)).imp
      (fun node middle ⟨⟨moves, less⟩, _⟩ => ?_) fun _ _ => And.right
    have later (read : List Node) : Ends (moreStatements expression terminator rounds read) middle :=
      ih read (moves.ready ready) (by omega) (by omega)
    cases node with
    | none => exact (later _).imp (fun _ _ => moves.trans) fun _ _ => id
    | some node => exact (later _).imp (fun _ _ => moves.trans) fun _ _ => id

theorem ends_block (ready : before.Ready) (enough : before.rest.length < room) : Ends (block expression) before := by
  have begun := Parser.Moves.advance before
  have le := begun.length_le
  simp only [Ends, block, statements, ensures_bind, ensures_current, ensures_advance, ensures_get, ensures_ite,
    ensures_pure, ensures_unreadable]
  refine (ends_moreStatements roomy _ _ (begun.ready ready) (by omega) (by omega)).imp (fun _ _ moves => ?_) fun _ _ => id
  exact ⟨fun _ => begun.trans moves, fun _ => nofun⟩

theorem ends_moreExpressions {rounds : Nat} (read : List Node) (ready : before.Ready)
    (enough : before.rest.length < room) (turns : before.rest.length < rounds) :
    Ends (moreExpressions expression rounds read) before := by
  induction rounds generalizing read before with
  | zero => omega
  | succ rounds ih =>
    simp only [Ends, moreExpressions, ensures_bind, ensures_upcoming, ensures_ite, ensures_advance, ensures_pure]
    refine ⟨fun comma => ?_, fun _ => .refl _⟩
    have begun := (Parser.Moves.advance before).trans (.advance _)
    have less := ready.advance_lt_of_upcoming (by simp [comma])
    have le := (Parser.Moves.advance before.advance).length_le
    refine (roomy.ends _ _ (begun.ready ready) (by omega)).imp (fun _ middle moves => ?_) fun _ _ => id
    have le' := moves.length_le
    have later := begun.trans moves
    exact (ih _ (later.ready ready) (by omega) (by omega)).imp (fun _ _ => later.trans) fun _ _ => id

theorem ends_call (callee : Node) (ready : before.Ready) (enough : before.rest.length < room) :
    Ends (call expression callee) before := by
  have begun := Parser.Moves.advance before
  have le := begun.length_le
  simp only [Ends, call, expressions, ensures_bind, ensures_current, ensures_upcoming, ensures_advance, ensures_ite,
    ensures_get, ensures_expect, ensures_pure]
  refine ⟨fun _ => begun, fun _ => ?_⟩
  refine (roomy.ends _ _ (begun.ready ready) (by omega)).imp (fun _ middle moves => ?_) fun _ _ => id
  have le' := moves.length_le
  have later := begun.trans moves
  refine (ends_moreExpressions roomy _ (later.ready ready) (by omega) (by omega)).imp (fun _ after moves => ?_)
    fun _ _ => id
  exact ⟨fun _ => (later.trans moves).trans (.advance _), fun _ => nofun⟩

theorem ends_grouped (ready : before.Ready) (opening : before.current.kind = .leftParen)
    (enough : before.rest.length ≤ room) : Ends (grouped expression) before := by
  have begun := Parser.Moves.advance before
  have less := ready.advance_lt (by simp [opening])
  simp only [Ends, grouped, ensures_bind, ensures_advance, ensures_expect, ensures_pure]
  refine (roomy.ends _ _ (begun.ready ready) (by omega)).imp (fun _ after moves => ?_) fun _ _ => id
  exact ⟨fun _ => (begun.trans moves).trans (.advance _), fun _ => nofun⟩

theorem ends_unary (ready : before.Ready) (sign : before.current.kind = .bang ∨ before.current.kind = .minus)
    (enough : before.rest.length ≤ room) : Ends (unary expression) before := by
  have begun := Parser.Moves.advance before
  have less := ready.advance_lt (by rcases sign with sign | sign <;> simp [sign])
  simp only [Ends, unary, ensures_bind, ensures_current, ensures_advance, ensures_pure]
  exact (roomy.ends _ _ (begun.ready ready) (by omega)).imp (fun _ _ => begun.trans) fun _ _ => id

theorem ends_conditional (ready : before.Ready) (enough : before.rest.length ≤ room) :
    Ends (conditional expression) before := by
  simp only [Ends, conditional, ensures_bind, ensures_current, ensures_expect, ensures_advance]
  refine ⟨fun opening => ?_, fun _ => nofun⟩
  have begun := (Parser.Moves.advance before).trans (.advance _)
  have less := ready.advance_lt_of_upcoming (by simp [opening])
  have le := (Parser.Moves.advance before.advance).length_le
  refine (roomy.ends _ _ (begun.ready ready) (by omega)).imp (fun _ middle moves => ?_) fun _ _ => id
  refine ⟨fun _ => ⟨fun _ => ?_, fun _ => nofun⟩, fun _ => nofun⟩
  have read := ((begun.trans moves).trans (.advance _)).trans (.advance _)
  have le' := (moves.trans ((Parser.Moves.advance middle).trans (.advance _))).length_le
  refine (ends_block roomy (read.ready ready) (by omega)).imp (fun _ last later => ?_) fun _ _ => id
  simp only [ensures_upcoming, ensures_ite, ensures_bind, ensures_advance, ensures_expect, ensures_pure]
  refine ⟨fun _ => ⟨fun _ => ?_, fun _ => nofun⟩, fun _ => read.trans later⟩
  have more := later.trans ((Parser.Moves.advance last).trans (.advance _))
  have le'' := more.length_le
  exact (ends_block roomy ((read.trans more).ready ready) (by omega)).imp (fun _ _ => (read.trans more).trans)
    fun _ _ => id

theorem ends_functionLiteral (ready : before.Ready) (enough : before.rest.length ≤ room) :
    Ends (functionLiteral expression) before := by
  simp only [Ends, functionLiteral, ensures_bind, ensures_current, ensures_expect]
  refine ⟨fun opening => ?_, fun _ => nofun⟩
  have begun := Parser.Moves.advance before
  have less := ready.advance_lt_of_upcoming (by simp [opening])
  refine (ends_parameters (begun.ready ready)).imp (fun _ middle moves => ⟨fun _ => ?_, fun _ => nofun⟩) fun _ _ => id
  have read := (begun.trans moves).trans (.advance _)
  have le := (moves.trans (.advance _)).length_le
  refine (ends_block roomy (read.ready ready) (by omega)).imp (fun _ _ later => ?_) fun _ _ => id
  exact (ensures_pure _).mpr (read.trans later)

theorem ends_operand (ready : before.Ready) (enough : before.rest.length ≤ room) :
    Ends (operand expression) before := by
  simp only [Ends, operand, ensures_bind, ensures_current]
  split
  · exact .refl _
  · exact ends_integer
  · exact .refl _
  · exact .refl _
  · exact ends_unary roomy ready (.inl ‹_›) enough
  · exact ends_unary roomy ready (.inr ‹_›) enough
  · exact ends_grouped roomy ready ‹_› enough
  · exact ends_conditional roomy ready enough
  · exact ends_functionLiteral roomy ready enough
  · exact nofun

theorem ends_operators (floor : Int) {rounds : Nat} (left : Node) (ready : before.Ready)
    (enough : before.rest.length ≤ room) (turns : before.rest.length < rounds) :
    Ends (operators expression floor rounds left) before := by
  induction rounds generalizing left before with
  | zero => omega
  | succ rounds ih =>
    simp only [Ends, operators, ensures_bind, ensures_upcoming, ensures_ite, ensures_advance, ensures_pure]
    have begun := Parser.Moves.advance before
    -- the rounds after this one start behind the operator
    have further : before.upcoming.kind ≠ .endOfInput → ∀ {node : Node} {middle : Parser},
        before.advance.Moves middle → Ends (operators expression floor rounds node) middle := fun more node middle moves =>
      have less := ready.advance_lt_of_upcoming more
      have le := moves.length_le
      ih node ((begun.trans moves).ready ready) (by omega) (by omega)
    refine ⟨fun _ => ⟨fun opening => ?_, fun _ => ⟨fun binary => ?_, fun _ => .refl _⟩⟩, fun _ => .refl _⟩
    · have more : before.upcoming.kind ≠ .endOfInput := by simp [opening]
      have less := ready.advance_lt_of_upcoming more
      refine (ends_call roomy left (begun.ready ready) (by omega)).imp (fun node middle moves => ?_) fun _ _ => id
      exact (further more moves).imp (fun _ _ => (begun.trans moves).trans) fun _ _ => id
    · have more : before.upcoming.kind ≠ .endOfInput := by
        intro finished
        simp [finished, Kind.isBinary] at binary
      have less := ready.advance_lt_of_upcoming more
      have le := (Parser.Moves.advance before.advance).length_le
      have second := begun.trans (.advance _)
      simp only [Parse.binary, ensures_bind, ensures_current, ensures_advance, ensures_pure]
      refine (roomy.ends _ _ (second.ready ready) (by omega)).imp (fun node middle moves => ?_) fun _ _ => id
      exact (further more ((Parser.Moves.advance _).trans moves)).imp (fun _ _ => (second.trans moves).trans) fun _ _ => id

theorem ends_level (floor : Int) (ready : before.Ready) (enough : before.rest.length ≤ room) :
    Ends (level expression floor) before := by
  simp only [Ends, level, ensures_bind, ensures_get]
  refine (ends_operand roomy ready enough).imp (fun left middle moves => ?_) fun _ _ => id
  have le := moves.length_le
  exact (ends_operators roomy floor left (moves.ready ready) (by omega) (by omega)).imp (fun _ _ => moves.trans)
    fun _ _ => id

end Levels

/-- Every level of nesting starts behind a token that the level around it has read. -/
theorem expression_roomy (limit : Nat) : Roomy (expression limit) limit := by
  induction limit with
  | zero => exact ⟨moving.expression 0, fun _ _ _ enough => absurd enough (Nat.not_lt_zero _)⟩
  | succ limit ih =>
    exact ⟨moving.expression _, fun floor _ ready enough => ends_level ih floor ready (Nat.lt_succ_iff.mp enough)⟩

theorem program_ends {limit : Nat} (ready : before.Ready) (enough : before.rest.length < limit) :
    Ends (program limit) before := by
  simp only [Ends, program, statements, ensures_bind, ensures_get, ensures_pure]
  exact ends_moreStatements (expression_roomy limit) _ _ ready enough (Nat.lt_succ_self _)

end Parse

end MonkeyLang
