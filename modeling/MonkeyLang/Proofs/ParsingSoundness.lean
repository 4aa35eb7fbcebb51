import MonkeyLang.Proofs.ParsingMotion
import MonkeyLang.Proofs.PlainNumerals

/-! What is read without an error derives in the grammar. The operators after an operand carry the invariant: what is
read so far has a level, and the operator that comes next binds no more tightly than that level. Such an operator may
take all of it as its left side, and one that binds more tightly was taken by the right side before. -/

namespace MonkeyLang

open Grammar

namespace Parser

/-- All integers among the tokens can be converted. -/
structure Legible (parser : Parser) : Prop extends parser.Ready where
  numerals : ∀ token ∈ parser.rest, token.kind = .integer → Numeral.Plain token.literal

/-- All integers among the tokens are digits and nothing else, though perhaps too many to be converted. -/
structure Numeric (parser : Parser) : Prop extends parser.Ready where
  digits : ∀ token ∈ parser.rest, token.kind = .integer →
    token.literal.toList ≠ [] ∧ ∀ c ∈ token.literal.toList, Numeral.IsDigit c

/-- The later state is further on, and the fact holds if nothing was recorded on the way. -/
structure Cleanly (before after : Parser) (fact : Prop) : Prop where
  moves : before.Moves after
  fact : after.errors = before.errors → fact

variable {first second third : Parser} {fact other : Prop}

theorem Moves.legible (moves : first.Moves second) (legible : first.Legible) : second.Legible where
  toReady := moves.ready legible.toReady
  numerals token member := legible.numerals token (moves.rest.subset member)

theorem Moves.numeric (moves : first.Moves second) (numeric : first.Numeric) : second.Numeric where
  toReady := moves.ready numeric.toReady
  digits token member := numeric.digits token (moves.rest.subset member)

theorem Legible.numeric (legible : first.Legible) : first.Numeric where
  toReady := legible.toReady
  digits token member kind := ⟨(legible.numerals token member kind).ne_nil, (legible.numerals token member kind).digits⟩

theorem Cleanly.imp (holds : first.Cleanly second fact) (implies : fact → other) : first.Cleanly second other :=
  ⟨holds.moves, fun same => implies (holds.fact same)⟩

theorem Cleanly.trans (earlier : first.Cleanly second fact) (later : second.Cleanly third other) :
    first.Cleanly third (fact ∧ other) := by
  refine ⟨earlier.moves.trans later.moves, fun same => ?_⟩
  obtain ⟨back, forth⟩ := earlier.moves.errors_eq later.moves same
  exact ⟨earlier.fact back, later.fact forth⟩

theorem Moves.cleanly (moves : first.Moves second) (holds : fact) : first.Cleanly second fact := ⟨moves, fun _ => holds⟩

end Parser

namespace Kind

theorem precedence_le (kind : Kind) : kind.precedence ≤ 7 := by
  unfold precedence
  split <;> omega

theorem exists_level {kind : Kind} (binary : kind.isBinary = true) :
    ∃ level : Nat, level ≤ 3 ∧ kind ∈ operators level ∧ kind.precedence = level + 2 ∧ kind ≠ .endOfInput := by
  cases kind with
  | equal | notEqual => exact ⟨0, by decide, by decide, rfl, nofun⟩
  | less | greater => exact ⟨1, by decide, by decide, rfl, nofun⟩
  | plus | minus => exact ⟨2, by decide, by decide, rfl, nofun⟩
  | asterisk | slash => exact ⟨3, by decide, by decide, rfl, nofun⟩
  | _ => cases binary

theorem precedence_eq_lowest {kind : Kind} (notBinary : ¬kind.isBinary = true) (notCall : ¬kind = .leftParen) :
    kind.precedence = 1 := by
  cases kind with
  | equal | notEqual | less | greater | plus | minus | asterisk | slash => exact absurd rfl notBinary
  | leftParen => exact absurd rfl notCall
  | _ => rfl

end Kind

namespace Parse

variable {before : Parser}

/-- The semicolon of a statement is read if it is there; without it the next token does not go on with an expression. -/
theorem passSemicolon_sound {start : Parser} {read : List Token} (spans : start.Spans read before)
    (numeric : before.Numeric) (follow : before.upcoming.kind.precedence ≤ 1) :
    Ensures passSemicolon before (fun _ after => before.Moves after ∧ after.errors = before.errors ∧
      ∃ closed ending, Ending closed ending ∧ start.Spans (read ++ ending) after ∧
        (closed = false → after.upcoming.kind.precedence ≤ 1)) (fun _ _ => False) := by
  rw [ensures_passSemicolon]
  constructor
  · intro semicolon
    refine ⟨.advance _, rfl, true, _, .closed semicolon, ?_, nofun⟩
    exact spans.upcoming numeric.toReady (by simp [semicolon])
  · intro _
    exact ⟨.refl _, rfl, false, [], .bare, by simpa using spans, fun _ => follow⟩

theorem integer_sound (numeric : before.Numeric) (kind : before.current.kind = .integer) :
    Ensures integer before (fun node after => before = after ∧
      Derives (.expression primaryLevel) [before.current] node) (fun _ _ => True) := by
  obtain ⟨others, rest⟩ := numeric.toReady.rest_of_current (by simp [kind])
  obtain ⟨some, digits⟩ := numeric.digits before.current (by simp [rest]) kind
  simp only [integer, ensures_bind, ensures_current, Numeral.read_digits some digits]
  by_cases many : Numeral.digitLimit < before.current.literal.toList.length
  · rw [if_pos many]
    trivial
  · rw [if_neg many]
    simp only [ensures_ite, ensures_unreadable, ensures_pure, implies_true, true_and]
    exact fun inRange => .integer kind (by omega)

/-- The names after commas go on with the list that any name before them begins. -/
theorem moreParameters_sound (rounds : Nat) (read : List Node) (ready : before.Ready) :
    Ensures (moreParameters rounds read) before (fun nodes after => before.Moves after ∧
      ∃ tail names, nodes = read.reverse ++ names ∧
        (∀ start tokens, Parser.Spans start tokens before → start.Spans (tokens ++ tail) after) ∧
        ∀ name : Token, name.kind = .identifier →
          Derives .names (name :: tail) (.sequence (.identifier name name.literal :: names))) (fun _ _ => True) := by
  induction rounds generalizing read before with
  | zero => trivial
  | succ rounds ih =>
    simp only [moreParameters, ensures_bind, ensures_upcoming, ensures_ite, ensures_advance, ensures_expect,
      ensures_identifier, ensures_pure, implies_true, and_true]
    constructor
    · intro comma name
      have later := Parser.Moves.advance before
      have named := Parser.Moves.advance before.advance
      refine (ih _ (named.ready (later.ready ready))).imp (fun nodes after ended => ?_) fun _ _ _ => trivial
      obtain ⟨moves, tail, names, rfl, spans, derives⟩ := ended
      refine ⟨(later.trans named).trans moves, before.upcoming :: before.advance.upcoming :: tail,
        .identifier before.advance.upcoming before.advance.upcoming.literal :: names, ?_, ?_, ?_⟩
      · rw [List.reverse_cons, List.append_assoc]
        rfl
      · intro start tokens earlier
        have throughComma := earlier.upcoming ready (by simp [comma])
        have throughName := throughComma.upcoming (later.ready ready) (by simp [name])
        simpa using spans start _ throughName
      · intro first identifier
        exact .moreNames identifier comma (derives _ name)
    · intro _
      exact ⟨.refl _, [], [], by simp, by simp, fun name identifier => .lastName identifier⟩

theorem parameters_sound (ready : before.Ready) (opening : before.current.kind = .leftParen) :
    Ensures parameters before (fun nodes after => before.Moves after ∧
      ∃ read closing, before.Spans (before.current :: read ++ [closing]) after ∧ closing.kind = .rightParen ∧
        Derives .parameters read (.sequence nodes)) (fun _ _ => True) := by
  have here := Parser.Spans.current ready (by simp [opening])
  have later := Parser.Moves.advance before
  simp only [parameters, ensures_bind, ensures_upcoming, ensures_ite, ensures_advance, ensures_expect,
    ensures_identifier, ensures_pure, ensures_get, implies_true, and_true]
  constructor
  · intro closing
    exact ⟨later, [], before.upcoming, here.upcoming ready (by simp [closing]), closing, .noParameters⟩
  · intro _ name
    have throughName := here.upcoming ready (by simp [name])
    refine (moreParameters_sound _ _ (later.ready ready)).imp (fun nodes after ended => ?_) fun _ _ _ => trivial
    obtain ⟨moves, tail, names, rfl, spans, derives⟩ := ended
    intro closing
    refine ⟨(later.trans moves).trans (.advance _), before.upcoming :: tail, after.upcoming, ?_, closing, ?_⟩
    · have throughTail := spans _ _ throughName
      simpa using throughTail.upcoming (moves.ready (later.ready ready)) (by simp [closing])
    · exact .parameters (derives _ name)

/-- What is read without an error is an expression of the level that the floor asks for, and the next operator binds
no more tightly than the floor. -/
structure Sound (expression : Int → Parse Node) : Prop where
  moving : ∀ floor, Moving (expression floor)
  reads : ∀ level : Nat, level ≤ 5 → ∀ before : Parser, before.Numeric →
    Ensures (expression (level + 1)) before (fun node after => before.Cleanly after
      ((∃ read, before.Spans read after ∧ Derives (.expression (min level unaryLevel)) read node) ∧
        after.upcoming.kind.precedence ≤ level + 1)) (fun _ _ => True)

section Levels

variable {expression : Int → Parse Node} (sound : Sound expression)
include sound

theorem lowest_sound (numeric : before.Numeric) : Ensures (expression Kind.lowest) before (fun node after =>
    before.Cleanly after ((∃ read, before.Spans read after ∧ Derives (.expression 0) read node) ∧
      after.upcoming.kind.precedence ≤ 1)) (fun _ _ => True) :=
  sound.reads 0 (by omega) before numeric

theorem ending_sound (numeric : before.Numeric) : Ensures (expression Kind.lowest) before (fun value middle =>
    Ensures passSemicolon middle (fun _ after => before.Cleanly after (∃ read closed ending,
      Derives (.expression 0) read value ∧ Ending closed ending ∧ before.Spans (read ++ ending) after ∧
        (closed = false → after.upcoming.kind.precedence ≤ 1))) (fun _ _ => True)) (fun _ _ => True) := by
  refine (lowest_sound sound numeric).imp (fun value middle ended => ?_) fun _ _ _ => trivial
  by_cases same : middle.errors = before.errors
  · obtain ⟨⟨read, spans, derives⟩, follow⟩ := ended.fact same
    refine (passSemicolon_sound spans (ended.moves.numeric numeric) follow).imp (fun _ after closing => ?_)
      fun _ _ => False.elim
    obtain ⟨moves, _, closed, ending, ends, throughEnding, apart⟩ := closing
    exact (ended.moves.trans moves).cleanly ⟨read, closed, ending, derives, ends, throughEnding, apart⟩
  · refine (Parse.moving.passSemicolon middle).imp (fun _ after moves => ?_) fun _ _ _ => trivial
    exact ⟨ended.moves.trans moves, fun none => absurd (ended.moves.errors_eq moves none).1 same⟩

theorem letBinding_sound (numeric : before.Numeric) (word : before.current.kind = .letWord) :
    Ensures (letBinding expression) before (fun node after => before.Cleanly after (∃ read closed,
      before.Spans read after ∧ Derives (.statement closed) read node ∧
        (closed = false → after.upcoming.kind.precedence ≤ 1))) (fun _ _ => True) := by
  have here := Parser.Spans.current numeric.toReady (by simp [word])
  have named := Parser.Moves.advance before
  have assigned := named.trans (.advance _)
  have begun := assigned.trans (.advance _)
  simp only [letBinding, ensures_bind, ensures_current, ensures_identifier, ensures_advance, ensures_expect,
    ensures_pure, implies_true, and_true]
  intro name assign
  have throughName := here.upcoming numeric.toReady (by simp [name])
  have throughSign := throughName.upcoming (named.ready numeric.toReady) (by simp [assign])
  refine (ending_sound sound (begun.numeric numeric)).imp (fun value middle ended => ?_) fun _ _ _ => trivial
  refine ended.imp (fun _ after clean => ?_) fun _ _ _ => trivial
  refine ((begun.cleanly trivial).trans clean).imp ?_
  rintro ⟨-, read, closed, ending, derives, ends, spans, apart⟩
  refine ⟨_, closed, throughSign.append spans, ?_, apart⟩
  simpa using Derives.letBinding word name assign derives ends

theorem returning_sound (numeric : before.Numeric) (word : before.current.kind = .returnWord) :
    Ensures (returning expression) before (fun node after => before.Cleanly after (∃ read closed,
      before.Spans read after ∧ Derives (.statement closed) read node ∧
        (closed = false → after.upcoming.kind.precedence ≤ 1))) (fun _ _ => True) := by
  have here := Parser.Spans.current numeric.toReady (by simp [word])
  have begun := Parser.Moves.advance before
  simp only [returning, ensures_bind, ensures_current, ensures_advance, ensures_pure]
  refine (ending_sound sound (begun.numeric numeric)).imp (fun value middle ended => ?_) fun _ _ _ => trivial
  refine ended.imp (fun _ after clean => ?_) fun _ _ _ => trivial
  refine ((begun.cleanly trivial).trans clean).imp ?_
  rintro ⟨-, read, closed, ending, derives, ends, spans, apart⟩
  refine ⟨_, closed, here.append spans, ?_, apart⟩
  simpa using Derives.returning word derives ends

theorem expressionStatement_sound (numeric : before.Numeric) :
    Ensures (expressionStatement expression) before (fun node after => before.Cleanly after (∃ read closed,
      before.Spans read after ∧ Derives (.statement closed) read node ∧
        (closed = false → after.upcoming.kind.precedence ≤ 1))) (fun _ _ => True) := by
  simp only [expressionStatement, ensures_bind, ensures_current, ensures_pure]
  refine (ending_sound sound numeric).imp (fun value middle ended => ?_) fun _ _ _ => trivial
  refine ended.imp (fun _ after clean => ?_) fun _ _ _ => trivial
  refine clean.imp ?_
  rintro ⟨read, closed, ending, derives, ends, spans, apart⟩
  obtain ⟨first, tokens, rfl⟩ := List.exists_cons_of_ne_nil derives.ne_nil
  obtain rfl := spans.current_eq
  exact ⟨_, closed, spans, .statement derives ends, apart⟩

theorem statement_sound (numeric : before.Numeric) :
    Ensures (statement expression) before (fun node after => before.Cleanly after (∃ read closed,
      before.Spans read after ∧ Derives (.statement closed) read node ∧
        (closed = false → after.upcoming.kind.precedence ≤ 1))) (fun _ _ => True) := by
  simp only [statement, ensures_bind, ensures_current]
  split
  next word => exact letBinding_sound sound numeric word
  next word => exact returning_sound sound numeric word
  next => exact expressionStatement_sound sound numeric

/-- The statements that are read go on with the list; one that is left out leaves an error behind. -/
theorem moreStatements_sound (terminator : Kind) (rounds : Nat) (read : List Node) (numeric : before.Numeric) :
    Ensures (moreStatements expression terminator rounds read) before (fun nodes after =>
      before.Cleanly after (∃ tokens others, nodes = read.reverse ++ others ∧ before.rest = tokens ++ after.rest ∧
        Derives .statements tokens (.sequence others)) ∧
        (after.current.kind = terminator ∨ after.current.kind = .endOfInput)) (fun _ _ => True) := by
  induction rounds generalizing read before with
  | zero => trivial
  | succ rounds ih =>
    simp only [moreStatements, ensures_bind, ensures_current, ensures_ite, ensures_pure, ensures_recovering,
      ensures_advance, Bool.or_eq_true, decide_eq_true_eq]
    constructor
    · intro ended
      exact ⟨(Parser.Moves.refl _).cleanly ⟨[], [], by simp, rfl, .noStatements⟩, ended⟩
    · intro _
      refine ((statement_sound sound numeric).and (Parse.moving.statement sound.moving before)).imp ?_ ?_
      · rintro node middle ⟨clean, moves⟩
        have later := Parser.Moves.advance middle
        refine (ih _ ((moves.trans later).numeric numeric)).imp (fun nodes after ended => ?_) fun _ _ _ => trivial
        refine ⟨((clean.trans (later.cleanly trivial)).trans ended.1).imp ?_, ended.2⟩
        rintro ⟨⟨⟨tokens, closed, spans, derives, apart⟩, -⟩, rest, others, rfl, place, list⟩
        refine ⟨tokens ++ rest, node :: others, by simp, ?_, .statements derives list ?_⟩
        · rw [spans.rest_eq, List.append_assoc, ← place]
          rfl
        · rintro bare ⟨token, first, continues⟩
          have upcoming : middle.upcoming = token := by
            change middle.advance.rest.headD middle.finish = token
            rw [place, List.headD_eq_head?_getD, List.head?_append, Option.mem_def.mp first]
            rfl
          have follow := apart bare
          rw [upcoming] at follow
          rcases continues with same | same <;> rw [same] at follow <;> exact absurd follow (by decide)
      · rintro failure middle ⟨-, moves⟩
        cases failure with
        | fault _ => trivial
        | unreadable error =>
          have later := (Parser.Moves.record middle error).trans (.synchronize _ terminator)
          refine (ih _ ((moves.trans later).numeric numeric)).imp (fun nodes after ended => ?_) fun _ _ _ => trivial
          refine ⟨⟨(moves.trans later).trans ended.1.moves, fun none => ?_⟩, ended.2⟩
          have kept := (moves.trans (Parser.Moves.record middle error)).errors_eq
            ((Parser.Moves.synchronize _ terminator).trans ended.1.moves) none
          have longer := moves.errors.length_le
          have same := congrArg List.length kept.1
          simp only [Parser.record, List.length_append, List.length_cons] at same
          omega

theorem block_sound (numeric : before.Numeric) (opening : before.current.kind = .leftBrace) :
    Ensures (block expression) before (fun node after =>
      before.Cleanly after (∃ read, before.Spans read after ∧ Derives .block read node)) (fun _ _ => True) := by
  have begun := Parser.Moves.advance before
  obtain ⟨others, start⟩ := numeric.toReady.rest_of_current (by simp [opening])
  simp only [block, statements, ensures_bind, ensures_current, ensures_advance, ensures_get, ensures_ite, ensures_pure,
    ensures_unreadable, implies_true, and_true]
  refine (moreStatements_sound sound .rightBrace _ _ (begun.numeric numeric)).imp (fun nodes after ended => ?_)
    fun _ _ _ => trivial
  intro closing
  refine ((begun.cleanly trivial).trans ended.1).imp ?_
  rintro ⟨-, tokens, list, rfl, place, derives⟩
  obtain ⟨rest, finish⟩ := ((begun.trans ended.1.moves).ready numeric.toReady).rest_of_current (by simp [closing])
  refine ⟨before.current :: tokens ++ [after.current], ⟨before.current :: tokens, _, rest, rfl, ?_, finish⟩,
    .block opening derives closing⟩
  simp only [Parser.advance, start, List.tail_cons, finish] at place
  rw [start, place]
  rfl

theorem grouped_sound (numeric : before.Numeric) (opening : before.current.kind = .leftParen) :
    Ensures (grouped expression) before (fun node after => before.Cleanly after (∃ read, before.Spans read after ∧
      Derives (.expression primaryLevel) read node)) (fun _ _ => True) := by
  have here := Parser.Spans.current numeric.toReady (by simp [opening])
  have begun := Parser.Moves.advance before
  simp only [grouped, ensures_bind, ensures_advance, ensures_expect, ensures_pure, implies_true, and_true]
  refine (lowest_sound sound (begun.numeric numeric)).imp (fun node middle ended => ?_) fun _ _ _ => trivial
  intro closing
  refine (((begun.cleanly trivial).trans ended).trans ((Parser.Moves.advance middle).cleanly trivial)).imp ?_
  rintro ⟨⟨-, ⟨read, spans, derives⟩, -⟩, -⟩
  have ready := (begun.trans ended.moves).ready numeric.toReady
  exact ⟨_, (here.append spans).upcoming ready (by simp [closing]), .grouped opening derives closing⟩

theorem conditional_sound (numeric : before.Numeric) (word : before.current.kind = .ifWord) :
    Ensures (conditional expression) before (fun node after => before.Cleanly after (∃ read,
      before.Spans read after ∧ Derives (.expression primaryLevel) read node)) (fun _ _ => True) := by
  have here := Parser.Spans.current numeric.toReady (by simp [word])
  have opened := Parser.Moves.advance before
  have begun := opened.trans (.advance _)
  simp only [conditional, ensures_bind, ensures_current, ensures_upcoming, ensures_advance, ensures_expect, ensures_ite,
    ensures_pure, implies_true, and_true]
  intro opening
  have throughOpening := here.upcoming numeric.toReady (by simp [opening])
  refine (lowest_sound sound (begun.numeric numeric)).imp (fun condition tested test => ?_) fun _ _ _ => trivial
  intro closing brace
  have numeric' := (begun.trans test.moves).numeric numeric
  have closed := Parser.Moves.advance tested
  have entered := closed.trans (.advance _)
  refine (block_sound sound (entered.numeric numeric') brace).imp (fun consequence middle yes => ?_)
    fun _ _ _ => trivial
  have soFar := (((begun.cleanly trivial).trans test).trans (entered.cleanly trivial)).trans yes
  have ready := soFar.moves.ready numeric.toReady
  constructor
  · intro elseWord brace'
    have entered' := (Parser.Moves.advance middle).trans (.advance _)
    refine (block_sound sound (entered'.numeric (soFar.moves.numeric numeric)) brace').imp
      (fun alternative after no => ?_) fun _ _ _ => trivial
    refine ((soFar.trans (entered'.cleanly trivial)).trans no).imp ?_
    rintro ⟨⟨⟨⟨⟨-, ⟨read, spans, derives⟩, -⟩, -⟩, first, firstSpans, firstDerives⟩, -⟩, second, secondSpans, secondDerives⟩
    have throughTest := (throughOpening.append spans).upcoming numeric'.toReady (by simp [closing])
    have throughElse := (throughTest.append firstSpans).upcoming ready (by simp [elseWord])
    refine ⟨_, throughElse.append secondSpans, ?_⟩
    simpa using Derives.alternative word opening derives closing firstDerives elseWord secondDerives
  · intro _
    refine soFar.imp ?_
    rintro ⟨⟨⟨-, ⟨read, spans, derives⟩, -⟩, -⟩, first, firstSpans, firstDerives⟩
    have throughTest := (throughOpening.append spans).upcoming numeric'.toReady (by simp [closing])
    refine ⟨_, throughTest.append firstSpans, ?_⟩
    simpa using Derives.conditional word opening derives closing firstDerives

theorem functionLiteral_sound (numeric : before.Numeric) (word : before.current.kind = .functionWord) :
    Ensures (functionLiteral expression) before (fun node after => before.Cleanly after (∃ read,
      before.Spans read after ∧ Derives (.expression primaryLevel) read node)) (fun _ _ => True) := by
  have here := Parser.Spans.current numeric.toReady (by simp [word])
  have opened := Parser.Moves.advance before
  simp only [functionLiteral, ensures_bind, ensures_current, ensures_expect, ensures_pure, implies_true, and_true]
  intro opening
  have numeric' := opened.numeric numeric
  refine (parameters_sound numeric'.toReady opening).imp (fun names middle ended => ?_) fun _ _ _ => trivial
  obtain ⟨moves, read, closing, spans, rightParen, derives⟩ := ended
  intro brace
  have entered := (opened.trans moves).trans (.advance _)
  refine (block_sound sound (entered.numeric numeric) brace).imp (fun body after clean => ?_) fun _ _ _ => trivial
  refine ((entered.cleanly trivial).trans clean).imp ?_
  rintro ⟨-, second, bodySpans, bodyDerives⟩
  refine ⟨_, (here.append spans).append bodySpans, ?_⟩
  simpa using Derives.function word opening derives rightParen bodyDerives

/-- The expressions after commas go on with the list that any expression before them begins. -/
theorem moreExpressions_sound (rounds : Nat) (read : List Node) (numeric : before.Numeric) :
    Ensures (moreExpressions expression rounds read) before (fun nodes after => before.Cleanly after
      (∃ tail others, nodes = read.reverse ++ others ∧
        (∀ start tokens, Parser.Spans start tokens before → start.Spans (tokens ++ tail) after) ∧
        ∀ first node, Derives (.expression 0) first node →
          Derives .expressions (first ++ tail) (.sequence (node :: others)))) (fun _ _ => True) := by
  induction rounds generalizing read before with
  | zero => trivial
  | succ rounds ih =>
    simp only [moreExpressions, ensures_bind, ensures_upcoming, ensures_ite, ensures_advance, ensures_pure]
    constructor
    · intro comma
      have begun := (Parser.Moves.advance before).trans (.advance _)
      refine (lowest_sound sound (begun.numeric numeric)).imp (fun node middle ended => ?_) fun _ _ _ => trivial
      refine (ih _ ((begun.trans ended.moves).numeric numeric)).imp (fun nodes after later => ?_) fun _ _ _ => trivial
      refine (((begun.cleanly trivial).trans ended).trans later).imp ?_
      rintro ⟨⟨-, ⟨second, spans, derives⟩, -⟩, tail, others, rfl, throughTail, list⟩
      refine ⟨before.upcoming :: second ++ tail, node :: others, by simp, ?_, ?_⟩
      · intro start tokens earlier
        have throughComma := earlier.upcoming numeric.toReady (by simp [comma])
        simpa using throughTail _ _ (throughComma.append spans)
      · intro first left expression
        exact .moreExpressions expression comma (list _ _ derives)
    · intro _
      refine (Parser.Moves.refl _).cleanly ⟨[], [], by simp, by simp, fun first node derives => ?_⟩
      simpa using Derives.lastExpression derives

theorem call_sound (numeric : before.Numeric) (opening : before.current.kind = .leftParen) (callee : Node) :
    Ensures (call expression callee) before (fun node after => before.Cleanly after (∃ tokens closing nodes,
      node = .call before.current callee (.sequence nodes) ∧ before.Spans (before.current :: tokens ++ [closing]) after ∧
        closing.kind = .rightParen ∧ Derives .arguments tokens (.sequence nodes))) (fun _ _ => True) := by
  have here := Parser.Spans.current numeric.toReady (by simp [opening])
  have begun := Parser.Moves.advance before
  simp only [call, expressions, ensures_bind, ensures_current, ensures_upcoming, ensures_advance, ensures_ite,
    ensures_get, ensures_expect, ensures_pure, implies_true, and_true]
  constructor
  · intro closing
    refine begun.cleanly ⟨[], before.upcoming, [], rfl, ?_, closing, .noArguments⟩
    exact here.upcoming numeric.toReady (by simp [closing])
  · intro _
    refine (lowest_sound sound (begun.numeric numeric)).imp (fun first middle ended => ?_) fun _ _ _ => trivial
    have numeric' := (begun.trans ended.moves).numeric numeric
    refine (moreExpressions_sound sound _ _ numeric').imp (fun nodes after later => ?_) fun _ _ _ => trivial
    intro closing
    refine ((((begun.cleanly trivial).trans ended).trans later).trans ((Parser.Moves.advance after).cleanly trivial)).imp ?_
    rintro ⟨⟨⟨-, ⟨read, spans, derives⟩, -⟩, tail, others, rfl, throughTail, list⟩, -⟩
    refine ⟨read ++ tail, after.upcoming, _, rfl, ?_, closing, .arguments (list _ _ derives)⟩
    have throughArguments := throughTail _ _ (here.append spans)
    simpa using throughArguments.upcoming (later.moves.ready numeric'.toReady) (by simp [closing])

/-- An operand holds together by itself, or it is an operator with the operand that the operator was given. -/
theorem operand_sound (numeric : before.Numeric) : Ensures (operand expression) before (fun node after =>
    before.Cleanly after (∃ read level, before.Spans read after ∧ Derives (.expression level) read node ∧
      unaryLevel ≤ level ∧ after.upcoming.kind.precedence ≤ level + 2)) (fun _ _ => True) := by
  have primary : ∀ {node after}, before.Cleanly after (∃ read, before.Spans read after ∧
      Derives (.expression primaryLevel) read node) → before.Cleanly after (∃ read level, before.Spans read after ∧
        Derives (.expression level) read node ∧ unaryLevel ≤ level ∧ after.upcoming.kind.precedence ≤ level + 2) := by
    intro node after clean
    refine clean.imp fun ⟨read, spans, derives⟩ => ⟨read, _, spans, derives, by decide, ?_⟩
    have bound := Kind.precedence_le after.upcoming.kind
    simp only [primaryLevel]
    omega
  have sign : before.current.kind = .bang ∨ before.current.kind = .minus →
      Ensures (unary expression) before (fun node after => before.Cleanly after (∃ read level,
        before.Spans read after ∧ Derives (.expression level) read node ∧ unaryLevel ≤ level ∧
          after.upcoming.kind.precedence ≤ level + 2)) (fun _ _ => True) := by
    intro operator
    have here := Parser.Spans.current numeric.toReady (by rcases operator with same | same <;> simp [same])
    have begun := Parser.Moves.advance before
    simp only [unary, ensures_bind, ensures_current, ensures_advance, ensures_pure]
    refine (sound.reads 5 (by omega) _ (begun.numeric numeric)).imp (fun right after ended => ?_) fun _ _ _ => trivial
    refine ((begun.cleanly trivial).trans ended).imp ?_
    rintro ⟨-, ⟨read, spans, derives⟩, follow⟩
    exact ⟨_, unaryLevel, here.append spans, .unary operator derives, by decide, follow⟩
  have single : ∀ {node}, before.current.kind ≠ .endOfInput →
      Derives (.expression primaryLevel) [before.current] node → before.Cleanly before (∃ read,
        before.Spans read before ∧ Derives (.expression primaryLevel) read node) := fun more derives =>
    (Parser.Moves.refl _).cleanly ⟨_, .current numeric.toReady more, derives⟩
  simp only [operand, ensures_bind, ensures_current]
  split
  next kind =>
    exact primary (single (by simp [kind]) (.identifier kind))
  next kind =>
    refine (integer_sound numeric kind).imp ?_ fun _ _ => id
    rintro node after ⟨rfl, derives⟩
    exact primary (single (by simp [kind]) derives)
  next kind =>
    rw [ensures_boolean, kind]
    exact primary (single (by simp [kind]) (.trueLiteral kind))
  next kind =>
    rw [ensures_boolean, kind]
    exact primary (single (by simp [kind]) (.falseLiteral kind))
  next kind => exact sign (.inl kind)
  next kind => exact sign (.inr kind)
  next kind => exact (grouped_sound sound numeric kind).imp (fun _ _ => primary) fun _ _ => id
  next kind => exact (conditional_sound sound numeric kind).imp (fun _ _ => primary) fun _ _ => id
  next kind => exact (functionLiteral_sound sound numeric kind).imp (fun _ _ => primary) fun _ _ => id
  next => trivial

theorem binary_sound (numeric : before.Numeric) (left : Node) {level : Nat} (within : level ≤ 3)
    (precedence : before.current.kind.precedence = level + 2) (more : before.current.kind ≠ .endOfInput) :
    Ensures (binary expression left) before (fun node after => before.Cleanly after (∃ read right,
      node = .binary before.current left before.current.literal right ∧
        before.Spans (before.current :: read) after ∧ Derives (.expression (level + 1)) read right ∧
          after.upcoming.kind.precedence ≤ level + 2)) (fun _ _ => True) := by
  have here := Parser.Spans.current numeric.toReady more
  have begun := Parser.Moves.advance before
  have floor : (level : Int) + 2 = (level + 1 : Nat) + 1 := by omega
  have reached : min (level + 1) unaryLevel = level + 1 := by simp only [unaryLevel]; omega
  simp only [binary, ensures_bind, ensures_current, ensures_advance, ensures_pure, precedence, floor]
  refine (sound.reads (level + 1) (by omega) _ (begun.numeric numeric)).imp (fun right after ended => ?_)
    fun _ _ _ => trivial
  refine ((begun.cleanly trivial).trans ended).imp ?_
  rintro ⟨-, ⟨read, spans, derives⟩, follow⟩
  rw [reached] at derives
  exact ⟨read, right, rfl, here.append spans, derives, follow⟩

end Levels

/-- What is read since the start has a level that the next operator does not exceed, so that this operator may take all
of it as its left side. -/
def Reaches (start : Parser) (level : Nat) (node : Node) (after : Parser) : Prop :=
  ∃ read reached, start.Spans read after ∧ Derives (.expression reached) read node ∧ min level unaryLevel ≤ reached ∧
    after.upcoming.kind.precedence ≤ reached + 2

section Levels

variable {start : Parser} {level : Nat} {left : Node}

theorem Reaches.call {tokens : List Token} {closing : Token} {nodes : List Node} {after : Parser}
    (reaches : Reaches start level left before) (within : level ≤ 5) (opening : before.upcoming.kind = .leftParen)
    (spans : before.advance.Spans (before.upcoming :: tokens ++ [closing]) after) (rightParen : closing.kind = .rightParen)
    (list : Derives .arguments tokens (.sequence nodes)) :
    Reaches start level (.call before.upcoming left (.sequence nodes)) after := by
  obtain ⟨read, reached, earlier, derives, -, follow⟩ := reaches
  have tight : (7 : Int) ≤ reached + 2 := by rwa [opening] at follow
  have callee : Derives (.expression callLevel) read left := derives.looser_of_le (by simp only [callLevel]; omega)
  refine ⟨_, callLevel, earlier.append spans, ?_, by simp only [callLevel, unaryLevel]; omega, Kind.precedence_le _⟩
  simpa using Derives.call callee opening list rightParen

theorem Reaches.binary {tokens : List Token} {level' : Nat} {right : Node} {after : Parser}
    (reaches : Reaches start level left before) (ofLevel : before.upcoming.kind ∈ Grammar.operators level')
    (precedence : before.upcoming.kind.precedence = level' + 2)
    (tighter : level + 1 < before.upcoming.kind.precedence)
    (spans : before.advance.Spans (before.upcoming :: tokens) after)
    (derives : Derives (.expression (level' + 1)) tokens right) (follow : after.upcoming.kind.precedence ≤ level' + 2) :
    Reaches start level (.binary before.upcoming left before.upcoming.literal right) after := by
  obtain ⟨read, reached, earlier, leftSide, -, bound⟩ := reaches
  have leftSide' : Derives (.expression level') read left := leftSide.looser_of_le (by omega)
  exact ⟨_, level', earlier.append spans, .binary leftSide' ofLevel derives, by omega, follow⟩

theorem Reaches.ends (reaches : Reaches start level left before)
    (loose : before.upcoming.kind.precedence ≤ level + 1) :
    (∃ read, start.Spans read before ∧ Derives (.expression (min level unaryLevel)) read left) ∧
      before.upcoming.kind.precedence ≤ level + 1 := by
  obtain ⟨read, reached, spans, derives, enough, -⟩ := reaches
  exact ⟨⟨read, spans, derives.looser_of_le enough⟩, loose⟩

variable {expression : Int → Parse Node} (sound : Sound expression)
include sound

theorem operators_sound (within : level ≤ 5) (rounds : Nat) (numeric : before.Numeric)
    (soFar : start.Cleanly before (Reaches start level left before)) :
    Ensures (operators expression (level + 1) rounds left) before (fun node after => start.Cleanly after
      ((∃ read, start.Spans read after ∧ Derives (.expression (min level unaryLevel)) read node) ∧
        after.upcoming.kind.precedence ≤ level + 1)) (fun _ _ => True) := by
  induction rounds generalizing left before with
  | zero => trivial
  | succ rounds ih =>
    have begun := Parser.Moves.advance before
    have numeric' := begun.numeric numeric
    simp only [operators, ensures_bind, ensures_upcoming, ensures_ite, ensures_advance, ensures_pure]
    refine ⟨fun ⟨_, tighter⟩ => ⟨fun opening => ?_, fun notCall => ⟨fun isBinary => ?_, fun neither => ?_⟩⟩,
      fun loose => ?_⟩
    · refine (call_sound sound numeric' opening left).imp (fun node after ended => ?_) fun _ _ _ => trivial
      refine ih (ended.moves.numeric numeric') (((soFar.trans (begun.cleanly trivial)).trans ended).imp ?_)
      rintro ⟨⟨reaches, -⟩, tokens, closing, nodes, rfl, spans, rightParen, list⟩
      exact reaches.call within opening spans rightParen list
    · obtain ⟨level', small, ofLevel, precedence, more⟩ := Kind.exists_level isBinary
      refine (binary_sound sound numeric' left small precedence more).imp (fun node after ended => ?_)
        fun _ _ _ => trivial
      refine ih (ended.moves.numeric numeric') (((soFar.trans (begun.cleanly trivial)).trans ended).imp ?_)
      rintro ⟨⟨reaches, -⟩, read, right, rfl, spans, derives, follow⟩
      exact reaches.binary ofLevel precedence tighter spans derives follow
    · refine soFar.imp fun reaches => reaches.ends ?_
      rw [Kind.precedence_eq_lowest neither notCall]
      omega
    · refine soFar.imp fun reaches => reaches.ends ?_
      by_cases semicolon : before.upcoming.kind = .semicolon
      · rw [semicolon]
        exact Int.le_add_of_nonneg_left (Int.natCast_nonneg level)
      · exact Int.not_lt.mp fun tighter => loose ⟨semicolon, tighter⟩

theorem level_sound : Sound (Parse.level expression) where
  moving := Parse.moving.level sound.moving
  reads level within before numeric := by
    simp only [Parse.level, ensures_bind, ensures_get]
    refine (operand_sound sound numeric).imp (fun left middle ended => ?_) fun _ _ _ => trivial
    refine operators_sound sound within _ (ended.moves.numeric numeric) (ended.imp ?_)
    rintro ⟨read, reached, spans, derives, tight, follow⟩
    exact ⟨read, reached, spans, derives, le_trans (Nat.min_le_right _ _) tight, follow⟩

end Levels

theorem expression_sound (limit : Nat) : Sound (Parse.expression limit) := by
  induction limit with
  | zero => exact ⟨fun _ => Parse.moving.fault _, fun _ _ _ _ => trivial⟩
  | succ limit ih => exact level_sound ih

theorem program_sound (limit : Nat) (numeric : before.Numeric) : Ensures (program limit) before (fun node after =>
    after.errors = before.errors → Derives .program before.rest node) (fun _ _ => True) := by
  simp only [program, statements, ensures_bind, ensures_get, ensures_pure]
  refine (moreStatements_sound (expression_sound limit) .endOfInput _ _ numeric).imp (fun nodes after ended same => ?_)
    fun _ _ _ => trivial
  obtain ⟨tokens, others, rfl, rest, derives⟩ := ended.1.fact same
  have finished : after.rest = [] := by
    have ready := ended.1.moves.ready numeric.toReady
    by_contra more
    obtain ⟨token, tail, place⟩ := List.exists_cons_of_ne_nil more
    have kind := ready.rest token (by simp [place])
    exact kind (by simpa [Parser.current, place] using ended.2)
  rw [rest, finished, List.append_nil]
  exact .program derives

end Parse

end MonkeyLang
