import MonkeyLang.Proofs.ParsingSoundness

/-! What derives in the grammar is read, unless the nesting is too deep. A derivation ends its expressions as early as
it says, and the reader ends them as late as it can; the two agree because the token after an expression never binds
tightly enough to go on with it. -/

namespace MonkeyLang

open Grammar

namespace Parser

/-- The tokens are read from the first state on, and nothing else changes. -/
structure Passes (before : Parser) (tokens : List Token) (after : Parser) : Prop where
  spans : before.Spans tokens after
  finish : after.finish = before.finish
  errors : after.errors = before.errors

variable {first second third : Parser} {tokens others : List Token}

namespace Passes

theorem tail_eq (passes : first.Passes tokens second) (rest : first.rest = tokens ++ others) :
    second.rest.tail = others :=
  List.append_cancel_left (passes.spans.rest_eq.symm.trans rest)

theorem advance_rest (passes : first.Passes tokens second) (rest : first.rest = tokens ++ others) :
    second.advance.rest = others := passes.tail_eq rest

theorem upcoming_eq (passes : first.Passes tokens second) (rest : first.rest = tokens ++ others) :
    second.upcoming = others.headD first.finish := by
  rw [Parser.upcoming, passes.tail_eq rest, passes.finish]

theorem rest_of_last {token : Token} (passes : first.Passes (tokens ++ [token]) second)
    (rest : first.rest = tokens ++ token :: others) : second.rest = token :: others := by
  obtain ⟨front, last, tail, same, text, place⟩ := passes.spans
  obtain ⟨rfl, -⟩ := List.append_inj' same rfl
  rw [place]
  exact List.append_cancel_left (text.symm.trans rest)

theorem moves (passes : first.Passes tokens second) : first.Moves second := by
  obtain ⟨front, last, others, rfl, rest, place⟩ := passes.spans
  exact ⟨passes.finish, rest ▸ place ▸ List.suffix_append _ _, passes.errors ▸ List.prefix_refl _⟩

theorem current {token : Token} (rest : first.rest = token :: others) : first.Passes [token] first :=
  ⟨⟨[], token, others, rfl, rest, rest⟩, rfl, rfl⟩

theorem append {more : List Token} (earlier : first.Passes tokens second) (later : second.advance.Passes more third) :
    first.Passes (tokens ++ more) third :=
  ⟨earlier.spans.append later.spans, later.finish.trans earlier.finish, later.errors.trans earlier.errors⟩

theorem upcoming {token : Token} (earlier : first.Passes tokens second) (rest : first.rest = tokens ++ token :: others) :
    first.Passes (tokens ++ [token]) second.advance :=
  earlier.append (current (earlier.advance_rest rest))

end Passes

theorem current_of_rest {token : Token} (rest : first.rest = token :: others) : first.current = token := by
  rw [current, rest]
  rfl

theorem upcoming_of_rest {token next : Token} (rest : first.rest = token :: next :: others) :
    first.upcoming = next := by
  rw [upcoming, rest]
  rfl

theorem advance_of_rest {token : Token} (rest : first.rest = token :: others) : first.advance.rest = others := by
  rw [advance, rest]
  rfl

end Parser

namespace Grammar

/-- The kinds of token that an expression begins with. -/
def starters : List Kind :=
  [.identifier, .integer, .trueWord, .falseWord, .bang, .minus, .leftParen, .ifWord, .functionWord]

theorem Derives.starts {level : Nat} {token : Token} {tokens : List Token} {node : Node}
    (derives : Derives (.expression level) (token :: tokens) node) : token.kind ∈ starters := by
  generalize phrase : Phrase.expression level = expression at derives
  generalize text : token :: tokens = all at derives
  induction derives generalizing level token tokens with
  | looser _ ih => exact ih rfl text
  | binary left _ _ ih =>
    obtain ⟨first, rest, rfl⟩ := List.exists_cons_of_ne_nil left.ne_nil
    exact ih rfl (by rw [(List.cons.inj text).1])
  | call callee _ _ _ ih =>
    obtain ⟨first, rest, rfl⟩ := List.exists_cons_of_ne_nil callee.ne_nil
    exact ih rfl (by rw [(List.cons.inj text).1])
  | unary sign =>
    obtain rfl := (List.cons.inj text).1
    rcases sign with kind | kind <;> simp [kind, starters]
  | _ => simp_all [starters]

theorem Derives.statement_starts {closed : Bool} {tokens : List Token} {node : Node}
    (derives : Derives (.statement closed) tokens node) :
    ∃ token more, tokens = token :: more ∧ token.kind ∈ .letWord :: .returnWord :: starters := by
  cases derives with
  | letBinding word => exact ⟨_, _, rfl, by simp [word]⟩
  | returning word => exact ⟨_, _, rfl, by simp [word]⟩
  | statement expression => exact ⟨_, _, rfl, by simp [expression.starts]⟩

/-- The first token of a list of statements, or what stands behind an empty list. -/
theorem Derives.statements_start {tokens : List Token} {nodes : List Node}
    (derives : Derives .statements tokens (.sequence nodes)) :
    tokens = [] ∨ ∃ token more, tokens = token :: more ∧ token.kind ∈ .letWord :: .returnWord :: starters := by
  cases derives with
  | noStatements => exact .inl rfl
  | statements statement _ _ =>
    obtain ⟨token, more, rfl, start⟩ := statement.statement_starts
    exact .inr ⟨token, _, rfl, start⟩

theorem Derives.block_start {tokens : List Token} {node : Node} (derives : Derives .block tokens node) :
    ∃ token more, tokens = token :: more ∧ token.kind = .leftBrace := by
  cases derives with
  | block leftBrace _ _ => exact ⟨_, _, rfl, leftBrace⟩

theorem Derives.expressions_start {tokens : List Token} {nodes : List Node}
    (derives : Derives .expressions tokens (.sequence nodes)) :
    ∃ token more, tokens = token :: more ∧ token.kind ∈ starters := by
  cases derives with
  | lastExpression derives =>
    obtain ⟨token, more, rfl⟩ := List.exists_cons_of_ne_nil derives.ne_nil
    exact ⟨token, more, rfl, derives.starts⟩
  | moreExpressions derives _ _ =>
    obtain ⟨token, more, rfl⟩ := List.exists_cons_of_ne_nil derives.ne_nil
    exact ⟨token, _, rfl, derives.starts⟩

end Grammar

namespace Parse

/-- The nesting is too deep to go on. -/
def Exhausted (failure : Failure) (_ : Parser) : Prop := failure = .fault .exhausted

variable {before : Parser} {tokens others : List Token}

theorem moreParameters_complete {nodes : List Node} {name : Token} (rounds : Nat) (read : List Node)
    (derives : Derives .names (name :: tokens) (.sequence nodes)) (rest : before.rest = name :: tokens ++ others)
    (ends : (others.headD before.finish).kind ≠ .comma) :
    Ensures (moreParameters rounds (.identifier name name.literal :: read)) before (fun result after =>
      result = read.reverse ++ nodes ∧ before.Passes (name :: tokens) after) Exhausted := by
  induction rounds generalizing before name tokens nodes read with
  | zero => rfl
  | succ rounds ih =>
    have here : before.Passes [name] before := .current rest
    simp only [moreParameters, ensures_bind, ensures_upcoming, ensures_ite, ensures_advance, ensures_expect,
      ensures_identifier, ensures_pure]
    cases derives with
    | lastName _ =>
      have next : before.upcoming = others.headD before.finish := here.upcoming_eq rest
      exact ⟨fun comma => absurd (next ▸ comma) ends, fun _ => ⟨by simp, here⟩⟩
    | @moreNames _ comma tail _ identifier isComma derives =>
      obtain ⟨second, tail, rfl⟩ : ∃ second more, tail = second :: more := by cases derives <;> exact ⟨_, _, rfl⟩
      have named : second.kind = .identifier := by cases derives <;> assumption
      have upcoming := Parser.upcoming_of_rest rest
      have place := Parser.advance_of_rest rest
      have upcoming' := Parser.upcoming_of_rest place
      have place' := Parser.advance_of_rest place
      simp only [upcoming, upcoming', isComma, named, Parser.current_advance, true_implies, not_true_eq_false,
        false_implies, ne_eq, and_true]
      refine (ih _ derives place' ends).imp (fun result after ended => ?_) fun _ _ => id
      obtain ⟨rfl, passes⟩ := ended
      refine ⟨by simp, ?_⟩
      simpa using (here.upcoming rest).append passes

theorem parameters_complete {nodes : List Node} {opening closing : Token}
    (derives : Derives .parameters tokens (.sequence nodes))
    (rest : before.rest = opening :: tokens ++ closing :: others) (rightParen : closing.kind = .rightParen) :
    Ensures parameters before (fun result after => result = nodes ∧
      before.Passes (opening :: tokens ++ [closing]) after) Exhausted := by
  have here : before.Passes [opening] before := .current rest
  simp only [parameters, ensures_bind, ensures_upcoming, ensures_ite, ensures_advance, ensures_expect,
    ensures_identifier, ensures_pure, ensures_get]
  cases derives with
  | noParameters =>
    have upcoming := Parser.upcoming_of_rest rest
    exact ⟨fun _ => ⟨rfl, here.upcoming rest⟩, fun wrong => absurd (upcoming ▸ rightParen) wrong⟩
  | parameters derives =>
    obtain ⟨first, tail, rfl⟩ : ∃ first more, tokens = first :: more := by cases derives <;> exact ⟨_, _, rfl⟩
    have named : first.kind = .identifier := by cases derives <;> assumption
    have upcoming := Parser.upcoming_of_rest rest
    have place := Parser.advance_of_rest rest
    simp only [upcoming, named, Parser.current_advance, true_implies, not_true_eq_false, false_implies, ne_eq, and_true,
      reduceCtorEq, not_false_eq_true, true_and]
    refine (moreParameters_complete _ _ derives place (by simp [rightParen])).imp (fun result after ended => ?_)
      fun _ _ => id
    obtain ⟨rfl, passes⟩ := ended
    have next : after.upcoming = closing := passes.upcoming_eq place
    refine ⟨fun _ => ⟨rfl, ?_⟩, fun wrong => absurd (next ▸ rightParen) wrong⟩
    simpa using (here.append passes).upcoming rest

/-- The token ends an expression whose operators may bind as tightly as the bound. -/
structure Closes (bound : Int) (token : Token) : Prop where
  precedence : token.kind.precedence ≤ bound
  notElse : token.kind ≠ .elseWord

/-- An expression is read to its end if the token after it binds no more tightly than the floor. -/
structure Complete (expression : Int → Parse Node) : Prop where
  reads : ∀ {level : Nat} {tokens : List Token} {node : Node}, Derives (.expression level) tokens node →
    ∀ (floor : Nat) (before : Parser) (others : List Token), floor ≤ 5 → min floor unaryLevel ≤ level →
      before.Legible → before.rest = tokens ++ others → Closes (floor + 1) (others.headD before.finish) →
        Ensures (expression (floor + 1)) before (fun result after => result = node ∧ before.Passes tokens after) Exhausted

theorem Closes.of_kind {bound : Int} {kind : Kind} {token : Token} (same : token.kind = kind)
    (closes : kind.precedence ≤ bound ∧ kind ≠ .elseWord) : Closes bound token :=
  ⟨same ▸ closes.1, same ▸ closes.2⟩

theorem Closes.mono {bound greater : Int} {token : Token} (closes : Closes bound token) (le : bound ≤ greater) :
    Closes greater token := ⟨Int.le_trans closes.precedence le, closes.notElse⟩

/-- The token does not go on with a statement that ends in front of it. -/
structure Apart (token : Token) : Prop extends Closes 1 token where
  semicolon : token.kind ≠ .semicolon

/-- The statement is over in front of these tokens. -/
def Parted (closed : Bool) (next : Token) : Prop := closed = false → Apart next

theorem closes_of_starts {token : Token} (start : token.kind ∈ .letWord :: .returnWord :: starters)
    (notMinus : ¬token.kind = .minus) (notParen : ¬token.kind = .leftParen) : Apart token := by
  simp only [starters, List.mem_cons, List.not_mem_nil, or_false, notMinus, notParen, false_or] at start
  rcases start with kind | kind | kind | kind | kind | kind | kind | kind | kind
  all_goals exact ⟨.of_kind kind (by decide), by simp [kind]⟩

/-- A statement without its semicolon ends in front of the next statement, of a closing brace and of the end. -/
theorem parted_of_statements {closed : Bool} {rest : List Token} {nodes : List Node} {last : Token}
    (derives : Derives .statements rest (.sequence nodes)) (apart : closed = false → ¬Continues rest)
    (ends : (others.headD last).kind = .rightBrace ∨ (others.headD last).kind = .endOfInput) :
    Parted closed ((rest ++ others).headD last) := by
  intro bare
  rcases derives.statements_start with rfl | ⟨token, more, rfl, start⟩
  · change Apart (others.headD last)
    rcases ends with kind | kind
    · exact ⟨.of_kind kind (by decide), kind ▸ nofun⟩
    · exact ⟨.of_kind kind (by decide), kind ▸ nofun⟩
  · have notContinues := apart bare
    simp only [Continues, List.head?_cons, Option.mem_def, Option.some.injEq, exists_eq_left', not_or] at notContinues
    exact closes_of_starts start notContinues.1 notContinues.2

section Levels

variable {expression : Int → Parse Node} (complete : Complete expression)
include complete

theorem lowest_complete {node : Node} (derives : Derives (.expression 0) tokens node) (legible : before.Legible)
    (rest : before.rest = tokens ++ others) (follow : Closes 1 (others.headD before.finish)) :
    Ensures (expression Kind.lowest) before (fun result after => result = node ∧ before.Passes tokens after) Exhausted :=
  complete.reads derives 0 before others (by omega) (by omega) legible rest follow

theorem ending_complete {node : Node} {closed : Bool} {ending : List Token}
    (derives : Derives (.expression 0) tokens node) (ends : Ending closed ending) (legible : before.Legible)
    (rest : before.rest = tokens ++ ending ++ others) (parted : Parted closed (others.headD before.finish)) :
    Ensures (expression Kind.lowest) before (fun result middle => Ensures passSemicolon middle (fun _ after =>
      result = node ∧ before.Passes (tokens ++ ending) after) Exhausted) Exhausted := by
  rw [List.append_assoc] at rest
  cases ends with
  | @closed token semicolon =>
    refine (lowest_complete complete derives legible rest (.of_kind semicolon (by decide))).imp
      (fun result middle ended => ?_) fun _ _ => id
    obtain ⟨rfl, passes⟩ := ended
    have next : middle.upcoming = token := passes.upcoming_eq rest
    rw [ensures_passSemicolon]
    exact ⟨fun _ => ⟨rfl, passes.upcoming rest⟩, fun wrong => absurd (next ▸ semicolon) wrong⟩
  | bare =>
    have apart := parted rfl
    refine (lowest_complete complete derives legible rest apart.toCloses).imp (fun result middle ended => ?_)
      fun _ _ => id
    obtain ⟨rfl, passes⟩ := ended
    have next : middle.upcoming = others.headD before.finish := passes.upcoming_eq rest
    rw [ensures_passSemicolon]
    exact ⟨fun semicolon => absurd (next ▸ semicolon) apart.semicolon, fun _ => ⟨rfl, by simpa using passes⟩⟩

theorem statement_complete {node : Node} {closed : Bool} (derives : Derives (.statement closed) tokens node)
    (legible : before.Legible) (rest : before.rest = tokens ++ others)
    (parted : Parted closed (others.headD before.finish)) :
    Ensures (statement expression) before (fun result after => result = node ∧ before.Passes tokens after) Exhausted := by
  simp only [statement, ensures_bind, ensures_current]
  cases derives with
  | @letBinding word name sign value ending _ node letWord identifier assign derives ends =>
    have text : before.rest = word :: name :: sign :: (value ++ ending ++ others) := by simpa using rest
    have here : before.Passes [word] before := .current text
    have current := Parser.current_of_rest text
    have upcoming := Parser.upcoming_of_rest text
    have place := Parser.advance_of_rest text
    have upcoming' := Parser.upcoming_of_rest place
    have place' := Parser.advance_of_rest (Parser.advance_of_rest place)
    have begun := ((Parser.Moves.advance before).trans (.advance _)).trans (.advance _)
    simp only [letBinding, ensures_bind, ensures_current, ensures_identifier, ensures_advance, ensures_expect,
      ensures_pure, current, letWord, upcoming, identifier, upcoming', assign, Parser.current_advance, true_implies,
      ne_eq, not_true_eq_false, false_implies, and_true]
    refine (ending_complete complete derives ends (begun.legible legible) place' parted).imp
      (fun result middle ended => ended.imp (fun _ after ended => ?_) fun _ _ => id) fun _ _ => id
    obtain ⟨rfl, passes⟩ := ended
    refine ⟨rfl, ?_⟩
    simpa using ((here.upcoming text).upcoming text).append passes
  | @returning word value ending _ node returnWord derives ends =>
    have text : before.rest = word :: (value ++ ending ++ others) := by simpa using rest
    have here : before.Passes [word] before := .current text
    have current := Parser.current_of_rest text
    have place := Parser.advance_of_rest text
    have begun := Parser.Moves.advance before
    simp only [returning, ensures_bind, ensures_current, ensures_advance, ensures_pure, current, returnWord]
    refine (ending_complete complete derives ends (begun.legible legible) place parted).imp
      (fun result middle ended => ended.imp (fun _ after ended => ?_) fun _ _ => id) fun _ _ => id
    obtain ⟨rfl, passes⟩ := ended
    exact ⟨rfl, here.append passes⟩
  | @statement first value ending _ node derives ends =>
    have current : before.current = first := Parser.current_of_rest rest
    have starts := derives.starts
    have ended : Ensures (expressionStatement expression) before (fun result after =>
        result = .statement first node ∧ before.Passes (first :: value ++ ending) after) Exhausted := by
      simp only [expressionStatement, ensures_bind, ensures_current, ensures_pure, current]
      refine (ending_complete complete derives ends legible rest parted).imp
        (fun result middle ended => ended.imp (fun _ after ended => ?_) fun _ _ => id) fun _ _ => id
      obtain ⟨rfl, passes⟩ := ended
      exact ⟨rfl, passes⟩
    split
    next word => simp [current ▸ word, starters] at starts
    next word => simp [current ▸ word, starters] at starts
    next => exact ended

theorem moreStatements_complete {nodes : List Node} {terminator : Kind} (rounds : Nat) (read : List Node)
    (derives : Derives .statements tokens (.sequence nodes)) (legible : before.Legible)
    (rest : before.rest = tokens ++ others) (ends : (others.headD before.finish).kind = terminator)
    (block : terminator = .rightBrace ∨ terminator = .endOfInput) :
    Ensures (moreStatements expression terminator rounds read) before (fun result after =>
      result = read.reverse ++ nodes ∧ after.rest = others ∧ after.finish = before.finish ∧
        after.errors = before.errors) Exhausted := by
  induction rounds generalizing before tokens nodes read with
  | zero => rfl
  | succ rounds ih =>
    simp only [moreStatements, ensures_bind, ensures_current, ensures_ite, ensures_pure, ensures_recovering,
      ensures_advance, Bool.or_eq_true, decide_eq_true_eq]
    cases derives with
    | noStatements =>
      have current : before.current = others.headD before.finish := congrArg (·.headD before.finish) rest
      refine ⟨fun _ => by simpa using rest, fun more => absurd (.inl ?_) more⟩
      rw [current, ends]
    | @statements closed first tail node nodes statement list apart =>
      obtain ⟨token, more, rfl, start⟩ := statement.statement_starts
      have current : before.current = token := Parser.current_of_rest rest
      rw [List.append_assoc] at rest
      refine ⟨fun wrong => ?_, fun _ => ?_⟩
      · rw [current] at wrong
        rcases block with rfl | rfl <;> rcases wrong with same | same <;> simp [same, starters] at start
      · have parted : Parted closed ((tail ++ others).headD before.finish) := by
          refine parted_of_statements list apart ?_
          rwa [ends]
        refine (statement_complete complete statement legible rest parted).imp (fun result middle ended => ?_) ?_
        · obtain ⟨rfl, passes⟩ := ended
          have legible' := (passes.moves.trans (.advance _)).legible legible
          have finish : middle.advance.finish = before.finish := passes.finish
          refine (ih (result :: read) list legible' (passes.advance_rest rest) (finish ▸ ends)).imp
            (fun result after ended => ?_) fun _ _ => id
          obtain ⟨rfl, place, finish', errors⟩ := ended
          exact ⟨by simp, place, finish'.trans finish, errors.trans passes.errors⟩
        · rintro _ _ rfl
          rfl

theorem block_complete {node : Node} (derives : Derives .block tokens node) (legible : before.Legible)
    (rest : before.rest = tokens ++ others) :
    Ensures (block expression) before (fun result after => result = node ∧ before.Passes tokens after) Exhausted := by
  cases derives with
  | @block opening closing tokens nodes leftBrace derives rightBrace =>
    have text : before.rest = opening :: (tokens ++ closing :: others) := by simpa using rest
    have current := Parser.current_of_rest text
    have place := Parser.advance_of_rest text
    have begun := Parser.Moves.advance before
    simp only [block, statements, ensures_bind, ensures_current, ensures_advance, ensures_get, ensures_ite, ensures_pure,
      ensures_unreadable, current]
    refine (moreStatements_complete complete _ [] derives (begun.legible legible) place rightBrace (.inl rfl)).imp
      (fun result after ended => ?_) fun _ _ => id
    obtain ⟨rfl, place', finish, errors⟩ := ended
    have closed := Parser.current_of_rest place'
    refine ⟨fun _ => ⟨rfl, ⟨opening :: tokens, closing, others, rfl, text, place'⟩, finish, errors⟩, fun wrong => ?_⟩
    exact absurd (closed ▸ rightBrace) wrong

theorem moreExpressions_complete {nodes : List Node} {closing : Token} (read : List Node)
    (derives : Derives .expressions tokens (.sequence nodes)) (legible : before.Legible)
    (rest : before.rest = tokens ++ closing :: others) (rightParen : closing.kind = .rightParen) :
    Ensures (expression Kind.lowest) before (fun first middle => ∀ rounds,
      Ensures (moreExpressions expression rounds (first :: read)) middle (fun result after =>
        result = read.reverse ++ nodes ∧ before.Passes tokens after) Exhausted) Exhausted := by
  generalize phrase : Phrase.expressions = kind at derives
  generalize tree : Node.sequence nodes = list at derives
  induction derives generalizing before nodes read with
  | lastExpression derives =>
    cases tree
    refine (lowest_complete complete derives legible rest (.of_kind rightParen (by decide))).imp ?_ fun _ _ => id
    rintro first middle ⟨rfl, passes⟩ (_ | rounds)
    · rfl
    · have next : middle.upcoming = closing := passes.upcoming_eq rest
      simp only [moreExpressions, ensures_bind, ensures_upcoming, ensures_ite, ensures_pure, next, rightParen,
        reduceCtorEq, false_implies, not_false_eq_true, true_implies, true_and]
      exact ⟨by simp, passes⟩
  | @moreExpressions comma first tail node nodes derives isComma list _ ih =>
    cases tree
    rw [List.append_assoc] at rest
    refine (lowest_complete complete derives legible rest (.of_kind isComma (by decide))).imp ?_ fun _ _ => id
    rintro first middle ⟨rfl, passes⟩ (_ | rounds)
    · rfl
    · have next : middle.upcoming = comma := passes.upcoming_eq rest
      have throughComma := passes.upcoming rest
      have place := Parser.advance_of_rest (passes.advance_rest rest)
      have legible' := (throughComma.moves.trans (.advance _)).legible legible
      simp only [moreExpressions, ensures_bind, ensures_upcoming, ensures_ite, ensures_advance, next, isComma,
        true_implies, not_true_eq_false, false_implies, and_true]
      refine (ih (first :: read) legible' place rfl rfl).imp (fun second middle ended => ?_) fun _ _ => id
      refine (ended rounds).imp (fun result after ended => ?_) fun _ _ => id
      obtain ⟨rfl, passes'⟩ := ended
      exact ⟨by simp, by simpa using throughComma.append passes'⟩
  | _ => cases phrase

theorem call_complete {nodes : List Node} {opening closing : Token} (callee : Node)
    (derives : Derives .arguments tokens (.sequence nodes)) (legible : before.Legible)
    (rest : before.rest = opening :: tokens ++ closing :: others) (rightParen : closing.kind = .rightParen) :
    Ensures (call expression callee) before (fun result after => result = .call opening callee (.sequence nodes) ∧
      before.Passes (opening :: tokens ++ [closing]) after) Exhausted := by
  have here : before.Passes [opening] before := .current rest
  have current := Parser.current_of_rest rest
  simp only [call, expressions, ensures_bind, ensures_current, ensures_upcoming, ensures_advance, ensures_ite,
    ensures_get, ensures_expect, ensures_pure, current]
  cases derives with
  | noArguments =>
    have upcoming := Parser.upcoming_of_rest rest
    exact ⟨fun _ => ⟨rfl, here.upcoming rest⟩, fun wrong => absurd (upcoming ▸ rightParen) wrong⟩
  | arguments derives =>
    obtain ⟨first, tail, rfl, start⟩ := derives.expressions_start
    have upcoming := Parser.upcoming_of_rest rest
    have place := Parser.advance_of_rest rest
    have begun := Parser.Moves.advance before
    refine ⟨fun wrong => ?_, fun _ => ?_⟩
    · simp [upcoming ▸ wrong, starters] at start
    · refine (moreExpressions_complete complete [] derives (begun.legible legible) place rightParen).imp
        (fun first middle ended => ?_) fun _ _ => id
      refine (ended _).imp (fun result after ended => ?_) fun _ _ => id
      obtain ⟨rfl, passes⟩ := ended
      have next : after.upcoming = closing := passes.upcoming_eq place
      refine ⟨fun _ => ⟨rfl, ?_⟩, fun wrong => absurd (next ▸ rightParen) wrong⟩
      simpa using (here.append passes).upcoming rest

theorem grouped_complete {node : Node} {opening closing : Token} (derives : Derives (.expression 0) tokens node)
    (legible : before.Legible) (rest : before.rest = opening :: tokens ++ closing :: others)
    (rightParen : closing.kind = .rightParen) :
    Ensures (grouped expression) before (fun result after => result = node ∧
      before.Passes (opening :: tokens ++ [closing]) after) Exhausted := by
  have here : before.Passes [opening] before := .current rest
  have place := Parser.advance_of_rest rest
  have begun := Parser.Moves.advance before
  simp only [grouped, ensures_bind, ensures_advance, ensures_expect, ensures_pure]
  refine (lowest_complete complete derives (begun.legible legible) place (.of_kind rightParen (by decide))).imp
    (fun result middle ended => ?_) fun _ _ => id
  obtain ⟨rfl, passes⟩ := ended
  have next : middle.upcoming = closing := passes.upcoming_eq place
  refine ⟨fun _ => ⟨rfl, ?_⟩, fun wrong => absurd (next ▸ rightParen) wrong⟩
  simpa using (here.append passes).upcoming rest

theorem expectBlock_complete {node : Node} (derives : Derives .block tokens node) {place : Token}
    (legible : before.Legible) (rest : before.rest = place :: tokens ++ others) {next : Node → Parse Node}
    {post : Node → Parser → Prop}
    (ends : ∀ after, before.advance.Passes tokens after → Ensures (next node) after post Exhausted) :
    Ensures (do expect .leftBrace; let node ← block expression; next node) before post Exhausted := by
  obtain ⟨brace, more, rfl, leftBrace⟩ := derives.block_start
  have upcoming := Parser.upcoming_of_rest rest
  have text := Parser.advance_of_rest rest
  simp only [ensures_bind, ensures_expect, upcoming]
  refine ⟨fun _ => ?_, fun wrong => absurd leftBrace wrong⟩
  refine (block_complete complete derives ((Parser.Moves.advance before).legible legible) text).imp
    (fun result after ended => ?_) fun _ _ => id
  obtain ⟨rfl, passes⟩ := ended
  exact ends after passes

/-- The head of a conditional and its first block; what becomes of it depends on the token after that. -/
theorem consequence_complete {word opening closing : Token} {first : List Token} {test consequence : Node}
    (leftParen : opening.kind = .leftParen) (derives : Derives (.expression 0) tokens test)
    (rightParen : closing.kind = .rightParen) (yes : Derives .block first consequence) (legible : before.Legible)
    (rest : before.rest = word :: opening :: tokens ++ closing :: first ++ others) {post : Node → Parser → Prop}
    (ends : ∀ middle, before.Passes (word :: opening :: tokens ++ closing :: first) middle →
      Ensures (do
        if (← upcoming).kind = .elseWord then
          advance
          expect .leftBrace
          let alternative ← block expression
          return .conditional word test consequence alternative
        else return .conditional word test consequence .missing) middle post Exhausted) :
    Ensures (conditional expression) before post Exhausted := by
  have here : before.Passes [word] before := .current rest
  have text : before.rest = word :: opening :: (tokens ++ closing :: (first ++ others)) := by simpa using rest
  have current := Parser.current_of_rest rest
  have opened := Parser.upcoming_of_rest rest
  have place := Parser.advance_of_rest (Parser.advance_of_rest text)
  have begun := (Parser.Moves.advance before).trans (.advance _)
  rw [conditional, ensures_bind, ensures_current, ensures_bind, ensures_expect, opened, current]
  refine ⟨fun _ => ?_, fun wrong => absurd leftParen wrong⟩
  rw [ensures_bind, ensures_advance, ensures_bind]
  refine (lowest_complete complete derives (begun.legible legible) place (.of_kind rightParen (by decide))).imp
    (fun result middle ended => ?_) fun _ _ => id
  obtain ⟨rfl, passes⟩ := ended
  have next : middle.upcoming = closing := passes.upcoming_eq place
  have throughClosing := ((here.upcoming text).append passes).upcoming (by simpa using text)
  rw [ensures_bind, ensures_expect, next]
  refine ⟨fun _ => ?_, fun wrong => absurd rightParen wrong⟩
  refine expectBlock_complete complete yes (throughClosing.moves.legible legible) (passes.advance_rest place)
    fun after passes' => ends after ?_
  simpa using throughClosing.append passes'

theorem functionLiteral_complete {word opening closing : Token} {second : List Token} {nodes : List Node} {body : Node}
    (leftParen : opening.kind = .leftParen) (derives : Derives .parameters tokens (.sequence nodes))
    (rightParen : closing.kind = .rightParen) (block : Derives .block second body) (legible : before.Legible)
    (rest : before.rest = word :: opening :: tokens ++ closing :: second ++ others) :
    Ensures (functionLiteral expression) before (fun result after => result = .function word (.sequence nodes) body ∧
      before.Passes (word :: opening :: tokens ++ closing :: second) after) Exhausted := by
  have here : before.Passes [word] before := .current rest
  have text : before.rest = word :: opening :: (tokens ++ closing :: (second ++ others)) := by simpa using rest
  have current := Parser.current_of_rest rest
  have opened := Parser.upcoming_of_rest rest
  have place := Parser.advance_of_rest text
  have begun := Parser.Moves.advance before
  rw [functionLiteral, ensures_bind, ensures_current, ensures_bind, ensures_expect, opened, current]
  refine ⟨fun _ => ?_, fun wrong => absurd leftParen wrong⟩
  rw [ensures_bind]
  refine (parameters_complete derives place rightParen).imp (fun result middle ended => ?_) fun _ _ => id
  obtain ⟨rfl, passes⟩ := ended
  have throughClosing := here.append passes
  have place' : middle.rest = closing :: (second ++ others) := passes.rest_of_last place
  refine expectBlock_complete complete block (throughClosing.moves.legible legible) place' fun after passes' => ?_
  exact ⟨rfl, by simpa using throughClosing.append passes'⟩

omit complete in
/-- An operand is read and the operators after it are left to be read. -/
theorem level_of_operand {node : Node} {floor : Int} {post : Node → Parser → Prop}
    (operand_complete : Ensures (operand expression) before (fun result after =>
      result = node ∧ before.Passes tokens after) Exhausted)
    (goesOn : ∀ rounds after, before.Passes tokens after →
      Ensures (operators expression floor rounds node) after post Exhausted) :
    Ensures (Parse.level expression floor) before post Exhausted := by
  simp only [Parse.level, ensures_bind, ensures_get]
  refine operand_complete.imp (fun result after ended => ?_) fun _ _ => id
  obtain ⟨rfl, passes⟩ := ended
  exact goesOn _ after passes

omit complete in
theorem binary_of_mem {kind : Kind} {level : Nat} (ofLevel : kind ∈ Grammar.operators level) :
    level ≤ 3 ∧ kind.isBinary = true ∧ kind.precedence = level + 2 := by
  match level with
  | 0 | 1 | 2 | 3 =>
    simp only [Grammar.operators, List.mem_cons, List.not_mem_nil, or_false] at ofLevel
    rcases ofLevel with rfl | rfl <;> exact ⟨by decide, rfl, rfl⟩
  | _ + 4 => simp [Grammar.operators] at ofLevel

theorem binary_complete {level : Nat} {operator : Token} {left right : Node} (within : level ≤ 3)
    (precedence : operator.kind.precedence = level + 2) (derives : Derives (.expression (level + 1)) tokens right)
    (legible : before.Legible) (rest : before.rest = operator :: tokens ++ others)
    (follow : Closes (level + 2) (others.headD before.finish)) :
    Ensures (binary expression left) before (fun result after =>
      result = .binary operator left operator.literal right ∧ before.Passes (operator :: tokens) after) Exhausted := by
  have here : before.Passes [operator] before := .current rest
  have current := Parser.current_of_rest rest
  have place := Parser.advance_of_rest rest
  have begun := Parser.Moves.advance before
  have floor : (level : Int) + 2 = (level + 1 : Nat) + 1 := by omega
  simp only [binary, ensures_bind, ensures_current, ensures_advance, ensures_pure, current, precedence, floor]
  refine (complete.reads derives (level + 1) _ others (by omega) (by simp only [unaryLevel]; omega)
    (begun.legible legible) place (by rw [floor] at follow; exact follow)).imp (fun result after ended => ?_) fun _ _ => id
  obtain ⟨rfl, passes⟩ := ended
  exact ⟨rfl, here.append passes⟩

theorem unary_complete {operator : Token} {right : Node} (derives : Derives (.expression unaryLevel) tokens right)
    (legible : before.Legible) (rest : before.rest = operator :: tokens ++ others)
    (follow : Closes 6 (others.headD before.finish)) :
    Ensures (unary expression) before (fun result after =>
      result = .unary operator operator.literal right ∧ before.Passes (operator :: tokens) after) Exhausted := by
  have here : before.Passes [operator] before := .current rest
  have current := Parser.current_of_rest rest
  have place := Parser.advance_of_rest rest
  have begun := Parser.Moves.advance before
  simp only [unary, ensures_bind, ensures_current, ensures_advance, ensures_pure, current]
  refine (complete.reads derives 5 _ others (by omega) (by decide) (begun.legible legible) place follow).imp
    (fun result after ended => ?_) fun _ _ => id
  obtain ⟨rfl, passes⟩ := ended
  exact ⟨rfl, here.append passes⟩

/-- One round of the loop takes what is read so far as the left side of a binary operator. -/
theorem binary_round {level floor : Nat} {operator : Token} {first second : List Token} {left right : Node}
    (ofLevel : operator.kind ∈ Grammar.operators level) (tighter : floor < level + 1)
    (derives : Derives (.expression (level + 1)) second right) (legible : before.Legible)
    (rest : before.rest = first ++ (operator :: second ++ others)) (follow : Closes (level + 2) (others.headD before.finish))
    {middle : Parser} (passes : before.Passes first middle) {post : Node → Parser → Prop}
    (goesOn : ∀ rounds after, before.Passes (first ++ operator :: second) after →
      Ensures (operators expression (floor + 1) rounds (.binary operator left operator.literal right)) after post Exhausted)
    (rounds : Nat) : Ensures (operators expression (floor + 1) rounds left) middle post Exhausted := by
  cases rounds with
  | zero => rfl
  | succ rounds =>
    obtain ⟨small, isBinary, precedence⟩ := binary_of_mem ofLevel
    have next : middle.upcoming = operator := passes.upcoming_eq rest
    have binds : (floor : Int) + 1 < level + 2 := by omega
    have notCall : operator.kind ≠ .leftParen := fun same => by cases same ▸ isBinary
    have notSemicolon : operator.kind ≠ .semicolon := fun same => by cases same ▸ isBinary
    have legible' := (passes.moves.trans (.advance _)).legible legible
    have place := passes.advance_rest rest
    simp only [operators, ensures_bind, ensures_upcoming, ensures_ite, ensures_advance, next, notSemicolon, notCall,
      isBinary, precedence, binds, ne_eq, not_false_eq_true, true_and, true_implies, false_implies, not_true_eq_false,
      and_true]
    refine (binary_complete complete small precedence derives legible' place ?_).imp (fun result after ended => ?_)
      fun _ _ => id
    · exact passes.finish ▸ follow
    · obtain ⟨rfl, passes'⟩ := ended
      exact goesOn rounds after (passes.append passes')

theorem call_round {floor : Nat} {opening closing : Token} {first : List Token} {callee : Node} {nodes : List Node}
    (within : floor ≤ 5) (leftParen : opening.kind = .leftParen) (derives : Derives .arguments tokens (.sequence nodes))
    (rightParen : closing.kind = .rightParen) (legible : before.Legible)
    (rest : before.rest = first ++ (opening :: tokens ++ closing :: others)) {middle : Parser}
    (passes : before.Passes first middle) {post : Node → Parser → Prop}
    (goesOn : ∀ rounds after, before.Passes (first ++ opening :: tokens ++ [closing]) after →
      Ensures (operators expression (floor + 1) rounds (.call opening callee (.sequence nodes))) after post Exhausted)
    (rounds : Nat) : Ensures (operators expression (floor + 1) rounds callee) middle post Exhausted := by
  cases rounds with
  | zero => rfl
  | succ rounds =>
    have next : middle.upcoming = opening := passes.upcoming_eq rest
    have binds : (floor : Int) + 1 < 7 := by omega
    have legible' := (passes.moves.trans (.advance _)).legible legible
    have place := passes.advance_rest rest
    simp only [operators, ensures_bind, ensures_upcoming, ensures_ite, ensures_advance, next, leftParen, Kind.precedence,
      binds, ne_eq, reduceCtorEq, not_false_eq_true, true_implies, false_implies, not_true_eq_false, and_true]
    refine (call_complete complete callee derives legible' place rightParen).imp (fun result after ended => ?_)
      fun _ _ => id
    obtain ⟨rfl, passes'⟩ := ended
    exact goesOn rounds after (by simpa using passes.append passes')

/-- Without a second block a conditional ends on the brace of its first one. -/
theorem conditional_complete {word opening closing : Token} {first : List Token} {condition consequence : Node}
    (leftParen : opening.kind = .leftParen)
    (test : Derives (.expression 0) tokens condition) (rightParen : closing.kind = .rightParen)
    (yes : Derives .block first consequence) (legible : before.Legible)
    (rest : before.rest = word :: opening :: tokens ++ closing :: first ++ others)
    (notElse : (others.headD before.finish).kind ≠ .elseWord) :
    Ensures (conditional expression) before (fun result after =>
      result = .conditional word condition consequence .missing ∧
        before.Passes (word :: opening :: tokens ++ closing :: first) after) Exhausted := by
  refine consequence_complete complete leftParen test rightParen yes legible rest fun middle passes => ?_
  have next : middle.upcoming = others.headD before.finish := passes.upcoming_eq rest
  simp only [ensures_bind, ensures_upcoming, ensures_ite, ensures_pure, next]
  exact ⟨fun wrong => absurd wrong notElse, fun _ => by simpa using passes⟩

theorem alternative_complete {word opening closing other : Token} {first second : List Token}
    {condition consequence alternative : Node} (leftParen : opening.kind = .leftParen)
    (test : Derives (.expression 0) tokens condition) (rightParen : closing.kind = .rightParen)
    (yes : Derives .block first consequence) (elseWord : other.kind = .elseWord) (no : Derives .block second alternative)
    (legible : before.Legible)
    (rest : before.rest = word :: opening :: tokens ++ closing :: first ++ (other :: second ++ others)) :
    Ensures (conditional expression) before (fun result after =>
      result = .conditional word condition consequence alternative ∧
        before.Passes (word :: opening :: tokens ++ closing :: first ++ other :: second) after) Exhausted := by
  refine consequence_complete complete leftParen test rightParen yes legible rest fun middle passes => ?_
  have next : middle.upcoming = other := passes.upcoming_eq rest
  have throughElse := passes.upcoming rest
  rw [ensures_bind, ensures_upcoming, ensures_ite, next]
  refine ⟨fun _ => ?_, fun wrong => absurd elseWord wrong⟩
  refine expectBlock_complete complete no (throughElse.moves.legible legible) (passes.advance_rest rest)
    fun after passes' => ⟨rfl, ?_⟩
  simpa using throughElse.append passes'

/-- Once the tokens of an expression are read, its tree is the left side for whatever operators come next. The induction
is on the derivation: a left side is read by the same run of the loop, a right side one level down. -/
theorem level_reads {level : Nat} {node : Node} (derives : Derives (.expression level) tokens node) (floor : Nat)
    (within : floor ≤ 5) (above : min floor unaryLevel ≤ level) (legible : before.Legible)
    (rest : before.rest = tokens ++ others) (follow : Closes (level + 2) (others.headD before.finish))
    {post : Node → Parser → Prop} (goesOn : ∀ rounds after, before.Passes tokens after →
      Ensures (operators expression (floor + 1) rounds node) after post Exhausted) :
    Ensures (Parse.level expression (floor + 1)) before post Exhausted := by
  have current {token : Token} {others : List Token} (rest : before.rest = token :: others) : before.current = token :=
    Parser.current_of_rest rest
  generalize phrase : Phrase.expression level = kind at derives
  induction derives generalizing level others post with
  | looser _ ih =>
    cases phrase
    exact ih (by omega) rest (follow.mono (by push_cast; omega)) goesOn rfl
  | @binary level operator first second left right _ ofLevel rightSide ih _ =>
    cases phrase
    obtain ⟨small, isBinary, precedence⟩ := binary_of_mem ofLevel
    rw [List.append_assoc] at rest
    refine ih above rest ⟨Int.le_of_eq precedence, fun same => by cases same ▸ isBinary⟩ ?_ rfl
    intro rounds middle passes
    have tighter : floor < level + 1 := by simp only [unaryLevel] at above; omega
    exact binary_round complete ofLevel tighter rightSide legible rest follow passes goesOn rounds
  | @call opening closing first tokens callee nodes _ leftParen arguments rightParen ih _ =>
    cases phrase
    have text : before.rest = first ++ (opening :: tokens ++ closing :: others) := by simpa using rest
    refine ih above text (.of_kind leftParen (by decide)) ?_ rfl
    intro rounds middle passes
    exact call_round complete within leftParen arguments rightParen legible text passes goesOn rounds
  | @unary operator tokens right sign derives =>
    cases phrase
    refine level_of_operand ?_ goesOn
    simp only [operand, ensures_bind, ensures_current, current rest]
    rcases sign with kind | kind
    all_goals
      rw [kind]
      exact unary_complete complete derives legible rest follow
  | @identifier token kind =>
    refine level_of_operand ?_ goesOn
    simp only [operand, ensures_bind, ensures_current, current rest, kind]
    rw [ensures_identifier, current rest]
    exact ⟨rfl, .current rest⟩
  | @integer token kind inRange =>
    refine level_of_operand ?_ goesOn
    have plain := legible.numerals token (by simp [rest]) kind
    simp only [operand, ensures_bind, ensures_current, current rest, kind, integer, Numeral.read_plain plain, ensures_ite,
      ensures_pure, ensures_unreadable]
    exact ⟨fun tooGreat => absurd inRange (Int.not_le.mpr tooGreat), fun _ => by simpa using .current rest⟩
  | @trueLiteral token kind | @falseLiteral token kind =>
    refine level_of_operand ?_ goesOn
    simp only [operand, ensures_bind, ensures_current, current rest, kind]
    rw [ensures_boolean, current rest, kind]
    exact ⟨rfl, .current rest⟩
  | @grouped opening closing tokens node leftParen inner rightParen _ =>
    refine level_of_operand ?_ goesOn
    simp only [operand, ensures_bind, ensures_current, current rest, leftParen]
    exact grouped_complete complete inner legible (by simpa using rest) rightParen
  | @conditional word opening closing tokens first condition consequence ifWord leftParen test rightParen yes _ _ =>
    refine level_of_operand ?_ goesOn
    simp only [operand, ensures_bind, ensures_current, current rest, ifWord]
    exact conditional_complete complete leftParen test rightParen yes legible rest follow.notElse
  | @alternative word opening closing other tokens first second condition consequence alternative ifWord leftParen test
      rightParen yes elseWord no _ _ _ =>
    refine level_of_operand ?_ goesOn
    simp only [operand, ensures_bind, ensures_current, current rest, ifWord]
    exact alternative_complete complete leftParen test rightParen yes elseWord no legible (by simpa using rest)
  | @function word opening closing tokens second nodes body functionWord leftParen parameters rightParen block _ _ =>
    refine level_of_operand ?_ goesOn
    simp only [operand, ensures_bind, ensures_current, current rest, functionWord]
    exact functionLiteral_complete complete leftParen parameters rightParen block legible (by simpa using rest)
  | _ => cases phrase

theorem level_complete : Complete (Parse.level expression) where
  reads derives floor before others within above legible rest follow := by
    refine level_reads complete derives floor within above legible rest (follow.mono ?_) ?_
    · simp only [unaryLevel] at above
      omega
    · rintro (_ | rounds) after passes
      · rfl
      · have next := passes.upcoming_eq rest
        have bound := follow.precedence
        simp only [operators, ensures_bind, ensures_upcoming, ensures_ite, ensures_pure, next]
        exact ⟨fun tighter => absurd tighter.2 (Int.not_lt.mpr bound), fun _ => by simpa using passes⟩

end Levels

theorem expression_complete (limit : Nat) : Complete (expression limit) := by
  induction limit with
  | zero => exact ⟨fun _ _ _ _ _ _ _ _ _ => rfl⟩
  | succ limit ih => exact level_complete ih

theorem program_complete {node : Node} (limit : Nat) (derives : Derives .program before.rest node)
    (legible : before.Legible) : Ensures (program limit) before (fun result after =>
      result = node ∧ after.errors = before.errors) Exhausted := by
  generalize same : before.rest = tokens at derives
  cases derives with
  | program derives =>
    simp only [program, statements, ensures_bind, ensures_get, ensures_pure]
    have whole : before.rest = tokens ++ [] := by rw [same, List.append_nil]
    refine (moreStatements_complete (expression_complete limit) _ [] derives legible whole
      legible.finish (.inr rfl)).imp (fun result after ended => ?_) fun _ _ => id
    obtain ⟨rfl, _, _, errors⟩ := ended
    exact ⟨rfl, errors⟩

end Parse

end MonkeyLang
