import MonkeyLang.Proofs.LayoutIndependence
import MonkeyLang.Proofs.ParsingScripts

/-! Where statements begin. However tokens are malformed, each statement that is called for begins on a token of its own, at
whatever depth and whether it is read or skipped. What is reported and what is read in the end are no more than those. -/

namespace MonkeyLang

/-- Places in the tokens, each given by what is left there: one behind the other, with what is left in the end behind all. -/
structure Descending (tokens : List Token) (starts : List (List Token)) (left : List Token) : Prop where
  within : ∀ start ∈ starts, start ≠ [] ∧ start <:+ tokens
  apart : starts.Pairwise fun earlier later => later <:+ earlier.tail
  passed : ∀ start ∈ starts, left <:+ start.tail

namespace Descending

variable {tokens more left last : List Token} {starts others : List (List Token)}

theorem nil (tokens left : List Token) : Descending tokens [] left :=
  ⟨List.forall_mem_nil _, .nil, List.forall_mem_nil _⟩

theorem mono (first : Descending tokens starts left) (further : last <:+ left) : Descending tokens starts last :=
  ⟨first.within, first.apart, fun start member => further.trans (first.passed start member)⟩

theorem append (first : Descending tokens starts left) (second : Descending more others last) (inside : more <:+ tokens)
    (further : more <:+ left) (ends : last <:+ left) : Descending tokens (starts ++ others) last where
  within := List.forall_mem_append.mpr ⟨first.within, fun start member =>
    ⟨(second.within start member).1, (second.within start member).2.trans inside⟩⟩
  apart := List.pairwise_append.mpr ⟨first.apart, second.apart, fun earlier before later behind =>
    ((second.within later behind).2.trans further).trans (first.passed earlier before)⟩
  passed := List.forall_mem_append.mpr ⟨(first.mono ends).passed, second.passed⟩

/-- A place with others behind it. -/
theorem cons (some : tokens ≠ []) (behind : Descending tokens.tail starts left) (ends : left <:+ tokens.tail) :
    Descending tokens (tokens :: starts) left where
  within := List.forall_mem_cons.mpr ⟨⟨some, List.suffix_refl _⟩, fun start member =>
    ⟨(behind.within start member).1, (behind.within start member).2.trans (List.tail_suffix _)⟩⟩
  apart := List.pairwise_cons.mpr ⟨fun start member => (behind.within start member).2, behind.apart⟩
  passed := List.forall_mem_cons.mpr ⟨ends, behind.passed⟩

/-- There is a token for each of the places. -/
theorem length_le (places : Descending tokens starts left) : starts.length ≤ tokens.length := by
  induction starts generalizing tokens with
  | nil => exact Nat.zero_le _
  | cons start starts ih =>
    obtain ⟨⟨some, inside⟩, others⟩ := List.forall_mem_cons.mp places.within
    obtain ⟨behind, apart⟩ := List.pairwise_cons.mp places.apart
    have later : Descending start.tail starts left :=
      ⟨fun start member => ⟨(others start member).1, behind start member⟩, apart, (List.forall_mem_cons.mp places.passed).2⟩
    have fewer := ih later
    have shorter := inside.length_le
    have positive := List.length_pos_iff.mpr some
    rw [List.length_tail] at fewer
    rw [List.length_cons]
    omega

end Descending

/-- From one state to a later one statements begin at those places in the tokens. The errors that are added and the
statements that are kept beyond those held before are no more than they. -/
structure Parser.Accounts (tokens : List Token) (before : Parser) (held : Nat) (starts : List (List Token)) (kept : Nat)
    (after : Parser) : Prop where
  moves : before.Moves after
  places : Descending tokens starts after.rest
  counted : kept + after.errors.length ≤ held + before.errors.length + starts.length

namespace Parser.Accounts

variable {tokens more : List Token} {first second third : Parser} {held middle kept : Nat} {starts others : List (List Token)}

theorem stay (tokens : List Token) (parser : Parser) (fits : kept ≤ held) : Accounts tokens parser held [] kept parser where
  moves := .refl parser
  places := .nil _ _
  counted := by
    rw [List.length_nil]
    omega

theorem trans (earlier : Accounts tokens first held starts middle second)
    (later : Accounts more second middle others kept third) (inside : more <:+ tokens) (further : more <:+ second.rest) :
    Accounts tokens first held (starts ++ others) kept third where
  moves := earlier.moves.trans later.moves
  places := earlier.places.append later.places inside further later.moves.rest
  counted := by
    have before := earlier.counted
    have behind := later.counted
    rw [List.length_append]
    omega

theorem keeps (accounts : Accounts tokens first held starts middle second) (fewer : kept ≤ middle) :
    Accounts tokens first held starts kept second :=
  ⟨accounts.moves, accounts.places, (Nat.add_le_add_right fewer _).trans accounts.counted⟩

end Parser.Accounts

namespace Parse

open MonkeyLang.Parser

variable {α : Type} {step : Parse α} {yields : α → Nat} {tokens more : List Token} {before first second : Parser}
  {held kept middle : Nat} {starts others : List (List Token)}

/-- Where a step stops, the statements that it read are lost. -/
def Drops (tokens : List Token) (before : Parser) (held : Nat) (starts : List (List Token)) : Failure → Parser → Prop
  | .unreadable _, after => Accounts tokens before held starts 0 after
  | .fault _, _ => Descending tokens starts []

/-- Statements begin at those places in the tokens, whatever becomes of the step. -/
def Begins (tokens : List Token) (step : Parse α) (before : Parser) (held : Nat) (yields : α → Nat)
    (starts : List (List Token)) : Prop :=
  Ensures step before (fun value after => Accounts tokens before held starts (yields value) after)
    (Drops tokens before held starts)

theorem Begins.places (begins : Begins tokens step before held yields starts) : ∃ left, Descending tokens starts left := by
  obtain ⟨value, after, -, accounts⟩ | ⟨failure, after, -, drops⟩ := Ensures.ends begins
  · exact ⟨_, accounts.places⟩
  · cases failure with
    | unreadable error => exact ⟨_, drops.places⟩
    | fault cause => exact ⟨_, drops⟩

/-- A step begins its statements behind those of the step in front of it. -/
theorem Begins.behind (later : Begins more step second middle yields others)
    (earlier : Accounts tokens first held starts middle second) (inside : more <:+ tokens) (further : more <:+ second.rest) :
    Ensures step second (fun value after => Accounts tokens first held (starts ++ others) (yields value) after)
      (Drops tokens first held (starts ++ others)) := by
  refine later.imp (fun _ _ accounts => earlier.trans accounts inside further) fun failure after stops => ?_
  cases failure with
  | unreadable error => exact earlier.trans stops inside further
  | fault cause => exact earlier.places.append stops inside further List.nil_suffix

section Rounds

variable {expression : Int → Parse Node} {inner : Parser → List (List Token)}
  (body : ∀ before : Parser, before.Ready →
    Begins before.rest.tail (statement expression) before 0 (fun node => 0 + node.statements) (inner before))
include body

theorem begins_round (terminator : Kind) (held : Nat) (ready : before.Ready) (other : before.current.kind ≠ terminator)
    (more : before.current.kind ≠ .endOfInput) :
    Ensures (recovering terminator (do let node ← statement expression; advance; return node)) before
      (fun node after => Accounts before.rest before held (before.rest :: inner before)
        (held + node.elim 0 (fun node => node.statements + 1)) after)
      (fun failure _ => (∃ cause, failure = .fault cause) ∧ Descending before.rest (before.rest :: inner before) []) := by
  obtain ⟨others, rest⟩ := ready.rest_of_current more
  have some : before.rest ≠ [] := by simp [rest]
  simp only [ensures_recovering, ensures_bind, ensures_advance, ensures_pure]
  refine (body before ready).imp (fun node stopped passes => ?_) fun failure stopped stops => ?_
  · refine ⟨passes.moves.trans (.advance stopped), ?_, ?_⟩
    · exact .cons some (passes.places.mono (List.tail_suffix _)) passes.moves.tail
    · have counted := passes.counted
      simp only [Option.elim_some, Parser.advance, List.length_cons, Nat.zero_add] at counted ⊢
      omega
  · cases failure with
    | fault cause => exact ⟨⟨cause, rfl⟩, .cons some stops List.nil_suffix⟩
    | unreadable error =>
      have skipped := Moves.synchronize (stopped.record error) terminator
      refine ⟨(stops.moves.trans (.record stopped error)).trans skipped, ?_, ?_⟩
      · exact .cons some (stops.places.mono skipped.rest) (stops.moves.skips ready other more)
      · have counted := stops.counted
        simp only [Option.elim_none, Parser.synchronize, Parser.record, List.length_cons, List.length_append, List.length_nil]
        omega

theorem begins_rounds (terminator : Kind) (rounds : Nat) (read : List Node)
    (fits : kept + (read.length + Node.statementsOfAll read) ≤ held) (ready : before.Ready) :
    Begins before.rest (moreStatements expression terminator rounds read) before held
      (fun nodes => kept + (nodes.length + Node.statementsOfAll nodes))
      (roundStarts expression terminator inner rounds before) := by
  induction rounds generalizing read held before with
  | zero => exact .nil _ _
  | succ rounds ih =>
    rw [Begins, moreStatements, ensures_bind, ensures_current, ensures_ite]
    refine ⟨fun ended => ?_, fun goesOn => ?_⟩
    · rw [ensures_pure, roundStarts, if_pos ended, List.length_reverse, Node.statementsOfAll_reverse]
      exact .stay _ _ fits
    · obtain ⟨other, more⟩ : before.current.kind ≠ terminator ∧ before.current.kind ≠ .endOfInput := by
        simpa only [Bool.or_eq_true, decide_eq_true_eq, not_or] using goesOn
      rw [ensures_bind]
      obtain ⟨node, next, ends, round⟩ | ⟨failure, next, ends, ⟨cause, rfl⟩, stops⟩ :=
        (begins_round body terminator held ready other more).ends
      · have starts : roundStarts expression terminator inner (rounds + 1) before =
            (before.rest :: inner before) ++ roundStarts expression terminator inner rounds next := by
          rw [roundStarts, if_neg goesOn, ends, List.cons_append]
        rw [starts, Ensures, ends]
        -- a malformed statement leaves what was read as it is, any other one is put to it
        cases node with
        | none => exact (ih read fits (round.moves.ready ready)).behind round round.moves.rest (List.suffix_refl _)
        | some node =>
          have fits : kept + ((node :: read).length + Node.statementsOfAll (node :: read)) ≤ held + (node.statements + 1) := by
            rw [List.length_cons, Node.statementsOfAll]
            omega
          exact (ih (node :: read) fits (round.moves.ready ready)).behind round round.moves.rest (List.suffix_refl _)
      · have starts : roundStarts expression terminator inner (rounds + 1) before = before.rest :: inner before := by
          rw [roundStarts, if_neg goesOn, ends, List.append_nil]
        rw [starts, Ensures, ends]
        exact stops

theorem begins_block (held : Nat) (ready : before.Ready) :
    Begins before.rest.tail (block expression) before held (fun node => held + node.statements)
      (listStarts expression .rightBrace inner before.advance) := by
  have begun := Moves.advance before
  have opened : Accounts before.rest.tail before held [] held before.advance := ⟨begun, .nil _ _, Nat.le_refl _⟩
  have rounds := begins_rounds body .rightBrace (before.advance.rest.length + 1) [] (Nat.le_refl held) (begun.ready ready)
  simp only [Begins, block, statements, ensures_bind, ensures_current, ensures_advance, ensures_get, ensures_ite,
    ensures_pure, ensures_unreadable, Node.statements, Node.listed]
  refine (rounds.behind opened (List.suffix_refl _) (List.suffix_refl _)).imp (fun nodes after whole => ?_) fun _ _ => id
  exact ⟨fun _ => whole, fun _ => whole.keeps (Nat.zero_le _)⟩

end Rounds

/-- The statements of a script begin one behind the other. -/
theorem Script.begins {α : Type} {step : Parse α} {held : Nat} {yields : α → Nat} (script : Script step held yields)
    (ready : before.Ready) : Begins before.rest.tail step before held yields (script.starts before) := by
  induction script generalizing before with
  | pure value kept => exact .stay _ _ kept
  | get => exact .stay _ _ (Nat.le_refl _)
  | advance => exact ⟨.advance before, .nil _ _, Nat.le_refl _⟩
  | unreadable error => exact .stay _ _ (Nat.zero_le _)
  | fault cause => exact .nil _ _
  | @bind α β step next held passes yields first later ih ihLater =>
    rw [Begins, ensures_bind]
    obtain ⟨value, middle, ends, passes⟩ | ⟨failure, middle, ends, stops⟩ := (ih ready).ends
    · have starts : (Script.bind first later).starts before = first.starts before ++ (later value).starts middle := by
        rw [Script.starts, ends]
      rw [starts, Ensures, ends]
      exact (ihLater value (passes.moves.ready ready)).behind passes passes.moves.tail (List.tail_suffix _)
    · have starts : (Script.bind first later).starts before = first.starts before := by
        rw [Script.starts, ends, List.append_nil]
      rw [starts, Ensures, ends]
      exact stops
  | ite condition first second ih ih' =>
    rw [Script.starts]
    split
    · exact ih ready
    · exact ih' ready
  | block body ih => exact begins_block (fun before ready => ih ready) _ ready

end Parse

namespace Parsed

variable {tokens : List Token}

theorem program_begins (limit : Nat) (tokens : List Token) :
    Parse.Begins (Token.upToFinish tokens) (Parse.program limit) (.ofTokens tokens) 0 Node.statements
      (statementStarts limit tokens) := by
  have rounds := Parse.begins_rounds (fun _ ready => (Parse.Script.listed limit).begins ready) .endOfInput
    ((Parser.ofTokens tokens).rest.length + 1) [] (Nat.le_refl 0) (Parser.ofTokens_ready tokens)
  simp only [Parse.Begins, Parse.program, Parse.statements, Parse.ensures_bind, Parse.ensures_get, Parse.ensures_pure,
    Node.statements, Node.listed]
  exact rounds.imp (fun nodes _ whole => whole.keeps (Nat.zero_add _).ge) fun _ _ => id

/-- Each statement that is called for begins on a token of its own in front of the end of input, the later one further on.
So their number is no greater than that of the tokens; and no greater than their number is that of the errors and of the
statements in all lists of the program that is read. It is read at every limit above the number of tokens. -/
theorem statements_begin_apart
    (numerals : ∀ token ∈ Token.upToFinish tokens, token.kind = .integer → Numeral.Plain token.literal) (limit : Nat) :
    (∀ start ∈ statementStarts limit tokens, start ≠ [] ∧ start <:+ Token.upToFinish tokens) ∧
    (statementStarts limit tokens).Pairwise (fun earlier later => later <:+ earlier.tail) ∧
    (statementStarts limit tokens).length ≤ (Token.upToFinish tokens).length ∧
    (¬(ofTokens limit tokens).Exhausted → ∃ program, (ofTokens limit tokens).result = .ok program ∧
      (ofTokens limit tokens).errors.length + program.statements ≤ (statementStarts limit tokens).length) ∧
    ((Token.upToFinish tokens).length < limit → ¬(ofTokens limit tokens).Exhausted) := by
  obtain ⟨left, places⟩ := (program_begins limit tokens).places
  refine ⟨places.within, places.apart, places.length_le, fun completed => ?_, not_exhausted⟩
  obtain ⟨program, read⟩ := program_of_plain numerals completed
  rcases of_ensures (program_begins limit tokens) with ⟨program', after, parsed, accounts⟩ | ⟨failure, after, parsed, -⟩
  · rw [parsed] at read ⊢
    obtain rfl := Except.ok.inj read
    have counted := accounts.counted
    refine ⟨program', rfl, ?_⟩
    simpa only [Parser.ofTokens, List.length_nil, Nat.zero_add, Nat.add_comm] using counted
  · rw [parsed] at read
    cases read

/-- The tokens of `if (x) { let } ) 5 }`, and one that comes too late. -/
def brokenBlock : List Token :=
  [⟨.ifWord, "if", ⟨1, 1⟩⟩, ⟨.leftParen, "(", ⟨1, 4⟩⟩, ⟨.identifier, "x", ⟨1, 5⟩⟩, ⟨.rightParen, ")", ⟨1, 6⟩⟩,
    ⟨.leftBrace, "\x7b", ⟨1, 8⟩⟩, ⟨.letWord, "let", ⟨1, 10⟩⟩, ⟨.rightBrace, "\x7d", ⟨1, 14⟩⟩,
    ⟨.rightParen, ")", ⟨1, 16⟩⟩, ⟨.integer, "5", ⟨1, 18⟩⟩, ⟨.rightBrace, "\x7d", ⟨1, 20⟩⟩, .endAt ⟨1, 21⟩,
    ⟨.letWord, "let", ⟨1, 21⟩⟩]

/-- A statement, the malformed one in its block and the malformed one behind it. -/
theorem brokenBlock_begins :
    (∀ token ∈ Token.upToFinish brokenBlock, token.kind = .integer → Numeral.Plain token.literal) ∧
    (statementStarts 11 brokenBlock).map List.length = [10, 5, 3] ∧
    (ofTokens 11 brokenBlock).errors.map (·.token.position) = [⟨1, 14⟩, ⟨1, 16⟩] ∧
    ∃ program, (ofTokens 11 brokenBlock).result = .ok program ∧ 2 + program.statements ≤ 3 := by
  have numerals : ∀ token ∈ Token.upToFinish brokenBlock, token.kind = .integer → Numeral.Plain token.literal := by
    intro token member kind
    have digits : token = ⟨.integer, "5", ⟨1, 18⟩⟩ := by
      revert token
      decide
    subst digits
    exact ⟨by decide, List.forall_mem_singleton.mpr (by decide), by decide⟩
  have starts : (statementStarts 11 brokenBlock).map List.length = [10, 5, 3] := by decide +kernel
  have errors : (ofTokens 11 brokenBlock).errors.map (·.token.position) = [⟨1, 14⟩, ⟨1, 16⟩] := by cbv
  obtain ⟨-, -, -, counted, completed⟩ := statements_begin_apart numerals 11
  obtain ⟨program, read, fewer⟩ := counted (completed (by decide))
  have three : (statementStarts 11 brokenBlock).length = 3 := by simpa using congrArg List.length starts
  have two : (ofTokens 11 brokenBlock).errors.length = 2 := by simpa using congrArg List.length errors
  exact ⟨numerals, starts, errors, program, read, two ▸ three ▸ fewer⟩

end Parsed

end MonkeyLang
