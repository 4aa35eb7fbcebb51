import Mathlib.Data.List.Nodup
import MonkeyLang.Proofs.BraceNesting
import MonkeyLang.Proofs.ParsingMotion

/-! Where parsing stops among the braces. What a step reads is balanced, and a statement fails outside of all the braces
that it opened. There is one exception: where a parenthesis should close right behind a block, the closing brace of the
block is read already and still the current token, so that recovery takes it for open. Every slip of this kind makes the
blocks around it end one brace early. -/

namespace MonkeyLang

open Nesting

/-- The kinds that leave the depth of braces as it is, apart from the end of input. -/
def Kind.Flat (kind : Kind) : Prop := kind ≠ .leftBrace ∧ kind ≠ .rightBrace ∧ kind ≠ .endOfInput

/-- The error is about a missing parenthesis right behind a closing brace of the text. -/
def SyntaxError.Behind (text : List Token) (error : SyntaxError) : Prop :=
  ∃ front brace found back, text = front ++ brace :: found :: back ∧ brace.kind = .rightBrace ∧
    error = .expected .rightParen found

namespace Parser

def text (parser : Parser) : List Token := parser.rest ++ [parser.finish]

structure Inside (text : List Token) (parser : Parser) : Prop extends parser.Ready where
  suffix : parser.text <:+ text

/-- None of the errors recorded on the way is about a missing parenthesis right behind a brace. -/
def Quiet (text : List Token) (before after : Parser) : Prop :=
  ∀ error ∈ after.errors.drop before.errors.length, ¬error.Behind text

/-- The tokens up to the current one of the second state open that many braces more than they close. -/
def Descends (before : Parser) (depth : Nat) (after : Parser) : Prop :=
  ∃ read, before.rest = read ++ after.rest ∧ through 0 read = some depth

/-- As many slips as braces are left open. There are none without an error behind a brace; and an error shows where it
belongs as long as no token of the text is repeated. -/
structure Slips (text : List Token) (before after : Parser) (count : Nat) : Prop where
  none : before.Quiet text after → count = 0
  quiet : text.Nodup → count = 0 → before.Quiet text after

/-- A list of statements goes on outside of its braces but for the slips, unless the input is at its end. -/
def Surfaces (text : List Token) (before after : Parser) : Prop :=
  ∃ depth, before.Descends depth after ∧ (before.Slips text after depth ∨ after.rest = [])

def StopsIn (text : List Token) (before : Parser) : Failure → Parser → Prop
  | .unreadable error, after => before.Moves after ∧ before.Surfaces text (after.record error)
  | .fault _, _ => True

/-- What is read from the first state on, the current token of the second one included, is balanced but for the slips. -/
structure Upto (text : List Token) (before after : Parser) : Prop where
  inside : after.Inside text
  moves : before.Moves after
  more : after.current.kind ≠ .endOfInput
  opens : after.current.kind ≠ .leftBrace
  closed : ∃ depth count, before.Descends depth after ∧ step depth after.current = some count ∧
    before.Slips text after count

variable {text : List Token} {first second third : Parser} {depth next : Nat} {error : SyntaxError}

theorem Inside.moves (inside : first.Inside text) (moves : first.Moves second) : second.Inside text where
  toReady := moves.ready inside.toReady
  suffix := by
    obtain ⟨read, rest⟩ := moves.rest
    refine List.IsSuffix.trans ⟨read, ?_⟩ inside.suffix
    rw [Parser.text, Parser.text, moves.finish, ← rest, List.append_assoc]

theorem Inside.advance (inside : first.Inside text) : first.advance.Inside text := inside.moves (.advance _)

/-- The current token and the next one stand side by side in the text. -/
theorem Inside.split (inside : first.Inside text) (more : first.current.kind ≠ .endOfInput) :
    ∃ front back, text = front ++ first.current :: first.upcoming :: back := by
  obtain ⟨others, rest⟩ := inside.rest_of_current more
  obtain ⟨front, whole⟩ := inside.suffix
  rw [Parser.text, rest] at whole
  rw [upcoming, rest, ← whole]
  cases others with
  | nil => exact ⟨front, [], rfl⟩
  | cons token others => exact ⟨front, others ++ [first.finish], rfl⟩

theorem Inside.behind (inside : first.Inside text) (closing : first.current.kind = .rightBrace) :
    (SyntaxError.expected .rightParen first.upcoming).Behind text := by
  obtain ⟨front, back, split⟩ := inside.split (by simp [closing])
  exact ⟨front, first.current, first.upcoming, back, split, closing, rfl⟩

/-- Without repetition the token that is found tells the token in front of it. -/
theorem Inside.not_behind {kind : Kind} (inside : first.Inside text) (distinct : text.Nodup)
    (more : first.current.kind ≠ .endOfInput) (other : first.current.kind ≠ .rightBrace) :
    ¬(SyntaxError.expected kind first.upcoming).Behind text := by
  rintro ⟨front, brace, found, back, split, closing, same⟩
  obtain ⟨-, rfl⟩ := SyntaxError.expected.inj same
  obtain ⟨front', back', split'⟩ := inside.split more
  have whole : (front ++ [brace]) ++ first.upcoming :: back = (front' ++ [first.current]) ++ first.upcoming :: back' := by
    simp only [List.append_assoc, List.singleton_append, ← split, ← split']
  have apart : ((front ++ [brace]) ++ first.upcoming :: back).Nodup := by
    simpa only [List.append_assoc, List.singleton_append, ← split] using distinct
  have fresh := (List.nodup_cons.mp (List.nodup_middle.mp apart)).1
  have notBefore := mt (List.mem_append_left back) fresh
  have notBehind := mt (List.mem_append_right (front ++ [brace])) fresh
  obtain ⟨before, -, -⟩ := (List.append_cons_inj_of_notMem notBefore notBehind).mp whole
  obtain rfl := List.singleton_inj.mp (List.append_inj' before rfl).2
  exact other closing

theorem quiet_iff (earlier : first.Moves second) (later : second.Moves third) :
    first.Quiet text third ↔ first.Quiet text second ∧ second.Quiet text third := by
  obtain ⟨errors, recorded⟩ := earlier.errors
  obtain ⟨others, recorded'⟩ := later.errors
  unfold Quiet
  rw [← recorded', List.drop_left, ← recorded, List.append_assoc, List.drop_left, List.drop_left, List.forall_mem_append]

theorem quiet_record : first.Quiet text (first.record error) ↔ ¬error.Behind text := by
  simp [Quiet, record]

theorem Slips.silent (same : second.errors = first.errors) : first.Slips text second 0 where
  none _ := rfl
  quiet _ _ := by simp [Quiet, same]

theorem Slips.trans (earlier : first.Slips text second depth) (later : second.Slips text third next)
    (moves : first.Moves second) (moves' : second.Moves third) : first.Slips text third (next + depth) where
  none quiet := by
    obtain ⟨front, back⟩ := (quiet_iff moves moves').mp quiet
    rw [earlier.none front, later.none back]
  quiet distinct none := by
    obtain ⟨back, front⟩ := Nat.add_eq_zero_iff.mp none
    exact (quiet_iff moves moves').mpr ⟨earlier.quiet distinct front, later.quiet distinct back⟩

theorem Descends.refl (parser : Parser) : parser.Descends 0 parser := ⟨[], rfl, rfl⟩

theorem Descends.trans (earlier : first.Descends depth second) (later : second.Descends next third) :
    first.Descends (next + depth) third := by
  obtain ⟨read, rest, ends⟩ := earlier
  obtain ⟨more, rest', ends'⟩ := later
  refine ⟨read ++ more, by rw [rest, rest', List.append_assoc], ?_⟩
  rw [through_append, ends]
  simpa using through_add depth ends'

theorem Descends.advance (descends : first.Descends depth second) (ready : second.Ready)
    (more : second.current.kind ≠ .endOfInput) (stepped : step depth second.current = some next) :
    first.Descends next second.advance := by
  obtain ⟨read, rest, ends⟩ := descends
  obtain ⟨others, start⟩ := ready.rest_of_current more
  refine ⟨read ++ [second.current], ?_, ?_⟩
  · rw [rest, Parser.advance, start]
    simp
  · rw [through_append, ends]
    simp [through_cons, stepped]

theorem Descends.unique (one : first.Descends depth second) (other : first.Descends next second) : depth = next := by
  obtain ⟨read, rest, ends⟩ := one
  obtain ⟨read', rest', ends'⟩ := other
  obtain rfl := List.append_cancel_right (rest.symm.trans rest')
  exact Option.some.inj (ends.symm.trans ends')

theorem Surfaces.trans (earlier : first.Surfaces text second) (later : second.Surfaces text third)
    (moves : first.Moves second) (moves' : second.Moves third) : first.Surfaces text third := by
  obtain ⟨depth, descends, slips | ended⟩ := earlier
  · obtain ⟨next, descends', slips' | ended⟩ := later
    · exact ⟨next + depth, descends.trans descends', .inl (slips.trans slips' moves moves')⟩
    · exact ⟨next + depth, descends.trans descends', .inr ended⟩
  · have none : third.rest = [] := List.suffix_nil.mp (ended ▸ moves'.rest)
    obtain ⟨read, rest, ends⟩ := descends
    exact ⟨depth, ⟨read, by rw [rest, ended, none], ends⟩, .inr none⟩

/-- Recovery inside a block passes over balanced braces. -/
theorem Surfaces.synchronize (ready : first.Ready) : first.Surfaces text (first.synchronize .rightBrace) := by
  have slips : first.Slips text (first.synchronize .rightBrace) 0 := .silent rfl
  generalize landing : Recovery.skip .rightBrace 0 first.rest = others
  have lands : Recovery.Lands .rightBrace 0 first.rest others := landing ▸ Recovery.skip_lands (.inl rfl) ready.rest
  have place : (first.synchronize .rightBrace).rest = others := landing
  cases lands with
  | @semicolon skipped token _ split ends unended kind =>
    refine ⟨0, ⟨skipped ++ [token], ?_, ?_⟩, .inl slips⟩
    · rw [split, place, List.append_assoc]
      rfl
    · rw [through_append, ends]
      simp [through_cons, step_flat, kind]
  | block split ends unended kind inside => exact ⟨0, ⟨_, place ▸ split, ends⟩, .inl slips⟩
  | stray split ends unended kind outside => cases outside
  | @finish last ends unended => exact ⟨last, ⟨first.rest, by rw [place, List.append_nil], ends⟩, .inr place⟩

theorem StopsIn.unreadable (other : ¬error.Behind text) : first.StopsIn text (.unreadable error) first :=
  ⟨.refl _, 0, .refl _, .inl ⟨fun _ => rfl, fun _ _ => quiet_record.mpr other⟩⟩

namespace Upto

theorem current (inside : first.Inside text) (flat : first.current.kind.Flat) : first.Upto text first where
  inside := inside
  moves := .refl _
  more := flat.2.2
  opens := flat.1
  closed := ⟨0, 0, .refl _, step_flat 0 flat.1 flat.2.1, .silent rfl⟩

variable (upto : first.Upto text second)
include upto

theorem surfaces : ∃ count, first.Descends count second.advance ∧ first.Slips text second.advance count := by
  obtain ⟨depth, count, descends, stepped, slips⟩ := upto.closed
  exact ⟨count, descends.advance upto.inside.toReady upto.more stepped, slips.none, slips.quiet⟩

theorem append (later : second.advance.Upto text third) : first.Upto text third where
  inside := later.inside
  moves := (upto.moves.trans (.advance _)).trans later.moves
  more := later.more
  opens := later.opens
  closed := by
    obtain ⟨count, descends, slips⟩ := upto.surfaces
    obtain ⟨depth, next, descends', stepped, slips'⟩ := later.closed
    exact ⟨depth + count, next + count, descends.trans descends', step_add count stepped,
      slips.trans slips' (upto.moves.trans (.advance _)) later.moves⟩

theorem upcoming (flat : second.upcoming.kind.Flat) : first.Upto text second.advance :=
  upto.append (.current upto.inside.advance flat)

theorem stops {failure : Failure} (stops : second.advance.StopsIn text failure third) :
    first.StopsIn text failure third := by
  cases failure with
  | fault _ => trivial
  | unreadable error =>
    have moves := upto.moves.trans (.advance _)
    obtain ⟨count, descends, slips⟩ := upto.surfaces
    have earlier : first.Surfaces text second.advance := ⟨count, descends, .inl slips⟩
    exact ⟨moves.trans stops.1, earlier.trans stops.2 moves (stops.1.trans (.record _ _))⟩

/-- The token behind what is read is not the one that should be there. Only a parenthesis may be missing behind a
brace, and then the brace is counted as open. -/
theorem expected {kind : Kind} (fits : second.current.kind = .rightBrace → kind = .rightParen) :
    first.StopsIn text (.unreadable (.expected kind second.upcoming)) second := by
  obtain ⟨depth, count, descends, stepped, slips⟩ := upto.closed
  refine ⟨upto.moves, depth, descends, .inl ?_⟩
  have recorded := Moves.record second (.expected kind second.upcoming)
  by_cases closing : second.current.kind = .rightBrace
  · obtain rfl := fits closing
    have slip : second.Slips text (second.record (.expected .rightParen second.upcoming)) 1 :=
      ⟨fun quiet => absurd (upto.inside.behind closing) (quiet_record.mp quiet), nofun⟩
    have deeper : depth = 1 + count := by
      simp only [step, closing, reduceCtorEq, if_false, if_true] at stepped
      grind
    rw [deeper]
    exact slips.trans slip upto.moves recorded
  · have harmless : second.Slips text (second.record (.expected kind second.upcoming)) 0 :=
      ⟨fun _ => rfl, fun distinct _ => quiet_record.mpr (upto.inside.not_behind distinct upto.more closing)⟩
    obtain rfl : depth = count := Option.some.inj ((step_flat depth upto.opens closing).symm.trans stepped)
    simpa using slips.trans harmless upto.moves recorded

end Upto

end Parser

namespace Parse

open MonkeyLang.Parser (Upto)

variable {α : Type} {text : List Token} {start here before : Parser}

/-- The step goes on with what is balanced from a state on, or stops where that statement may fail. -/
def Balances (text : List Token) (start : Parser) (step : Parse α) (here : Parser) : Prop :=
  Ensures step here (fun _ after => start.Upto text after) (start.StopsIn text)

theorem Balances.behind {step : Parse α} (balances : Balances text here.advance step here.advance)
    (upto : start.Upto text here) : Balances text start step here.advance :=
  balances.imp (fun _ _ later => upto.append later) fun _ _ stops => upto.stops stops

theorem passSemicolon_balances (upto : start.Upto text here) : Balances text start passSemicolon here := by
  rw [Balances, ensures_passSemicolon]
  constructor
  · intro semicolon
    exact upto.upcoming (by simp [Kind.Flat, semicolon])
  · intro _
    exact upto

theorem integer_balances (inside : before.Inside text) (kind : before.current.kind = .integer) :
    Balances text before integer before := by
  simp only [Balances, integer, ensures_bind, ensures_current]
  split
  · trivial
  · rw [ensures_ite]
    constructor
    · intro _
      exact .unreadable fun ⟨_, _, _, _, _, _, same⟩ => nomatch same
    · intro _
      exact .current inside (by simp [Kind.Flat, kind])

theorem moreParameters_balances (rounds : Nat) (read : List Node) (upto : start.Upto text here) :
    Balances text start (moreParameters rounds read) here := by
  induction rounds generalizing read here with
  | zero => trivial
  | succ rounds ih =>
    simp only [Balances, moreParameters, ensures_bind, ensures_upcoming, ensures_ite, ensures_advance, ensures_expect,
      ensures_identifier, ensures_pure]
    refine ⟨fun comma => ?_, fun _ => upto⟩
    have throughComma := upto.upcoming (by simp [Kind.Flat, comma])
    constructor
    · intro name
      exact ih _ (throughComma.upcoming (by simp [Kind.Flat, name]))
    · intro _
      exact throughComma.expected (by simp [comma])

theorem parameters_balances (upto : start.Upto text here) (opening : here.current.kind = .leftParen) :
    Ensures parameters here (fun _ after => start.Upto text after ∧ after.current.kind = .rightParen)
      (start.StopsIn text) := by
  simp only [parameters, ensures_bind, ensures_upcoming, ensures_ite, ensures_advance, ensures_expect,
    ensures_identifier, ensures_pure, ensures_get]
  refine ⟨fun closing => ⟨upto.upcoming (by simp [Kind.Flat, closing]), closing⟩, fun _ => ⟨fun name => ?_, fun _ => ?_⟩⟩
  · have throughName := upto.upcoming (by simp [Kind.Flat, name])
    refine (moreParameters_balances _ _ throughName).imp (fun _ after throughNames => ?_) fun _ _ => id
    exact ⟨fun closing => ⟨throughNames.upcoming (by simp [Kind.Flat, closing]), closing⟩, fun _ =>
      throughNames.expected fun _ => rfl⟩
  · exact upto.expected (by simp [opening])

section Levels

variable {expression : Int → Parse Node}
  (balances : ∀ floor (before : Parser), before.Inside text → Balances text before (expression floor) before)
include balances

theorem next_balances (floor : Int) (upto : start.Upto text here) :
    Balances text start (expression floor) here.advance :=
  (balances floor _ upto.inside.advance).behind upto

theorem letBinding_balances (inside : before.Inside text) (word : before.current.kind = .letWord) :
    Balances text before (letBinding expression) before := by
  have throughWord := Upto.current inside (by simp [Kind.Flat, word])
  simp only [Balances, letBinding, ensures_bind, ensures_current, ensures_identifier, ensures_advance, ensures_expect,
    ensures_pure]
  refine ⟨fun name => ?_, fun _ => throughWord.expected (by simp [word])⟩
  have throughName := throughWord.upcoming (by simp [Kind.Flat, name])
  refine ⟨fun assign => ?_, fun _ => throughName.expected (by simp [name])⟩
  have throughSign := throughName.upcoming (by simp [Kind.Flat, assign])
  exact (next_balances balances _ throughSign).imp (fun _ _ => passSemicolon_balances) fun _ _ => id

theorem statement_balances (inside : before.Inside text) : Balances text before (statement expression) before := by
  simp only [Balances, statement, ensures_bind, ensures_current]
  split
  next word => exact letBinding_balances balances inside word
  next word =>
    have throughWord := Upto.current inside (by simp [Kind.Flat, word])
    simp only [returning, ensures_bind, ensures_current, ensures_advance, ensures_pure]
    exact (next_balances balances _ throughWord).imp (fun _ _ => passSemicolon_balances) fun _ _ => id
  next =>
    simp only [expressionStatement, ensures_bind, ensures_current, ensures_pure]
    exact (balances _ _ inside).imp (fun _ _ => passSemicolon_balances) fun _ _ => id

/-- A list of statements ends outside of the braces that it opened, but for the slips: at the brace of its own block, or
at the end of input. -/
theorem moreStatements_surfaces (rounds : Nat) (read : List Node) (inside : before.Inside text) :
    Ensures (moreStatements expression .rightBrace rounds read) before (fun _ after =>
      before.Moves after ∧ before.Surfaces text after ∧
        (after.current.kind = .rightBrace ∨ after.current.kind = .endOfInput))
      (fun failure _ => ∃ cause, failure = .fault cause) := by
  induction rounds generalizing read before with
  | zero => exact ⟨_, rfl⟩
  | succ rounds ih =>
    simp only [moreStatements, ensures_bind, ensures_current, ensures_ite, ensures_pure, ensures_recovering,
      ensures_advance, Bool.or_eq_true, decide_eq_true_eq]
    refine ⟨fun ended => ⟨.refl _, ⟨0, .refl _, .inl (.silent rfl)⟩, ended⟩, fun _ => ?_⟩
    refine (statement_balances balances inside).imp (fun node middle upto => ?_) fun failure middle stops => ?_
    · refine (ih _ upto.inside.advance).imp (fun nodes after ended => ?_) fun _ _ => id
      obtain ⟨moves, surfaces, ending⟩ := ended
      have begun := upto.moves.trans (.advance middle)
      obtain ⟨count, descends, slips⟩ := upto.surfaces
      have earlier : before.Surfaces text middle.advance := ⟨count, descends, .inl slips⟩
      exact ⟨begun.trans moves, earlier.trans surfaces begun moves, ending⟩
    · cases failure with
      | fault cause => exact ⟨cause, rfl⟩
      | unreadable error =>
        obtain ⟨moves, surfaces⟩ := stops
        have recorded := moves.trans (.record middle error)
        have skipped := Parser.Moves.synchronize (middle.record error) .rightBrace
        have landed := surfaces.trans (.synchronize (recorded.ready inside.toReady)) recorded skipped
        refine (ih _ (inside.moves (recorded.trans skipped))).imp (fun nodes after ended => ?_) fun _ _ => id
        obtain ⟨later, surfaces', ending⟩ := ended
        exact ⟨(recorded.trans skipped).trans later, landed.trans surfaces' (recorded.trans skipped) later, ending⟩

/-- A block ends on a closing brace: its own, or one brace early for every slip. -/
theorem block_closes (inside : before.Inside text) (opening : before.current.kind = .leftBrace) :
    Ensures (block expression) before (fun _ after => before.Upto text after ∧ after.current.kind = .rightBrace ∧
      ∃ count, before.advance.Descends count after ∧ before.Slips text after count) (before.StopsIn text) := by
  have begun := Parser.Moves.advance before
  have entered : before.Descends 1 before.advance :=
    (Parser.Descends.refl before).advance inside.toReady (by simp [opening]) (by simp [step, opening])
  simp only [block, statements, ensures_bind, ensures_current, ensures_advance, ensures_get, ensures_ite, ensures_pure,
    ensures_unreadable]
  refine (moreStatements_surfaces balances _ _ inside.advance).imp (fun nodes after ended => ?_) fun failure _ fault => ?_
  · obtain ⟨moves, ⟨count, descends, place⟩, ending⟩ := ended
    have inside' := inside.moves (begun.trans moves)
    constructor
    · intro closing
      have slips : before.Slips text after count := by
        obtain slips | ended := place
        · exact ⟨slips.none, slips.quiet⟩
        · obtain ⟨others, rest⟩ := inside'.rest_of_current (by simp [closing])
          simp [rest] at ended
      refine ⟨⟨inside', begun.trans moves, by simp [closing], by simp [closing], ?_⟩, closing, count, descends, slips⟩
      exact ⟨count + 1, count, entered.trans descends, by simp [step, closing], slips⟩
    · intro notClosing
      have finished := ending.resolve_left notClosing
      have ended : after.rest = [] := by
        by_contra more
        exact inside'.rest _ (List.head_mem more) (by rwa [Parser.current, List.headD_eq_head?_getD,
          List.head?_eq_some_head more] at finished)
      exact ⟨begun.trans moves, count + 1, entered.trans descends, .inr ended⟩
  · obtain ⟨cause, rfl⟩ := fault
    trivial

theorem block_balances (upto : start.Upto text here) (opening : here.upcoming.kind = .leftBrace) :
    Balances text start (block expression) here.advance := by
  have closes : Balances text here.advance (block expression) here.advance :=
    (block_closes balances upto.inside.advance opening).imp (fun _ _ closed => closed.1) fun _ _ => id
  exact closes.behind upto

theorem conditional_balances (inside : before.Inside text) (word : before.current.kind = .ifWord) :
    Balances text before (conditional expression) before := by
  have throughWord := Upto.current inside (by simp [Kind.Flat, word])
  simp only [Balances, conditional, ensures_bind, ensures_current, ensures_upcoming, ensures_advance, ensures_expect,
    ensures_ite, ensures_pure]
  refine ⟨fun opening => ?_, fun _ => throughWord.expected (by simp [word])⟩
  have throughOpening := throughWord.upcoming (by simp [Kind.Flat, opening])
  refine (next_balances balances _ throughOpening).imp (fun _ tested throughTest => ?_) fun _ _ => id
  refine ⟨fun closing => ?_, fun _ => throughTest.expected fun _ => rfl⟩
  have throughClosing := throughTest.upcoming (by simp [Kind.Flat, closing])
  refine ⟨fun brace => ?_, fun _ => throughClosing.expected (by simp [closing])⟩
  refine (block_balances balances throughClosing brace).imp (fun _ chosen throughYes => ?_) fun _ _ => id
  refine ⟨fun otherwise => ?_, fun _ => throughYes⟩
  have throughElse := throughYes.upcoming (by simp [Kind.Flat, otherwise])
  refine ⟨fun brace => ?_, fun _ => throughElse.expected (by simp [otherwise])⟩
  exact block_balances balances throughElse brace

theorem functionLiteral_balances (inside : before.Inside text) (word : before.current.kind = .functionWord) :
    Balances text before (functionLiteral expression) before := by
  have throughWord := Upto.current inside (by simp [Kind.Flat, word])
  simp only [Balances, functionLiteral, ensures_bind, ensures_current, ensures_expect, ensures_pure]
  refine ⟨fun opening => ?_, fun _ => throughWord.expected (by simp [word])⟩
  have throughOpening := throughWord.upcoming (by simp [Kind.Flat, opening])
  refine (parameters_balances throughOpening opening).imp (fun _ named throughNames => ?_) fun _ _ => id
  exact ⟨fun brace => block_balances balances throughNames.1 brace, fun _ => throughNames.1.expected (by simp [throughNames.2])⟩

theorem moreExpressions_balances (rounds : Nat) (read : List Node) (upto : start.Upto text here) :
    Balances text start (moreExpressions expression rounds read) here := by
  induction rounds generalizing read here with
  | zero => trivial
  | succ rounds ih =>
    simp only [Balances, moreExpressions, ensures_bind, ensures_upcoming, ensures_ite, ensures_advance, ensures_pure]
    refine ⟨fun comma => ?_, fun _ => upto⟩
    have throughComma := upto.upcoming (by simp [Kind.Flat, comma])
    exact (next_balances balances _ throughComma).imp (fun _ _ => ih _) fun _ _ => id

theorem call_balances (callee : Node) (upto : start.Upto text here) :
    Balances text start (call expression callee) here := by
  simp only [Balances, call, expressions, ensures_bind, ensures_current, ensures_upcoming, ensures_advance, ensures_ite,
    ensures_get, ensures_expect, ensures_pure]
  refine ⟨fun closing => upto.upcoming (by simp [Kind.Flat, closing]), fun _ => ?_⟩
  refine (next_balances balances _ upto).imp (fun _ first throughFirst => ?_) fun _ _ => id
  refine (moreExpressions_balances balances _ _ throughFirst).imp (fun _ last throughLast => ?_) fun _ _ => id
  exact ⟨fun closing => throughLast.upcoming (by simp [Kind.Flat, closing]), fun _ => throughLast.expected fun _ => rfl⟩

theorem operand_balances (inside : before.Inside text) : Balances text before (operand expression) before := by
  have unary (sign : before.current.kind.Flat) : Balances text before (unary expression) before := by
    simp only [Balances, Parse.unary, ensures_bind, ensures_current, ensures_advance, ensures_pure]
    exact next_balances balances _ (.current inside sign)
  simp only [Balances, operand, ensures_bind, ensures_current]
  split
  next kind => exact Upto.current inside (by simp [Kind.Flat, kind])
  next kind => exact integer_balances inside kind
  next kind => exact Upto.current inside (by simp [Kind.Flat, kind])
  next kind => exact Upto.current inside (by simp [Kind.Flat, kind])
  next kind => exact unary (by simp [Kind.Flat, kind])
  next kind => exact unary (by simp [Kind.Flat, kind])
  next kind =>
    simp only [grouped, ensures_bind, ensures_advance, ensures_expect, ensures_pure]
    refine (next_balances balances _ (.current inside (by simp [Kind.Flat, kind]))).imp (fun _ middle upto => ?_)
      fun _ _ => id
    exact ⟨fun closing => upto.upcoming (by simp [Kind.Flat, closing]), fun _ => upto.expected fun _ => rfl⟩
  next kind => exact conditional_balances balances inside kind
  next kind => exact functionLiteral_balances balances inside kind
  next => exact .unreadable fun ⟨_, _, _, _, _, _, same⟩ => nomatch same

theorem operators_balances (floor : Int) (rounds : Nat) (left : Node) (upto : start.Upto text here) :
    Balances text start (operators expression floor rounds left) here := by
  induction rounds generalizing left here with
  | zero => trivial
  | succ rounds ih =>
    simp only [Balances, operators, ensures_bind, ensures_upcoming, ensures_ite, ensures_advance, ensures_pure]
    refine ⟨fun _ => ⟨fun opening => ?_, fun _ => ⟨fun operator => ?_, fun _ => upto⟩⟩, fun _ => upto⟩
    · have throughOpening := upto.upcoming (by simp [Kind.Flat, opening])
      exact (call_balances balances left throughOpening).imp (fun _ _ => ih _) fun _ _ => id
    · have flat : here.upcoming.kind.Flat := by
        refine ⟨?_, ?_, ?_⟩ <;> exact fun same => by simp [same, Kind.isBinary] at operator
      simp only [binary, ensures_bind, ensures_current, ensures_advance, ensures_pure]
      exact (next_balances balances _ (upto.upcoming flat)).imp (fun _ _ => ih _) fun _ _ => id

theorem level_balances (floor : Int) (inside : before.Inside text) :
    Balances text before (level expression floor) before := by
  simp only [Balances, level, ensures_bind, ensures_get]
  exact (operand_balances balances inside).imp (fun _ _ => operators_balances balances floor _ _) fun _ _ => id

end Levels

theorem expression_balances (limit : Nat) (floor : Int) (inside : before.Inside text) :
    Balances text before (expression limit floor) before := by
  induction limit generalizing floor before with
  | zero => trivial
  | succ limit ih => exact level_balances (fun floor _ inside => ih floor inside) floor inside

end Parse

end MonkeyLang
