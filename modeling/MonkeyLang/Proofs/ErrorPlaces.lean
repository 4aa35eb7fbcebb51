import MonkeyLang.Proofs.JoinedTexts
import MonkeyLang.Proofs.MessagePlaces
import MonkeyLang.Proofs.RecoveryNesting

/-! Where syntax errors show. Each of them shows at a token of the text, and they come in the order of the text: at no time
was anything reported behind the token that comes next, and where a statement or an operand begins nothing behind the
current one. -/

namespace MonkeyLang

namespace Parser

/-- What was reported shows at tokens of the text, one error no further than the next one and none behind the place. -/
structure Reports (text : List Token) (place : Position) (parser : Parser) : Prop extends parser.Inside text where
  placed : text.Pairwise fun first second => first.position.Before second.position
  given : ∀ error ∈ parser.errors, error.token ∈ text
  order : parser.errors.Pairwise fun first second => first.token.position.UpTo second.token.position
  reached : ∀ error ∈ parser.errors, error.token.position.UpTo place

/-- Nothing was reported behind the current token. -/
def Fresh (text : List Token) (parser : Parser) : Prop := parser.Reports text parser.current.position

/-- Nothing was reported behind the token that comes next. -/
def Ahead (text : List Token) (parser : Parser) : Prop := parser.Reports text parser.upcoming.position

/-- Nothing was reported behind the current token either, unless the list of statements ends with it. -/
def Between (text : List Token) (terminator : Kind) (parser : Parser) : Prop :=
  parser.Ahead text ∧ (parser.Fresh text ∨ parser.current.kind = terminator ∨ parser.current.kind = .endOfInput)

variable {text : List Token} {parser first second : Parser} {place further : Position} {error : SyntaxError}

theorem current_mem_text (parser : Parser) : parser.current ∈ parser.text := by
  unfold current Parser.text
  cases parser.rest <;> simp

theorem upcoming_eq_current (ready : parser.Ready) (ended : parser.current.kind = .endOfInput) :
    parser.upcoming = parser.current := by
  simp only [upcoming, current, ready.rest_eq_nil ended, List.tail_nil]

theorem Inside.current_mem (inside : parser.Inside text) : parser.current ∈ text :=
  inside.suffix.subset parser.current_mem_text

theorem Inside.upcoming_mem (inside : parser.Inside text) : parser.upcoming ∈ text := inside.advance.current_mem

namespace Reports

theorem forward (reports : first.Reports text place) (moves : first.Moves second) (same : second.errors = first.errors)
    (later : place.UpTo further) : second.Reports text further where
  toInside := reports.toInside.moves moves
  placed := reports.placed
  given := same ▸ reports.given
  order := same ▸ reports.order
  reached := same ▸ fun error member => (reports.reached error member).trans later

theorem current_upTo (reports : first.Reports text place) (moves : first.Moves second) :
    first.current.position.UpTo second.current.position := by
  obtain ⟨read, rest⟩ := moves.rest
  cases read with
  | nil => exact .inl (by rw [current, current, ← rest, moves.finish, List.nil_append])
  | cons token others =>
    have whole : first.text = first.current :: (others ++ second.text) := by
      simp only [Parser.text, current, ← rest, moves.finish, List.cons_append, List.headD_cons, List.append_assoc]
    have behind := (List.pairwise_cons.mp (whole ▸ reports.placed.sublist reports.suffix.sublist)).1
    exact .inr (behind _ (List.mem_append_right _ second.current_mem_text))

theorem record (reports : parser.Reports text place) (given : error.token ∈ text)
    (shows : error.token.position = place) : (parser.record error).Reports text place where
  toInside := reports.toInside.moves (.record parser error)
  placed := reports.placed
  given := List.forall_mem_append.mpr ⟨reports.given, List.forall_mem_singleton.mpr given⟩
  order := List.pairwise_append.mpr
    ⟨reports.order, List.pairwise_singleton _ _, fun earlier member _ last =>
      List.mem_singleton.mp last ▸ shows ▸ reports.reached earlier member⟩
  reached := List.forall_mem_append.mpr ⟨reports.reached, List.forall_mem_singleton.mpr (shows ▸ .refl _)⟩

end Reports

theorem Fresh.ahead (fresh : parser.Fresh text) : parser.Ahead text :=
  fresh.forward (.refl _) rfl (fresh.current_upTo (.advance parser))

theorem Ahead.advance (ahead : parser.Ahead text) : parser.advance.Fresh text :=
  ahead.forward (.advance parser) rfl (.refl _)

theorem Fresh.between (fresh : parser.Fresh text) (terminator : Kind) : parser.Between text terminator :=
  ⟨fresh.ahead, .inl fresh⟩

/-- Recovery leaves the current token behind, unless the list of statements ends right there. -/
theorem Ahead.synchronize (ahead : parser.Ahead text) (terminator : Kind) :
    (parser.synchronize terminator).Between text terminator := by
  rcases Recovery.skip_keeps_or_shortens terminator parser.rest with ⟨kept, token, others, rest, kind⟩ | shorter
  · have same : parser.synchronize terminator = parser := congrArg (fun rest => { parser with rest }) kept
    have ends : parser.current.kind = terminator := by rwa [current, rest]
    exact same.symm ▸ ⟨ahead, .inr (.inl ends)⟩
  · have moves : parser.advance.Moves (parser.synchronize terminator) := ⟨rfl, shorter, List.prefix_refl _⟩
    exact Fresh.between (ahead.advance.forward moves rfl (ahead.advance.current_upTo moves)) terminator

/-- Parsing begins with all tokens of a text in front of it, the end of input among them. -/
theorem ofTokens_text (text : String) : (ofTokens (Token.ofText text)).text = Token.ofText text := by
  obtain ⟨finish, split, -⟩ := Token.ofText_eq text
  have others : (Token.upToFinish (Token.ofText text)).find? (·.kind = .endOfInput) = none :=
    List.find?_eq_none.mpr fun token member => by simpa using (ofTokens_ready (Token.ofText text)).rest token member
  have found : (Token.ofText text).find? (·.kind = .endOfInput) = some (.endAt finish) := by
    rw [split, List.find?_append, others]
    rfl
  rw [Parser.text, ofTokens, found, Option.getD_some]
  exact split.symm

theorem ofTokens_fresh (text : String) : (ofTokens (Token.ofText text)).Fresh (Token.ofText text) where
  toReady := ofTokens_ready _
  suffix := ⟨[], ofTokens_text text⟩
  placed := (Cursor.tokens_placed _).2
  given := List.forall_mem_nil _
  order := .nil
  reached := List.forall_mem_nil _

end Parser

namespace Parse

open MonkeyLang.Parser

variable {text : List Token} {α β : Type}

/-- Where a step stops, the error that stops it can be reported next. -/
def Halts (text : List Token) : Failure → Parser → Prop
  | .unreadable error, after => (after.record error).Ahead text
  | .fault _, after => after.Ahead text

theorem Halts.recorded {failure : Failure} {after : Parser} (halts : Halts text failure after) :
    (∀ error ∈ after.errors, error.token ∈ text) ∧
      after.errors.Pairwise fun first second => first.token.position.UpTo second.token.position := by
  cases failure with
  | unreadable error =>
    have given := (List.forall_mem_append.mp halts.given).1
    exact ⟨given, (List.pairwise_append.mp halts.order).1⟩
  | fault cause => exact ⟨halts.given, halts.order⟩

/-- From one assertion about the state the step leads to another one, or halts. -/
def Takes (text : List Token) (pre post : Parser → Prop) (step : Parse α) : Prop :=
  ∀ before, pre before → Ensures step before (fun _ after => post after) (Halts text)

namespace Takes

variable {pre middle post : Parser → Prop} {step : Parse α} {next : α → Parse β}

theorem pure (value : α) : Takes text pre pre (pure value) := fun _ holds => holds

theorem bind (first : Takes text pre middle step) (later : ∀ value, Takes text middle post (next value)) :
    Takes text pre post (step >>= next) := by
  intro before holds
  rw [ensures_bind]
  exact (first before holds).imp (fun value after => later value after) fun _ _ => id

theorem ite (condition : Prop) [Decidable condition] {yes no : Parse α} (first : Takes text pre post yes)
    (second : Takes text pre post no) : Takes text pre post (if condition then yes else no) := by
  split
  · exact first
  · exact second

/-- What a step can do in front of the token that comes next, it can do on the current one. -/
theorem fresh (takes : Takes text (Ahead text) post step) : Takes text (Fresh text) post step :=
  fun before fresh => takes before fresh.ahead

theorem ahead (takes : Takes text pre (Fresh text) step) : Takes text pre (Ahead text) step :=
  fun before holds => (takes before holds).imp (fun _ _ fresh => fresh.ahead) fun _ _ => id

theorem get : Takes text pre pre get := fun _ holds => holds

theorem current : Takes text pre pre current := fun _ holds => holds

theorem upcoming : Takes text pre pre upcoming := fun _ holds => holds

theorem identifier : Takes text pre pre identifier := fun _ holds => holds

theorem advance : Takes text (Ahead text) (Fresh text) advance := fun _ ahead => ahead.advance

theorem fault (cause : Fault) : Takes text (Ahead text) post (fault cause : Parse α) := fun _ ahead => ahead

theorem expect (kind : Kind) : Takes text (Ahead text) (Fresh text) (expect kind) := by
  intro before ahead
  rw [ensures_expect]
  exact ⟨fun _ => ahead.advance, fun _ => ahead.record ahead.upcoming_mem rfl⟩

/-- An error at the current token. -/
theorem unreadable {error : SyntaxError} {before : Parser} (fresh : before.Fresh text)
    (shows : error.token = before.current) : Halts text (.unreadable error) before :=
  Fresh.ahead (fresh.record (shows ▸ fresh.current_mem) (shows ▸ rfl))

theorem passSemicolon : Takes text (Ahead text) (Ahead text) passSemicolon :=
  upcoming.bind fun _ => ite _ advance.ahead (pure _)

theorem moreParameters (rounds : Nat) (read : List Node) :
    Takes text (Ahead text) (Ahead text) (moreParameters rounds read) := by
  induction rounds generalizing read with
  | zero => exact fault _
  | succ rounds ih =>
    exact upcoming.bind fun _ => ite _ (advance.bind fun _ => (expect _).fresh.bind fun _ =>
      identifier.bind fun _ => (ih _).fresh) (pure _)

theorem parameters : Takes text (Ahead text) (Ahead text) parameters :=
  upcoming.bind fun _ => ite _ (advance.bind fun _ => (pure _).ahead) <|
    (expect _).bind fun _ => identifier.bind fun _ => get.bind fun _ => (moreParameters _ _).fresh.bind fun _ =>
      (expect _).bind fun _ => (pure _).ahead

theorem integer : Takes text (Fresh text) (Ahead text) integer := by
  intro before fresh
  simp only [Parse.integer, ensures_bind, ensures_current]
  split
  · exact fresh.ahead
  · rw [ensures_ite]
    exact ⟨fun _ => unreadable fresh rfl, fun _ => fresh.ahead⟩

section Levels

variable {expression : Int → Parse Node} (below : ∀ floor, Takes text (Fresh text) (Ahead text) (expression floor))
include below

theorem letBinding : Takes text (Fresh text) (Ahead text) (letBinding expression) :=
  current.bind fun _ => (expect _).fresh.bind fun _ => identifier.bind fun _ => (expect _).fresh.bind fun _ =>
    advance.fresh.bind fun _ => (below _).bind fun _ => passSemicolon.bind fun _ => pure _

theorem returning : Takes text (Fresh text) (Ahead text) (returning expression) :=
  current.bind fun _ => advance.fresh.bind fun _ => (below _).bind fun _ => passSemicolon.bind fun _ => pure _

theorem expressionStatement : Takes text (Fresh text) (Ahead text) (expressionStatement expression) :=
  current.bind fun _ => (below _).bind fun _ => passSemicolon.bind fun _ => pure _

theorem statement : Takes text (Fresh text) (Ahead text) (statement expression) := by
  refine current.bind fun token => ?_
  split
  · exact letBinding below
  · exact returning below
  · exact expressionStatement below

theorem recovering (terminator : Kind) : Takes text (Fresh text) (Between text terminator)
    (recovering terminator (do let node ← Parse.statement expression; Parse.advance; return node)) := by
  intro before fresh
  simp only [ensures_recovering, ensures_bind, ensures_advance, ensures_pure]
  refine (statement below before fresh).imp (fun _ _ ahead => ahead.advance.between terminator) ?_
  intro failure after halts
  cases failure with
  | unreadable error => exact halts.synchronize terminator
  | fault cause => exact halts

theorem moreStatements (terminator : Kind) (rounds : Nat) (read : List Node) :
    Takes text (Between text terminator)
      (fun after => after.Ahead text ∧ (after.current.kind = terminator ∨ after.current.kind = .endOfInput))
      (moreStatements expression terminator rounds read) := by
  induction rounds generalizing read with
  | zero => exact fun before between => between.1
  | succ rounds ih =>
    intro before between
    simp only [Parse.moreStatements, ensures_bind, ensures_current, ensures_ite, ensures_pure, Bool.or_eq_true,
      decide_eq_true_eq]
    refine ⟨fun ended => ⟨between.1, ended⟩, fun goesOn => ?_⟩
    -- a list that does not end here has nothing reported behind the token its next statement begins on
    refine (recovering below terminator before (between.2.resolve_right goesOn)).imp (fun node after later => ?_)
      fun _ _ => id
    cases node with
    | none => exact ih _ after later
    | some node => exact ih _ after later

theorem block : Takes text (Ahead text) (Ahead text) (block expression) := by
  intro before ahead
  simp only [Parse.block, statements, ensures_bind, ensures_current, ensures_advance, ensures_get, ensures_ite,
    ensures_pure, ensures_unreadable]
  refine (moreStatements below _ _ _ _ (ahead.advance.between _)).imp (fun nodes after ends => ?_) fun _ _ => id
  obtain ⟨ahead, ended⟩ := ends
  refine ⟨fun _ => ahead, fun unclosed => ?_⟩
  -- the error shows at the current token, which is the end of input and so comes next as well
  have same := upcoming_eq_current ahead.toReady (ended.resolve_left unclosed)
  exact ahead.record ahead.current_mem (congrArg Token.position same.symm)

theorem unary : Takes text (Fresh text) (Ahead text) (unary expression) :=
  current.bind fun _ => advance.fresh.bind fun _ => (below _).bind fun _ => pure _

theorem binary (left : Node) : Takes text (Fresh text) (Ahead text) (binary expression left) :=
  current.bind fun _ => advance.fresh.bind fun _ => (below _).bind fun _ => pure _

theorem grouped : Takes text (Fresh text) (Ahead text) (grouped expression) :=
  advance.fresh.bind fun _ => (below _).bind fun _ => (expect _).bind fun _ => (pure _).ahead

theorem conditional : Takes text (Fresh text) (Ahead text) (conditional expression) :=
  current.bind fun _ => (expect _).fresh.bind fun _ => advance.fresh.bind fun _ => (below _).bind fun _ =>
    (expect _).bind fun _ => (expect _).fresh.bind fun _ => (block below).fresh.bind fun _ => upcoming.bind fun _ =>
      ite _ (advance.bind fun _ => (expect _).fresh.bind fun _ => (block below).fresh.bind fun _ => pure _) (pure _)

theorem functionLiteral : Takes text (Fresh text) (Ahead text) (functionLiteral expression) :=
  current.bind fun _ => (expect _).fresh.bind fun _ => parameters.fresh.bind fun _ => (expect _).bind fun _ =>
    (block below).fresh.bind fun _ => pure _

theorem moreExpressions (rounds : Nat) (read : List Node) :
    Takes text (Ahead text) (Ahead text) (moreExpressions expression rounds read) := by
  induction rounds generalizing read with
  | zero => exact fault _
  | succ rounds ih =>
    exact upcoming.bind fun _ => ite _ (advance.bind fun _ => advance.fresh.bind fun _ => (below _).bind fun _ => ih _)
      (pure _)

theorem expressions (closing : Kind) : Takes text (Ahead text) (Ahead text) (expressions expression closing) :=
  upcoming.bind fun _ => ite _ (advance.bind fun _ => (pure _).ahead) <|
    advance.bind fun _ => (below _).bind fun _ => get.bind fun _ => (moreExpressions below _ _).bind fun _ =>
      (expect _).bind fun _ => (pure _).ahead

theorem call (callee : Node) : Takes text (Fresh text) (Ahead text) (call expression callee) :=
  current.bind fun _ => (expressions below _).fresh.bind fun _ => pure _

theorem operand : Takes text (Fresh text) (Ahead text) (operand expression) := by
  intro before fresh
  simp only [Parse.operand, ensures_bind, ensures_current]
  split
  · exact fresh.ahead
  · exact integer before fresh
  · exact fresh.ahead
  · exact fresh.ahead
  · exact unary below before fresh
  · exact unary below before fresh
  · exact grouped below before fresh
  · exact conditional below before fresh
  · exact functionLiteral below before fresh
  · exact unreadable fresh rfl

theorem operators (floor : Int) (rounds : Nat) (left : Node) :
    Takes text (Ahead text) (Ahead text) (operators expression floor rounds left) := by
  induction rounds generalizing left with
  | zero => exact fault _
  | succ rounds ih =>
    exact upcoming.bind fun _ => ite _
      (ite _ (advance.bind fun _ => (call below _).bind fun _ => ih _) <|
        ite _ (advance.bind fun _ => (binary below _).bind fun _ => ih _) (pure _))
      (pure _)

end Levels

theorem expression (limit : Nat) (floor : Int) : Takes text (Fresh text) (Ahead text) (expression limit floor) := by
  induction limit generalizing floor with
  | zero => exact (fault _).fresh
  | succ limit ih => exact (operand ih).bind fun _ => get.bind fun _ => operators ih _ _ _

theorem program (limit : Nat) : Takes text (Fresh text) (Ahead text) (program limit) := by
  intro before fresh
  simp only [Parse.program, statements, ensures_bind, ensures_get, ensures_pure]
  exact (moreStatements (expression limit) _ _ _ before (fresh.between _)).imp (fun _ _ => And.left) fun _ _ => id

end Takes

end Parse

namespace Parsed

theorem reports_of_text (limit : Nat) (text : String) :
    (∀ error ∈ (ofText limit text).errors, error.token ∈ Token.ofText text) ∧
      (ofText limit text).errors.Pairwise fun first second => first.token.position.UpTo second.token.position := by
  rcases of_ensures (Parse.Takes.program limit _ (Parser.ofTokens_fresh text)) with
    ⟨program, after, parsed, ahead⟩ | ⟨failure, after, parsed, halts⟩
  · rw [ofText, parsed]
    exact ⟨ahead.given, ahead.order⟩
  · rw [ofText, parsed]
    exact halts.recorded

/-- Each message ends in the place of a token of the text, and no message names a place behind that of a later one. -/
theorem messages_follow_text (limit : Nat) (text : String) :
    (∀ message ∈ (ofText limit text).messages, ∃ token ∈ Token.ofText text, Position.Ends message token.position) ∧
    (ofText limit text).messages.Pairwise fun earlier later =>
      ∀ first second, Position.Ends earlier first → Position.Ends later second → first.UpTo second := by
  obtain ⟨given, order⟩ := reports_of_text limit text
  constructor
  · intro message member
    obtain ⟨error, recorded, rfl⟩ := List.mem_map.mp member
    exact ⟨error.token, given error recorded, error.message_ends⟩
  · refine List.pairwise_map.mpr (order.imp fun {earlier later} upTo first second ends ends' => ?_)
    rwa [ends.unique earlier.message_ends, ends'.unique later.message_ends]

/-- The statement in the block fails before the group around it does, for want of a parenthesis. -/
example : (ofText 6 "(fn() \x7b let \x7d 2").errors.map (·.token.position) = [⟨1, 13⟩, ⟨1, 15⟩] := by cbv

end Parsed

end MonkeyLang
