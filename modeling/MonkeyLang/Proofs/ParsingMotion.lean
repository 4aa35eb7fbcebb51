import Mathlib.Data.List.TakeWhile
import MonkeyLang.Proofs.ParsingLogic

/-! How parsing moves over its tokens. No step goes back, forgets an error or changes the end of input; a step that
reads something ends on its last token, which stays the current one. -/

namespace MonkeyLang

/-- Only a list of statements that ends right there keeps the token at which recovery begins. -/
theorem Recovery.skip_keeps_or_shortens (terminator : Kind) (tokens : List Token) :
    (skip terminator 0 tokens = tokens ∧ ∃ token others, tokens = token :: others ∧ token.kind = terminator) ∨
      skip terminator 0 tokens <:+ tokens.tail := by
  cases tokens with
  | nil => exact .inr (skip_suffix terminator 0 [])
  | cons token others =>
    by_cases ends : token.kind = terminator
    · exact .inl ⟨by rw [skip, if_pos ends], token, others, rfl, ends⟩
    · have less := skip_lt 0 others fun _ => ends
      rcases List.suffix_cons_iff.mp (skip_suffix terminator 0 (token :: others)) with same | shorter
      · rw [same, List.length_cons] at less
        omega
      · exact .inr shorter

namespace Parser

/-- The end of input is behind the tokens and nowhere among them. -/
structure Ready (parser : Parser) : Prop where
  finish : parser.finish.kind = .endOfInput
  rest : ∀ token ∈ parser.rest, token.kind ≠ .endOfInput

/-- The later state is further on in the tokens, with the errors of the earlier one and maybe more. -/
structure Moves (before after : Parser) : Prop where
  finish : after.finish = before.finish
  rest : after.rest <:+ before.rest
  errors : before.errors <+: after.errors

/-- The tokens from the current one of the first state up to the current one of the second, both included. -/
def Spans (before : Parser) (read : List Token) (after : Parser) : Prop :=
  ∃ front last others, read = front ++ [last] ∧ before.rest = front ++ last :: others ∧ after.rest = last :: others

theorem ofTokens_ready (tokens : List Token) : (ofTokens tokens).Ready := by
  constructor
  · unfold ofTokens
    cases found : tokens.find? (·.kind = .endOfInput) with
    | some token => simpa using List.find?_some found
    | none =>
      simp only [Option.getD_none, Token.finishAfter]
      split <;> rfl
  · intro token member
    simpa using List.mem_takeWhile_imp member

variable {parser first second third : Parser}

@[simp] theorem current_advance (parser : Parser) : parser.advance.current = parser.upcoming := rfl

theorem Ready.rest_of_current (ready : parser.Ready) (more : parser.current.kind ≠ .endOfInput) :
    ∃ others, parser.rest = parser.current :: others := by
  unfold current at *
  cases rest : parser.rest with
  | nil => simp [rest, ready.finish] at more
  | cons token others => exact ⟨others, rfl⟩

theorem Ready.rest_eq_nil (ready : parser.Ready) (ended : parser.current.kind = .endOfInput) : parser.rest = [] := by
  by_contra more
  obtain ⟨token, others, rest⟩ := List.exists_cons_of_ne_nil more
  exact ready.rest token (by simp [rest]) (by simpa [current, rest] using ended)

theorem Ready.rest_of_upcoming (ready : parser.Ready) (more : parser.upcoming.kind ≠ .endOfInput) :
    ∃ others, parser.rest = parser.current :: parser.upcoming :: others := by
  unfold current upcoming at *
  match rest : parser.rest with
  | [] | [_] => simp [rest, ready.finish] at more
  | _ :: _ :: others => exact ⟨others, rfl⟩

namespace Moves

@[refl] theorem refl (parser : Parser) : parser.Moves parser := ⟨rfl, List.suffix_refl _, List.prefix_refl _⟩

theorem trans (earlier : first.Moves second) (later : second.Moves third) : first.Moves third :=
  ⟨later.finish.trans earlier.finish, later.rest.trans earlier.rest, earlier.errors.trans later.errors⟩

theorem advance (parser : Parser) : parser.Moves parser.advance :=
  ⟨rfl, List.tail_suffix _, List.prefix_refl _⟩

theorem record (parser : Parser) (error : SyntaxError) : parser.Moves (parser.record error) :=
  ⟨rfl, List.suffix_refl _, List.prefix_append _ _⟩

theorem synchronize (parser : Parser) (terminator : Kind) : parser.Moves (parser.synchronize terminator) :=
  ⟨rfl, Recovery.skip_suffix _ _ _, List.prefix_refl _⟩

theorem tail (moves : first.Moves second) : second.rest.tail <:+ first.rest.tail := by
  obtain ⟨read, rest⟩ := moves.rest
  cases read with
  | nil => exact rest ▸ List.suffix_refl _
  | cons token others => exact (List.tail_suffix _).trans ⟨others, by rw [← rest, List.cons_append, List.tail_cons]⟩

theorem ready (moves : first.Moves second) (ready : first.Ready) : second.Ready :=
  ⟨moves.finish ▸ ready.finish, fun token member => ready.rest token (moves.rest.subset member)⟩

/-- Nothing was recorded on the way if nothing was recorded in the end. -/
theorem errors_eq (earlier : first.Moves second) (later : second.Moves third) (same : third.errors = first.errors) :
    second.errors = first.errors ∧ third.errors = second.errors := by
  have back : second.errors = first.errors :=
    (List.IsPrefix.eq_of_length_le earlier.errors (same ▸ later.errors.length_le)).symm
  exact ⟨back, same.trans back.symm⟩

end Moves

/-- What is left of a statement that was stopped is skipped together with the token it began on. -/
theorem Moves.skips {terminator : Kind} (moves : first.Moves second) (ready : first.Ready)
    (other : first.current.kind ≠ terminator) (more : first.current.kind ≠ .endOfInput) :
    Recovery.skip terminator 0 second.rest <:+ first.rest.tail := by
  obtain ⟨others, rest⟩ := ready.rest_of_current more
  rcases Recovery.skip_keeps_or_shortens terminator second.rest with ⟨kept, token, behind, place, kind⟩ | shorter
  · rw [kept, rest]
    -- the terminator that is kept is not the token that the statement began on
    rcases List.suffix_cons_iff.mp (rest ▸ moves.rest) with same | inside
    · have begun : token = first.current := (List.cons.inj (place.symm.trans same)).1
      exact absurd (begun ▸ kind) other
    · exact inside
  · exact shorter.trans moves.tail

namespace Spans

theorem current (ready : parser.Ready) (more : parser.current.kind ≠ .endOfInput) :
    parser.Spans [parser.current] parser := by
  obtain ⟨others, rest⟩ := ready.rest_of_current more
  exact ⟨[], parser.current, others, rfl, rest, rest⟩

theorem append {read more : List Token} (earlier : first.Spans read second) (later : second.advance.Spans more third) :
    first.Spans (read ++ more) third := by
  obtain ⟨front, last, others, rfl, rest, place⟩ := earlier
  obtain ⟨front', last', others', rfl, rest', place'⟩ := later
  refine ⟨front ++ last :: front', last', others', by simp, ?_, place'⟩
  simp only [advance, place, List.tail_cons] at rest'
  simp [rest, rest']

theorem upcoming {read : List Token} (earlier : first.Spans read second) (ready : second.Ready)
    (more : second.upcoming.kind ≠ .endOfInput) : first.Spans (read ++ [second.upcoming]) second.advance := by
  refine earlier.append (current ((Moves.advance second).ready ready) more)

theorem rest_eq {read : List Token} (spans : first.Spans read second) :
    first.rest = read ++ second.rest.tail := by
  obtain ⟨front, last, others, rfl, rest, place⟩ := spans
  simp [rest, place]

theorem current_eq {token : Token} {tokens : List Token} (spans : first.Spans (token :: tokens) second) :
    first.current = token := by
  rw [Parser.current, spans.rest_eq]
  rfl

end Spans

end Parser

namespace Parse

/-- A property of steps that the basic steps have and that lasts when steps are put together. Of the faults only that of the
limit has it, so that it may say which faults there are. -/
structure Lasting (holds : ∀ {α : Type}, Parse α → Prop) : Prop where
  pure : ∀ {α : Type} (value : α), holds (pure value)
  bind : ∀ {α β : Type} {step : Parse α} {next : α → Parse β},
    holds step → (∀ value, holds (next value)) → holds (step >>= next)
  get : holds get
  advance : holds advance
  unreadable : ∀ {α : Type} (error : SyntaxError), holds (unreadable error : Parse α)
  exhausted : ∀ {α : Type}, holds (fault .exhausted : Parse α)
  recovering : ∀ {α : Type} (terminator : Kind) {step : Parse α}, holds step → holds (recovering terminator step)

/-- A property that all faults have as well. -/
structure Compositional (holds : ∀ {α : Type}, Parse α → Prop) : Prop extends Lasting holds where
  fault : ∀ {α : Type} (cause : Fault), holds (fault cause : Parse α)

namespace Lasting

variable {holds : ∀ {α : Type}, Parse α → Prop}

theorem ite (_ : Lasting holds) {α : Type} (condition : Prop) [Decidable condition] {yes no : Parse α}
    (first : holds yes) (second : holds no) : holds (if condition then yes else no) := by
  split
  · exact first
  · exact second

variable (rules : Lasting holds)
include rules

theorem current : holds current := rules.bind rules.get fun _ => rules.pure _

theorem upcoming : holds upcoming := rules.bind rules.get fun _ => rules.pure _

theorem expect (kind : Kind) : holds (expect kind) :=
  rules.bind rules.upcoming fun _ => rules.ite _ rules.advance (rules.unreadable _)

theorem passSemicolon : holds passSemicolon :=
  rules.bind rules.upcoming fun _ => rules.ite _ rules.advance (rules.pure _)

theorem identifier : holds identifier := rules.bind rules.current fun _ => rules.pure _

theorem moreParameters (rounds : Nat) (read : List Node) : holds (moreParameters rounds read) := by
  induction rounds generalizing read with
  | zero => exact rules.exhausted
  | succ rounds ih =>
    exact rules.bind rules.upcoming fun _ => rules.ite _ (rules.bind rules.advance fun _ =>
      rules.bind (rules.expect _) fun _ => rules.bind rules.identifier fun _ => ih _) (rules.pure _)

theorem parameters : holds parameters :=
  rules.bind rules.upcoming fun _ => rules.ite _ (rules.bind rules.advance fun _ => rules.pure _) <|
    rules.bind (rules.expect _) fun _ => rules.bind rules.identifier fun _ => rules.bind rules.get fun _ =>
      rules.bind (rules.moreParameters _ _) fun _ => rules.bind (rules.expect _) fun _ => rules.pure _

section Levels

variable {expression : Int → Parse Node} (below : ∀ floor, holds (expression floor))
include below

theorem statement : holds (statement expression) := by
  refine rules.bind rules.current fun token => ?_
  split
  · exact rules.bind rules.current fun _ => rules.bind (rules.expect _) fun _ => rules.bind rules.identifier fun _ =>
      rules.bind (rules.expect _) fun _ => rules.bind rules.advance fun _ => rules.bind (below _) fun _ =>
        rules.bind rules.passSemicolon fun _ => rules.pure _
  · exact rules.bind rules.current fun _ => rules.bind rules.advance fun _ => rules.bind (below _) fun _ =>
      rules.bind rules.passSemicolon fun _ => rules.pure _
  · exact rules.bind rules.current fun _ => rules.bind (below _) fun _ =>
      rules.bind rules.passSemicolon fun _ => rules.pure _

theorem moreStatements (terminator : Kind) (rounds : Nat) (read : List Node) :
    holds (moreStatements expression terminator rounds read) := by
  induction rounds generalizing read with
  | zero => exact rules.exhausted
  | succ rounds ih =>
    refine rules.bind rules.current fun token => rules.ite _ (rules.pure _) <|
      rules.bind (rules.recovering _ <| rules.bind (rules.statement below) fun _ =>
        rules.bind rules.advance fun _ => rules.pure _) fun node => ?_
    cases node
    · exact ih _
    · exact ih _

theorem statements (terminator : Kind) : holds (statements expression terminator) :=
  rules.bind rules.get fun _ => rules.moreStatements below _ _ _

theorem block : holds (block expression) :=
  rules.bind rules.current fun _ => rules.bind rules.advance fun _ => rules.bind (rules.statements below _) fun _ =>
    rules.bind rules.current fun _ => rules.ite _ (rules.pure _) (rules.unreadable _)

theorem conditional : holds (conditional expression) :=
  rules.bind rules.current fun _ => rules.bind (rules.expect _) fun _ => rules.bind rules.advance fun _ =>
    rules.bind (below _) fun _ => rules.bind (rules.expect _) fun _ => rules.bind (rules.expect _) fun _ =>
      rules.bind (rules.block below) fun _ => rules.bind rules.upcoming fun _ => rules.ite _
        (rules.bind rules.advance fun _ => rules.bind (rules.expect _) fun _ => rules.bind (rules.block below) fun _ =>
          rules.pure _)
        (rules.pure _)

theorem functionLiteral : holds (functionLiteral expression) :=
  rules.bind rules.current fun _ => rules.bind (rules.expect _) fun _ => rules.bind rules.parameters fun _ =>
    rules.bind (rules.expect _) fun _ => rules.bind (rules.block below) fun _ => rules.pure _

theorem moreExpressions (rounds : Nat) (read : List Node) : holds (moreExpressions expression rounds read) := by
  induction rounds generalizing read with
  | zero => exact rules.exhausted
  | succ rounds ih =>
    exact rules.bind rules.upcoming fun _ => rules.ite _ (rules.bind rules.advance fun _ =>
      rules.bind rules.advance fun _ => rules.bind (below _) fun _ => ih _) (rules.pure _)

theorem expressions (closing : Kind) : holds (expressions expression closing) :=
  rules.bind rules.upcoming fun _ => rules.ite _ (rules.bind rules.advance fun _ => rules.pure _) <|
    rules.bind rules.advance fun _ => rules.bind (below _) fun _ => rules.bind rules.get fun _ =>
      rules.bind (rules.moreExpressions below _ _) fun _ => rules.bind (rules.expect _) fun _ => rules.pure _

theorem call (callee : Node) : holds (call expression callee) :=
  rules.bind rules.current fun _ => rules.bind (rules.expressions below _) fun _ => rules.pure _

theorem binary (left : Node) : holds (binary expression left) :=
  rules.bind rules.current fun _ => rules.bind rules.advance fun _ => rules.bind (below _) fun _ => rules.pure _

theorem unary : holds (unary expression) :=
  rules.bind rules.current fun _ => rules.bind rules.advance fun _ => rules.bind (below _) fun _ => rules.pure _

theorem grouped : holds (grouped expression) :=
  rules.bind rules.advance fun _ => rules.bind (below _) fun _ => rules.bind (rules.expect _) fun _ => rules.pure _

theorem operators (floor : Int) (rounds : Nat) (left : Node) : holds (operators expression floor rounds left) := by
  induction rounds generalizing left with
  | zero => exact rules.exhausted
  | succ rounds ih =>
    exact rules.bind rules.upcoming fun _ => rules.ite _
      (rules.ite _ (rules.bind rules.advance fun _ => rules.bind (rules.call below _) fun _ => ih _) <|
        rules.ite _ (rules.bind rules.advance fun _ => rules.bind (rules.binary below _) fun _ => ih _)
          (rules.pure _))
      (rules.pure _)

theorem level (first : holds (operand expression)) (floor : Int) : holds (level expression floor) :=
  rules.bind first fun _ => rules.bind rules.get fun _ => rules.operators below _ _ _

end Levels

theorem expression
    (operands : ∀ {expression : Int → Parse Node}, (∀ floor, holds (expression floor)) → holds (operand expression))
    (limit : Nat) (floor : Int) : holds (expression limit floor) := by
  induction limit generalizing floor with
  | zero => exact rules.exhausted
  | succ limit ih => exact rules.level ih (operands ih) floor

end Lasting

namespace Compositional

variable {holds : ∀ {α : Type}, Parse α → Prop} (rules : Compositional holds)
include rules

theorem integer : holds integer := by
  refine rules.bind rules.current fun token => ?_
  split
  · exact rules.fault _
  · exact rules.ite _ (rules.unreadable _) (rules.pure _)

theorem operand {expression : Int → Parse Node} (below : ∀ floor, holds (expression floor)) :
    holds (operand expression) := by
  refine rules.bind rules.current fun token => ?_
  split
  · exact rules.identifier
  · exact rules.integer
  · exact rules.bind rules.current fun _ => rules.pure _
  · exact rules.bind rules.current fun _ => rules.pure _
  · exact rules.unary below
  · exact rules.unary below
  · exact rules.grouped below
  · exact rules.conditional below
  · exact rules.functionLiteral below
  · exact rules.unreadable _

theorem level {expression : Int → Parse Node} (below : ∀ floor, holds (expression floor)) (floor : Int) :
    holds (level expression floor) :=
  rules.toLasting.level below (rules.operand below) floor

/-- What holds of the basic steps and lasts when steps are put together holds of the whole grammar. -/
theorem expression (limit : Nat) (floor : Int) : holds (expression limit floor) :=
  rules.toLasting.expression rules.operand limit floor

end Compositional

/-- Whatever becomes of the step, it only moves on. -/
def Moving {α : Type} (step : Parse α) : Prop :=
  ∀ before, Ensures step before (fun _ after => before.Moves after) (fun _ after => before.Moves after)

theorem moving : Compositional Moving where
  pure _ before := .refl before
  bind moves others before := by
    rw [ensures_bind]
    refine (moves before).imp (fun value middle earlier => ?_) fun _ _ => id
    exact (others value middle).imp (fun _ _ later => earlier.trans later) fun _ _ later => earlier.trans later
  get before := .refl before
  advance before := .advance before
  unreadable _ before := .refl before
  exhausted before := .refl before
  fault _ before := .refl before
  recovering terminator _ moves before := by
    rw [ensures_recovering]
    refine (moves before).imp (fun _ _ => id) fun failure middle earlier => ?_
    cases failure with
    | unreadable error => exact (earlier.trans (.record _ error)).trans (.synchronize _ terminator)
    | fault _ => exact earlier

end Parse

end MonkeyLang
