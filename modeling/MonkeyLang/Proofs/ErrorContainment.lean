import MonkeyLang.Proofs.CharacterReads
import MonkeyLang.Proofs.RenderingRoundTrip

/-! What comes out of parsing a text. A syntax error stops the statement that it is in, and the list of statements around it
records the error and goes on; so none of them leaves the parser. What can stop it is the limit and a number with too many
digits, and no character is asked for that the text does not have. -/

namespace MonkeyLang

/-- The faults that parsing tokens of a source can end in. -/
inductive Fault.Sourced (source : Token → Prop) : Fault → Prop
  | exhausted : Sourced source .exhausted
  | numeral {token : Token} {reason : Numeral.Fault} (given : source token) (kind : token.kind = .integer)
      (refused : Numeral.read token.literal = .error reason) : Sourced source (.numeral reason)

namespace Parse

variable {source : Token → Prop} {before : Parser}

theorem Ensures.of_all {α : Type} {step : Parse α} {post : α → Parser → Prop} {stop : Failure → Parser → Prop}
    (result : ∀ value after, post value after) (stopped : ∀ failure after, stop failure after) :
    Ensures step before post stop := by
  unfold Ensures
  split
  · exact result _ _
  · exact stopped _ _

/-- On tokens of the source the step stops at a syntax error or at one of those faults. -/
def Contained (source : Token → Prop) {α : Type} (step : Parse α) : Prop :=
  ∀ before : Parser, before.Supplied source → Ensures step before (fun _ after => after.Supplied source)
    (fun failure after => after.Supplied source ∧ ∀ cause, failure = .fault cause → cause.Sourced source)

theorem contained : Lasting (Contained source) where
  pure _ _ supplied := supplied
  bind first later before supplied := by
    rw [ensures_bind]
    exact (first before supplied).imp (fun value after left => later value after left) fun _ _ => id
  get _ supplied := supplied
  advance _ supplied := supplied.advance
  unreadable _ _ supplied := ⟨supplied, nofun⟩
  exhausted _ supplied := ⟨supplied, fun _ same => Failure.fault.inj same ▸ .exhausted⟩
  recovering terminator _ step before supplied := by
    rw [ensures_recovering]
    apply (step before supplied).imp (fun _ _ => id)
    intro failure after stopped
    cases failure with
    | unreadable error => exact ((Parser.Moves.record after error).trans (.synchronize _ terminator)).supplied stopped.1
    | fault cause => exact stopped

theorem integer_contained (supplied : before.Supplied source) (kind : before.current.kind = .integer) :
    Ensures integer before (fun _ after => after.Supplied source)
      (fun failure after => after.Supplied source ∧ ∀ cause, failure = .fault cause → cause.Sourced source) := by
  simp only [integer, ensures_bind, ensures_current]
  split
  next reason refused =>
    refine ⟨supplied, ?_⟩
    intro cause same
    cases same
    exact .numeral (supplied.current (by simp [kind])) kind refused
  next =>
    rw [ensures_ite]
    refine ⟨fun _ => ⟨supplied, ?_⟩, fun _ => supplied⟩
    intro cause same
    cases same

theorem operand_contained {expression : Int → Parse Node} (below : ∀ floor, Contained source (expression floor)) :
    Contained source (operand expression) := by
  intro before supplied
  simp only [operand, ensures_bind, ensures_current]
  split
  next => exact supplied
  next kind => exact integer_contained supplied kind
  next => exact supplied
  next => exact supplied
  next => exact contained.unary below before supplied
  next => exact contained.unary below before supplied
  next => exact contained.grouped below before supplied
  next => exact contained.conditional below before supplied
  next => exact contained.functionLiteral below before supplied
  next => exact contained.unreadable _ before supplied

theorem statements_contained (limit : Nat) (terminator : Kind) : Contained source (statements (expression limit) terminator) :=
  contained.statements (contained.expression operand_contained limit) terminator

/-- A list of statements catches every syntax error in it. -/
theorem moreStatements_recovers {expression : Int → Parse Node} (terminator : Kind) (rounds : Nat) (read : List Node) :
    Ensures (moreStatements expression terminator rounds read) before (fun _ _ => True)
      (fun failure _ => ∃ cause, failure = .fault cause) := by
  induction rounds generalizing read before with
  | zero => exact ⟨_, rfl⟩
  | succ rounds ih =>
    rw [moreStatements, ensures_bind, ensures_current, ensures_ite]
    refine ⟨fun _ => trivial, fun _ => ?_⟩
    rw [ensures_bind, ensures_recovering]
    apply Ensures.of_all
    · intro node after
      exact ih _
    · intro failure after
      cases failure with
      | unreadable error => exact ih _
      | fault cause => exact ⟨cause, rfl⟩

/-- A program is read or stops at one of the faults. -/
theorem program_contained (limit : Nat) (supplied : before.Supplied source) :
    Ensures (program limit) before (fun _ _ => True)
      (fun failure _ => ∃ cause, failure = .fault cause ∧ cause.Sourced source) := by
  rw [program, ensures_bind]
  have recovers : Ensures (statements (expression limit) .endOfInput) before (fun _ _ => True)
      (fun failure _ => ∃ cause, failure = .fault cause) := by
    rw [statements, ensures_bind, ensures_get]
    exact moreStatements_recovers .endOfInput _ []
  apply ((statements_contained limit .endOfInput before supplied).and recovers).imp
  · intro nodes after _
    trivial
  · intro failure after stopped
    obtain ⟨⟨-, sourced⟩, cause, same⟩ := stopped
    exact ⟨cause, same, sourced cause same⟩

end Parse

/-- A number among the tokens of a text is a run of digits in it. -/
theorem Token.number_of_text {text : String} {token : Token} (member : token ∈ Token.ofText text)
    (kind : token.kind = .integer) : token.literal.toList ≠ [] ∧ (∀ c ∈ token.literal.toList, Numeral.IsDigit c) ∧
      ∃ front behind, text.toList = front ++ (token.literal.toList ++ behind) := by
  have more : token.kind ≠ .endOfInput := by simp [kind]
  have spelled : token.Spelled := Cursor.spelled_of_mem member more
  obtain ⟨some, digits⟩ := spelled.digits kind
  refine ⟨some, digits, ?_⟩
  obtain ⟨placed, last, tokens, covers, -⟩ := Token.ofText_covers text
  rw [tokens, List.mem_append, List.mem_singleton] at member
  rcases member with inside | rfl
  · obtain ⟨item, among, rfl⟩ := List.mem_map.mp inside
    obtain ⟨earlier, later, rfl⟩ := List.append_of_mem among
    refine ⟨earlier.flatMap Placed.written ++ item.gap, later.flatMap Placed.written ++ last, ?_⟩
    rw [covers.whole]
    simp [Placed.written]
  · exact absurd rfl more

namespace Parsed

/-- What keeps a text from being read as a program. -/
theorem stopped_of_text {limit : Nat} {text : String} {failure : Failure}
    (stopped : (ofText limit text).result = .error failure) :
    failure = .fault .exhausted ∧ limit ≤ (Token.ofText text).length ∨
      ∃ front digits behind, text.toList = front ++ (digits ++ behind) ∧ (∀ c ∈ digits, Numeral.IsDigit c) ∧
        Numeral.digitLimit < digits.length ∧ failure = .fault (.numeral (.tooManyDigits digits.length)) := by
  have supplied : (Parser.ofTokens (Token.ofText text)).Supplied (· ∈ Token.ofText text) :=
    ⟨Parser.ofTokens_ready _, fun _ member => List.takeWhile_subset _ member⟩
  rcases of_ensures (Parse.program_contained limit supplied) with
    ⟨program, after, parsed, -⟩ | ⟨failure, after, parsed, cause, rfl, sourced⟩
  · cases stopped.symm.trans (congrArg result parsed)
  · cases stopped.symm.trans (congrArg result parsed)
    cases sourced with
    | exhausted =>
      refine .inl ⟨rfl, ?_⟩
      by_contra room
      exact not_exhausted_of_length (Nat.lt_of_not_le room) stopped
    | numeral given kind refused =>
      obtain ⟨some, digits, front, behind, whole⟩ := Token.number_of_text given kind
      rw [Numeral.read_digits some digits] at refused
      split at refused
      next many =>
        cases refused
        exact .inr ⟨front, _, behind, whole, digits, many, rfl⟩
      next => cases refused

/-- Parsing a text gives a program with the messages that were recorded. Otherwise the limit was reached, which cannot be
where it is above the number of tokens, or the text has a run of too many digits; no syntax error and no other fault comes
out. And however often a token is read character by character, no character is asked for past the end of the text: what
comes are the tokens, and the end of input from then on. -/
theorem errors_are_contained (limit : Nat) (text : String) :
    ((∃ program, (ofText limit text).result = .ok program) ∨
      (ofText limit text).Exhausted ∧ limit ≤ (Token.ofText text).length ∨
      ∃ front digits behind, text.toList = front ++ (digits ++ behind) ∧ (∀ c ∈ digits, Numeral.IsDigit c) ∧
        Numeral.digitLimit < digits.length ∧
        (ofText limit text).result = .error (.fault (.numeral (.tooManyDigits digits.length)))) ∧
    ∀ calls, ∃ after, (Window.ofText text.toList).readTokens calls =
      .ok ((Token.ofText text ++ List.replicate calls (Token.endAt (.behind text.toList))).take calls, after) := by
  constructor
  · cases ended : (ofText limit text).result with
    | ok program => exact .inl ⟨program, rfl⟩
    | error failure =>
      rcases stopped_of_text ended with ⟨rfl, reached⟩ | ⟨front, digits, behind, whole, run, many, rfl⟩
      · exact .inr (.inl ⟨ended, reached⟩)
      · exact .inr (.inr ⟨front, digits, behind, whole, run, many, rfl⟩)
  · intro calls
    obtain ⟨after, read, -⟩ := Window.nextTokens_ofText text.toList calls
    rw [Window.readTokens_ofText]
    exact ⟨after, read⟩

end Parsed

end MonkeyLang
