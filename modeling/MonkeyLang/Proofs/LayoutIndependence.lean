import MonkeyLang.Proofs.ErrorContainment
import MonkeyLang.Proofs.JoinedPrograms

/-! Layout. Where tokens stand and how their end is marked has no part in what is read: token lists that agree in kinds and
literals up to their ends are read as programs of one shape, with messages that differ in the places they name. -/

namespace MonkeyLang

namespace SyntaxError

/-- The message with its positions written in some way. -/
def wording (place : Position → String) : SyntaxError → String
  | expected kind found =>
    "expected next token to be " ++ kind.name ++ ", got " ++ found.kind.name ++ " (" ++
      Text.quote found.literal ++ ") at " ++ place found.position
  | noExpression found =>
    "no prefix parse function for " ++ found.kind.name ++ " (" ++ Text.quote found.literal ++ ") at " ++
      place found.position
  | tooGreat literal =>
    "could not parse " ++ Text.quote literal.literal ++ " as integer at " ++ place literal.position
  | unclosed opening found =>
    "expected RBRACE to close block opened at " ++ place opening.position ++ ", got " ++ found.kind.name ++
      " at " ++ place found.position

/-- The message without its positions. -/
def placeless : SyntaxError → String := wording fun _ => ""

theorem message_eq_wording (error : SyntaxError) : error.message = error.wording Position.text := by
  cases error <;> rfl

theorem placeless_unplaced (error : SyntaxError) : error.unplaced.placeless = error.placeless := by
  cases error <;> rfl

end SyntaxError

namespace Token

/-- What the tokens say in front of the first end of input. -/
def said (tokens : List Token) : List (Kind × String) :=
  (upToFinish tokens).map fun token => (token.kind, token.literal)

/-- The first end of input, if there is one, has no characters. -/
def EndsEmpty (tokens : List Token) : Prop :=
  ∀ token, tokens.find? (·.kind = .endOfInput) = some token → token.literal = ""

variable {first second : List Token}

theorem unplaced_of_said (same : said first = said second) :
    (upToFinish first).map unplaced = (upToFinish second).map unplaced := by
  have placed := congrArg (List.map fun (kind, literal) => (⟨kind, literal, .nowhere⟩ : Token)) same
  rw [said, said, List.map_map, List.map_map] at placed
  exact placed

end Token

namespace Parser

theorem placeless_of_unplaced {first second : Parser} (same : first.unplaced = second.unplaced) :
    first.errors.map SyntaxError.placeless = second.errors.map SyntaxError.placeless := by
  have errors : first.errors.map SyntaxError.unplaced = second.errors.map SyntaxError.unplaced := congrArg Parser.errors same
  have wordings := congrArg (List.map SyntaxError.placeless) errors
  rw [List.map_map, List.map_map] at wordings
  have kept : SyntaxError.placeless ∘ SyntaxError.unplaced = SyntaxError.placeless := funext SyntaxError.placeless_unplaced
  rwa [kept] at wordings

end Parser

namespace Parsed

/-- Two readings that differ in positions only: both stopped by the same fault, or both with programs of one outline but for
the positions; and with the same messages but for the positions, one by one. -/
structure Alike (first second : Parsed) : Prop where
  result : (first.result.map fun program => program.outline.unplaced) =
    second.result.map fun program => program.outline.unplaced
  errors : first.errors.map SyntaxError.placeless = second.errors.map SyntaxError.placeless

variable {limit : Nat} {tokens tokens' : List Token}

/-- Tokens are read as a program or not at all: a syntax error stays inside. -/
theorem fault_of_stopped {failure : Failure} (stopped : (ofTokens limit tokens).result = .error failure) :
    ∃ cause, failure = .fault cause ∧ cause.Sourced (· ∈ Token.upToFinish tokens) := by
  have supplied : (Parser.ofTokens tokens).Supplied (· ∈ Token.upToFinish tokens) :=
    ⟨Parser.ofTokens_ready tokens, fun _ member => member⟩
  rcases of_ensures (Parse.program_contained limit supplied) with ⟨_, _, parsed, -⟩ | ⟨_, _, parsed, sourced⟩
  · cases stopped.symm.trans (congrArg result parsed)
  · cases stopped.symm.trans (congrArg result parsed)
    exact sourced

theorem alike_of_unplaced (same : (Parser.ofTokens tokens).unplaced = (Parser.ofTokens tokens').unplaced) :
    Alike (ofTokens limit tokens) (ofTokens limit tokens') := by
  have ends := Parse.program_blind limit _ _ same
  have faults {failure : Failure} := @fault_of_stopped limit tokens failure
  have faults' {failure : Failure} := @fault_of_stopped limit tokens' failure
  rw [ofTokens_eq] at faults faults'
  rw [ofTokens_eq, ofTokens_eq]
  generalize (Parse.program limit).outcome (.ofTokens tokens) = ended at *
  generalize (Parse.program limit).outcome (.ofTokens tokens') = ended' at *
  cases ends with
  | ok shape same => exact ⟨congrArg Except.ok (Node.shape_eq_iff.mp shape), Parser.placeless_of_unplaced same⟩
  | error reason same =>
    obtain ⟨cause, rfl, -⟩ := faults rfl
    obtain ⟨cause', rfl, -⟩ := faults' rfl
    cases reason
    exact ⟨rfl, Parser.placeless_of_unplaced same⟩

/-- Where all numerals can be converted, nothing but the limit keeps tokens from being read. -/
theorem program_of_plain (numerals : ∀ token ∈ Token.upToFinish tokens, token.kind = .integer → Numeral.Plain token.literal)
    (completed : ¬(ofTokens limit tokens).Exhausted) : ∃ program, (ofTokens limit tokens).result = .ok program := by
  cases ended : (ofTokens limit tokens).result with
  | ok program => exact ⟨program, rfl⟩
  | error failure =>
    obtain ⟨cause, rfl, sourced⟩ := fault_of_stopped ended
    cases sourced with
    | exhausted => exact absurd ended completed
    | numeral given kind refused => cases refused.symm.trans (Numeral.read_plain (numerals _ given kind))

/-- Token lists that say the same in front of their ends are read alike at every limit, whether an end of input is there or
not and whatever follows it. Where their numerals are plain they are read as programs, limits above their number being all
enough. So texts that are cut into tokens of the same kinds and literals are read alike. -/
theorem reading_ignores_layout :
    (∀ error : SyntaxError, error.message = error.wording Position.text ∧ error.placeless = error.wording fun _ => "") ∧
    (∀ {first second : List Token}, Token.EndsEmpty first → Token.EndsEmpty second → Token.said first = Token.said second →
      ∀ limit, Alike (ofTokens limit first) (ofTokens limit second)) ∧
    (∀ {tokens : List Token},
      (∀ token ∈ Token.upToFinish tokens, token.kind = .integer → Numeral.Plain token.literal) → ∀ limit,
      (¬(ofTokens limit tokens).Exhausted → ∃ program, (ofTokens limit tokens).result = .ok program) ∧
      ((Token.upToFinish tokens).length < limit → ¬(ofTokens limit tokens).Exhausted)) ∧
    ∀ {first second : String}, Token.said (Token.ofText first) = Token.said (Token.ofText second) →
      ∀ limit, Alike (ofText limit first) (ofText limit second) := by
  refine ⟨fun error => ⟨error.message_eq_wording, rfl⟩, ?_, ?_, ?_⟩
  · intro first second ends ends' same limit
    apply alike_of_unplaced
    rw [Parser.ofTokens_unplaced ends, Parser.ofTokens_unplaced ends']
    exact congrArg (Parser.mk · _ []) (Token.unplaced_of_said same)
  · intro tokens numerals limit
    exact ⟨program_of_plain numerals, not_exhausted⟩
  · intro first second same limit
    apply alike_of_unplaced
    rw [ofText_unplaced, ofText_unplaced, Token.lexemes, Token.lexemes, Token.unplaced_of_said same]

/-- The tokens of `let 5; (a` from a column on, and what follows them. -/
def halfOpen (column : Int) (more : List Token) : List Token :=
  [⟨.letWord, "let", ⟨1, column⟩⟩, ⟨.integer, "5", ⟨1, column + 4⟩⟩, ⟨.semicolon, ";", ⟨1, column + 5⟩⟩,
    ⟨.leftParen, "(", ⟨1, column + 7⟩⟩, ⟨.identifier, "a", ⟨1, column + 8⟩⟩] ++ more

/-- An end of input, and what comes too late. -/
def tooLate : List Token := [.endAt ⟨3, 9⟩, ⟨.rightParen, ")", ⟨4, 1⟩⟩]

theorem halfOpen_read_alike :
    Token.EndsEmpty (halfOpen 1 []) ∧ Token.EndsEmpty (halfOpen 5 tooLate) ∧
    Token.said (halfOpen 1 []) = Token.said (halfOpen 5 tooLate) ∧
    (∀ token ∈ Token.upToFinish (halfOpen 1 []), token.kind = .integer → Numeral.Plain token.literal) ∧
    (ofTokens 9 (halfOpen 1 [])).errors =
      [.expected .identifier ⟨.integer, "5", ⟨1, 5⟩⟩, .expected .rightParen (.endAt ⟨1, 10⟩)] ∧
    (ofTokens 9 (halfOpen 5 tooLate)).errors =
      [.expected .identifier ⟨.integer, "5", ⟨1, 9⟩⟩, .expected .rightParen (.endAt ⟨3, 9⟩)] ∧
    (∀ limit, Alike (ofTokens limit (halfOpen 1 [])) (ofTokens limit (halfOpen 5 tooLate))) ∧
    (∃ program, (ofTokens 9 (halfOpen 1 [])).result = .ok program) ∧
    Token.said (Token.ofText "1+a") = Token.said (Token.ofText " 1\n+ a ") ∧
    ∀ limit, Alike (ofText limit "1+a") (ofText limit " 1\n+ a ") := by
  have ends : Token.EndsEmpty (halfOpen 1 []) := by
    intro token found
    cases found
  have ends' : Token.EndsEmpty (halfOpen 5 tooLate) := by
    intro token found
    cases found
    rfl
  have numerals : ∀ token ∈ Token.upToFinish (halfOpen 1 []), token.kind = .integer → Numeral.Plain token.literal := by
    change ∀ token ∈ halfOpen 1 [], token.kind = .integer → Numeral.Plain token.literal
    simp only [halfOpen, List.append_nil, List.forall_mem_cons, reduceCtorEq, false_implies, true_and,
      forall_true_left, List.not_mem_nil, implies_true, and_true]
    exact ⟨by decide, List.forall_mem_singleton.mpr (by decide), by decide⟩
  have reads := reading_ignores_layout.2.2.1 numerals 9
  have texts : Token.said (Token.ofText "1+a") = Token.said (Token.ofText " 1\n+ a ") := by cbv
  exact ⟨ends, ends', rfl, numerals, rfl, rfl, reading_ignores_layout.2.1 ends ends' rfl, reads.1 (reads.2 (by decide)),
    texts, reading_ignores_layout.2.2.2 texts⟩

end Parsed

end MonkeyLang
