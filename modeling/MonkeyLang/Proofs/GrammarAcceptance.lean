import MonkeyLang.Program
import MonkeyLang.Proofs.ParsingCompleteness
import MonkeyLang.Proofs.ParsingProgress
import MonkeyLang.Proofs.ParsingSoundness

/-! Parsing accepts the programs of the grammar and no others. What it returns without an error is the one tree that
the tokens in front of the end of input have; and it gives an answer whenever the limit is above their number. -/

namespace MonkeyLang

open Grammar

/-- The tokens of a program end in front of the first end of input. -/
def Token.upToFinish (tokens : List Token) : List Token := tokens.takeWhile (·.kind ≠ .endOfInput)

namespace Parsed

variable {limit : Nat} {tokens : List Token}

/-- Parsing gave up because the program is nested more deeply than the limit allows. -/
def Exhausted (parsed : Parsed) : Prop := parsed.result = .error (.fault .exhausted)

theorem ofTokens_eq (limit : Nat) (tokens : List Token) : ofTokens limit tokens =
    ⟨((Parse.program limit).outcome (.ofTokens tokens)).1, ((Parse.program limit).outcome (.ofTokens tokens)).2.errors⟩ :=
  rfl

theorem of_ensures {post : Node → Parser → Prop} {stop : Failure → Parser → Prop}
    (ensured : Parse.Ensures (Parse.program limit) (.ofTokens tokens) post stop) :
    (∃ program after, ofTokens limit tokens = ⟨.ok program, after.errors⟩ ∧ post program after) ∨
      ∃ failure after, ofTokens limit tokens = ⟨.error failure, after.errors⟩ ∧ stop failure after := by
  rw [ofTokens_eq]
  obtain ⟨program, after, ends, holds⟩ | ⟨failure, after, ends, holds⟩ := ensured.ends
  · exact .inl ⟨program, after, by rw [ends], holds⟩
  · exact .inr ⟨failure, after, by rw [ends], holds⟩

theorem not_exhausted (enough : (Token.upToFinish tokens).length < limit) : ¬(ofTokens limit tokens).Exhausted := by
  intro exhausted
  rw [Exhausted] at exhausted
  rcases of_ensures (Parse.program_ends (Parser.ofTokens_ready tokens) enough) with
    ⟨program, after, parsed, _⟩ | ⟨failure, after, parsed, other⟩
  · rw [parsed] at exhausted
    cases exhausted
  · rw [parsed] at exhausted
    exact other (Except.error.inj exhausted)

theorem not_exhausted_of_length (enough : tokens.length < limit) : ¬(ofTokens limit tokens).Exhausted :=
  not_exhausted (Nat.lt_of_le_of_lt (List.takeWhile_prefix _).length_le enough)

/-- What was read without an error derives, even where some integers would have too many digits. -/
theorem derives_of_numeric {program : Node} (numeric : (Parser.ofTokens tokens).Numeric)
    (clean : ofTokens limit tokens = ⟨.ok program, []⟩) : Derives .program (Token.upToFinish tokens) program := by
  rcases of_ensures (Parse.program_sound limit numeric) with ⟨read, after, parsed, derives⟩ | ⟨failure, after, parsed, _⟩
  · rw [clean] at parsed
    injection parsed with same noErrors
    cases same
    exact derives noErrors.symm
  · rw [clean] at parsed
    injection parsed with same
    cases same

section Plain

variable (numerals : ∀ token ∈ tokens, token.kind = .integer → Numeral.Plain token.literal)
include numerals

theorem ofTokens_legible : (Parser.ofTokens tokens).Legible where
  toReady := Parser.ofTokens_ready tokens
  numerals token member := numerals token (List.takeWhile_subset _ member)

theorem derives_of_clean {program : Node} (clean : ofTokens limit tokens = ⟨.ok program, []⟩) :
    Derives .program (Token.upToFinish tokens) program :=
  derives_of_numeric (ofTokens_legible numerals).numeric clean

theorem clean_of_derives {program : Node} (derives : Derives .program (Token.upToFinish tokens) program)
    (completed : ¬(ofTokens limit tokens).Exhausted) : ofTokens limit tokens = ⟨.ok program, []⟩ := by
  rcases of_ensures (Parse.program_complete limit derives (ofTokens_legible numerals)) with
    ⟨read, after, parsed, rfl, noErrors⟩ | ⟨failure, after, parsed, exhausted⟩
  · rw [parsed, noErrors]
    rfl
  · refine absurd ?_ completed
    rw [Exhausted, parsed, exhausted]

/-- Parsing decides the grammar: it returns a program and no error where the tokens derive with that program as their
tree, and nowhere else. Limits above the number of tokens are all enough, and no tokens have two trees. -/
theorem parses_iff_derives :
    (∀ limit program, ¬(ofTokens limit tokens).Exhausted →
      (ofTokens limit tokens = ⟨.ok program, []⟩ ↔ Derives .program (Token.upToFinish tokens) program)) ∧
    (∀ limit, (Token.upToFinish tokens).length < limit → ¬(ofTokens limit tokens).Exhausted) ∧
    ∀ first second, Derives .program (Token.upToFinish tokens) first →
      Derives .program (Token.upToFinish tokens) second → first = second := by
  refine ⟨fun limit program completed => ?_, fun limit enough => not_exhausted enough, fun first second one other => ?_⟩
  · exact ⟨derives_of_clean numerals, fun derives => clean_of_derives numerals derives completed⟩
  · have completed := not_exhausted (Nat.lt_succ_self (Token.upToFinish tokens).length)
    have same := (clean_of_derives numerals one completed).symm.trans (clean_of_derives numerals other completed)
    injection same with same
    exact Except.ok.inj same

end Plain

/-- The tokens of `a - 2 * b`, and some that come too late. -/
def difference : List Token :=
  [⟨.identifier, "a", ⟨1, 1⟩⟩, ⟨.minus, "-", ⟨1, 3⟩⟩, ⟨.integer, "2", ⟨1, 5⟩⟩, ⟨.asterisk, "*", ⟨1, 7⟩⟩,
    ⟨.identifier, "b", ⟨1, 9⟩⟩, ⟨.endOfInput, "", ⟨1, 10⟩⟩, ⟨.rightBrace, "\x7d", ⟨2, 1⟩⟩]

theorem difference_derives :
    (∀ token ∈ difference, token.kind = .integer → Numeral.Plain token.literal) ∧
    Derives .program (Token.upToFinish difference) (.program (.sequence
      [.statement (some ⟨.identifier, "a", ⟨1, 1⟩⟩) (.binary (some ⟨.minus, "-", ⟨1, 3⟩⟩)
        (.identifier (some ⟨.identifier, "a", ⟨1, 1⟩⟩) "a") "-"
        (.binary (some ⟨.asterisk, "*", ⟨1, 7⟩⟩) (.integer (some ⟨.integer, "2", ⟨1, 5⟩⟩) 2) "*"
          (.identifier (some ⟨.identifier, "b", ⟨1, 9⟩⟩) "b")))])) := by
  have numerals : ∀ token ∈ difference, token.kind = .integer → Numeral.Plain token.literal := by
    simp only [difference, List.forall_mem_cons, reduceCtorEq, false_implies, true_and, forall_true_left,
      List.not_mem_nil, implies_true, and_true]
    exact ⟨by decide, List.forall_mem_singleton.mpr (by decide), by decide⟩
  have decides := parses_iff_derives numerals
  exact ⟨numerals, (decides.1 9 _ (decides.2.1 9 (by decide))).mp rfl⟩

end Parsed

end MonkeyLang
