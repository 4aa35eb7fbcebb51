import Mathlib
import MonkeyLang.Proofs.GrammarAcceptance
import MonkeyLang.Proofs.RenderingReads

/-! Rendering and parsing are inverse to each other. Whatever program was parsed, with errors or without, its text is
parsed without an error as a program that differs from it in positions only; and two programs have the same text just
where they differ in positions only. -/

namespace MonkeyLang

namespace Parsed

theorem ofText_supplied (text : String) : (Parser.ofTokens (Token.ofText text)).Supplied Token.Spelled where
  toReady := Parser.ofTokens_ready _
  given token member := by
    have inside := List.takeWhile_subset _ member
    exact Cursor.spelled_of_mem inside ((Parser.ofTokens_ready _).rest token member)

theorem built_of_parsed {limit : Nat} {text : String} {program : Node}
    (parsed : (ofText limit text).result = .ok program) : Node.Built Token.Spelled .program program := by
  rcases of_ensures (Parse.program_builds limit (ofText_supplied text)) with
    ⟨read, after, ends, _, built⟩ | ⟨failure, after, ends, _⟩
  · rw [ofText, ends] at parsed
    cases parsed
    exact built
  · rw [ofText, ends] at parsed
    cases parsed

/-- The text of a tree that was built is a text of the grammar, and its numbers can be converted. -/
theorem derives_of_built {program : Node} (built : Node.Built Token.Spelled .program program) :
    ∃ again, Grammar.Derives .program (Token.upToFinish (Token.ofText program.render)) again ∧
      again.shape = program.shape ∧
      ∀ token ∈ Token.ofText program.render, token.kind = .integer → Numeral.Plain token.literal := by
  obtain ⟨tokens, later, cut, usable, again, derives, shape⟩ := built.reading [] .start .nil
  rw [List.append_nil] at cut
  have finish : Cursor.tokens ⟨[], later⟩ = [.endAt later] := Cursor.tokens_of_gap rfl
  have all : Token.ofText program.render = tokens ++ [.endAt later] := by rw [← finish, ← cut]; rfl
  have front : Token.upToFinish (Token.ofText program.render) = tokens := by
    rw [all, Token.upToFinish, List.takeWhile_append_of_pos fun token member => by simpa using (usable token member).more]
    simp [Token.endAt]
  refine ⟨again, front ▸ derives, shape, ?_⟩
  rw [all]
  intro token member kind
  rcases List.mem_append.mp member with inside | last
  · exact (usable token inside).plain kind
  · rw [List.mem_singleton.mp last] at kind
    cases kind

/-- What was parsed from any text, with or without recorded errors, has a text; that text is parsed as a program of the
same shape, with no error and the same text again. Limits above the number of its tokens are all enough. Two parsed
programs have the same text just where they have the same outline but for the positions. -/
theorem rendering_round_trip {limit : Nat} {text : String} {program : Node}
    (parsed : (ofText limit text).result = .ok program) :
    (∀ depth, program.height ≤ depth → program.text? depth = .ok program.render) ∧
    (∀ depth, ¬(ofText depth program.render).Exhausted → ∃ again, ofText depth program.render = ⟨.ok again, []⟩ ∧
      again.outline.unplaced = program.outline.unplaced ∧ again.render = program.render) ∧
    (∀ depth, (Token.ofText program.render).length < depth → ¬(ofText depth program.render).Exhausted) ∧
    ∀ limit' text' other, (ofText limit' text').result = .ok other →
      (program.render = other.render ↔ program.outline.unplaced = other.outline.unplaced) := by
  have enough : ∀ text depth, (Token.ofText text).length < depth → ¬(ofText depth text).Exhausted :=
    fun text depth room => not_exhausted (Nat.lt_of_le_of_lt (List.takeWhile_prefix _).length_le room)
  have built := built_of_parsed parsed
  obtain ⟨again, derives, shape, numerals⟩ := derives_of_built built
  refine ⟨fun depth room => ?_, fun depth completed => ?_, enough _, fun limit' text' other parsed' => ?_⟩
  · rw [built.text Node.FromSource.writable, if_neg (Nat.not_lt.mpr room)]
  · refine ⟨again, clean_of_derives numerals derives completed, Node.shape_eq_iff.mp shape, ?_⟩
    rw [← Node.render_shape, shape, Node.render_shape]
  · rw [← Node.shape_eq_iff]
    constructor
    · intro same
      obtain ⟨again', derives', shape', numerals'⟩ := derives_of_built (built_of_parsed parsed')
      rw [← same] at derives'
      have completed := enough program.render _ (Nat.lt_succ_self _)
      have read := clean_of_derives numerals derives completed
      rw [clean_of_derives numerals derives' completed] at read
      injection read with read
      rw [← shape, ← shape', Except.ok.inj read]
    · intro same
      rw [← Node.render_shape, same, Node.render_shape]

/-- The program that is left of `let 5; -a`. -/
def negation : Node :=
  .program (.sequence [.statement (some ⟨.minus, "-", ⟨1, 8⟩⟩) (.unary (some ⟨.minus, "-", ⟨1, 8⟩⟩) "-"
    (.identifier (some ⟨.identifier, "a", ⟨1, 9⟩⟩) "a"))])

theorem negation_round_trip : (ofText 9 "let 5; -a").result = .ok negation ∧
    ∃ again, ofText 9 negation.render = ⟨.ok again, []⟩ ∧
      again.outline.unplaced = negation.outline.unplaced ∧ again.render = negation.render := by
  have parsed : (ofText 9 "let 5; -a").result = .ok negation := by cbv
  have round := rendering_round_trip parsed
  exact ⟨parsed, round.2.1 9 (round.2.2.1 9 (by cbv))⟩

end Parsed

end MonkeyLang
