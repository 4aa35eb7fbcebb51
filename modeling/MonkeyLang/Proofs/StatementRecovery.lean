import Mathlib
import MonkeyLang.Proofs.RecoveryNesting
import MonkeyLang.Proofs.TokenPlaces

/-! Recovery from a malformed statement, measured against the nesting of braces. It goes on where the nesting says but
for one slip: where a statement fails right behind the closing brace of a block, that brace is taken for the one around
the statement. -/

namespace MonkeyLang

/-- The tokens of a text are no token twice, with the end of input among them. -/
theorem Parser.ofTokens_text_nodup {tokens : List Token} (distinct : tokens.Nodup) : (ofTokens tokens).text.Nodup := by
  have ready := ofTokens_ready tokens
  refine List.nodup_append.mpr ⟨distinct.sublist (List.takeWhile_sublist _), List.nodup_singleton _, ?_⟩
  intro token member finish same equal
  rw [List.mem_singleton] at same
  exact ready.rest token member (equal ▸ same ▸ ready.finish)

namespace Parse

variable {before : Parser}

/-- A malformed statement adds one error to its list. The list goes on where the nesting of braces says if no error, this
one included, is about a parenthesis missing right behind a brace; and only then, as far as the text has no token twice
and something is left of it. Just so a block ends on the brace that matches its own. -/
theorem recovery_follows_braces (ready : before.Ready) (limit : Nat) :
    (∀ terminator error stopped, terminator = .rightBrace ∨ terminator = .endOfInput →
      (statement (expression limit)).outcome before = (.error (.unreadable error), stopped) →
      ∃ depth resumed, before.Descends depth stopped ∧
        (recovering terminator (do let node ← statement (expression limit); advance; return node)).outcome before =
          (.ok none, resumed) ∧
        resumed.errors = stopped.errors ++ [error] ∧
        (before.Quiet before.text resumed → Recovery.Lands terminator depth stopped.rest resumed.rest) ∧
        (before.text.Nodup → Recovery.Lands terminator depth stopped.rest resumed.rest →
          before.Quiet before.text resumed ∨ resumed.rest = [])) ∧
    ∀ node after, before.current.kind = .leftBrace →
      (block (expression limit)).outcome before = (.ok node, after) →
      after.current.kind = .rightBrace ∧
        (before.Quiet before.text after → before.advance.Descends 0 after) ∧
        (before.text.Nodup → before.advance.Descends 0 after → before.Quiet before.text after) := by
  have inside : before.Inside before.text := ⟨ready, List.suffix_refl _⟩
  have balances : ∀ floor (start : Parser), start.Inside before.text →
      Balances before.text start (expression limit floor) start := fun floor _ => expression_balances limit floor
  constructor
  · intro terminator error stopped list fails
    obtain ⟨moves, depth, descends, place⟩ := (statement_balances balances inside).of_error fails
    have recovers : (recovering terminator (do let node ← statement (expression limit); advance; return node)).outcome
        before = (.ok none, (stopped.record error).synchronize terminator) := by
      refine Ensures.outcome_eq ?_
      rw [ensures_recovering, ensures_bind, Ensures, fails]
    have right : Recovery.Lands terminator depth stopped.rest (Recovery.skip terminator 0 stopped.rest) ↔
        depth = 0 ∨ Recovery.skip terminator 0 stopped.rest = [] :=
      Recovery.lands_from_outside list (moves.ready ready).rest
    refine ⟨depth, (stopped.record error).synchronize terminator, descends, recovers, rfl, ?_⟩
    obtain slips | ended := place
    · exact ⟨fun quiet => right.mpr (.inl (slips.none quiet)), fun distinct lands =>
        (right.mp lands).imp_left (slips.quiet distinct)⟩
    · have nothing : Recovery.skip terminator 0 stopped.rest = [] :=
        List.suffix_nil.mp (ended ▸ Recovery.skip_suffix terminator 0 stopped.rest)
      exact ⟨fun _ => right.mpr (.inr nothing), fun _ _ => .inr nothing⟩
  · intro node after opening returns
    obtain ⟨-, closing, count, descends, slips⟩ := (block_closes balances inside opening).of_ok returns
    refine ⟨closing, fun quiet => ?_, fun distinct matched => ?_⟩
    · exact slips.none quiet ▸ descends
    · exact slips.quiet distinct (descends.unique matched)

/-- The tokens of `f(fn() { let }, { 3; } 4); 5`. -/
def brokenCall : Parser := .ofTokens (Token.ofText "f(fn() \x7b let \x7d, \x7b 3; \x7d 4); 5")

theorem brokenCall_resumes : brokenCall.Ready ∧ brokenCall.text.Nodup ∧ ∃ error stopped depth resumed,
    (statement (expression 9)).outcome brokenCall = (.error (.unreadable error), stopped) ∧
      brokenCall.Quiet brokenCall.text resumed ∧ brokenCall.Descends depth stopped ∧
      Recovery.Lands .endOfInput depth stopped.rest resumed.rest := by
  have ready : brokenCall.Ready := Parser.ofTokens_ready _
  have fails : (statement (expression 9)).outcome brokenCall =
      (.error (.unreadable (.noExpression ⟨.leftBrace, "\x7b", ⟨1, 17⟩⟩)),
        ((statement (expression 9)).outcome brokenCall).2) := Prod.ext (by cbv) rfl
  obtain ⟨depth, resumed, descends, -, errors, lands, -⟩ :=
    (recovery_follows_braces ready 9).1 .endOfInput _ _ (.inr rfl) fails
  have quiet : brokenCall.Quiet brokenCall.text resumed := by
    have recorded : ((statement (expression 9)).outcome brokenCall).2.errors =
        [.expected .identifier ⟨.rightBrace, "\x7d", ⟨1, 14⟩⟩] := by cbv
    intro error member
    rw [errors, recorded] at member
    have one := List.mem_of_mem_drop member
    simp only [List.cons_append, List.nil_append, List.mem_cons, List.not_mem_nil, or_false] at one
    rintro ⟨_, _, _, _, -, -, rfl⟩
    rcases one with same | same <;> cases same
  have distinct := Parser.ofTokens_text_nodup (Token.ofText_nodup "f(fn() \x7b let \x7d, \x7b 3; \x7d 4); 5")
  exact ⟨ready, distinct, _, _, depth, resumed, fails, quiet, descends, lands quiet⟩

/-- The tokens of `(fn() { 1 } 2); 3`. -/
def brokenGroup : Parser := .ofTokens (Token.ofText "(fn() \x7b 1 \x7d 2); 3")

/-- The statement fails one brace deep, on the brace that closes the function, and that is where it is taken to end. -/
theorem brokenGroup_slips : ∃ error stopped depth resumed,
    (statement (expression 9)).outcome brokenGroup = (.error (.unreadable error), stopped) ∧
      brokenGroup.Descends depth stopped ∧
      (recovering .endOfInput (do let node ← statement (expression 9); advance; return node)).outcome brokenGroup =
        (.ok none, resumed) ∧
      ¬Recovery.Lands .endOfInput depth stopped.rest resumed.rest := by
  refine ⟨.expected .rightParen ⟨.integer, "2", ⟨1, 13⟩⟩, ⟨brokenGroup.rest.drop 6, brokenGroup.finish, []⟩, 1,
    ⟨brokenGroup.rest.drop 7, brokenGroup.finish, [.expected .rightParen ⟨.integer, "2", ⟨1, 13⟩⟩]⟩, by cbv,
    ⟨brokenGroup.rest.take 6, by cbv, by cbv⟩, by cbv, ?_⟩
  have more : ∀ token ∈ brokenGroup.rest.drop 6, token.kind ≠ .endOfInput := fun token member =>
    (Parser.ofTokens_ready _).rest token (List.mem_of_mem_drop member)
  rw [Recovery.lands_iff (.inr rfl) more]
  cbv
  exact fun same => absurd (congrArg List.length same) (by decide)

end Parse

end MonkeyLang
