import Mathlib.Data.List.Nodup
import MonkeyLang.Token.Cursor

/-! Where the tokens of a text stand: each behind the one before it, so that no token occurs twice. -/

namespace MonkeyLang

namespace Position

/-- The first position comes earlier in a text. -/
def Before (first second : Position) : Prop :=
  first.line < second.line ∨ first.line = second.line ∧ first.column < second.column

variable {first second third : Position}

theorem Before.trans (earlier : first.Before second) (later : second.Before third) : first.Before third := by
  unfold Before at *
  omega

theorem Before.ne (before : first.Before second) : first ≠ second := by
  rintro rfl
  unfold Before at before
  omega

theorem before_after (position : Position) (c : Char) : position.Before (position.after c) := by
  unfold Before after
  split
  · exact .inl (Int.lt_succ _)
  · exact .inr ⟨rfl, Int.lt_succ _⟩

theorem before_afterAll (position : Position) {text : List Char} (some : text ≠ []) :
    position.Before (position.afterAll text) := by
  induction text generalizing position with
  | nil => exact absurd rfl some
  | cons c rest ih =>
    rw [afterAll_cons]
    cases rest with
    | nil => exact before_after position c
    | cons d others => exact (before_after position c).trans (ih _ (List.cons_ne_nil _ _))

theorem eq_or_before_afterAll (position : Position) (text : List Char) :
    position.afterAll text = position ∨ position.Before (position.afterAll text) := by
  cases text with
  | nil => exact .inl rfl
  | cons c rest => exact .inr (before_afterAll position (List.cons_ne_nil _ _))

end Position

namespace Cursor

theorem position_skipGap (cursor : Cursor) :
    cursor.skipGap.position = cursor.position ∨ cursor.position.Before cursor.skipGap.position :=
  cursor.position.eq_or_before_afterAll _

theorem position_nextToken {cursor : Cursor} (lexeme : cursor.skipGap.rest ≠ []) :
    cursor.nextToken.1.position = cursor.skipGap.position ∧
      cursor.nextToken.1.position.Before cursor.nextToken.2.position := by
  obtain ⟨c, rest, text⟩ := List.exists_cons_of_ne_nil lexeme
  simp only [nextToken, cut, text, true_and]
  exact Position.before_afterAll _ (Lexeme.longest_ne_nil c rest)

/-- The tokens stand one behind the other, none in front of the cursor. -/
theorem tokens_placed (cursor : Cursor) :
    (∀ token ∈ cursor.tokens, token.position = cursor.position ∨ cursor.position.Before token.position) ∧
      cursor.tokens.Pairwise (fun first second => first.position.Before second.position) := by
  induction length : cursor.rest.length using Nat.strongRecOn generalizing cursor with
  | ind n ih =>
    by_cases gap : cursor.skipGap.rest = []
    · rw [tokens_of_gap gap]
      exact ⟨List.forall_mem_singleton.mpr cursor.position_skipGap, List.pairwise_singleton _ _⟩
    · obtain ⟨place, further⟩ := position_nextToken gap
      obtain ⟨others, apart⟩ := ih _ (length ▸ nextToken_rest_length gap) cursor.nextToken.2 rfl
      have behind : ∀ token ∈ cursor.nextToken.2.tokens, cursor.nextToken.1.position.Before token.position := by
        intro token member
        rcases others token member with same | later
        · exact same ▸ further
        · exact further.trans later
      have here : cursor.nextToken.1.position = cursor.position ∨ cursor.position.Before cursor.nextToken.1.position :=
        place ▸ cursor.position_skipGap
      rw [tokens_of_lexeme gap]
      refine ⟨List.forall_mem_cons.mpr ⟨here, fun token member => .inr ?_⟩, List.pairwise_cons.mpr ⟨behind, apart⟩⟩
      rcases here with same | later
      · exact same ▸ behind token member
      · exact later.trans (behind token member)

end Cursor

theorem Token.ofText_nodup (text : String) : (Token.ofText text).Nodup :=
  (Cursor.tokens_placed _).2.imp fun before same => before.ne (congrArg Token.position same)

end MonkeyLang
