import Mathlib
import MonkeyLang.Proofs.JoinedTexts

/-! Tokens of a text that stands behind another one. To count lines and columns from some place on is to count them from the
start and to shift what comes out: the first line goes on where the other text ends, and all further ones keep their
columns. -/

namespace MonkeyLang

namespace Position

/-- Where a place in a text comes to lie when another text stands in front. -/
def shifted (front : List Char) (position : Position) : Position :=
  if position.line = 1 then ⟨(behind front).line, (behind front).column + (position.column - 1)⟩
  else ⟨position.line + front.count '\n', position.column⟩

theorem shifted_start (front : List Char) : start.shifted front = behind front := by
  simp [shifted, start]

variable {position : Position}

theorem line_after (c : Char) : position.line ≤ (position.after c).line := by
  unfold after
  split
  · exact Int.le_add_one (Int.le_refl _)
  · exact Int.le_refl _

theorem line_afterAll (text : List Char) : position.line ≤ (position.afterAll text).line := by
  induction text generalizing position with
  | nil => exact Int.le_refl _
  | cons c text ih => exact Int.le_trans (line_after c) ih

theorem shifted_after (front : List Char) (inside : 1 ≤ position.line) (c : Char) :
    (position.shifted front).after c = (position.after c).shifted front := by
  by_cases feed : c = '\n'
  · have later : ¬position.line + 1 = 1 := by omega
    simp only [after, if_pos feed, shifted, if_neg later]
    split
    next first => simp only [behind, first, Position.mk.injEq, and_true]; omega
    next => simp only [Position.mk.injEq, and_true]; omega
  · simp only [after, if_neg feed, shifted]
    split
    · simp only [Position.mk.injEq, true_and]; omega
    · rfl

/-- Counting goes on behind a text as it does from the start. -/
theorem shifted_afterAll (front : List Char) (inside : 1 ≤ position.line) (text : List Char) :
    (position.shifted front).afterAll text = (position.afterAll text).shifted front := by
  induction text generalizing position with
  | nil => rfl
  | cons c text ih => rw [afterAll_cons, shifted_after front inside, ih (Int.le_trans inside (line_after c)), afterAll_cons]

end Position

/-- The token in a text in front of which another text stands. -/
def Token.shifted (front : List Char) (token : Token) : Token := { token with position := token.position.shifted front }

namespace Piece

variable {position : Position}

theorem tokens_append (pieces others : List Piece) :
    tokens position (pieces ++ others) = tokens position pieces ++ tokens (position.afterAll (pieces.flatMap written)) others := by
  induction pieces generalizing position with
  | nil => rfl
  | cons piece pieces ih => rw [List.cons_append, tokens, tokens, ih, List.flatMap_cons, Position.afterAll_append]; rfl

theorem tokens_behind (gap : List Char) (pieces : List Piece) :
    tokens position (behind gap pieces) = tokens (position.afterAll gap) pieces := by
  cases pieces with
  | nil => rfl
  | cons piece pieces => simp only [behind, tokens, written, Position.afterAll_append]

theorem tokens_shifted (front : List Char) (inside : 1 ≤ position.line) (pieces : List Piece) :
    tokens (position.shifted front) pieces = (tokens position pieces).map (Token.shifted front) := by
  induction pieces generalizing position with
  | nil => rfl
  | cons piece pieces ih =>
    have later : 1 ≤ (position.afterAll piece.written).line := Int.le_trans inside (Position.line_afterAll _)
    rw [tokens, tokens, Position.shifted_afterAll front inside, Position.shifted_afterAll front inside, ih later]
    rfl

end Piece

namespace Token

/-- Behind a gap a text is cut into the same tokens as by itself, shifted by what stands in front; and what stands in front
is cut as by itself, up to its end. -/
theorem ofText_behind_gap (first gap second : String) (some : gap ≠ "") (blank : ∀ c ∈ gap.toList, Lexeme.isGap c = true) :
    ∃ tokens, ofText first = tokens ++ [.endAt (.behind first.toList)] ∧
      ofText (first ++ gap ++ second) = tokens ++ (ofText second).map (shifted (first ++ gap).toList) := by
  obtain ⟨pieces, last, front, cut⟩ := Cursor.tokens_segmented first.toList .start
  obtain ⟨pieces', last', back, cut'⟩ := Cursor.tokens_segmented second.toList .start
  obtain ⟨all, last'', whole, cut''⟩ := Cursor.tokens_segmented (first ++ gap ++ second).toList .start
  -- the pieces of the whole text are those of its two parts, with a wider gap between them
  have apart : gap.toList ≠ [] := fun empty => some (String.toList_eq_nil_iff.mp empty)
  rw [String.toList_append, String.toList_append] at whole
  obtain rfl := front.joined back whole apart blank
  have start : (1 : Int) ≤ Position.start.line := Int.le_refl 1
  have origin : Position.start.afterAll (first ++ gap).toList = Position.start.shifted (first ++ gap).toList := by
    rw [Position.afterAll_start, Position.shifted_start]
  have behind : Piece.tokens (Position.start.afterAll (pieces.flatMap Piece.written)) (Piece.behind (last ++ gap.toList) pieces') =
      (Piece.tokens .start pieces').map (shifted (first ++ gap).toList) := by
    rw [Piece.tokens_behind, ← Position.afterAll_append, ← List.append_assoc, ← front.whole, ← String.toList_append, origin,
      Piece.tokens_shifted _ start]
  have ending : Position.start.afterAll (first ++ gap ++ second).toList =
      (Position.start.afterAll second.toList).shifted (first ++ gap).toList := by
    rw [String.toList_append, Position.afterAll_append, origin, Position.shifted_afterAll _ start]
  refine ⟨Piece.tokens .start pieces, Position.afterAll_start first.toList ▸ cut, ?_⟩
  have second' : ofText second = Piece.tokens .start pieces' ++ [.endAt (Position.start.afterAll second.toList)] := cut'
  have together : ofText (first ++ gap ++ second) = _ := cut''
  rw [together, second', Piece.tokens_append, behind, ending, List.map_append, List.append_assoc]
  rfl

/-- Two signs that would be one without the gap. -/
theorem signs_shifted : " \n " ≠ "" ∧ (∀ c ∈ " \n ".toList, Lexeme.isGap c = true) ∧
    ofText ("a=" ++ " \n " ++ "=b\nc") =
      [⟨.identifier, "a", ⟨1, 1⟩⟩, ⟨.assign, "=", ⟨1, 2⟩⟩] ++
      [⟨.assign, "=", ⟨2, 2⟩⟩, ⟨.identifier, "b", ⟨2, 3⟩⟩, ⟨.identifier, "c", ⟨3, 1⟩⟩, .endAt ⟨3, 2⟩] := by
  have blank : ∀ c ∈ " \n ".toList, Lexeme.isGap c = true := List.all_eq_true.mp (by decide)
  obtain ⟨tokens, front, whole⟩ := ofText_behind_gap "a=" " \n " "=b\nc" (by decide) blank
  have cut : ofText "a=" = [⟨.identifier, "a", ⟨1, 1⟩⟩, ⟨.assign, "=", ⟨1, 2⟩⟩] ++ [.endAt (.behind "a=".toList)] := by cbv
  have cut' : (ofText "=b\nc").map (shifted ("a=" ++ " \n ").toList) =
      [⟨.assign, "=", ⟨2, 2⟩⟩, ⟨.identifier, "b", ⟨2, 3⟩⟩, ⟨.identifier, "c", ⟨3, 1⟩⟩, .endAt ⟨3, 2⟩] := by cbv
  obtain rfl := List.append_cancel_right (front.symm.trans cut)
  exact ⟨by decide, blank, whole.trans (congrArg _ cut')⟩

end Token

end MonkeyLang
