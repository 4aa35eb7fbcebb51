import MonkeyLang.Proofs.PlacelessParsing
import MonkeyLang.Proofs.TokenCoverage

/-! Texts put one behind the other with a gap between them. No lexeme reaches across the gap, so that the tokens are those
of the one text and then those of the other, in other places. -/

namespace MonkeyLang

/-- The pieces with more of a gap in front of them. -/
def Piece.behind (gap : List Char) : List Piece → List Piece
  | [] => []
  | piece :: pieces => { piece with gap := gap ++ piece.gap } :: pieces

namespace Segmented

variable {text text' gap last last' : List Char} {pieces pieces' : List Piece}

theorem behind (segmented : Segmented text pieces last) (blank : ∀ c ∈ gap, Lexeme.isGap c = true) :
    ∃ last', Segmented (gap ++ text) (Piece.behind gap pieces) last' := by
  cases pieces with
  | nil =>
    obtain ⟨rfl, all⟩ := nil_iff.mp segmented
    exact ⟨gap ++ last, nil_iff.mpr ⟨rfl, List.forall_mem_append.mpr ⟨blank, all⟩⟩⟩
  | cons piece pieces =>
    obtain ⟨inside, spells, rest, rfl, ended, others⟩ := cons_iff.mp segmented
    have wider : ∀ c ∈ gap ++ piece.gap, Lexeme.isGap c = true := List.forall_mem_append.mpr ⟨blank, inside⟩
    exact ⟨last, cons_iff.mpr ⟨wider, spells, rest, (List.append_assoc ..).symm, ended, others⟩⟩

theorem append (first : Segmented text pieces last) (second : Segmented text' pieces' last') (some : gap ≠ [])
    (blank : ∀ c ∈ gap, Lexeme.isGap c = true) :
    ∃ last'', Segmented (text ++ (gap ++ text')) (pieces ++ Piece.behind (last ++ gap) pieces') last'' := by
  induction pieces generalizing text with
  | nil =>
    obtain ⟨rfl, all⟩ := nil_iff.mp first
    rw [← List.append_assoc]
    exact second.behind (List.forall_mem_append.mpr ⟨all, blank⟩)
  | cons piece pieces ih =>
    obtain ⟨inside, spells, rest, rfl, ended, others⟩ := cons_iff.mp first
    obtain ⟨last'', whole⟩ := ih others
    refine ⟨last'', cons_iff.mpr ⟨inside, spells, rest ++ (gap ++ text'), by simp, ?_, whole⟩⟩
    cases rest with
    | nil =>
      obtain ⟨c, more, rfl⟩ := List.exists_cons_of_ne_nil some
      refine ended_of_gap ?_
      rintro _ ⟨⟩
      exact blank c List.mem_cons_self
    | cons c rest => exact ⟨ended.word, ended.number, ended.sign⟩

/-- Over a gap a text can be cut in one way, which is that of its two parts. -/
theorem joined {all : List Piece} {last'' : List Char} (first : Segmented text pieces last)
    (second : Segmented text' pieces' last') (whole : Segmented (text ++ gap ++ text') all last'') (some : gap ≠ [])
    (blank : ∀ c ∈ gap, Lexeme.isGap c = true) : all = pieces ++ Piece.behind (last ++ gap) pieces' := by
  obtain ⟨finish, together⟩ := first.append second some blank
  rw [List.append_assoc] at whole
  exact (whole.unique together).1

end Segmented

namespace Piece

/-- The token of a piece, wherever it stands. -/
def lexeme (piece : Piece) : Token := ⟨piece.kind, String.ofList piece.text, .nowhere⟩

theorem unplaced_tokens (position : Position) (pieces : List Piece) :
    (tokens position pieces).map Token.unplaced = pieces.map lexeme := by
  induction pieces generalizing position with
  | nil => rfl
  | cons piece pieces ih => exact congrArg (_ :: ·) (ih _)

theorem lexeme_behind (gap : List Char) (pieces : List Piece) : (behind gap pieces).map lexeme = pieces.map lexeme := by
  cases pieces with
  | nil => rfl
  | cons piece pieces => rfl

end Piece

namespace Token

/-- What a text says: its tokens up to the end of input, wherever they stand. -/
def lexemes (text : String) : List Token := (upToFinish (ofText text)).map unplaced

/-- The end of input is the last token of a text and there is no other one. -/
theorem ofText_eq (text : String) : ∃ finish, ofText text = upToFinish (ofText text) ++ [.endAt finish] ∧
    ∃ pieces last, Segmented text.toList pieces last ∧ lexemes text = pieces.map Piece.lexeme := by
  obtain ⟨pieces, last, segmented, cut⟩ := Cursor.tokens_segmented text.toList .start
  have all : ofText text = Piece.tokens .start pieces ++ [.endAt (Position.start.afterAll text.toList)] := cut
  have more : ∀ token ∈ Piece.tokens .start pieces, token.kind ≠ .endOfInput := by
    intro token member
    have among := List.mem_map_of_mem (f := fun token : Token => (token.kind, token.literal.toList)) member
    rw [Piece.kinds_tokens, List.mem_map] at among
    obtain ⟨piece, known, same⟩ := among
    rw [← (Prod.mk.inj same).1]
    exact (segmented.spells piece known).ne_endOfInput
  have front : upToFinish (ofText text) = Piece.tokens .start pieces := by
    rw [all, upToFinish, List.takeWhile_append_of_pos fun token member => by simpa using more token member]
    simp [endAt]
  refine ⟨_, by rw [front, all], pieces, last, segmented, ?_⟩
  rw [lexemes, front, Piece.unplaced_tokens]

/-- A text behind a gap is read as it is without what is in front of the gap. -/
theorem lexemes_append (first second : String) {gap : List Char} (some : gap ≠ [])
    (blank : ∀ c ∈ gap, Lexeme.isGap c = true) :
    lexemes (first ++ String.ofList gap ++ second) = lexemes first ++ lexemes second := by
  obtain ⟨-, -, pieces, last, front, read⟩ := ofText_eq first
  obtain ⟨-, -, pieces', last', back, read'⟩ := ofText_eq second
  obtain ⟨-, -, all, last'', whole, read''⟩ := ofText_eq (first ++ String.ofList gap ++ second)
  rw [String.toList_append, String.toList_append, String.toList_ofList] at whole
  obtain rfl := front.joined back whole some blank
  rw [read, read', read'', List.map_append, Piece.lexeme_behind]

/-- Lines are read one after the other. -/
theorem lexemes_lines (lines : List String) : lexemes ("\n".intercalate lines) = lines.flatMap lexemes := by
  induction lines with
  | nil =>
    have nothing : ofText "" = [.endAt .start] := Cursor.tokens_of_gap rfl
    rw [String.intercalate_nil, lexemes, nothing]
    rfl
  | cons line rest ih =>
    cases rest with
    | nil => rw [String.intercalate_singleton, List.flatMap_singleton]
    | cons next rest =>
      have gap : "\n" = String.ofList ['\n'] := rfl
      rw [String.intercalate_cons_cons, List.flatMap_cons, ← ih]
      rw [gap, lexemes_append line _ (List.cons_ne_nil _ _) (List.forall_mem_singleton.mpr rfl)]

end Token

end MonkeyLang
