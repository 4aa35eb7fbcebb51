import MonkeyLang.Token.Lexeme

/-! Cutting a text into tokens. A cursor is the text that is still to be cut with the position of its first
character; each token is the longest lexeme after the gap at the cursor, and the end of the text is a token
that repeats for ever. -/

namespace MonkeyLang

/-- A place in a text: what is left of it and where that begins. -/
structure Cursor where
  rest : List Char
  position : Position
deriving DecidableEq

namespace Cursor

def ofText (text : List Char) : Cursor := ⟨text, .start⟩

def skipGap (cursor : Cursor) : Cursor :=
  ⟨cursor.rest.dropWhile Lexeme.isGap, cursor.position.afterAll (cursor.rest.takeWhile Lexeme.isGap)⟩

/-- The token at the front of the text, with no gap before it, and the cursor after it. -/
def cut (cursor : Cursor) : Token × Cursor :=
  match cursor.rest with
  | [] => (.endAt cursor.position, cursor)
  | c :: rest =>
    let lexeme := Lexeme.longest c rest
    (⟨lexeme.kind, String.ofList lexeme.text, cursor.position⟩,
      ⟨lexeme.rest, cursor.position.afterAll lexeme.text⟩)

/-- The next token of the text and the cursor after it. -/
def nextToken (cursor : Cursor) : Token × Cursor := cursor.skipGap.cut

/-- A token that is not the end of input leaves less text than there was. -/
theorem nextToken_rest_length {cursor : Cursor} (lexeme : cursor.skipGap.rest ≠ []) :
    cursor.nextToken.2.rest.length < cursor.rest.length := by
  have gap := congrArg List.length (List.takeWhile_append_dropWhile (p := Lexeme.isGap) (l := cursor.rest))
  cases text : cursor.rest.dropWhile Lexeme.isGap with
  | nil => exact absurd text lexeme
  | cons c rest =>
    have shorter := Lexeme.longest_rest_length c rest
    rw [text, List.length_append, List.length_cons] at gap
    simp only [nextToken, skipGap, cut, text]
    omega

/-- The tokens of the text in front of those already taken, the last of which comes first. -/
def collect (taken : List Token) (cursor : Cursor) : List Token :=
  if cursor.skipGap.rest = [] then (cursor.nextToken.1 :: taken).reverse
  else collect (cursor.nextToken.1 :: taken) cursor.nextToken.2
termination_by cursor.rest.length
decreasing_by exact nextToken_rest_length (by assumption)

/-- All tokens from the cursor up to the first end of input. -/
def tokens (cursor : Cursor) : List Token := collect [] cursor

/-- The cursor after a number of further tokens, and these tokens. -/
def nextTokens (cursor : Cursor) : Nat → List Token × Cursor
  | 0 => ([], cursor)
  | count + 1 =>
    let (token, after) := cursor.nextToken
    let (others, last) := nextTokens after count
    (token :: others, last)

def finish (cursor : Cursor) : Cursor := ⟨[], cursor.position.afterAll cursor.rest⟩

theorem collect_eq_append (taken : List Token) (cursor : Cursor) :
    collect taken cursor = taken.reverse ++ tokens cursor := by
  unfold tokens
  induction length : cursor.rest.length using Nat.strongRecOn generalizing taken cursor with
  | ind n ih =>
    rw [collect, collect.eq_def []]
    split
    · simp
    next lexeme =>
      have less := length ▸ nextToken_rest_length lexeme
      rw [ih _ less (cursor.nextToken.1 :: taken) _ rfl, ih _ less [cursor.nextToken.1] _ rfl]
      simp

theorem tokens_of_gap {cursor : Cursor} (gap : cursor.skipGap.rest = []) :
    cursor.tokens = [.endAt cursor.skipGap.position] := by
  rw [tokens, collect, if_pos gap]
  simp only [nextToken, cut, gap, List.reverse_singleton]

theorem tokens_of_lexeme {cursor : Cursor} (lexeme : cursor.skipGap.rest ≠ []) :
    cursor.tokens = cursor.nextToken.1 :: cursor.nextToken.2.tokens := by
  rw [tokens, collect, if_neg lexeme, collect_eq_append]
  rfl

end Cursor

/-- The tokens of a whole text, the end of input last. -/
def Token.ofText (text : String) : List Token := (Cursor.ofText text.toList).tokens

end MonkeyLang
