import MonkeyLang.Proofs.Segmentation
import MonkeyLang.Token.Window

/-! Reading a text token by token: no character is lost, every token is placed at its first character, and once the end
of the text is reached the end of input repeats. -/

namespace MonkeyLang

open Lexeme (longest)

/-- The position behind a text that begins a source: its line feeds are counted, and what stands behind the last one. -/
def Position.behind (text : List Char) : Position :=
  ⟨1 + text.count '\n', 1 + (text.reverse.takeWhile (· ≠ '\n')).length⟩

theorem Position.afterAll_start (text : List Char) : Position.start.afterAll text = .behind text := by
  induction text using List.reverseRecOn with
  | nil => rfl
  | append_singleton text c ih =>
    rw [afterAll_append, ih, afterAll_cons, afterAll_nil, after]
    by_cases feed : c = '\n'
    · subst feed
      simp [behind, Int.add_assoc]
    · simp [behind, feed, Int.add_assoc]

/-- A token with the gap in front of it. -/
structure Placed where
  gap : List Char
  token : Token

namespace Placed

def written (placed : Placed) : List Char := placed.gap ++ placed.token.literal.toList

/-- Tokens put together to a text: nothing of it is lost, and they stand where they begin in it. -/
structure Covers (placed : List Placed) (last text : List Char) : Prop where
  whole : text = placed.flatMap written ++ last
  gaps : ∀ item ∈ placed, ∀ c ∈ item.gap, Lexeme.isGap c = true
  lexemes : ∀ item ∈ placed, item.token.kind ≠ .endOfInput ∧ item.token.literal ≠ ""
  places : ∀ before gap token after, placed = before ++ ⟨gap, token⟩ :: after →
    token.position = .behind (before.flatMap written ++ gap)
  lastGap : ∀ c ∈ last, Lexeme.isGap c = true

end Placed

theorem Lexeme.Spells.ne_endOfInput {kind : Kind} {text : List Char} (spells : Spells kind text) : kind ≠ .endOfInput := by
  cases spells with
  | word =>
    rw [← wordKind_eq_lookup]
    unfold wordKind
    split
    all_goals exact nofun
  | number => exact nofun
  | sign listed =>
    rcases mem_signs_iff.mp listed with ⟨c, -, sort⟩ | ⟨-, rfl⟩ | ⟨-, rfl⟩
    · exact (solid_of_sign sort).2.2.2.1
    · exact nofun
    · exact nofun
  | illegal => exact nofun

namespace Piece

/-- The tokens of pieces behind a text, each with its gap. -/
def placed (front : List Char) : List Piece → List Placed
  | [] => []
  | piece :: pieces => ⟨piece.gap, ⟨piece.kind, String.ofList piece.text, .behind (front ++ piece.gap)⟩⟩ ::
      placed (front ++ piece.written) pieces

variable {front : List Char} {pieces : List Piece}

theorem placed_tokens : (placed front pieces).map Placed.token = tokens (.behind front) pieces := by
  induction pieces generalizing front with
  | nil => rfl
  | cons piece pieces ih =>
    simp only [placed, tokens, List.map_cons, ih, ← Position.afterAll_start, Position.afterAll_append]

theorem placed_written : (placed front pieces).flatMap Placed.written = pieces.flatMap written := by
  induction pieces generalizing front with
  | nil => rfl
  | cons piece pieces ih => simp [placed, Placed.written, written, ih]

theorem mem_placed {item : Placed} (member : item ∈ placed front pieces) :
    ∃ piece ∈ pieces, item.gap = piece.gap ∧ item.token.kind = piece.kind ∧ item.token.literal.toList = piece.text := by
  induction pieces generalizing front with
  | nil => cases member
  | cons piece pieces ih =>
    rcases List.mem_cons.mp member with rfl | later
    · exact ⟨piece, List.mem_cons_self, rfl, rfl, String.toList_ofList⟩
    · obtain ⟨other, among, same⟩ := ih later
      exact ⟨other, List.mem_cons_of_mem _ among, same⟩

theorem position_placed {before after : List Placed} {gap : List Char} {token : Token}
    (split : placed front pieces = before ++ ⟨gap, token⟩ :: after) :
    token.position = .behind (front ++ before.flatMap Placed.written ++ gap) := by
  induction before generalizing front pieces with
  | nil =>
    cases pieces with
    | nil => cases split
    | cons piece pieces =>
      cases split
      simp
  | cons item before ih =>
    cases pieces with
    | nil => cases split
    | cons piece pieces =>
      obtain ⟨same, later⟩ := List.cons.inj split
      subst same
      rw [ih later]
      simp [Placed.written, written]

end Piece

theorem Segmented.covers {text last : List Char} {pieces : List Piece} (segmented : Segmented text pieces last) :
    Placed.Covers (Piece.placed [] pieces) last text where
  whole := by rw [Piece.placed_written, ← segmented.whole]
  gaps item member := by
    obtain ⟨piece, among, gap, -⟩ := Piece.mem_placed member
    rw [gap]
    exact segmented.gaps piece among
  lexemes item member := by
    obtain ⟨piece, among, -, kind, literal⟩ := Piece.mem_placed member
    have spells := segmented.spells piece among
    rw [kind]
    refine ⟨spells.ne_endOfInput, ?_⟩
    intro empty
    rw [empty] at literal
    exact spells.ne_nil literal.symm
  places before gap token after split := Piece.position_placed split
  lastGap := segmented.lastGap

theorem Placed.length_le_written {placed : List Placed} (lexemes : ∀ item ∈ placed, item.token.literal ≠ "") :
    placed.length ≤ (placed.flatMap written).length := by
  induction placed with
  | nil => exact Nat.le_refl 0
  | cons item placed ih =>
    obtain ⟨first, others⟩ := List.forall_mem_cons.mp lexemes
    have some : 0 < item.token.literal.toList.length := List.length_pos_iff.mpr (by simpa using first)
    have rest := ih others
    rw [List.flatMap_cons, List.length_append, written, List.length_append, List.length_cons]
    omega

/-- There are no more tokens than characters. -/
theorem Placed.Covers.length_le {placed : List Placed} {last text : List Char} (covers : Covers placed last text) :
    placed.length ≤ text.length := by
  have written := length_le_written fun item member => (covers.lexemes item member).2
  rw [covers.whole, List.length_append]
  omega

namespace Cursor

variable {cursor : Cursor}

theorem skipGap_of_gap (gap : cursor.skipGap.rest = []) : cursor.skipGap = cursor.finish := by
  have parts := List.takeWhile_append_dropWhile (p := Lexeme.isGap) (l := cursor.rest)
  have none : cursor.rest.dropWhile Lexeme.isGap = [] := gap
  rw [none, List.append_nil] at parts
  rw [skipGap, parts, none, finish]

theorem nextToken_of_gap (gap : cursor.skipGap.rest = []) :
    cursor.nextToken = (.endAt cursor.finish.position, cursor.finish) := by
  rw [nextToken, skipGap_of_gap gap]
  rfl

theorem nextToken_append (cursor : Cursor) : ∃ text, cursor.rest = text ++ cursor.nextToken.2.rest ∧
    cursor.nextToken.2.position = cursor.position.afterAll text := by
  have parts := List.takeWhile_append_dropWhile (p := Lexeme.isGap) (l := cursor.rest)
  cases left : cursor.rest.dropWhile Lexeme.isGap with
  | nil =>
    rw [nextToken_of_gap left]
    exact ⟨cursor.rest, (List.append_nil _).symm, rfl⟩
  | cons c more =>
    have token := nextToken_of_lexeme cursor.position left
    refine ⟨cursor.rest.takeWhile Lexeme.isGap ++ (longest c more).text, ?_, congrArg (·.2.position) token⟩
    rw [congrArg (·.2.rest) token, List.append_assoc, Lexeme.longest_append, ← left, parts]

theorem finish_nextToken (cursor : Cursor) : cursor.nextToken.2.finish = cursor.finish := by
  obtain ⟨text, whole, moved⟩ := cursor.nextToken_append
  simp only [finish, whole, moved, Position.afterAll_append]

/-- The end of input repeats. -/
theorem nextTokens_of_gap (gap : cursor.skipGap.rest = []) (count : Nat) : cursor.nextTokens (count + 1) =
    (List.replicate (count + 1) (.endAt cursor.finish.position), cursor.finish) := by
  induction count generalizing cursor with
  | zero =>
    simp only [nextTokens, nextToken_of_gap gap]
    rfl
  | succ count ih =>
    have later := @ih cursor.finish rfl
    rw [nextTokens, nextToken_of_gap gap]
    dsimp only
    rw [later, List.replicate_succ]
    rfl

/-- The tokens up to the end of input come first, and the end of input from there on. -/
theorem nextTokens_fst (cursor : Cursor) (count : Nat) : (cursor.nextTokens count).1 =
    (cursor.tokens ++ List.replicate count (Token.endAt cursor.finish.position)).take count := by
  induction count generalizing cursor with
  | zero => rfl
  | succ count ih =>
    by_cases gap : cursor.skipGap.rest = []
    · rw [nextTokens_of_gap gap, tokens_of_gap gap, skipGap_of_gap gap, List.singleton_append, ← List.replicate_succ,
        List.take_replicate, Nat.min_eq_left (Nat.le_succ _)]
    · have later := ih cursor.nextToken.2
      have fill : ∀ tokens : List Token, ∀ token, (tokens ++ List.replicate (count + 1) token).take count =
          (tokens ++ List.replicate count token).take count := by
        intro tokens token
        rw [List.replicate_succ', ← List.append_assoc, List.take_append_of_le_length (by simp)]
      rw [finish_nextToken, ← fill] at later
      rw [tokens_of_lexeme gap, List.cons_append, List.take_succ_cons, ← later]
      rfl

theorem nextTokens_snd {count : Nat} (enough : cursor.tokens.length ≤ count) : (cursor.nextTokens count).2 = cursor.finish := by
  induction count generalizing cursor with
  | zero =>
    by_cases gap : cursor.skipGap.rest = []
    · simp [tokens_of_gap gap] at enough
    · simp [tokens_of_lexeme gap] at enough
  | succ count ih =>
    by_cases gap : cursor.skipGap.rest = []
    · rw [nextTokens_of_gap gap]
    · rw [tokens_of_lexeme gap, List.length_cons, Nat.add_le_add_iff_right] at enough
      rw [← finish_nextToken, ← ih enough]
      rfl

end Cursor

namespace Window

/-- The tokens that a number of calls in a row give, and the window after them. -/
def nextTokens (window : Window) : Nat → Except WindowFault (List Token × Window)
  | 0 => .ok ([], window)
  | count + 1 => do
    let (token, after) ← window.nextToken
    let (others, last) ← after.nextTokens count
    return (token :: others, last)

/-- The window at its start. -/
def ofText (text : List Char) : Window := ⟨text, 0, .start⟩

/-- The window over a text in front of which the taken characters stand. -/
def past (taken : List Char) (cursor : Cursor) : Window := ⟨taken ++ cursor.rest, taken.length, cursor.position⟩

theorem cursor_past (taken : List Char) (cursor : Cursor) : (past taken cursor).cursor = cursor := by
  simp [past, Window.cursor]

theorem nextToken_past (taken : List Char) (cursor : Cursor) : ∃ text, cursor.rest = text ++ cursor.nextToken.2.rest ∧
    (past taken cursor).nextToken = .ok (cursor.nextToken.1, past (taken ++ text) cursor.nextToken.2) := by
  obtain ⟨text, whole, moved⟩ := cursor.nextToken_append
  refine ⟨text, whole, ?_⟩
  have inside : ¬(past taken cursor).index < 0 := by simp [past]
  rw [nextToken, enter, if_neg inside]
  dsimp only [Except.map]
  rw [moveTo, cursor_past, whole]
  simp [past, whole]

theorem nextTokens_past (taken : List Char) (cursor : Cursor) (count : Nat) : ∃ text, cursor.rest = text ++ (cursor.nextTokens count).2.rest ∧
    (past taken cursor).nextTokens count =
      .ok ((cursor.nextTokens count).1, past (taken ++ text) (cursor.nextTokens count).2) := by
  induction count generalizing taken cursor with
  | zero => exact ⟨[], rfl, by rw [List.append_nil]; rfl⟩
  | succ count ih =>
    obtain ⟨first, whole, step⟩ := nextToken_past taken cursor
    obtain ⟨others, rest, steps⟩ := ih (taken ++ first) cursor.nextToken.2
    refine ⟨first ++ others, ?_, ?_⟩
    · rw [whole, rest, List.append_assoc]
      rfl
    · rw [nextTokens, step, ← List.append_assoc]
      dsimp only [bind, Except.bind]
      rw [steps]
      rfl

/-- Every further call gives a token; from the end of input on the window stands still at the end of the text. -/
theorem nextTokens_ofText (text : List Char) (calls : Nat) : ∃ after, (ofText text).nextTokens calls =
      .ok (((Cursor.ofText text).tokens ++ List.replicate calls (Token.endAt (.behind text))).take calls, after) ∧
    ((Cursor.ofText text).tokens.length ≤ calls → after = ⟨text, text.length, .behind text⟩) := by
  obtain ⟨read, whole, steps⟩ := nextTokens_past [] (.ofText text) calls
  have place : (Cursor.ofText text).finish.position = .behind text := Position.afterAll_start text
  rw [Cursor.nextTokens_fst, place] at steps
  refine ⟨_, steps, ?_⟩
  intro enough
  have last := Cursor.nextTokens_snd enough
  rw [last] at whole
  have all : text = read := whole.trans (List.append_nil _)
  rw [last, past, place, ← all]
  simp [Cursor.finish]

end Window

/-- Reading a text call by call gives its tokens and then the end of input for ever. The text is the tokens with blank
gaps around them; each token stands behind all that comes before it, and the end of input behind the whole text. -/
theorem Token.ofText_covers (text : String) : ∃ placed last,
    Token.ofText text = placed.map Placed.token ++ [.endAt (.behind text.toList)] ∧
    Placed.Covers placed last text.toList ∧
    placed.length ≤ text.toList.length ∧
    ∀ calls, ∃ after, (Window.ofText text.toList).nextTokens calls =
        .ok ((Token.ofText text ++ List.replicate calls (Token.endAt (.behind text.toList))).take calls, after) ∧
      (placed.length < calls → after = ⟨text.toList, text.toList.length, .behind text.toList⟩) := by
  obtain ⟨pieces, last, segmented, cut⟩ := Cursor.tokens_segmented text.toList .start
  have covers := segmented.covers
  have tokens : Token.ofText text = (Piece.placed [] pieces).map Placed.token ++ [.endAt (.behind text.toList)] := by
    rw [Piece.placed_tokens, ← Position.afterAll_start, ← Position.afterAll_start, Position.afterAll_nil]
    exact cut
  refine ⟨Piece.placed [] pieces, last, tokens, covers, covers.length_le, ?_⟩
  intro calls
  obtain ⟨after, read, finished⟩ := Window.nextTokens_ofText text.toList calls
  refine ⟨after, read, ?_⟩
  intro later
  apply finished
  rw [← Token.ofText, tokens, List.length_append, List.length_map]
  exact later

end MonkeyLang
