import Mathlib.Data.List.Chain
import MonkeyLang.Proofs.Relexing

/-! Texts cut into lexemes. What may be a lexeme and which lexemes may stand side by side without a gap is said apart from
any way of cutting; it leaves one way to cut a text, the one that takes every lexeme as long as it can be. -/

namespace MonkeyLang

namespace Lexeme

/-- The reserved words. -/
def reserved : List (List Char × Kind) :=
  [(['f', 'n'], .functionWord), (['l', 'e', 't'], .letWord), (['t', 'r', 'u', 'e'], .trueWord),
    (['f', 'a', 'l', 's', 'e'], .falseWord), (['i', 'f'], .ifWord), (['e', 'l', 's', 'e'], .elseWord),
    (['r', 'e', 't', 'u', 'r', 'n'], .returnWord)]

/-- The spellings of operators and delimiters. -/
def signs : List (List Char × Kind) :=
  [(['='], .assign), (['+'], .plus), (['-'], .minus), (['!'], .bang), (['*'], .asterisk), (['/'], .slash),
    (['<'], .less), (['>'], .greater), (['=', '='], .equal), (['!', '='], .notEqual), ([','], .comma),
    ([';'], .semicolon), (['('], .leftParen), ([')'], .rightParen), (['\x7b'], .leftBrace), (['\x7d'], .rightBrace)]

/-- What may be a lexeme, and of which kind. -/
inductive Spells : Kind → List Char → Prop
  | word {text} (some : text ≠ []) (letters : ∀ c ∈ text, isLetter c = true) :
      Spells ((reserved.lookup text).getD .identifier) text
  | number {text} (some : text ≠ []) (digits : ∀ c ∈ text, isDigit c = true) : Spells .integer text
  | sign {kind text} (listed : (text, kind) ∈ signs) : Spells kind text
  /-- A character that nothing else may be made of. -/
  | illegal {c} (noLetter : isLetter c = false) (noDigit : isDigit c = false) (noSign : ∀ kind, ([c], kind) ∉ signs)
      (noGap : isGap c = false) : Spells .illegal [c]

/-- The lexeme does not go on with the text after it. -/
structure Ended (kind : Kind) (text after : List Char) : Prop where
  word : (∀ c ∈ text, isLetter c = true) → ∀ c ∈ after.head?, isLetter c = false
  number : kind = .integer → ∀ c ∈ after.head?, isDigit c = false
  sign : text = ['='] ∨ text = ['!'] → after.head? ≠ some '='

variable {kind : Kind} {c : Char} {text rest after : List Char}

theorem wordKind_eq_lookup (text : List Char) : wordKind text = (reserved.lookup text).getD .identifier := by
  unfold wordKind
  split
  all_goals first | rfl | skip
  next fn letWord trueWord falseWord ifWord elseWord returnWord =>
    have none : reserved.lookup text = none := by
      rw [List.lookup_eq_none_iff]
      intro entry listed
      simp only [reserved, List.mem_cons, List.not_mem_nil, or_false] at listed
      rw [bne_iff_ne]
      rcases listed with rfl | rfl | rfl | rfl | rfl | rfl | rfl
      all_goals
        rintro rfl
        contradiction
    rw [none]
    rfl

theorem mem_signs_iff : (text, kind) ∈ signs ↔
    (∃ c, text = [c] ∧ signKind? c = some kind) ∨ text = ['=', '='] ∧ kind = .equal ∨ text = ['!', '='] ∧ kind = .notEqual := by
  constructor
  · intro listed
    simp only [signs, List.mem_cons, List.not_mem_nil, or_false, Prod.mk.injEq] at listed
    rcases listed with ⟨rfl, rfl⟩ | ⟨rfl, rfl⟩ | ⟨rfl, rfl⟩ | ⟨rfl, rfl⟩ | ⟨rfl, rfl⟩ | ⟨rfl, rfl⟩ | ⟨rfl, rfl⟩ |
      ⟨rfl, rfl⟩ | ⟨rfl, rfl⟩ | ⟨rfl, rfl⟩ | ⟨rfl, rfl⟩ | ⟨rfl, rfl⟩ | ⟨rfl, rfl⟩ | ⟨rfl, rfl⟩ | ⟨rfl, rfl⟩ | ⟨rfl, rfl⟩
    all_goals simp [signKind?]
  · rintro (⟨c, rfl, sort⟩ | ⟨rfl, rfl⟩ | ⟨rfl, rfl⟩)
    · unfold signKind? at sort
      split at sort
      all_goals cases sort
      all_goals decide
    · decide
    · decide

theorem wordKind_ne_integer (text : List Char) : wordKind text ≠ .integer := by
  unfold wordKind
  split
  all_goals exact nofun

/-- A single sign that goes on with nothing is the longest operator. -/
theorem alone_of_ended (ended : Ended kind [c] after) : Alone c after := by
  by_cases first : c = '=' ∨ c = '!'
  · exact .inr (ended.sign (first.imp (congrArg ([·])) (congrArg ([·]))))
  · exact .inl (not_or.mp first)

theorem not_letter_of_digit (digit : isDigit c = true) : isLetter c = false := by
  simp only [isDigit, Bool.and_eq_true, decide_eq_true_eq] at digit
  have low : 48 ≤ c.toNat := digit.1
  have high : c.toNat ≤ 57 := digit.2
  by_contra letter
  simp only [isLetter, Bool.not_eq_false, Bool.or_eq_true, Bool.and_eq_true, decide_eq_true_eq, beq_iff_eq] at letter
  rcases letter with (⟨small, -⟩ | ⟨capital, -⟩) | rfl
  · have least : 97 ≤ c.toNat := small
    omega
  · have least : 65 ≤ c.toNat := capital
    omega
  · contradiction

/-- Neither words nor numbers have characters of gaps. -/
theorem not_gap (holds : isLetter c = true ∨ isDigit c = true) : isGap c = false := by
  by_contra gap
  simp only [isGap, Bool.not_eq_false, Bool.or_eq_true, beq_iff_eq] at gap
  rcases gap with ((rfl | rfl) | rfl) | rfl
  all_goals exact absurd holds (by decide)

/-- A lexeme that does not go on with the text after it is the longest one there. -/
theorem longest_of_spells (spells : Spells kind text) (ended : Ended kind text after) :
    ∃ c more, text = c :: more ∧ isGap c = false ∧ longest c (more ++ after) = ⟨kind, text, after⟩ := by
  cases spells with
  | word some letters =>
    obtain ⟨c, more, rfl⟩ := List.exists_cons_of_ne_nil some
    have letter := letters c List.mem_cons_self
    obtain ⟨taken, left⟩ := takeWhile_stop isLetter (c :: more) after letters (ended.word letters)
    rw [List.cons_append] at taken left
    refine ⟨c, more, rfl, ?_, ?_⟩
    · exact not_gap (.inl letter)
    · simp only [longest, letter, if_true, taken, left, wordKind_eq_lookup]
  | number some digits =>
    obtain ⟨c, more, rfl⟩ := List.exists_cons_of_ne_nil some
    have digit := digits c List.mem_cons_self
    obtain ⟨taken, left⟩ := takeWhile_stop isDigit (c :: more) after digits (ended.number rfl)
    rw [List.cons_append] at taken left
    refine ⟨c, more, rfl, ?_, ?_⟩
    · exact not_gap (.inr digit)
    · simp only [longest, not_letter_of_digit digit, digit, if_true, if_false, Bool.false_eq_true, taken, left]
  | sign listed =>
    rcases mem_signs_iff.mp listed with ⟨c, rfl, sort⟩ | ⟨rfl, rfl⟩ | ⟨rfl, rfl⟩
    · obtain ⟨solid, letter, digit, -, -⟩ := solid_of_sign sort
      refine ⟨c, [], rfl, solid, ?_⟩
      simp only [longest, letter, digit, if_false, Bool.false_eq_true, List.nil_append,
        operator?_of_alone (alone_of_ended ended), sort, Option.map_some, Option.getD_some]
    · exact ⟨'=', ['='], rfl, rfl, rfl⟩
    · exact ⟨'!', ['='], rfl, rfl, rfl⟩
  | @illegal c noLetter noDigit noSign noGap =>
    have none : signKind? c = Option.none := by
      rw [Option.eq_none_iff_forall_ne_some]
      intro kind sort
      exact noSign kind (mem_signs_iff.mpr (.inl ⟨c, rfl, sort⟩))
    refine ⟨c, [], rfl, noGap, ?_⟩
    simp only [longest, noLetter, noDigit, if_false, Bool.false_eq_true, List.nil_append,
      operator?_of_alone (alone_of_ended ended), none, Option.map_none, Option.getD_none]

theorem ended_of_alone (alone : Alone c after) (noLetter : isLetter c = false) (noNumber : kind ≠ .integer) :
    Ended kind [c] after where
  word letters := by
    rw [letters c List.mem_cons_self] at noLetter
    cases noLetter
  number integer := absurd integer noNumber
  sign := by
    rintro (sign | sign)
    all_goals
      cases sign
      rcases alone with ⟨one, other⟩ | free
      · contradiction
      · exact free

/-- The longest lexeme is one, and it does not go on with what it leaves. -/
theorem longest_spells (rest : List Char) (solid : isGap c = false) :
    Spells (longest c rest).kind (longest c rest).text ∧
      Ended (longest c rest).kind (longest c rest).text (longest c rest).rest := by
  have stop (holds : Char → Bool) : ∀ d ∈ ((c :: rest).dropWhile holds).head?, holds d = false := by
    intro d first
    have stopped := List.head?_dropWhile_not holds (c :: rest)
    rw [Option.mem_def.mp first] at stopped
    simpa using stopped
  unfold longest
  by_cases letter : isLetter c = true
  · rw [if_pos letter]
    have letters : ∀ d ∈ (c :: rest).takeWhile isLetter, isLetter d = true := fun d => List.mem_takeWhile_imp
    have some : (c :: rest).takeWhile isLetter ≠ [] := by simp [letter]
    dsimp only
    rw [wordKind_eq_lookup]
    refine ⟨.word some letters, ⟨fun _ => stop isLetter, ?_, ?_⟩⟩
    · intro integer
      rw [← wordKind_eq_lookup] at integer
      exact absurd integer (wordKind_ne_integer _)
    · rintro (sign | sign)
      all_goals
        rw [sign] at letters
        exact absurd (letters _ List.mem_cons_self) (by decide)
  · rw [if_neg letter]
    by_cases digit : isDigit c = true
    · rw [if_pos digit]
      have digits : ∀ d ∈ (c :: rest).takeWhile isDigit, isDigit d = true := fun d => List.mem_takeWhile_imp
      have some : (c :: rest).takeWhile isDigit ≠ [] := by simp [digit]
      dsimp only
      refine ⟨.number some digits, ⟨?_, fun _ => stop isDigit, ?_⟩⟩
      · intro letters
        rw [List.takeWhile_cons_of_pos digit] at letters
        exact absurd (letters c List.mem_cons_self) letter
      · rintro (sign | sign)
        all_goals
          rw [sign] at digits
          exact absurd (digits _ List.mem_cons_self) (by decide)
    · rw [if_neg digit]
      have noLetter : isLetter c = false := by simpa using letter
      have noDigit : isDigit c = false := by simpa using digit
      by_cases alone : Alone c rest
      · rw [operator?_of_alone alone]
        cases sort : signKind? c with
        | some sign =>
          have listed := mem_signs_iff.mpr (.inl ⟨c, rfl, sort⟩)
          exact ⟨.sign listed, ended_of_alone alone noLetter (solid_of_sign sort).2.2.2.2⟩
        | none =>
          have noSign : ∀ kind, ([c], kind) ∉ signs := by
            intro kind listed
            rcases mem_signs_iff.mp listed with ⟨d, same, found⟩ | ⟨same, -⟩ | ⟨same, -⟩
            · cases same
              rw [sort] at found
              cases found
            · cases same
            · cases same
          exact ⟨.illegal noLetter noDigit noSign solid, ended_of_alone alone noLetter nofun⟩
      · obtain ⟨equal, follows⟩ := not_or.mp alone
        obtain ⟨others, rfl⟩ := List.head?_eq_some_iff.mp (not_not.mp follows)
        have double : c = '=' ∨ c = '!' := by grind
        rcases double with rfl | rfl
        · have sign : Spells .equal ['=', '='] := .sign (by decide)
          exact ⟨sign, ⟨fun letters => absurd (letters '=' List.mem_cons_self) (by decide), nofun, nofun⟩⟩
        · have sign : Spells .notEqual ['!', '='] := .sign (by decide)
          exact ⟨sign, ⟨fun letters => absurd (letters '!' List.mem_cons_self) (by decide), nofun, nofun⟩⟩

theorem Spells.ne_nil (spells : Spells kind text) : text ≠ [] := by
  cases spells with
  | word some => exact some
  | number some => exact some
  | sign listed =>
    rcases mem_signs_iff.mp listed with ⟨c, rfl, -⟩ | ⟨rfl, -⟩ | ⟨rfl, -⟩
    all_goals exact List.cons_ne_nil _ _
  | illegal => exact List.cons_ne_nil _ _

/-- The first character tells words and numbers from everything else. -/
theorem Spells.of_head (spells : Spells kind (c :: rest)) :
    (isLetter c = true → ∀ d ∈ c :: rest, isLetter d = true) ∧ (isDigit c = true ↔ kind = .integer) := by
  have other (noLetter : isLetter c = false) (noDigit : isDigit c = false) (noNumber : kind ≠ .integer) :
      (isLetter c = true → ∀ d ∈ c :: rest, isLetter d = true) ∧ (isDigit c = true ↔ kind = .integer) := by
    rw [noLetter, noDigit]
    exact ⟨nofun, iff_of_false nofun noNumber⟩
  cases spells with
  | word some letters =>
    have letter := letters c List.mem_cons_self
    refine ⟨fun _ => letters, iff_of_false (fun digit => ?_) ?_⟩
    · rw [not_letter_of_digit digit] at letter
      cases letter
    · rw [← wordKind_eq_lookup]
      exact wordKind_ne_integer _
  | number some digits =>
    have digit := digits c List.mem_cons_self
    refine ⟨fun letter => ?_, iff_of_true digit rfl⟩
    rw [not_letter_of_digit digit] at letter
    cases letter
  | sign listed =>
    rcases mem_signs_iff.mp listed with ⟨d, same, sort⟩ | ⟨same, rfl⟩ | ⟨same, rfl⟩
    · cases same
      obtain ⟨-, noLetter, noDigit, -, noNumber⟩ := solid_of_sign sort
      exact other noLetter noDigit noNumber
    · cases same
      exact other (by decide) (by decide) nofun
    · cases same
      exact other (by decide) (by decide) nofun
  | illegal noLetter noDigit => exact other noLetter noDigit nofun

end Lexeme

/-- A lexeme with the gap in front of it. -/
structure Piece where
  gap : List Char
  kind : Kind
  text : List Char

namespace Piece

def written (piece : Piece) : List Char := piece.gap ++ piece.text

def IsWord (piece : Piece) : Prop := ∀ c ∈ piece.text, Lexeme.isLetter c = true

/-- Without a gap between them the lexemes are still two. -/
structure Parted (first second : Piece) : Prop where
  words : second.gap = [] → first.IsWord → ¬second.IsWord
  numbers : second.gap = [] → first.kind = .integer → second.kind ≠ .integer
  signs : second.gap = [] → first.text = ['='] ∨ first.text = ['!'] → second.text.head? ≠ some '='

end Piece

/-- A text cut into pieces, with a gap behind the last one. -/
structure Segmented (text : List Char) (pieces : List Piece) (last : List Char) : Prop where
  whole : text = pieces.flatMap Piece.written ++ last
  gaps : ∀ piece ∈ pieces, ∀ c ∈ piece.gap, Lexeme.isGap c = true
  spells : ∀ piece ∈ pieces, Lexeme.Spells piece.kind piece.text
  parted : pieces.IsChain Piece.Parted
  lastGap : ∀ c ∈ last, Lexeme.isGap c = true

open Lexeme (longest)

namespace Segmented

open Lexeme (Ended isGap isLetter isDigit)

variable {text rest last : List Char} {piece : Piece} {pieces others : List Piece}

theorem nil_iff : Segmented text [] last ↔ last = text ∧ ∀ c ∈ text, isGap c = true := by
  constructor
  · intro segmented
    have same : text = last := segmented.whole
    exact ⟨same.symm, same ▸ segmented.lastGap⟩
  · rintro ⟨rfl, gap⟩
    exact ⟨rfl, nofun, nofun, .nil, gap⟩

/-- A gap goes on with nothing. -/
theorem ended_of_gap {kind : Kind} {front : List Char} (gap : ∀ c ∈ text.head?, isGap c = true) :
    Ended kind front text := by
  have stops : ∀ c ∈ text.head?, isLetter c = false ∧ isDigit c = false ∧ c ≠ '=' := by
    intro c first
    have blank := gap c first
    refine ⟨?_, ?_, ?_⟩
    · by_contra letter
      rw [Lexeme.not_gap (.inl (by simpa using letter))] at blank
      cases blank
    · by_contra digit
      rw [Lexeme.not_gap (.inr (by simpa using digit))] at blank
      cases blank
    · rintro rfl
      contradiction
  exact ⟨fun _ c first => (stops c first).1, fun _ c first => (stops c first).2.1,
    fun _ first => (stops '=' first).2.2 rfl⟩

/-- Where a lexeme goes on with the text behind it, it goes on with the first piece of it. -/
theorem ended_iff (segmented : Segmented rest pieces last) :
    Ended piece.kind piece.text rest ↔ ∀ second ∈ pieces.head?, piece.Parted second := by
  cases pieces with
  | nil =>
    obtain ⟨-, gap⟩ := nil_iff.mp segmented
    exact iff_of_true (ended_of_gap fun c first => gap c (List.mem_of_mem_head? first)) nofun
  | cons second others =>
    have start : rest = second.gap ++ (second.text ++ (others.flatMap Piece.written ++ last)) := by
      simp [segmented.whole, Piece.written]
    have spells := segmented.spells second List.mem_cons_self
    simp only [List.head?_cons, Option.mem_def, Option.some.injEq, forall_eq']
    cases gap : second.gap with
    | cons c blank =>
      have blanks : ∀ d ∈ rest.head?, isGap d = true := by
        intro d first
        rw [start, gap] at first
        cases first
        exact segmented.gaps second List.mem_cons_self c (by simp [gap])
      exact iff_of_true (ended_of_gap blanks) ⟨by simp [gap], by simp [gap], by simp [gap]⟩
    | nil =>
      obtain ⟨c, more, same⟩ := List.exists_cons_of_ne_nil spells.ne_nil
      rw [same] at spells
      obtain ⟨letters, number⟩ := spells.of_head
      have head : rest.head? = some c := by simp [start, gap, same]
      constructor
      · intro ended
        refine ⟨fun _ word word' => ?_, fun _ integer integer' => ?_, fun _ sign => ?_⟩
        · have letter := ended.word word c head
          rw [word' c (by simp [same])] at letter
          cases letter
        · have digit := ended.number integer c head
          rw [number.mpr integer'] at digit
          cases digit
        · rw [same, List.head?_cons, ← head]
          exact ended.sign sign
      · intro parted
        refine ⟨fun word d first => ?_, fun integer d first => ?_, fun sign => ?_⟩
        · rw [head] at first
          cases first
          by_contra letter
          refine parted.words gap word ?_
          rw [Piece.IsWord, same]
          exact letters (by simpa using letter)
        · rw [head] at first
          cases first
          by_contra digit
          exact parted.numbers gap integer (number.mp (by simpa using digit))
        · rw [head, ← List.head?_cons (l := more), ← same]
          exact parted.signs gap sign

theorem cons_iff : Segmented text (piece :: pieces) last ↔
    (∀ c ∈ piece.gap, isGap c = true) ∧ Lexeme.Spells piece.kind piece.text ∧
      ∃ rest, text = piece.gap ++ (piece.text ++ rest) ∧ Ended piece.kind piece.text rest ∧ Segmented rest pieces last := by
  constructor
  · rintro ⟨whole, gaps, spells, parted, lastGap⟩
    obtain ⟨gap, gaps⟩ := List.forall_mem_cons.mp gaps
    obtain ⟨first, spells⟩ := List.forall_mem_cons.mp spells
    obtain ⟨next, parted⟩ := List.isChain_cons.mp parted
    have others : Segmented (pieces.flatMap Piece.written ++ last) pieces last := ⟨rfl, gaps, spells, parted, lastGap⟩
    refine ⟨gap, first, _, ?_, others.ended_iff.mpr next, others⟩
    simp only [whole, List.flatMap_cons, Piece.written, List.append_assoc]
  · rintro ⟨gap, spells, rest, whole, ended, others⟩
    refine ⟨?_, List.forall_mem_cons.mpr ⟨gap, others.gaps⟩, List.forall_mem_cons.mpr ⟨spells, others.spells⟩,
      List.isChain_cons.mpr ⟨others.ended_iff.mp ended, others.parted⟩, others.lastGap⟩
    simp only [whole, others.whole, List.flatMap_cons, Piece.written, List.append_assoc]

/-- The first piece is the gap at the front of the text and the longest lexeme behind it. -/
theorem first_is_longest (segmented : Segmented text (piece :: pieces) last) :
    piece.gap = text.takeWhile isGap ∧ ∃ c more rest, text.dropWhile isGap = c :: more ∧
      Lexeme.longest c more = ⟨piece.kind, piece.text, rest⟩ ∧ Segmented rest pieces last := by
  obtain ⟨gap, spells, rest, whole, ended, others⟩ := cons_iff.mp segmented
  obtain ⟨c, more, same, solid, cut⟩ := Lexeme.longest_of_spells spells ended
  have stop : ∀ d ∈ (piece.text ++ rest).head?, isGap d = false := by
    intro d first
    rw [same] at first
    cases first
    exact solid
  obtain ⟨taken, left⟩ := Lexeme.takeWhile_stop isGap piece.gap (piece.text ++ rest) gap stop
  rw [← whole] at taken left
  exact ⟨taken.symm, c, more ++ rest, rest, by rw [left, same, List.cons_append], cut, others⟩

/-- There is one way to cut a text. -/
theorem unique {last' : List Char} (first : Segmented text pieces last) (second : Segmented text others last') :
    pieces = others ∧ last = last' := by
  induction pieces generalizing text others with
  | nil =>
    obtain ⟨rfl, gap⟩ := nil_iff.mp first
    cases others with
    | nil => exact ⟨rfl, (nil_iff.mp second).1.symm⟩
    | cons piece others =>
      obtain ⟨-, c, more, rest, solid, -⟩ := second.first_is_longest
      rw [List.dropWhile_eq_nil_iff.mpr gap] at solid
      cases solid
  | cons piece pieces ih =>
    obtain ⟨gap, c, more, rest, solid, cut, behind⟩ := first.first_is_longest
    cases others with
    | nil =>
      rw [List.dropWhile_eq_nil_iff.mpr (nil_iff.mp second).2] at solid
      cases solid
    | cons piece' others =>
      obtain ⟨gap', c', more', rest', solid', cut', behind'⟩ := second.first_is_longest
      obtain ⟨rfl, rfl⟩ := List.cons.inj (solid.symm.trans solid')
      obtain ⟨kind, lexeme, rfl⟩ := Lexeme.mk.inj (cut.symm.trans cut')
      obtain ⟨rfl, rfl⟩ := ih behind behind'
      refine ⟨?_, rfl⟩
      obtain ⟨_, _, _⟩ := piece
      obtain ⟨_, _, _⟩ := piece'
      simp_all

end Segmented

/-- The tokens of pieces, the first of which begins at the position. -/
def Piece.tokens (position : Position) : List Piece → List Token
  | [] => []
  | piece :: pieces => ⟨piece.kind, String.ofList piece.text, position.afterAll piece.gap⟩ ::
      tokens (position.afterAll piece.written) pieces

namespace Cursor

variable {text more : List Char} {c : Char}

theorem nextToken_of_lexeme (position : Position) (lexeme : text.dropWhile Lexeme.isGap = c :: more) : nextToken ⟨text, position⟩ =
    (⟨(longest c more).kind, String.ofList (longest c more).text, position.afterAll (text.takeWhile Lexeme.isGap)⟩,
      ⟨(longest c more).rest, position.afterAll (text.takeWhile Lexeme.isGap ++ (longest c more).text)⟩) := by
  simp only [nextToken, skipGap, cut, lexeme, Position.afterAll_append]

/-- The tokens from a cursor on are those of the pieces of its text, and the end of input after them. -/
theorem tokens_segmented (text : List Char) (position : Position) : ∃ pieces last, Segmented text pieces last ∧
    tokens ⟨text, position⟩ = Piece.tokens position pieces ++ [.endAt (position.afterAll text)] := by
  induction length : text.length using Nat.strongRecOn generalizing text position with
  | ind n ih =>
    have parts := List.takeWhile_append_dropWhile (p := Lexeme.isGap) (l := text)
    cases left : text.dropWhile Lexeme.isGap with
    | nil =>
      have all : text.takeWhile Lexeme.isGap = text := by simpa [left] using parts
      refine ⟨[], text, Segmented.nil_iff.mpr ⟨rfl, List.dropWhile_eq_nil_iff.mp left⟩, ?_⟩
      have none : (skipGap ⟨text, position⟩).rest = [] := left
      rw [tokens_of_gap none, skipGap, all]
      rfl
    | cons c more =>
      have solid : Lexeme.isGap c = false := by
        have first := List.head?_dropWhile_not Lexeme.isGap text
        rw [left] at first
        simpa using first
      have lexeme : (skipGap ⟨text, position⟩).rest ≠ [] := by simp [skipGap, left]
      have token := nextToken_of_lexeme position left
      have shorter := nextToken_rest_length lexeme
      rw [token, length] at shorter
      obtain ⟨pieces, last, segmented, cut⟩ := ih _ shorter (longest c more).rest
        (position.afterAll (text.takeWhile Lexeme.isGap ++ (longest c more).text)) rfl
      obtain ⟨spells, ended⟩ := Lexeme.longest_spells more solid
      have whole : text = text.takeWhile Lexeme.isGap ++ ((longest c more).text ++ (longest c more).rest) := by
        rw [Lexeme.longest_append, ← left, parts]
      refine ⟨⟨text.takeWhile Lexeme.isGap, (longest c more).kind, (longest c more).text⟩ :: pieces, last, ?_, ?_⟩
      · exact Segmented.cons_iff.mpr ⟨fun d => List.mem_takeWhile_imp, spells, _, whole, ended, segmented⟩
      · rw [tokens_of_lexeme lexeme, token]
        dsimp only
        rw [cut, ← Position.afterAll_append, List.append_assoc, ← whole]
        rfl

end Cursor

namespace Piece

variable {position : Position} {pieces : List Piece}

theorem kinds_tokens : (tokens position pieces).map (fun token => (token.kind, token.literal.toList)) =
    pieces.map fun piece => (piece.kind, piece.text) := by
  induction pieces generalizing position with
  | nil => rfl
  | cons piece pieces ih => simp [tokens, ih]

end Piece

/-- The tokens of a text are the lexemes of the one way in which it can be cut: gaps are blank, each lexeme is a word, a
number, a sign or a character by itself, and none of them goes on with the next one where no gap is between them. -/
theorem Token.ofText_cuts_uniquely (text : String) : ∃ tokens finish pieces last,
    Token.ofText text = tokens ++ [.endAt finish] ∧
    Segmented text.toList pieces last ∧
    tokens.map (fun token => (token.kind, token.literal.toList)) = pieces.map (fun piece => (piece.kind, piece.text)) ∧
    ∀ others last', Segmented text.toList others last' → others = pieces ∧ last' = last := by
  obtain ⟨pieces, last, segmented, cut⟩ := Cursor.tokens_segmented text.toList .start
  exact ⟨Piece.tokens .start pieces, _, pieces, last, cut, segmented, Piece.kinds_tokens,
    fun others last' other => other.unique segmented⟩

end MonkeyLang
