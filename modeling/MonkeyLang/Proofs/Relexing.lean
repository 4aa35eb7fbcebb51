import Mathlib.Data.List.TakeWhile
import MonkeyLang.Proofs.PlainNumerals
import MonkeyLang.Token.Cursor

/-! Texts put together from pieces. A lexeme is cut the same way wherever it stands, as long as the text after it does
not go on with it; so the tokens of a text that is written piece by piece are the tokens of its pieces. -/

namespace MonkeyLang

namespace Lexeme

/-- A character that goes on with no lexeme. -/
def Stops (c : Char) : Prop := isLetter c = false ∧ isDigit c = false ∧ c ≠ '='

instance : DecidablePred Stops := fun c => inferInstanceAs (Decidable (isLetter c = false ∧ isDigit c = false ∧ c ≠ '='))

/-- The text goes on with no lexeme in front of it. -/
def Apart (text : List Char) : Prop := ∀ c ∈ text.head?, Stops c

theorem Apart.nil : Apart [] := nofun

theorem Apart.cons {c : Char} (stops : Stops c) (rest : List Char) : Apart (c :: rest) := by
  intro d first
  cases first
  exact stops

theorem Apart.not_equal {text : List Char} (apart : Apart text) : text.head? ≠ some '=' :=
  fun first => (apart '=' first).2.2 rfl

/-- A sign before a text is no part of a longer operator. -/
def Alone (c : Char) (text : List Char) : Prop := c ≠ '=' ∧ c ≠ '!' ∨ text.head? ≠ some '='

theorem operator?_of_alone {c : Char} {after : List Char} (alone : Alone c after) :
    operator? (c :: after) = (signKind? c).map fun kind => ⟨kind, [c], after⟩ := by
  unfold Alone at alone
  unfold operator?
  split <;> simp_all

theorem takeWhile_stop (holds : Char → Bool) (front after : List Char)
    (all : ∀ c ∈ front, holds c = true) (stop : ∀ c ∈ after.head?, holds c = false) :
    (front ++ after).takeWhile holds = front ∧ (front ++ after).dropWhile holds = after := by
  rw [List.takeWhile_append_of_pos all, List.dropWhile_append_of_pos all]
  cases after with
  | nil => simp
  | cons c rest => simp [stop c rfl]

/-- A sign is no character of anything else. -/
theorem solid_of_sign {c : Char} {kind : Kind} (sort : signKind? c = some kind) : isGap c = false ∧ isLetter c = false ∧
    isDigit c = false ∧ kind ≠ .endOfInput ∧ kind ≠ .integer := by
  unfold signKind? at sort
  split at sort
  all_goals first | (cases sort; decide) | cases sort

/-- A lexeme that is written again, apart from the text after it, is cut again. -/
theorem longest_again (c : Char) (rest : List Char) {after : List Char} (apart : Apart after) :
    ∃ more, (longest c rest).text = c :: more ∧
      longest c (more ++ after) = ⟨(longest c rest).kind, (longest c rest).text, after⟩ := by
  by_cases letter : isLetter c = true
  · have cut := takeWhile_stop isLetter (c :: rest.takeWhile isLetter) after
      (List.forall_mem_cons.mpr ⟨letter, fun d member => List.mem_takeWhile_imp member⟩) fun d first => (apart d first).1
    refine ⟨rest.takeWhile isLetter, by simp [longest, letter], ?_⟩
    simp only [List.cons_append] at cut
    simp only [longest, letter, if_true, cut, List.takeWhile_cons_of_pos letter]
  · by_cases digit : isDigit c = true
    · have cut := takeWhile_stop isDigit (c :: rest.takeWhile isDigit) after
        (List.forall_mem_cons.mpr ⟨digit, fun d member => List.mem_takeWhile_imp member⟩)
        fun d first => (apart d first).2.1
      refine ⟨rest.takeWhile isDigit, by simp [longest, letter, digit], ?_⟩
      simp only [List.cons_append] at cut
      simp only [longest, letter, digit, if_true, if_false, cut, List.takeWhile_cons_of_pos digit, Bool.false_eq_true]
    · simp only [longest, letter, digit, if_false, Bool.false_eq_true]
      by_cases double : ∃ others, rest = '=' :: others ∧ (c = '=' ∨ c = '!')
      · obtain ⟨others, rfl, rfl | rfl⟩ := double
        · exact ⟨['='], rfl, rfl⟩
        · exact ⟨['='], rfl, rfl⟩
      · have single : operator? (c :: rest) = (signKind? c).map fun kind => ⟨kind, [c], rest⟩ := by
          unfold operator?
          split
          next others same => exact absurd ⟨others, (List.cons.inj same).2, .inl (List.cons.inj same).1⟩ double
          next others same => exact absurd ⟨others, (List.cons.inj same).2, .inr (List.cons.inj same).1⟩ double
          next d others _ _ same => cases same; rfl
          next same => cases same
        refine ⟨[], ?_, ?_⟩
        · rw [single]
          cases signKind? c <;> rfl
        · rw [single, List.nil_append, operator?_of_alone (.inr apart.not_equal)]
          cases signKind? c <;> rfl

end Lexeme

open Lexeme (Stops Apart Alone longest signKind?)

namespace Token

/-- The token as it is cut from some text. -/
def Spelled (token : Token) : Prop := ∃ c rest, Lexeme.isGap c = false ∧ (longest c rest).kind = token.kind ∧
  (longest c rest).text = token.literal.toList

/-- A token that parsing can use: not the end of input, and a number only if it can be converted. -/
structure Usable (token : Token) : Prop where
  more : token.kind ≠ .endOfInput
  plain : token.kind = .integer → Numeral.Plain token.literal

end Token

namespace Cursor

theorem tokens_of_skipGap {first second : Cursor} (same : first.skipGap = second.skipGap) :
    first.tokens = second.tokens := by
  by_cases gap : first.skipGap.rest = []
  · rw [tokens_of_gap gap, tokens_of_gap (same ▸ gap), same]
  · have other : second.skipGap.rest ≠ [] := same ▸ gap
    rw [tokens_of_lexeme gap, tokens_of_lexeme other, nextToken, nextToken, same]

theorem tokens_gap {c : Char} (gap : Lexeme.isGap c = true) (rest : List Char) (position : Position) :
    tokens ⟨c :: rest, position⟩ = tokens ⟨rest, position.after c⟩ := by
  apply tokens_of_skipGap
  simp only [skipGap, List.dropWhile_cons_of_pos gap, List.takeWhile_cons_of_pos gap, Position.afterAll_cons]

theorem tokens_cons {c : Char} (solid : Lexeme.isGap c = false) (rest : List Char) (position : Position) :
    tokens ⟨c :: rest, position⟩ = ⟨(longest c rest).kind, String.ofList (longest c rest).text, position⟩ ::
      tokens ⟨(longest c rest).rest, position.afterAll (longest c rest).text⟩ := by
  have keeps : skipGap ⟨c :: rest, position⟩ = ⟨c :: rest, position⟩ := by simp [skipGap, solid]
  rw [tokens_of_lexeme (by simp [keeps]), nextToken, keeps]
  rfl

/-- Every token of a text is cut from it, but for the end of input. -/
theorem spelled_of_mem {token : Token} {cursor : Cursor} (member : token ∈ cursor.tokens)
    (more : token.kind ≠ .endOfInput) : token.Spelled := by
  induction length : cursor.rest.length using Nat.strongRecOn generalizing cursor with
  | ind n ih =>
    by_cases gap : cursor.skipGap.rest = []
    · rw [tokens_of_gap gap, List.mem_singleton] at member
      exact absurd (member ▸ rfl) more
    · rw [tokens_of_lexeme gap, List.mem_cons] at member
      rcases member with rfl | later
      · obtain ⟨c, rest, text⟩ := List.exists_cons_of_ne_nil gap
        refine ⟨c, rest, ?_, ?_, ?_⟩
        · have solid := List.head?_dropWhile_not Lexeme.isGap cursor.rest
          rw [show cursor.rest.dropWhile Lexeme.isGap = c :: rest from text] at solid
          simpa using solid
        · simp [nextToken, cut, text]
        · simp [nextToken, cut, text]
      · exact ih _ (length ▸ nextToken_rest_length gap) later rfl

end Cursor

/-- Whatever stands apart behind it, the text is cut into usable tokens of the given form. -/
def Reads (text : List Char) (form : List Token → Prop) : Prop :=
  ∀ after position, Apart after → ∃ tokens later, Cursor.tokens ⟨text ++ after, position⟩ =
    tokens ++ Cursor.tokens ⟨after, later⟩ ∧ (∀ token ∈ tokens, token.Usable) ∧ form tokens

namespace Reads

variable {text first second : List Char} {form former latter : List Token → Prop}

theorem imp (reads : Reads text former) (implies : ∀ tokens, former tokens → latter tokens) : Reads text latter := by
  intro after position apart
  obtain ⟨tokens, later, cut, usable, holds⟩ := reads after position apart
  exact ⟨tokens, later, cut, usable, implies tokens holds⟩

theorem nil : Reads [] (· = []) := by
  intro after position apart
  exact ⟨[], position, rfl, nofun, rfl⟩

theorem gap (reads : Reads text form) : Reads (' ' :: text) form := by
  intro after position apart
  obtain ⟨tokens, later, cut, rest⟩ := reads after (position.after ' ') apart
  exact ⟨tokens, later, by rw [List.cons_append, Cursor.tokens_gap (by decide), cut], rest⟩

/-- The second text begins with a character that ends the first one. -/
theorem append {c : Char} (front : Reads first former) (stops : Stops c) (back : Reads (c :: second) latter) :
    Reads (first ++ c :: second) (fun tokens => ∃ before behind, tokens = before ++ behind ∧ former before ∧ latter behind) := by
  intro after position apart
  obtain ⟨before, middle, cut, usable, holds⟩ := front (c :: second ++ after) position (.cons stops _)
  obtain ⟨behind, later, cut', usable', holds'⟩ := back after middle apart
  refine ⟨before ++ behind, later, ?_, List.forall_mem_append.mpr ⟨usable, usable'⟩, before, behind, rfl, holds, holds'⟩
  rw [List.append_assoc, cut, cut', List.append_assoc]

/-- A sign is a token by itself, unless it makes a longer operator with what follows. -/
theorem sign {c : Char} (kind : Kind) (sort : signKind? c = some kind) (alone : Alone c text)
    (reads : Reads text form) : Reads (c :: text)
      (fun tokens => ∃ token others, tokens = token :: others ∧
        (token.kind = kind ∧ token.literal = String.ofList [c]) ∧ form others) := by
  intro after position apart
  obtain ⟨tokens, later, cut, usable, holds⟩ := reads after (position.after c) apart
  have single : Alone c (text ++ after) := by
    cases text with
    | nil => exact .inr apart.not_equal
    | cons d rest => exact alone
  obtain ⟨solid, letter, digit, more, number⟩ := Lexeme.solid_of_sign sort
  refine ⟨⟨kind, String.ofList [c], position⟩ :: tokens, later, ?_, List.forall_mem_cons.mpr
    ⟨⟨more, fun same => absurd same number⟩, usable⟩, _, tokens, rfl, ⟨rfl, rfl⟩, holds⟩
  rw [List.cons_append, Cursor.tokens_cons solid]
  simp only [longest, letter, digit, Lexeme.operator?_of_alone single, sort, Option.map_some, Option.getD_some, if_false,
    Bool.false_eq_true, Position.afterAll_cons, Position.afterAll_nil, cut, List.cons_append]

theorem spelled {token : Token} (spelled : token.Spelled) (usable : token.Usable) : Reads token.literal.toList
    (fun tokens => ∃ again : Token, tokens = [again] ∧ again.kind = token.kind ∧ again.literal = token.literal) := by
  intro after position apart
  obtain ⟨c, rest, solid, kind, literal⟩ := spelled
  obtain ⟨more, text, again⟩ := Lexeme.longest_again c rest apart
  refine ⟨[⟨token.kind, token.literal, position⟩], position.afterAll token.literal.toList, ?_,
    List.forall_mem_singleton.mpr ⟨usable.more, usable.plain⟩, _, rfl, rfl, rfl⟩
  rw [← literal, text, List.cons_append, Cursor.tokens_cons solid, again, kind, literal, String.ofList_toList, ← literal, text]
  rfl

end Reads

end MonkeyLang
