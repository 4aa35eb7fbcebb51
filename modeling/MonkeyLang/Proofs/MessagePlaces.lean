import MonkeyLang.Proofs.PlainNumerals
import MonkeyLang.Proofs.TokenPlaces
import MonkeyLang.SyntaxError

/-! The place that a message names. A position is written without blanks and with one colon between two numerals, so that it
can be read back from the end of a message. -/

namespace MonkeyLang

namespace Numeral

theorem toList_signed (value : Int) :
    (toString value).toList = (if 0 ≤ value then [] else ['-']) ++ Nat.toDigits 10 value.natAbs := by
  obtain ⟨size, rfl | rfl⟩ := value.eq_nat_or_neg
  · rw [toList_toString, if_pos (Int.natCast_nonneg _), Int.natAbs_natCast, List.nil_append]
  · rw [Int.toString_eq_repr, Int.repr_eq_if, Int.natAbs_neg, Int.natAbs_natCast]
    split
    next low =>
      obtain rfl : size = 0 := by omega
      rfl
    next => simp

/-- A numeral has neither blanks nor colons. -/
theorem not_mem_signed {c : Char} (value : Int) (other : c = ' ' ∨ c = ':') : c ∉ (toString value).toList := by
  intro member
  rw [toList_signed, List.mem_append] at member
  rcases member with sign | digit
  · split at sign
    · cases sign
    · obtain rfl := List.mem_singleton.mp sign
      revert other
      decide
  · obtain ⟨low, high⟩ := (isDigit_of_mem digit).bounds
    rcases other with rfl | rfl
    · exact absurd low (by decide)
    · exact absurd high (by decide)

theorem toString_injective {first second : Int} (same : toString first = toString second) : first = second := by
  have lists := congrArg String.toList same
  rw [toList_signed, toList_signed] at lists
  have sizes : ∀ {size size' : Nat}, Nat.toDigits 10 size = Nat.toDigits 10 size' → size = size' := by
    intro size size' digits
    have read := congrArg (fun digits => Nat.ofDigitChars 10 digits 0) digits
    simpa using read
  have unsigned : ∀ {size : Nat} {rest : List Char}, Nat.toDigits 10 size ≠ '-' :: rest := by
    intro size rest wrong
    exact absurd rfl ((isDigit_of_mem (wrong ▸ List.mem_cons_self)).ne (by decide))
  split at lists
  · split at lists
    · have size := sizes lists
      omega
    · exact absurd lists unsigned
  · split at lists
    · exact absurd lists.symm unsigned
    · have size := sizes (List.cons.inj lists).2
      omega

end Numeral

namespace Position

/-- The first position is no further in the text than the second one. -/
def UpTo (first second : Position) : Prop := first = second ∨ first.Before second

variable {first second third : Position}

theorem UpTo.refl (position : Position) : position.UpTo position := .inl rfl

theorem UpTo.trans (earlier : first.UpTo second) (later : second.UpTo third) : first.UpTo third := by
  rcases earlier with rfl | before
  · exact later
  · rcases later with rfl | behind
    · exact .inr before
    · exact .inr (before.trans behind)

theorem toList_text (position : Position) :
    position.text.toList = (toString position.line).toList ++ ':' :: (toString position.column).toList := by
  simp [text]

theorem text_injective (same : first.text = second.text) : first = second := by
  have lists := congrArg String.toList same
  rw [toList_text, toList_text] at lists
  have line := Numeral.not_mem_signed first.line (c := ':') (.inr rfl)
  have column := Numeral.not_mem_signed first.column (c := ':') (.inr rfl)
  obtain ⟨lines, -, columns⟩ := (List.append_cons_inj_of_notMem line column).mp lists
  have sameLine := Numeral.toString_injective (String.toList_inj.mp lines)
  have sameColumn := Numeral.toString_injective (String.toList_inj.mp columns)
  cases first
  cases second
  exact congrArg₂ Position.mk sameLine sameColumn

theorem no_blank (position : Position) : ' ' ∉ position.text.toList := by
  rw [toList_text, List.mem_append, List.mem_cons]
  rintro (line | colon | column)
  · exact Numeral.not_mem_signed _ (.inl rfl) line
  · revert colon
    decide
  · exact Numeral.not_mem_signed _ (.inl rfl) column

/-- The message ends with the position. -/
def Ends (message : String) (position : Position) : Prop := ∃ words, message = words ++ " at " ++ position.text

/-- There is one position in which a message can end. -/
theorem Ends.unique {message : String} (one : Ends message first) (other : Ends message second) : first = second := by
  have last {position : Position} (ends : Ends message position) : ' ' :: position.text.toList <:+ message.toList := by
    obtain ⟨words, rfl⟩ := ends
    exact ⟨words.toList ++ [' ', 'a', 't'], by simp⟩
  have within {first second : Position} (longer : ' ' :: first.text.toList <:+ ' ' :: second.text.toList) :
      first = second := by
    rcases List.suffix_cons_iff.mp longer with same | inside
    · exact text_injective (String.toList_inj.mp (List.cons.inj same).2)
    · exact absurd (inside.subset List.mem_cons_self) second.no_blank
  rcases List.suffix_or_suffix_of_suffix (last one) (last other) with longer | longer
  · exact within longer
  · exact (within longer).symm

end Position

theorem SyntaxError.message_ends (error : SyntaxError) : Position.Ends error.message error.token.position := by
  have closed {last : String} (words front : String) (position : Position) (split : last = words ++ " at ") :
      Position.Ends (front ++ last ++ position.text) position :=
    ⟨front ++ words, by rw [split, ← String.append_assoc]⟩
  cases error with
  | expected kind found => exact closed ")" _ _ (by decide)
  | noExpression found => exact closed ")" _ _ (by decide)
  | tooGreat literal => exact closed " as integer" _ _ (by decide)
  | unclosed opening found => exact closed "" _ _ (by decide)

end MonkeyLang
