import MonkeyLang.Proofs.Derivation

/-! Numerals that consist of ASCII digits alone, as texts have them: they are read as the number that they write, as
long as there are not too many digits. -/

namespace MonkeyLang.Numeral

open Grammar

def IsDigit (c : Char) : Prop := '0' ≤ c ∧ c ≤ '9'

instance : DecidablePred IsDigit := fun c => inferInstanceAs (Decidable ('0' ≤ c ∧ c ≤ '9'))

/-- Digits and nothing else, few enough to be converted. -/
structure Plain (literal : String) : Prop where
  ne_nil : literal.toList ≠ []
  digits : ∀ c ∈ literal.toList, IsDigit c
  few : literal.toList.length ≤ digitLimit

theorem IsDigit.bounds {c : Char} (digit : IsDigit c) : 48 ≤ c.toNat ∧ c.toNat ≤ 57 := digit

theorem IsDigit.decimalDigit {c : Char} (digit : IsDigit c) : Text.decimalDigit? c = some (c.toNat - 48) := by
  obtain ⟨low, high⟩ := digit.bounds
  have first : Text.zeros.toList = 0x30 :: Text.zeros.toList.tail := rfl
  rw [Text.decimalDigit?, ← Array.find?_toList, first, List.find?_cons_of_pos]
  · rfl
  · simp only [Bool.and_eq_true, decide_eq_true_eq]
    omega

theorem IsDigit.not_margin {c : Char} (digit : IsDigit c) : isMargin c = false := by
  obtain ⟨low, high⟩ := digit.bounds
  simp only [isMargin, Text.isBlank, Text.isSeparator, Bool.and_eq_false_iff, Bool.or_eq_false_iff,
    decide_eq_false_iff_not, beq_eq_false_iff_ne, ne_eq]
  omega

theorem IsDigit.ne {c d : Char} (digit : IsDigit c) (other : d.toNat < 48 ∨ 57 < d.toNat) : c ≠ d := by
  obtain ⟨low, high⟩ := digit.bounds
  rintro rfl
  omega

theorem digitRun_digits {text : List Char} (digits : ∀ c ∈ text, IsDigit c) :
    digitRun text = some (text.map (·.toNat - 48), []) := by
  induction text with
  | nil => rfl
  | cons c rest ih =>
    have others := ih fun d member => digits d (List.mem_cons_of_mem _ member)
    rw [digitRun, (digits c List.mem_cons_self).decimalDigit]
    simp only
    split
    next after same =>
      exact absurd rfl ((digits '_' (by simp)).ne (by decide))
    next => simp [others]

theorem ofDigits_map (text : List Char) :
    ofDigits (text.map (·.toNat - 48)) = text.foldl (fun number digit => 10 * number + (digit.toNat - '0'.toNat)) 0 := by
  rw [ofDigits, List.foldl_map]
  rfl

/-- Of a run of digits only the length decides whether it can be converted. -/
theorem read_digits {literal : String} (some : literal.toList ≠ []) (digits : ∀ c ∈ literal.toList, IsDigit c) :
    read literal = if digitLimit < literal.toList.length then .error (.tooManyDigits literal.toList.length)
      else .ok (decimal literal) := by
  have value := ofDigits_map literal.toList
  cases text : literal.toList with
  | nil => exact absurd text some
  | cons c rest =>
    rw [text] at digits value
    have digit := digits c List.mem_cons_self
    have start : signed (c :: rest) = (false, c :: rest) := by
      unfold signed
      split
      next same => exact absurd (List.cons.inj same).1 (digit.ne (by decide))
      next same => exact absurd (List.cons.inj same).1 (digit.ne (by decide))
      next => rfl
    have run := digitRun_digits digits
    rw [List.map_cons] at run value
    simp only [read, text, List.dropWhile_cons_of_neg (digit.not_margin ▸ Bool.false_ne_true), start, run, List.length_map,
      List.length_cons, List.all_nil, if_true, if_false, Bool.false_eq_true, decimal, value]

theorem read_plain {literal : String} (plain : Plain literal) : read literal = .ok (decimal literal) := by
  rw [read_digits plain.ne_nil plain.digits, if_neg (Nat.not_lt.mpr plain.few)]

/-- A run of digits that can be converted is no longer than that. -/
theorem plain_of_read {literal : String} {value : Int} (some : literal.toList ≠ []) (digits : ∀ c ∈ literal.toList, IsDigit c)
    (converted : read literal = .ok value) : Plain literal := by
  refine ⟨some, digits, Nat.not_lt.mp ?_⟩
  intro many
  rw [read_digits some digits, if_pos many] at converted
  cases converted

theorem toList_toString (value : Nat) : (toString (value : Int)).toList = Nat.toDigits 10 value := by
  rw [Int.toString_eq_repr, Int.repr_eq_if, if_pos (Int.natCast_nonneg _), Int.toNat_natCast, Nat.toList_repr]

theorem isDigit_of_mem {c : Char} {value : Nat} (member : c ∈ Nat.toDigits 10 value) : IsDigit c := by
  have digit := Nat.isDigit_of_mem_toDigits (by decide) (by decide) member
  simp only [Char.isDigit, Bool.and_eq_true, decide_eq_true_eq] at digit
  exact digit

/-- The numeral of a number that is not negative is plain, unless the number has too many digits. -/
theorem plain_toString {value : Nat} (few : (Nat.toDigits 10 value).length ≤ digitLimit) :
    Plain (toString (value : Int)) where
  ne_nil := by
    rw [toList_toString]
    exact Nat.toDigits_ne_nil
  digits c member := isDigit_of_mem (toList_toString value ▸ member)
  few := by rwa [toList_toString]

/-- A number that fits into a signed 64-bit integer does not. -/
theorem plain_of_le_greatest {value : Nat} (small : (value : Int) ≤ Signed64.greatest) : Plain (toString (value : Int)) := by
  have writable : Writable (value : Int) := by
    refine writable_of_natAbs_le ?_
    simp only [Signed64.greatest, Signed64.modulus] at small ⊢
    omega
  exact plain_toString writable

theorem decimal_toString (value : Nat) : decimal (toString (value : Int)) = value := by
  rw [decimal, toList_toString, ← Nat.ofDigitChars_eq_foldl]
  exact Nat.ofDigitChars_ten_toDigits

end MonkeyLang.Numeral
