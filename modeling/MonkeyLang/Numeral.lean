import MonkeyLang.Signed64
import MonkeyLang.Text.Blank
import MonkeyLang.Text.DecimalDigit
import MonkeyLang.Text.Quoted

/-! Integers written in decimal. A numeral may have blanks around it, a sign, digits of any script and single
underscores between digits; it may not have more digits than the conversion limit, neither when it is read nor when
it is written. -/

namespace MonkeyLang.Numeral

inductive Fault
  | tooManyDigits (count : Nat)
  | malformed (literal : String)
  /-- An integer has too many digits to be written. -/
  | unwritable
deriving DecidableEq

/-- Numerals with more digits than this are refused, leading zeros included; integers with more are not written. -/
def digitLimit : Nat := 4300

/-- The quoted literal of a message is cut to this many characters. -/
def quotedLimit : Nat := 200

def Fault.message : Fault → String
  | .tooManyDigits count =>
    "Exceeds the limit (" ++ toString digitLimit ++ " digits) for integer string conversion: value has " ++
      toString count ++ " digits; use sys.set_int_max_str_digits() to increase the limit"
  | .malformed literal =>
    "invalid literal for int() with base 10: " ++
      String.ofList ((Text.quoteChars literal.toList).take quotedLimit)
  | .unwritable =>
    "Exceeds the limit (" ++ toString digitLimit ++ " digits) for integer string conversion; use " ++
      "sys.set_int_max_str_digits() to increase the limit"

/-- The integer has few enough digits to be written; its sign does not count. -/
def Writable (value : Int) : Prop := (Nat.toDigits 10 value.natAbs).length ≤ digitLimit

instance : DecidablePred Writable := fun value =>
  inferInstanceAs (Decidable ((Nat.toDigits 10 value.natAbs).length ≤ digitLimit))

def isMargin (c : Char) : Bool := Text.isBlank c && !Text.isSeparator c

/-- The digits at the front of a text, single underscores between them passed over, and the rest of the text. An
underscore after a digit must have a digit after it. -/
def digitRun : List Char → Option (List Nat × List Char)
  | [] => some ([], [])
  | c :: rest =>
    match Text.decimalDigit? c with
    | none => some ([], c :: rest)
    | some digit =>
      match rest with
      | '_' :: others =>
        match digitRun others with
        | some (next :: digits, left) => some (digit :: next :: digits, left)
        | _ => none
      | others => (digitRun others).map fun (digits, left) => (digit :: digits, left)

/-- The number with these digits, the most significant one first. -/
def ofDigits (digits : List Nat) : Nat := digits.foldl (fun n digit => 10 * n + digit) 0

/-- A sign in front of a numeral, and what follows it. -/
def signed : List Char → Bool × List Char
  | '-' :: rest => (true, rest)
  | '+' :: rest => (false, rest)
  | rest => (false, rest)

/-- Reads a numeral that fills the whole text. The digits are counted before what follows them is looked at. -/
def read (literal : String) : Except Fault Int :=
  let (negative, text) := signed (literal.toList.dropWhile isMargin)
  match digitRun text with
  | none => .error (.malformed literal)
  | some ([], _) => .error (.malformed literal)
  | some (digit :: digits, rest) =>
    let count := digits.length + 1
    if digitLimit < count then .error (.tooManyDigits count)
    else if rest.all isMargin then
      let value : Int := ofDigits (digit :: digits)
      .ok (if negative then -value else value)
    else .error (.malformed literal)

theorem digit_lt_of_mem {text rest : List Char} {digits : List Nat} (run : digitRun text = some (digits, rest)) :
    ∀ digit ∈ digits, digit < 10 := by
  fun_induction digitRun text generalizing digits rest with
  | case1 | case2 =>
    cases run
    exact List.forall_mem_nil _
  | case3 c first decimal others next more left same ih =>
    cases run
    exact List.forall_mem_cons.mpr ⟨Text.decimalDigit?_lt decimal, ih same⟩
  | case4 => cases run
  | case5 c first decimal others _ ih =>
    obtain ⟨⟨more, left⟩, same, pair⟩ := Option.map_eq_some_iff.mp run
    cases pair
    exact List.forall_mem_cons.mpr ⟨Text.decimalDigit?_lt decimal, ih same⟩

/-- A number has no more digits than it was read from. -/
theorem length_toDigits_ofDigits {digits : List Nat} (some : 0 < digits.length) (small : ∀ digit ∈ digits, digit < 10) :
    (Nat.toDigits 10 (ofDigits digits)).length ≤ digits.length := by
  -- what has been read so far is the higher part of the number
  have behind (front : Nat) :
      digits.foldl (fun n digit => 10 * n + digit) front < (front + 1) * 10 ^ digits.length := by
    clear some
    induction digits generalizing front with
    | nil => simp
    | cons digit rest ih =>
      obtain ⟨first, others⟩ := List.forall_mem_cons.mp small
      rw [List.foldl_cons, List.length_cons, Nat.pow_succ']
      refine Nat.lt_of_lt_of_le (ih others (10 * front + digit)) ?_
      rw [← Nat.mul_assoc]
      exact Nat.mul_le_mul_right _ (by omega)
  refine (Nat.length_toDigits_le_iff (by decide) some).mpr ?_
  simpa [ofDigits] using behind 0

/-- A number of 64 bits has 20 digits at most. -/
theorem writable_of_natAbs_le {value : Int} (small : value.natAbs ≤ Signed64.modulus) : Writable value := by
  have few : value.natAbs < 10 ^ 20 := Nat.lt_of_le_of_lt small (by decide)
  exact Nat.le_trans ((Nat.length_toDigits_le_iff (by decide) (by decide)).mpr few) (by decide)

/-- What could be read can be written. -/
theorem writable_of_read {literal : String} {value : Int} (converted : read literal = .ok value) : Writable value := by
  unfold read at converted
  dsimp only at converted
  split at converted
  · cases converted
  · cases converted
  next digit digits rest run =>
    split at converted
    · cases converted
    next few =>
      have writable : (Nat.toDigits 10 (ofDigits (digit :: digits))).length ≤ digitLimit :=
        Nat.le_trans (length_toDigits_ofDigits (Nat.succ_pos _) (digit_lt_of_mem run)) (Nat.le_of_not_lt few)
      split at converted
      · obtain rfl := Except.ok.inj converted
        unfold Writable
        split
        · rwa [Int.natAbs_neg]
        · exact writable
      · cases converted

end MonkeyLang.Numeral
