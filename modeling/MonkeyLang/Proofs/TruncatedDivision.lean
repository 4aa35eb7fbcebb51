import MonkeyLang.Proofs.WrappedArithmetic

/-! Division. The quotient of two integers is their fraction cut toward zero, folded into the signed 64-bit range. Of the
integers in range one pair alone has a quotient that is not. A divisor of zero is a runtime error, which is found before
anything is divided. -/

namespace MonkeyLang

namespace Signed64

/-- The fraction without what is behind the point. -/
def truncate (fraction : ℚ) : ℤ := if 0 ≤ fraction then ⌊fraction⌋ else ⌈fraction⌉

theorem truncate_neg (fraction : ℚ) : truncate (-fraction) = -truncate fraction := by
  unfold truncate
  rcases lt_trichotomy fraction 0 with negative | rfl | positive
  · rw [if_pos (neg_nonneg.mpr negative.le), if_neg negative.not_ge, Int.floor_neg]
  · simp
  · rw [if_neg (by simpa using positive), if_pos positive.le, Int.ceil_neg]

theorem truncate_div_natCast (left right : ℕ) : truncate (left / right) = left / right := by
  have nonneg : (0 : ℚ) ≤ left / right := div_nonneg (Nat.cast_nonneg left) (Nat.cast_nonneg right)
  rw [truncate, if_pos nonneg]
  exact Rat.floor_intCast_div_natCast left right

/-- Signs can be taken out of the fraction and of the quotient alike. -/
theorem truncate_div (left right : ℤ) : truncate (left / right) = left.tdiv right := by
  obtain ⟨dividend, rfl | rfl⟩ := Int.eq_nat_or_neg left
  all_goals obtain ⟨divisor, rfl | rfl⟩ := Int.eq_nat_or_neg right
  all_goals simp only [Int.cast_neg, Int.cast_natCast, neg_div, div_neg, truncate_neg, truncate_div_natCast, Int.neg_tdiv,
    Int.tdiv_neg, Int.natCast_tdiv_eq_ediv]

/-- The quotient of the magnitudes, negated where the signs differ. -/
theorem tdiv_eq_magnitudes (left right : ℤ) :
    left.tdiv right = if (left < 0 ↔ right < 0) then |left| / |right| else -(|left| / |right|) := by
  rw [← Int.tdiv_eq_ediv_of_nonneg (abs_nonneg left)]
  rcases lt_or_ge left 0 with negative | positive
  · rcases lt_or_ge right 0 with negative' | positive'
    · rw [if_pos (by simp [negative, negative']), abs_of_neg negative, abs_of_neg negative', Int.neg_tdiv_neg]
    · rw [if_neg (by simp [negative, positive']), abs_of_neg negative, abs_of_nonneg positive', Int.neg_tdiv, Int.neg_neg]
  · rcases lt_or_ge right 0 with negative' | positive'
    · rw [if_neg (by simp [positive, negative']), abs_of_nonneg positive, abs_of_neg negative', Int.tdiv_neg, Int.neg_neg]
    · rw [if_pos (by simp [positive.not_gt, positive'.not_gt]), abs_of_nonneg positive, abs_of_nonneg positive']

/-- What is left is less than the divisor and on the side of the dividend. -/
theorem tdiv_remainder (left : ℤ) {right : ℤ} (nonzero : right ≠ 0) : ∃ remainder, left = left.tdiv right * right + remainder ∧
    |remainder| < |right| ∧ (remainder = 0 ∨ remainder.sign = left.sign) := by
  refine ⟨left.tmod right, (Int.tdiv_mul_add_tmod left right).symm, ?_, ?_⟩
  · have smaller : left.natAbs % right.natAbs < right.natAbs := Nat.mod_lt _ (Int.natAbs_pos.mpr nonzero)
    rw [← Int.natAbs_tmod] at smaller
    rw [Int.abs_eq_natAbs, Int.abs_eq_natAbs]
    exact_mod_cast smaller
  · have sign := Int.sign_tmod left right
    split at sign
    · exact .inl (Int.sign_eq_zero_iff_zero.mp sign)
    · exact .inr sign

/-- The magnitude is halved at least, unless the divisor is one or its negative. -/
theorem inRange_tdiv_iff {left right : ℤ} (inRange : InRange left) :
    InRange (left.tdiv right) ↔ ¬(left = least ∧ right = -1) := by
  have magnitude : (left.tdiv right).natAbs = left.natAbs / right.natAbs := Int.natAbs_tdiv left right
  simp only [InRange, least, greatest] at inRange ⊢
  constructor
  · rintro ⟨-, small⟩ ⟨rfl, rfl⟩
    revert small
    decide
  · intro other
    by_cases negative : right = -1
    · have greater : left ≠ -9223372036854775808 := fun same => other ⟨same, negative⟩
      rw [negative, Int.tdiv_neg, Int.tdiv_one]
      omega
    · by_cases one : right = 1
      · rw [one, Int.tdiv_one]
        exact inRange
      · by_cases zero : right = 0
        · rw [zero, Int.tdiv_zero]
          decide
        · have half : left.natAbs / right.natAbs ≤ left.natAbs / 2 := Nat.div_le_div_left (by omega) (by decide)
          omega

theorem divide_eq {left right : ℤ} (nonzero : right ≠ 0) : divide? left right = some (wrap (left.tdiv right)) :=
  if_neg nonzero

end Signed64

theorem Operator.applyInteger_divide {left right quotient : Int} (found : Signed64.divide? left right = some quotient) :
    applyInteger "/" left right = .integer quotient := by
  simp [applyInteger, found]

namespace World

variable {world middle after : World} {depth scope : Nat} {token : Option Token} {operator : String} {one other : Node}
  {left right : Int}

theorem eval_integers (first : world.eval depth one scope = (.ok (some (.integer left)), middle))
    (second : middle.eval depth other scope = (.ok (some (.integer right)), after)) :
    world.eval (depth + 1) (.binary token one operator other) scope =
      (.ok (some (Operator.applyInteger operator left right)), after) := by
  rw [eval_binary, first]
  change onward (middle.eval depth other scope) _ = _
  rw [second]
  rfl

end World

open Signed64

/-- Integers of any size divided by another one than zero give the fraction cut toward zero, which is the quotient of the
magnitudes with its sign, folded into the range. For two integers in range this is the quotient itself, with the remainder
on the side of the dividend, but for the least integer and -1. A division in a program comes to it and never divides by
zero: whatever that would give, its value is a runtime error then. -/
theorem division_truncates :
    (∀ left right : ℤ, right ≠ 0 → divide? left right = some (wrap (truncate (left / right))) ∧
      divide? left right =
        some (wrap (if (left < 0 ↔ right < 0) then |left| / |right| else -(|left| / |right|)))) ∧
    (∀ left right : ℤ, InRange left → InRange right → right ≠ 0 → ∃ quotient, divide? left right = some quotient ∧
      InRange quotient ∧
      if left = -2 ^ 63 ∧ right = -1 then quotient = -2 ^ 63
      else ∃ remainder, left = quotient * right + remainder ∧ |remainder| < |right| ∧
        (remainder = 0 ∨ remainder.sign = left.sign)) ∧
    (∀ divide : ℤ → ℤ → ℤ, (∀ left right, right ≠ 0 → divide? left right = some (divide left right)) →
      ∀ {world middle after : World} {depth scope token} {one other : Node} {left right : ℤ},
        world.eval depth one scope = (.ok (some (.integer left)), middle) →
        middle.eval depth other scope = (.ok (some (.integer right)), after) →
        world.eval (depth + 1) (.binary token one "/" other) scope =
          (.ok (some (if right = 0 then .error .divisionByZero else .integer (divide left right))), after)) ∧
    RuntimeError.divisionByZero.message = "division by zero" := by
  refine ⟨?_, ?_, ?_, rfl⟩
  · intro left right nonzero
    rw [divide_eq nonzero, truncate_div, ← tdiv_eq_magnitudes]
    exact ⟨rfl, rfl⟩
  · intro left right inRange _ nonzero
    refine ⟨wrap (left.tdiv right), divide_eq nonzero, inRange_wrap _, ?_⟩
    by_cases overflows : left = -2 ^ 63 ∧ right = -1
    · rw [if_pos overflows, overflows.1, overflows.2]
      decide
    · have cut : InRange (left.tdiv right) := (inRange_tdiv_iff inRange).mpr overflows
      rw [if_neg overflows, wrap_of_inRange cut]
      exact tdiv_remainder left nonzero
  · intro divide agrees world middle after depth scope token one other left right first second
    rw [World.eval_integers first second]
    by_cases zero : right = 0
    · subst zero
      rfl
    · rw [Operator.applyInteger_divide (agrees left right zero), if_neg zero]

namespace Parsed

/-- The nodes of `-7` and of `-7` divided by a literal. -/
def minusSeven : Node :=
  .unary (some ⟨.minus, "-", ⟨1, 1⟩⟩) "-" (.integer (some ⟨.integer, "7", ⟨1, 2⟩⟩) 7)

def sevenOver (text : String) (value : Int) : Node :=
  .binary (some ⟨.slash, "/", ⟨1, 4⟩⟩) minusSeven "/" (.integer (some ⟨.integer, text, ⟨1, 6⟩⟩) value)

/-- The least integer is the quotient of itself and -1. -/
theorem quotients_cut :
    (ofText 20 "-7 / 2").result =
      .ok (.program (.sequence [.statement (some ⟨.minus, "-", ⟨1, 1⟩⟩) (sevenOver "2" 2)])) ∧
    (ofText 20 "-7 / 0").result =
      .ok (.program (.sequence [.statement (some ⟨.minus, "-", ⟨1, 1⟩⟩) (sevenOver "0" 0)])) ∧
    divide? (-7) 2 = some (wrap (truncate ((-7 : ℤ) / (2 : ℤ)))) ∧
    (∃ quotient, divide? (-7) 2 = some quotient ∧ InRange quotient ∧ ∃ remainder, -7 = quotient * 2 + remainder ∧
      |remainder| < |2| ∧ (remainder = 0 ∨ remainder.sign = (-7 : ℤ).sign)) ∧
    divide? (-2 ^ 63) (-1) = some (-2 ^ 63) ∧
    World.fresh.eval 3 (sevenOver "2" 2) 0 = (.ok (some (.integer (-3))), .fresh) ∧
    World.fresh.eval 3 (sevenOver "0" 0) 0 = (.ok (some (.error .divisionByZero)), .fresh) := by
  obtain ⟨sizes, ranged, divided, -⟩ := division_truncates
  obtain ⟨quotient, found, inRange, remainder⟩ := ranged (-7) 2 ⟨by decide, by decide⟩ ⟨by decide, by decide⟩ (by decide)
  rw [if_neg (by decide)] at remainder
  obtain ⟨folded, found', -, same⟩ :=
    ranged (-2 ^ 63) (-1) ⟨by decide, by decide⟩ ⟨by decide, by decide⟩ (by decide)
  rw [if_pos ⟨rfl, rfl⟩] at same
  have dividend : World.fresh.eval 2 minusSeven 0 = (.ok (some (.integer (-7))), .fresh) := rfl
  have divisor (text : String) (value : Int) :
      World.fresh.eval 2 (.integer (some ⟨.integer, text, ⟨1, 6⟩⟩) value) 0 = (.ok (some (.integer value)), .fresh) := rfl
  -- a division that gives 100 for a divisor of zero
  have agrees (left right : ℤ) (nonzero : right ≠ 0) :
      divide? left right = some (if right = 0 then 100 else wrap (left.tdiv right)) := by
    rw [if_neg nonzero, divide_eq nonzero]
  refine ⟨by cbv, by cbv, (sizes (-7) 2 (by decide)).1, ⟨quotient, found, inRange, remainder⟩,
    found'.trans (congrArg some same), ?_, ?_⟩
  · exact divided _ agrees dividend (divisor "2" 2)
  · exact divided _ agrees dividend (divisor "0" 0)

end Parsed

end MonkeyLang
