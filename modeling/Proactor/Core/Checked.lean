import Mathlib.Algebra.Order.Ring.Int
import Mathlib.Tactic.Common

/-!
# Checked machine integers

A signed integer of `w` bits is an integer in its range.  An operation whose exact result leaves
the range is `none`: on signed operands that is an overflow, which must not happen.  Division
truncates, and a remainder is undefined when the quotient is.
-/

namespace Checked

/-- The values of `w` bits. -/
def InRange (w : ℕ) (x : ℤ) : Prop := -2 ^ (w - 1) ≤ x ∧ x < 2 ^ (w - 1)

instance (w : ℕ) (x : ℤ) : Decidable (InRange w x) := inferInstanceAs (Decidable (_ ∧ _))

/-- A conversion to `w` bits that must keep the value. -/
def ofInt? (w : ℕ) (x : ℤ) : Option ℤ := if InRange w x then some x else none

def sub (w : ℕ) (a b : ℤ) : Option ℤ := ofInt? w (a - b)

def mul (w : ℕ) (a b : ℤ) : Option ℤ := ofInt? w (a * b)

def div (w : ℕ) (a b : ℤ) : Option ℤ := if b = 0 then none else ofInt? w (a.tdiv b)

def mod (w : ℕ) (a b : ℤ) : Option ℤ := (div w a b).map fun _ => a.tmod b

variable {w : ℕ} {a b x : ℤ}

theorem ofInt?_of_inRange (h : InRange w x) : ofInt? w x = some x := if_pos h

/-- What lies between two values of the range is in it. -/
theorem InRange.of_le (ha : InRange w a) (hb : InRange w b) (hax : a ≤ x) (hxb : x ≤ b) :
    InRange w x := ⟨ha.1.trans hax, hxb.trans_lt hb.2⟩

theorem inRange_zero (w : ℕ) : InRange w 0 := by
  have hpos : (0 : ℤ) < 2 ^ (w - 1) := Int.pow_pos (by decide)
  exact ⟨by omega, hpos⟩

/-- The difference of two values that are not negative does not overflow. -/
theorem sub_of_nonneg (ha : 0 ≤ a) (har : InRange w a) (hb : 0 ≤ b) (hbr : InRange w b) :
    sub w a b = some (a - b) := by
  refine ofInt?_of_inRange ⟨?_, ?_⟩
  · have := hbr.2
    omega
  · have := har.2
    omega

theorem mul_of_le (h : InRange w x) (ha : 0 ≤ a * b) (hx : a * b ≤ x) : mul w a b = some (a * b) :=
  ofInt?_of_inRange ((inRange_zero w).of_le h ha hx)

/-- On values that are not negative, truncating is rounding down. -/
theorem div_of_nonneg (ha : 0 ≤ a) (har : InRange w a) (hb : 0 < b) :
    div w a b = some (a / b) := by
  have hle : a / b ≤ a := Int.ediv_le_self b ha
  rw [div, if_neg hb.ne', Int.tdiv_eq_ediv_of_nonneg ha]
  exact ofInt?_of_inRange ((inRange_zero w).of_le har (Int.ediv_nonneg ha hb.le) hle)

theorem mod_of_nonneg (ha : 0 ≤ a) (har : InRange w a) (hb : 0 < b) :
    mod w a b = some (a % b) := by
  rw [mod, div_of_nonneg ha har hb, Option.map_some, Int.tmod_eq_emod_of_nonneg ha]

end Checked
