import Mathlib.Data.Nat.ModEq
import Mathlib.Tactic.Common

/-!
# Indices of a ring with wrapping counters

A ring of `2 ^ k` slots is addressed by counters of `w ≥ k` bits: the entry `i` places after the
counter value `h` is in slot `(h + i) % 2 ^ w &&& (2 ^ k - 1)`.  The wrap of the counter is not
visible in the slot (`slotOf_eq`), and entries less than a round apart are in different slots
(`slotOf_inj`).
-/

namespace RingIndex

/-- Slot of the entry `i` places after the `w`-bit counter value `h`. -/
def slotOf (w k h i : ℕ) : ℕ := (h + i) % 2 ^ w &&& (2 ^ k - 1)

variable {w k h i j : ℕ}

theorem slotOf_eq (hk : k ≤ w) : slotOf w k h i = (h + i) % 2 ^ k := by
  rw [slotOf, Nat.and_two_pow_sub_one_eq_mod, Nat.mod_mod_of_dvd _ (Nat.pow_dvd_pow 2 hk)]

theorem slotOf_succ (hk : k ≤ w) : slotOf w k ((h + 1) % 2 ^ w) i = slotOf w k h (i + 1) := by
  rw [slotOf_eq hk, slotOf_eq hk, Nat.add_mod, Nat.mod_mod_of_dvd _ (Nat.pow_dvd_pow 2 hk),
    ← Nat.add_mod]
  congr 1
  omega

theorem slotOf_inj (hk : k ≤ w) (hi : i < 2 ^ k) (hj : j < 2 ^ k)
    (heq : slotOf w k h i = slotOf w k h j) : i = j := by
  rw [slotOf_eq hk, slotOf_eq hk] at heq
  have hmod : i % 2 ^ k = j % 2 ^ k := Nat.ModEq.add_left_cancel' h heq
  rwa [Nat.mod_eq_of_lt hi, Nat.mod_eq_of_lt hj] at hmod

end RingIndex
