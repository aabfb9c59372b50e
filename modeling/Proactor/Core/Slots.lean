import Mathlib.Data.List.Perm.Basic

/-!
# A list of slots, changed one slot at a time

A system with several parties keeps their states in a list and each step writes one entry.  What
the entries contribute to a quantity of the system is `l.filterMap f`; the lemmas say how that
changes when the entry of one party does.  Parties that come get a slot at the end of the list, and
those that leave give theirs up.
-/

namespace Slots

variable {α β : Type*} {f : α → Option β} {l : List α} {i : ℕ} {a b : α}

/-- A slot that contributes what it did. -/
theorem filterMap_set_of_eq (h : l[i]? = some a) (hf : f b = f a) :
    (l.set i b).filterMap f = l.filterMap f := by
  induction l generalizing i with
  | nil => rfl
  | cons x l ih =>
      cases i with
      | zero =>
          simp only [List.getElem?_cons_zero, Option.some.injEq] at h
          simp only [List.set_cons_zero, List.filterMap_cons, hf, h]
      | succ i =>
          simp only [List.getElem?_cons_succ] at h
          simp only [List.set_cons_succ, List.filterMap_cons, ih h]

/-- A slot that contributes for the first time. -/
theorem filterMap_set_of_none {c : β} (h : l[i]? = some a) (ha : f a = none) (hb : f b = some c) :
    ((l.set i b).filterMap f).Perm (c :: l.filterMap f) := by
  induction l generalizing i with
  | nil => simp at h
  | cons x l ih =>
      cases i with
      | zero =>
          simp only [List.getElem?_cons_zero, Option.some.injEq] at h
          simp only [List.set_cons_zero, List.filterMap_cons, hb, h, ha]
          exact .refl _
      | succ i =>
          simp only [List.getElem?_cons_succ] at h
          simp only [List.set_cons_succ, List.filterMap_cons]
          cases hx : f x with
          | none => exact ih h
          | some d => exact ((ih h).cons d).trans (.swap c d _)

/-- A slot that contributes no longer. -/
theorem filterMap_set_to_none {c : β} (h : l[i]? = some a) (ha : f a = some c) (hb : f b = none) :
    (l.filterMap f).Perm (c :: (l.set i b).filterMap f) := by
  obtain ⟨hlt, rfl⟩ := List.getElem?_eq_some_iff.mp h
  have hset : (l.set i b)[i]? = some b := by simp [hlt]
  have hback := filterMap_set_of_none hset hb ha
  rwa [List.set_set, List.set_getElem_self] at hback

/-- A slot other than the one that is written. -/
theorem getElem?_set_of_ne {j : ℕ} {c : α} (h : l[i]? = some a) (hj : l[j]? = some c)
    (hne : c ≠ a) : (l.set i b)[j]? = some c := by
  have hij : i ≠ j := by
    rintro rfl
    exact hne (Option.some.inj (hj.symm.trans h))
  rw [List.getElem?_set_ne hij, hj]

/-- The slots after one has been added. -/
theorem getElem?_snoc (h : (l ++ [a])[i]? = some b) :
    i < l.length ∧ l[i]? = some b ∨ i = l.length ∧ b = a := by
  rw [List.getElem?_append] at h
  split at h
  case isTrue hlt => exact .inl ⟨hlt, h⟩
  case isFalse hge =>
    rw [List.getElem?_singleton] at h
    split at h
    case isTrue hzero => exact .inr ⟨by omega, (Option.some.inj h).symm⟩
    case isFalse => exact absurd h (by simp)

/-- The slots without the one that is given up. -/
theorem eraseIdx_perm (h : l[i]? = some a) : (a :: l.eraseIdx i).Perm l := by
  obtain ⟨hlt, rfl⟩ := List.getElem?_eq_some_iff.mp h
  exact List.getElem_cons_eraseIdx_perm hlt

end Slots
