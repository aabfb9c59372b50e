import Mathlib.Data.List.TakeWhile
import Mathlib.Order.Lattice

/-!
# Ordered maps as sorted lists

A map over a linear order, as the list of its entries in increasing order of the keys: what an
ordered tree map shows of itself.  `insert` replaces the value of a key that is there; `upTo p` and
`above p` are the two parts a search for an upper bound cuts the map into, where `p` says which
keys are within the bound.
-/

namespace OrderedMap

variable {κ α : Type*} {l : List (κ × α)} {x : κ × α} {p : κ → Bool}

def upTo (p : κ → Bool) (l : List (κ × α)) : List (κ × α) := l.takeWhile fun e => p e.1

def above (p : κ → Bool) (l : List (κ × α)) : List (κ × α) := l.dropWhile fun e => p e.1

theorem upTo_append_above (p : κ → Bool) (l : List (κ × α)) : upTo p l ++ above p l = l :=
  List.takeWhile_append_dropWhile

theorem of_mem_upTo (h : x ∈ upTo p l) : p x.1 = true :=
  List.mem_takeWhile_imp (p := fun e : κ × α => p e.1) h

/-! ### Other values under the same keys -/

section MapValues

variable {β : Type*} (g : α → β)

/-- The map with `g` applied to its values. -/
def mapValues (l : List (κ × α)) : List (κ × β) := l.map fun e => (e.1, g e.2)

theorem mapValues_congr (g' : α → β) (h : ∀ e ∈ l, g e.2 = g' e.2) :
    mapValues g l = mapValues g' l :=
  List.map_congr_left fun e he => by rw [h e he]

@[simp] theorem length_mapValues : (mapValues g l).length = l.length := List.length_map _

theorem upTo_mapValues : upTo p (mapValues g l) = mapValues g (upTo p l) := by
  simp only [upTo, mapValues, List.takeWhile_map]
  rfl

theorem above_mapValues : above p (mapValues g l) = mapValues g (above p l) := by
  simp only [above, mapValues, List.dropWhile_map]
  rfl

end MapValues

/-! ### Inserting and erasing -/

variable [LinearOrder κ] {k : κ} {v : α}

/-- The keys increase strictly. -/
def Sorted (l : List (κ × α)) : Prop := l.Pairwise fun a b => a.1 < b.1

def insert (k : κ) (v : α) : List (κ × α) → List (κ × α)
  | [] => [(k, v)]
  | e :: l => if k < e.1 then (k, v) :: e :: l else if k = e.1 then (k, v) :: l
      else e :: insert k v l

def erase (k : κ) (l : List (κ × α)) : List (κ × α) := l.filter fun e => e.1 ≠ k

theorem mem_of_mem_insert (h : x ∈ insert k v l) : x = (k, v) ∨ x ∈ l := by
  induction l with
  | nil => exact .inl (List.mem_singleton.mp h)
  | cons e l ih =>
      rw [insert] at h
      split_ifs at h with hlt heq
      · exact (List.mem_cons.mp h).imp_right id
      · exact (List.mem_cons.mp h).imp_right (List.mem_cons_of_mem e)
      · rcases List.mem_cons.mp h with rfl | h
        · exact .inr List.mem_cons_self
        · exact (ih h).imp_right (List.mem_cons_of_mem e)

theorem Sorted.insert (h : Sorted l) : Sorted (insert k v l) := by
  induction l with
  | nil => exact List.pairwise_singleton _ _
  | cons e l ih =>
      obtain ⟨hhead, htail⟩ := List.pairwise_cons.mp h
      rw [OrderedMap.insert]
      split_ifs with hlt heq
      · refine List.pairwise_cons.mpr ⟨fun x hx => ?_, h⟩
        rcases List.mem_cons.mp hx with rfl | hx
        · exact hlt
        · exact lt_trans hlt (hhead x hx)
      · exact List.pairwise_cons.mpr ⟨fun x hx => heq ▸ hhead x hx, htail⟩
      · refine List.pairwise_cons.mpr ⟨fun x hx => ?_, ih htail⟩
        rcases mem_of_mem_insert hx with rfl | hx
        · exact lt_of_le_of_ne (not_lt.mp hlt) (Ne.symm heq)
        · exact hhead x hx

/-- A key that is not there is added. -/
theorem perm_insert (hk : ∀ e ∈ l, e.1 ≠ k) : (insert k v l).Perm ((k, v) :: l) := by
  induction l with
  | nil => exact .refl _
  | cons e l ih =>
      rw [insert, if_neg (Ne.symm (hk e List.mem_cons_self))]
      split_ifs with hlt
      · exact .refl _
      · refine ((ih fun x hx => hk x (List.mem_cons_of_mem e hx)).cons e).trans ?_
        exact .swap (k, v) e l

theorem Sorted.erase (h : Sorted l) : Sorted (erase k l) := List.Pairwise.filter _ h

theorem insert_mapValues {β : Type*} (g : α → β) :
    insert k (g v) (mapValues g l) = mapValues g (insert k v l) := by
  induction l with
  | nil => rfl
  | cons e l ih =>
      simp only [mapValues, List.map_cons, insert] at ih ⊢
      split_ifs
      · rfl
      · rfl
      · rw [ih]
        rfl

theorem erase_mapValues {β : Type*} (g : α → β) :
    erase k (mapValues g l) = mapValues g (erase k l) := by
  simp only [erase, mapValues, List.filter_map]
  rfl

@[simp] theorem mem_erase : x ∈ erase k l ↔ x ∈ l ∧ x.1 ≠ k := by simp [erase]

/-- Erasing a key takes one entry out. -/
theorem Sorted.perm_erase (h : Sorted l) (hx : x ∈ l) : l.Perm (x :: OrderedMap.erase x.1 l) := by
  induction l with
  | nil => cases hx
  | cons e l ih =>
      obtain ⟨hhead, htail⟩ := List.pairwise_cons.mp h
      rcases List.mem_cons.mp hx with rfl | hx
      · have hkeep : OrderedMap.erase x.1 l = l :=
          List.filter_eq_self.mpr fun y hy => decide_eq_true (ne_of_gt (hhead y hy))
        simp only [OrderedMap.erase, List.filter_cons, ne_eq, not_true_eq_false, decide_false,
          Bool.false_eq_true, if_false] at hkeep ⊢
        rw [hkeep]
      · have hne : e.1 ≠ x.1 := ne_of_lt (hhead x hx)
        simp only [OrderedMap.erase, List.filter_cons, ne_eq, hne, not_false_eq_true,
          decide_true, if_true]
        exact ((ih htail hx).cons e).trans (.swap x e _)

/-- In a sorted map the second part holds the keys beyond the bound. -/
theorem Sorted.of_mem_above (h : Sorted l) (hp : ∀ a b, a ≤ b → p b = true → p a = true)
    (hx : x ∈ above p l) : p x.1 = false := by
  induction l with
  | nil => cases hx
  | cons e l ih =>
      obtain ⟨hhead, htail⟩ := List.pairwise_cons.mp h
      cases he : p e.1 with
      | true =>
          simp only [above, List.dropWhile_cons, he, if_true] at hx
          exact ih htail hx
      | false =>
          simp only [above, List.dropWhile_cons, he, Bool.false_eq_true, if_false] at hx
          rcases List.mem_cons.mp hx with rfl | hx
          · exact he
          · cases hpx : p x.1 with
            | false => rfl
            | true => exact absurd (hp _ _ (le_of_lt (hhead x hx)) hpx) (by simp [he])

end OrderedMap
