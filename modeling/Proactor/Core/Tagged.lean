import Mathlib.Data.List.Basic
import Mathlib.Data.List.Count

/-!
# A queue that several owners share

The entries of the queue carry the number of their owner, and `part i l` is what owner `i` has in
it, in order.

* `Split q xs f` — the queue consists of what its owners `xs` have in it, `f x` for the owner `x`;
  with the rules for an owner that adds at the end, one whose entry is taken from the front, and one
  that comes.
* `nodup_of_part` — a queue in which no owner has an entry twice has no entry twice.
* `getElem?_foldl_modify` — going through the queue and changing the owner of each entry changes
  every owner as its own part of the queue says.
-/

namespace Tagged

variable {α β : Type*}

/-- The entries of one owner. -/
def part (i : ℕ) (l : List (ℕ × β)) : List β :=
  l.filterMap fun p => if p.1 = i then some p.2 else none

variable {i j : ℕ} {l l' : List (ℕ × β)}

@[simp] theorem part_nil : part i ([] : List (ℕ × β)) = [] := rfl

@[simp] theorem part_append : part i (l ++ l') = part i l ++ part i l' :=
  List.filterMap_append

@[simp] theorem part_cons_self (b : β) : part i ((i, b) :: l) = b :: part i l := by
  simp [part]

theorem part_cons_of_ne (h : j ≠ i) (b : β) : part i ((j, b) :: l) = part i l := by
  simp [part, h]

@[simp] theorem part_map_self (bs : List β) : part i (bs.map (Prod.mk i)) = bs := by
  induction bs with
  | nil => rfl
  | cons b bs ih => rw [List.map_cons, part_cons_self, ih]

theorem part_map_of_ne (h : j ≠ i) (bs : List β) : part i (bs.map (Prod.mk j)) = [] := by
  induction bs with
  | nil => rfl
  | cons b bs ih => rw [List.map_cons, part_cons_of_ne h, ih]

theorem part_map_snd {γ : Type*} (g : β → γ) :
    part i (l.map fun p => (p.1, g p.2)) = (part i l).map g := by
  induction l with
  | nil => rfl
  | cons p l ih =>
      obtain ⟨j, b⟩ := p
      by_cases h : j = i
      · subst h
        rw [List.map_cons, part_cons_self, part_cons_self, List.map_cons, ih]
      · rw [List.map_cons, part_cons_of_ne h, part_cons_of_ne h, ih]

theorem count_part [DecidableEq β] (b : β) : (part i l).count b = l.count (i, b) := by
  induction l with
  | nil => rfl
  | cons p l ih =>
      obtain ⟨j, c⟩ := p
      by_cases h : j = i
      · subst h
        rw [part_cons_self, List.count_cons, List.count_cons, ih]
        simp
      · rw [part_cons_of_ne h, ih, List.count_cons_of_ne (by simp [h])]

/-- No entry is twice in the queue if no owner has one twice. -/
theorem nodup_of_part [DecidableEq β] (h : ∀ i b, (part i l).count b ≤ 1) : l.Nodup := by
  rw [List.nodup_iff_count]
  rintro ⟨i, b⟩
  rw [← count_part]
  exact h i b

/-- The owners after each entry of the queue has changed its own. -/
theorem getElem?_foldl_modify (f : β → α → α) (xs : List α) :
    (l.foldl (fun xs p => xs.modify p.1 (f p.2)) xs)[i]?
      = xs[i]?.map fun x => (part i l).foldl (fun x b => f b x) x := by
  induction l generalizing xs with
  | nil => simp
  | cons p l ih =>
      obtain ⟨j, b⟩ := p
      rw [List.foldl_cons, ih, List.getElem?_modify]
      by_cases h : j = i
      · subst h
        cases xs[j]? <;> simp
      · rw [part_cons_of_ne h]
        cases xs[i]? <;> simp [h]

/-! ## A queue and its owners -/

/-- Every owner's part of the queue is what the owner takes it to be, and nobody else has one. -/
def Split (q : List (ℕ × β)) (xs : List α) (f : α → List β) : Prop :=
  ∀ i, part i q = (xs[i]?).elim [] f

variable {q : List (ℕ × β)} {xs : List α} {f : α → List β} {x y : α}

theorem Split.part_eq (h : Split q xs f) (hi : xs[i]? = some x) : part i q = f x := by
  rw [h i, hi, Option.elim_some]

/-- The tags in the queue are those of owners. -/
theorem Split.owner (h : Split q xs f) {p : ℕ × β} (hp : p ∈ q) : p.1 < xs.length := by
  by_contra hge
  have hnone : part p.1 q = [] := by
    rw [h p.1, List.getElem?_eq_none (Nat.not_lt.mp hge), Option.elim_none]
  have hmem : p.2 ∈ part p.1 q := List.mem_filterMap.mpr ⟨p, hp, by simp⟩
  rw [hnone] at hmem
  exact absurd hmem List.not_mem_nil

/-- An owner adds at the end of the queue. -/
theorem Split.push (h : Split q xs f) (hi : xs[i]? = some x) {new : List β}
    (hy : f y = f x ++ new) : Split (q ++ new.map (Prod.mk i)) (xs.set i y) f := by
  intro j
  obtain ⟨hlt, -⟩ := List.getElem?_eq_some_iff.mp hi
  rw [part_append, h j]
  by_cases hij : i = j
  · subst hij
    rw [part_map_self, List.getElem?_set_self hlt, hi, Option.elim_some, Option.elim_some, hy]
  · rw [part_map_of_ne hij, List.append_nil, List.getElem?_set_ne hij]

theorem Split.keep (h : Split q xs f) (hi : xs[i]? = some x) (hy : f y = f x) :
    Split q (xs.set i y) f := by
  have hpush : Split (q ++ ([] : List β).map (Prod.mk i)) (xs.set i y) f :=
    h.push hi (hy.trans (List.append_nil _).symm)
  rwa [List.map_nil, List.append_nil] at hpush

/-- The first entry of the queue is the first of its owner. -/
theorem Split.head {b : β} (h : Split ((i, b) :: q) xs f) (hi : xs[i]? = some x) :
    f x = b :: part i q := by
  rw [← h.part_eq hi, part_cons_self]

/-- The first entry is taken. -/
theorem Split.pop {b : β} (h : Split ((i, b) :: q) xs f) (hi : xs[i]? = some x)
    (hy : f y = (f x).tail) : Split q (xs.set i y) f := by
  intro j
  obtain ⟨hlt, -⟩ := List.getElem?_eq_some_iff.mp hi
  by_cases hij : i = j
  · subst hij
    rw [List.getElem?_set_self hlt, Option.elim_some, hy, h.head hi, List.tail_cons]
  · rw [List.getElem?_set_ne hij, ← h j, part_cons_of_ne hij]

/-- An owner comes. -/
theorem Split.snoc (h : Split q xs f) (y : α) :
    Split (q ++ (f y).map (Prod.mk xs.length)) (xs ++ [y]) f := by
  intro j
  rw [part_append, h j]
  by_cases hj : xs.length = j
  · subst hj
    simp
  · rw [part_map_of_ne hj, List.append_nil]
    rcases Nat.lt_or_gt_of_ne hj with hlt | hlt
    · rw [List.getElem?_eq_none (by omega), List.getElem?_eq_none (by simp; omega)]
    · rw [List.getElem?_append_left hlt]

theorem Split.snoc_nil (h : Split q xs f) (hy : f y = []) : Split q (xs ++ [y]) f := by
  have hsnoc := h.snoc y
  rwa [hy, List.map_nil, List.append_nil] at hsnoc

end Tagged
