import Mathlib.Data.List.Nodup
import Mathlib.Logic.Function.Basic
import Mathlib.Tactic.Common

/-!
# Singly linked chains

The nodes of a linked list are named by `ι` and joined by a successor function
`next : ι → Option ι`, `none` being the null pointer.  `Linked next p l` says that following
`next` from `p` visits exactly the nodes of `l`, in order, and then ends.

* `Linked.nodup` — a chain that ends visits no node twice.
* `Linked.congr` — only the links of the visited nodes matter.
* `Linked.snoc` — writing the last node's link appends a node.
* `walk` — the nodes, computed; `Linked.walk_of_le` says that it computes them.
-/

namespace Chain

variable {ι : Type*}

/-- Following `next` from `p` visits exactly `l`. -/
def Linked (next : ι → Option ι) : Option ι → List ι → Prop
  | p, [] => p = none
  | p, x :: l => p = some x ∧ Linked next (next x) l

/-- The first `n` nodes from `p`. -/
def walk (next : ι → Option ι) : ℕ → Option ι → List ι
  | 0, _ => []
  | _ + 1, none => []
  | n + 1, some x => x :: walk next n (next x)

variable {next next' : ι → Option ι} {p : Option ι} {l : List ι}

/-- A walk that is long enough ends at the end of the chain. -/
theorem Linked.walk_of_le {n : ℕ} (h : Linked next p l) (hn : l.length ≤ n) :
    walk next n p = l := by
  induction l generalizing p n with
  | nil =>
      obtain rfl : p = none := h
      cases n <;> rfl
  | cons x l ih =>
      obtain ⟨rfl, h⟩ := h
      cases n with
      | zero => exact absurd hn (by simp)
      | succ n => rw [walk, ih h (Nat.le_of_succ_le_succ hn)]

theorem Linked.walk_eq (h : Linked next p l) : walk next l.length p = l :=
  h.walk_of_le (Nat.le_refl _)

theorem Linked.head_eq (h : Linked next p l) : p = l.head? := by
  cases l with
  | nil => exact h
  | cons x l => exact h.1

/-- The chain from a given start is unique. -/
theorem Linked.unique {l' : List ι} (h : Linked next p l) (h' : Linked next p l') : l = l' := by
  induction l generalizing p l' with
  | nil =>
      cases l' with
      | nil => rfl
      | cons y l' => exact absurd (h.symm.trans h'.1) (by simp)
  | cons x l ih =>
      cases l' with
      | nil => exact absurd (h'.symm.trans h.1) (by simp)
      | cons y l' =>
          obtain rfl : x = y := Option.some.inj (h.1.symm.trans h'.1)
          rw [ih h.2 h'.2]

theorem Linked.suffix {l₁ l₂ : List ι} (h : Linked next p (l₁ ++ l₂)) :
    Linked next l₂.head? l₂ := by
  induction l₁ generalizing p with
  | nil => rw [List.nil_append] at h; rwa [← h.head_eq]
  | cons x l₁ ih => exact ih h.2

/-- The chain from the `k`-th node on. -/
theorem Linked.drop (h : Linked next p l) (k : ℕ) : Linked next l[k]? (l.drop k) := by
  have hsplit : Linked next p (l.take k ++ l.drop k) := by rwa [List.take_append_drop]
  rw [← List.head?_drop]
  exact hsplit.suffix

theorem Linked.tail {x : ι} (h : Linked next p (x :: l)) : Linked next l.head? l := by
  rw [← h.2.head_eq]
  exact h.2

/-- **A chain that ends has no repeated node.**  A repeated node would start two chains of
different length, against `Linked.unique`. -/
theorem Linked.nodup (h : Linked next p l) : l.Nodup := by
  induction l generalizing p with
  | nil => exact List.nodup_nil
  | cons x l ih =>
      refine List.nodup_cons.mpr ⟨?_, ih h.2⟩
      intro hx
      obtain ⟨l₁, l₂, rfl⟩ := List.append_of_mem hx
      have hshort : Linked next (some x) (x :: l₂) := Linked.suffix h.2
      have hlong : Linked next (some x) (x :: (l₁ ++ x :: l₂)) := ⟨rfl, h.2⟩
      have := congrArg List.length (hshort.unique hlong)
      simp only [List.length_cons, List.length_append] at this
      omega

theorem Linked.congr (h : Linked next p l) (heq : ∀ x ∈ l, next' x = next x) :
    Linked next' p l := by
  induction l generalizing p with
  | nil => exact h
  | cons x l ih =>
      refine ⟨h.1, ?_⟩
      rw [heq x List.mem_cons_self]
      exact ih h.2 fun y hy => heq y (List.mem_cons_of_mem _ hy)

/-- Setting the last link of a chain appends a node. -/
theorem Linked.snoc {t x : ι} (h : Linked next p (l ++ [t])) (hx : x ∉ l ++ [t])
    (ht : next' t = some x) (hend : next' x = none)
    (heq : ∀ y ∈ l, next' y = next y) : Linked next' p (l ++ [t] ++ [x]) := by
  induction l generalizing p with
  | nil => exact ⟨h.1, ht, hend⟩
  | cons y l ih =>
      refine ⟨h.1, ?_⟩
      rw [heq y List.mem_cons_self]
      simp only [List.cons_append, List.mem_cons, not_or] at hx
      exact ih h.2 hx.2 fun z hz => heq z (List.mem_cons_of_mem _ hz)

/-- Each node's link leads to the node after it. -/
theorem Linked.next_getElem {k : ℕ} (h : Linked next p l) (hk : k < l.length) :
    next l[k] = l[k + 1]? := by
  induction l generalizing p k with
  | nil => exact absurd hk (Nat.not_lt_zero _)
  | cons x l ih =>
      cases k with
      | zero => simpa [List.head?_eq_getElem?] using h.2.head_eq
      | succ k => simpa using ih h.2 (Nat.lt_of_succ_lt_succ hk)

end Chain
