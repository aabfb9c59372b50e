import Mathlib.Tactic.Common

/-!
# A stream in pieces

A list of pieces stands for the stream that is their concatenation.  `dropFlat n` reads `n` elements
off the front of the stream: pieces that are used up go, and the one in which the reading ends is
cut.  On the stream that is `List.drop` (`flatten_dropFlat`), and reading in two parts is reading
once (`dropFlat_add`); how many pieces are left is what the stream alone does not say.

`skipFlat n` does the same and stops as soon as `n` elements are read, so that empty pieces right
behind the end of the reading stay.
-/

namespace Chunked

variable {α : Type*}

def dropFlat : ℕ → List (List α) → List (List α)
  | _, [] => []
  | n, c :: cs => if n < c.length then c.drop n :: cs else dropFlat (n - c.length) cs

@[simp] theorem dropFlat_nil (n : ℕ) : dropFlat n ([] : List (List α)) = [] := by
  rw [dropFlat]

/-- The reading ends in the first piece. -/
theorem dropFlat_cons_of_lt {n : ℕ} {c : List α} (cs : List (List α)) (h : n < c.length) :
    dropFlat n (c :: cs) = c.drop n :: cs := by
  rw [dropFlat, if_pos h]

/-- The reading uses up the first piece. -/
theorem dropFlat_cons_of_le {n : ℕ} {c : List α} (cs : List (List α)) (h : c.length ≤ n) :
    dropFlat n (c :: cs) = dropFlat (n - c.length) cs := by
  rw [dropFlat, if_neg (Nat.not_lt.mpr h)]

theorem dropFlat_zero {cs : List (List α)} (h : ∀ c ∈ cs, c ≠ []) : dropFlat 0 cs = cs := by
  cases cs with
  | nil => rfl
  | cons c cs =>
      rw [dropFlat_cons_of_lt cs (List.length_pos_iff.mpr (h c List.mem_cons_self)), List.drop_zero]

theorem flatten_dropFlat (n : ℕ) (cs : List (List α)) :
    (dropFlat n cs).flatten = cs.flatten.drop n := by
  induction cs generalizing n with
  | nil => simp
  | cons c cs ih =>
      rcases Nat.lt_or_ge n c.length with h | h
      · rw [dropFlat_cons_of_lt cs h, List.flatten_cons, List.flatten_cons,
          List.drop_append_of_le_length (Nat.le_of_lt h)]
      · rw [dropFlat_cons_of_le cs h, ih, List.flatten_cons, List.drop_append,
          List.drop_eq_nil_of_le h, List.nil_append]

theorem dropFlat_add (m n : ℕ) (cs : List (List α)) :
    dropFlat (m + n) cs = dropFlat n (dropFlat m cs) := by
  induction cs generalizing m with
  | nil => simp
  | cons c cs ih =>
      rcases Nat.lt_or_ge m c.length with hm | hm
      · rw [dropFlat_cons_of_lt cs hm]
        rcases Nat.lt_or_ge (m + n) c.length with h | h
        · rw [dropFlat_cons_of_lt cs h, dropFlat_cons_of_lt cs (by simp; omega), List.drop_drop]
        · rw [dropFlat_cons_of_le cs h, dropFlat_cons_of_le cs (by simp; omega)]
          congr 1
          simp
          omega
      · rw [dropFlat_cons_of_le cs hm, dropFlat_cons_of_le cs (by omega), ← ih]
        congr 1
        omega

theorem length_dropFlat_le (n : ℕ) (cs : List (List α)) :
    (dropFlat n cs).length ≤ cs.length := by
  induction cs generalizing n with
  | nil => simp
  | cons c cs ih =>
      rcases Nat.lt_or_ge n c.length with h | h
      · simp [dropFlat_cons_of_lt cs h]
      · rw [dropFlat_cons_of_le cs h, List.length_cons]
        exact Nat.le_succ_of_le (ih _)

/-- No empty piece is left behind. -/
theorem dropFlat_ne_nil {n : ℕ} {cs : List (List α)} (h : ∀ c ∈ cs, c ≠ []) :
    ∀ c ∈ dropFlat n cs, c ≠ [] := by
  induction cs generalizing n with
  | nil => simp
  | cons c cs ih =>
      have hcs : ∀ d ∈ cs, d ≠ [] := fun d hd => h d (List.mem_cons_of_mem c hd)
      rcases Nat.lt_or_ge n c.length with hn | hn
      · rw [dropFlat_cons_of_lt cs hn]
        intro d hd
        rcases List.mem_cons.mp hd with rfl | hd
        · rwa [ne_eq, List.drop_eq_nil_iff, Nat.not_le]
        · exact hcs d hd
      · rw [dropFlat_cons_of_le cs hn]
        exact ih hcs

/-! ## Reading that leaves empty pieces behind -/

def skipFlat : ℕ → List (List α) → List (List α)
  | 0, cs => cs
  | _ + 1, [] => []
  | n + 1, c :: cs =>
      if n + 1 < c.length then c.drop (n + 1) :: cs else skipFlat (n + 1 - c.length) cs

@[simp] theorem skipFlat_zero (cs : List (List α)) : skipFlat 0 cs = cs := by
  rw [skipFlat]

@[simp] theorem skipFlat_nil (n : ℕ) : skipFlat n ([] : List (List α)) = [] := by
  cases n <;> rw [skipFlat]

theorem skipFlat_cons_of_lt {n : ℕ} {c : List α} (cs : List (List α)) (h : n < c.length) :
    skipFlat n (c :: cs) = c.drop n :: cs := by
  cases n with
  | zero => rw [skipFlat_zero, List.drop_zero]
  | succ n => rw [skipFlat, if_pos h]

/-- An element to read is what makes an empty piece go. -/
theorem skipFlat_cons_of_le {n : ℕ} {c : List α} (cs : List (List α)) (hn : 0 < n)
    (h : c.length ≤ n) : skipFlat n (c :: cs) = skipFlat (n - c.length) cs := by
  cases n with
  | zero => exact absurd hn (Nat.lt_irrefl 0)
  | succ n => rw [skipFlat, if_neg (Nat.not_lt.mpr h)]

theorem flatten_skipFlat (n : ℕ) (cs : List (List α)) :
    (skipFlat n cs).flatten = cs.flatten.drop n := by
  induction cs generalizing n with
  | nil => simp
  | cons c cs ih =>
      rcases Nat.eq_zero_or_pos n with rfl | hn
      · simp
      rcases Nat.lt_or_ge n c.length with h | h
      · rw [skipFlat_cons_of_lt cs h, List.flatten_cons, List.flatten_cons,
          List.drop_append_of_le_length (Nat.le_of_lt h)]
      · rw [skipFlat_cons_of_le cs hn h, ih, List.flatten_cons, List.drop_append,
          List.drop_eq_nil_of_le h, List.nil_append]

theorem skipFlat_add (m n : ℕ) (cs : List (List α)) :
    skipFlat (m + n) cs = skipFlat n (skipFlat m cs) := by
  induction cs generalizing m with
  | nil => simp
  | cons c cs ih =>
      rcases Nat.eq_zero_or_pos m with rfl | hm
      · rw [Nat.zero_add, skipFlat_zero]
      rcases Nat.eq_zero_or_pos n with rfl | hn
      · rw [Nat.add_zero, skipFlat_zero]
      rcases Nat.lt_or_ge m c.length with hc | hc
      · rw [skipFlat_cons_of_lt cs hc]
        rcases Nat.lt_or_ge (m + n) c.length with h | h
        · rw [skipFlat_cons_of_lt cs h, skipFlat_cons_of_lt cs (by simp; omega), List.drop_drop]
        · rw [skipFlat_cons_of_le cs (by omega) h, skipFlat_cons_of_le cs hn (by simp; omega)]
          congr 1
          simp
          omega
      · rw [skipFlat_cons_of_le cs hm hc, skipFlat_cons_of_le cs (by omega) (by omega), ← ih]
        congr 1
        omega

/-- What is added at the end is not reached by a reading that fits in front of it. -/
theorem skipFlat_append {n : ℕ} {cs : List (List α)} (h : n ≤ cs.flatten.length)
    (ds : List (List α)) : skipFlat n (cs ++ ds) = skipFlat n cs ++ ds := by
  induction cs generalizing n with
  | nil =>
      obtain rfl : n = 0 := by simpa using h
      simp
  | cons c cs ih =>
      rcases Nat.eq_zero_or_pos n with rfl | hn
      · simp
      rw [List.cons_append]
      rcases Nat.lt_or_ge n c.length with hc | hc
      · rw [skipFlat_cons_of_lt _ hc, skipFlat_cons_of_lt _ hc, List.cons_append]
      · have hle : n - c.length ≤ cs.flatten.length := by
          rw [List.flatten_cons, List.length_append] at h
          omega
        rw [skipFlat_cons_of_le _ hn hc, skipFlat_cons_of_le _ hn hc, ih hle]

/-- What is left are pieces at the end, after at most one that was cut and has elements left. -/
theorem skipFlat_cases (n : ℕ) (cs : List (List α)) :
    skipFlat n cs <:+ cs ∨ ∃ c c' t, c :: t <:+ cs ∧ c' ≠ [] ∧ skipFlat n cs = c' :: t := by
  induction cs generalizing n with
  | nil => simp
  | cons c cs ih =>
      rcases Nat.eq_zero_or_pos n with rfl | hn
      · exact Or.inl (by simp)
      rcases Nat.lt_or_ge n c.length with hc | hc
      · refine Or.inr ⟨c, c.drop n, cs, List.suffix_refl _, ?_, skipFlat_cons_of_lt cs hc⟩
        rwa [ne_eq, List.drop_eq_nil_iff, Nat.not_le]
      · rw [skipFlat_cons_of_le cs hn hc]
        rcases ih (n - c.length) with h | ⟨d, d', t, h, hd, heq⟩
        · exact Or.inl (h.trans (List.suffix_cons c cs))
        · exact Or.inr ⟨d, d', t, h.trans (List.suffix_cons c cs), hd, heq⟩

/-! ## Streams without long gaps -/

/-- From every piece on, if there are elements at all then there are some within `m` pieces. -/
def Dense (m : ℕ) (cs : List (List α)) : Prop :=
  ∀ t, t <:+ cs → t.flatten ≠ [] → (t.take m).flatten ≠ []

theorem dense_nil (m : ℕ) : Dense m ([] : List (List α)) := by
  intro t ht hne
  obtain rfl : t = [] := List.suffix_nil.mp ht
  exact absurd rfl hne

/-- Reading keeps a stream dense: a piece that is cut has elements left. -/
theorem Dense.skipFlat {m : ℕ} {cs : List (List α)} (h : Dense m cs) (hm : 1 ≤ m) (n : ℕ) :
    Dense m (skipFlat n cs) := by
  rcases skipFlat_cases n cs with hsuf | ⟨c, c', t, hsuf, hc', heq⟩
  · exact fun u hu => h u (hu.trans hsuf)
  · rw [heq]
    intro u hu hne
    rcases List.suffix_cons_iff.mp hu with rfl | hu
    · obtain ⟨m, rfl⟩ := Nat.exists_eq_add_of_le' hm
      simp [hc']
    · exact h u ((hu.trans (List.suffix_cons c t)).trans hsuf) hne

/-- How many empty pieces stand at the end. -/
def trailingEmpty (cs : List (List α)) : ℕ := (cs.reverse.takeWhile List.isEmpty).length

theorem length_le_trailingEmpty {t cs : List (List α)} (ht : t <:+ cs) (hempty : t.flatten = []) :
    t.length ≤ trailingEmpty cs := by
  obtain ⟨u, rfl⟩ := ht
  have hall : ∀ c ∈ t.reverse, List.isEmpty c = true := by
    intro c hc
    rw [List.isEmpty_iff]
    exact List.flatten_eq_nil_iff.mp hempty c (List.mem_reverse.mp hc)
  rw [trailingEmpty, List.reverse_append, List.takeWhile_append_of_pos hall, List.length_append,
    List.length_reverse]
  omega

theorem Dense.concat {m : ℕ} {cs : List (List α)} (h : Dense m cs) {d : List α}
    (hd : d = [] ∨ trailingEmpty cs < m) : Dense m (cs ++ [d]) := by
  intro t ht hne
  rcases List.suffix_concat_iff.mp ht with rfl | ⟨t, rfl, hsuf⟩
  · exact absurd rfl hne
  by_cases hempty : t.flatten = []
  · -- the elements are in the new piece, and the gap in front of it is short
    have hshort : t.length < m := by
      rcases hd with rfl | hd
      · simp [hempty] at hne
      · exact Nat.lt_of_le_of_lt (length_le_trailingEmpty hsuf hempty) hd
    rwa [List.take_of_length_le (by simp; omega)]
  · have := h t hsuf hempty
    rw [List.take_append, List.flatten_append]
    exact List.append_ne_nil_of_left_ne_nil this _

end Chunked
