import Mathlib.Tactic.Common

/-!
# While loops with a bound on their turns

`whileLoop c f n s` runs the body `f` while the test `c` holds, at most `n` times.  A source
loop is modelled by giving it enough turns; that they are enough is what `whileLoop_total`
proves, from a variant that every turn decreases.  `whileLoop_map` relates a loop to the one that
computes a part of its state, and `whileLoop_counted` a loop that counts up to `len` and has come
to `i` to the one that starts at `0` and counts up to `len - i`.
-/

namespace Loop

variable {σ : Type*}

/-- At most `n` turns of `while c do f`. -/
def whileLoop (c : σ → Bool) (f : σ → σ) : ℕ → σ → σ
  | 0, s => s
  | n + 1, s => if c s then whileLoop c f n (f s) else s

/-- **Total correctness of a bounded loop.**  With an invariant that the body keeps and a variant
that it decreases, a bound no smaller than the variant is never used up: the loop ends because
its test is false, and the invariant holds there. -/
theorem whileLoop_total {c : σ → Bool} {f : σ → σ} {P : σ → Prop} (μ : σ → ℕ)
    (keep : ∀ s, P s → c s = true → P (f s) ∧ μ (f s) < μ s) :
    ∀ n s, P s → μ s ≤ n → P (whileLoop c f n s) ∧ c (whileLoop c f n s) = false := by
  intro n
  induction n with
  | zero =>
      intro s hP hμ
      refine ⟨hP, ?_⟩
      cases hc : c s with
      | false => simp [whileLoop, hc]
      | true =>
          have := (keep s hP hc).2
          omega
  | succ n ih =>
      intro s hP hμ
      cases hc : c s with
      | false => simpa [whileLoop, hc] using hP
      | true =>
          obtain ⟨hP', hlt⟩ := keep s hP hc
          simpa [whileLoop, hc] using ih (f s) hP' (by omega)

/-- A loop whose test is false does nothing. -/
theorem whileLoop_of_false {c : σ → Bool} {f : σ → σ} {s : σ} (h : c s = false) :
    ∀ n, whileLoop c f n s = s := by
  intro n
  cases n with
  | zero => rfl
  | succ n => simp [whileLoop, h]

/-- A loop whose test and body only concern `π s` runs like the loop on that part. -/
theorem whileLoop_map {τ : Type*} (π : τ → σ) {c : σ → Bool} {f : σ → σ} {c' : τ → Bool}
    {f' : τ → τ} (htest : ∀ t, c' t = c (π t)) (hbody : ∀ t, π (f' t) = f (π t)) :
    ∀ n t, π (whileLoop c' f' n t) = whileLoop c f n (π t) := by
  intro n
  induction n with
  | zero => exact fun _ => rfl
  | succ n ih =>
      intro t
      simp only [whileLoop, htest]
      split
      · rw [ih, hbody]
      · rfl

/-- A loop that counts up to `len`, from `i` on, is the loop that counts up to `len - i`. -/
theorem whileLoop_counted (more : σ → Bool) (turn : ℕ → σ × ℕ → σ × ℕ) {len i : ℕ}
    (hturn : ∀ s j, ((turn (len - i) (s, j)).1, i + (turn (len - i) (s, j)).2)
      = turn len (s, i + j)) (n : ℕ) (s : σ) :
    let rest := whileLoop (fun st => decide (st.2 < len - i) && more st.1) (turn (len - i)) n (s, 0)
    whileLoop (fun st => decide (st.2 < len) && more st.1) (turn len) n (s, i)
      = (rest.1, i + rest.2) := by
  have htest : ∀ st : σ × ℕ, (decide (st.2 < len - i) && more st.1)
      = (decide (i + st.2 < len) && more st.1) := by
    intro st
    have hlt : st.2 < len - i ↔ i + st.2 < len := by omega
    simp only [hlt]
  exact (whileLoop_map (fun st : σ × ℕ => (st.1, i + st.2)) htest
    (fun st => hturn st.1 st.2) n (s, 0)).symm

end Loop
