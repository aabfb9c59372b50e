import Mathlib.Tactic.Common

/-!
# Runs of a labelled transition function

A system is a partial function `step : σ → α → Option σ`: `step s a` is the state after `a`,
and `none` says that `a` cannot happen in `s`.  Nondeterminism is in the choice of the label.

* `Reach step ok s₀ s` — `s` is reached from `s₀` by steps that all meet the guard `ok`.
  Unguarded runs are `Reach step anyStep`.
* `Reach.invariant` — the induction every safety theorem goes through.
* `exists_reach_of_rank` — that something can still be reached.
* `exec_le_rank` — that a run comes to an end.
* `exec` — the same runs along a given list of labels, computable, with
  `reach_of_exec`, `reach_of_exec_any` and `exists_reach` to turn an evaluated run into a reached
  state.
-/

namespace Transition

variable {σ α : Type*}

/-- The guard that lets every step pass. -/
def anyStep (_ : σ) (_ : α) : Prop := True

/-- States reached from `s₀` by steps that all meet `ok`. -/
inductive Reach (step : σ → α → Option σ) (ok : σ → α → Prop) (s₀ : σ) : σ → Prop
  | start : Reach step ok s₀ s₀
  | next {s s' : σ} {a : α} (run : Reach step ok s₀ s) (guard : ok s a)
      (move : step s a = some s') : Reach step ok s₀ s'

variable {step : σ → α → Option σ} {ok : σ → α → Prop} {s₀ s : σ}

/-- **Induction over a run.**  What holds at the start and survives every guarded step holds in
every state reached. -/
theorem Reach.invariant {P : σ → Prop} (h : Reach step ok s₀ s) (start : P s₀)
    (keep : ∀ s a s', P s → ok s a → step s a = some s' → P s') : P s := by
  induction h with
  | start => exact start
  | next _ guard move ih => exact keep _ _ _ ih guard move

theorem Reach.trans {s' : σ} (h : Reach step ok s₀ s) (h' : Reach step ok s s') :
    Reach step ok s₀ s' := by
  induction h' with
  | start => exact h
  | next _ guard move ih => exact .next ih guard move

/-- **Progress by a rank.**  If from every state of `P` a guarded step leads to `Q`, or to a state
of `P` of lower rank, then `Q` can be reached. -/
theorem exists_reach_of_rank {P Q : σ → Prop} (rank : σ → ℕ)
    (next : ∀ s, P s → ∃ a s', ok s a ∧ step s a = some s' ∧ (Q s' ∨ P s' ∧ rank s' < rank s))
    (hs : P s) : ∃ s', Reach step ok s s' ∧ Q s' := by
  induction h : rank s using Nat.strongRecOn generalizing s with
  | _ n ih =>
      obtain ⟨a, t, guard, move, hq | ⟨hp, hlt⟩⟩ := next s hs
      · exact ⟨t, .next .start guard move, hq⟩
      · obtain ⟨s', run, hq⟩ := ih (rank t) (h ▸ hlt) hp rfl
        exact ⟨s', Reach.trans (.next .start guard move) run, hq⟩

/-- Follow a list of labels from `s`. -/
def exec (step : σ → α → Option σ) : σ → List α → Option σ
  | s, [] => some s
  | s, a :: as => (step s a).bind fun s' => exec step s' as

theorem exec_append {as bs : List α} :
    exec step s (as ++ bs) = (exec step s as).bind fun t => exec step t bs := by
  induction as generalizing s with
  | nil => rfl
  | cons a as ih => simp only [List.cons_append, exec, ih, Option.bind_assoc]

/-- The system in which only the steps that meet the guard can happen. -/
def guarded (step : σ → α → Option σ) (ok : σ → α → Prop) [∀ s a, Decidable (ok s a)]
    (s : σ) (a : α) : Option σ :=
  if ok s a then step s a else none

theorem Reach.exec [∀ s a, Decidable (ok s a)] {as : List α} {s' : σ} (h : Reach step ok s₀ s)
    (he : exec (guarded step ok) s as = some s') : Reach step ok s₀ s' := by
  induction as generalizing s with
  | nil =>
      simp only [Transition.exec, Option.some.injEq] at he
      exact he ▸ h
  | cons a as ih =>
      simp only [Transition.exec, guarded, Option.bind_eq_some_iff,
        Option.ite_none_right_eq_some] at he
      obtain ⟨t, ⟨guard, move⟩, he⟩ := he
      exact ih (.next h guard move) he

/-- **Bounded runs.**  If every guarded step from a state of `P` leads to a state of `P` of lower
rank, then no guarded run from there is longer than the rank. -/
theorem exec_le_rank [∀ s a, Decidable (ok s a)] {P : σ → Prop} (rank : σ → ℕ)
    (keep : ∀ s a s', P s → ok s a → step s a = some s' → P s' ∧ rank s' < rank s) {as : List α}
    {s' : σ} (hs : P s) (he : exec (guarded step ok) s as = some s') :
    P s' ∧ as.length + rank s' ≤ rank s := by
  induction as generalizing s with
  | nil =>
      simp only [Transition.exec, Option.some.injEq] at he
      subst he
      exact ⟨hs, by simp⟩
  | cons a as ih =>
      simp only [Transition.exec, guarded, Option.bind_eq_some_iff,
        Option.ite_none_right_eq_some] at he
      obtain ⟨t, ⟨guard, move⟩, he⟩ := he
      obtain ⟨ht, hlt⟩ := keep s a t hs guard move
      obtain ⟨hs', hle⟩ := ih ht he
      refine ⟨hs', ?_⟩
      rw [List.length_cons]
      omega

/-- An evaluated run reaches its last state. -/
theorem reach_of_exec [∀ s a, Decidable (ok s a)] {as : List α}
    (he : exec (guarded step ok) s₀ as = some s) : Reach step ok s₀ s :=
  Reach.exec .start he

instance (s : σ) (a : α) : Decidable (anyStep s a) := inferInstanceAs (Decidable True)

/-- An evaluated run without a guard. -/
theorem reach_of_exec_any {as : List α} (he : exec step s₀ as = some s) :
    Reach step anyStep s₀ s := by
  have hall : guarded step anyStep = step := by
    funext s a
    simp [guarded, anyStep]
  exact reach_of_exec (hall ▸ he)

/-- A run whose last state passes a test reaches a state that does. -/
theorem exists_reach (step : σ → α → Option σ) (ok : σ → α → Prop) [∀ s a, Decidable (ok s a)]
    (s₀ : σ) (as : List α) (p : σ → Bool)
    (h : (exec (guarded step ok) s₀ as).any p = true) : ∃ s, Reach step ok s₀ s ∧ p s = true := by
  cases he : exec (guarded step ok) s₀ as with
  | none => simp [he] at h
  | some s => exact ⟨s, reach_of_exec he, by simpa [he] using h⟩

end Transition
