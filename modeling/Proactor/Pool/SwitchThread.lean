import Proactor.Pool.ThreadPool

/-!
# The bound on the queue

`co_await pool.switchThread()` looks at the queue in `await_ready` and, when it is not full, puts
the coroutine into it in `await_suspend`.  Between the two the caller holds nothing: other callers
find the same free place, and each of them takes it.  So the queue can grow past `max_size_`
(`queue_overruns`).

A caller past its check has been promised a place, and only a check that passes makes a new
promise (`Move.promised_le`).  The bound holds as long as no more places are promised than there
are (`queue_bounded`); otherwise the queue is too long by fewer than there were callers between
their check and their push at one time (`overrun_lt_callers`).
-/

namespace Proactor

open Transition

namespace ThreadPool

/-- The places of the queue that are taken or promised. -/
def promised (s : ThreadPool) : ℕ := s.tasks.length + s.suspending

/-- The guard: a check passes only when a place is left that is not promised. -/
def Reserves (s : ThreadPool) (a : Act) : Prop :=
  a = .awaitReady → s.isFull = false → s.promised < s.maxSize

/-- The guard: a caller looks at the queue only while fewer than `n` are about to push. -/
def Callers (n : ℕ) (s : ThreadPool) (a : Act) : Prop := a = .awaitReady → s.suspending < n

instance (s : ThreadPool) (a : Act) : Decidable (Reserves s a) :=
  inferInstanceAs (Decidable (a = .awaitReady → s.isFull = false → s.promised < s.maxSize))

instance (n : ℕ) (s : ThreadPool) (a : Act) : Decidable (Callers n s a) :=
  inferInstanceAs (Decidable (a = .awaitReady → s.suspending < n))

section

variable {s s' : ThreadPool} {a : Act}

/-- `max_size_` is constant. -/
theorem Move.maxSize (h : Move s a s') : s'.maxSize = s.maxSize := by
  cases h <;> rfl

/-- Only a check that passes promises a place. -/
theorem Move.promised_le (h : Move s a s') :
    s'.promised ≤ s.promised ∨
      a = .awaitReady ∧ s.isFull = false ∧ s'.promised = s.promised + 1 := by
  cases h with
  | take place head =>
      refine .inl ?_
      simp only [promised, head, List.length_cons]
      show _ + s.suspending ≤ _
      omega
  | ready room => exact .inr ⟨rfl, room, rfl⟩
  | enqueue caller free =>
      refine .inl ?_
      simp only [promised, push, List.length_append, List.length_singleton]
      omega
  | _ => exact .inl (Nat.le_refl _)

/-- What is promised stays within `extra` places of the size of the queue, if every check that
passes leaves it there. -/
theorem promised_le_of_reach {ok : ThreadPool → Act → Prop} {threadNum queueSize : ℕ} (extra : ℕ)
    (run : Reach step ok (create threadNum queueSize) s)
    (room : ∀ s, ok s .awaitReady → s.isFull = false → s.promised < s.maxSize + extra) :
    s.promised ≤ s.maxSize + extra := by
  refine run.invariant (P := fun s => s.promised ≤ s.maxSize + extra) (Nat.zero_le _) ?_
  intro s a s' hs hok hstep
  have hmove := step_move hstep
  rw [hmove.maxSize]
  rcases hmove.promised_le with hle | ⟨rfl, hroom, hone⟩
  · exact Nat.le_trans hle hs
  · rw [hone]
    exact room s hok hroom

/-- **In a run whose checks promise no more places than there are, the queue is never too long.** -/
theorem queue_bounded (threadNum queueSize : ℕ)
    (run : Reach step Reserves (create threadNum queueSize) s) : s.tasks.length ≤ s.maxSize := by
  have hpromised : s.promised ≤ s.maxSize + 0 :=
    promised_le_of_reach 0 run fun _ hok hroom => hok rfl hroom
  exact Nat.le_trans (Nat.le_add_right _ _) hpromised

/-- Two callers with a worker between them, in a queue for two. -/
theorem queue_bounded_two : ∃ s, Reach step Reserves (create 1 2) s ∧ s.tasks.length = 2 ∧
    s.tasks.length ≤ s.maxSize := by
  obtain ⟨s, run, hs⟩ := exists_reach step Reserves (create 1 2)
    [.awaitReady, .awaitReady, .enqueue, .worker 0, .worker 0, .worker 0, .enqueue, .awaitReady,
      .enqueue] (fun s => decide (s.tasks.length = 2)) (by decide)
  exact ⟨s, run, of_decide_eq_true hs, queue_bounded 1 2 run⟩

/-- **Two callers that find the last place both take it.** -/
theorem queue_overruns : ¬ ∀ (threadNum queueSize : ℕ), 1 ≤ queueSize → ∀ s,
    Reach step anyStep (create threadNum queueSize) s → s.tasks.length ≤ s.maxSize := by
  intro h
  obtain ⟨s, run, hs⟩ := exists_reach step anyStep (create 1 1)
    [.awaitReady, .awaitReady, .enqueue, .enqueue]
    (fun s => decide (¬ s.tasks.length ≤ s.maxSize)) (by decide)
  exact of_decide_eq_true hs (h 1 1 (Nat.le_refl 1) s run)

/-- **With at most `n` callers at one time the queue is too long by less than `n`.** -/
theorem overrun_lt_callers (n threadNum queueSize : ℕ)
    (run : Reach step (Callers n) (create threadNum queueSize) s) :
    s.tasks.length ≤ s.maxSize + (n - 1) := by
  have hpromised : s.promised ≤ s.maxSize + (n - 1) := by
    refine promised_le_of_reach (n - 1) run ?_
    intro s hok hroom
    have hcallers : s.suspending < n := hok rfl
    have hfree : s.tasks.length < s.maxSize := by simpa [isFull] using hroom
    simp only [promised]
    omega
  exact Nat.le_trans (Nat.le_add_right _ _) hpromised

/-- Three callers find the only place, and the queue is too long by two. -/
theorem overrun_lt_callers_three : ∃ s, Reach step (Callers 3) (create 1 1) s ∧ s.maxSize = 1 ∧
    s.tasks.length = 3 ∧ s.tasks.length ≤ s.maxSize + (3 - 1) := by
  obtain ⟨s, run, hs⟩ := exists_reach step (Callers 3) (create 1 1)
    [.awaitReady, .awaitReady, .awaitReady, .enqueue, .enqueue, .enqueue]
    (fun s => decide (s.maxSize = 1 ∧ s.tasks.length = 3)) (by decide)
  obtain ⟨hsize, hlength⟩ := of_decide_eq_true hs
  exact ⟨s, run, hsize, hlength, overrun_lt_callers 3 1 1 run⟩

end

end ThreadPool

end Proactor
