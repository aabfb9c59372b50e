import Proactor.Pool.ThreadPool

/-!
# Shutting the pool down

`~ThreadPool` clears `started_` without holding `mtx_`, notifies everybody once and then joins.  A
worker that has found the pool started and its queue empty is not yet asleep when it still has to
give up the mutex; a notification that comes there does not reach it.

* `ThreadPool.NobodyFallsAsleep` — the runs in which `notify_all` does not come there.
* `ThreadPool.Shut` — what the destructor can rely on in these.
-/

namespace Proactor

open Transition

namespace ThreadPool

/-- The guard: `notify_all` is not called while a worker is between a predicate that was false and
its sleep. -/
def NobodyFallsAsleep (s : ThreadPool) (a : Act) : Prop :=
  a = .destroy → s.dtor = .stopped → .willSleep ∉ s.workers

instance (s : ThreadPool) (a : Act) : Decidable (NobodyFallsAsleep s a) :=
  inferInstanceAs (Decidable (a = .destroy → s.dtor = .stopped → .willSleep ∉ s.workers))

/-- **Past `notify_all` nobody sleeps**, and nobody is about to. -/
structure Shut (s : ThreadPool) : Prop where
  stopped : s.dtor ≠ .notBegun → s.started = false
  awake : s.dtor.pastNotify = true → ∀ w ∈ s.workers, w ≠ .sleeping ∧ w ≠ .willSleep

section

variable {s s' : ThreadPool} {a : Act}

theorem create_shut (threadNum queueSize : ℕ) : (create threadNum queueSize).Shut :=
  ⟨fun h => absurd rfl h, fun h => (by cases h)⟩

/-- Steps that neither start the pool nor put anybody to sleep. -/
theorem Shut.keep {t : ThreadPool} (hs : s.Shut) (hstarted : t.started = s.started := by rfl)
    (hdtor : t.dtor = s.dtor := by rfl)
    (hworkers : ∀ w ∈ t.workers, w ∈ s.workers ∨ w ≠ .sleeping ∧ w ≠ .willSleep) : t.Shut := by
  constructor
  · rw [hstarted, hdtor]
    exact hs.stopped
  · rw [hdtor]
    intro hpast w hw
    exact (hworkers w hw).elim (hs.awake hpast w) id

/-- A worker that goes on to a place where it is awake. -/
theorem awake_move {i : ℕ} {pc : WorkerPc}
    (hpc : pc ≠ .sleeping ∧ pc ≠ .willSleep := by simp) :
    ∀ w ∈ (s.move i pc).workers, w ∈ s.workers ∨ w ≠ .sleeping ∧ w ≠ .willSleep := by
  intro w hw
  rcases List.mem_or_eq_of_mem_set hw with h | rfl
  · exact .inl h
  · exact .inr hpc

theorem notify_awake (w : WorkerPc) : w.notify ≠ .sleeping := by
  cases w with
  | sleeping => simp [WorkerPc.notify]
  | _ => simp [WorkerPc.notify]

theorem Move.shut (h : Move s a s') (guard : NobodyFallsAsleep s a) (hs : s.Shut) : s'.Shut := by
  cases h with
  | lock => exact hs.keep rfl rfl awake_move
  | pass => exact hs.keep rfl rfl awake_move
  | wait place fails =>
      -- the predicate is only false in a pool that has not been stopped
      have hstarted : s.started = true := by
        cases hst : s.started with
        | true => rfl
        | false => simp [predicate, hst] at fails
      have hdtor : s.dtor = .notBegun := by
        by_contra hne
        exact absurd (hs.stopped hne) (by simp [hstarted])
      exact ⟨fun hne => absurd hdtor hne, fun hpast => absurd hpast (by simp [ThreadPool.move,
        hdtor, DtorPc.pastNotify])⟩
  | sleep place =>
      refine ⟨hs.stopped, fun hpast => ?_⟩
      exact absurd rfl (hs.awake hpast _ (List.mem_of_getElem? place)).2
  | leave => exact hs.keep rfl rfl awake_move
  | undefined => exact hs.keep rfl rfl awake_move
  | take => exact hs.keep rfl rfl awake_move
  | resume => exact hs.keep rfl rfl awake_move
  | finish => exact hs.keep rfl rfl awake_move
  | spurious => exact hs.keep rfl rfl awake_move
  | full => exact hs
  | ready => exact hs.keep rfl rfl fun _ h => .inl h
  | enqueue => exact hs.keep rfl rfl fun _ h => .inl h
  | notifyNobody => exact hs.keep rfl rfl fun _ h => .inl h
  | notifyOne => exact hs.keep rfl rfl awake_move
  | stop => exact ⟨fun _ => rfl, hs.awake⟩
  | begin => exact ⟨fun _ => rfl, fun h => (by cases h)⟩
  | notifyAll dtor =>
      refine ⟨fun _ => hs.stopped (by simp [dtor]), fun _ w hw => ⟨?_, ?_⟩⟩
      · obtain ⟨v, -, rfl⟩ := List.mem_map.mp hw
        exact notify_awake v
      · rintro rfl
        exact guard rfl dtor (mem_map_notify (by simp) hw)
  | join dtor =>
      exact ⟨fun _ => hs.stopped (by simp [dtor]), fun _ => hs.awake (by rw [dtor]; rfl)⟩
  | joined dtor =>
      exact ⟨fun _ => hs.stopped (by simp [dtor]), fun _ => hs.awake (by rw [dtor]; rfl)⟩

/-- **The destructor misses nobody when nobody is falling asleep**: in a run in which `notify_all`
never comes between a worker's predicate and its sleep, no worker is left asleep in a stopped pool
behind `notify_all`, with nothing to wake it. -/
theorem shutdown_misses_nobody {threadNum queueSize : ℕ}
    (run : Reach step NobodyFallsAsleep (create threadNum queueSize) s) :
    ¬(s.dtor.pastNotify = true ∧ s.started = false ∧ .sleeping ∈ s.workers ∧
      s.notifying = 0) := by
  rintro ⟨hpast, -, hsleeping, -⟩
  have hs : s.Shut := run.invariant (P := Shut) (create_shut _ _)
    fun _ _ _ hs guard h => (step_move h).shut guard hs
  exact (hs.awake hpast _ hsleeping).1 rfl

theorem shutdown_misses_nobody_asleep : ∃ s : ThreadPool,
    Reach step NobodyFallsAsleep (create 2 4) s ∧ s.dtor = .joining 1 ∧ .sleeping ∉ s.workers := by
  obtain ⟨s, run, hs⟩ := exists_reach step NobodyFallsAsleep (create 2 4)
    [.worker 0, .worker 0, .worker 0, .destroy, .destroy, .worker 0, .worker 0, .worker 0, .destroy]
    (fun s => s.dtor = .joining 1 ∧ s.started = false ∧ s.notifying = 0) (by decide +kernel)
  simp only [decide_eq_true_eq] at hs
  obtain ⟨hdtor, hstarted, hnotifying⟩ := hs
  refine ⟨s, run, hdtor, fun hsleeping => ?_⟩
  exact shutdown_misses_nobody run ⟨by rw [hdtor]; rfl, hstarted, hsleeping, hnotifying⟩

/-- The worker has found the pool started and empty; `stop` and `notify_all` come before it has
gone to sleep, and nothing wakes it any more. -/
theorem shutdown_misses_falling_asleep :
    ¬∀ s : ThreadPool, Reach step anyStep (create 1 1) s →
      ¬(s.dtor.pastNotify = true ∧ s.started = false ∧ .sleeping ∈ s.workers ∧
        s.notifying = 0) := by
  intro hall
  obtain ⟨s, run, hs⟩ := exists_reach step anyStep (create 1 1)
    [.worker 0, .worker 0, .destroy, .destroy, .worker 0]
    (fun s => s.dtor.pastNotify = true ∧ s.started = false ∧ .sleeping ∈ s.workers ∧
      s.notifying = 0) (by decide +kernel)
  simp only [decide_eq_true_eq] at hs
  exact hall s run hs

end

end ThreadPool

end Proactor
