import Proactor.IoUring.EventLoop

/-!
# Requests to quit

`loop()` tests `quit_`, arms the eventfd read, and only then clears `quit_`.  A request that is
stored in between is overwritten.

* `EventLoop.NotWhileStarting` — the runs in which no request comes there.
* `EventLoop.Heeds` — what holds of the flag in these.
-/

namespace Proactor

open Transition

namespace EventLoop

variable {F : Type*}

/-- The guard: no `quit()` stores its request while `loop()` is starting. -/
def NotWhileStarting (s : EventLoop F) (a : Act F) : Prop :=
  a = .quitStore → s.pc.starting = false

/-- **A request stays**, and no turn has been started since. -/
structure Heeds (s : EventLoop F) : Prop where
  kept : s.requested = true → s.quit = true
  source : s.quit = true → s.requested = true
  started : s.requested = true → s.pc.starting = false
  late : s.late = 0

section

variable {s s' : EventLoop F} {full : Bool} {a : Act F}

theorem create_heeds (cqesSize : ℕ) : (create cqesSize : EventLoop F).Heeds :=
  ⟨id, id, fun h => (by cases h), rfl⟩

/-- Steps that leave `quit_` alone and do not enter the loop. -/
theorem Heeds.keep {t : EventLoop F} (hs : s.Heeds)
    (hpc : s.pc.starting = false → t.pc.starting = false := by exact fun h => h)
    (hquit : t.quit = s.quit := by rfl) (hrequested : t.requested = s.requested := by rfl)
    (hlate : t.late = s.late := by rfl) : t.Heeds := by
  refine ⟨?_, ?_, ?_, hlate.trans hs.late⟩
  · rw [hrequested, hquit]
    exact hs.kept
  · rw [hrequested, hquit]
    exact hs.source
  · rw [hrequested]
    exact fun h => hpc (hs.started h)

theorem onCompletion_heeds (hs : s.Heeds) (full : Bool) : (s.onCompletion full).Heeds := by
  cases full with
  | false => exact hs.keep
  | true => exact hs.keep

/-- No request has been made while the loop is starting. -/
theorem Heeds.unrequested (hs : s.Heeds) (h : s.pc.starting = true) : s.requested = false := by
  cases hr : s.requested with
  | false => rfl
  | true => exact absurd (hs.started hr) (by simp [h])

theorem Turn.heeds (h : Turn full s s') (hs : s.Heeds) : s'.Heeds := by
  cases h with
  | enter pc quit =>
      have hr : s.requested = false := by
        cases hr : s.requested with
        | false => rfl
        | true => exact absurd (hs.kept hr) (by simp [quit])
      exact ⟨hs.kept, hs.source, fun h => absurd h (by simp [hr]), hs.late⟩
  | setQuit pc =>
      have hr := hs.unrequested (by rw [pc]; rfl)
      exact ⟨fun h => absurd h (by simp [hr]), fun h => (by cases h), fun _ => rfl, hs.late⟩
  | start pc quit =>
      have hr : s.requested = false := by
        cases hr : s.requested with
        | false => rfl
        | true => exact absurd (hs.kept hr) (by simp [quit])
      exact hs.keep (fun _ => rfl) rfl rfl (by simp [hr])
  | arm pc =>
      have hr := hs.unrequested (by rw [pc]; rfl)
      refine (onCompletion_heeds hs full).keep ?_
      intro h
      rw [onCompletion_pc, pc] at h
      cases h
  | rearm pc head => exact onCompletion_heeds (hs.keep fun _ => rfl) full
  | refuse pc => exact hs.keep fun _ => rfl
  | setLooping pc => exact hs.keep (by simp [pc, LoopPc.starting])
  | stop pc => exact hs.keep fun _ => rfl
  | submit pc => exact hs.keep fun _ => rfl
  | peekNone pc => exact hs.keep fun _ => rfl
  | peekSome pc => exact hs.keep fun _ => rfl
  | wait pc => exact hs.keep fun _ => rfl
  | peekAgain pc => exact hs.keep fun _ => rfl
  | timers pc => exact hs.keep fun _ => rfl
  | handled pc => exact hs.keep fun _ => rfl
  | handle pc => exact hs.keep fun _ => rfl
  | handler pc => exact hs.keep fun _ => rfl
  | submitWaiting pc => exact hs.keep fun _ => rfl
  | setCalling pc => exact hs.keep fun _ => rfl
  | swap pc => exact hs.keep fun _ => rfl
  | batchDone pc => exact hs.keep fun _ => rfl
  | call pc => exact hs.keep fun _ => rfl
  | returned pc => exact hs.keep fun _ => rfl
  | unsetCalling pc => exact hs.keep fun _ => rfl
  | leave pc => exact hs.keep fun _ => rfl

theorem Move.heeds (h : Move s a s') (guard : NotWhileStarting s a) (hs : s.Heeds) :
    s'.Heeds := by
  cases h with
  | turn free turn => exact turn.heeds hs
  | selfQuit callback free =>
      refine ⟨fun _ => rfl, fun _ => rfl, fun _ => ?_, hs.late⟩
      show s.pc.starting = false
      cases hp : s.pc <;> simp_all [LoopPc.callback, LoopPc.starting]
  | quitStore => exact ⟨fun _ => rfl, fun _ => rfl, fun _ => guard rfl, hs.late⟩
  | selfPush => exact hs.keep
  | selfWake => exact hs.keep
  | selfSubmit => exact hs.keep
  | push => exact hs.keep
  | wake => exact hs.keep
  | quitWake => exact hs.keep
  | readDone => exact hs.keep
  | readFailed => exact hs.keep
  | otherDone => exact hs.keep

/-- A step that resets `quit_` is the assignment in front of the loop. -/
theorem Move.quit_kept (h : Move s a s') (hpc : s.pc ≠ .setQuit) (hquit : s.quit = true) :
    s'.quit = true := by
  cases h with
  | turn free turn =>
      cases turn with
      | setQuit pc => exact absurd pc hpc
      | arm => rw [onCompletion_quit]; exact hquit
      | rearm => rw [onCompletion_quit]; exact hquit
      | _ => exact hquit
  | selfQuit => rfl
  | quitStore => rfl
  | _ => exact hquit

/-- **No request is lost when none is stored while `loop()` is starting**: in such a run `quit_`
stays set once some thread has set it, and no turn of the loop starts after that. -/
theorem quit_heeded {cqesSize : ℕ} (run : Reach step NotWhileStarting (create cqesSize) s) :
    (s.requested = true → s.quit = true) ∧ s.late = 0 ∧
      ∀ a s', s.step a = some s' → s.quit = true → s'.quit = true := by
  have hs : s.Heeds := run.invariant (P := Heeds) (create_heeds _)
    fun _ _ _ hs guard h => (step_move h).heeds guard hs
  refine ⟨hs.kept, hs.late, fun a s' h hquit => (step_move h).quit_kept ?_ hquit⟩
  intro hpc
  have hstarted := hs.started (hs.source hquit)
  rw [hpc] at hstarted
  cases hstarted

instance [DecidableEq F] (s : EventLoop F) (a : Act F) : Decidable (NotWhileStarting s a) :=
  inferInstanceAs (Decidable (a = .quitStore → s.pc.starting = false))

theorem quit_heeded_running : ∃ s : EventLoop ℕ,
    Reach step NotWhileStarting (create 8) s ∧ s.requested = true ∧ s.pc = .leave ∧
      s.late = 0 := by
  obtain ⟨s, run, hs⟩ := exists_reach step NotWhileStarting (create 8 : EventLoop ℕ)
    [.advance false, .advance false, .advance false, .advance false, .quitStore, .quitWake,
      .advance false]
    (fun s => s.requested = true ∧ s.pc = .leave) (by decide +kernel)
  simp only [decide_eq_true_eq] at hs
  exact ⟨s, run, hs.1, hs.2, (quit_heeded run).2.1⟩

/-- A request that comes right after `loop()` has tested the flag is overwritten, and the loop
starts its first turn. -/
theorem quit_lost_while_starting :
    ¬∀ s : EventLoop ℕ, Reach step anyStep (create 8) s →
      (s.requested = true → s.quit = true) ∧ s.late = 0 := by
  intro hall
  obtain ⟨s, run, hs⟩ := exists_reach step anyStep (create 8 : EventLoop ℕ)
    [.advance false, .quitStore, .quitWake, .advance false, .advance false, .advance false,
      .advance false]
    (fun s => s.requested = true ∧ s.quit = false ∧ s.late = 1) (by decide +kernel)
  simp only [decide_eq_true_eq] at hs
  obtain ⟨hrequested, hquit, -⟩ := hs
  exact absurd ((hall s run).1 hrequested) (by simp [hquit])

end

end EventLoop

end Proactor
