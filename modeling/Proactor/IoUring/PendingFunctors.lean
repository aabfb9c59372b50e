import Proactor.IoUring.EventLoop

/-!
# The queue of functors and the eventfd

`queueInLoop` pushes under the mutex and then writes the eventfd, except on the loop's own thread
outside of `doingPendingFunctors`.  That is enough because such a caller is a timer callback or a
completion handler, and the queue is swapped out later in the same turn.

* `EventLoop.Ordered` — what was called, what is left of the batch and what is pending.
* `EventLoop.OneRead` — there is one read of the eventfd, and where it is.
* `EventLoop.Signalled` — a pending functor that the current turn will not reach has a signal.
-/

namespace Proactor

open Transition

namespace EventLoop

variable {F : Type*}

/-! ## The order of the functors -/

/-- **The queue in its three parts**: what has been called, what is left of the batch and what is
pending are together everything that was pushed, in that order. -/
structure Ordered (s : EventLoop F) : Prop where
  whole : s.executed ++ s.tasks ++ s.pending = s.enqueued
  noBatch : s.pc.inBatch = false → s.tasks = []
  bound : s.swapped ≤ s.enqueued.length
  /-- A batch ends where the queue ended when it was swapped out. -/
  batch : s.pc.inBatch = true → s.executed ++ s.tasks = s.enqueued.take s.swapped

section

variable {s s' : EventLoop F} {full : Bool} {a : Act F}

theorem create_ordered (cqesSize : ℕ) : (create cqesSize : EventLoop F).Ordered :=
  ⟨rfl, fun _ => rfl, Nat.le_refl 0, fun _ => rfl⟩

/-- Steps that touch neither the functors nor the batch. -/
theorem Ordered.keep {t : EventLoop F} (hs : s.Ordered)
    (hpc : t.pc.inBatch = s.pc.inBatch := by rfl) (hexecuted : t.executed = s.executed := by rfl)
    (htasks : t.tasks = s.tasks := by rfl) (hpending : t.pending = s.pending := by rfl)
    (henqueued : t.enqueued = s.enqueued := by rfl) (hswapped : t.swapped = s.swapped := by rfl) :
    t.Ordered := by
  constructor
  · rw [hexecuted, htasks, hpending, henqueued]
    exact hs.whole
  · rw [hpc, htasks]
    exact hs.noBatch
  · rw [hswapped, henqueued]
    exact hs.bound
  · rw [hpc, hexecuted, htasks, henqueued, hswapped]
    exact hs.batch

/-- A push goes behind everything else, the current batch included. -/
theorem Ordered.push (hs : s.Ordered) (f : F) : (s.pushPending f).Ordered := by
  constructor
  · show s.executed ++ s.tasks ++ (s.pending ++ [f]) = s.enqueued ++ [f]
    rw [← List.append_assoc, hs.whole]
  · exact hs.noBatch
  · show s.swapped ≤ (s.enqueued ++ [f]).length
    rw [List.length_append]
    exact Nat.le_add_right_of_le hs.bound
  · intro hpc
    show s.executed ++ s.tasks = (s.enqueued ++ [f]).take s.swapped
    rw [List.take_append_of_le_length hs.bound, hs.batch hpc]

theorem onCompletion_ordered (hs : s.Ordered) (full : Bool) : (s.onCompletion full).Ordered := by
  cases full with
  | false => exact hs.keep
  | true => exact hs.keep

theorem Turn.ordered (h : Turn full s s') (hs : s.Ordered) : s'.Ordered := by
  cases h with
  | swap pc =>
      have htasks := hs.noBatch (by rw [pc]; rfl)
      have hwhole := hs.whole
      rw [htasks, List.append_nil] at hwhole
      constructor
      · show s.executed ++ s.pending ++ [] = s.enqueued
        rw [List.append_nil, hwhole]
      · intro hpc
        cases hpc
      · exact Nat.le_refl _
      · intro _
        show s.executed ++ s.pending = s.enqueued.take s.enqueued.length
        rw [List.take_length, hwhole]
  | batchDone pc none =>
      refine ⟨hs.whole, fun _ => none, hs.bound, ?_⟩
      intro hpc
      cases hpc
  | @call f tasks pc head =>
      have hbatch := hs.batch (by rw [pc]; rfl)
      have hwhole := hs.whole
      rw [head] at hbatch hwhole
      constructor
      · show s.executed ++ [f] ++ tasks ++ s.pending = s.enqueued
        simpa using hwhole
      · intro hpc
        cases hpc
      · exact hs.bound
      · intro _
        show s.executed ++ [f] ++ tasks = s.enqueued.take s.swapped
        simpa using hbatch
  | arm pc => exact (onCompletion_ordered hs full).keep (by rw [onCompletion_pc, pc]; rfl)
  | rearm pc head => exact onCompletion_ordered (hs.keep (by rw [pc])) full
  | refuse pc => exact hs.keep (by rw [pc])
  | enter pc => exact hs.keep (by rw [pc]; rfl)
  | setLooping pc => exact hs.keep (by rw [pc]; rfl)
  | setQuit pc => exact hs.keep (by rw [pc]; rfl)
  | stop pc => exact hs.keep (by rw [pc]; rfl)
  | start pc => exact hs.keep (by rw [pc]; rfl)
  | submit pc => exact hs.keep (by rw [pc]; rfl)
  | peekNone pc => exact hs.keep (by rw [pc]; rfl)
  | peekSome pc => exact hs.keep (by rw [pc]; rfl)
  | wait pc => exact hs.keep (by rw [pc]; rfl)
  | peekAgain pc => exact hs.keep (by rw [pc]; rfl)
  | timers pc => exact hs.keep (by rw [pc]; rfl)
  | handled pc => exact hs.keep (by rw [pc]; rfl)
  | handle pc => exact hs.keep (by rw [pc]; rfl)
  | handler pc => exact hs.keep (by rw [pc]; rfl)
  | submitWaiting pc => exact hs.keep (by rw [pc]; rfl)
  | setCalling pc => exact hs.keep (by rw [pc]; rfl)
  | returned pc => exact hs.keep (by rw [pc]; rfl)
  | unsetCalling pc => exact hs.keep (by rw [pc]; rfl)
  | leave pc => exact hs.keep (by rw [pc]; rfl)

theorem Move.ordered (h : Move s a s') (hs : s.Ordered) : s'.Ordered := by
  cases h with
  | turn free turn => exact turn.ordered hs
  | @selfPush f => exact (hs.push f).keep
  | @push f => exact (hs.push f).keep
  | selfWake => exact hs.keep
  | selfQuit => exact hs.keep
  | selfSubmit => exact hs.keep
  | wake => exact hs.keep
  | quitStore => exact hs.keep
  | quitWake => exact hs.keep
  | readDone => exact hs.keep
  | readFailed => exact hs.keep
  | otherDone => exact hs.keep

end

/-! ## The eventfd read -/

/-- The eventfd reads on their way through the ring. -/
def reads (s : EventLoop F) : ℕ :=
  s.prepared + s.armed + s.cq.count .wakeup + s.cqes.count .wakeup

/-- How many reads there are at each place, and whether they are submitted. -/
def ReadAt (s : EventLoop F) : Prop :=
  match s.pc with
  | .outside => s.reads = 0 ∨ s.reads = 1 ∧ s.quit = true
  | .arm => s.reads = 0
  | .leave => s.reads = 1 ∧ s.quit = true
  | .peek => s.reads = 1 ∧ s.prepared = 0
  | .wait => s.reads = 1 ∧ s.prepared = 0
  | _ => s.reads = 1

/-- **There is one eventfd read**, from the `on_completion()` in front of the loop on.  Where the
loop is about to block it is with the kernel or has come back. -/
structure OneRead (s : EventLoop F) : Prop where
  readAt : s.ReadAt
  handled : s.pc.handles = false → s.cqes = []

section

variable {s s' : EventLoop F} {full : Bool} {a : Act F}

theorem create_oneRead (cqesSize : ℕ) : (create cqesSize : EventLoop F).OneRead :=
  ⟨.inl rfl, fun _ => rfl⟩

/-- Steps that do not move the loop thread or the read. -/
theorem OneRead.keep {t : EventLoop F} (hs : s.OneRead) (hpc : t.pc = s.pc := by rfl)
    (hreads : t.reads = s.reads := by rfl)
    (hquit : s.quit = true → t.quit = true := by exact fun h => h)
    (hprepared : t.prepared = s.prepared := by rfl) (hcqes : t.cqes = s.cqes := by rfl) :
    t.OneRead := by
  obtain ⟨hread, hhandled⟩ := hs
  refine ⟨?_, by rwa [hpc, hcqes]⟩
  unfold ReadAt at *
  rw [hpc, hreads, hprepared]
  cases hp : s.pc with
  | outside =>
      simp only [hp] at hread
      exact hread.imp_right fun h => ⟨h.1, hquit h.2⟩
  | leave =>
      simp only [hp] at hread
      exact ⟨hread.1, hquit hread.2⟩
  | _ => simpa only [hp] using hread

/-- Inside the loop there is one read. -/
theorem OneRead.inside (hs : s.OneRead) (h : s.pc ≠ .outside) (h' : s.pc ≠ .arm) :
    s.reads = 1 := by
  have hread := hs.readAt
  unfold ReadAt at hread
  cases hp : s.pc with
  | outside => exact absurd hp h
  | arm => exact absurd hp h'
  | leave => simp only [hp] at hread; exact hread.1
  | peek => simp only [hp] at hread; exact hread.1
  | wait => simp only [hp] at hread; exact hread.1
  | _ => simpa only [hp] using hread

theorem OneRead.one_at (hs : s.OneRead) {p : LoopPc} (pc : s.pc = p)
    (h : p ≠ .outside := by simp) (h' : p ≠ .arm := by simp) : s.reads = 1 := by
  rw [← pc] at h h'
  exact hs.inside h h'

/-- Where no completions are handled there are none. -/
theorem OneRead.none_at (hs : s.OneRead) {p : LoopPc} (pc : s.pc = p)
    (h : p.handles = false := by rfl) : s.cqes = [] := by
  rw [← pc] at h
  exact hs.handled h

theorem reads_ioUringSubmit : s.ioUringSubmit.reads = s.reads := by
  simp only [reads, ioUringSubmit]
  omega

theorem reads_onCompletion : (s.onCompletion full).reads = s.reads + 1 := by
  cases full with
  | false => simp only [reads, onCompletion, Bool.false_eq_true, if_false]; omega
  | true => simp only [reads, onCompletion, ioUringSubmit, if_true]; omega

theorem reads_peekBatch (h : s.cqes = []) : s.peekBatch.reads = s.reads := by
  have hcount : (s.cq.take s.cqesSize).count .wakeup + (s.cq.drop s.cqesSize).count .wakeup =
      s.cq.count .wakeup := by
    rw [← List.count_append, List.take_append_drop]
  simp only [reads, peekBatch, h, List.count_nil]
  omega

/-- The read at the place of the loop thread. -/
theorem OneRead.at_pc (hs : s.OneRead) {pc : LoopPc} (hpc : s.pc = pc) :
    ({ s with pc := pc } : EventLoop F).ReadAt := by
  have hread := hs.readAt
  subst hpc
  exact hread

theorem Turn.oneRead (h : Turn full s s') (hs : s.OneRead) : s'.OneRead := by
  cases h with
  | refuse pc quit => exact ⟨hs.at_pc pc, fun _ => hs.none_at pc⟩
  | enter pc quit =>
      have hread : s.reads = 0 ∨ s.reads = 1 ∧ s.quit = true := hs.at_pc pc
      refine ⟨hread.resolve_right ?_, fun _ => hs.none_at pc⟩
      rintro ⟨-, h⟩
      simp [quit] at h
  | arm pc =>
      have hread : s.reads = 0 := hs.at_pc pc
      refine ⟨?_, fun _ => ?_⟩
      · show (s.onCompletion full).reads = 1
        rw [reads_onCompletion, hread]
      · show (s.onCompletion full).cqes = []
        rw [onCompletion_cqes]
        exact hs.none_at pc
  | setLooping pc => exact ⟨hs.one_at pc, fun _ => hs.none_at pc⟩
  | setQuit pc => exact ⟨hs.one_at pc, fun _ => hs.none_at pc⟩
  | stop pc quit => exact ⟨⟨hs.one_at pc, quit⟩, fun _ => hs.none_at pc⟩
  | start pc quit => exact ⟨hs.one_at pc, fun _ => hs.none_at pc⟩
  | submit pc =>
      refine ⟨⟨?_, rfl⟩, fun _ => hs.none_at pc⟩
      show s.ioUringSubmit.reads = 1
      rw [reads_ioUringSubmit]
      exact hs.one_at pc
  | peekNone pc none =>
      have hcqes := hs.none_at pc
      have hread : s.reads = 1 ∧ s.prepared = 0 := hs.at_pc pc
      refine ⟨⟨?_, hread.2⟩, fun _ => rfl⟩
      rw [← hread.1]
      simp only [reads, hcqes]
  | peekSome pc some =>
      have hcqes := hs.none_at pc
      refine ⟨?_, fun h => by cases h⟩
      show s.peekBatch.reads = 1
      rw [reads_peekBatch hcqes]
      exact hs.one_at pc
  | wait pc => exact ⟨hs.one_at pc, fun _ => hs.none_at pc⟩
  | peekAgain pc =>
      have hcqes := hs.none_at pc
      refine ⟨?_, fun h => by cases h⟩
      show s.peekBatch.reads = 1
      rw [reads_peekBatch hcqes]
      exact hs.one_at pc
  | timers pc => exact ⟨hs.one_at pc, fun h => by cases h⟩
  | handled pc none => exact ⟨hs.one_at pc, fun _ => none⟩
  | @rearm cqes pc head =>
      have hread := hs.one_at pc
      refine ⟨?_, fun h => ?_⟩
      · have hpc : (onCompletion full { s with cqes := cqes, pc := .handling }).pc = .handling :=
          onCompletion_pc
        unfold ReadAt
        rw [hpc]
        show (onCompletion full { s with cqes := cqes, pc := .handling }).reads = 1
        have hpop : ({ s with cqes := cqes, pc := .handling } : EventLoop F).reads + 1 =
            s.reads := by
          simp only [reads, head, List.count_cons_self]
          omega
        rw [reads_onCompletion, hpop, hread]
      · rw [onCompletion_pc] at h
        cases h
  | @handle cqes pc head =>
      have hread := hs.one_at pc
      refine ⟨?_, fun h => by cases h⟩
      show s.prepared + s.armed + s.cq.count .wakeup + cqes.count .wakeup = 1
      rw [← hread, reads, head, List.count_cons_of_ne (by decide)]
  | handler pc => exact ⟨hs.one_at pc, fun h => by cases h⟩
  | submitWaiting pc => exact ⟨hs.one_at pc, fun _ => hs.none_at pc⟩
  | setCalling pc => exact ⟨hs.one_at pc, fun _ => hs.none_at pc⟩
  | swap pc => exact ⟨hs.one_at pc, fun _ => hs.none_at pc⟩
  | batchDone pc none => exact ⟨hs.one_at pc, fun _ => hs.none_at pc⟩
  | call pc head => exact ⟨hs.one_at pc, fun _ => hs.none_at pc⟩
  | returned pc => exact ⟨hs.one_at pc, fun _ => hs.none_at pc⟩
  | unsetCalling pc => exact ⟨hs.one_at pc, fun _ => hs.none_at pc⟩
  | leave pc =>
      have hread : s.reads = 1 ∧ s.quit = true := hs.at_pc pc
      exact ⟨.inr hread, fun _ => hs.none_at pc⟩

theorem Move.oneRead (h : Move s a s') (hs : s.OneRead) : s'.OneRead := by
  cases h with
  | turn free turn => exact turn.oneRead hs
  | selfPush => exact hs.keep
  | selfWake => exact hs.keep
  | selfQuit => exact hs.keep rfl rfl fun _ => rfl
  | selfSubmit callback free =>
      have hpc : s.pc = .timers ∨ s.pc = .handler ∨ s.pc = .task := by
        cases hp : s.pc <;> simp_all [LoopPc.callback]
      have hread : s.ioUringSubmit.reads = 1 := by
        rw [reads_ioUringSubmit]
        exact hs.inside (by rcases hpc with h | h | h <;> simp [h])
          (by rcases hpc with h | h | h <;> simp [h])
      refine ⟨?_, hs.handled⟩
      unfold ReadAt
      rcases hpc with h | h | h
      · rw [show s.ioUringSubmit.pc = .timers from h]; exact hread
      · rw [show s.ioUringSubmit.pc = .handler from h]; exact hread
      · rw [show s.ioUringSubmit.pc = .task from h]; exact hread
  | push => exact hs.keep
  | wake => exact hs.keep
  | quitStore => exact hs.keep rfl rfl fun _ => rfl
  | quitWake => exact hs.keep
  | readDone armed counter =>
      refine hs.keep rfl ?_
      simp only [reads, List.count_append, List.count_singleton_self]
      omega
  | readFailed armed =>
      refine hs.keep rfl ?_
      simp only [reads, List.count_append, List.count_singleton_self]
      omega
  | otherDone =>
      refine hs.keep rfl ?_
      simp [reads, List.count_append]

end

/-! ## Waking the loop -/

/-- **A pending functor has a signal**, unless the loop will swap the queue out in this turn or
somebody is about to write the eventfd. -/
structure Signalled (s : EventLoop F) : Prop where
  calls : s.pc.calls = s.calling
  signal : s.pc.serves = false → s.pending ≠ [] → s.waking = 0 → s.selfWaking = false →
    0 < s.counter ∨ .wakeup ∈ s.cq

section

variable {s s' : EventLoop F} {full : Bool} {a : Act F}

theorem create_signalled (cqesSize : ℕ) : (create cqesSize : EventLoop F).Signalled :=
  ⟨rfl, fun _ h => absurd rfl h⟩

/-- Steps that keep the pending functors and every signal. -/
theorem Signalled.keep {t : EventLoop F} (hs : s.Signalled)
    (hserves : t.pc.serves = false → s.pc.serves = false := by exact fun h => h)
    (hcalls : t.pc.calls = t.calling)
    (hpending : t.pending = s.pending := by rfl) (hwaking : t.waking = s.waking := by rfl)
    (hself : t.selfWaking = s.selfWaking := by rfl) (hcounter : t.counter = s.counter := by rfl)
    (hcq : .wakeup ∈ s.cq → .wakeup ∈ t.cq := by exact fun h => h) : t.Signalled := by
  refine ⟨hcalls, fun hpc hne hw hsw => ?_⟩
  rw [hcounter]
  exact (hs.signal (hserves hpc) (hpending ▸ hne) (hwaking ▸ hw) (hself ▸ hsw)).imp_right hcq

theorem Signalled.calling_at (hs : s.Signalled) {p q : LoopPc} (pc : s.pc = p)
    (h : q.calls = p.calls := by rfl) : q.calls = s.calling := by
  rw [h, ← pc]
  exact hs.calls

/-- Steps after which a signal is there. -/
theorem Signalled.of_counter {t : EventLoop F} (hcalls : t.pc.calls = t.calling)
    (h : 0 < t.counter) : t.Signalled :=
  ⟨hcalls, fun _ _ _ _ => .inl h⟩

theorem wakeUp_counter : 0 < s.wakeUp.counter := by
  simp only [wakeUp]
  split
  · omega
  · omega

theorem onCompletion_signalled (hs : s.Signalled) (full : Bool) :
    (s.onCompletion full).Signalled := by
  cases full with
  | false => exact hs.keep (fun h => h) hs.calls
  | true => exact hs.keep (fun h => h) hs.calls

theorem Turn.signalled (h : Turn full s s') (hs : s.Signalled) : s'.Signalled := by
  cases h with
  | refuse pc => exact hs.keep (by simp [pc]) (hs.calling_at pc)
  | enter pc => exact hs.keep (by simp [pc, LoopPc.serves]) (hs.calling_at pc)
  | arm pc =>
      refine (onCompletion_signalled hs full).keep ?_ ?_
      · simp [pc, LoopPc.serves]
      · show false = (s.onCompletion full).calling
        rw [onCompletion_calling]
        exact hs.calling_at pc
  | setLooping pc => exact hs.keep (by simp [pc, LoopPc.serves]) (hs.calling_at pc)
  | setQuit pc => exact hs.keep (by simp [pc, LoopPc.serves]) (hs.calling_at pc)
  | stop pc => exact hs.keep (by simp [pc, LoopPc.serves]) (hs.calling_at pc)
  | start pc => exact hs.keep (by simp [pc, LoopPc.serves]) (hs.calling_at pc)
  | submit pc => exact hs.keep (by simp [pc, LoopPc.serves]) (hs.calling_at pc)
  | peekNone pc => exact hs.keep (by simp [pc, LoopPc.serves]) (hs.calling_at pc)
  | peekSome pc => exact ⟨hs.calling_at pc, fun h => by cases h⟩
  | wait pc => exact hs.keep (by simp [pc, LoopPc.serves]) (hs.calling_at pc)
  | peekAgain pc => exact ⟨hs.calling_at pc, fun h => by cases h⟩
  | timers pc => exact ⟨hs.calling_at pc, fun h => by cases h⟩
  | handled pc => exact ⟨hs.calling_at pc, fun h => by cases h⟩
  | @rearm cqes pc head =>
      refine onCompletion_signalled ⟨?_, fun h => by cases h⟩ full
      show LoopPc.handling.calls = s.calling
      exact hs.calling_at pc
  | handle pc => exact ⟨hs.calling_at pc, fun h => by cases h⟩
  | handler pc => exact ⟨hs.calling_at pc, fun h => by cases h⟩
  | submitWaiting pc => exact ⟨hs.calling_at pc, fun h => by cases h⟩
  | setCalling pc => exact ⟨rfl, fun h => by cases h⟩
  -- nothing is pending right after the swap
  | swap pc => exact ⟨hs.calling_at pc, fun _ h => absurd rfl h⟩
  | batchDone pc => exact hs.keep (by simp [pc, LoopPc.serves]) (hs.calling_at pc)
  | call pc => exact hs.keep (by simp [pc, LoopPc.serves]) (hs.calling_at pc)
  | returned pc => exact hs.keep (by simp [pc, LoopPc.serves]) (hs.calling_at pc)
  | unsetCalling pc => exact hs.keep (by simp [pc, LoopPc.serves]) rfl
  | leave pc => exact hs.keep (by simp [pc, LoopPc.serves]) (hs.calling_at pc)

theorem Move.signalled (h : Move s a s') (hs : s.Signalled) : s'.Signalled := by
  cases h with
  | turn free turn => exact turn.signalled hs
  | @selfPush f callback free =>
      refine ⟨hs.calls, fun hpc hne hw hself => ?_⟩
      -- outside of the functors the swap is still to come; inside them `calling` is set
      replace hself : s.calling = false := hself
      replace hpc : s.pc.serves = false := hpc
      rw [← hs.calls] at hself
      cases hp : s.pc <;> simp [hp, LoopPc.callback, LoopPc.serves, LoopPc.calls] at *
  | selfWake => exact .of_counter hs.calls wakeUp_counter
  | selfQuit => exact hs.keep (fun h => h) hs.calls
  | selfSubmit => exact hs.keep (fun h => h) hs.calls
  | push => exact ⟨hs.calls, fun _ _ hw => absurd hw (Nat.succ_ne_zero _)⟩
  | wake => exact .of_counter hs.calls wakeUp_counter
  | quitStore => exact hs.keep (fun h => h) hs.calls
  | quitWake => exact .of_counter hs.calls wakeUp_counter
  | readDone => exact ⟨hs.calls, fun _ _ _ _ => .inr (by simp)⟩
  | readFailed => exact ⟨hs.calls, fun _ _ _ _ => .inr (by simp)⟩
  | otherDone => exact hs.keep (fun h => h) hs.calls rfl rfl rfl rfl (by simp)

/-- **Functors run in the order of the pushes and are never slept through.**  A functor pushed while
a batch is called is not part of it; and where the loop is about to block with functors pending and
no `queueInLoop` under way, the one eventfd read completes or has completed. -/
theorem functors_ordered_and_woken {cqesSize : ℕ} (run : Reach step anyStep (create cqesSize) s) :
    s.executed ++ s.tasks ++ s.pending = s.enqueued ∧
    (s.pc.inBatch = true → s.executed ++ s.tasks = s.enqueued.take s.swapped) ∧
    (s.pc = .wait → s.pending ≠ [] → s.waking = 0 → s.selfWaking = false →
      s.prepared = 0 ∧ s.armed + s.cq.count .wakeup = 1 ∧
        (0 < s.counter ∨ .wakeup ∈ s.cq)) := by
  obtain ⟨hordered, hread, hsignal⟩ : s.Ordered ∧ s.OneRead ∧ s.Signalled := by
    refine run.invariant (P := fun s => s.Ordered ∧ s.OneRead ∧ s.Signalled)
      ⟨create_ordered _, create_oneRead _, create_signalled _⟩ ?_
    rintro s a s' ⟨ho, hr, hs⟩ - h
    have move := step_move h
    exact ⟨move.ordered ho, move.oneRead hr, move.signalled hs⟩
  refine ⟨hordered.whole, hordered.batch, fun hpc hne hw hself => ?_⟩
  have hcqes := hread.none_at hpc
  obtain ⟨hone, hprepared⟩ : s.reads = 1 ∧ s.prepared = 0 := hread.at_pc hpc
  refine ⟨hprepared, ?_, hsignal.signal (by rw [hpc]; rfl) hne hw hself⟩
  simpa [reads, hprepared, hcqes] using hone

theorem functors_ordered_and_woken_blocking : ∃ s : EventLoop ℕ,
    Reach step anyStep (create 8) s ∧ s.pc = .wait ∧ s.pending = [7] ∧ 0 < s.counter ∧
      s.armed + s.cq.count .wakeup = 1 := by
  obtain ⟨s, run, hs⟩ := exists_reach step anyStep (create 8 : EventLoop ℕ)
    [.advance false, .advance false, .advance false, .advance false, .advance false,
      .advance false, .advance false, .push 7, .wake]
    (fun s => s.pc = .wait ∧ s.pending = [7] ∧ 0 < s.counter ∧ s.waking = 0 ∧
      s.selfWaking = false) (by decide +kernel)
  simp only [decide_eq_true_eq] at hs
  obtain ⟨hpc, hpending, hcounter, hw, hself⟩ := hs
  have hone := (functors_ordered_and_woken run).2.2 hpc (by simp [hpending]) hw hself
  exact ⟨s, run, hpc, hpending, hcounter, hone.2.1⟩

end

end EventLoop

end Proactor
