import Mathlib.Algebra.Group.Nat.Defs
import Proactor.Core.Transition

/-!
# `IoUringLoop::loop` and the threads that talk to it

`loop()` is cut at every access to something other threads can see: `quit_`, `pendingFunctors_`,
the eventfd and the ring.  Between two of its steps any number of other threads push functors,
write the eventfd and store `quit_`, and the kernel posts completions.

* `EventLoop` — the loop, the wake-up machinery, and the history of the functor queue.
* `EventLoop.advance` — the next step of `loop()`, one case for each place it can be at.
* `EventLoop.step` — that, or a step of a callback, of another thread or of the kernel.
* `EventLoop.Turn`, `EventLoop.Move` — the same, one constructor for each way through them.

`calling_pending_functors_` is only ever written by the loop thread.  A call of `queueInLoop` is
two steps, the push under `mtx_` and the write of the eventfd, and so is a call of `quit`.
-/

namespace Proactor

open Transition

/-- A completion: of the eventfd read, or of anything else. -/
inductive LoopCqe
  | wakeup
  | other
  deriving DecidableEq, Repr

/-- Where the loop thread is. -/
inductive LoopPc
  /-- Before `loop()` is entered, or after it has returned. -/
  | outside
  /-- Past `if(quit_) return`, before `on_completion()`. -/
  | arm
  | setLooping
  | setQuit
  /-- At the test of `while(!quit_)`. -/
  | test
  | submit
  | peek
  /-- About to block in `io_uring_wait_cqe_timeout`. -/
  | wait
  | peekAgain
  /-- In `timer_queue_->handleRead()`. -/
  | timers
  /-- At the head of the loop over the completions. -/
  | handling
  /-- In the `on_completion` of a read, a write or an accept. -/
  | handler
  | submitWaiting
  | setCalling
  | swap
  /-- At the head of the loop over `tasks`. -/
  | running
  /-- In a functor. -/
  | task
  | unsetCalling
  | leave
  deriving DecidableEq, Repr

/-- The loop thread is in a timer callback, a completion handler or a functor. -/
def LoopPc.callback : LoopPc → Bool
  | .timers => true
  | .handler => true
  | .task => true
  | _ => false

/-- The peeked completions are being handled. -/
def LoopPc.handles : LoopPc → Bool
  | .timers => true
  | .handling => true
  | .handler => true
  | _ => false

/-- Between the test `if(quit_) return` and the assignment `quit_=false`. -/
def LoopPc.starting : LoopPc → Bool
  | .arm => true
  | .setLooping => true
  | .setQuit => true
  | _ => false

/-- A batch of functors is being called. -/
def LoopPc.inBatch : LoopPc → Bool
  | .running => true
  | .task => true
  | _ => false

/-- `calling_pending_functors_` is set. -/
def LoopPc.calls : LoopPc → Bool
  | .swap => true
  | .running => true
  | .task => true
  | .unsetCalling => true
  | _ => false

/-- The completions have been peeked and the pending functors are still to be swapped out in this
turn, so that nothing has to wake the loop for them. -/
def LoopPc.serves : LoopPc → Bool
  | .timers => true
  | .handling => true
  | .handler => true
  | .submitWaiting => true
  | .setCalling => true
  | .swap => true
  | _ => false

/-- An `IoUringLoop`, with functors of type `F`. -/
structure EventLoop (F : Type*) where
  pc : LoopPc
  cqesSize : ℕ
  quit : Bool
  looping : Bool
  /-- `calling_pending_functors_`. -/
  calling : Bool
  /-- `pendingFunctors_`. -/
  pending : List F
  /-- What is left of the local `tasks`. -/
  tasks : List F
  /-- Eventfd reads that are prepared and not yet submitted. -/
  prepared : ℕ
  /-- Eventfd reads the kernel has. -/
  armed : ℕ
  cq : List LoopCqe
  /-- The peeked completions that have not been handled. -/
  cqes : List LoopCqe
  /-- The eventfd. -/
  counter : ℕ
  /-- Calls of `queueInLoop` on other threads that have pushed and not yet written the eventfd. -/
  waking : ℕ
  /-- The loop thread has pushed and has to write the eventfd. -/
  selfWaking : Bool
  /-- Calls of `quit` on other threads that have not yet written the eventfd. -/
  quitting : ℕ
  /-- Every functor pushed so far. -/
  enqueued : List F
  /-- How many of them had been pushed at the last swap. -/
  swapped : ℕ
  /-- The functors called so far. -/
  executed : List F
  /-- Some thread has stored `true` into `quit_`. -/
  requested : Bool
  /-- Turns of the loop started since then. -/
  late : ℕ
  deriving DecidableEq, Repr

namespace EventLoop

variable {F : Type*}

/-- A constructed loop. -/
def create (cqesSize : ℕ) : EventLoop F where
  pc := .outside
  cqesSize := cqesSize
  quit := false
  looping := false
  calling := false
  pending := []
  tasks := []
  prepared := 0
  armed := 0
  cq := []
  cqes := []
  counter := 0
  waking := 0
  selfWaking := false
  quitting := 0
  enqueued := []
  swapped := 0
  executed := []
  requested := false
  late := 0

/-- `wakeUp`: the eventfd does not block, so a write that would overflow it fails. -/
def wakeUp (s : EventLoop F) : EventLoop F :=
  { s with counter := if s.counter + 1 < 2 ^ 64 - 1 then s.counter + 1 else s.counter }

def ioUringSubmit (s : EventLoop F) : EventLoop F :=
  { s with prepared := 0, armed := s.armed + s.prepared }

/-- `IoUringLoop::on_completion`.  A full ring is submitted before the read is prepared. -/
def onCompletion (full : Bool) (s : EventLoop F) : EventLoop F :=
  let s := if full then s.ioUringSubmit else s
  { s with prepared := s.prepared + 1 }

/-- `io_uring_peek_batch_cqe`.  The entries leave the queue at `io_uring_cq_advance`, which nothing
between the two calls can observe. -/
def peekBatch (s : EventLoop F) : EventLoop F :=
  { s with cqes := s.cq.take s.cqesSize, cq := s.cq.drop s.cqesSize }

/-- The next step of the loop thread.  `full` is whether the submission ring is. -/
def advance (full : Bool) (s : EventLoop F) : Option (EventLoop F) :=
  match s.pc with
  | .outside => some { s with pc := if s.quit then .outside else .arm }
  | .arm => some { s.onCompletion full with pc := .setLooping }
  | .setLooping => some { s with looping := true, pc := .setQuit }
  | .setQuit => some { s with quit := false, pc := .test }
  | .test =>
      if s.quit then some { s with pc := .leave }
      else some { s with pc := .submit, late := if s.requested then s.late + 1 else s.late }
  | .submit => some { s.ioUringSubmit with pc := .peek }
  | .peek => some { s.peekBatch with pc := if s.peekBatch.cqes = [] then .wait else .timers }
  | .wait => some { s with pc := .peekAgain }
  | .peekAgain => some { s.peekBatch with pc := .timers }
  | .timers => some { s with pc := .handling }
  | .handling =>
      match s.cqes with
      | [] => some { s with pc := .submitWaiting }
      | .wakeup :: cqes => some (({ s with cqes := cqes } : EventLoop F).onCompletion full)
      | .other :: cqes => some { s with cqes := cqes, pc := .handler }
  | .handler => some { s with pc := .handling }
  | .submitWaiting => some { s with pc := .setCalling }
  | .setCalling => some { s with calling := true, pc := .swap }
  | .swap =>
      some { s with tasks := s.pending, pending := [], swapped := s.enqueued.length, pc := .running }
  | .running =>
      match s.tasks with
      | [] => some { s with pc := .unsetCalling }
      | f :: tasks => some { s with tasks := tasks, executed := s.executed ++ [f], pc := .task }
  | .task => some { s with pc := .running }
  | .unsetCalling => some { s with calling := false, pc := .test }
  | .leave => some { s with looping := false, pc := .outside }

/-- Who acts next.  `self…` are steps of the callback the loop thread is in; those of the second
group belong to other threads, the last three to the kernel. -/
inductive Act (F : Type*)
  | advance (full : Bool)
  | selfPush (f : F)
  | selfWake
  | selfQuit
  | selfSubmit
  | push (f : F)
  | wake
  | quitStore
  | quitWake
  | readDone
  | readFailed
  | otherDone
  deriving DecidableEq, Repr

/-- The push in `queueInLoop`. -/
def pushPending (f : F) (s : EventLoop F) : EventLoop F :=
  { s with pending := s.pending ++ [f], enqueued := s.enqueued ++ [f] }

/-- A step of the loop thread in a callback: it is not in the middle of a `queueInLoop`. -/
def inCallback (s : EventLoop F) : Bool := s.pc.callback && !s.selfWaking

def step (s : EventLoop F) : Act F → Option (EventLoop F)
  | .advance full => if s.selfWaking then none else s.advance full
  -- on its own thread `queueInLoop` writes the eventfd only in `doingPendingFunctors`
  | .selfPush f =>
      if s.inCallback then some { s.pushPending f with selfWaking := s.calling } else none
  | .selfWake => if s.selfWaking then some { s.wakeUp with selfWaking := false } else none
  | .selfQuit => if s.inCallback then some { s with quit := true, requested := true } else none
  -- `submitCancel` and a full ring submit in the middle of a callback
  | .selfSubmit => if s.inCallback then some s.ioUringSubmit else none
  | .push f => some { s.pushPending f with waking := s.waking + 1 }
  | .wake => if s.waking = 0 then none else some { s.wakeUp with waking := s.waking - 1 }
  | .quitStore => some { s with quit := true, requested := true, quitting := s.quitting + 1 }
  | .quitWake => if s.quitting = 0 then none else some { s.wakeUp with quitting := s.quitting - 1 }
  | .readDone =>
      if s.armed = 0 ∨ s.counter = 0 then none
      else some { s with armed := s.armed - 1, counter := 0, cq := s.cq ++ [.wakeup] }
  | .readFailed =>
      if s.armed = 0 then none
      else some { s with armed := s.armed - 1, cq := s.cq ++ [.wakeup] }
  | .otherDone => some { s with cq := s.cq ++ [.other] }

/-! ## What the loop thread can do -/

/-- The steps of `loop()`, one constructor for each way through `advance`. -/
inductive Turn (full : Bool) (s : EventLoop F) : EventLoop F → Prop
  | refuse (pc : s.pc = .outside) (quit : s.quit = true) : Turn full s { s with pc := .outside }
  | enter (pc : s.pc = .outside) (quit : s.quit = false) : Turn full s { s with pc := .arm }
  | arm (pc : s.pc = .arm) : Turn full s { s.onCompletion full with pc := .setLooping }
  | setLooping (pc : s.pc = .setLooping) : Turn full s { s with looping := true, pc := .setQuit }
  | setQuit (pc : s.pc = .setQuit) : Turn full s { s with quit := false, pc := .test }
  | stop (pc : s.pc = .test) (quit : s.quit = true) : Turn full s { s with pc := .leave }
  | start (pc : s.pc = .test) (quit : s.quit = false) :
      Turn full s { s with pc := .submit, late := if s.requested then s.late + 1 else s.late }
  | submit (pc : s.pc = .submit) : Turn full s { s.ioUringSubmit with pc := .peek }
  | peekNone (pc : s.pc = .peek) (none : s.cq.take s.cqesSize = []) :
      Turn full s { s with cqes := [], pc := .wait }
  | peekSome (pc : s.pc = .peek) (some : s.cq.take s.cqesSize ≠ []) :
      Turn full s { s.peekBatch with pc := .timers }
  | wait (pc : s.pc = .wait) : Turn full s { s with pc := .peekAgain }
  | peekAgain (pc : s.pc = .peekAgain) : Turn full s { s.peekBatch with pc := .timers }
  | timers (pc : s.pc = .timers) : Turn full s { s with pc := .handling }
  | handled (pc : s.pc = .handling) (none : s.cqes = []) :
      Turn full s { s with pc := .submitWaiting }
  | rearm {cqes : List LoopCqe} (pc : s.pc = .handling) (head : s.cqes = .wakeup :: cqes) :
      Turn full s (({ s with cqes := cqes, pc := .handling } : EventLoop F).onCompletion full)
  | handle {cqes : List LoopCqe} (pc : s.pc = .handling) (head : s.cqes = .other :: cqes) :
      Turn full s { s with cqes := cqes, pc := .handler }
  | handler (pc : s.pc = .handler) : Turn full s { s with pc := .handling }
  | submitWaiting (pc : s.pc = .submitWaiting) : Turn full s { s with pc := .setCalling }
  | setCalling (pc : s.pc = .setCalling) : Turn full s { s with calling := true, pc := .swap }
  | swap (pc : s.pc = .swap) :
      Turn full s { s with
        tasks := s.pending
        pending := []
        swapped := s.enqueued.length
        pc := .running }
  | batchDone (pc : s.pc = .running) (none : s.tasks = []) :
      Turn full s { s with pc := .unsetCalling }
  | call {f : F} {tasks : List F} (pc : s.pc = .running) (head : s.tasks = f :: tasks) :
      Turn full s { s with tasks := tasks, executed := s.executed ++ [f], pc := .task }
  | returned (pc : s.pc = .task) : Turn full s { s with pc := .running }
  | unsetCalling (pc : s.pc = .unsetCalling) : Turn full s { s with calling := false, pc := .test }
  | leave (pc : s.pc = .leave) : Turn full s { s with looping := false, pc := .outside }

section

variable {s s' : EventLoop F} {full : Bool} {a : Act F}

@[simp] theorem onCompletion_pc : (s.onCompletion full).pc = s.pc := by
  cases full <;> rfl

@[simp] theorem onCompletion_calling : (s.onCompletion full).calling = s.calling := by
  cases full <;> rfl

@[simp] theorem onCompletion_quit : (s.onCompletion full).quit = s.quit := by
  cases full <;> rfl

@[simp] theorem onCompletion_cqes : (s.onCompletion full).cqes = s.cqes := by
  cases full <;> rfl

/-- An empty peek leaves the completion queue alone. -/
theorem peekBatch_none (h : s.cq.take s.cqesSize = []) :
    s.peekBatch = { s with cqes := [] } := by
  have hdrop : s.cq.drop s.cqesSize = s.cq := by
    have := List.take_append_drop s.cqesSize s.cq
    rwa [h, List.nil_append] at this
  rw [peekBatch, h, hdrop]

theorem advance_turn (h : s.advance full = some s') : Turn full s s' := by
  unfold EventLoop.advance at h
  cases hpc : s.pc with
  | outside =>
      simp only [hpc, Option.some.injEq] at h
      subst h
      by_cases hquit : s.quit = true
      · rw [if_pos hquit]
        exact .refuse hpc hquit
      · rw [if_neg hquit]
        exact .enter hpc (by simpa using hquit)
  | test =>
      simp only [hpc] at h
      by_cases hquit : s.quit = true
      · rw [if_pos hquit, Option.some.injEq] at h
        exact h ▸ .stop hpc hquit
      · rw [if_neg hquit, Option.some.injEq] at h
        exact h ▸ .start hpc (by simpa using hquit)
  | peek =>
      simp only [hpc, Option.some.injEq] at h
      subst h
      by_cases hnone : s.cq.take s.cqesSize = []
      · rw [peekBatch_none hnone]
        exact .peekNone hpc hnone
      · have hsome : s.peekBatch.cqes ≠ [] := hnone
        rw [if_neg hsome]
        exact .peekSome hpc hnone
  | handling =>
      simp only [hpc] at h
      split at h
      case h_1 hnone =>
        cases h
        exact .handled hpc hnone
      case h_2 hhead =>
        cases h
        exact .rearm hpc hhead
      case h_3 hhead =>
        cases h
        exact .handle hpc hhead
  | running =>
      simp only [hpc] at h
      split at h
      case h_1 hnone =>
        cases h
        exact .batchDone hpc hnone
      case h_2 hhead =>
        cases h
        exact .call hpc hhead
  | arm => simp only [hpc, Option.some.injEq] at h; exact h ▸ .arm hpc
  | setLooping => simp only [hpc, Option.some.injEq] at h; exact h ▸ .setLooping hpc
  | setQuit => simp only [hpc, Option.some.injEq] at h; exact h ▸ .setQuit hpc
  | submit => simp only [hpc, Option.some.injEq] at h; exact h ▸ .submit hpc
  | wait => simp only [hpc, Option.some.injEq] at h; exact h ▸ .wait hpc
  | peekAgain => simp only [hpc, Option.some.injEq] at h; exact h ▸ .peekAgain hpc
  | timers => simp only [hpc, Option.some.injEq] at h; exact h ▸ .timers hpc
  | handler => simp only [hpc, Option.some.injEq] at h; exact h ▸ .handler hpc
  | submitWaiting => simp only [hpc, Option.some.injEq] at h; exact h ▸ .submitWaiting hpc
  | setCalling => simp only [hpc, Option.some.injEq] at h; exact h ▸ .setCalling hpc
  | swap => simp only [hpc, Option.some.injEq] at h; exact h ▸ .swap hpc
  | task => simp only [hpc, Option.some.injEq] at h; exact h ▸ .returned hpc
  | unsetCalling => simp only [hpc, Option.some.injEq] at h; exact h ▸ .unsetCalling hpc
  | leave => simp only [hpc, Option.some.injEq] at h; exact h ▸ .leave hpc

/-- Everything that can happen, with what it needs. -/
inductive Move (s : EventLoop F) : Act F → EventLoop F → Prop
  | turn {full : Bool} {s' : EventLoop F} (free : s.selfWaking = false) (turn : Turn full s s') :
      Move s (.advance full) s'
  | selfPush {f : F} (callback : s.pc.callback = true) (free : s.selfWaking = false) :
      Move s (.selfPush f) { s.pushPending f with selfWaking := s.calling }
  | selfWake (self : s.selfWaking = true) : Move s .selfWake { s.wakeUp with selfWaking := false }
  | selfQuit (callback : s.pc.callback = true) (free : s.selfWaking = false) :
      Move s .selfQuit { s with quit := true, requested := true }
  | selfSubmit (callback : s.pc.callback = true) (free : s.selfWaking = false) :
      Move s .selfSubmit s.ioUringSubmit
  | push {f : F} : Move s (.push f) { s.pushPending f with waking := s.waking + 1 }
  | wake (some : s.waking ≠ 0) : Move s .wake { s.wakeUp with waking := s.waking - 1 }
  | quitStore :
      Move s .quitStore { s with quit := true, requested := true, quitting := s.quitting + 1 }
  | quitWake (some : s.quitting ≠ 0) : Move s .quitWake { s.wakeUp with quitting := s.quitting - 1 }
  | readDone (armed : s.armed ≠ 0) (counter : s.counter ≠ 0) :
      Move s .readDone { s with armed := s.armed - 1, counter := 0, cq := s.cq ++ [.wakeup] }
  | readFailed (armed : s.armed ≠ 0) :
      Move s .readFailed { s with armed := s.armed - 1, cq := s.cq ++ [.wakeup] }
  | otherDone : Move s .otherDone { s with cq := s.cq ++ [.other] }

theorem step_move (h : s.step a = some s') : Move s a s' := by
  cases a with
  | advance full =>
      simp only [step, Option.ite_none_left_eq_some, Bool.not_eq_true] at h
      exact .turn h.1 (advance_turn h.2)
  | selfPush f =>
      simp only [step, inCallback, Option.ite_none_right_eq_some, Option.some.injEq,
        Bool.and_eq_true, Bool.not_eq_true'] at h
      exact h.2 ▸ .selfPush h.1.1 h.1.2
  | selfWake =>
      simp only [step, Option.ite_none_right_eq_some, Option.some.injEq] at h
      exact h.2 ▸ .selfWake h.1
  | selfQuit =>
      simp only [step, inCallback, Option.ite_none_right_eq_some, Option.some.injEq,
        Bool.and_eq_true, Bool.not_eq_true'] at h
      exact h.2 ▸ .selfQuit h.1.1 h.1.2
  | selfSubmit =>
      simp only [step, inCallback, Option.ite_none_right_eq_some, Option.some.injEq,
        Bool.and_eq_true, Bool.not_eq_true'] at h
      exact h.2 ▸ .selfSubmit h.1.1 h.1.2
  | push f =>
      simp only [step, Option.some.injEq] at h
      exact h ▸ .push
  | wake =>
      simp only [step, Option.ite_none_left_eq_some, Option.some.injEq] at h
      exact h.2 ▸ .wake h.1
  | quitStore =>
      simp only [step, Option.some.injEq] at h
      exact h ▸ .quitStore
  | quitWake =>
      simp only [step, Option.ite_none_left_eq_some, Option.some.injEq] at h
      exact h.2 ▸ .quitWake h.1
  | readDone =>
      simp only [step, Option.ite_none_left_eq_some, Option.some.injEq, not_or] at h
      exact h.2 ▸ .readDone h.1.1 h.1.2
  | readFailed =>
      simp only [step, Option.ite_none_left_eq_some, Option.some.injEq] at h
      exact h.2 ▸ .readFailed h.1
  | otherDone =>
      simp only [step, Option.some.injEq] at h
      exact h ▸ .otherDone

end

end EventLoop

end Proactor
