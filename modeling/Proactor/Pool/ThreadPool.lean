import Mathlib.Data.List.Nodup
import Mathlib.Data.List.Perm.Basic
import Mathlib.Algebra.Group.Nat.Defs
import Proactor.Core.Slots
import Proactor.Core.Transition

/-!
# `ThreadPool`: its workers, its queue and its destructor

Each worker thread waits on `cv_` for a task or for the end of the pool, takes one task and resumes
it.  The steps of a worker, of a caller of `switchThread` and of the destructor interleave freely;
`mtx_` is held by the workers that are between taking it and sleeping, leaving or popping a task.

Coroutines are numbered in the order in which they are enqueued, so `tasks_` holds numbers.

* `ThreadPool.step` — one step of a worker, a caller or the destructor.
* `ThreadPool.Move` — the same, one constructor for each way through it.
* `ThreadPool.Exclusive` — `mtx_` does its work: no worker pops an empty queue.
-/

namespace Proactor

open Transition

/-- Where a worker thread is in its lambda. -/
inductive WorkerPc
  | start
  /-- It holds `mtx_` and is about to evaluate the predicate of `cv_.wait`. -/
  | locked
  /-- The predicate was false; it still holds `mtx_`. -/
  | willSleep
  | sleeping
  /-- Notified, and waiting for `mtx_`. -/
  | notified
  /-- The predicate was true and `cv_.wait` has returned, with `mtx_` held. -/
  | passed
  /-- It has popped coroutine `k` and released `mtx_`. -/
  | took (k : ℕ)
  | inTask (k : ℕ)
  /-- The lambda has returned, after resuming a coroutine or without one. -/
  | exited (task : Option ℕ)
  /-- `tasks_.front()` of an empty queue. -/
  | undefined
  deriving DecidableEq, Repr

namespace WorkerPc

def holdsLock : WorkerPc → Bool
  | .locked => true
  | .willSleep => true
  | .passed => true
  | _ => false

/-- The coroutine this worker has popped. -/
def taken? : WorkerPc → Option ℕ
  | .took k => some k
  | .inTask k => some k
  | .exited task => task
  | _ => none

/-- The coroutine this worker has resumed. -/
def resumed? : WorkerPc → Option ℕ
  | .inTask k => some k
  | .exited task => task
  | _ => none

def hasExited : WorkerPc → Bool
  | .exited _ => true
  | _ => false

/-- What `notify_all` does to a worker. -/
def notify : WorkerPc → WorkerPc
  | .sleeping => .notified
  | pc => pc

end WorkerPc

/-- Where the destructor is. -/
inductive DtorPc
  | notBegun
  /-- `stop()` has returned. -/
  | stopped
  /-- Past `notify_all`, with the first `k` threads joined. -/
  | joining (k : ℕ)
  | returned
  deriving DecidableEq, Repr

/-- The destructor is past `notify_all`. -/
def DtorPc.pastNotify : DtorPc → Bool
  | .joining _ => true
  | .returned => true
  | _ => false

structure ThreadPool where
  maxSize : ℕ
  started : Bool
  tasks : List ℕ
  workers : List WorkerPc
  /-- Callers of `switchThread` that have found the queue not full and will enqueue. -/
  suspending : ℕ
  /-- Callers of `enqueue` that have pushed and not yet notified. -/
  notifying : ℕ
  dtor : DtorPc
  /-- Coroutines enqueued so far. -/
  enqueued : ℕ
  /-- Those enqueued before the destructor began. -/
  early : ℕ
  /-- The coroutines the workers have resumed, in that order. -/
  resumed : List ℕ
  deriving DecidableEq, Repr

namespace ThreadPool

/-- The constructor: `thread_num` threads at the beginning of their lambda. -/
def create (threadNum queueSize : ℕ) : ThreadPool where
  maxSize := queueSize
  started := true
  tasks := []
  workers := List.replicate threadNum .start
  suspending := 0
  notifying := 0
  dtor := .notBegun
  enqueued := 0
  early := 0
  resumed := []

def isFull (s : ThreadPool) : Bool := s.maxSize ≤ s.tasks.length

/-- `mtx_` is free. -/
def unlocked (s : ThreadPool) : Bool := s.workers.all fun w => !w.holdsLock

/-- The predicate of `cv_.wait`. -/
def predicate (s : ThreadPool) : Bool := !s.started || !s.tasks.isEmpty

/-- Move worker `i` to `pc`. -/
def move (s : ThreadPool) (i : ℕ) (pc : WorkerPc) : ThreadPool :=
  { s with workers := s.workers.set i pc }

/-- The next step of worker `i`, which is at `pc`. -/
def work (s : ThreadPool) (i : ℕ) : WorkerPc → Option ThreadPool
  | .start => if s.unlocked then some (s.move i .locked) else none
  | .locked => some (s.move i (if s.predicate then .passed else .willSleep))
  | .willSleep => some (s.move i .sleeping)
  | .sleeping => none
  | .notified => if s.unlocked then some (s.move i .locked) else none
  | .passed =>
      match s.tasks with
      | [] => some (s.move i (if s.started then .undefined else .exited none))
      | k :: tasks => some { s.move i (.took k) with tasks := tasks }
  | .took k => some { s.move i (.inTask k) with resumed := s.resumed ++ [k] }
  | .inTask k => some (s.move i (.exited (some k)))
  | .exited _ => none
  | .undefined => none

/-- The push in `enqueue`. -/
def push (s : ThreadPool) : ThreadPool :=
  { s with
    tasks := s.tasks ++ [s.enqueued]
    enqueued := s.enqueued + 1
    early := if s.dtor = .notBegun then s.early + 1 else s.early
    suspending := s.suspending - 1
    notifying := s.notifying + 1 }

/-- The next step of the destructor. -/
def destroy (s : ThreadPool) : Option ThreadPool :=
  match s.dtor with
  | .notBegun => some { s with started := false, dtor := .stopped }
  | .stopped => some { s with workers := s.workers.map WorkerPc.notify, dtor := .joining 0 }
  | .joining k =>
      match s.workers[k]? with
      | none => some { s with dtor := .returned }
      | some w => if w.hasExited then some { s with dtor := .joining (k + 1) } else none
  | .returned => none

inductive Act
  | worker (i : ℕ)
  /-- A spurious wake-up. -/
  | spurious (i : ℕ)
  /-- `await_ready` of a caller of `switchThread`. -/
  | awaitReady
  | enqueue
  /-- `notify_one`, with the worker it wakes. -/
  | notifyOne (i : Option ℕ)
  | stop
  | destroy
  deriving DecidableEq, Repr

/-- One step, of a pool that has not been destroyed. -/
def step (s : ThreadPool) (a : Act) : Option ThreadPool :=
  if s.dtor = .returned then none
  else match a with
    | .worker i => (s.workers[i]?).bind (s.work i)
    | .spurious i => if s.workers[i]? = some .sleeping then some (s.move i .notified) else none
    | .awaitReady => some (if s.isFull then s else { s with suspending := s.suspending + 1 })
    | .enqueue => if s.suspending ≠ 0 ∧ s.unlocked then some s.push else none
    | .notifyOne none =>
        if s.notifying ≠ 0 ∧ .sleeping ∉ s.workers then
          some { s with notifying := s.notifying - 1 }
        else none
    | .notifyOne (some i) =>
        if s.notifying ≠ 0 ∧ s.workers[i]? = some .sleeping then
          some { s.move i .notified with notifying := s.notifying - 1 }
        else none
    | .stop => if s.dtor = .notBegun then some { s with started := false } else none
    | .destroy => s.destroy

/-! ## What can happen -/

/-- The steps, one constructor for each way through `step`. -/
inductive Move (s : ThreadPool) : Act → ThreadPool → Prop
  | lock {i : ℕ} {pc : WorkerPc} (place : s.workers[i]? = some pc)
      (waits : pc = .start ∨ pc = .notified) (free : s.unlocked = true) :
      Move s (.worker i) (s.move i .locked)
  | pass {i : ℕ} (place : s.workers[i]? = some .locked) (holds : s.predicate = true) :
      Move s (.worker i) (s.move i .passed)
  | wait {i : ℕ} (place : s.workers[i]? = some .locked) (fails : s.predicate = false) :
      Move s (.worker i) (s.move i .willSleep)
  | sleep {i : ℕ} (place : s.workers[i]? = some .willSleep) :
      Move s (.worker i) (s.move i .sleeping)
  | leave {i : ℕ} (place : s.workers[i]? = some .passed) (empty : s.tasks = [])
      (stopped : s.started = false) : Move s (.worker i) (s.move i (.exited none))
  | undefined {i : ℕ} (place : s.workers[i]? = some .passed) (empty : s.tasks = [])
      (started : s.started = true) : Move s (.worker i) (s.move i .undefined)
  | take {i k : ℕ} {tasks : List ℕ} (place : s.workers[i]? = some .passed)
      (head : s.tasks = k :: tasks) : Move s (.worker i) { s.move i (.took k) with tasks := tasks }
  | resume {i k : ℕ} (place : s.workers[i]? = some (.took k)) :
      Move s (.worker i) { s.move i (.inTask k) with resumed := s.resumed ++ [k] }
  | finish {i k : ℕ} (place : s.workers[i]? = some (.inTask k)) :
      Move s (.worker i) (s.move i (.exited (some k)))
  | spurious {i : ℕ} (place : s.workers[i]? = some .sleeping) :
      Move s (.spurious i) (s.move i .notified)
  | full (full : s.isFull = true) : Move s .awaitReady s
  | ready (room : s.isFull = false) :
      Move s .awaitReady { s with suspending := s.suspending + 1 }
  | enqueue (caller : s.suspending ≠ 0) (free : s.unlocked = true) : Move s .enqueue s.push
  | notifyNobody (due : s.notifying ≠ 0) (awake : .sleeping ∉ s.workers) :
      Move s (.notifyOne none) { s with notifying := s.notifying - 1 }
  | notifyOne {i : ℕ} (due : s.notifying ≠ 0) (place : s.workers[i]? = some .sleeping) :
      Move s (.notifyOne (.some i)) { s.move i .notified with notifying := s.notifying - 1 }
  | stop (dtor : s.dtor = .notBegun) : Move s .stop { s with started := false }
  | begin (dtor : s.dtor = .notBegun) : Move s .destroy { s with started := false, dtor := .stopped }
  | notifyAll (dtor : s.dtor = .stopped) :
      Move s .destroy { s with workers := s.workers.map WorkerPc.notify, dtor := .joining 0 }
  | join {k : ℕ} {task : Option ℕ} (dtor : s.dtor = .joining k)
      (place : s.workers[k]? = some (.exited task)) :
      Move s .destroy { s with dtor := .joining (k + 1) }
  | joined {k : ℕ} (dtor : s.dtor = .joining k) (all : s.workers[k]? = none) :
      Move s .destroy { s with dtor := .returned }

section

variable {s s' : ThreadPool} {a : Act}

theorem work_move {i : ℕ} {pc : WorkerPc} (place : s.workers[i]? = some pc)
    (h : s.work i pc = some s') : Move s (.worker i) s' := by
  cases pc with
  | start =>
      simp only [work, Option.ite_none_right_eq_some, Option.some.injEq] at h
      exact h.2 ▸ .lock place (.inl rfl) h.1
  | notified =>
      simp only [work, Option.ite_none_right_eq_some, Option.some.injEq] at h
      exact h.2 ▸ .lock place (.inr rfl) h.1
  | locked =>
      simp only [work, Option.some.injEq] at h
      subst h
      by_cases hp : s.predicate = true
      · rw [if_pos hp]
        exact .pass place hp
      · rw [if_neg hp]
        exact .wait place (by simpa using hp)
  | willSleep =>
      simp only [work, Option.some.injEq] at h
      exact h ▸ .sleep place
  | sleeping => simp [work] at h
  | passed =>
      simp only [work] at h
      split at h
      case h_1 hnone =>
        rw [Option.some.injEq] at h
        subst h
        by_cases hstarted : s.started = true
        · rw [if_pos hstarted]
          exact .undefined place hnone hstarted
        · rw [if_neg hstarted]
          exact .leave place hnone (by simpa using hstarted)
      case h_2 hhead =>
        rw [Option.some.injEq] at h
        exact h ▸ .take place hhead
  | took k =>
      simp only [work, Option.some.injEq] at h
      exact h ▸ .resume place
  | inTask k =>
      simp only [work, Option.some.injEq] at h
      exact h ▸ .finish place
  | exited task => simp [work] at h
  | undefined => simp [work] at h

theorem destroy_move (h : s.destroy = some s') : Move s .destroy s' := by
  unfold destroy at h
  split at h
  case h_1 hdtor => exact Option.some.inj h ▸ .begin hdtor
  case h_2 hdtor => exact Option.some.inj h ▸ .notifyAll hdtor
  case h_3 k hdtor =>
    split at h
    case h_1 hnone => exact Option.some.inj h ▸ .joined hdtor hnone
    case h_2 w hsome =>
      rw [Option.ite_none_right_eq_some, Option.some.injEq] at h
      obtain ⟨hexited, rfl⟩ := h
      cases w with
      | exited task => exact .join hdtor hsome
      | _ => cases hexited
  case h_4 => cases h

theorem step_move (h : s.step a = some s') : Move s a s' := by
  unfold step at h
  rw [Option.ite_none_left_eq_some] at h
  replace h := h.2
  cases a with
  | worker i =>
      obtain ⟨pc, place, hwork⟩ := Option.bind_eq_some_iff.mp h
      exact work_move place hwork
  | spurious i =>
      rw [Option.ite_none_right_eq_some, Option.some.injEq] at h
      exact h.2 ▸ .spurious h.1
  | awaitReady =>
      rw [Option.some.injEq] at h
      subst h
      by_cases hfull : s.isFull = true
      · rw [if_pos hfull]
        exact .full hfull
      · rw [if_neg hfull]
        exact .ready (by simpa using hfull)
  | enqueue =>
      rw [Option.ite_none_right_eq_some, Option.some.injEq] at h
      exact h.2 ▸ .enqueue h.1.1 h.1.2
  | notifyOne i =>
      cases i with
      | none =>
          simp only [Option.ite_none_right_eq_some, Option.some.injEq] at h
          exact h.2 ▸ .notifyNobody h.1.1 h.1.2
      | some i =>
          simp only [Option.ite_none_right_eq_some, Option.some.injEq] at h
          exact h.2 ▸ .notifyOne h.1.1 h.1.2
  | stop =>
      rw [Option.ite_none_right_eq_some, Option.some.injEq] at h
      exact h.2 ▸ .stop h.1
  | destroy => exact destroy_move h

end

/-! ## The mutex -/

/-- The workers that hold `mtx_`. -/
def holders (s : ThreadPool) : ℕ := s.workers.countP WorkerPc.holdsLock

/-- **`mtx_` has one holder**, and what a worker has seen of the queue under it is still true. -/
structure Exclusive (s : ThreadPool) : Prop where
  single : s.holders ≤ 1
  passed : .passed ∈ s.workers → s.predicate = true
  defined : .undefined ∉ s.workers

section

variable {s s' : ThreadPool} {a : Act}

theorem create_exclusive (threadNum queueSize : ℕ) : (create threadNum queueSize).Exclusive where
  single := by simp [holders, create, List.countP_replicate, WorkerPc.holdsLock]
  passed := fun h => (by cases List.eq_of_mem_replicate h)
  defined := fun h => (by cases List.eq_of_mem_replicate h)

/-- The holders after a worker has gone on. -/
theorem holders_move {i : ℕ} {pc pc' : WorkerPc} (place : s.workers[i]? = some pc) :
    (s.move i pc').holders =
      s.holders - (if pc.holdsLock then 1 else 0) + if pc'.holdsLock then 1 else 0 := by
  obtain ⟨hi, hget⟩ := List.getElem?_eq_some_iff.mp place
  simp only [holders, move, List.countP_set hi, hget]

/-- A worker that holds the lock is counted. -/
theorem holders_pos {pc : WorkerPc} (hmem : pc ∈ s.workers) (hlock : pc.holdsLock = true) :
    0 < s.holders := List.countP_pos_iff.mpr ⟨pc, hmem, hlock⟩

/-- Worker `i` goes on, the queue and the flag stay. -/
theorem Exclusive.move (hs : s.Exclusive) {i : ℕ} {pc pc' : WorkerPc}
    (place : s.workers[i]? = some pc)
    (hlock : pc'.holdsLock = true → pc.holdsLock = true ∨ s.holders = 0 := by exact nofun)
    (hpassed : pc' = .passed → s.predicate = true := by exact nofun)
    (hdefined : pc' ≠ .undefined := by exact nofun) : (s.move i pc').Exclusive where
  single := by
    have hsingle := hs.single
    rw [holders_move place]
    cases h' : pc'.holdsLock with
    | false =>
        simp only [Bool.false_eq_true, if_false]
        omega
    | true =>
        rcases hlock h' with h | h
        · have := holders_pos (List.mem_of_getElem? place) h
          simp only [h, if_true]
          omega
        · simp only [h, if_true]
          omega
  passed := by
    intro h
    rcases List.mem_or_eq_of_mem_set h with h | h
    · exact hs.passed h
    · exact hpassed h.symm
  defined := by
    intro h
    rcases List.mem_or_eq_of_mem_set h with h | h
    · exact hs.defined h
    · exact hdefined h.symm

/-- Steps that leave the workers where they are. -/
theorem Exclusive.keep {t : ThreadPool} (hs : s.Exclusive)
    (hpredicate : s.predicate = true → t.predicate = true := by exact fun h => h)
    (hworkers : t.workers = s.workers := by rfl) : t.Exclusive where
  single := by
    have h := hs.single
    unfold holders at *
    rwa [hworkers]
  passed := by
    rw [hworkers]
    exact fun h => hpredicate (hs.passed h)
  defined := by
    rw [hworkers]
    exact hs.defined

/-- The only holder pops a task and lets go. -/
theorem Exclusive.take (hs : s.Exclusive) {i k : ℕ} {tasks : List ℕ}
    (place : s.workers[i]? = some .passed) :
    ({ s.move i (.took k) with tasks := tasks } : ThreadPool).Exclusive := by
  have hnone : (s.move i (.took k)).holders = 0 := by
    have hsingle := hs.single
    have hheld := holders_pos (List.mem_of_getElem? place) rfl
    rw [holders_move place]
    show s.holders - 1 + 0 = 0
    omega
  have hmoved : (s.move i (.took k)).Exclusive := hs.move place
  refine ⟨?_, fun h => ?_, hmoved.defined⟩
  · show (s.move i (.took k)).holders ≤ 1
    omega
  · have := holders_pos (s := s.move i (.took k)) h rfl
    omega

theorem notify_holdsLock (w : WorkerPc) : w.notify.holdsLock = w.holdsLock := by
  cases w <;> rfl

theorem mem_map_notify {l : List WorkerPc} {pc : WorkerPc} (hpc : pc ≠ .notified)
    (h : pc ∈ l.map WorkerPc.notify) : pc ∈ l := by
  obtain ⟨w, hw, rfl⟩ := List.mem_map.mp h
  cases w with
  | sleeping => exact absurd rfl hpc
  | _ => exact hw

theorem Move.exclusive (h : Move s a s') (hs : s.Exclusive) : s'.Exclusive := by
  cases h with
  | lock place waits free =>
      refine hs.move place fun _ => .inr ?_
      simpa [holders, unlocked, List.countP_eq_zero] using free
  | pass place holds => exact hs.move place (fun _ => .inl rfl) fun _ => holds
  | wait place => exact hs.move place fun _ => .inl rfl
  | sleep place => exact hs.move place
  | leave place => exact hs.move place
  | undefined place empty started =>
      have hpred := hs.passed (List.mem_of_getElem? place)
      simp [predicate, empty, started] at hpred
  | take place => exact hs.take place
  | resume place => exact Exclusive.keep (s := s.move _ (.inTask _)) (hs.move place)
  | finish place => exact hs.move place
  | spurious place => exact hs.move place
  | full => exact hs
  | ready => exact hs.keep
  | enqueue => exact hs.keep (by simp [predicate, push])
  | notifyNobody => exact hs.keep
  | notifyOne due place => exact Exclusive.keep (s := s.move _ .notified) (hs.move place)
  | stop => exact hs.keep (by simp [predicate])
  | begin => exact hs.keep (by simp [predicate])
  | notifyAll =>
      refine ⟨?_, fun h => hs.passed (mem_map_notify nofun h), fun h => ?_⟩
      · show (s.workers.map WorkerPc.notify).countP WorkerPc.holdsLock ≤ 1
        rw [List.countP_map, show WorkerPc.holdsLock ∘ WorkerPc.notify = WorkerPc.holdsLock from
          funext notify_holdsLock]
        exact hs.single
      · exact hs.defined (mem_map_notify nofun h)
  | join => exact hs.keep
  | joined => exact hs.keep

end

end ThreadPool

end Proactor
