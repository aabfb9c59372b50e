import Proactor.IoUring.EventLoop

/-!
# The thread of a sub-loop

`IoUringLoopThread` (`src/IoUringLoopThread.cc`) runs an `IoUringLoop` on a thread of its own.  Two
threads meet in it: the owner, in `startLoop` and later in the destructor, and the new thread, in
`ThreadFunc`, whose local variable the loop is.  They share `loop_` and `exiting_`, and the owner
reaches into the loop to make it quit.

* `LoopThread.step` — the two of them, the initialisation callback, and everything else that happens
  to the loop.
* `LoopThread.OwnerTurn`, `LoopThread.ThreadTurn`, `LoopThread.Move` — the same, one constructor for
  each way through it.
* `LoopThread.Tracks` — what the shared variables say about where the two threads are.

`quit` stores `quit_` and then writes the eventfd.  The loop may have seen the flag, left and been
destroyed in between, so the second access can come too late (`ThreadFault.deadWake`).
-/

namespace Proactor

open Transition

/-- Where the owner is. -/
inductive OwnerPc
  /-- The object has been constructed. -/
  | fresh
  /-- In `Thread::start`, until the thread has its `tid_`. -/
  | starting
  /-- In `cv_.wait`. -/
  | waiting
  /-- Past the lock, before `return loop_`. -/
  | returning
  | started
  /-- In the destructor, at `loop_!=nullptr`. -/
  | testing
  /-- About to load `loop_` for the call of `quit`. -/
  | loading
  /-- In `quit`, before `quit_=true`. -/
  | storing
  /-- In `quit`, before `wakeUp`. -/
  | waking
  /-- At `thread_!=nullptr`, and in `join`. -/
  | joining
  | finished
  deriving DecidableEq, Repr

/-- Where the new thread is. -/
inductive ThreadPc
  | unborn
  /-- Before `tid_` is set. -/
  | boot
  /-- Before the constructor of the loop. -/
  | construct
  /-- In `call_back_`. -/
  | init
  /-- At `if(!exiting_)`. -/
  | check
  | publish
  /-- In `loop.loop()`. -/
  | looping
  /-- Before `loop_=nullptr`. -/
  | clear
  /-- At the end of `ThreadFunc`, before `~IoUringLoop`. -/
  | unwind
  | done
  deriving DecidableEq, Repr

/-- The owner uses something that is not there. -/
inductive ThreadFault
  /-- `quit` on a null pointer. -/
  | nullLoop
  /-- `quit` on a loop that has been destroyed. -/
  | deadLoop
  /-- The same, and it has gone since `quit` stored the flag. -/
  | deadWake
  deriving DecidableEq, Repr

structure LoopThread (F : Type*) where
  owner : OwnerPc
  thread : ThreadPc
  /-- `tid_` has been set. -/
  tid : Bool
  /-- `loop_` is not null. -/
  loopPtr : Bool
  /-- `exiting_` -/
  exiting : Bool
  /-- The local variable of `ThreadFunc`. -/
  loop : EventLoop F
  /-- It has been constructed and not been destroyed. -/
  alive : Bool
  /-- What `startLoop` has returned is not null. -/
  result : Option Bool
  /-- The destructor has stored its request while `loop()` was starting. -/
  lost : Bool
  fault : Option ThreadFault
  deriving DecidableEq, Repr

/-- Who acts next. -/
inductive LoopThreadAct (F : Type*)
  /-- The owner calls `startLoop`. -/
  | startLoop
  /-- The owner runs the destructor. -/
  | destroy
  /-- The owner's next step in either. -/
  | owner
  /-- The next step of `ThreadFunc`. -/
  | thread (full : Bool)
  /-- `call_back_` queues a functor in the loop. -/
  | initPush (f : F)
  /-- `call_back_` makes the loop quit. -/
  | initQuit
  /-- A step of a callback, of another thread or of the kernel. -/
  | loop (a : EventLoop.Act F)
  deriving DecidableEq, Repr

/-- The next step of `loop()` itself. -/
def EventLoop.Act.advances {F : Type*} : EventLoop.Act F → Bool
  | .advance _ => true
  | _ => false

/-- A store into `quit_`. -/
def EventLoop.Act.quits {F : Type*} : EventLoop.Act F → Bool
  | .selfQuit | .quitStore => true
  | _ => false

namespace LoopThread

variable {F : Type*}

def create (cqesSize : ℕ) : LoopThread F where
  owner := .fresh
  thread := .unborn
  tid := false
  loopPtr := false
  exiting := false
  loop := .create cqesSize
  alive := false
  result := none
  lost := false
  fault := none

/-- The next step of the owner. -/
def ownerStep (s : LoopThread F) : Option (LoopThread F) :=
  match s.owner with
  | .starting => if s.tid then some { s with owner := .waiting } else none
  | .waiting => if s.loopPtr then some { s with owner := .returning } else none
  | .returning => some { s with owner := .started, result := some s.loopPtr }
  | .testing => some { s with owner := if s.loopPtr then .loading else .joining }
  | .loading =>
      some (if s.loopPtr then { s with owner := .storing } else { s with fault := some .nullLoop })
  | .storing =>
      some (if s.alive then
        { s with
          owner := .waking
          lost := s.loop.pc.starting
          loop := { s.loop with quit := true, requested := true } }
        else { s with fault := some .deadLoop })
  | .waking =>
      some (if s.alive then { s with owner := .joining, loop := s.loop.wakeUp }
        else { s with fault := some .deadWake })
  | .joining =>
      if s.thread = .unborn ∨ s.thread = .done then some { s with owner := .finished } else none
  | .fresh | .started | .finished => none

/-- The next step of the new thread. -/
def threadStep (full : Bool) (s : LoopThread F) : Option (LoopThread F) :=
  match s.thread with
  | .boot => some { s with thread := .construct, tid := true }
  | .construct => some { s with thread := .init, alive := true }
  | .init => some { s with thread := .check }
  | .check => some { s with thread := if s.exiting then .unwind else .publish }
  | .publish => some { s with thread := .looping, loopPtr := true }
  | .looping => (s.loop.step (.advance full)).map fun loop =>
      { s with loop := loop, thread := if loop.pc = .outside then .clear else .looping }
  | .clear => some { s with thread := .unwind, loopPtr := false }
  | .unwind => some { s with thread := .done, alive := false }
  | .unborn | .done => none

def step (s : LoopThread F) (a : LoopThreadAct F) : Option (LoopThread F) :=
  if s.fault.isSome then none
  else match a with
    | .startLoop =>
        if s.owner = .fresh then some { s with owner := .starting, thread := .boot } else none
    | .destroy =>
        if s.owner = .fresh ∨ s.owner = .started then
          some { s with owner := .testing, exiting := true }
        else none
    | .owner => s.ownerStep
    | .thread full => s.threadStep full
    | .initPush f =>
        if s.thread = .init then some { s with loop := s.loop.pushPending f } else none
    | .initQuit =>
        if s.thread = .init then
          some { s with loop := { s.loop with quit := true, requested := true } }
        else none
    | .loop a =>
        if s.alive = true ∧ a.advances = false then
          (s.loop.step a).map fun loop => { s with loop := loop }
        else none

end LoopThread

/-- The loop has been constructed and not been destroyed. -/
def ThreadPc.lives : ThreadPc → Bool
  | .init | .check | .publish | .looping | .clear | .unwind => true
  | _ => false

/-- `loop_` points to it. -/
def ThreadPc.shares : ThreadPc → Bool
  | .looping | .clear => true
  | _ => false

def ThreadPc.named : ThreadPc → Bool
  | .unborn | .boot => false
  | _ => true

/-- In the destructor. -/
def OwnerPc.exits : OwnerPc → Bool
  | .testing | .loading | .storing | .waking | .joining | .finished => true
  | _ => false

namespace LoopThread

variable {F : Type*} {s s' : LoopThread F} {a : LoopThreadAct F}

/-- The steps of the owner, one constructor for each way through `ownerStep`. -/
inductive OwnerTurn (s : LoopThread F) : LoopThread F → Prop
  | running (owner : s.owner = .starting) (tid : s.tid = true) :
      OwnerTurn s { s with owner := .waiting }
  | notified (owner : s.owner = .waiting) (ptr : s.loopPtr = true) :
      OwnerTurn s { s with owner := .returning }
  | returned (owner : s.owner = .returning) :
      OwnerTurn s { s with owner := .started, result := some s.loopPtr }
  | found (owner : s.owner = .testing) (ptr : s.loopPtr = true) :
      OwnerTurn s { s with owner := .loading }
  | missing (owner : s.owner = .testing) (ptr : s.loopPtr = false) :
      OwnerTurn s { s with owner := .joining }
  | loaded (owner : s.owner = .loading) (ptr : s.loopPtr = true) :
      OwnerTurn s { s with owner := .storing }
  | nullLoop (owner : s.owner = .loading) (ptr : s.loopPtr = false) :
      OwnerTurn s { s with owner := .loading, fault := some .nullLoop }
  | asked (owner : s.owner = .storing) (alive : s.alive = true) :
      OwnerTurn s { s with
        owner := .waking
        lost := s.loop.pc.starting
        loop := { s.loop with quit := true, requested := true } }
  | deadLoop (owner : s.owner = .storing) (alive : s.alive = false) :
      OwnerTurn s { s with owner := .storing, fault := some .deadLoop }
  | woke (owner : s.owner = .waking) (alive : s.alive = true) :
      OwnerTurn s { s with owner := .joining, loop := s.loop.wakeUp }
  | deadWake (owner : s.owner = .waking) (alive : s.alive = false) :
      OwnerTurn s { s with owner := .waking, fault := some .deadWake }
  | joined (owner : s.owner = .joining) (ended : s.thread = .unborn ∨ s.thread = .done) :
      OwnerTurn s { s with owner := .finished }

theorem ownerStep_turn (h : s.ownerStep = some s') : OwnerTurn s s' := by
  unfold ownerStep at h
  cases howner : s.owner with
  | starting =>
      simp only [howner, Option.ite_none_right_eq_some, Option.some.injEq] at h
      exact h.2 ▸ .running howner h.1
  | waiting =>
      simp only [howner, Option.ite_none_right_eq_some, Option.some.injEq] at h
      exact h.2 ▸ .notified howner h.1
  | joining =>
      simp only [howner, Option.ite_none_right_eq_some, Option.some.injEq] at h
      exact h.2 ▸ .joined howner h.1
  | returning =>
      simp only [howner, Option.some.injEq] at h
      exact h ▸ .returned howner
  | testing =>
      simp only [howner, Option.some.injEq] at h
      subst h
      by_cases hptr : s.loopPtr = true
      · rw [if_pos hptr]
        exact .found howner hptr
      · rw [if_neg hptr]
        exact .missing howner (by simpa using hptr)
  | loading =>
      simp only [howner, Option.some.injEq] at h
      subst h
      split
      case isTrue hptr => exact .loaded howner hptr
      case isFalse hptr => exact .nullLoop howner (by simpa using hptr)
  | storing =>
      simp only [howner, Option.some.injEq] at h
      subst h
      split
      case isTrue halive => exact .asked howner halive
      case isFalse halive => exact .deadLoop howner (by simpa using halive)
  | waking =>
      simp only [howner, Option.some.injEq] at h
      subst h
      split
      case isTrue halive => exact .woke howner halive
      case isFalse halive => exact .deadWake howner (by simpa using halive)
  | fresh => simp [howner] at h
  | started => simp [howner] at h
  | finished => simp [howner] at h

/-- The steps of the new thread. -/
inductive ThreadTurn (full : Bool) (s : LoopThread F) : LoopThread F → Prop
  | boot (thread : s.thread = .boot) :
      ThreadTurn full s { s with thread := .construct, tid := true }
  | construct (thread : s.thread = .construct) :
      ThreadTurn full s { s with thread := .init, alive := true }
  | init (thread : s.thread = .init) : ThreadTurn full s { s with thread := .check }
  | refused (thread : s.thread = .check) (exiting : s.exiting = true) :
      ThreadTurn full s { s with thread := .unwind }
  | passed (thread : s.thread = .check) (exiting : s.exiting = false) :
      ThreadTurn full s { s with thread := .publish }
  | publish (thread : s.thread = .publish) :
      ThreadTurn full s { s with thread := .looping, loopPtr := true }
  | turn {loop : EventLoop F} (thread : s.thread = .looping) (turn : s.loop.Turn full loop)
      (inside : loop.pc ≠ .outside) : ThreadTurn full s { s with loop := loop, thread := .looping }
  | quit {loop : EventLoop F} (thread : s.thread = .looping) (turn : s.loop.Turn full loop)
      (outside : loop.pc = .outside) : ThreadTurn full s { s with loop := loop, thread := .clear }
  | clear (thread : s.thread = .clear) :
      ThreadTurn full s { s with thread := .unwind, loopPtr := false }
  | unwind (thread : s.thread = .unwind) :
      ThreadTurn full s { s with thread := .done, alive := false }

theorem threadStep_turn {full : Bool} (h : s.threadStep full = some s') : ThreadTurn full s s' := by
  unfold threadStep at h
  cases hthread : s.thread with
  | boot => simp only [hthread, Option.some.injEq] at h; exact h ▸ .boot hthread
  | construct => simp only [hthread, Option.some.injEq] at h; exact h ▸ .construct hthread
  | init => simp only [hthread, Option.some.injEq] at h; exact h ▸ .init hthread
  | check =>
      simp only [hthread, Option.some.injEq] at h
      subst h
      by_cases hexiting : s.exiting = true
      · rw [if_pos hexiting]
        exact .refused hthread hexiting
      · rw [if_neg hexiting]
        exact .passed hthread (by simpa using hexiting)
  | publish => simp only [hthread, Option.some.injEq] at h; exact h ▸ .publish hthread
  | looping =>
      simp only [hthread, Option.map_eq_some_iff, EventLoop.step,
        Option.ite_none_left_eq_some] at h
      obtain ⟨loop, ⟨-, hadvance⟩, rfl⟩ := h
      have hturn := EventLoop.advance_turn hadvance
      by_cases hpc : loop.pc = .outside
      · rw [if_pos hpc]
        exact .quit hthread hturn hpc
      · rw [if_neg hpc]
        exact .turn hthread hturn hpc
  | clear => simp only [hthread, Option.some.injEq] at h; exact h ▸ .clear hthread
  | unwind => simp only [hthread, Option.some.injEq] at h; exact h ▸ .unwind hthread
  | unborn => simp [hthread] at h
  | done => simp [hthread] at h

/-- Everything that can happen. -/
inductive Move (s : LoopThread F) : LoopThreadAct F → LoopThread F → Prop
  | startLoop (owner : s.owner = .fresh) :
      Move s .startLoop { s with owner := .starting, thread := .boot }
  | destroy (owner : s.owner = .fresh ∨ s.owner = .started) :
      Move s .destroy { s with owner := .testing, exiting := true }
  | owner {s' : LoopThread F} (turn : OwnerTurn s s') : Move s .owner s'
  | thread {full : Bool} {s' : LoopThread F} (turn : ThreadTurn full s s') :
      Move s (.thread full) s'
  | initPush {f : F} (thread : s.thread = .init) :
      Move s (.initPush f) { s with loop := s.loop.pushPending f }
  | initQuit (thread : s.thread = .init) :
      Move s .initQuit { s with loop := { s.loop with quit := true, requested := true } }
  | loop {a : EventLoop.Act F} {loop : EventLoop F} (alive : s.alive = true)
      (other : a.advances = false) (move : s.loop.Move a loop) :
      Move s (.loop a) { s with loop := loop }

theorem step_move (h : s.step a = some s') : s.fault = none ∧ Move s a s' := by
  unfold step at h
  rw [Option.ite_none_left_eq_some, Bool.not_eq_true, Option.isSome_eq_false_iff,
    Option.isNone_iff_eq_none] at h
  obtain ⟨hfault, h⟩ := h
  refine ⟨hfault, ?_⟩
  cases a with
  | startLoop =>
      simp only [Option.ite_none_right_eq_some, Option.some.injEq] at h
      exact h.2 ▸ .startLoop h.1
  | destroy =>
      simp only [Option.ite_none_right_eq_some, Option.some.injEq] at h
      exact h.2 ▸ .destroy h.1
  | owner => exact .owner (ownerStep_turn h)
  | thread full => exact .thread (threadStep_turn h)
  | initPush f =>
      simp only [Option.ite_none_right_eq_some, Option.some.injEq] at h
      exact h.2 ▸ .initPush h.1
  | initQuit =>
      simp only [Option.ite_none_right_eq_some, Option.some.injEq] at h
      exact h.2 ▸ .initQuit h.1
  | loop a =>
      simp only [Option.ite_none_right_eq_some, Option.map_eq_some_iff] at h
      obtain ⟨⟨halive, hother⟩, loop, hmove, rfl⟩ := h
      exact .loop halive hother (EventLoop.step_move hmove)

/-! ## What the shared variables say -/

structure Tracks (s : LoopThread F) : Prop where
  alive : s.alive = s.thread.lives
  ptr : s.loopPtr = s.thread.shares
  tid : s.tid = s.thread.named
  exiting : s.exiting = s.owner.exits
  fresh : s.owner = .fresh → s.thread = .unborn

theorem tracks_create (cqesSize : ℕ) : (create cqesSize : LoopThread F).Tracks :=
  ⟨rfl, rfl, rfl, rfl, fun _ => rfl⟩

/-- A step of the owner that goes on from one place to another. -/
theorem Tracks.owner (hs : s.Tracks) {t : LoopThread F} (hexits : t.owner.exits = s.owner.exits)
    (hfresh : t.owner ≠ .fresh) (halive : t.alive = s.alive := by rfl)
    (hptr : t.loopPtr = s.loopPtr := by rfl) (htid : t.tid = s.tid := by rfl)
    (hthread : t.thread = s.thread := by rfl) (hexiting : t.exiting = s.exiting := by rfl) :
    t.Tracks where
  alive := by rw [halive, hthread, hs.alive]
  ptr := by rw [hptr, hthread, hs.ptr]
  tid := by rw [htid, hthread, hs.tid]
  exiting := by rw [hexiting, hexits, hs.exiting]
  fresh h := absurd h hfresh

theorem OwnerTurn.tracks (h : OwnerTurn s s') (hs : s.Tracks) : s'.Tracks := by
  cases h with
  | running owner => exact hs.owner (by rw [owner]; rfl) (by simp)
  | notified owner => exact hs.owner (by rw [owner]; rfl) (by simp)
  | returned owner => exact hs.owner (by rw [owner]; rfl) (by simp)
  | found owner => exact hs.owner (by rw [owner]; rfl) (by simp)
  | missing owner => exact hs.owner (by rw [owner]; rfl) (by simp)
  | loaded owner => exact hs.owner (by rw [owner]; rfl) (by simp)
  | nullLoop owner => exact hs.owner (by rw [owner]) (by simp)
  | asked owner => exact hs.owner (by rw [owner]; rfl) (by simp)
  | deadLoop owner => exact hs.owner (by rw [owner]) (by simp)
  | woke owner => exact hs.owner (by rw [owner]; rfl) (by simp)
  | deadWake owner => exact hs.owner (by rw [owner]) (by simp)
  | joined owner => exact hs.owner (by rw [owner]; rfl) (by simp)

theorem ThreadTurn.tracks {full : Bool} (h : ThreadTurn full s s') (hs : s.Tracks) :
    s'.Tracks := by
  obtain ⟨halive, hptr, htid, hexiting, hfresh⟩ := hs
  have hborn : s.thread ≠ .unborn → s.owner ≠ .fresh := fun h howner => h (hfresh howner)
  cases h with
  | boot thread =>
      rw [thread] at halive hptr
      exact ⟨halive, hptr, rfl, hexiting, fun h => absurd h (hborn (by simp [thread]))⟩
  | construct thread =>
      rw [thread] at hptr htid
      exact ⟨rfl, hptr, htid, hexiting, fun h => absurd h (hborn (by simp [thread]))⟩
  | init thread =>
      rw [thread] at halive hptr htid
      exact ⟨halive, hptr, htid, hexiting, fun h => absurd h (hborn (by simp [thread]))⟩
  | refused thread =>
      rw [thread] at halive hptr htid
      exact ⟨halive, hptr, htid, hexiting, fun h => absurd h (hborn (by simp [thread]))⟩
  | passed thread =>
      rw [thread] at halive hptr htid
      exact ⟨halive, hptr, htid, hexiting, fun h => absurd h (hborn (by simp [thread]))⟩
  | publish thread =>
      rw [thread] at halive htid
      exact ⟨halive, rfl, htid, hexiting, fun h => absurd h (hborn (by simp [thread]))⟩
  | turn thread =>
      rw [thread] at halive hptr htid
      exact ⟨halive, hptr, htid, hexiting, fun h => absurd h (hborn (by simp [thread]))⟩
  | quit thread =>
      rw [thread] at halive hptr htid
      exact ⟨halive, hptr, htid, hexiting, fun h => absurd h (hborn (by simp [thread]))⟩
  | clear thread =>
      rw [thread] at halive htid
      exact ⟨halive, rfl, htid, hexiting, fun h => absurd h (hborn (by simp [thread]))⟩
  | unwind thread =>
      rw [thread] at hptr htid
      exact ⟨rfl, hptr, htid, hexiting, fun h => absurd h (hborn (by simp [thread]))⟩

theorem Move.tracks (h : Move s a s') (hs : s.Tracks) : s'.Tracks := by
  cases h with
  | startLoop owner =>
      obtain ⟨halive, hptr, htid, hexiting, hfresh⟩ := hs
      rw [hfresh owner] at halive hptr htid
      rw [owner] at hexiting
      exact ⟨halive, hptr, htid, hexiting, by simp⟩
  | destroy owner => exact ⟨hs.alive, hs.ptr, hs.tid, rfl, by simp⟩
  | owner turn => exact turn.tracks hs
  | thread turn => exact turn.tracks hs
  | initPush => exact ⟨hs.alive, hs.ptr, hs.tid, hs.exiting, hs.fresh⟩
  | initQuit => exact ⟨hs.alive, hs.ptr, hs.tid, hs.exiting, hs.fresh⟩
  | loop => exact ⟨hs.alive, hs.ptr, hs.tid, hs.exiting, hs.fresh⟩

end LoopThread

end Proactor
