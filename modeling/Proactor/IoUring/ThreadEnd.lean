import Proactor.IoUring.LoopThread

/-!
# Starting and ending the thread of a sub-loop

* `LoopThread.OnlyOwner` — the runs in which nobody but the destructor makes the loop quit, as it is
  in the library.
* `LoopThread.Stage` — where the two threads can be in these.
* `owner_finds_loop` — `startLoop` gives out a loop that is there, and the destructor asks a loop
  that is there.
* `destructor_returns_iff` — the destructor can return exactly if it did not store its request
  while `loop()` was starting.
-/

namespace Proactor

open Transition

/-! ## What becomes of a loop that is, or is not, to quit -/

namespace EventLoop

variable {F : Type*} {s s' : EventLoop F} {a : Act F}

/-- Nobody has made the loop quit. -/
structure Stays (s : EventLoop F) : Prop where
  quit : s.quit = false
  pc : s.pc ≠ .leave

/-- A request came while `loop()` was starting, and is or will be overwritten. -/
def Misses (s : EventLoop F) : Prop :=
  s.pc.starting = true ∨ s.Stays ∧ s.pc ≠ .outside

/-- The loop is to quit. -/
structure Goes (s : EventLoop F) : Prop where
  quit : s.quit = true
  pc : s.pc.starting = false

theorem Turn.stays {full : Bool} (h : Turn full s s') (hs : s.Stays) :
    s'.Stays ∧ s'.pc ≠ .outside := by
  obtain ⟨hquit, hpc⟩ := hs
  cases h with
  | refuse pc quit => simp [hquit] at quit
  | stop pc quit => simp [hquit] at quit
  | leave pc => exact absurd pc hpc
  | arm pc => exact ⟨⟨by simpa using hquit, by simp⟩, by simp⟩
  | rearm pc head => exact ⟨⟨by simpa using hquit, by simp⟩, by simp⟩
  | setQuit pc => exact ⟨⟨rfl, by simp⟩, by simp⟩
  | _ => exact ⟨⟨hquit, by simp⟩, by simp⟩

/-- What is not a step of `loop()` and stores no request leaves both alone. -/
theorem Move.quit_pc (h : Move s a s') (hquits : a.quits = false) (hadvances : a.advances = false) :
    s'.quit = s.quit ∧ s'.pc = s.pc := by
  cases h with
  | turn => simp [Act.advances] at hadvances
  | selfQuit => simp [Act.quits] at hquits
  | quitStore => simp [Act.quits] at hquits
  | _ => exact ⟨rfl, rfl⟩

theorem Turn.misses {full : Bool} (h : Turn full s s') (hs : s.Misses) :
    s'.Misses ∧ s'.pc ≠ .outside := by
  rcases hs with hs | ⟨hs, -⟩
  · cases h with
    | arm pc => exact ⟨.inl (by simp [LoopPc.starting]), by simp⟩
    | setLooping pc => exact ⟨.inl rfl, by simp⟩
    | setQuit pc => exact ⟨.inr ⟨⟨rfl, by simp⟩, by simp⟩, by simp⟩
    | _ => simp_all [LoopPc.starting]
  · obtain ⟨hstays, hpc⟩ := h.stays hs
    exact ⟨.inr ⟨hstays, hpc⟩, hpc⟩

theorem Turn.goes {full : Bool} (h : Turn full s s') (hs : s.Goes) : s'.Goes := by
  obtain ⟨hquit, hpc⟩ := hs
  cases h with
  | enter pc quit => simp [hquit] at quit
  | start pc quit => simp [hquit] at quit
  | arm pc => simp [pc, LoopPc.starting] at hpc
  | setLooping pc => simp [pc, LoopPc.starting] at hpc
  | setQuit pc => simp [pc, LoopPc.starting] at hpc
  | rearm pc head => exact ⟨by simpa using hquit, by simp [LoopPc.starting]⟩
  | _ => exact ⟨hquit, rfl⟩

/-- How far a loop that is to quit is from returning. -/
def distance (s : EventLoop F) : ℕ :=
  match s.pc with
  | .outside | .arm | .setLooping | .setQuit | .leave => 1
  | .test => 2
  | .unsetCalling => 3
  | .running => 4 + 2 * s.tasks.length
  | .task => 5 + 2 * s.tasks.length
  | .swap => 5 + 2 * s.pending.length
  | .setCalling => 6 + 2 * s.pending.length
  | .submitWaiting => 7 + 2 * s.pending.length
  | .handling => 8 + 2 * s.pending.length + 2 * s.cqes.length
  | .handler | .timers => 9 + 2 * s.pending.length + 2 * s.cqes.length
  | .peekAgain => 10 + 2 * s.pending.length + 2 * s.cq.length
  | .wait => 11 + 2 * s.pending.length + 2 * s.cq.length
  | .peek => 12 + 2 * s.pending.length + 2 * s.cq.length
  | .submit => 13 + 2 * s.pending.length + 2 * s.cq.length

theorem Turn.nearer {full : Bool} (h : Turn full s s') (hs : s.Goes) :
    s'.pc = .outside ∨ s'.distance < s.distance := by
  obtain ⟨hquit, hpc⟩ := hs
  have htake : (s.cq.take s.cqesSize).length ≤ s.cq.length := List.length_take_le' _ _
  cases h with
  | refuse => exact .inl rfl
  | leave => exact .inl rfl
  | enter pc quit => simp [hquit] at quit
  | start pc quit => simp [hquit] at quit
  | arm pc => simp [pc, LoopPc.starting] at hpc
  | setLooping pc => simp [pc, LoopPc.starting] at hpc
  | setQuit pc => simp [pc, LoopPc.starting] at hpc
  | rearm pc head =>
      right
      cases full <;> simp [distance, onCompletion, ioUringSubmit, pc, head]
  | peekSome pc => right; simp only [distance, pc, peekBatch]; omega
  | peekAgain pc => right; simp only [distance, pc, peekBatch]; omega
  | handle pc head => right; simp only [distance, pc, head, List.length_cons]; omega
  | call pc head => right; simp only [distance, pc, head, List.length_cons]; omega
  | submit pc => right; simp only [distance, pc, ioUringSubmit]; omega
  | handled pc none => right; simp only [distance, pc]; omega
  | batchDone pc none => right; simp only [distance, pc]; omega
  | peekNone pc none => right; simp only [distance, pc]; omega
  | stop pc => right; simp only [distance, pc]; omega
  | wait pc => right; simp only [distance, pc]; omega
  | timers pc => right; simp only [distance, pc]; omega
  | handler pc => right; simp only [distance, pc]; omega
  | submitWaiting pc => right; simp only [distance, pc]; omega
  | setCalling pc => right; simp only [distance, pc]; omega
  | swap pc => right; simp only [distance, pc]; omega
  | returned pc => right; simp only [distance, pc]; omega
  | unsetCalling pc => right; simp only [distance, pc]; omega

theorem distance_pos (s : EventLoop F) : 0 < s.distance := by
  unfold distance
  split <;> omega

theorem Turn.selfWaking_eq {full : Bool} (h : Turn full s s') : s'.selfWaking = s.selfWaking := by
  cases h with
  | arm | rearm => cases full <;> rfl
  | _ => rfl

/-- `loop()` never waits for anybody. -/
theorem advance_isSome (full : Bool) (s : EventLoop F) : ∃ s', s.advance full = some s' := by
  unfold advance
  cases s.pc with
  | test => by_cases hquit : s.quit = true <;> simp [hquit]
  | handling =>
      cases s.cqes with
      | nil => simp
      | cons c _ => cases c <;> simp
  | running => cases s.tasks <;> simp
  | _ => simp

end EventLoop

/-- The thread has been created and has not set `loop_`. -/
def ThreadPc.early : ThreadPc → Bool
  | .boot | .construct | .init | .check | .publish => true
  | _ => false

/-- `loop()` has returned. -/
def ThreadPc.late : ThreadPc → Bool
  | .clear | .unwind | .done => true
  | _ => false

/-- Steps of the new thread until it has published its loop. -/
def ThreadPc.toLoop : ThreadPc → ℕ
  | .boot => 5
  | .construct => 4
  | .init => 3
  | .check => 2
  | .publish => 1
  | _ => 0

/-- Steps of the owner until `startLoop` returns. -/
def OwnerPc.toReturn : OwnerPc → ℕ
  | .starting => 3
  | .waiting => 2
  | .returning => 1
  | _ => 0

namespace LoopThread

variable {F : Type*} {s s' : LoopThread F} {a : LoopThreadAct F}

/-- The guard: only the destructor makes the loop quit. -/
def OnlyOwner (_ : LoopThread F) : LoopThreadAct F → Prop
  | .initQuit => False
  | .loop a => a.quits = false
  | _ => True

/-- The guard: only the owner and the new thread act. -/
def Alone (_ : LoopThread F) : LoopThreadAct F → Prop
  | .owner | .thread _ | .loop .selfWake => True
  | _ => False

/-! ## The stages of its life -/

/-- **Where the two threads are**, when only the destructor makes the loop quit. -/
inductive Stage (s : LoopThread F) : Prop
  | fresh (owner : s.owner = .fresh) (thread : s.thread = .unborn) (lost : s.lost = false)
      (stays : s.loop.Stays)
  /-- The destructor of an object whose `startLoop` has not been called. -/
  | unused (owner : s.owner = .testing ∨ s.owner = .joining ∨ s.owner = .finished)
      (thread : s.thread = .unborn) (lost : s.lost = false)
  | starting (owner : s.owner = .starting ∨ s.owner = .waiting) (thread : s.thread.early = true)
      (stays : s.loop.Stays)
  | published (owner : s.owner = .starting ∨ s.owner = .waiting) (thread : s.thread = .looping)
      (stays : s.loop.Stays)
  | serving (owner : s.owner = .returning ∨ s.owner = .started ∨ s.owner = .testing ∨
      s.owner = .loading ∨ s.owner = .storing) (thread : s.thread = .looping) (stays : s.loop.Stays)
  | lost (owner : s.owner = .waking ∨ s.owner = .joining) (thread : s.thread = .looping)
      (lost : s.lost = true) (misses : s.loop.Misses)
  | leaving (owner : s.owner = .waking ∨ s.owner = .joining) (thread : s.thread = .looping)
      (lost : s.lost = false) (goes : s.loop.Goes)
  | left (owner : s.owner = .waking ∨ s.owner = .joining) (thread : s.thread.late = true)
      (lost : s.lost = false)
  | finished (owner : s.owner = .finished) (thread : s.thread = .done)

theorem stage_create (cqesSize : ℕ) : (create cqesSize : LoopThread F).Stage :=
  .fresh rfl rfl rfl ⟨rfl, by simp [create, EventLoop.create]⟩

/-- A change of the loop that is no step of `loop()` and no request. -/
theorem Stage.same (hs : s.Stage) {l : EventLoop F} (hquit : l.quit = s.loop.quit)
    (hpc : l.pc = s.loop.pc) : ({ s with loop := l } : LoopThread F).Stage := by
  have hstays : s.loop.Stays → l.Stays := fun h => ⟨hquit.trans h.quit, hpc ▸ h.pc⟩
  cases hs with
  | fresh owner thread lost stays => exact .fresh owner thread lost (hstays stays)
  | unused owner thread lost => exact .unused owner thread lost
  | starting owner thread stays => exact .starting owner thread (hstays stays)
  | published owner thread stays => exact .published owner thread (hstays stays)
  | serving owner thread stays => exact .serving owner thread (hstays stays)
  | lost owner thread lost misses =>
      exact .lost owner thread lost (misses.imp (fun h => hpc ▸ h) fun h => ⟨hstays h.1, hpc ▸ h.2⟩)
  | leaving owner thread lost goes =>
      exact .leaving owner thread lost ⟨hquit.trans goes.quit, hpc ▸ goes.pc⟩
  | left owner thread lost => exact .left owner thread lost
  | finished owner thread => exact .finished owner thread

theorem Stage.of_starting (hs : s.Stage) (owner : s.owner = .starting ∨ s.owner = .waiting) :
    (s.thread.early = true ∨ s.thread = .looping) ∧ s.loop.Stays := by
  cases hs with
  | starting _ thread stays => exact ⟨.inl thread, stays⟩
  | published _ thread stays => exact ⟨.inr thread, stays⟩
  | _ => grind

theorem Stage.of_serving (hs : s.Stage) (owner : s.owner = .returning ∨ s.owner = .started ∨
    s.owner = .loading ∨ s.owner = .storing) : s.thread = .looping ∧ s.loop.Stays := by
  cases hs with
  | serving _ thread stays => exact ⟨thread, stays⟩
  | _ => grind

theorem Stage.of_testing (hs : s.Stage) (owner : s.owner = .testing) :
    s.thread = .unborn ∧ s.lost = false ∨ s.thread = .looping ∧ s.loop.Stays := by
  cases hs with
  | unused _ thread lost => exact .inl ⟨thread, lost⟩
  | serving _ thread stays => exact .inr ⟨thread, stays⟩
  | _ => grind

theorem Stage.of_waking (hs : s.Stage) (owner : s.owner = .waking) :
    s.thread = .looping ∧ s.lost = true ∧ s.loop.Misses ∨
      s.thread = .looping ∧ s.lost = false ∧ s.loop.Goes ∨
        s.thread.late = true ∧ s.lost = false := by
  cases hs with
  | lost _ thread lost misses => exact .inl ⟨thread, lost, misses⟩
  | leaving _ thread lost goes => exact .inr (.inl ⟨thread, lost, goes⟩)
  | left _ thread lost => exact .inr (.inr ⟨thread, lost⟩)
  | _ => grind

theorem OwnerTurn.stage (h : OwnerTurn s s') (ht : s.Tracks) (hs : s.Stage) : s'.Stage := by
  have hshared : s.thread = .looping → s.loopPtr = true := fun h => by rw [ht.ptr, h]; rfl
  cases h with
  | running owner =>
      obtain ⟨hthread | hthread, hstays⟩ := hs.of_starting (.inl owner)
      · exact .starting (.inr rfl) hthread hstays
      · exact .published (.inr rfl) hthread hstays
  | notified owner ptr =>
      obtain ⟨hthread | hthread, hstays⟩ := hs.of_starting (.inr owner)
      · rw [ht.ptr] at ptr
        cases hpc : s.thread <;> simp_all [ThreadPc.early, ThreadPc.shares]
      · exact .serving (.inl rfl) hthread hstays
  | returned owner =>
      obtain ⟨hthread, hstays⟩ := hs.of_serving (by simp [owner])
      exact .serving (by simp) hthread hstays
  | found owner ptr =>
      rcases hs.of_testing owner with ⟨hthread, -⟩ | ⟨hthread, hstays⟩
      · rw [ht.ptr, hthread] at ptr
        cases ptr
      · exact .serving (by simp) hthread hstays
  | missing owner ptr =>
      rcases hs.of_testing owner with ⟨hthread, hlost⟩ | ⟨hthread, -⟩
      · exact .unused (by simp) hthread hlost
      · simp [hshared hthread] at ptr
  | loaded owner =>
      obtain ⟨hthread, hstays⟩ := hs.of_serving (by simp [owner])
      exact .serving (by simp) hthread hstays
  | nullLoop owner =>
      obtain ⟨hthread, hstays⟩ := hs.of_serving (by simp [owner])
      exact .serving (by simp) hthread hstays
  | asked owner =>
      obtain ⟨hthread, -⟩ := hs.of_serving (by simp [owner])
      -- the request is overwritten exactly if `loop()` is between its test and its assignment
      cases hstarting : s.loop.pc.starting with
      | true => exact .lost (.inl rfl) hthread rfl (.inl hstarting)
      | false => exact .leaving (.inl rfl) hthread rfl ⟨rfl, hstarting⟩
  | deadLoop owner =>
      obtain ⟨hthread, hstays⟩ := hs.of_serving (by simp [owner])
      exact .serving (by simp) hthread hstays
  | woke owner =>
      rcases hs.of_waking owner with ⟨hthread, hlost, hmisses⟩ | ⟨hthread, hlost, hgoes⟩ |
        ⟨hthread, hlost⟩
      · exact .lost (.inr rfl) hthread hlost (hmisses.imp id fun h => ⟨⟨h.1.quit, h.1.pc⟩, h.2⟩)
      · exact .leaving (.inr rfl) hthread hlost ⟨hgoes.quit, hgoes.pc⟩
      · exact .left (.inr rfl) hthread hlost
  | deadWake owner =>
      rcases hs.of_waking owner with ⟨hthread, hlost, hmisses⟩ | ⟨hthread, hlost, hgoes⟩ |
        ⟨hthread, hlost⟩
      · exact .lost (.inl rfl) hthread hlost hmisses
      · exact .leaving (.inl rfl) hthread hlost hgoes
      · exact .left (.inl rfl) hthread hlost
  | joined owner ended =>
      cases hs with
      | unused _ thread lost => exact .unused (by simp) thread lost
      | left _ thread =>
          refine .finished rfl (ended.resolve_left ?_)
          intro h
          simp [h, ThreadPc.late] at thread
      | _ => grind

/-- The end of `loop()`, seen from the thread. -/
theorem ThreadTurn.stage {full : Bool} (h : ThreadTurn full s s') (ht : s.Tracks) (hs : s.Stage) :
    s'.Stage := by
  have hexits : s.exiting = s.owner.exits := ht.exiting
  cases hs with
  | fresh owner thread => cases h <;> simp_all
  | unused owner thread => cases h <;> simp_all
  | starting owner thread stays =>
      cases h with
      | boot => exact .starting owner rfl stays
      | construct => exact .starting owner rfl stays
      | init => exact .starting owner rfl stays
      | passed => exact .starting owner rfl stays
      | publish => exact .published owner rfl stays
      | refused check exiting =>
          -- the destructor runs only after `startLoop`
          rw [hexits] at exiting
          rcases owner with owner | owner <;> simp [owner, OwnerPc.exits] at exiting
      | turn looping => simp [looping, ThreadPc.early] at thread
      | quit looping => simp [looping, ThreadPc.early] at thread
      | clear cleared => simp [cleared, ThreadPc.early] at thread
      | unwind unwound => simp [unwound, ThreadPc.early] at thread
  | published owner thread stays =>
      cases h with
      | turn _ turn => exact .published owner rfl (turn.stays stays).1
      | quit _ turn outside => exact absurd outside (turn.stays stays).2
      | _ => simp_all
  | serving owner thread stays =>
      cases h with
      | turn _ turn => exact .serving owner rfl (turn.stays stays).1
      | quit _ turn outside => exact absurd outside (turn.stays stays).2
      | _ => simp_all
  | lost owner thread lost misses =>
      cases h with
      | turn _ turn => exact .lost owner rfl lost (turn.misses misses).1
      | quit _ turn outside => exact absurd outside (turn.misses misses).2
      | _ => simp_all
  | leaving owner thread lost goes =>
      cases h with
      | turn _ turn => exact .leaving owner rfl lost (turn.goes goes)
      | quit => exact .left owner rfl lost
      | _ => simp_all
  | left owner thread lost =>
      cases h with
      | clear => exact .left owner rfl lost
      | unwind => exact .left owner rfl lost
      | _ => simp_all [ThreadPc.late]
  | finished owner thread => cases h <;> simp_all

theorem Move.stage (h : Move s a s') (guard : OnlyOwner s a) (ht : s.Tracks) (hs : s.Stage) :
    s'.Stage := by
  cases h with
  | startLoop owner =>
      cases hs with
      | fresh _ _ _ stays => exact .starting (.inl rfl) rfl stays
      | _ => grind
  | destroy owner =>
      rcases owner with owner | owner
      · cases hs with
        | fresh _ thread lost => exact .unused (.inl rfl) thread lost
        | _ => grind
      · obtain ⟨hthread, hstays⟩ := hs.of_serving (by simp [owner])
        exact .serving (by simp) hthread hstays
  | owner turn => exact turn.stage ht hs
  | thread turn => exact turn.stage ht hs
  | initPush => exact hs.same rfl rfl
  | initQuit => exact guard.elim
  | loop alive other move =>
      obtain ⟨hquit, hpc⟩ := move.quit_pc guard other
      exact hs.same hquit hpc

/-- The pointer that `startLoop` returns, and the two faults that do not happen. -/
structure Sound (s : LoopThread F) : Prop where
  tracks : s.Tracks
  stage : s.Stage
  result : s.result ≠ some false
  fault : s.fault = none ∨ s.fault = some .deadWake ∧ s.owner = .waking

theorem sound_create (cqesSize : ℕ) : (create cqesSize : LoopThread F).Sound :=
  ⟨tracks_create _, stage_create _, by simp [create], .inl rfl⟩

theorem OwnerTurn.result (h : OwnerTurn s s') (hs : s.Sound) : s'.result ≠ some false := by
  cases h with
  | returned owner =>
      obtain ⟨hthread, -⟩ := hs.stage.of_serving (.inl owner)
      simp [hs.tracks.ptr, hthread, ThreadPc.shares]
  | _ => exact hs.result

theorem OwnerTurn.fault (h : OwnerTurn s s') (hs : s.Sound) (hfault : s.fault = none) :
    s'.fault = none ∨ s'.fault = some .deadWake ∧ s'.owner = .waking := by
  cases h with
  | nullLoop owner ptr =>
      obtain ⟨hthread, -⟩ := hs.stage.of_serving (by simp [owner])
      simp [hs.tracks.ptr, hthread, ThreadPc.shares] at ptr
  | deadLoop owner alive =>
      obtain ⟨hthread, -⟩ := hs.stage.of_serving (by simp [owner])
      simp [hs.tracks.alive, hthread, ThreadPc.lives] at alive
  | deadWake => exact .inr ⟨rfl, rfl⟩
  | _ => exact .inl hfault

theorem Sound.step (hs : s.Sound) (guard : OnlyOwner s a) (move : s.step a = some s') :
    s'.Sound := by
  obtain ⟨hfault, h⟩ := step_move move
  refine ⟨h.tracks hs.tracks, h.stage guard hs.tracks hs.stage, ?_, ?_⟩
  · cases h with
    | owner turn => exact turn.result hs
    | thread turn => cases turn <;> exact hs.result
    | _ => exact hs.result
  · cases h with
    | owner turn => exact turn.fault hs hfault
    | thread turn => cases turn <;> exact .inl hfault
    | _ => exact .inl hfault

theorem reach_sound {cqesSize : ℕ} (run : Reach step OnlyOwner (create cqesSize) s) : s.Sound :=
  run.invariant (sound_create _) fun _ _ _ hs guard move => hs.step guard move

/-! ## The two threads come to an end -/

theorem step_thread (hfault : s.fault = none) (full : Bool) :
    s.step (.thread full) = s.threadStep full := by
  simp [step, hfault]

theorem step_owner (hfault : s.fault = none) : s.step .owner = s.ownerStep := by
  simp [step, hfault]

theorem Sound.fault_none (hs : s.Sound) (howner : s.owner ≠ .waking) : s.fault = none := by
  rcases hs.fault with h | ⟨-, h⟩
  · exact h
  · exact absurd h howner

theorem early_step (hfault : s.fault = none) (hexiting : s.exiting = false)
    (hearly : s.thread.early = true) : ∃ t, s.step (.thread false) = some t ∧ t.owner = s.owner ∧
      t.thread.toLoop < s.thread.toLoop := by
  rw [step_thread hfault, threadStep]
  cases hthread : s.thread with
  | boot => exact ⟨_, rfl, rfl, by simp [ThreadPc.toLoop]⟩
  | construct => exact ⟨_, rfl, rfl, by simp [ThreadPc.toLoop]⟩
  | init => exact ⟨_, rfl, rfl, by simp [ThreadPc.toLoop]⟩
  | check => exact ⟨_, rfl, rfl, by simp [hexiting, ThreadPc.toLoop]⟩
  | publish => exact ⟨_, rfl, rfl, by simp [ThreadPc.toLoop]⟩
  | _ => simp [hthread, ThreadPc.early] at hearly

/-- The owner gets its pointer. -/
theorem startLoop_returns (hs : s.Sound)
    (howner : s.owner = .starting ∨ s.owner = .waiting ∨ s.owner = .returning) :
    ∃ s', Reach step Alone s s' ∧ s'.owner = .started := by
  refine exists_reach_of_rank (P := fun s => s.Sound ∧
    (s.owner = .starting ∨ s.owner = .waiting ∨ s.owner = .returning))
    (fun s => s.owner.toReturn + s.thread.toLoop) ?_ ⟨hs, howner⟩
  rintro s ⟨hs, howner⟩
  have hfault : s.fault = none := hs.fault_none (by rintro h; simp [h] at howner)
  have hexiting : s.exiting = false := by
    rw [hs.tracks.exiting]
    rcases howner with h | h | h <;> rw [h] <;> rfl
  by_cases hearly : s.thread.early = true
  · obtain ⟨t, hmove, ht, hlt⟩ := early_step hfault hexiting hearly
    have hsound : t.Sound := hs.step (a := .thread false) trivial hmove
    refine ⟨.thread false, t, trivial, hmove, .inr ⟨⟨hsound, by rwa [ht]⟩, ?_⟩⟩
    rw [ht]
    omega
  · have hthread : s.thread = .looping := by
      rcases howner with h | h | h
      · exact ((hs.stage.of_starting (.inl h)).1).resolve_left hearly
      · exact ((hs.stage.of_starting (.inr h)).1).resolve_left hearly
      · exact (hs.stage.of_serving (.inl h)).1
    have htid : s.tid = true := by rw [hs.tracks.tid, hthread]; rfl
    have hptr : s.loopPtr = true := by rw [hs.tracks.ptr, hthread]; rfl
    obtain ⟨t, hmove, ht⟩ : ∃ t, s.step .owner = some t ∧ (t.owner = .started ∨
        (t.owner = .waiting ∨ t.owner = .returning) ∧
          t.owner.toReturn + t.thread.toLoop < s.owner.toReturn + s.thread.toLoop) := by
      rw [step_owner hfault, ownerStep]
      rcases howner with h | h | h <;> simp only [h]
      · exact ⟨_, if_pos htid, .inr ⟨.inl rfl, by simp [OwnerPc.toReturn]⟩⟩
      · exact ⟨_, if_pos hptr, .inr ⟨.inr rfl, by simp [OwnerPc.toReturn]⟩⟩
      · exact ⟨_, rfl, .inl rfl⟩
    have hsound : t.Sound := hs.step (a := .owner) trivial hmove
    exact ⟨.owner, t, trivial, hmove, ht.imp id fun h => ⟨⟨hsound, .inr h.1⟩, h.2⟩⟩

/-- Steps of the new thread until it has ended. -/
def toEnd (s : LoopThread F) : ℕ :=
  match s.thread with
  | .looping => 2 * s.loop.distance + s.loop.selfWaking.toNat + 2
  | .clear => 2
  | .unwind => 1
  | _ => 0

/-- A step of the new thread towards its end. -/
theorem ending_step (hfault : s.fault = none) (halive : s.alive = s.thread.lives)
    (h : s.thread = .looping ∧ s.loop.Goes ∨ s.thread = .clear ∨ s.thread = .unwind) :
    ∃ a t, Alone s a ∧ OnlyOwner s a ∧ s.step a = some t ∧ t.owner = s.owner ∧ t.lost = s.lost ∧
      t.toEnd < s.toEnd := by
  rcases h with ⟨hthread, hgoes⟩ | hthread | hthread
  · cases hself : s.loop.selfWaking with
    | true =>
        -- a callback is in the middle of `queueInLoop`
        refine ⟨.loop .selfWake, { s with loop := { s.loop.wakeUp with selfWaking := false } },
          trivial, rfl, ?_, rfl, rfl, ?_⟩
        · simp [step, hfault, halive, hthread, ThreadPc.lives, EventLoop.Act.advances,
            EventLoop.step, hself]
        · simp [toEnd, hthread, hself, EventLoop.distance, EventLoop.wakeUp]
    | false =>
        obtain ⟨l, hl⟩ := s.loop.advance_isSome false
        have hturn := EventLoop.advance_turn hl
        have hpos := s.loop.distance_pos
        refine ⟨.thread false,
          { s with loop := l, thread := if l.pc = .outside then .clear else .looping },
          trivial, trivial, ?_, rfl, rfl, ?_⟩
        · simp [step_thread hfault, threadStep, hthread, EventLoop.step, hself, hl]
        · rcases hturn.nearer hgoes with hpc | hlt
          · simp only [toEnd, hpc, hthread, if_true]
            omega
          · have hleft : ({ s with
                loop := l
                thread := if l.pc = .outside then .clear else .looping } : LoopThread F).toEnd
                ≤ 2 * l.distance + 2 := by
              simp only [toEnd]
              split <;> simp_all [hturn.selfWaking_eq]
            have : s.toEnd = 2 * s.loop.distance + 2 := by simp [toEnd, hthread, hself]
            omega
  · exact ⟨.thread false, { s with thread := .unwind, loopPtr := false }, trivial, trivial,
      by simp [step_thread hfault, threadStep, hthread], rfl, rfl, by simp [toEnd, hthread]⟩
  · exact ⟨.thread false, { s with thread := .done, alive := false }, trivial, trivial,
      by simp [step_thread hfault, threadStep, hthread], rfl, rfl, by simp [toEnd, hthread]⟩

/-- The thread comes to the end of `ThreadFunc` and the owner joins it. -/
theorem destructor_returns (hs : s.Sound) (howner : s.owner = .joining)
    (hlost : s.lost = false) : ∃ s', Reach step Alone s s' ∧ s'.owner = .finished := by
  refine exists_reach_of_rank (P := fun s => s.Sound ∧ s.owner = .joining ∧ s.lost = false)
    toEnd ?_ ⟨hs, howner, hlost⟩
  rintro s ⟨hs, howner, hlost⟩
  have hfault : s.fault = none := hs.fault_none (by simp [howner])
  have hcases : (s.thread = .unborn ∨ s.thread = .done) ∨
      (s.thread = .looping ∧ s.loop.Goes ∨ s.thread = .clear ∨ s.thread = .unwind) := by
    cases hs.stage with
    | unused _ thread => exact .inl (.inl thread)
    | leaving _ thread _ goes => exact .inr (.inl ⟨thread, goes⟩)
    | left _ thread => cases hthread : s.thread <;> simp_all [ThreadPc.late]
    | lost _ _ lost => simp [hlost] at lost
    | _ => grind
  rcases hcases with hended | hending
  · refine ⟨.owner, { s with owner := .finished }, trivial, ?_, .inl rfl⟩
    simp [step_owner hfault, ownerStep, howner, hended]
  · obtain ⟨a, t, hguard, honly, hmove, ht, htl, hlt⟩ := ending_step hfault hs.tracks.alive hending
    exact ⟨a, t, hguard, hmove,
      .inr ⟨⟨hs.step honly hmove, ht.trans howner, htl.trans hlost⟩, hlt⟩⟩

/-- **A request that came too early is never heard**, and the owner waits for ever. -/
theorem lost_waits (hs : s.Sound) (howner : s.owner = .joining) (hlost : s.lost = true)
    (later : Reach step OnlyOwner s s') : s'.owner ≠ .finished := by
  have hlater := later.invariant (P := fun t => t.Sound ∧ t.owner = .joining ∧ t.lost = true)
    ⟨hs, howner, hlost⟩ ?_
  · simp [hlater.2.1]
  · rintro t a t' ⟨ht, htowner, htlost⟩ guard move
    have hthread : t.thread = .looping := by
      cases ht.stage with
      | lost _ thread => exact thread
      | _ => grind
    refine ⟨ht.step guard move, ?_⟩
    cases (step_move move).2 with
    | owner turn => cases turn <;> simp_all
    | thread turn => cases turn <;> exact ⟨htowner, htlost⟩
    | startLoop owner => simp [htowner] at owner
    | destroy owner => simp [htowner] at owner
    | _ => exact ⟨htowner, htlost⟩

/-- **What the owner gets and asks.**  When nobody else makes the loop quit, a call of `startLoop`
can always return, and the pointer it returns is not null; the loop is there from then on, through
the test of the destructor, until that has asked it to quit.  The destructor reads no null pointer
and stores its request in a loop that is there; when it has returned, the thread has ended and the
loop is gone.  So the branch of `ThreadFunc` for a thread that comes too late is never taken. -/
theorem owner_finds_loop {cqesSize : ℕ} (run : Reach step OnlyOwner (create cqesSize) s) :
    s.fault ≠ some .nullLoop ∧ s.fault ≠ some .deadLoop ∧ s.result ≠ some false ∧
    (s.owner = .starting ∨ s.owner = .waiting ∨ s.owner = .returning →
      ∃ s', Reach step Alone s s' ∧ s'.owner = .started) ∧
    (s.owner = .started ∨ s.owner = .testing ∧ s.thread ≠ .unborn ∨ s.owner = .loading ∨
      s.owner = .storing → s.alive = true ∧ s.loopPtr = true ∧ s.thread = .looping) ∧
    (s.owner = .finished →
      s.alive = false ∧ s.loopPtr = false ∧ (s.thread = .unborn ∨ s.thread = .done)) ∧
    (s.thread = .check → s.exiting = false) := by
  have hs := reach_sound run
  refine ⟨?_, ?_, hs.result, startLoop_returns hs, ?_, ?_, ?_⟩
  · rcases hs.fault with h | ⟨h, -⟩ <;> simp [h]
  · rcases hs.fault with h | ⟨h, -⟩ <;> simp [h]
  · intro howner
    have hthread : s.thread = .looping := by
      rcases howner with howner | ⟨howner, hborn⟩ | howner
      · exact (hs.stage.of_serving (.inr (.inl howner))).1
      · rcases hs.stage.of_testing howner with ⟨hunborn, -⟩ | ⟨hthread, -⟩
        · exact absurd hunborn hborn
        · exact hthread
      · exact (hs.stage.of_serving (.inr (.inr howner))).1
    exact ⟨by rw [hs.tracks.alive, hthread]; rfl, by rw [hs.tracks.ptr, hthread]; rfl, hthread⟩
  · intro howner
    have hended : s.thread = .unborn ∨ s.thread = .done := by
      cases hs.stage with
      | unused _ thread => exact .inl thread
      | finished _ thread => exact .inr thread
      | _ => grind
    refine ⟨?_, ?_, hended⟩
    · rw [hs.tracks.alive]
      rcases hended with h | h <;> rw [h] <;> rfl
    · rw [hs.tracks.ptr]
      rcases hended with h | h <;> rw [h] <;> rfl
  · intro hcheck
    rw [hs.tracks.exiting]
    cases hs.stage with
    | starting owner => rcases owner with h | h <;> rw [h] <;> rfl
    | _ => simp_all [ThreadPc.late]

instance (s : LoopThread F) : (a : LoopThreadAct F) → Decidable (OnlyOwner s a)
  | .initQuit => inferInstanceAs (Decidable False)
  | .loop a => inferInstanceAs (Decidable (a.quits = false))
  | .startLoop | .destroy | .owner | .thread _ | .initPush _ => inferInstanceAs (Decidable True)

/-- `startLoop`, up to its return. -/
def startup : List (LoopThreadAct ℕ) :=
  [.startLoop, .thread false, .owner, .thread false, .initPush 7, .thread false, .thread false,
    .thread false, .owner, .owner]

theorem owner_finds_loop_started : ∃ s : LoopThread ℕ,
    Reach step OnlyOwner (create 8) s ∧ s.owner = .started ∧ s.result = some true ∧
      s.thread = .looping := by
  obtain ⟨s, run, hs⟩ := exists_reach step OnlyOwner (create 8 : LoopThread ℕ) startup
    (fun s => s.owner = .started ∧ s.result = some true) (by decide +kernel)
  simp only [decide_eq_true_eq] at hs
  exact ⟨s, run, hs.1, hs.2, ((owner_finds_loop run).2.2.2.2.1 (.inl hs.1)).2.2⟩

/-- The loop has seen the flag, left and been destroyed before `quit` writes the eventfd. -/
example : (exec (guarded step OnlyOwner) (create 8 : LoopThread ℕ)
    (startup ++ [.destroy, .owner, .owner, .owner, .thread false, .thread false, .thread false,
      .owner])).any (fun s => s.fault = some .deadWake) = true := by
  decide +kernel

/-- **When the destructor returns.**  Only the owner makes the loop quit.  Once its destructor has
come to `join`, the owner and the new thread get to the end by themselves if the request was not
stored while `loop()` was starting; if it was, no continuation in which nobody else makes the loop
quit lets the destructor return. -/
theorem destructor_returns_iff {cqesSize : ℕ} (run : Reach step OnlyOwner (create cqesSize) s)
    (howner : s.owner = .joining) :
    (s.lost = false → ∃ s', Reach step Alone s s' ∧ s'.owner = .finished) ∧
    (s.lost = true → ∀ s', Reach step OnlyOwner s s' → s'.owner ≠ .finished) :=
  ⟨destructor_returns (reach_sound run) howner,
    fun hlost _ later => lost_waits (reach_sound run) howner hlost later⟩

/-- The destructor of an idle loop, and one that comes when `loop()` has just been entered. -/
theorem destructor_returns_iff_both :
    (∃ s : LoopThread ℕ, Reach step OnlyOwner (create 8) s ∧ s.owner = .joining ∧
      ∃ s', Reach step Alone s s' ∧ s'.owner = .finished) ∧
    ∃ s : LoopThread ℕ, Reach step OnlyOwner (create 8) s ∧ s.owner = .joining ∧
      ∀ s', Reach step OnlyOwner s s' → s'.owner ≠ .finished := by
  constructor
  · obtain ⟨s, run, hs⟩ := exists_reach step OnlyOwner (create 8 : LoopThread ℕ)
      (startup ++ List.replicate 7 (.thread false) ++ [.destroy, .owner, .owner, .owner, .owner])
      (fun s => s.owner = .joining ∧ s.lost = false) (by decide +kernel)
    simp only [decide_eq_true_eq] at hs
    exact ⟨s, run, hs.1, (destructor_returns_iff run hs.1).1 hs.2⟩
  · obtain ⟨s, run, hs⟩ := exists_reach step OnlyOwner (create 8 : LoopThread ℕ)
      (startup ++ [.thread false, .destroy, .owner, .owner, .owner, .owner])
      (fun s => s.owner = .joining ∧ s.lost = true) (by decide +kernel)
    simp only [decide_eq_true_eq] at hs
    exact ⟨s, run, hs.1, (destructor_returns_iff run hs.1).2 hs.2⟩

end LoopThread

end Proactor
