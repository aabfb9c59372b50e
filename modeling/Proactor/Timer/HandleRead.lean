import Proactor.Core.Slots
import Proactor.Core.Transition
import Proactor.Timer.TimerQueue

/-!
# A whole call of `handleRead`

The callbacks of the expired timers add and cancel timers while their own batch is detached from
the queue.  What they do is a parameter of the call: a list of operations for each position of the
batch, any list for any position.

* `TimerLoop` — the queue of a loop, the global sequence counter, and the timers that other threads
  have created and whose `addTimerInLoop` functor has not run yet.
* `TimerCall` — a call of `handleRead` in progress, with the timers it has run and what its
  callbacks have done to the queue.
* `TimerCall.Tracks` — the invariant between two operations of the callbacks.
-/

namespace Proactor

open Transition

structure TimerLoop where
  queue : TimerQueue
  /-- `s_global_sequence_`. -/
  nextSequence : ℕ
  /-- The timers of the queued `addTimerInLoop` functors. -/
  queued : List Timer
  deriving DecidableEq

/-- Something a thread does with timers. -/
inductive TimerOp
  /-- `addTimer` on the loop thread. -/
  | addTimer (addr : ℕ) (expiration interval : ℤ) (repeats : Bool)
  /-- `cancelTimer` on the loop thread. -/
  | cancelTimer (timerId : ActiveTimer)
  /-- `addTimer` on another thread. -/
  | create (addr : ℕ) (expiration interval : ℤ) (repeats : Bool)
  /-- A timer of another loop takes a sequence. -/
  | elsewhere
  deriving DecidableEq, Repr

namespace TimerLoop

def create : TimerLoop := ⟨.create, 0, []⟩

/-- `new Timer`. -/
def newTimer (s : TimerLoop) (addr : ℕ) (expiration interval : ℤ) (repeats : Bool) : Timer :=
  ⟨addr, expiration, interval, repeats, s.nextSequence⟩

def op (s : TimerLoop) : TimerOp → TimerLoop
  | .addTimer addr expiration interval repeats =>
      { s with
        queue := s.queue.addTimerInLoop (s.newTimer addr expiration interval repeats)
        nextSequence := s.nextSequence + 1 }
  | .cancelTimer timerId => { s with queue := s.queue.cancelTimerInLoop timerId }
  | .create addr expiration interval repeats =>
      { s with
        queued := s.queued ++ [s.newTimer addr expiration interval repeats]
        nextSequence := s.nextSequence + 1 }
  | .elsewhere => { s with nextSequence := s.nextSequence + 1 }

end TimerLoop

/-- What a callback has done to the queue. -/
inductive TimerEvent
  | added (t : Timer)
  | cancelled (timerId : ActiveTimer)
  deriving DecidableEq, Repr

/-- A call of `handleRead`. -/
structure TimerCall where
  loop : TimerLoop
  events : List TimerEvent
  /-- The timers whose callback has been called. -/
  ran : List Timer
  deriving DecidableEq

namespace TimerCall

/-- What an operation does to the queue. -/
def eventOf (s : TimerLoop) : TimerOp → List TimerEvent
  | .addTimer addr expiration interval repeats =>
      [.added (s.newTimer addr expiration interval repeats)]
  | .cancelTimer timerId => [.cancelled timerId]
  | .create .. => []
  | .elsewhere => []

/-- One operation while a callback runs. -/
def op (c : TimerCall) (o : TimerOp) : TimerCall :=
  { c with loop := c.loop.op o, events := c.events ++ eventOf c.loop o }

/-- `timers->run()`. -/
def run (c : TimerCall) (t : Timer) (ops : List TimerOp) : TimerCall :=
  ops.foldl op { c with ran := c.ran ++ [t] }

/-- The loop over the batch, with the operations of each callback. -/
def runAll : TimerCall → List Timer → List (List TimerOp) → TimerCall
  | c, [], _ => c
  | c, t :: batch, script => (c.run t (script.headD [])).runAll batch script.tail

end TimerCall

namespace TimerLoop

/-- `TimerQueue::handleRead`. -/
def handleRead (now : ℤ) (script : List (List TimerOp)) (s : TimerLoop) : TimerCall :=
  if s.queue.nothingExpired now then ⟨s, [], []⟩
  else
    let (queue, expired) := s.queue.beginRead now
    let c := TimerCall.runAll ⟨{ s with queue := queue }, [], []⟩ expired script
    { c with loop := { c.loop with queue := c.loop.queue.endRead expired now } }

inductive Act
  | op (o : TimerOp)
  /-- The `addTimerInLoop` functor of the `i`-th queued timer runs. -/
  | addQueued (i : ℕ)
  | handleRead (now : ℤ) (script : List (List TimerOp))
  deriving DecidableEq, Repr

/-- The steps of a loop's timers, with `handleRead` as one step. -/
def step (s : TimerLoop) : Act → Option TimerLoop
  | .op o => some (s.op o)
  | .addQueued i => (s.queued[i]?).map fun t =>
      { s with queue := s.queue.addTimerInLoop t, queued := s.queued.eraseIdx i }
  | .handleRead now script => some (s.handleRead now script).loop

/-! ## Sequences -/

/-- **No sequence is used twice**: in the queue, by a queued functor or in the detached `batch`. -/
structure Coherent (s : TimerLoop) (batch : List Timer) : Prop where
  rep : s.queue.Rep
  queued : (s.queued.map Timer.sequence).Nodup
  detached : (batch.map Timer.sequence).Nodup
  queued_queue : ∀ t ∈ s.queued, ∀ u ∈ s.queue.timers, t.sequence ≠ u.sequence
  batch_queue : ∀ t ∈ batch, ∀ u ∈ s.queue.timers, t.sequence ≠ u.sequence
  batch_queued : ∀ t ∈ batch, ∀ u ∈ s.queued, t.sequence ≠ u.sequence
  bound : ∀ t, t ∈ s.queue.timers ∨ t ∈ s.queued ∨ t ∈ batch → t.sequence < s.nextSequence

section

variable {s : TimerLoop} {batch : List Timer} {t : Timer}

theorem create_coherent : create.Coherent [] where
  rep := TimerQueue.create_rep
  queued := List.nodup_nil
  detached := List.nodup_nil
  queued_queue := nofun
  batch_queue := nofun
  batch_queued := nofun
  bound := by simp [create, TimerQueue.create, TimerQueue.timers]

/-- The order of the functors does not matter. -/
theorem Coherent.keep {s t : TimerLoop} {batch batch' : List Timer} (hs : s.Coherent batch)
    (hqueued : t.queued.Perm s.queued) (hbatch : batch' = batch := by rfl)
    (hqueue : t.queue = s.queue := by rfl) (hnext : t.nextSequence = s.nextSequence := by rfl) :
    t.Coherent batch' := by
  subst hbatch
  have hmem : ∀ u, u ∈ t.queued → u ∈ s.queued := fun u hu => hqueued.mem_iff.mp hu
  refine ⟨?_, (hqueued.map _).nodup_iff.mpr hs.queued, hs.detached, ?_, ?_, ?_, ?_⟩
  · rw [hqueue]
    exact hs.rep
  · rw [hqueue]
    exact fun u hu => hs.queued_queue u (hmem u hu)
  · rw [hqueue]
    exact hs.batch_queue
  · exact fun u hu v hv => hs.batch_queued u hu v (hmem v hv)
  · rw [hqueue, hnext]
    exact fun u hu => hs.bound u (hu.imp_right (Or.imp_left (hmem u)))

theorem sequence_new (h : ∀ u ∈ s.queue.timers, t.sequence ≠ u.sequence) :
    t.sequence ∉ s.queue.timers.map Timer.sequence := by
  intro hmem
  obtain ⟨u, hu, heq⟩ := List.mem_map.mp hmem
  exact h u hu heq.symm

/-- The sequence of the next timer is new. -/
theorem Coherent.fresh (hs : s.Coherent batch) (h : t.sequence = s.nextSequence) :
    t.sequence ∉ s.queue.timers.map Timer.sequence := by
  apply sequence_new
  intro u hu
  have := hs.bound u (.inl hu)
  omega

/-- So is the sequence of a timer whose functor has not run. -/
theorem Coherent.fresh_queued (hs : s.Coherent batch) (ht : t ∈ s.queued) :
    t.sequence ∉ s.queue.timers.map Timer.sequence :=
  sequence_new (hs.queued_queue t ht)

theorem addTimer_coherent (hs : s.Coherent batch) (h : t.sequence = s.nextSequence) :
    ({ s with queue := s.queue.addTimerInLoop t, nextSequence := s.nextSequence + 1 } :
      TimerLoop).Coherent batch := by
  obtain ⟨-, hrep, hmem⟩ := TimerQueue.insert_spec hs.rep (hs.fresh h)
  refine ⟨hrep, hs.queued, hs.detached, ?_, ?_, hs.batch_queued, ?_⟩
  · intro u hu v hv
    rcases (hmem v).mp hv with rfl | hv
    · have := hs.bound u (.inr (.inl hu))
      omega
    · exact hs.queued_queue u hu v hv
  · intro u hu v hv
    rcases (hmem v).mp hv with rfl | hv
    · have := hs.bound u (.inr (.inr hu))
      omega
    · exact hs.batch_queue u hu v hv
  · rintro u (hu | hu)
    · rcases (hmem u).mp hu with rfl | hu
      · exact h ▸ Nat.lt_succ_self _
      · exact Nat.lt_succ_of_lt (hs.bound u (.inl hu))
    · exact Nat.lt_succ_of_lt (hs.bound u (.inr hu))

theorem cancelTimer_coherent (hs : s.Coherent batch) (timerId : ActiveTimer) :
    ({ s with queue := s.queue.cancelTimerInLoop timerId } : TimerLoop).Coherent batch := by
  obtain ⟨hrep, hmem, -, -⟩ := TimerQueue.cancelTimerInLoop_spec hs.rep timerId
  refine ⟨hrep, hs.queued, hs.detached, ?_, ?_, hs.batch_queued, ?_⟩
  · exact fun u hu v hv => hs.queued_queue u hu v ((hmem v).mp hv).1
  · exact fun u hu v hv => hs.batch_queue u hu v ((hmem v).mp hv).1
  · exact fun u hu => hs.bound u (hu.imp_left fun hu => ((hmem u).mp hu).1)

theorem createTimer_coherent (hs : s.Coherent batch) (h : t.sequence = s.nextSequence) :
    ({ s with queued := s.queued ++ [t], nextSequence := s.nextSequence + 1 } :
      TimerLoop).Coherent batch := by
  have hcases : ∀ {u}, u ∈ s.queued ++ [t] → u ∈ s.queued ∨ u = t := by simp
  refine ⟨hs.rep, ?_, hs.detached, ?_, hs.batch_queue, ?_, ?_⟩
  · rw [List.map_append, List.map_singleton, List.nodup_append]
    refine ⟨hs.queued, List.nodup_singleton _, fun a ha b hb => ?_⟩
    obtain ⟨u, hu, rfl⟩ := List.mem_map.mp ha
    have := hs.bound u (.inr (.inl hu))
    rw [List.mem_singleton.mp hb]
    omega
  · intro u hu v hv
    rcases hcases hu with hu | rfl
    · exact hs.queued_queue u hu v hv
    · have := hs.bound v (.inl hv)
      omega
  · intro u hu v hv
    rcases hcases hv with hv | rfl
    · exact hs.batch_queued u hu v hv
    · have := hs.bound u (.inr (.inr hu))
      omega
  · rintro u (hu | hu | hu)
    · exact Nat.lt_succ_of_lt (hs.bound u (.inl hu))
    · rcases hcases hu with hu | rfl
      · exact Nat.lt_succ_of_lt (hs.bound u (.inr (.inl hu)))
      · exact h ▸ Nat.lt_succ_self _
    · exact Nat.lt_succ_of_lt (hs.bound u (.inr (.inr hu)))

theorem op_coherent (hs : s.Coherent batch) (o : TimerOp) : (s.op o).Coherent batch := by
  cases o with
  | addTimer => exact addTimer_coherent hs rfl
  | cancelTimer timerId => exact cancelTimer_coherent hs timerId
  | create => exact createTimer_coherent hs rfl
  | elsewhere =>
      exact ⟨hs.rep, hs.queued, hs.detached, hs.queued_queue, hs.batch_queue, hs.batch_queued,
        fun u hu => Nat.lt_succ_of_lt (hs.bound u hu)⟩

/-- A functor of another thread inserts its timer. -/
theorem addQueued_coherent (hs : s.Coherent batch) {i : ℕ} (hi : s.queued[i]? = some t) :
    ({ s with queue := s.queue.addTimerInLoop t, queued := s.queued.eraseIdx i } :
      TimerLoop).Coherent batch := by
  have ht : t ∈ s.queued := List.mem_of_getElem? hi
  obtain ⟨-, hrep, hmem⟩ := TimerQueue.insert_spec hs.rep (hs.fresh_queued ht)
  have hsub : s.queued.eraseIdx i ⊆ s.queued := (List.eraseIdx_sublist _ _).subset
  refine ⟨hrep, hs.queued.sublist ((List.eraseIdx_sublist _ _).map _), hs.detached, ?_, ?_, ?_, ?_⟩
  · intro u hu v hv
    rcases (hmem v).mp hv with rfl | hv
    · -- the other functors have other sequences
      have hperm := (Slots.eraseIdx_perm hi).map Timer.sequence
      have hnodup := hperm.nodup_iff.mpr hs.queued
      rw [List.map_cons, List.nodup_cons] at hnodup
      intro heq
      exact hnodup.1 (List.mem_map.mpr ⟨u, hu, heq⟩)
    · exact hs.queued_queue u (hsub hu) v hv
  · intro u hu v hv
    rcases (hmem v).mp hv with rfl | hv
    · exact hs.batch_queued u hu v ht
    · exact hs.batch_queue u hu v hv
  · exact fun u hu v hv => hs.batch_queued u hu v (hsub hv)
  · rintro u (hu | hu | hu)
    · rcases (hmem u).mp hu with rfl | hu
      · exact hs.bound u (.inr (.inl ht))
      · exact hs.bound u (.inl hu)
    · exact hs.bound u (.inr (.inl (hsub hu)))
    · exact hs.bound u (.inr (.inr hu))

/-- Detaching the batch. -/
theorem begin_coherent (hs : s.Coherent []) (now : ℤ) :
    ({ s with queue := (s.queue.beginRead now).1 } : TimerLoop).Coherent
      (s.queue.beginRead now).2 := by
  obtain ⟨hrep, hsplit, -, -, -, -⟩ := TimerQueue.beginRead_spec hs.rep now
  have hnodup := hs.rep.distinct
  rw [hsplit, List.map_append, List.nodup_append] at hnodup
  have hexpired : ∀ t ∈ (s.queue.beginRead now).2, t ∈ s.queue.timers := fun t ht =>
    hsplit ▸ List.mem_append_left _ ht
  have hlater : ∀ t ∈ (s.queue.beginRead now).1.timers, t ∈ s.queue.timers := fun t ht =>
    hsplit ▸ List.mem_append_right _ ht
  refine ⟨hrep, hs.queued, hnodup.1, ?_, ?_, ?_, ?_⟩
  · exact fun t ht u hu => hs.queued_queue t ht u (hlater u hu)
  · exact fun t ht u hu => hnodup.2.2 _ (List.mem_map_of_mem ht) _ (List.mem_map_of_mem hu)
  · exact fun t ht u hu => (hs.queued_queue u hu t (hexpired t ht)).symm
  · rintro t (ht | ht | ht)
    · exact hs.bound t (.inl (hlater t ht))
    · exact hs.bound t (.inr (.inl ht))
    · exact hs.bound t (.inl (hexpired t ht))

/-- Putting the repeating timers of the batch back. -/
theorem end_coherent (hs : s.Coherent batch) (now : ℤ) :
    ({ s with queue := s.queue.endRead batch now } : TimerLoop).Coherent [] ∧
      (s.queue.endRead batch now).isRunningCallback = false ∧
      ∀ u, u ∈ (s.queue.endRead batch now).timers ↔ u ∈ s.queue.timers ∨
        ∃ t ∈ batch, t.repeats = true ∧ t.id ∉ s.queue.cancelingTimerSet ∧ u = t.restart now := by
  have hnew : ∀ t ∈ batch, t.sequence ∉ s.queue.timers.map Timer.sequence := fun t ht =>
    sequence_new (hs.batch_queue t ht)
  obtain ⟨hrep, hrunning, hmem⟩ := TimerQueue.endRead_spec hs.rep now hs.detached hnew
  have hsource : ∀ u ∈ (s.queue.endRead batch now).timers,
      ∃ t, (t ∈ s.queue.timers ∨ t ∈ batch) ∧ u.sequence = t.sequence := by
    intro u hu
    rcases (hmem u).mp hu with hu | ⟨t, ht, -, -, rfl⟩
    · exact ⟨u, .inl hu, rfl⟩
    · exact ⟨t, .inr ht, rfl⟩
  refine ⟨⟨hrep, hs.queued, List.nodup_nil, ?_, nofun, nofun, ?_⟩, hrunning, hmem⟩
  · intro t ht u hu
    obtain ⟨v, hv | hv, heq⟩ := hsource u hu
    · exact heq ▸ hs.queued_queue t ht v hv
    · exact heq ▸ (hs.batch_queued v hv t ht).symm
  · rintro t (ht | ht | ht)
    · obtain ⟨v, hv, heq⟩ := hsource t ht
      exact heq ▸ hs.bound v (hv.imp_right .inr)
    · exact hs.bound t (.inr (.inl ht))
    · cases ht

end

end TimerLoop

/-! ## The callbacks of one batch -/

/-- The events add the timer and do not cancel it after that. -/
def Survives (events : List TimerEvent) (t : Timer) : Prop :=
  ∃ before after, events = before ++ .added t :: after ∧ .cancelled t.id ∉ after

section

variable {events : List TimerEvent} {t u : Timer} {timerId : ActiveTimer}

theorem survives_append (e : TimerEvent) :
    Survives (events ++ [e]) t ↔ e = .added t ∨ Survives events t ∧ e ≠ .cancelled t.id := by
  constructor
  · rintro ⟨before, after, heq, hnot⟩
    rcases List.eq_nil_or_concat after with rfl | ⟨after, e', rfl⟩
    · exact .inl (List.cons.inj (List.append_inj' heq rfl).2).1
    · rw [List.concat_eq_append] at heq hnot
      rw [← List.cons_append, ← List.append_assoc] at heq
      obtain ⟨hevents, he⟩ := List.append_inj' heq rfl
      cases he
      rw [List.mem_append, not_or, List.mem_singleton] at hnot
      exact .inr ⟨⟨before, after, hevents, hnot.1⟩, Ne.symm hnot.2⟩
  · rintro (rfl | ⟨⟨before, after, rfl, hnot⟩, hne⟩)
    · exact ⟨events, [], rfl, nofun⟩
    · refine ⟨before, after ++ [e], by simp, ?_⟩
      rw [List.mem_append, not_or, List.mem_singleton]
      exact ⟨hnot, Ne.symm hne⟩

end

namespace TimerCall

/-- **Between two operations of the callbacks**: the queue holds the `later` timers that were not
cancelled and what was added and not cancelled since; of the detached `batch` the cancelled timers
are remembered. -/
structure Tracks (later batch : List Timer) (c : TimerCall) : Prop where
  coherent : c.loop.Coherent batch
  running : c.loop.queue.isRunningCallback = true
  timers : ∀ t, t ∈ c.loop.queue.timers ↔
    t ∈ later ∧ .cancelled t.id ∉ c.events ∨ Survives c.events t
  canceling : ∀ t ∈ batch, t.id ∈ c.loop.queue.cancelingTimerSet ↔ .cancelled t.id ∈ c.events

section

variable {later batch : List Timer} {c : TimerCall}

theorem Tracks.op (hs : c.Tracks later batch) (o : TimerOp) : (c.op o).Tracks later batch := by
  have hcoherent := TimerLoop.op_coherent hs.coherent o
  cases o with
  | addTimer addr expiration interval repeats =>
      obtain ⟨heq, -, hmem⟩ := TimerQueue.insert_spec hs.coherent.rep
        (hs.coherent.fresh (t := c.loop.newTimer addr expiration interval repeats) rfl)
      refine ⟨hcoherent, ?_, fun t => ?_, fun t ht => ?_⟩
      · show (c.loop.queue.insert _).isRunningCallback = true
        rw [heq]
        exact hs.running
      · refine (hmem t).trans ?_
        show _ ↔ t ∈ later ∧ .cancelled t.id ∉ c.events ++ [.added _] ∨
          Survives (c.events ++ [.added _]) t
        rw [hs.timers, survives_append]
        simp only [List.mem_append, List.mem_singleton, reduceCtorEq, or_false, ne_eq,
          not_false_eq_true, and_true, TimerEvent.added.injEq]
        rw [eq_comm, or_left_comm]
      · show t.id ∈ (c.loop.queue.insert _).cancelingTimerSet ↔
          .cancelled t.id ∈ c.events ++ [.added _]
        rw [heq]
        simpa using hs.canceling t ht
  | cancelTimer timerId =>
      obtain ⟨-, hmem, hrunning, hcanceling⟩ :=
        TimerQueue.cancelTimerInLoop_spec hs.coherent.rep timerId
      refine ⟨hcoherent, hrunning.trans hs.running, fun t => ?_, fun t ht => ?_⟩
      · refine (hmem t).trans ?_
        show _ ↔ t ∈ later ∧ .cancelled t.id ∉ c.events ++ [.cancelled timerId] ∨
          Survives (c.events ++ [.cancelled timerId]) t
        rw [hs.timers, survives_append]
        simp only [List.mem_append, List.mem_singleton, reduceCtorEq, false_or, ne_eq,
          TimerEvent.cancelled.injEq, not_or, eq_comm (a := timerId)]
        rw [or_and_right, and_assoc]
      · show t.id ∈ (c.loop.queue.cancelTimerInLoop timerId).cancelingTimerSet ↔
          .cancelled t.id ∈ c.events ++ [.cancelled timerId]
        rw [hcanceling, hs.canceling t ht, List.mem_append, List.mem_singleton,
          TimerEvent.cancelled.injEq]
        refine or_congr_right ⟨fun h => h.1, fun h => ⟨h, hs.running, fun u hu hid => ?_⟩⟩
        -- the batch is detached, so the id is not found in the queue
        exact hs.coherent.batch_queue t ht u hu
          (congrArg ActiveTimer.sequence (h.trans hid.symm))
  | create =>
      refine ⟨hcoherent, hs.running, fun t => ?_, fun t ht => ?_⟩
      · simpa [TimerCall.op, TimerLoop.op, eventOf] using hs.timers t
      · simpa [TimerCall.op, TimerLoop.op, eventOf] using hs.canceling t ht
  | elsewhere =>
      refine ⟨hcoherent, hs.running, fun t => ?_, fun t ht => ?_⟩
      · simpa [TimerCall.op, TimerLoop.op, eventOf] using hs.timers t
      · simpa [TimerCall.op, TimerLoop.op, eventOf] using hs.canceling t ht

/-- An operation runs nobody. -/
theorem foldl_op_ran (ops : List TimerOp) (c : TimerCall) :
    (ops.foldl TimerCall.op c).ran = c.ran := by
  induction ops generalizing c with
  | nil => rfl
  | cons o ops ih => exact ih (c.op o)

theorem Tracks.ops (hs : c.Tracks later batch) (ops : List TimerOp) :
    (ops.foldl TimerCall.op c).Tracks later batch := by
  induction ops generalizing c with
  | nil => exact hs
  | cons o ops ih => exact ih (hs.op o)

/-- **The loop over the batch** runs each of its timers once, in order. -/
theorem Tracks.runAll (hs : c.Tracks later batch) (rest : List Timer)
    (script : List (List TimerOp)) :
    (c.runAll rest script).Tracks later batch ∧ (c.runAll rest script).ran = c.ran ++ rest := by
  induction rest generalizing c script with
  | nil => exact ⟨hs, (List.append_nil _).symm⟩
  | cons t rest ih =>
      have hrun : (c.run t (script.headD [])).Tracks later batch := by
        refine Tracks.ops ?_ _
        exact ⟨hs.coherent, hs.running, hs.timers, hs.canceling⟩
      obtain ⟨htracks, hran⟩ := ih hrun script.tail
      refine ⟨htracks, hran.trans ?_⟩
      rw [run, foldl_op_ran, List.append_assoc]
      rfl

end

end TimerCall

namespace TimerLoop

section

variable {s : TimerLoop} {now : ℤ}

/-- The early return is taken exactly when nothing has expired: the first timer is the earliest. -/
theorem nothingExpired_iff (hs : s.queue.Rep) :
    s.queue.nothingExpired now = true ↔ ∀ t ∈ s.queue.timers, now < t.expiration := by
  unfold TimerQueue.nothingExpired
  cases hlist : s.queue.timerList with
  | nil => simp [TimerQueue.timers, hlist]
  | cons e l =>
      have hmem : e ∈ s.queue.timerList := by simp [hlist]
      have hkey : (ofLex e.1).1 = e.2.expiration := by
        rw [hs.keyed e hmem]
        rfl
      have hinc := hs.increasing
      simp only [TimerQueue.timers, hlist, List.map_cons, List.pairwise_cons] at hinc
      rw [decide_eq_true_iff, hkey]
      constructor
      · intro h t ht
        rw [TimerQueue.timers, hlist, List.map_cons] at ht
        rcases List.mem_cons.mp ht with rfl | ht
        · exact h
        · exact lt_of_lt_of_le h (Prod.Lex.monotone_fst _ _ (le_of_lt (hinc.1 t ht)))
      · intro h
        exact h e.2 (TimerQueue.mem_timers.mpr ⟨e, hmem, rfl⟩)

/-- The call at its first callback. -/
theorem begin_tracks (hs : s.Coherent []) (now : ℤ) :
    (⟨{ s with queue := (s.queue.beginRead now).1 }, [], []⟩ : TimerCall).Tracks
      (s.queue.beginRead now).1.timers (s.queue.beginRead now).2 := by
  obtain ⟨-, -, -, -, hcanceling, hrunning⟩ := TimerQueue.beginRead_spec hs.rep now
  refine ⟨begin_coherent hs now, hrunning, fun t => ?_, fun t _ => ?_⟩
  · simp [Survives]
  · show t.id ∈ (s.queue.beginRead now).1.cancelingTimerSet ↔ _
    simp [hcanceling]

/-- **The end of the call**, from what the callbacks have left. -/
theorem end_tracks {batch later : List Timer} {c : TimerCall} (hs : c.Tracks later batch)
    (now : ℤ) :
    ({ c.loop with queue := c.loop.queue.endRead batch now } : TimerLoop).Coherent [] ∧
      ∀ u, u ∈ (c.loop.queue.endRead batch now).timers ↔
        (u ∈ later ∧ .cancelled u.id ∉ c.events) ∨ Survives c.events u ∨
          ∃ t ∈ batch, t.repeats = true ∧ .cancelled t.id ∉ c.events ∧ u = t.restart now := by
  obtain ⟨hcoherent, -, hmem⟩ := end_coherent hs.coherent now
  refine ⟨hcoherent, fun u => ?_⟩
  rw [hmem, hs.timers, or_assoc]
  refine or_congr_right (or_congr_right (exists_congr fun t => and_congr_right fun ht => ?_))
  rw [hs.canceling t ht]

/-- **What `handleRead` does**, in any state that is not in the middle of a call. -/
theorem handleRead_spec (hs : s.Coherent []) (now : ℤ) (script : List (List TimerOp)) :
    (s.handleRead now script).loop.Coherent [] ∧
    (s.handleRead now script).ran = s.queue.timers.filter (fun t => t.expiration ≤ now) ∧
    ((∀ t ∈ s.queue.timers, now < t.expiration) → s.handleRead now script = ⟨s, [], []⟩) ∧
    ∀ u, u ∈ (s.handleRead now script).loop.queue.timers ↔
      (u ∈ s.queue.timers ∧ now < u.expiration ∧
        .cancelled u.id ∉ (s.handleRead now script).events) ∨
      Survives (s.handleRead now script).events u ∨
      ∃ t ∈ s.queue.timers, t.expiration ≤ now ∧ t.repeats = true ∧
        .cancelled t.id ∉ (s.handleRead now script).events ∧ u = t.restart now := by
  by_cases hnone : s.queue.nothingExpired now = true
  · have hlater := (nothingExpired_iff hs.rep).mp hnone
    have heq : s.handleRead now script = ⟨s, [], []⟩ := by
      rw [handleRead, if_pos hnone]
    rw [heq]
    refine ⟨hs, ?_, fun _ => rfl, fun u => ?_⟩
    · symm
      rw [List.filter_eq_nil_iff]
      intro t ht
      simpa using hlater t ht
    · constructor
      · intro hu
        exact .inl ⟨hu, hlater u hu, nofun⟩
      · rintro (h | h | ⟨t, ht, hexp, -⟩)
        · exact h.1
        · simp [Survives] at h
        · exact absurd (hlater t ht) (not_lt.mpr hexp)
  · obtain ⟨-, hsplit, hexpired, hlater, -, -⟩ := TimerQueue.beginRead_spec hs.rep now
    obtain ⟨htracks, hran⟩ := (begin_tracks hs now).runAll (s.queue.beginRead now).2 script
    obtain ⟨hcoherent, hmem⟩ := end_tracks htracks now
    rw [handleRead, if_neg hnone]
    refine ⟨hcoherent, ?_, fun h => absurd ((nothingExpired_iff hs.rep).mpr h) hnone, fun u => ?_⟩
    · refine hran.trans ?_
      rw [hsplit, List.filter_append, List.filter_eq_self.mpr (by simpa using hexpired),
        List.filter_eq_nil_iff.mpr (by simpa using hlater), List.append_nil]
      rfl
    · have hmemSplit : ∀ t, t ∈ s.queue.timers ↔
          t ∈ (s.queue.beginRead now).2 ∨ t ∈ (s.queue.beginRead now).1.timers := by
        intro t
        rw [hsplit, List.mem_append]
      refine (hmem u).trans (or_congr ?_ (or_congr_right (exists_congr fun t => ?_)))
      · rw [hmemSplit]
        constructor
        · exact fun h => ⟨.inr h.1, hlater u h.1, h.2⟩
        · rintro ⟨hu | hu, hlt, hnot⟩
          · exact absurd hlt (not_lt.mpr (hexpired u hu))
          · exact ⟨hu, hnot⟩
      · rw [hmemSplit]
        constructor
        · exact fun h => ⟨.inl h.1, hexpired t h.1, h.2⟩
        · rintro ⟨ht | ht, hle, hrest⟩
          · exact ⟨ht, hrest⟩
          · exact absurd (hlater t ht) (not_lt.mpr hle)

theorem reach_coherent (run : Reach step anyStep create s) : s.Coherent [] := by
  refine run.invariant (P := fun s => s.Coherent []) create_coherent ?_
  intro s a s' hs _ move
  cases a with
  | op o =>
      simp only [step, Option.some.injEq] at move
      exact move ▸ op_coherent hs o
  | addQueued i =>
      simp only [step, Option.map_eq_some_iff] at move
      obtain ⟨t, hi, rfl⟩ := move
      exact addQueued_coherent hs hi
  | handleRead now script =>
      simp only [step, Option.some.injEq] at move
      exact move ▸ (handleRead_spec hs _ script).1

/-- **`handleRead` refines the ideal timer set.**  In every reachable state and for all callbacks:
each timer of the queue that has expired is run once, in increasing order of (expiration,
sequence), and nothing else is; afterwards the queue holds the later timers that were not
cancelled, the added ones that were not cancelled after that, and the expired repeating ones that
were not cancelled, re-armed.  When nothing has expired nothing changes. -/
theorem handleRead_refines (run : Reach step anyStep create s) (now : ℤ)
    (script : List (List TimerOp)) (c : TimerCall) (hc : c = s.handleRead now script) :
    (∀ t ∈ s.queue.timers, t.expiration ≤ now → c.ran.count t = 1) ∧
    c.ran.Pairwise (fun t u => t.entry < u.entry) ∧
    (∀ t ∈ c.ran, t ∈ s.queue.timers ∧ t.expiration ≤ now) ∧
    (c.ran.map Timer.sequence).Nodup ∧
    c.loop.queue.Rep ∧
    (∀ u, u ∈ c.loop.queue.timers ↔
      (u ∈ s.queue.timers ∧ now < u.expiration ∧ .cancelled u.id ∉ c.events) ∨
      (∃ before after, c.events = before ++ .added u :: after ∧ .cancelled u.id ∉ after) ∨
      ∃ t ∈ s.queue.timers, t.expiration ≤ now ∧ t.repeats = true ∧ .cancelled t.id ∉ c.events ∧
        u = t.restart now) ∧
    ((∀ t ∈ s.queue.timers, now < t.expiration) → c = ⟨s, [], []⟩) := by
  subst hc
  have hs := reach_coherent run
  obtain ⟨hcoherent, hran, hearly, hmem⟩ := handleRead_spec hs now script
  have hsub : (s.queue.timers.filter fun t => t.expiration ≤ now).Sublist s.queue.timers :=
    List.filter_sublist
  refine ⟨fun t ht hexp => ?_, ?_, fun t ht => ?_, ?_, hcoherent.rep, hmem, hearly⟩
  · rw [hran]
    refine List.count_eq_one_of_mem ?_ (List.mem_filter.mpr ⟨ht, by simpa using hexp⟩)
    exact (List.Nodup.of_map _ hs.rep.distinct).sublist hsub
  · rw [hran]
    exact hs.rep.increasing.sublist hsub
  · rw [hran, List.mem_filter] at ht
    exact ⟨ht.1, by simpa using ht.2⟩
  · rw [hran]
    exact hs.rep.distinct.sublist (hsub.map _)

/-- A one-shot and two repeating timers: the callback of the first cancels the third. -/
theorem handleRead_refines_cancelling : ∃ s : TimerLoop, Reach step anyStep create s ∧
    ∃ c, c = s.handleRead 10 [[.cancelTimer ⟨3, 2⟩], [.addTimer 4 30 0 false], []] ∧
      c.loop.queue.timers.map Timer.sequence = [1, 3] ∧
      (∀ t ∈ s.queue.timers, t.expiration ≤ 10 → c.ran.count t = 1) := by
  obtain ⟨s, run, hs⟩ := exists_reach step anyStep create
    [.op (.addTimer 1 5 0 false), .op (.addTimer 2 5 7 true), .op (.create 3 6 7 true),
      .addQueued 0]
    (fun s => (s.handleRead 10 [[.cancelTimer ⟨3, 2⟩], [.addTimer 4 30 0 false], []]
      ).loop.queue.timers.map Timer.sequence = [1, 3]) (by decide +kernel)
  simp only [decide_eq_true_eq] at hs
  exact ⟨s, run, _, rfl, hs, (handleRead_refines run 10 _ _ rfl).1⟩

end

end TimerLoop

end Proactor
