import Proactor.Timer.HandleRead

/-!
# Cancelling a timer

`handleRead` here is cut between any two callbacks, and the loop runs the `addTimerInLoop` and
`cancelTimerInLoop` functors of other threads in the order in which they were queued.  A timer is in
the queue, in the batch that is being run, or still in a functor; `cancelTimerInLoop` looks for it
in the queue and remembers it while a batch is run.

* `TimerRun` — the timers of a loop, the functors of other threads, and the batch.
* `TimerRun.Move` — what one step can do to them.
* `TimerRun.CancelReaches` — the cancellations that find their timer in the queue, or in the part
  of the batch that has been run.
* `TimerRun.Effective` — what such cancellations achieve.
-/

namespace Proactor

open Transition

/-- A functor that another thread has queued. -/
inductive TimerFunctor
  | add (t : Timer)
  | cancel (timerId : ActiveTimer)
  deriving DecidableEq, Repr

def TimerFunctor.add? : TimerFunctor → Option Timer
  | .add t => some t
  | .cancel _ => none

/-- A batch of expired timers: those whose callback has been called, and those to come. -/
structure TimerBatch where
  now : ℤ
  started : List Timer
  waiting : List Timer
  deriving DecidableEq

structure TimerRun where
  queue : TimerQueue
  nextSequence : ℕ
  functors : List TimerFunctor
  batch : Option TimerBatch
  /-- The ids `addTimer` has returned. -/
  issued : List ActiveTimer
  /-- The ids for which `cancelTimerInLoop` has returned. -/
  cancelled : List ActiveTimer
  /-- The ids whose callback was called after that. -/
  late : List ActiveTimer
  deriving DecidableEq

namespace TimerRun

def create : TimerRun where
  queue := .create
  nextSequence := 0
  functors := []
  batch := none
  issued := []
  cancelled := []
  late := []

def started (s : TimerRun) : List Timer := (s.batch.map TimerBatch.started).getD []

def waiting (s : TimerRun) : List Timer := (s.batch.map TimerBatch.waiting).getD []

/-- The timers as `HandleRead` sees them. -/
def toLoop (s : TimerRun) : TimerLoop :=
  ⟨s.queue, s.nextSequence, s.functors.filterMap TimerFunctor.add?⟩

/-- The timers as `HandleRead` sees them, with those whose functor is still to be queued. -/
def toLoopWith (s : TimerRun) (created : List Timer) : TimerLoop :=
  { s.toLoop with queued := created ++ s.toLoop.queued }

/-- The loop thread runs code of the user: during a batch, that of a callback. -/
def onLoop (s : TimerRun) : Bool := s.batch = none ∨ s.started ≠ []

/-- `runAt`, `runAfter` and `runEveny` are `addTimer`; `…From` is the same call on another
thread. -/
inductive Act
  | addTimer (addr : ℕ) (expiration interval : ℤ) (repeats : Bool)
  | addTimerFrom (addr : ℕ) (expiration interval : ℤ) (repeats : Bool)
  | cancelTimer (timerId : ActiveTimer)
  | cancelTimerFrom (timerId : ActiveTimer)
  /-- A timer of another loop takes a sequence. -/
  | elsewhere
  | runFunctor
  | beginRead (now : ℤ)
  | runNext
  | endRead
  deriving DecidableEq, Repr

def addInLoop (s : TimerRun) (t : Timer) : TimerRun := { s with queue := s.queue.addTimerInLoop t }

def cancelInLoop (s : TimerRun) (timerId : ActiveTimer) : TimerRun :=
  { s with
    queue := s.queue.cancelTimerInLoop timerId
    cancelled := s.cancelled ++ [timerId] }

/-- `new Timer` takes the next sequence, and `addTimer` returns its id. -/
def issue (s : TimerRun) (t : Timer) : TimerRun :=
  { s with nextSequence := s.nextSequence + 1, issued := s.issued ++ [t.id] }

def runFunctor (s : TimerRun) : Option TimerRun :=
  match s.functors with
  | [] => none
  | .add t :: functors => some (({ s with functors := functors } : TimerRun).addInLoop t)
  | .cancel timerId :: functors =>
      some (({ s with functors := functors } : TimerRun).cancelInLoop timerId)

def runNext (s : TimerRun) : Option TimerRun :=
  match s.batch with
  | some ⟨now, started, t :: waiting⟩ =>
      some { s with
        batch := some ⟨now, started ++ [t], waiting⟩
        late := if t.id ∈ s.cancelled then s.late ++ [t.id] else s.late }
  | _ => none

def endRead (s : TimerRun) : Option TimerRun :=
  match s.batch with
  | some ⟨now, started, []⟩ => some { s with queue := s.queue.endRead started now, batch := none }
  | _ => none

def step (s : TimerRun) : Act → Option TimerRun
  | .addTimer addr expiration interval repeats =>
      let t := s.toLoop.newTimer addr expiration interval repeats
      if s.onLoop then some ((s.addInLoop t).issue t) else none
  | .addTimerFrom addr expiration interval repeats =>
      let t := s.toLoop.newTimer addr expiration interval repeats
      some (({ s with functors := s.functors ++ [.add t] } : TimerRun).issue t)
  | .cancelTimer timerId =>
      if s.onLoop ∧ timerId ∈ s.issued then some (s.cancelInLoop timerId) else none
  | .cancelTimerFrom timerId =>
      if timerId ∈ s.issued then some { s with functors := s.functors ++ [.cancel timerId] }
      else none
  | .elsewhere => some { s with nextSequence := s.nextSequence + 1 }
  | .runFunctor => if s.batch = none then s.runFunctor else none
  | .beginRead now =>
      if s.batch = none ∧ s.queue.nothingExpired now = false then
        some { s with
          queue := (s.queue.beginRead now).1
          batch := some ⟨now, [], (s.queue.beginRead now).2⟩ }
      else none
  | .runNext => s.runNext
  | .endRead => s.endRead

/-! ## What one step can do -/

/-- The ways in which a step can end. -/
inductive Move (s : TimerRun) : Act → TimerRun → Prop
  | addTimer {addr expiration interval repeats t} (new : t.sequence = s.nextSequence) :
      Move s (.addTimer addr expiration interval repeats) ((s.addInLoop t).issue t)
  | addTimerFrom {addr expiration interval repeats t} (new : t.sequence = s.nextSequence) :
      Move s (.addTimerFrom addr expiration interval repeats)
        (({ s with functors := s.functors ++ [.add t] } : TimerRun).issue t)
  | cancelTimer {timerId} (known : timerId ∈ s.issued) :
      Move s (.cancelTimer timerId) (s.cancelInLoop timerId)
  | cancelTimerFrom {timerId} (known : timerId ∈ s.issued) :
      Move s (.cancelTimerFrom timerId) { s with functors := s.functors ++ [.cancel timerId] }
  | elsewhere : Move s .elsewhere { s with nextSequence := s.nextSequence + 1 }
  | runAdd {t functors} (idle : s.batch = none) (head : s.functors = .add t :: functors) :
      Move s .runFunctor (({ s with functors := functors } : TimerRun).addInLoop t)
  | runCancel {timerId functors} (idle : s.batch = none)
      (head : s.functors = .cancel timerId :: functors) :
      Move s .runFunctor (({ s with functors := functors } : TimerRun).cancelInLoop timerId)
  | beginRead {now} (idle : s.batch = none) : Move s (.beginRead now)
      { s with
        queue := (s.queue.beginRead now).1
        batch := some ⟨now, [], (s.queue.beginRead now).2⟩ }
  | runNext {now started t waiting} (batch : s.batch = some ⟨now, started, t :: waiting⟩) :
      Move s .runNext { s with
        batch := some ⟨now, started ++ [t], waiting⟩
        late := if t.id ∈ s.cancelled then s.late ++ [t.id] else s.late }
  | endRead {now started} (batch : s.batch = some ⟨now, started, []⟩) :
      Move s .endRead { s with queue := s.queue.endRead started now, batch := none }

theorem runFunctor_move {s s' : TimerRun} (idle : s.batch = none) (h : s.runFunctor = some s') :
    Move s .runFunctor s' := by
  unfold runFunctor at h
  split at h
  case h_1 => cases h
  case h_2 head => exact Option.some.inj h ▸ .runAdd idle head
  case h_3 head => exact Option.some.inj h ▸ .runCancel idle head

theorem step_move {s s' : TimerRun} {a : Act} (h : s.step a = some s') : Move s a s' := by
  cases a with
  | addTimer addr expiration interval repeats =>
      simp only [step, Option.ite_none_right_eq_some, Option.some.injEq] at h
      exact h.2 ▸ .addTimer rfl
  | addTimerFrom addr expiration interval repeats =>
      simp only [step, Option.some.injEq] at h
      exact h ▸ .addTimerFrom rfl
  | cancelTimer timerId =>
      simp only [step, Option.ite_none_right_eq_some, Option.some.injEq] at h
      exact h.2 ▸ .cancelTimer h.1.2
  | cancelTimerFrom timerId =>
      simp only [step, Option.ite_none_right_eq_some, Option.some.injEq] at h
      exact h.2 ▸ .cancelTimerFrom h.1
  | elsewhere =>
      simp only [step, Option.some.injEq] at h
      exact h ▸ .elsewhere
  | runFunctor =>
      simp only [step, Option.ite_none_right_eq_some] at h
      exact runFunctor_move h.1 h.2
  | beginRead now =>
      simp only [step, Option.ite_none_right_eq_some, Option.some.injEq] at h
      exact h.2 ▸ .beginRead h.1.1
  | runNext =>
      simp only [step, runNext] at h
      split at h
      case h_1 batch => exact Option.some.inj h ▸ .runNext batch
      case h_2 => cases h
  | endRead =>
      simp only [step, endRead] at h
      split at h
      case h_1 batch => exact Option.some.inj h ▸ .endRead batch
      case h_2 => cases h

section

variable {s s' : TimerRun} {a : Act} {t : Timer}

theorem mem_queued : t ∈ s.toLoop.queued ↔ .add t ∈ s.functors := by
  simp only [toLoop, List.mem_filterMap]
  constructor
  · rintro ⟨f, hf, hadd⟩
    cases f with
    | add u =>
        cases hadd
        exact hf
    | cancel timerId => cases hadd
  · exact fun h => ⟨.add t, h, rfl⟩

theorem queued_add {functors : List TimerFunctor} :
    (functors ++ [TimerFunctor.add t]).filterMap TimerFunctor.add? =
      functors.filterMap TimerFunctor.add? ++ [t] := by
  simp [TimerFunctor.add?]

theorem queued_cancel {functors : List TimerFunctor} {timerId : ActiveTimer} :
    (functors ++ [TimerFunctor.cancel timerId]).filterMap TimerFunctor.add? =
      functors.filterMap TimerFunctor.add? := by
  simp [TimerFunctor.add?]

theorem Move.coherent (h : Move s a s') (created : List Timer)
    (hs : (s.toLoopWith created).Coherent (s.started ++ s.waiting)) :
    (s'.toLoopWith created).Coherent (s'.started ++ s'.waiting) := by
  cases h with
  | addTimer new =>
      have hadd := TimerLoop.addTimer_coherent hs new
      exact hadd
  | addTimerFrom new =>
      refine (TimerLoop.createTimer_coherent hs new).keep (.of_eq ?_)
      simp only [toLoopWith, toLoop, issue, queued_add, List.append_assoc]
  | @cancelTimer timerId known =>
      have hcancel := TimerLoop.cancelTimer_coherent hs timerId
      exact hcancel
  | cancelTimerFrom known =>
      refine hs.keep (.of_eq ?_)
      simp only [toLoopWith, toLoop, queued_cancel]
  | elsewhere => exact TimerLoop.op_coherent hs .elsewhere
  | @runAdd t functors idle head =>
      have hhead : (s.toLoopWith created).queued[created.length]? = some t := by
        simp [toLoopWith, toLoop, head, TimerFunctor.add?]
      refine (TimerLoop.addQueued_coherent hs hhead).keep (.of_eq ?_)
      simp [toLoopWith, toLoop, head, TimerFunctor.add?, addInLoop,
        List.eraseIdx_append_of_length_le]
  | @runCancel timerId functors idle head =>
      refine (TimerLoop.cancelTimer_coherent hs timerId).keep (.of_eq ?_)
      simp only [toLoopWith, toLoop, head, cancelInLoop]
      rfl
  | beginRead idle =>
      have hidle : (s.toLoopWith created).Coherent [] := by
        simpa [started, waiting, idle] using hs
      exact TimerLoop.begin_coherent hidle _
  | runNext batch => exact hs.keep (.refl _) (by simp [started, waiting, batch])
  | @endRead now running batch =>
      have hended : (s.toLoopWith created).Coherent running := by
        simpa [started, waiting, batch] using hs
      exact (TimerLoop.end_coherent hended now).1

end

/-! ## Cancellation -/

/-- The guard: a timer is not cancelled on the loop thread while its `addTimerInLoop` functor is
queued, nor while it waits for its turn in the batch. -/
def CancelReaches (s : TimerRun) : Act → Prop
  | .cancelTimer timerId =>
      (∀ f ∈ s.functors, ∀ t ∈ f.add?, t.id ≠ timerId) ∧ ∀ t ∈ s.waiting, t.id ≠ timerId
  | _ => True

/-- The cancelled timer is nowhere from where its callback could still be called. -/
structure Gone (s : TimerRun) (timerId : ActiveTimer) : Prop where
  queue : ∀ t ∈ s.queue.timers, t.id ≠ timerId
  functors : ∀ t, .add t ∈ s.functors → t.id ≠ timerId
  waiting : ∀ t ∈ s.waiting, t.id ≠ timerId
  /-- It will not be put back either. -/
  started : ∀ t ∈ s.started, t.id = timerId → timerId ∈ s.queue.cancelingTimerSet

/-- **Cancellation is effective.** -/
structure Effective (s : TimerRun) : Prop where
  coherent : s.toLoop.Coherent (s.started ++ s.waiting)
  running : s.batch ≠ none → s.queue.isRunningCallback = true
  issued : ∀ timerId ∈ s.issued, timerId.sequence < s.nextSequence
  known : ∀ timerId, timerId ∈ s.cancelled ∨ .cancel timerId ∈ s.functors → timerId ∈ s.issued
  /-- The functor that cancels a timer is behind the one that adds it. -/
  order : s.functors.Pairwise fun f g => ∀ timerId t, f = .cancel timerId → g = .add t →
    t.id ≠ timerId
  gone : ∀ timerId ∈ s.cancelled, s.Gone timerId
  onTime : s.late = []

section

variable {s s' : TimerRun} {t : Timer} {timerId : ActiveTimer} {now : ℤ}

theorem create_effective : create.Effective where
  coherent := TimerLoop.create_coherent
  running := fun h => absurd rfl h
  issued := nofun
  known := by simp [create]
  order := List.Pairwise.nil
  gone := nofun
  onTime := rfl

theorem Effective.coherent_move {a : Act} (hs : s.Effective) (h : Move s a s') :
    s'.toLoop.Coherent (s'.started ++ s'.waiting) :=
  h.coherent [] hs.coherent

/-- A new timer has none of the ids that were issued. -/
theorem Effective.new (hs : s.Effective) (ht : t.sequence = s.nextSequence)
    (hid : timerId ∈ s.issued) : t.id ≠ timerId := by
  rintro rfl
  have hold : t.sequence < s.nextSequence := hs.issued _ hid
  omega

theorem Effective.cancelled_issued (hs : s.Effective) (h : timerId ∈ s.cancelled) :
    timerId ∈ s.issued := hs.known timerId (.inl h)

/-- The ids known before, and the new one, are below the next sequence. -/
theorem Effective.issued_succ (hs : s.Effective) (ht : t.sequence = s.nextSequence) :
    ∀ timerId ∈ s.issued ++ [t.id], timerId.sequence < s.nextSequence + 1 := by
  intro timerId hid
  rcases List.mem_append.mp hid with hid | hid
  · exact Nat.lt_succ_of_lt (hs.issued timerId hid)
  · rw [List.mem_singleton.mp hid, ← ht]
    exact Nat.lt_succ_self t.sequence

theorem Effective.addTimer (hs : s.Effective) (ht : t.sequence = s.nextSequence) :
    ((s.addInLoop t).issue t).Effective := by
  obtain ⟨heq, -, hmem⟩ := TimerQueue.insert_spec hs.coherent.rep (hs.coherent.fresh ht)
  have hqueue : (s.queue.insert t).isRunningCallback = s.queue.isRunningCallback ∧
      (s.queue.insert t).cancelingTimerSet = s.queue.cancelingTimerSet := by
    have heq' : s.queue.insert t = _ := heq
    rw [heq']
    exact ⟨rfl, rfl⟩
  have hcoherent := TimerLoop.addTimer_coherent hs.coherent ht
  refine ⟨hcoherent, fun h => ?_, hs.issued_succ ht, ?_, hs.order, fun timerId hid => ?_,
    hs.onTime⟩
  · exact hqueue.1.trans (hs.running h)
  · exact fun timerId h => List.mem_append_left _ (hs.known timerId h)
  · have hgone := hs.gone timerId hid
    refine ⟨fun u hu => ?_, hgone.functors, hgone.waiting, fun u hu h => ?_⟩
    · rcases (hmem u).mp hu with rfl | hu
      · exact hs.new ht (hs.cancelled_issued hid)
      · exact hgone.queue u hu
    · exact hqueue.2 ▸ hgone.started u hu h

theorem Effective.addTimerFrom (hs : s.Effective) (ht : t.sequence = s.nextSequence) :
    (({ s with functors := s.functors ++ [.add t] } : TimerRun).issue t).Effective := by
  refine ⟨?_, hs.running, hs.issued_succ ht, fun timerId h => ?_, ?_, fun timerId hid => ?_,
    hs.onTime⟩
  · exact (TimerLoop.createTimer_coherent hs.coherent ht).keep (.of_eq queued_add)
  · refine List.mem_append_left _ (hs.known timerId (h.imp_right fun h => ?_))
    replace h : .cancel timerId ∈ s.functors ++ [.add t] := h
    simpa using h
  · -- the new timer is not the one of a cancellation that was queued before
    refine List.pairwise_append.mpr ⟨hs.order, List.pairwise_singleton _ _, ?_⟩
    rintro f hf g hg timerId u rfl rfl
    cases List.mem_singleton.mp hg
    exact hs.new ht (hs.known timerId (.inr hf))
  · have hgone := hs.gone timerId hid
    refine ⟨hgone.queue, fun u hu => ?_, hgone.waiting, hgone.started⟩
    rcases List.mem_append.mp hu with hu | hu
    · exact hgone.functors u hu
    · cases List.mem_singleton.mp hu
      exact hs.new ht (hs.cancelled_issued hid)

/-- **A cancellation that finds its timer**, wherever it is. -/
theorem Effective.cancel (hs : s.Effective) (hid : timerId ∈ s.issued)
    (hfunctors : ∀ t, .add t ∈ s.functors → t.id ≠ timerId)
    (hwaiting : ∀ t ∈ s.waiting, t.id ≠ timerId) : (s.cancelInLoop timerId).Effective := by
  obtain ⟨-, hmem, hrunning, hcanceling⟩ :=
    TimerQueue.cancelTimerInLoop_spec hs.coherent.rep timerId
  have hcoherent := TimerLoop.cancelTimer_coherent hs.coherent timerId
  refine ⟨hcoherent, fun h => hrunning.trans (hs.running h), hs.issued, ?_, hs.order,
    fun other h => ?_, hs.onTime⟩
  · rintro other (h | h)
    · rcases List.mem_append.mp h with h | h
      · exact hs.cancelled_issued h
      · rw [List.mem_singleton.mp h]
        exact hid
    · exact hs.known other (.inr h)
  · rcases List.mem_append.mp h with h | h
    · have hgone := hs.gone other h
      refine ⟨fun u hu => hgone.queue u ((hmem u).mp hu).1, hgone.functors, hgone.waiting,
        fun u hu heq => (hcanceling other).mpr (.inl (hgone.started u hu heq))⟩
    · rw [List.mem_singleton.mp h]
      refine ⟨fun u hu => ((hmem u).mp hu).2, hfunctors, hwaiting, fun u hu heq => ?_⟩
      -- it is in the part of the batch that was run, and so not in the queue
      have hbatch : s.batch ≠ none := by
        intro hnone
        replace hu : u ∈ s.started := hu
        simp [TimerRun.started, hnone] at hu
      refine (hcanceling timerId).mpr (.inr ⟨rfl, hs.running hbatch, fun v hv hv' => ?_⟩)
      exact hs.coherent.batch_queue u (List.mem_append_left _ hu) v hv
        (congrArg ActiveTimer.sequence (heq.trans hv'.symm))

theorem Effective.cancelTimerFrom (hs : s.Effective) (hid : timerId ∈ s.issued) :
    ({ s with functors := s.functors ++ [.cancel timerId] } : TimerRun).Effective := by
  refine ⟨hs.coherent.keep (.of_eq queued_cancel), hs.running, hs.issued, ?_, ?_,
    fun other h => ?_, hs.onTime⟩
  · rintro other (h | h)
    · exact hs.cancelled_issued h
    · rcases List.mem_append.mp h with h | h
      · exact hs.known other (.inr h)
      · cases List.mem_singleton.mp h
        exact hid
  · refine List.pairwise_append.mpr ⟨hs.order, List.pairwise_singleton _ _, ?_⟩
    rintro f hf g hg other u rfl rfl
    cases List.mem_singleton.mp hg
  · have hgone := hs.gone other h
    refine ⟨hgone.queue, fun u hu => hgone.functors u ?_, hgone.waiting, hgone.started⟩
    simpa using hu

/-! The functor at the head of the queue is run: `functors` is what is left of the queue. -/

variable {f : TimerFunctor} {functors : List TimerFunctor}

theorem Effective.known_tail (hs : s.Effective) (hfunctors : s.functors = f :: functors) :
    ∀ timerId, timerId ∈ s.cancelled ∨ .cancel timerId ∈ functors → timerId ∈ s.issued := by
  rintro timerId (h | h)
  · exact hs.cancelled_issued h
  · apply hs.known timerId
    rw [hfunctors]
    exact .inr (List.mem_cons_of_mem f h)

theorem Gone.functors_tail (hgone : s.Gone timerId) (hfunctors : s.functors = f :: functors) :
    ∀ t, .add t ∈ functors → t.id ≠ timerId := by
  intro t ht
  apply hgone.functors t
  rw [hfunctors]
  exact List.mem_cons_of_mem f ht

theorem Effective.order_cons (hs : s.Effective) (hfunctors : s.functors = f :: functors) :
    (∀ g ∈ functors, ∀ timerId t, f = .cancel timerId → g = .add t → t.id ≠ timerId) ∧
      functors.Pairwise fun f g => ∀ timerId t, f = .cancel timerId → g = .add t →
        t.id ≠ timerId := by
  have horder := hs.order
  rwa [hfunctors, List.pairwise_cons] at horder

theorem Effective.runAdd (hs : s.Effective) (hbatch : s.batch = none)
    (hfunctors : s.functors = .add t :: functors) :
    (({ s with functors := functors } : TimerRun).addInLoop t).Effective := by
  have hstarted : s.started = [] := by simp [TimerRun.started, hbatch]
  have hhead : t ∈ s.toLoop.queued := mem_queued.mpr (by simp [hfunctors])
  obtain ⟨-, -, hmem⟩ := TimerQueue.insert_spec hs.coherent.rep (hs.coherent.fresh_queued hhead)
  refine ⟨hs.coherent_move (.runAdd hbatch hfunctors), fun h => absurd hbatch h, hs.issued,
    hs.known_tail hfunctors, (hs.order_cons hfunctors).2, fun timerId hid => ?_, hs.onTime⟩
  have hgone := hs.gone timerId hid
  refine ⟨fun u hu => ?_, hgone.functors_tail hfunctors, hgone.waiting, fun u hu => ?_⟩
  · rcases (hmem u).mp hu with rfl | hu
    · exact hgone.functors u (by simp [hfunctors])
    · exact hgone.queue u hu
  · replace hu : u ∈ s.started := hu
    simp [hstarted] at hu

/-- The timer of a queued cancellation is not behind it in the queue. -/
theorem Effective.runCancel (hs : s.Effective) (hbatch : s.batch = none)
    (hfunctors : s.functors = .cancel timerId :: functors) :
    (({ s with functors := functors } : TimerRun).cancelInLoop timerId).Effective := by
  obtain ⟨hbehind, horder⟩ := hs.order_cons hfunctors
  have htail : ({ s with functors := functors } : TimerRun).Effective := by
    refine ⟨?_, hs.running, hs.issued, hs.known_tail hfunctors, horder,
      fun other hid => ?_, hs.onTime⟩
    · have h := hs.coherent
      unfold toLoop at *
      rw [hfunctors] at h
      exact h
    · have hgone := hs.gone other hid
      exact ⟨hgone.queue, hgone.functors_tail hfunctors, hgone.waiting, hgone.started⟩
  refine htail.cancel (hs.known timerId (.inr (by simp [hfunctors]))) ?_ ?_
  · exact fun t ht => hbehind _ ht timerId t rfl rfl
  · intro t ht
    replace ht : t ∈ s.waiting := ht
    simp [TimerRun.waiting, hbatch] at ht

theorem Effective.beginRead (hs : s.Effective) (hbatch : s.batch = none) :
    ({ s with
      queue := (s.queue.beginRead now).1
      batch := some ⟨now, [], (s.queue.beginRead now).2⟩ } : TimerRun).Effective := by
  obtain ⟨-, hsplit, -, -, -, hrunning⟩ := TimerQueue.beginRead_spec hs.coherent.rep now
  replace hsplit : s.queue.timers =
    (s.queue.beginRead now).2 ++ (s.queue.beginRead now).1.timers := hsplit
  refine ⟨hs.coherent_move (.beginRead hbatch), fun _ => hrunning, hs.issued, hs.known, hs.order,
    fun timerId hid => ?_, hs.onTime⟩
  have hgone := hs.gone timerId hid
  refine ⟨fun u hu => hgone.queue u ?_, hgone.functors, fun u hu => hgone.queue u ?_, nofun⟩
  · rw [hsplit]
    exact List.mem_append_right _ hu
  · rw [hsplit]
    exact List.mem_append_left _ hu

theorem Effective.runNext {started waiting : List Timer} (hs : s.Effective)
    (hbatch : s.batch = some ⟨now, started, t :: waiting⟩) :
    ({ s with
      batch := some ⟨now, started ++ [t], waiting⟩
      late := if t.id ∈ s.cancelled then s.late ++ [t.id] else s.late } : TimerRun).Effective := by
  have hstarted : s.started = started := by simp [TimerRun.started, hbatch]
  have hwaiting : s.waiting = t :: waiting := by simp [TimerRun.waiting, hbatch]
  have htimely : t.id ∉ s.cancelled := fun hid =>
    (hs.gone _ hid).waiting t (by simp [hwaiting]) rfl
  refine ⟨hs.coherent_move (.runNext hbatch), fun _ => hs.running (by simp [hbatch]), hs.issued,
    hs.known, hs.order, fun timerId hid => ?_, ?_⟩
  · have hgone := hs.gone timerId hid
    refine ⟨hgone.queue, hgone.functors, fun u hu => hgone.waiting u ?_, fun u hu heq => ?_⟩
    · rw [hwaiting]
      exact List.mem_cons_of_mem t hu
    · rcases List.mem_append.mp hu with hu | hu
      · exact hgone.started u (by rwa [hstarted]) heq
      · rw [List.mem_singleton.mp hu] at heq
        exact absurd (heq ▸ hid) htimely
  · simp only [htimely, if_false]
    exact hs.onTime

theorem Effective.endRead {started : List Timer} (hs : s.Effective)
    (hbatch : s.batch = some ⟨now, started, []⟩) :
    ({ s with queue := s.queue.endRead started now, batch := none } : TimerRun).Effective := by
  have hstarted : s.started = started := by simp [TimerRun.started, hbatch]
  have hwaiting : s.waiting = [] := by simp [TimerRun.waiting, hbatch]
  have hcoherent := hs.coherent
  rw [hstarted, hwaiting, List.append_nil] at hcoherent
  obtain ⟨hend, -, hmem⟩ := TimerLoop.end_coherent hcoherent now
  refine ⟨hend, fun h => absurd rfl h, hs.issued, hs.known, hs.order, fun timerId hid => ?_,
    hs.onTime⟩
  have hgone := hs.gone timerId hid
  refine ⟨fun u hu => ?_, hgone.functors, nofun, nofun⟩
  rcases (hmem u).mp hu with hu | ⟨v, hv, -, hkept, rfl⟩
  · exact hgone.queue u hu
  · exact fun heq => hkept (heq ▸ hgone.started v (by rwa [hstarted]) heq)

theorem Effective.elsewhere (hs : s.Effective) :
    ({ s with nextSequence := s.nextSequence + 1 } : TimerRun).Effective := by
  refine ⟨TimerLoop.op_coherent hs.coherent .elsewhere, hs.running, ?_, hs.known, hs.order, ?_,
    hs.onTime⟩
  · exact fun timerId hid => Nat.lt_succ_of_lt (hs.issued timerId hid)
  · intro timerId hid
    have hgone := hs.gone timerId hid
    exact ⟨hgone.queue, hgone.functors, hgone.waiting, hgone.started⟩

theorem step_effective {a : Act} (hs : s.Effective) (guard : CancelReaches s a)
    (h : s.step a = some s') : s'.Effective := by
  cases step_move h with
  | addTimer new => exact hs.addTimer new
  | addTimerFrom new => exact hs.addTimerFrom new
  | cancelTimer known => exact hs.cancel known (fun t ht => guard.1 _ ht t rfl) guard.2
  | cancelTimerFrom known => exact hs.cancelTimerFrom known
  | elsewhere => exact hs.elsewhere
  | runAdd idle head => exact hs.runAdd idle head
  | runCancel idle head => exact hs.runCancel idle head
  | beginRead idle => exact hs.beginRead idle
  | runNext batch => exact hs.runNext batch
  | endRead batch => exact hs.endRead batch

/-- **A cancellation that finds its timer is final**: in a run in which no timer is cancelled on
the loop thread while its `addTimerInLoop` functor is queued or while it waits in the batch, no
callback is called after `cancelTimerInLoop` has returned for its timer. -/
theorem cancelled_never_runs (run : Reach step CancelReaches create s) : s.late = [] :=
  (run.invariant (P := Effective) create_effective
    fun _ _ _ hs guard h => step_effective hs guard h).onTime

instance (s : TimerRun) : ∀ a, Decidable (CancelReaches s a)
  | .cancelTimer timerId => inferInstanceAs (Decidable
      ((∀ f ∈ s.functors, ∀ t ∈ f.add?, t.id ≠ timerId) ∧ ∀ t ∈ s.waiting, t.id ≠ timerId))
  | .addTimer .. => .isTrue trivial
  | .addTimerFrom .. => .isTrue trivial
  | .cancelTimerFrom _ => .isTrue trivial
  | .elsewhere => .isTrue trivial
  | .runFunctor => .isTrue trivial
  | .beginRead _ => .isTrue trivial
  | .runNext => .isTrue trivial
  | .endRead => .isTrue trivial

/-- A repeating timer cancels itself in its callback, and another thread cancels a second one. -/
theorem cancelled_never_runs_self : ∃ s : TimerRun, Reach step CancelReaches create s ∧
    s.cancelled = [⟨1, 0⟩, ⟨2, 1⟩] ∧ s.late = [] := by
  obtain ⟨s, run, hs⟩ := exists_reach step CancelReaches create
    [.addTimer 1 5 3 true, .addTimerFrom 2 6 0 false, .cancelTimerFrom ⟨2, 1⟩, .beginRead 10,
      .runNext, .cancelTimer ⟨1, 0⟩, .endRead, .runFunctor, .runFunctor]
    (fun s => s.cancelled = [⟨1, 0⟩, ⟨2, 1⟩]) (by decide +kernel)
  simp only [decide_eq_true_eq] at hs
  exact ⟨s, run, hs, cancelled_never_runs run⟩

/-- Two timers expire together and the callback of the first cancels the second, whose callback is
called all the same. -/
theorem cancelled_runs_in_batch :
    ¬∀ s : TimerRun, Reach step anyStep create s → s.late = [] := by
  intro hall
  obtain ⟨s, run, hs⟩ := exists_reach step anyStep create
    [.addTimer 1 5 0 false, .addTimer 2 6 0 false, .beginRead 10, .runNext, .cancelTimer ⟨2, 1⟩,
      .runNext]
    (fun s => s.late = [⟨2, 1⟩]) (by decide +kernel)
  simp only [decide_eq_true_eq] at hs
  have hnone := hall s run
  simp [hs] at hnone

-- a timer of another thread, cancelled on the loop thread while its functor is still queued
example : (exec step create [.addTimerFrom 1 5 0 false, .cancelTimer ⟨1, 0⟩, .runFunctor,
    .beginRead 10, .runNext]).map TimerRun.late = some [⟨1, 0⟩] := by decide +kernel

end

end TimerRun

end Proactor
