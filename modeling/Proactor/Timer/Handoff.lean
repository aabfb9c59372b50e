import Proactor.Timer.Cancel

/-!
# `addTimer` on another thread

`addTimer` creates the timer, hands the pointer to the loop in a functor and then reads the
sequence through the same pointer, to build the `TimerId` it returns.  From the moment the functor
is queued the timer belongs to the loop, which runs the functor, lets the timer expire and destroys
it as soon as it likes: a one-shot timer whose batch ends before the caller has read is gone
(`sequence_read_late`).

Nothing else destroys it.  A repeating timer is put back, a cancellation needs the id that has not
been returned yet, and functors and batches only pass a timer on.  So the reads are safe in the
runs in which no batch ends with a one-shot timer that is still to be read, and a batch that does
destroys that timer (`sequence_read_alive`).
-/

namespace Proactor

open Transition

/-- The timers of a loop, and the calls of `addTimer` that are going on on other threads. -/
structure TimerHandoff where
  run : TimerRun
  /-- The timers of the calls that have not queued their functor yet. -/
  created : List Timer
  /-- The timers of the calls that have, and are about to read the sequence. -/
  reading : List Timer
  /-- A sequence has been read from a timer that had been destroyed. -/
  fault : Bool
  deriving DecidableEq

/-- The timers that have been handed to the loop and not been destroyed. -/
def TimerRun.alive (s : TimerRun) : List Timer :=
  s.toLoop.queued ++ s.queue.timers ++ (s.started ++ s.waiting)

namespace TimerHandoff

inductive Act
  /-- A step of the loop, or of another thread that does not call `addTimer`. -/
  | run (a : TimerRun.Act)
  /-- `new Timer` in `addTimer` on another thread. -/
  | create (addr : ℕ) (expiration interval : ℤ) (repeats : Bool)
  /-- `queueInLoop`, in the `i`-th of these calls. -/
  | queue (i : ℕ)
  /-- `raw_timer_ptr->sequence()`, in the `i`-th of the calls that have queued. -/
  | read (i : ℕ)
  deriving DecidableEq, Repr

def create : TimerHandoff := ⟨.create, [], [], false⟩

def step (s : TimerHandoff) (a : Act) : Option TimerHandoff :=
  if s.fault then none
  else match a with
    -- the call as one step is taken apart here
    | .run (.addTimerFrom ..) => none
    | .run a => (s.run.step a).map fun run => { s with run := run }
    | .create addr expiration interval repeats =>
        some { s with
          run := { s.run with nextSequence := s.run.nextSequence + 1 }
          created := s.created ++ [s.run.toLoop.newTimer addr expiration interval repeats] }
    | .queue i =>
        (s.created[i]?).map fun t =>
          { s with
            run := { s.run with functors := s.run.functors ++ [.add t] }
            created := s.created.eraseIdx i
            reading := s.reading ++ [t] }
    | .read i =>
        (s.reading[i]?).map fun t =>
          if t.id ∈ s.run.alive.map Timer.id then
            { s with
              run := { s.run with issued := s.run.issued ++ [t.id] }
              reading := s.reading.eraseIdx i }
          else { s with fault := true }

/-- No sequence has been read from a destroyed timer, and none is about to. -/
structure Live (s : TimerHandoff) : Prop where
  alive : ∀ t ∈ s.reading, t.id ∈ s.run.alive.map Timer.id
  sound : s.fault = false

/-- The guard: no batch ends with a one-shot timer whose sequence is still to be read. -/
def ReadFirst (s : TimerHandoff) (a : Act) : Prop :=
  a = .run .endRead → ∀ u ∈ s.run.started, u.repeats = false → ∀ t ∈ s.reading, t.id ≠ u.id

instance (s : TimerHandoff) (a : Act) : Decidable (ReadFirst s a) :=
  inferInstanceAs (Decidable (a = .run .endRead →
    ∀ u ∈ s.run.started, u.repeats = false → ∀ t ∈ s.reading, t.id ≠ u.id))

end TimerHandoff

/-! ## What the loop does with a timer -/

namespace TimerQueue

@[simp] theorem reset_canceling (expired : List Timer) (now : ℤ) (q : TimerQueue) :
    (q.reset expired now).cancelingTimerSet = q.cancelingTimerSet := by
  induction expired generalizing q with
  | nil => rfl
  | cons t expired ih =>
      refine (ih (resetOne now q t)).trans ?_
      rw [resetOne]
      split <;> rfl

/-- The cancellations of a batch are forgotten when the next one begins. -/
@[simp] theorem endRead_canceling (expired : List Timer) (now : ℤ) (q : TimerQueue) :
    (q.endRead expired now).cancelingTimerSet = q.cancelingTimerSet :=
  reset_canceling expired now { q with isRunningCallback := false }

end TimerQueue

namespace TimerRun

/-- Only ids that have been returned are cancelled. -/
def Known (s : TimerRun) : Prop :=
  ∀ timerId, timerId ∈ s.queue.cancelingTimerSet ∨ .cancel timerId ∈ s.functors →
    timerId ∈ s.issued

variable {s s' : TimerRun} {a : Act} {created : List Timer} {t : Timer}

theorem mem_alive : t ∈ s.alive ↔
    t ∈ s.toLoop.queued ∨ t ∈ s.queue.timers ∨ t ∈ s.started ∨ t ∈ s.waiting := by
  simp only [alive, List.mem_append, or_assoc]

/-- **What the loop destroys**: a timer that was cancelled, and at the end of a batch one that is
not put back. -/
theorem Move.alive (h : Move s a s') (hs : (s.toLoopWith created).Coherent (s.started ++ s.waiting))
    (hknown : s.Known) (ht : t ∈ s.alive) (hkept : t.id ∉ s.issued)
    (hback : a = .endRead → t ∈ s.started → t.repeats = true) :
    t.id ∈ s'.alive.map Timer.id := by
  rw [mem_alive] at ht
  cases h with
  | addTimer new =>
      obtain ⟨-, -, hmem⟩ := TimerQueue.insert_spec hs.rep (hs.fresh new)
      refine List.mem_map_of_mem (mem_alive.mpr ?_)
      exact ht.imp_right (Or.imp_left fun ht => (hmem t).mpr (.inr ht))
  | addTimerFrom new =>
      refine List.mem_map_of_mem (mem_alive.mpr ?_)
      refine ht.imp_left fun ht => mem_queued.mpr ?_
      exact List.mem_append_left _ (mem_queued.mp ht)
  | @cancelTimer timerId known =>
      obtain ⟨-, hmem, -, -⟩ := TimerQueue.cancelTimerInLoop_spec hs.rep timerId
      refine List.mem_map_of_mem (mem_alive.mpr ?_)
      refine ht.imp_right (Or.imp_left fun ht => (hmem t).mpr ⟨ht, ?_⟩)
      exact fun heq => hkept (heq ▸ known)
  | cancelTimerFrom known =>
      refine List.mem_map_of_mem (mem_alive.mpr ?_)
      refine ht.imp_left fun ht => mem_queued.mpr ?_
      exact List.mem_append_left _ (mem_queued.mp ht)
  | elsewhere => exact List.mem_map_of_mem (mem_alive.mpr ht)
  | @runAdd u functors idle head =>
      have hu : u ∈ (s.toLoopWith created).queued :=
        List.mem_append_right _ (mem_queued.mpr (by simp [head]))
      obtain ⟨-, -, hmem⟩ := TimerQueue.insert_spec hs.rep (hs.fresh_queued hu)
      refine List.mem_map_of_mem (mem_alive.mpr ?_)
      rcases ht with ht | ht | ht
      · rw [mem_queued, head] at ht
        rcases List.mem_cons.mp ht with heq | ht
        · cases heq
          exact .inr (.inl ((hmem t).mpr (.inl rfl)))
        · exact .inl (mem_queued.mpr ht)
      · exact .inr (.inl ((hmem t).mpr (.inr ht)))
      · exact .inr (.inr ht)
  | @runCancel timerId functors idle head =>
      obtain ⟨-, hmem, -, -⟩ := TimerQueue.cancelTimerInLoop_spec hs.rep timerId
      have hid : timerId ∈ s.issued := hknown timerId (.inr (by simp [head]))
      refine List.mem_map_of_mem (mem_alive.mpr ?_)
      rcases ht with ht | ht | ht
      · rw [mem_queued, head] at ht
        exact .inl (mem_queued.mpr ((List.mem_cons.mp ht).resolve_left nofun))
      · exact .inr (.inl ((hmem t).mpr ⟨ht, fun heq => hkept (heq ▸ hid)⟩))
      · exact .inr (.inr ht)
  | @beginRead now idle =>
      obtain ⟨-, hsplit, -⟩ := TimerQueue.beginRead_spec hs.rep now
      refine List.mem_map_of_mem (mem_alive.mpr ?_)
      rcases ht with ht | ht | ht
      · exact .inl ht
      · have hcut : t ∈ (s.queue.beginRead now).2 ++ (s.queue.beginRead now).1.timers := hsplit ▸ ht
        rcases List.mem_append.mp hcut with ht | ht
        · exact .inr (.inr (.inr ht))
        · exact .inr (.inl ht)
      · simp [started, waiting, idle] at ht
  | @runNext now running u rest batch =>
      refine List.mem_map_of_mem (mem_alive.mpr ?_)
      refine ht.imp_right (Or.imp_right fun ht => ?_)
      simpa [started, waiting, batch, or_assoc] using ht
  | @endRead now running batch =>
      have hended : (s.toLoopWith created).Coherent running := by
        simpa [started, waiting, batch] using hs
      obtain ⟨-, -, hmem⟩ := TimerLoop.end_coherent hended now
      rcases ht with ht | ht | ht | ht
      · exact List.mem_map_of_mem (mem_alive.mpr (.inl ht))
      · exact List.mem_map_of_mem (mem_alive.mpr (.inr (.inl ((hmem t).mpr (.inl ht)))))
      · have hrunning : t ∈ running := by simpa [started, batch] using ht
        have hcancel : t.id ∉ s.queue.cancelingTimerSet := fun h => hkept (hknown _ (.inl h))
        have hput := (hmem (t.restart now)).mpr (.inr ⟨t, hrunning, hback rfl ht, hcancel, rfl⟩)
        exact List.mem_map.mpr ⟨t.restart now, mem_alive.mpr (.inr (.inl hput)), rfl⟩
      · simp [waiting, batch] at ht

/-- A new id carries a new sequence. -/
theorem mem_issued_append {timerId : ActiveTimer} (new : t.sequence = s.nextSequence)
    (h : timerId ∈ s.issued ++ [t.id]) : timerId ∈ s.issued ∨
      s.nextSequence ≤ timerId.sequence ∧ timerId.sequence < s.nextSequence + 1 := by
  rcases List.mem_append.mp h with h | h
  · exact .inl h
  · rw [List.mem_singleton.mp h]
    exact .inr ⟨Nat.le_of_eq new.symm, Nat.lt_succ_of_le (Nat.le_of_eq new)⟩

theorem Move.issued (h : Move s a s') : s.nextSequence ≤ s'.nextSequence ∧
    ∀ timerId ∈ s'.issued, timerId ∈ s.issued ∨
      s.nextSequence ≤ timerId.sequence ∧ timerId.sequence < s'.nextSequence := by
  cases h with
  | addTimer new => exact ⟨Nat.le_succ _, fun _ => mem_issued_append new⟩
  | addTimerFrom new => exact ⟨Nat.le_succ _, fun _ => mem_issued_append new⟩
  | elsewhere => exact ⟨Nat.le_succ _, fun _ => .inl⟩
  | _ => exact ⟨Nat.le_refl _, fun _ => .inl⟩

/-- A cancellation is of an id that was returned. -/
theorem Move.known (h : Move s a s') (hs : (s.toLoopWith created).Coherent (s.started ++ s.waiting))
    (hknown : s.Known) : s'.Known := by
  intro timerId hid
  cases h with
  | addTimer new => exact List.mem_append_left _ (hknown timerId hid)
  | addTimerFrom new =>
      refine List.mem_append_left _ (hknown timerId (hid.imp_right fun hid => ?_))
      exact (List.mem_append.mp hid).resolve_right (by simp)
  | @cancelTimer other known =>
      obtain ⟨-, -, -, hcanceling⟩ := TimerQueue.cancelTimerInLoop_spec hs.rep other
      rcases hid with hid | hid
      · rcases (hcanceling timerId).mp hid with hid | ⟨rfl, -, -⟩
        · exact hknown timerId (.inl hid)
        · exact known
      · exact hknown timerId (.inr hid)
  | cancelTimerFrom known =>
      rcases hid with hid | hid
      · exact hknown timerId (.inl hid)
      · rcases List.mem_append.mp hid with hid | hid
        · exact hknown timerId (.inr hid)
        · cases List.mem_singleton.mp hid
          exact known
  | elsewhere => exact hknown timerId hid
  | runAdd idle head =>
      exact hknown timerId (hid.imp_right fun hid => head ▸ List.mem_cons_of_mem _ hid)
  | @runCancel other functors idle head =>
      obtain ⟨-, -, -, hcanceling⟩ := TimerQueue.cancelTimerInLoop_spec hs.rep other
      rcases hid with hid | hid
      · rcases (hcanceling timerId).mp hid with hid | ⟨rfl, -, -⟩
        · exact hknown timerId (.inl hid)
        · exact hknown timerId (.inr (by simp [head]))
      · exact hknown timerId (.inr (head ▸ List.mem_cons_of_mem _ hid))
  | @beginRead now idle =>
      have hnone : (s.queue.beginRead now).1.cancelingTimerSet = ∅ :=
        (TimerQueue.beginRead_spec hs.rep now).2.2.2.2.1
      refine hknown timerId (hid.imp_left fun hid => ?_)
      simp [hnone] at hid
  | runNext batch => exact hknown timerId hid
  | endRead batch =>
      refine hknown timerId (hid.imp_left fun hid => ?_)
      simpa using hid

end TimerRun

/-! ## The calls on other threads -/

namespace TimerHandoff

variable {s s' : TimerHandoff} {t : Timer} {i : ℕ}

/-- **The timers of the calls are alive**, and nobody else knows their ids. -/
structure Handed (s : TimerHandoff) : Prop where
  coherent : (s.run.toLoopWith s.created).Coherent (s.run.started ++ s.run.waiting)
  known : s.run.Known
  issued : ∀ timerId ∈ s.run.issued, timerId.sequence < s.run.nextSequence
  calls : ((s.created ++ s.reading).map Timer.sequence).Nodup
  bound : ∀ t ∈ s.created ++ s.reading, t.sequence < s.run.nextSequence
  unissued : ∀ t ∈ s.created ++ s.reading, ∀ timerId ∈ s.run.issued, timerId.sequence ≠ t.sequence
  live : s.Live

theorem create_handed : create.Handed where
  coherent := TimerLoop.create_coherent
  known := by simp [TimerRun.Known, create, TimerRun.create, TimerQueue.create]
  issued := nofun
  calls := List.nodup_nil
  bound := nofun
  unissued := nofun
  live := ⟨nofun, rfl⟩

/-- A step of the loop. -/
theorem Handed.run {a : TimerRun.Act} {run : TimerRun} (hs : s.Handed) (h : s.run.Move a run)
    (guard : s.ReadFirst (.run a)) : Handed { s with run := run } := by
  obtain ⟨hnext, hissued⟩ := h.issued
  refine ⟨h.coherent s.created hs.coherent, h.known hs.coherent hs.known, ?_, hs.calls, ?_, ?_, ?_,
    hs.live.sound⟩
  · intro timerId hid
    rcases hissued timerId hid with hid | hid
    · exact Nat.lt_of_lt_of_le (hs.issued timerId hid) hnext
    · exact hid.2
  · exact fun t ht => Nat.lt_of_lt_of_le (hs.bound t ht) hnext
  · intro t ht timerId hid
    rcases hissued timerId hid with hid | ⟨hid, -⟩
    · exact hs.unissued t ht timerId hid
    · have := hs.bound t ht
      omega
  · intro t ht
    obtain ⟨u, hu, heq⟩ := List.mem_map.mp (hs.live.alive t ht)
    have hkept : u.id ∉ s.run.issued := fun hid =>
      hs.unissued t (List.mem_append_right _ ht) _ hid (congrArg ActiveTimer.sequence heq)
    rw [← heq]
    refine h.alive hs.coherent hs.known hu hkept fun ha hstarted => ?_
    by_contra hrepeats
    exact guard (congrArg _ ha) u hstarted (by simpa using hrepeats) t ht heq.symm

/-- `new Timer`. -/
theorem Handed.create (hs : s.Handed) (new : t.sequence = s.run.nextSequence) :
    Handed { s with
      run := { s.run with nextSequence := s.run.nextSequence + 1 }
      created := s.created ++ [t] } := by
  have hperm : (s.created ++ [t] ++ s.reading).Perm (t :: (s.created ++ s.reading)) := by
    rw [List.append_assoc]
    exact List.perm_middle
  have hcases : ∀ u ∈ s.created ++ [t] ++ s.reading, u = t ∨ u ∈ s.created ++ s.reading :=
    fun u hu => List.mem_cons.mp (hperm.mem_iff.mp hu)
  refine ⟨?_, hs.known, ?_, ?_, ?_, ?_, hs.live.alive, hs.live.sound⟩
  · refine (TimerLoop.createTimer_coherent hs.coherent new).keep ?_
    simp only [TimerRun.toLoopWith, List.append_assoc]
    exact (List.perm_append_comm).append_left _
  · exact fun timerId hid => Nat.lt_succ_of_lt (hs.issued timerId hid)
  · refine (hperm.map Timer.sequence).nodup_iff.mpr (List.nodup_cons.mpr ⟨?_, hs.calls⟩)
    intro hmem
    obtain ⟨u, hu, heq⟩ := List.mem_map.mp hmem
    have := hs.bound u hu
    omega
  · intro u hu
    rcases hcases u hu with rfl | hu
    · exact Nat.lt_succ_of_le (Nat.le_of_eq new)
    · exact Nat.lt_succ_of_lt (hs.bound u hu)
  · intro u hu timerId hid
    rcases hcases u hu with rfl | hu
    · have := hs.issued timerId hid
      omega
    · exact hs.unissued u hu timerId hid

/-- `queueInLoop`: from here on the loop owns the timer. -/
theorem Handed.queue (hs : s.Handed) (call : s.created[i]? = some t) :
    Handed { s with
      run := { s.run with functors := s.run.functors ++ [.add t] }
      created := s.created.eraseIdx i
      reading := s.reading ++ [t] } := by
  have hsplit := Slots.eraseIdx_perm call
  have hmoved : ∀ l : List Timer, (s.created.eraseIdx i ++ (l ++ [t])).Perm (s.created ++ l) := by
    intro l
    have hlast : (s.created.eraseIdx i ++ (l ++ [t])).Perm (s.created.eraseIdx i ++ (t :: l)) :=
      (List.perm_append_singleton t l).append_left _
    exact hlast.trans (List.perm_middle.trans (hsplit.append_right l))
  have hcalls := hmoved s.reading
  refine ⟨?_, ?_, hs.issued, (hcalls.map Timer.sequence).nodup_iff.mpr hs.calls, ?_, ?_, ?_,
    hs.live.sound⟩
  · refine hs.coherent.keep ?_
    simp only [TimerRun.toLoopWith, TimerRun.toLoop, TimerRun.queued_add]
    exact hmoved _
  · intro timerId hid
    refine hs.known timerId (hid.imp_right fun hid => ?_)
    exact (List.mem_append.mp hid).resolve_right (by simp)
  · exact fun u hu => hs.bound u (hcalls.mem_iff.mp hu)
  · exact fun u hu => hs.unissued u (hcalls.mem_iff.mp hu)
  · intro u hu
    rcases List.mem_append.mp hu with hu | hu
    · obtain ⟨v, hv, heq⟩ := List.mem_map.mp (hs.live.alive u hu)
      refine List.mem_map.mpr ⟨v, TimerRun.mem_alive.mpr ?_, heq⟩
      refine (TimerRun.mem_alive.mp hv).imp_left fun hv => TimerRun.mem_queued.mpr ?_
      exact List.mem_append_left _ (TimerRun.mem_queued.mp hv)
    · rw [List.mem_singleton.mp hu]
      refine List.mem_map_of_mem (TimerRun.mem_alive.mpr (.inl (TimerRun.mem_queued.mpr ?_)))
      exact List.mem_append_right _ (List.mem_singleton_self _)

/-- The sequence is read and the id returned. -/
theorem Handed.read (hs : s.Handed) (call : s.reading[i]? = some t) :
    Handed { s with
      run := { s.run with issued := s.run.issued ++ [t.id] }
      reading := s.reading.eraseIdx i } := by
  have hsplit : (t :: (s.created ++ s.reading.eraseIdx i)).Perm (s.created ++ s.reading) :=
    List.perm_middle.symm.trans ((Slots.eraseIdx_perm call).append_left s.created)
  have hcalls := (hsplit.map Timer.sequence).nodup_iff.mpr hs.calls
  rw [List.map_cons, List.nodup_cons] at hcalls
  have hold : ∀ u ∈ s.created ++ s.reading.eraseIdx i, u ∈ s.created ++ s.reading :=
    fun u hu => hsplit.mem_iff.mp (List.mem_cons_of_mem t hu)
  have hread : t ∈ s.created ++ s.reading := hsplit.mem_iff.mp List.mem_cons_self
  refine ⟨hs.coherent, ?_, ?_, hcalls.2, fun u hu => hs.bound u (hold u hu), ?_, ?_, hs.live.sound⟩
  · exact fun timerId hid => List.mem_append_left _ (hs.known timerId hid)
  · intro timerId hid
    rcases List.mem_append.mp hid with hid | hid
    · exact hs.issued timerId hid
    · rw [List.mem_singleton.mp hid]
      exact hs.bound t hread
  · intro u hu timerId hid
    rcases List.mem_append.mp hid with hid | hid
    · exact hs.unissued u (hold u hu) timerId hid
    · rw [List.mem_singleton.mp hid]
      -- another call has another timer
      exact fun heq => hcalls.1 (List.mem_map.mpr ⟨u, hu, heq.symm⟩)
  · exact fun u hu => hs.live.alive u ((List.eraseIdx_sublist _ _).subset hu)

theorem Handed.step {a : Act} (hs : s.Handed) (guard : s.ReadFirst a) (h : s.step a = some s') :
    s'.Handed := by
  unfold TimerHandoff.step at h
  rw [if_neg (by simp [hs.live.sound])] at h
  cases a with
  | run a =>
      have hrun : ∃ run, s.run.step a = some run ∧ { s with run := run } = s' := by
        cases a with
        | addTimerFrom => cases h
        | _ => exact Option.map_eq_some_iff.mp h
      obtain ⟨run, hrun, rfl⟩ := hrun
      exact hs.run (TimerRun.step_move hrun) guard
  | create addr expiration interval repeats =>
      obtain rfl := Option.some.inj h
      exact hs.create rfl
  | queue i =>
      obtain ⟨t, call, rfl⟩ := Option.map_eq_some_iff.mp h
      exact hs.queue call
  | read i =>
      obtain ⟨t, call, rfl⟩ := Option.map_eq_some_iff.mp h
      rw [if_pos (hs.live.alive t (List.mem_of_getElem? call))]
      exact hs.read call

/-- A one-shot timer is nowhere when its batch has ended. -/
theorem Handed.destroyed {now : ℤ} {started : List Timer} (hs : s.Handed)
    (batch : s.run.batch = some ⟨now, started, []⟩) (ht : t ∈ started) (once : t.repeats = false) :
    t.id ∉ ({ s.run with
      queue := s.run.queue.endRead started now, batch := none } : TimerRun).alive.map Timer.id := by
  have hended : (s.run.toLoopWith s.created).Coherent started := by
    simpa [TimerRun.started, TimerRun.waiting, batch] using hs.coherent
  obtain ⟨-, -, hmem⟩ := TimerLoop.end_coherent hended now
  intro halive
  obtain ⟨u, hu, hid⟩ := List.mem_map.mp halive
  have hseq : t.sequence = u.sequence := (congrArg ActiveTimer.sequence hid).symm
  rcases TimerRun.mem_alive.mp hu with hu | hu | hu | hu
  · exact hended.batch_queued t ht u (List.mem_append_right _ hu) hseq
  · rcases (hmem u).mp hu with hu | ⟨v, hv, hrepeats, -, rfl⟩
    · exact hended.batch_queue t ht u hu hseq
    · -- the only timer of the batch with this sequence does not repeat
      rw [← List.inj_on_of_nodup_map hended.detached ht hv hseq, once] at hrepeats
      cases hrepeats
  · cases hu
  · cases hu

/-- The guard is what keeps the timers of the calls alive. -/
theorem Handed.readFirst {a : Act} (hs : s.Handed) (h : s.step a = some s') (live : s'.Live) :
    s.ReadFirst a := by
  rintro rfl u hu once t ht hid
  unfold TimerHandoff.step at h
  rw [if_neg (by simp [hs.live.sound])] at h
  obtain ⟨run, hrun, rfl⟩ := Option.map_eq_some_iff.mp h
  cases TimerRun.step_move hrun with
  | @endRead now started batch =>
      have hstarted : u ∈ started := by simpa [TimerRun.started, batch] using hu
      refine hs.destroyed batch hstarted once ?_
      rw [← hid]
      exact live.alive t ht

/-- **In a run in which no batch ends with a one-shot timer that is still to be read, no sequence
is read from a destroyed timer.**  And a step that does end such a batch destroys it. -/
theorem sequence_read_alive (run : Reach step ReadFirst create s) :
    s.fault = false ∧ ∀ a s', s.step a = some s' → (s.ReadFirst a ↔ s'.Live) := by
  have hs : s.Handed :=
    run.invariant create_handed fun _ _ _ hs guard h => hs.step guard h
  refine ⟨hs.live.sound, fun a s' h => ?_⟩
  exact ⟨fun guard => (hs.step guard h).live, hs.readFirst h⟩

/-- A one-shot timer expires at once and its sequence is read during its callback; a repeating one
is put back before its sequence is read. -/
theorem sequence_read_alive_expired : ∃ s, Reach step ReadFirst create s ∧
    s.run.issued = [⟨1, 0⟩, ⟨2, 1⟩] ∧ s.fault = false := by
  obtain ⟨s, run, hs⟩ := exists_reach step ReadFirst create
    [.create 1 5 0 false, .create 2 6 3 true, .queue 0, .queue 0, .run .runFunctor,
      .run .runFunctor, .run (.beginRead 10), .run .runNext, .read 0, .run .runNext, .run .endRead,
      .read 0]
    (fun s => s.run.issued = [⟨1, 0⟩, ⟨2, 1⟩]) (by decide +kernel)
  simp only [decide_eq_true_eq] at hs
  exact ⟨s, run, hs, (sequence_read_alive run).1⟩

/-- **A timer that has expired already is gone before its sequence is read.** -/
theorem sequence_read_late : ¬ ∀ s, Reach step anyStep create s → s.fault = false := by
  intro hall
  obtain ⟨s, run, hs⟩ := exists_reach step anyStep create
    [.create 1 5 0 false, .queue 0, .run .runFunctor, .run (.beginRead 10), .run .runNext,
      .run .endRead, .read 0]
    (fun s => s.fault) (by decide +kernel)
  simp [hall s run] at hs

end TimerHandoff

end Proactor
