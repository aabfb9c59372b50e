import Proactor.Connection.Placement

/-!
# Who destroys a finished coroutine

The frame of a coroutine at its final suspend point is destroyed by a `handleClose`.  On a closing
connection that is the `handleClose` at the end of the fatal branch that resumed the coroutine, or
that of a `Destroyed` functor which one of its awaiters has queued.  Two steps leave the frame with
nobody to destroy it: the first `handleClose`, when it finds a coroutine that has already returned,
and a return on a closing connection that no awaiter has noticed (`abandons`).  Without them a
quiescent closed connection has no frame (`closed_connection_drops_coroutine`); with them the
frame stays, and with it the connection (`finished_coroutine_kept`).
-/

namespace Proactor

open Transition

/-- The loop thread is inside a fatal branch, which ends with `handleClose`. -/
def Ctl.inFatal (c : Ctl) : Bool := c.inReadFatal || c.inWriteFatal

namespace Session

/-- The first `handleClose` would leave the finished coroutine. -/
def finishedUnseen (s : Session) : Bool := s.task && decide (s.co = .final) && !s.destroys

/-- A step after which no `handleClose` is due for the finished coroutine. -/
def abandons (s : Session) : SessionAct → Bool
  | .readCqe res _ more =>
      !more && decide (ReadContext.Fatal res) && s.finishedUnseen && !s.functors.contains .destroyed
  | .writeCqe res =>
      decide (WriteContext.Fatal res) && s.finishedUnseen && !s.functors.contains .destroyed
  | .functor =>
      decide (s.functors.head? = some .destroyed) && s.finishedUnseen &&
        !s.functors.tail.contains .destroyed
  | .co .ret => s.closing && !s.ctl.inFatal && !s.functors.contains .destroyed
  | _ => false

/-- The step keeps somebody in charge of the frame. -/
def Collects (s : Session) (a : SessionAct) : Prop := s.abandons a = false

instance (s : Session) (a : SessionAct) : Decidable (Collects s a) :=
  inferInstanceAs (Decidable (_ = _))

/-- No functor of the connection, no request outstanding, the coroutine at its final suspend
point. -/
def Quiescent (s : Session) : Prop :=
  s.ctl = .idle ∧ s.functors = [] ∧ s.reads = 0 ∧ s.writes = 0 ∧ s.co = .final

instance (s : Session) : Decidable s.Quiescent := inferInstanceAs (Decidable (_ ∧ _))

/-- **The finished coroutine of a closing connection has somebody in charge.** -/
def Collected (s : Session) : Prop :=
  s.task = true → s.co = .final → s.closing = true →
    s.ctl.inFatal = true ∨ .destroyed ∈ s.functors

section

variable {s s' : Session} {a : SessionAct}

/-- A step that leaves the finished coroutine as it is. -/
theorem Collected.keep {t : Session} (hs : s.Collected)
    (hfunctors : .destroyed ∈ s.functors → .destroyed ∈ t.functors)
    (hctl : t.ctl.inFatal = s.ctl.inFatal := by rfl) (htask : t.task = s.task := by rfl)
    (hco : t.co = s.co := by rfl) (hclosing : t.closing = s.closing := by rfl) : t.Collected := by
  simp only [Collected, htask, hco, hclosing, hctl]
  intro alive hfinal closed
  exact (hs alive hfinal closed).imp_right hfunctors

/-- A step after which the coroutine is not at its final suspend point. -/
theorem Collected.of_co (hco : s.co ≠ .final) : s.Collected := fun _ h => absurd h hco

/-- A `handleClose` that leaves a finished coroutine with somebody in charge. -/
theorem Collected.shut (hs : s.finishedUnseen = true → .destroyed ∈ s.functors) :
    s.shut.Collected := by
  intro alive hfinal _
  obtain ⟨htask, hclosing, hr, hw⟩ := shut_task alive
  have hco : s.co = .final := hfinal
  exact .inr (hs (by simp [finishedUnseen, destroys, htask, hco, hclosing, hr, hw]))

/-- The `handleClose` at the end of a fatal branch destroys the coroutine. -/
theorem Collected.of_gone (hgone : s.task = false) : s.Collected :=
  fun alive => absurd (alive.symm.trans hgone) (by decide)

theorem WokeReader.collected (h : WokeReader s s') (hs : s.Collected) : s'.Collected := by
  cases h with
  | asleep => exact hs
  | woken => exact .of_co (by simp)

theorem WokeWriter.collected (h : WokeWriter s s') (hs : s.Collected) : s'.Collected := by
  cases h with
  | asleep => exact hs
  | woken => exact .of_co (by simp)

theorem Move.collected (h : Move s a s') (collects : Collects s a) (hh : s.Handles)
    (hs : s.Collected) : s'.Collected := by
  simp only [Collects, abandons] at collects
  cases h with
  | abort => exact hs.keep id
  | readMore idle out holder status woke => exact woke.collected (hs.keep id)
  | readStopped idle out holder fatal status woke => exact woke.collected (hs.keep id)
  | readAgain idle out holder fatal status woke =>
      rw [submitRead_eq] at woke
      exact woke.collected (hs.keep id)
  | writeMore idle out holder fatal proceeds woke => exact woke.collected (hs.keep id)
  | readFatal => exact .of_co (by simp)
  | writeFatal => exact .of_co (by simp)
  | @readClose res data idle out holder status fatal handle stopped =>
      have ht : (s.took res data false).shut.Collected :=
        .shut (by simpa [took, finishedUnseen, destroys, fatal] using collects)
      exact ht.keep id
  | writeClose idle out holder fatal handle stopped =>
      have ht : ({ s with
          kernelWrites := s.kernelWrites - 1
          write := { s.write with isError := true, isSending := false } } : Session).shut.Collected :=
        .shut (by simpa [finishedUnseen, destroys, fatal] using collects)
      exact ht.keep id
  | established => exact .of_co (by simp)
  | recvRegister idle head alive empty =>
      rw [awaitRead_eq]
      exact hs.keep (by simp [head])
  | recvResume => exact .of_co (by simp)
  | sendRegister idle head alive sends load => exact hs.keep (by simp [wrote, head])
  | sendResume => exact .of_co (by simp)
  | destroyed idle head stopped =>
      exact .shut (by simpa [finishedUnseen, destroys, head] using collects)
  | drainRead => exact hs.keep id
  | drainWrite => exact hs.keep id
  | unwindRead frame stopped =>
      obtain ⟨-, handle, -⟩ := hh.readFrame (by simp [frame, Ctl.inReadFatal])
      exact .of_gone (by simp [shut, endRead, handle])
  | unwindWrite frame stopped =>
      obtain ⟨-, handle, -⟩ := hh.writeFrame (by simp [frame, Ctl.inWriteFatal])
      exact .of_gone (by simp [shut, endWrite, handle])
  | recvReady here => exact .of_co (by simp [recvAwaitResume_eq, here])
  | recvSuspend => exact .of_co (by simp)
  | sendLate here => exact .of_co (by simp [sendAwaitResume_eq, here])
  | sendThrough here => exact .of_co (by simp [sendAwaitResume_eq, wrote, here])
  | sendSuspend => exact .of_co (by simp)
  | switchLoop => exact .of_co (by simp)
  | retLoop here ctl =>
      intro _ _ closed
      have closed : s.closing = true := closed
      by_cases hfatal : s.ctl.inFatal = true
      · exact .inl (by simpa [ctl, Ctl.inFatal] using hfatal)
      · exact .inr (by simpa [closed, hfatal] using collects)
  | recvLate here => exact .of_co (by simp [recvAwaitResume_eq, here])
  | sendLateWorker here => exact .of_co (by simp [sendAwaitResume_eq, here])
  | recvLeave => exact .of_co (by simp)
  | sendLeave => exact .of_co (by simp)
  | switchWorker => exact .of_co (by simp)
  | retWorker here =>
      intro _ _ closed
      have closed : s.closing = true := closed
      by_cases hfatal : s.ctl.inFatal = true
      · exact .inl hfatal
      · exact .inr (by simpa [closed, hfatal] using collects)
  | read => exact hs.keep id
  | @enqueue w here =>
      refine .of_co ?_
      rcases parked_cases w with hp | hp <;> simp [hp]
  | poolTake => exact .of_co (by simp)
  | serverDestroy => exact hs.keep (by simp [queueDestroyed])
  | removeConnection => exact hs.keep id
  | pressure => exact hs.keep id

end

/-- **A closed connection does not keep its finished coroutine**, in every run in which no step
abandons it. -/
theorem closed_connection_drops_coroutine {s : Session}
    {inputHwm inputHwmChunk outputHwm maxSlices : ℕ}
    (run : Reach step Collects (create inputHwm inputHwmChunk outputHwm maxSlices) s)
    (quiet : s.Quiescent) (closed : s.closing = true) : s.task = false := by
  obtain ⟨-, h⟩ := run.invariant (P := fun s => s.Located ∧ s.Collected)
    ⟨located_create _ _ _ _, .of_co (by simp [create, start])⟩
    fun s a s' hs collects move =>
      ⟨(step_move move).located hs.1, (step_move move).collected collects hs.1.handles hs.2⟩
  obtain ⟨idle, drained, -, -, final⟩ := quiet
  by_contra alive
  have := h (by simpa using alive) final closed
  simp [idle, drained, Ctl.inFatal, Ctl.inReadFatal, Ctl.inWriteFatal] at this

/-- The peer disconnects while the coroutine runs on a pool thread; its next await notices, it
returns, and `Destroyed` takes the frame. -/
theorem closed_connection_drops_coroutine_pool :
    ∃ s, Reach step Collects (create 65536 16 65536 256) s ∧ s.Quiescent ∧ s.closing = true ∧
      s.task = false := by
  obtain ⟨s, run, h⟩ := exists_reach step Collects (create 65536 16 65536 256)
    [.functor, .co .prepareToRead, .readCqe 1 [1] true, .co (.read 1), .co .switchThread,
      .poolTake, .readCqe 0 [] false, .co (.send [2]), .co .ret, .functor]
    (fun s => decide (s.Quiescent ∧ s.closing = true)) (by decide +kernel)
  obtain ⟨quiet, closed⟩ := of_decide_eq_true h
  exact ⟨s, run, quiet, closed, closed_connection_drops_coroutine run quiet closed⟩

/-- A coroutine that returns while the connection is open stays when the peer disconnects. -/
theorem finished_coroutine_kept :
    ¬ ∀ s, Reach step anyStep (create 65536 16 65536 256) s → s.Quiescent → s.closing = true →
      s.task = false := by
  intro h
  obtain ⟨s, run, hbad⟩ := exists_reach step anyStep (create 65536 16 65536 256)
    [.functor, .co .prepareToRead, .readCqe 1 [1] true, .co .ret, .readCqe 0 [] false]
    (fun s => decide (s.Quiescent ∧ s.closing = true) && s.task) (by decide +kernel)
  simp only [Bool.and_eq_true, decide_eq_true_eq] at hbad
  exact absurd (hbad.2.symm.trans (h s run hbad.1.1 hbad.1.2)) (by decide)

end Session

end Proactor
