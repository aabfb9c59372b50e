import Proactor.Connection.Wakeup

/-!
# The lifetime of the coroutine

`handleClose` destroys the coroutine of a connection.  That is right when the coroutine is at rest:
at its final suspend point, or suspended with its handle in a context, so that nobody else is going
to use it.  Where the coroutine is, and who has its handle, is known in every run (`Located`); that
what a destroyed coroutine leaves behind is not used again (`Gone`) needs more.

It holds in the runs in which `handleClose` keeps off a coroutine that is not at rest
(`coroutine_lifetime`).  The code does not see to that: on a connection that is closing already it
destroys whatever it finds, and at the end of a fatal branch it goes by a handle that has been
used (`running_coroutine_destroyed`).
-/

namespace Proactor

open Transition

namespace Session

/-- At its final suspend point, or suspended in an awaiter whose functor has run. -/
def atRest (s : Session) : Bool :=
  decide (s.co = .final) || (decide (s.co = .inRecv ∨ s.co = .inSend) && decide (s.awaits = 0))

/-- The connection is closing and its coroutine is neither finished nor destroyed. -/
def orphaned (s : Session) : Bool := s.closing && s.task && decide (s.co ≠ .final)

/-- `handleClose` runs although the coroutine is in use, or will be. -/
def strikes (s : Session) : SessionAct → Bool
  | .readCqe res _ more =>
      !more && decide (ReadContext.Fatal res) && !s.read.readHandle && s.orphaned
  | .writeCqe res => decide (WriteContext.Fatal res) && !s.write.writeHandle && s.orphaned
  | .functor => decide (s.functors.head? = some .destroyed) && s.orphaned
  | .unwind => !s.atRest
  | _ => false

/-- The step leaves a coroutine alone that is not at rest. -/
def Spares (s : Session) (a : SessionAct) : Prop := s.strikes a = false

instance (s : Session) (a : SessionAct) : Decidable (Spares s a) :=
  inferInstanceAs (Decidable (_ = _))

/-- The coroutine is at its final suspend point, or suspended with its handle in a context. -/
def Registered (s : Session) : Prop :=
  s.co = .final ∨ (s.co = .inRecv ∧ s.read.readHandle = true ∧ s.awaits = 0) ∨
    (s.co = .inSend ∧ s.write.writeHandle = true ∧ s.awaits = 0)

/-- **What a destroyed coroutine leaves behind is not used again.**  It was at rest, and on the side
of a handle that is still in its context no completion is due. -/
structure Gone (s : Session) : Prop where
  rest : s.task = false → s.co = .unborn ∨ s.atRest = true
  reader : s.task = false → s.read.readHandle = true → s.read.status = .stoped
  writer : s.task = false → s.write.writeHandle = true → s.writes = 0
  -- the handle that the fatal branch of a write completion leaves in the context
  spent : s.ctl.inWriteFatal = true → s.closing = true → s.writes = 0

section

variable {s s' : Session} {a : SessionAct}

theorem Registered.atRest (h : s.Registered) : s.atRest = true := by
  rcases h with h | ⟨h, -, h0⟩ | ⟨h, -, h0⟩ <;> simp [Session.atRest, h]
  · exact h0
  · exact h0

theorem Registered.not_running (h : s.Registered) : running s.co = false := by
  rcases h with h | ⟨h, -⟩ | ⟨h, -⟩ <;> simp [running, h]

/-- **What a sparing `handleClose` destroys is registered.** -/
theorem Closes.registered (h : Closes s a) (spares : Spares s a) (hs : s.Handles) (hw : s.Waits)
    (destroys : s.destroys = true) (alive : s.task = true) : s.Registered := by
  have hidle : s.ctl = .idle → s.orphaned = false → s.Registered := by
    intro idle horphan
    cases hclosing : s.closing with
    | true => exact .inl (by simpa [orphaned, hclosing, alive] using horphan)
    | false =>
        obtain ⟨h | h, h0⟩ :=
          hs.waiting idle alive (by simpa [Session.destroys, hclosing] using destroys)
        · exact .inr (.inl ⟨h.1, h.2, h0⟩)
        · exact .inr (.inr ⟨h.1, h.2, h0⟩)
  have hback : s.atRest = true → s.Registered := by
    intro rest
    simp only [Session.atRest, Bool.or_eq_true, decide_eq_true_eq, Bool.and_eq_true] at rest
    rcases rest with h | ⟨h | h, h0⟩
    · exact .inl h
    · exact .inr (.inl ⟨h, (hw.recv alive h).resolve_left (awaits_eq_zero.mp h0 _), h0⟩)
    · refine .inr (.inr ⟨h, (hw.send alive h).resolve_left ?_, h0⟩)
      rintro ⟨data, hmem⟩
      exact awaits_eq_zero.mp h0 _ hmem
  cases h with
  | read idle out fatal handle =>
      exact hidle idle (by simpa [Spares, strikes, fatal, handle] using spares)
  | write idle out fatal handle =>
      exact hidle idle (by simpa [Spares, strikes, fatal, handle] using spares)
  | destroyed idle head => exact hidle idle (by simpa [Spares, strikes, head] using spares)
  | unwindRead frame => exact hback (by simpa [Spares, strikes] using spares)
  | unwindWrite frame => exact hback (by simpa [Spares, strikes] using spares)

/-! ## After the end -/

/-- A coroutine that runs has not been destroyed. -/
theorem Gone.alive (hs : s.Gone) (h : running s.co = true) : s.task = true := by
  by_contra hgone
  rcases hs.rest (by simpa using hgone) with hco | hrest
  · simp [hco, running] at h
  · cases hco : s.co <;> simp [hco, running, Session.atRest] at h hrest

/-- A step that does not touch the coroutine, its handles or their requests. -/
theorem Gone.keep {t : Session} (hs : s.Gone) (hawaits : t.awaits = s.awaits := by rfl)
    (hwrites : t.writes = s.writes := by rfl)
    (hctl : t.ctl.inWriteFatal = s.ctl.inWriteFatal := by rfl) (htask : t.task = s.task := by rfl)
    (hco : t.co = s.co := by rfl) (hclosing : t.closing = s.closing := by rfl)
    (hread : t.read = s.read := by rfl)
    (hwriter : t.write.writeHandle = s.write.writeHandle := by rfl) : t.Gone := by
  obtain ⟨h₁, h₂, h₃, h₄⟩ := hs
  constructor
  · rwa [atRest, htask, hco, hawaits]
  · rwa [htask, hread]
  · rwa [htask, hwriter, hwrites]
  · rwa [hctl, hclosing, hwrites]

/-- While the coroutine is there, only a fatal branch matters. -/
theorem Gone.live (alive : s.task = true)
    (spent : s.ctl.inWriteFatal = true → s.closing = true → s.writes = 0) : s.Gone :=
  ⟨by simp [alive], by simp [alive], by simp [alive], spent⟩

theorem Gone.woken {frame : Frame} (alive : s.task = true) (hframe : frame ≠ .writeFatal) :
    (s.woken frame).Gone :=
  Gone.live (by simpa using alive) (by simp [Ctl.inWriteFatal, hframe])

/-- A completion of the read side that wakes the coroutine, or finds no handle. -/
theorem WokeReader.gone {t : Session} (h : WokeReader t s') (hs : s.Gone)
    (hawaits : t.awaits = s.awaits := by rfl) (hwrites : t.writes = s.writes := by rfl)
    (hctl : t.ctl.inWriteFatal = s.ctl.inWriteFatal := by rfl) (htask : t.task = s.task := by rfl)
    (hco : t.co = s.co := by rfl) (hclosing : t.closing = s.closing := by rfl)
    (hwriter : t.write.writeHandle = s.write.writeHandle := by rfl) : s'.Gone := by
  cases h with
  | asleep handle =>
      obtain ⟨h₁, -, h₃, h₄⟩ := hs
      refine ⟨?_, by simp [handle], ?_, ?_⟩
      · rwa [atRest, htask, hco, hawaits]
      · rwa [htask, hwriter, hwrites]
      · rwa [hctl, hclosing, hwrites]
  | woken handle alive => exact Gone.woken alive (by decide)

/-- A finished coroutine has no handle in a context. -/
theorem Handles.finished (hs : s.Handles) (idle : s.ctl = .idle) (alive : s.task = true)
    (closed : s.closing = true) (horphan : s.orphaned = false) :
    s.read.readHandle = false ∧ s.write.writeHandle = false := by
  have hco : s.co = .final := by simpa [orphaned, closed, alive] using horphan
  by_contra h
  rw [not_and_or, Bool.not_eq_false, Bool.not_eq_false] at h
  obtain ⟨⟨h, -⟩ | ⟨h, -⟩, -⟩ := hs.waiting idle alive h
  · exact absurd (hco.symm.trans h) (by decide)
  · exact absurd (hco.symm.trans h) (by decide)

/-- What a sparing `handleClose` leaves behind, when the loop thread comes to it between two
handlers. -/
theorem Gone.shut (hs : s.Gone) (hh : s.Handles) (idle : s.ctl = .idle)
    (horphan : s.orphaned = false)
    (hrest : s.destroys = true → s.task = true → s.atRest = true) : s.shut.Gone := by
  have hdead : s.closing = true → s.read.readHandle = true ∨ s.write.writeHandle = true →
      s.task = false := by
    intro closed handle
    by_contra alive
    obtain ⟨hr, hw⟩ := hh.finished idle (by simpa using alive) closed horphan
    simp [hr, hw] at handle
  refine ⟨?_, ?_, ?_,
    by simp [Session.shut, idle, Ctl.inWriteFatal]⟩
  · intro gone
    by_cases alive : s.task = true
    · refine .inr (hrest ?_ alive)
      by_contra hd
      simp only [destroys, Bool.or_eq_true, not_or, Bool.not_eq_true] at hd
      simp [Session.shut, alive, hd] at gone
    · exact hs.rest (by simpa using alive)
  · intro _ handle
    obtain ⟨handle, closed⟩ : s.read.readHandle = true ∧ s.closing = true := by
      simpa [Session.shut] using handle
    exact hs.reader (hdead closed (.inl handle)) handle
  · intro _ handle
    obtain ⟨handle, closed⟩ : s.write.writeHandle = true ∧ s.closing = true := by
      simpa [Session.shut] using handle
    exact hs.writer (hdead closed (.inr handle)) handle

theorem Move.gone (h : Move s a s') (spares : Spares s a) (ha : s.Awaited) (hs : s.Gone) :
    s'.Gone := by
  have hrest : Closes s a → s.destroys = true → s.task = true → s.atRest = true :=
    fun closes hd alive => (closes.registered spares ha.handles ha.waits hd alive).atRest
  cases h with
  | abort => exact hs.keep
  | readMore idle out holder status woke => exact woke.gone hs
  | readStopped idle out holder fatal status woke => exact woke.gone hs
  | readAgain idle out holder fatal status woke =>
      rw [submitRead_eq] at woke
      exact woke.gone hs rfl (by simp [writes, took])
  | writeMore idle out holder fatal proceeds woke =>
      obtain ⟨-, -, -, hhandle, -, -⟩ := WriteContext.proceed_frame proceeds
      rw [s.write.acknowledge_writeHandle] at hhandle
      cases woke with
      | asleep =>
          refine ⟨hs.rest, hs.reader, ?_, by simp [wrote, idle, Ctl.inWriteFatal]⟩
          intro gone handle
          have hnone := hs.writer gone (hhandle ▸ handle)
          simp only [writes] at hnone
          omega
      | woken handle drained alive => exact Gone.woken alive (by decide)
  | readFatal idle out holder status fatal handle alive => exact Gone.woken alive (by decide)
  | writeFatal idle out holder fatal handle alive =>
      obtain ⟨hkernel, hcount⟩ := ha.writer.last alive out
      exact Gone.live (by simpa using alive) (by simp [writes, hkernel, hcount])
  | readClose idle out holder status fatal handle stopped =>
      have horphan : s.orphaned = false := by
        simpa [Spares, strikes, fatal, handle] using spares
      obtain ⟨ht₁, -, ht₃, ht₄⟩ :=
        hs.shut ha.handles idle horphan (hrest (.read idle out fatal handle))
      refine ⟨fun gone => ht₁ ?_, fun _ _ => rfl, fun gone => ht₃ ?_, ht₄⟩
      · simpa [took, shut, endRead] using gone
      · simpa [took, shut, endRead] using gone
  | writeClose idle out holder fatal handle stopped =>
      have horphan : s.orphaned = false := by
        simpa [Spares, strikes, fatal, handle] using spares
      obtain ⟨ht₁, ht₂, -, -⟩ :=
        hs.shut ha.handles idle horphan (hrest (.write idle out fatal handle))
      exact ⟨ht₁, ht₂, by simp [shut, endWrite, handle],
        by simp [shut, endWrite, idle, Ctl.inWriteFatal]⟩
  | established idle head => exact Gone.live rfl (by simp [Ctl.inWriteFatal])
  | recvRegister idle head alive empty =>
      rw [awaitRead_eq]
      exact Gone.live alive (by simp [idle, Ctl.inWriteFatal])
  | recvResume idle head alive empty => exact Gone.woken alive (by decide)
  | sendRegister idle head alive sends load =>
      exact Gone.live alive (by simp [wrote, idle, Ctl.inWriteFatal])
  | sendResume idle head alive sends load => exact Gone.woken alive (by decide)
  | destroyed idle head stopped =>
      have horphan : s.orphaned = false := by simpa [Spares, strikes, head] using spares
      refine (hs.shut ha.handles idle horphan (hrest (.destroyed idle head))).keep ?_
      simp [awaits, shut, head, QueuedFunctor.isAwait]
  | drainRead idle head => exact hs.keep rfl (by simp [writes, prepareRead, head])
  | drainWrite idle head =>
      refine hs.keep rfl ?_
      simp [writes, prepareWrite, head]
      omega
  | unwindRead frame stopped =>
      obtain ⟨alive, handle, hother⟩ := ha.handles.readFrame (by simp [frame, Ctl.inReadFatal])
      have hr := hrest (.unwindRead frame) (by simp [destroys, handle]) alive
      refine ⟨fun _ => .inr hr, fun _ _ => rfl, ?_, by simp [shut, endRead, Ctl.inWriteFatal]⟩
      intro _ h
      obtain ⟨h, closed⟩ : s.write.writeHandle = true ∧ s.closing = true := by
        simpa [shut, endRead] using h
      simp [hother closed] at h
  | unwindWrite frame stopped =>
      have hframe : s.ctl.inWriteFatal = true := by simp [frame, Ctl.inWriteFatal]
      obtain ⟨alive, handle, hother⟩ := ha.handles.writeFrame hframe
      have hr := hrest (.unwindWrite frame) (by simp [destroys, handle]) alive
      refine ⟨fun _ => .inr hr, ?_, ?_, by simp [shut, endWrite, Ctl.inWriteFatal]⟩
      · intro _ h
        obtain ⟨h, closed⟩ : s.read.readHandle = true ∧ s.closing = true := by
          simpa [shut, endWrite] using h
        simp [hother closed] at h
      · intro _ h
        obtain ⟨-, closed⟩ : s.write.writeHandle = true ∧ s.closing = true := by
          simpa [shut, endWrite] using h
        exact hs.spent hframe closed
  | recvReady here ctl =>
      rw [recvAwaitResume_eq]
      exact hs.keep (by simp [awaits])
  | recvSuspend here ctl opened empty =>
      rw [awaitRead_eq]
      exact Gone.live (hs.alive (by simp [here, running])) (by simp [opened])
  | sendLate here ctl closed =>
      rw [sendAwaitResume_eq]
      exact hs.keep (by simp [awaits])
  | sendThrough here ctl opened sends load =>
      rw [sendAwaitResume_eq]
      exact Gone.live (hs.alive (by simp [here, running])) (by simp [wrote, opened])
  | sendSuspend here ctl opened sends load =>
      exact Gone.live (hs.alive (by simp [here, running])) (by simp [wrote, opened])
  | switchLoop here ctl =>
      exact Gone.live (hs.alive (by simp [here, running])) (by simpa [ctl, writes] using hs.spent)
  | retLoop here ctl =>
      exact Gone.live (hs.alive (by simp [here, running])) (by simpa [ctl, writes] using hs.spent)
  | recvLate here closed =>
      rw [recvAwaitResume_eq]
      exact hs.keep (by simp [awaits])
  | sendLateWorker here closed =>
      rw [sendAwaitResume_eq]
      exact hs.keep (by simp [awaits])
  | recvLeave here opened => exact Gone.live (hs.alive (by simp [here, running])) hs.spent
  | sendLeave here opened => exact Gone.live (hs.alive (by simp [here, running])) hs.spent
  | switchWorker here => exact Gone.live (hs.alive (by simp [here, running])) hs.spent
  | retWorker here => exact Gone.live (hs.alive (by simp [here, running])) hs.spent
  | read => exact ⟨hs.rest, hs.reader, hs.writer, hs.spent⟩
  | enqueue here => exact Gone.live (hs.alive (by simp [here, running])) hs.spent
  | poolTake queued alive here => exact Gone.live alive hs.spent
  | serverDestroy entry =>
      exact hs.keep (by simp [awaits, queueDestroyed, QueuedFunctor.isAwait])
  | removeConnection => exact hs.keep
  | pressure => exact hs.keep

/-! ## Faults and destructions -/

/-- Only `handleClose` takes the frame away. -/
theorem Move.closes (h : Move s a s') (alive : s.task = true) (gone : s'.task = false) :
    Closes s a ∧ s.destroys = true := by
  have hshut : s.shut.task = false → s.destroys = true := by
    intro h
    by_contra hd
    simp only [destroys, Bool.or_eq_true, not_or, Bool.not_eq_true] at hd
    simp [shut, alive, hd] at h
  cases h with
  | readMore idle out holder status woke => cases woke <;> simp_all [took]
  | readStopped idle out holder fatal status woke => cases woke <;> simp_all [took, endRead]
  | readAgain idle out holder fatal status woke => cases woke <;> simp_all [took, submitRead_eq]
  | writeMore idle out holder fatal proceeds woke => cases woke <;> simp_all [wrote]
  | readClose idle out holder status fatal handle stopped =>
      exact ⟨.read idle out fatal handle, hshut (by simpa [took, shut, endRead] using gone)⟩
  | writeClose idle out holder fatal handle stopped =>
      exact ⟨.write idle out fatal handle, hshut gone⟩
  | destroyed idle head stopped => exact ⟨.destroyed idle head, hshut gone⟩
  | unwindRead frame stopped => exact ⟨.unwindRead frame, hshut gone⟩
  | unwindWrite frame stopped => exact ⟨.unwindWrite frame, hshut gone⟩
  | _ =>
      simp_all [took, wrote, awaitRead_eq, prepareRead, prepareWrite, recvAwaitResume_eq,
        sendAwaitResume_eq, queueDestroyed]

/-- **The invariant of a sparing run.** -/
structure Lifetime (s : Session) : Prop extends Awaited s where
  gone : s.Gone

theorem Move.lifetime (h : Move s a s') (spares : Spares s a) (hs : s.Lifetime) :
    s'.Lifetime where
  toAwaited := h.awaited hs.toAwaited
  gone := h.gone spares hs.toAwaited hs.gone

/-- No frame is used after its end. -/
theorem Lifetime.uses (hs : s.Lifetime) (h : Uses s a) : s.task = true := by
  by_contra hgone
  rw [Bool.not_eq_true] at hgone
  cases h with
  | read idle out handle =>
      have hreads := hs.protocol.reads_eq
      simp [ReadContext.active, hs.gone.reader hgone handle, reads] at hreads
      omega
  | write idle out handle =>
      have hnone := hs.gone.writer hgone handle
      simp only [writes] at hnone
      omega
  | @await w fs idle head =>
      have hco := (hs.placed.head_free head).1
      have hpos : s.awaits ≠ 0 := by simp [awaits, head, QueuedFunctor.isAwait]
      rcases hs.gone.rest hgone with h | h
      · exact parked_ne_unborn w (hco.symm.trans h)
      · rcases parked_cases w with hp | hp <;> simp [atRest, hco, hp, hpos] at h
  | pool queued =>
      have hco := hs.placed.pool queued
      rcases hs.gone.rest hgone with h | h
      · exact absurd (hco.symm.trans h) (by decide)
      · simp [atRest, hco] at h

theorem Move.no_frame_fault (h : Move s a s') (spares : Spares s a) (hs : s.Lifetime)
    (hf : s.fault ≠ some .destroyRunning ∧ s.fault ≠ some .destroyedFrame) :
    s'.fault ≠ some .destroyRunning ∧ s'.fault ≠ some .destroyedFrame := by
  rcases h.fault_cases with heq | ⟨f, fails, heq⟩
  · rwa [heq]
  · rw [heq]
    cases fails with
    | destroyRunning closes destroys alive running =>
        have := (closes.registered spares hs.handles hs.waits destroys alive).not_running
        exact absurd (running.symm.trans this) (by decide)
    | destroyedFrame uses gone => exact absurd ((hs.uses uses).symm.trans gone) (by decide)
    | _ => simp

theorem lifetime_create (inputHwm inputHwmChunk outputHwm maxSlices : ℕ) :
    (create inputHwm inputHwmChunk outputHwm maxSlices).Lifetime where
  toAwaited := awaited_create _ _ _ _
  gone := ⟨fun _ => .inl rfl, by simp [create, start, ReadContext.create],
    by simp [create, start, WriteContext.create], by simp [create, start]⟩

end

/-- **The lifetime of the coroutine.**  In every run in which `handleClose` spares a coroutine that
is not at rest: a step that destroys the coroutine finds it at its final suspend point, or suspended
with its handle in a context and no functor of its awaiter queued; no running coroutine is
destroyed; and no step uses a frame that has been destroyed. -/
theorem coroutine_lifetime {s : Session} {inputHwm inputHwmChunk outputHwm maxSlices : ℕ}
    (run : Reach step Spares (create inputHwm inputHwmChunk outputHwm maxSlices) s) :
    (∀ a s', Spares s a → s.step a = some s' → s.task = true → s'.task = false → s.Registered) ∧
      s.fault ≠ some .destroyRunning ∧ s.fault ≠ some .destroyedFrame := by
  obtain ⟨h, hf⟩ := run.invariant (P := fun s => s.Lifetime ∧
      s.fault ≠ some .destroyRunning ∧ s.fault ≠ some .destroyedFrame)
    ⟨lifetime_create _ _ _ _, by simp [create, start], by simp [create, start]⟩
    fun s a s' hs spares move =>
      ⟨(step_move move).lifetime spares hs.1, (step_move move).no_frame_fault spares hs.1 hs.2⟩
  refine ⟨?_, hf⟩
  intro a s' spares move alive gone
  obtain ⟨closes, destroys⟩ := (step_move move).closes alive gone
  exact closes.registered spares h.handles h.waits destroys alive

/-- The peer disconnects while the coroutine runs on a pool thread, after its last write: the
connection closes, the coroutine notices, returns, and `Destroyed` finds it finished. -/
theorem coroutine_lifetime_pool :
    ∃ s s', Reach step Spares (create 65536 16 65536 256) s ∧ s.step .functor = some s' ∧
      s.task = true ∧ s'.task = false ∧ s.Registered := by
  obtain ⟨s, run, h⟩ := exists_reach step Spares (create 65536 16 65536 256)
    [.functor, .co .prepareToRead, .readCqe 1 [1] true, .co (.send [2]), .co .switchThread,
      .poolTake, .readCqe 0 [] false, .writeCqe 1, .co (.send [3]), .co .ret]
    (fun s => decide (Spares s .functor) && s.task && (s.step .functor).any fun s' => !s'.task)
    (by decide +kernel)
  simp only [Bool.and_eq_true, decide_eq_true_eq, Option.any_eq_true, Bool.not_eq_true'] at h
  obtain ⟨⟨spares, alive⟩, s', move, gone⟩ := h
  exact ⟨s, s', run, move, alive, gone, (coroutine_lifetime run).1 _ _ spares move alive gone⟩

/-- A coroutine that runs on a pool thread when both directions fail: the end of the read closes the
connection, the failed write destroys the coroutine. -/
theorem running_coroutine_destroyed :
    ¬ ∀ s, Reach step anyStep (create 65536 16 65536 256) s →
      (∀ a s', s.step a = some s' → s.task = true → s'.task = false → s.Registered) ∧
        s.fault ≠ some .destroyRunning ∧ s.fault ≠ some .destroyedFrame := by
  intro h
  obtain ⟨s, run, hbad⟩ := exists_reach step anyStep (create 65536 16 65536 256)
    [.functor, .co .prepareToRead, .readCqe 1 [1] true, .co (.send [2]), .co .switchThread,
      .poolTake, .readCqe 0 [] false, .writeCqe (-EPIPE)]
    (fun s => decide (s.fault = some .destroyRunning)) (by decide +kernel)
  exact (h s run).2.1 (of_decide_eq_true hbad)

end Session

end Proactor
