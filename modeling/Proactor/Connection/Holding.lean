import Proactor.Connection.ClosedFd

/-!
# What holds a connection

A `TcpConnection` lives as long as somebody has a shared pointer to it.  Four kinds of owner belong
to the connection itself: the frame of its coroutine, the holders of its two contexts, and the
functors in the queue of its loop that captured it (`Session.held`).  The fifth, the server's table,
is in `Server`.

`Hold` sums up what a step does to them.  Apart from a `Destroyed` functor, which is used up by
being run, owners only go in the last part of an `on_completion` that ends its request: that gives
up the holder of its context, and before it, if the result is fatal, calls `handleClose`, which may
destroy the coroutine.  Which completions those are can be told before they run (`endsRead`,
`endsWrite`, `callsClose`), and so can whether another of the owners is left after it (`keeps`).
-/

namespace Proactor

/-- A functor that captured the connection; those of the awaiters have plain pointers. -/
def QueuedFunctor.owns : QueuedFunctor → Bool
  | .established | .destroyed => true
  | .await _ => false

/-- A part of an `on_completion`. -/
def SessionAct.inCompletion : SessionAct → Bool
  | .readCqe .. | .writeCqe _ | .unwind | .readRace => true
  | _ => false

/-- `on_completion` stops the receive: it has been cancelled, or the payload is one too many. -/
def ReadContext.stops (r : ReadContext) (res : ℤ) (data : List UInt8) : Bool :=
  decide (r.status = .canceling) || decide (0 < res) && r.fills data

theorem ReadContext.takeResult_canceling (r : ReadContext) (res : ℤ) (data : List UInt8) :
    (r.takeResult res data).2.1.status = .canceling ↔ r.stops res data = true := by
  by_cases hres : res ≤ 0
  · simp [takeResult, hres, handleError_eq r hres, stops, Int.not_lt.mpr hres]
  · have hpos : 0 < res := Int.not_le.mp hres
    simp only [takeResult, if_neg hres, receive, stops, fills, hpos, decide_true, Bool.true_and,
      Bool.or_eq_true, decide_eq_true_eq]
    split
    case isTrue h => simp [h.1]
    case isFalse h =>
      by_cases hcancel : r.status = .canceling
      · simp [hcancel]
      · simp only [hcancel, false_or, false_iff]
        exact fun hload => h ⟨hload, hcancel⟩

namespace Session

def held (s : Session) : Bool :=
  s.task || s.read.holder || s.write.holder || s.functors.any QueuedFunctor.owns

/-- A step in which the loop thread takes part, and not one of a pool thread or the kernel alone. -/
def byLoop (s : Session) : SessionAct → Bool
  | .readCqe .. | .writeCqe _ | .functor | .drain | .unwind | .readRace => true
  | .co _ => decide (s.co ≠ .onWorker)
  | _ => false

/-- The step gives up the holder of the read context. -/
def endsRead (s : Session) : SessionAct → Bool
  | .readCqe res data more =>
      !more && if ReadContext.Fatal res then !s.read.readHandle else s.read.stops res data
  | .unwind => decide (s.ctl = .back .readFatal)
  | _ => false

/-- The step gives up the holder of the write context. -/
def endsWrite (s : Session) : SessionAct → Bool
  | .writeCqe res =>
      if WriteContext.Fatal res then !s.write.writeHandle
      else decide (s.write.outputBuffer.totalLen ≤ res.toNat)
  | .unwind => decide (s.ctl = .back .writeFatal)
  | _ => false

/-- The step is a completion that calls `handleClose`. -/
def callsClose (s : Session) : SessionAct → Bool
  | .readCqe res _ more => !more && decide (ReadContext.Fatal res) && !s.read.readHandle
  | .writeCqe res => decide (WriteContext.Fatal res) && !s.write.writeHandle
  | .unwind => true
  | _ => false

/-- Another owner of the connection's own is left when the step gives up a holder: a functor, the
frame of a coroutine that is not destroyed, or the other context's request. -/
def keeps (s : Session) (a : SessionAct) : Bool :=
  s.functors.any QueuedFunctor.owns || s.task && !(s.callsClose a && s.destroys) ||
    if s.endsRead a then s.write.holder else s.read.holder

/-- **What a step does to the owners.** -/
inductive Hold (s : Session) (a : SessionAct) (t : Session) : Prop
  | grow (closing : t.closing = s.closing) (held : s.held = true → t.held = true)
      (read : s.read.holder = true → t.read.holder = true)
      (write : s.write.holder = true → t.write.holder = true)
  | destroyed (act : a = .functor) (owner : s.functors.any QueuedFunctor.owns = true)
      (closing : t.closing = true) (read : t.read.holder = s.read.holder)
      (write : t.write.holder = s.write.holder)
  | read (ends : s.endsRead a = true) (closing : t.closing = (s.closing || s.callsClose a))
      (task : t.task = (s.task && !(s.callsClose a && s.destroys)))
      (functors : s.functors.any QueuedFunctor.owns = true →
        t.functors.any QueuedFunctor.owns = true) (write : t.write.holder = s.write.holder)
  | write (ends : s.endsWrite a = true) (other : s.endsRead a = false)
      (closing : t.closing = (s.closing || s.callsClose a))
      (task : t.task = (s.task && !(s.callsClose a && s.destroys)))
      (functors : s.functors.any QueuedFunctor.owns = true →
        t.functors.any QueuedFunctor.owns = true) (read : t.read.holder = s.read.holder)

section

variable {s s' t : Session} {a : SessionAct}

/-- A step that loses no owner, field by field. -/
theorem Hold.of_grow (closing : t.closing = s.closing := by rfl)
    (task : s.task = true → t.task = true := by exact id)
    (read : s.read.holder = true → t.read.holder = true := by exact id)
    (write : s.write.holder = true → t.write.holder = true := by exact id)
    (functors : s.functors.any QueuedFunctor.owns = true →
      t.functors.any QueuedFunctor.owns = true := by exact id) : Hold s a t := by
  refine .grow closing ?_ read write
  simp only [held, Bool.or_eq_true]
  rintro (((h | h) | h) | h)
  · exact .inl (.inl (.inl (task h)))
  · exact .inl (.inl (.inr (read h)))
  · exact .inl (.inr (write h))
  · exact .inr (functors h)

/-- The fields of a session that say who holds it are as before, but for new functors. -/
structure SameHolds (s t : Session) : Prop where
  closing : t.closing = s.closing := by rfl
  task : t.task = s.task := by rfl
  read : t.read.holder = s.read.holder := by rfl
  write : t.write.holder = s.write.holder := by rfl
  functors : s.functors.any QueuedFunctor.owns = true →
    t.functors.any QueuedFunctor.owns = true := by exact id

theorem any_owns_append {fs : List QueuedFunctor} (gs : List QueuedFunctor)
    (h : fs.any QueuedFunctor.owns = true) : (fs ++ gs).any QueuedFunctor.owns = true := by
  rw [List.any_append, h, Bool.true_or]

theorem WokeReader.sameHolds (h : WokeReader s t) : SameHolds s t := by
  cases h with
  | asleep => exact {}
  | woken =>
      exact ⟨by simp, by simp, by simp, by simp, fun h => by
        rw [woken_functors]; exact any_owns_append _ h⟩

theorem WokeWriter.sameHolds (h : WokeWriter s t) : SameHolds s t := by
  cases h with
  | asleep => exact {}
  | woken =>
      exact ⟨by simp, by simp, by simp, by simp, fun h => by
        rw [woken_functors]; exact any_owns_append _ h⟩

theorem SameHolds.hold (h : SameHolds s t) : Hold s a t :=
  .of_grow h.closing (fun ht => h.task ▸ ht) (fun hr => h.read ▸ hr) (fun hw => h.write ▸ hw)
    h.functors

theorem Move.hold (h : Move s a t) (hq : s.write.Queued) : Hold s a t := by
  cases h with
  | abort => exact SameHolds.hold {}
  | readMore idle out holder status woke =>
      obtain ⟨h₁, h₂, h₃, h₄, h₅⟩ := woke.sameHolds
      exact SameHolds.hold ⟨h₁, h₂, h₃.trans (s.took_frame _ _ _).1, h₄, h₅⟩
  | @readStopped res data _ idle out holder fatal status woke =>
      obtain ⟨h₁, h₂, -, h₄, h₅⟩ := woke.sameHolds
      have hcalls : s.callsClose (.readCqe res data false) = false := by simp [callsClose, fatal]
      refine .read ?_ ?_ ?_ h₅ h₄
      · simp [endsRead, fatal, (s.read.takeResult_canceling res data).mp status]
      · rw [hcalls, Bool.or_false]
        exact h₁
      · rw [hcalls, Bool.false_and, Bool.not_false, Bool.and_true]
        exact h₂
  | readAgain idle out holder fatal status woke =>
      rw [submitRead_eq] at woke
      obtain ⟨h₁, h₂, h₃, h₄, h₅⟩ := woke.sameHolds
      exact SameHolds.hold ⟨h₁, h₂, h₃.trans holder.symm, h₄, h₅⟩
  | readFatal idle out holder status fatal handle alive =>
      exact SameHolds.hold ⟨by simp [took], by simp [took], by simp [took], by simp [took],
        fun h => by rw [woken_functors]; exact any_owns_append _ h⟩
  | readClose idle out holder status fatal handle stopped =>
      refine .read ?_ ?_ ?_ id rfl
      · simp [endsRead, fatal, handle]
      · simp [callsClose, fatal, handle, endRead, shut]
      · simp [callsClose, fatal, handle, endRead, shut, took, destroys]
  | @writeMore res w flushed _ idle out holder fatal proceeds woke =>
      obtain ⟨h₁, h₂, h₃, h₄, h₅⟩ := woke.sameHolds
      obtain ⟨hflush, -, hhold, -⟩ := WriteContext.proceed_frame proceeds
      rw [s.write.acknowledge_holder, holder, Bool.true_and] at hhold
      have hwrite : t.write.holder = flushed := h₄.trans hhold
      cases flushed with
      | true => exact SameHolds.hold ⟨h₁, h₂, h₃, hwrite.trans holder.symm, h₅⟩
      | false =>
          have hlen : s.write.outputBuffer.totalLen ≤ res.toNat := by
            have hnone := of_decide_eq_false hflush.symm
            rw [hq.acknowledge_totalLen fatal] at hnone
            omega
          have hcalls : s.callsClose (.writeCqe res) = false := by simp [callsClose, fatal]
          refine .write ?_ rfl ?_ ?_ h₅ h₃
          · simp [endsWrite, fatal, hlen]
          · rw [hcalls, Bool.or_false]
            exact h₁
          · rw [hcalls, Bool.false_and, Bool.not_false, Bool.and_true]
            exact h₂
  | writeFatal idle out holder fatal handle alive =>
      exact SameHolds.hold ⟨by simp, by simp, by simp, by simp,
        fun h => by rw [woken_functors]; exact any_owns_append _ h⟩
  | writeClose idle out holder fatal handle stopped =>
      refine .write ?_ rfl ?_ ?_ id rfl
      · simp [endsWrite, fatal, handle]
      · simp [callsClose, fatal, handle, endWrite, shut]
      · simp [callsClose, fatal, handle, endWrite, shut, destroys]
  | established idle head =>
      exact .grow rfl (fun _ => by simp [held]) id id
  | recvRegister idle head alive empty =>
      rw [awaitRead_eq]
      exact .of_grow rfl id (fun h => by simp [h]) id (by simp [head, QueuedFunctor.owns])
  | recvResume idle head alive empty =>
      exact SameHolds.hold ⟨by simp, by simp, by simp, by simp,
        by simp +contextual [head, QueuedFunctor.owns]⟩
  | sendRegister idle head alive sends load =>
      obtain ⟨-, -, hhold, -⟩ := WriteContext.sendInLoop_frame sends
      exact .of_grow rfl id id (fun h => by simp [wrote, hhold, h])
        (by simp [wrote, head, QueuedFunctor.owns])
  | sendResume idle head alive sends load =>
      obtain ⟨-, -, hhold, -⟩ := WriteContext.sendInLoop_frame sends
      exact .of_grow (by simp [wrote]) (by simp [wrote]) (by simp [wrote])
        (fun h => by simp [wrote, hhold, h])
        (by simp +contextual [wrote, head, QueuedFunctor.owns])
  | destroyed idle head stopped =>
      exact .destroyed rfl (by simp [head, QueuedFunctor.owns]) rfl rfl rfl
  | drainRead => exact SameHolds.hold {}
  | drainWrite => exact SameHolds.hold {}
  | unwindRead frame stopped =>
      refine .read ?_ ?_ ?_ id rfl
      · simp [endsRead, frame]
      · simp [callsClose, endRead, shut]
      · simp [callsClose, endRead, shut, destroys]
  | unwindWrite frame stopped =>
      refine .write ?_ ?_ ?_ ?_ id rfl
      · simp [endsWrite, frame]
      · simp [endsRead, frame]
      · simp [callsClose, endWrite, shut]
      · simp [callsClose, endWrite, shut, destroys]
  | recvReady =>
      rw [recvAwaitResume_eq]
      exact SameHolds.hold ⟨rfl, rfl, rfl, rfl, any_owns_append _⟩
  | recvSuspend here ctl opened empty =>
      rw [awaitRead_eq]
      exact .of_grow rfl id (fun h => by simp [h])
  | sendLate =>
      rw [sendAwaitResume_eq]
      exact SameHolds.hold ⟨rfl, rfl, rfl, rfl, any_owns_append _⟩
  | sendThrough here ctl opened sends load =>
      obtain ⟨-, -, hhold, -⟩ := WriteContext.sendInLoop_frame sends
      rw [sendAwaitResume_eq]
      exact .of_grow rfl id id (fun h => by simp [wrote, hhold, h]) (any_owns_append _)
  | sendSuspend here ctl opened sends load =>
      obtain ⟨-, -, hhold, -⟩ := WriteContext.sendInLoop_frame sends
      exact .of_grow rfl id id (fun h => by simp [wrote, hhold, h])
  | switchLoop => exact SameHolds.hold {}
  | retLoop => exact SameHolds.hold {}
  | recvLate =>
      rw [recvAwaitResume_eq]
      exact SameHolds.hold ⟨rfl, rfl, rfl, rfl, any_owns_append _⟩
  | sendLateWorker =>
      rw [sendAwaitResume_eq]
      exact SameHolds.hold ⟨rfl, rfl, rfl, rfl, any_owns_append _⟩
  | recvLeave => exact SameHolds.hold {}
  | sendLeave => exact SameHolds.hold {}
  | switchWorker => exact SameHolds.hold {}
  | retWorker => exact SameHolds.hold {}
  | read => exact SameHolds.hold {}
  | enqueue => exact SameHolds.hold ⟨rfl, rfl, rfl, rfl, any_owns_append _⟩
  | poolTake => exact SameHolds.hold {}
  | serverDestroy => exact SameHolds.hold ⟨rfl, rfl, rfl, rfl, any_owns_append _⟩
  | removeConnection => exact SameHolds.hold {}
  | pressure => exact SameHolds.hold {}

/-! ## What follows -/

/-- A closed connection stays closed. -/
theorem Move.closing_mono (h : Move s a t) (closed : s.closing = true) : t.closing = true := by
  cases h with
  | readMore _ _ _ _ woke => exact woke.sameHolds.closing.trans closed
  | readStopped _ _ _ _ _ woke => exact woke.sameHolds.closing.trans closed
  | readAgain _ _ _ _ _ woke =>
      rw [submitRead_eq] at woke
      exact woke.sameHolds.closing.trans closed
  | writeMore _ _ _ _ _ woke => exact woke.sameHolds.closing.trans closed
  | _ =>
      simp [closed, took, shut, endRead, endWrite, wrote, awaitRead_eq, prepareRead, prepareWrite,
        recvAwaitResume_eq, sendAwaitResume_eq, queueDestroyed]

/-- A holder that is given up: the completion could be told, and what is left is in `keeps`. -/
theorem Hold.ends (h : Hold s a t)
    (flip : (s.read.holder && !t.read.holder || s.write.holder && !t.write.holder) = true) :
    (s.endsRead a || s.endsWrite a) = true ∧ t.closing = (s.closing || s.callsClose a) ∧
      (s.keeps a = true → t.held = true) := by
  cases h with
  | grow _ _ read write =>
      cases hr : s.read.holder <;> cases hw : s.write.holder <;> simp_all
  | destroyed _ _ _ read write =>
      cases hr : s.read.holder <;> cases hw : s.write.holder <;> simp_all
  | read ends closing task functors write =>
      refine ⟨by rw [ends, Bool.true_or], closing, ?_⟩
      simp only [keeps, ends, if_true, Bool.or_eq_true, ← task, ← write]
      rintro ((h | h) | h)
      · simp [held, functors h]
      · simp [held, h]
      · simp [held, h]
  | write ends other closing task functors read =>
      refine ⟨by rw [ends, Bool.or_true], closing, ?_⟩
      simp only [keeps, other, Bool.false_eq_true, if_false, Bool.or_eq_true, ← task, ← read]
      rintro ((h | h) | h)
      · simp [held, functors h]
      · simp [held, h]
      · simp [held, h]

/-- Pool threads and the kernel take nothing away. -/
theorem Hold.offLoop (h : Hold s a t) (off : s.byLoop a = false) :
    t.closing = s.closing ∧ (s.held = true → t.held = true) := by
  cases h with
  | grow closing held => exact ⟨closing, held⟩
  | destroyed act => simp [act, byLoop] at off
  | read ends => cases a <;> simp [byLoop, endsRead] at off ends
  | write ends => cases a <;> simp [byLoop, endsWrite] at off ends

/-! ## A connection without owners -/

/-- A coroutine that is running has not been destroyed. -/
def Runs (s : Session) : Prop := running s.co = true → s.task = true

/-- A step after which the coroutine is where it was, or is not running. -/
theorem Runs.keep (hs : s.Runs) (hco : running t.co = true → running s.co = true := by exact id)
    (htask : s.task = true → t.task = true := by exact id) : t.Runs :=
  fun h => htask (hs (hco h))

theorem Runs.woken {frame : Frame} (alive : s.task = true) : (s.woken frame).Runs :=
  fun _ => by simpa using alive

theorem WokeReader.runs (h : WokeReader s t) (hs : s.Runs) : t.Runs := by
  cases h with
  | asleep => exact hs
  | woken handle alive => exact Runs.woken alive

theorem WokeWriter.runs (h : WokeWriter s t) (hs : s.Runs) : t.Runs := by
  cases h with
  | asleep => exact hs
  | woken handle drained alive => exact Runs.woken alive

/-- `handleClose` destroys no running coroutine. -/
theorem Runs.shut (hs : s.Runs) (stopped : ¬ (s.destroys ∧ s.task ∧ running s.co)) :
    s.shut.Runs := by
  intro hrun
  have alive := hs hrun
  have hdestroys : s.destroys = false := by
    rw [Bool.eq_false_iff]
    exact fun h => stopped ⟨h, alive, hrun⟩
  simp only [destroys] at hdestroys
  simp [Session.shut, alive, hdestroys]

theorem Move.runs (h : Move s a t) (hs : s.Runs) : t.Runs := by
  cases h with
  | readMore idle out holder status woke => exact woke.runs hs
  | readStopped idle out holder fatal status woke => exact woke.runs hs
  | readAgain idle out holder fatal status woke =>
      rw [submitRead_eq] at woke
      exact woke.runs hs
  | readFatal idle out holder status fatal handle alive => exact Runs.woken alive
  | @readClose res data idle out holder status fatal handle stopped =>
      have ht : (s.took res data false).shut.Runs := by
        refine Runs.shut hs ?_
        simpa [took, destroys] using stopped
      exact ht
  | writeMore idle out holder fatal proceeds woke => exact woke.runs hs
  | writeFatal idle out holder fatal handle alive => exact Runs.woken alive
  | writeClose idle out holder fatal handle stopped => exact Runs.shut hs stopped
  | established => exact fun _ => rfl
  | recvRegister idle head alive empty =>
      rw [awaitRead_eq]
      exact hs
  | recvResume idle head alive empty => exact Runs.woken alive
  | sendResume idle head alive sends load => exact Runs.woken alive
  | destroyed idle head stopped => exact Runs.shut hs stopped
  | unwindRead frame stopped => exact Runs.shut hs stopped
  | unwindWrite frame stopped => exact Runs.shut hs stopped
  | recvReady here ctl =>
      rw [recvAwaitResume_eq]
      exact hs
  | recvSuspend here ctl opened empty => exact fun h => absurd h (by simp [running])
  | sendLate here ctl closed =>
      rw [sendAwaitResume_eq]
      exact hs
  | sendThrough here ctl opened sends load =>
      rw [sendAwaitResume_eq]
      exact hs
  | recvLate here closed =>
      rw [recvAwaitResume_eq]
      exact hs
  | sendLateWorker here closed =>
      rw [sendAwaitResume_eq]
      exact hs
  | recvLeave here opened => exact hs.keep (fun _ => by rw [here]; rfl)
  | sendLeave here opened => exact hs.keep (fun _ => by rw [here]; rfl)
  | enqueue here => exact hs.keep (fun _ => by rw [here]; rfl)
  | poolTake queued alive here => exact fun _ => alive
  | sendSuspend here ctl opened sends load => exact fun h => absurd h (by simp [running])
  | switchLoop here ctl => exact fun h => absurd h (by simp [running])
  | retLoop here ctl => exact fun h => absurd h (by simp [running])
  | switchWorker here => exact fun h => absurd h (by simp [running])
  | retWorker here => exact fun h => absurd h (by simp [running])
  | _ => exact hs

/-- A receive that has not ended, its fatal handler included, holds the connection. -/
theorem ReadProtocol.held (hs : s.ReadProtocol) (out : 0 < s.reads ∨ s.ctl.inReadFatal = true) :
    s.held = true := by
  have hreads := hs.reads_eq
  have hactive : s.read.active = true := by
    cases hact : s.read.active with
    | true => rfl
    | false =>
        rw [hact, Bool.toNat_false] at hreads
        rcases out with out | out
        · omega
        · simp [out] at hreads
  simp [Session.held, hs.holder_eq, hactive]

/-- So does a write. -/
theorem WriteProtocol.held (hs : s.WriteProtocol)
    (out : 0 < s.writes ∨ s.ctl.inWriteFatal = true) : s.held = true := by
  have hholder : s.write.holder = true := by
    rw [hs.holder_eq]
    rcases out with out | out
    · rw [hs.writes_eq] at out
      cases hsend : s.write.isSending with
      | true => rfl
      | false => simp [hsend] at out
    · rw [out, Bool.or_true]
  simp [Session.held, hholder]

/-- **An `on_completion` runs on a connection that is held.** -/
theorem step_inCompletion (h : s.step a = some t) (ha : a.inCompletion = true)
    (hr : s.ReadProtocol) (hw : s.WriteProtocol) : s.held = true := by
  cases a with
  | readCqe res data more =>
      obtain ⟨-, out, -⟩ := step_readCqe h
      exact hr.held (.inl (Nat.lt_of_lt_of_le out (Nat.le_add_right _ _)))
  | writeCqe res =>
      obtain ⟨-, out, -⟩ := step_writeCqe h
      exact hw.held (.inl (Nat.lt_of_lt_of_le out (Nat.le_add_right _ _)))
  | unwind =>
      rcases step_unwind h with frame | frame
      · exact hr.held (.inr (by simp [frame, Ctl.inReadFatal]))
      · exact hw.held (.inr (by simp [frame, Ctl.inWriteFatal]))
  | readRace =>
      obtain ⟨-, -, out⟩ := step_readRace h
      exact hr.held (.inl (Nat.lt_of_lt_of_le out (Nat.le_add_right _ _)))
  | _ => exact absurd ha (by simp [SessionAct.inCompletion])

/-- **A connection without owners gets no new one**, and is not closed either. -/
theorem Move.unheld (h : Move s a t) (hs : s.held = false) (hruns : s.Runs)
    (ha : a.inCompletion = false) (hserver : a ≠ .serverDestroy) :
    t.held = false ∧ t.closing = s.closing := by
  have hs' := hs
  simp only [held, Bool.or_eq_false_iff] at hs'
  obtain ⟨⟨⟨gone, -⟩, -⟩, hfree⟩ := hs'
  have hstill : running s.co = false := by
    rw [Bool.eq_false_iff]
    exact fun h => absurd ((hruns h).symm.trans gone) (by decide)
  cases h with
  | abort => exact ⟨hs, rfl⟩
  | established idle head => simp [head, QueuedFunctor.owns] at hfree
  | destroyed idle head => simp [head, QueuedFunctor.owns] at hfree
  | recvRegister idle head alive => exact absurd (alive.symm.trans gone) (by decide)
  | recvResume idle head alive => exact absurd (alive.symm.trans gone) (by decide)
  | sendRegister idle head alive => exact absurd (alive.symm.trans gone) (by decide)
  | sendResume idle head alive => exact absurd (alive.symm.trans gone) (by decide)
  | drainRead => exact ⟨hs, rfl⟩
  | drainWrite => exact ⟨hs, rfl⟩
  | read => exact ⟨hs, rfl⟩
  | poolTake queued alive => exact absurd (alive.symm.trans gone) (by decide)
  | serverDestroy => exact absurd rfl hserver
  | removeConnection => exact ⟨hs, rfl⟩
  | pressure => exact ⟨hs, rfl⟩
  | recvReady here => simp [here, running] at hstill
  | recvSuspend here => simp [here, running] at hstill
  | sendLate here => simp [here, running] at hstill
  | sendThrough here => simp [here, running] at hstill
  | sendSuspend here => simp [here, running] at hstill
  | switchLoop here => simp [here, running] at hstill
  | retLoop here => simp [here, running] at hstill
  | recvLate here => simp [here, running] at hstill
  | sendLateWorker here => simp [here, running] at hstill
  | recvLeave here => simp [here, running] at hstill
  | sendLeave here => simp [here, running] at hstill
  | switchWorker here => simp [here, running] at hstill
  | retWorker here => simp [here, running] at hstill
  | enqueue here => simp [here, running] at hstill
  | _ => exact absurd ha (by simp [SessionAct.inCompletion])

end

end Session

end Proactor
