import Proactor.Connection.Placement

/-!
# Every suspended coroutine is woken

A coroutine that is suspended in `PrepareToRead` or `send` is reached again through a functor of
its awaiter, or through the handle it has left in the read or the write context.  The handle is
only good for something as long as a completion is due on that side.  The invariants here say that
it is, in every run: `Waits` is about where the handle is, `WakesReader` and `WakesWriter` about
the request.

They hold until the coroutine is destroyed and say nothing afterwards: a second `handleClose`
leaves the handles of the contexts as they are.
-/

namespace Proactor

open Transition

namespace Session

/-! ## The handle -/

/-- **A suspended coroutine has left its handle**, in the queue of the loop or in a context. -/
structure Waits (s : Session) : Prop where
  recv : s.task = true → s.co = .inRecv → .await .recv ∈ s.functors ∨ s.read.readHandle = true
  send : s.task = true → s.co = .inSend →
    (∃ data, .await (.send data) ∈ s.functors) ∨ s.write.writeHandle = true

section

variable {s s' : Session} {a : SessionAct}

/-- `handleClose` takes a handle out of a context only when it destroys the coroutine. -/
theorem Waits.shut (hs : s.Waits) : s.shut.Waits := by
  constructor
  · intro alive hco
    obtain ⟨htask, -, hr, -⟩ := shut_task alive
    exact .inl ((hs.recv htask hco).resolve_right (by simp [hr]))
  · intro alive hco
    obtain ⟨htask, -, -, hw⟩ := shut_task alive
    exact .inl ((hs.send htask hco).resolve_right (by simp [hw]))

/-- A coroutine that is not suspended in an awaiter. -/
theorem Waits.of_co (hr : s.co ≠ .inRecv) (hw : s.co ≠ .inSend) : s.Waits :=
  ⟨fun _ h => absurd h hr, fun _ h => absurd h hw⟩

/-- A step that leaves the handle where it is. -/
theorem Waits.keep {t : Session} (hs : s.Waits)
    (hfunctors : ∀ w, .await w ∈ s.functors → .await w ∈ t.functors := by exact fun _ h => h)
    (htask : t.task = s.task := by rfl) (hco : t.co = s.co := by rfl)
    (hreader : t.read.readHandle = s.read.readHandle := by rfl)
    (hwriter : t.write.writeHandle = s.write.writeHandle := by rfl) : t.Waits := by
  constructor
  · intro alive h
    rw [hreader]
    exact (hs.recv (htask ▸ alive) (hco ▸ h)).imp_left (hfunctors _)
  · intro alive h
    rw [hwriter]
    exact (hs.send (htask ▸ alive) (hco ▸ h)).imp_left fun ⟨data, hmem⟩ =>
      ⟨data, hfunctors _ hmem⟩

theorem Waits.woken {frame : Frame} : (s.woken frame).Waits := .of_co (by simp) (by simp)

theorem WokeReader.waits (h : WokeReader s s') (hs : s.Waits) : s'.Waits := by
  cases h with
  | asleep => exact hs
  | woken => exact .woken

theorem WokeWriter.waits (h : WokeWriter s s') (hs : s.Waits) : s'.Waits := by
  cases h with
  | asleep => exact hs
  | woken => exact .woken

theorem Move.waits (h : Move s a s') (hp : s.Placed) (hs : s.Waits) : s'.Waits := by
  cases h with
  | @readMore res data _ idle out holder status woke =>
      have ht : (s.took res data true).Waits := hs.keep (fun _ h => h) rfl rfl (by simp [took])
      exact woke.waits ht
  | @readStopped res data _ idle out holder fatal status woke =>
      have ht : (s.took res data false).endRead.Waits :=
        hs.keep (fun _ h => h) rfl rfl (by simp [took, endRead])
      exact woke.waits ht
  | readAgain idle out holder fatal status woke =>
      rw [submitRead_eq] at woke
      exact woke.waits (hs.keep (fun _ h => h) rfl rfl (by simp [took]))
  | writeMore idle out holder fatal proceeds woke =>
      obtain ⟨-, -, -, hhandle, -, -⟩ := WriteContext.proceed_frame proceeds
      rw [s.write.acknowledge_writeHandle] at hhandle
      exact woke.waits (hs.keep (fun _ h => h) rfl rfl rfl hhandle)
  | readFatal => exact .woken
  | writeFatal => exact .woken
  | @readClose res data idle out holder status fatal handle stopped =>
      have ht : (s.took res data false).Waits := hs.keep (fun _ h => h) rfl rfl (by simp [took])
      exact ht.shut.keep
  | writeClose idle out holder fatal handle stopped =>
      have ht : ({ s with
          kernelWrites := s.kernelWrites - 1
          write := { s.write with isError := true, isSending := false } } : Session).Waits :=
        hs.keep
      exact ht.shut.keep
  | established => exact .of_co (by simp) (by simp)
  | recvRegister idle head alive empty =>
      have hco := (hp.head_free head).1
      rw [awaitRead_eq]
      exact ⟨fun _ _ => .inr rfl, fun _ h => absurd (hco.symm.trans h) (by simp [parked])⟩
  | recvResume => exact .woken
  | sendRegister idle head alive sends load =>
      have hco := (hp.head_free head).1
      exact ⟨fun _ h => absurd (hco.symm.trans h) (by simp [parked]), fun _ _ => .inr rfl⟩
  | sendResume => exact .woken
  | @destroyed fs idle head stopped =>
      have ht : ({ s with functors := fs } : Session).Waits := hs.keep (by simp [head])
      exact ht.shut
  | unwindRead frame stopped =>
      have ht : ({ s with ctl := .idle } : Session).Waits := hs.keep
      exact ht.shut.keep
  | unwindWrite frame stopped =>
      have ht : ({ s with ctl := .idle } : Session).Waits := hs.keep
      exact ht.shut.keep
  | recvReady here =>
      rw [recvAwaitResume_eq]
      exact hs.keep (by simp +contextual)
  | recvSuspend =>
      rw [awaitRead_eq]
      exact ⟨fun _ _ => .inr rfl, by simp⟩
  | sendLate here =>
      rw [sendAwaitResume_eq]
      exact hs.keep (by simp +contextual)
  | sendThrough here =>
      rw [sendAwaitResume_eq]
      exact .of_co (by simp [wrote, here]) (by simp [wrote, here])
  | sendSuspend => exact ⟨by simp, fun _ _ => .inr rfl⟩
  | recvLate here =>
      rw [recvAwaitResume_eq]
      exact hs.keep (by simp +contextual)
  | sendLateWorker here =>
      rw [sendAwaitResume_eq]
      exact hs.keep (by simp +contextual)
  | @enqueue w here =>
      cases w with
      | recv => exact ⟨fun _ _ => .inl (by simp), by simp [parked]⟩
      | send data => exact ⟨by simp [parked], fun _ _ => .inl ⟨data, by simp⟩⟩
  | switchLoop => exact .of_co (by simp) (by simp)
  | retLoop => exact .of_co (by simp) (by simp)
  | recvLeave => exact .of_co (by simp) (by simp)
  | sendLeave => exact .of_co (by simp) (by simp)
  | switchWorker => exact .of_co (by simp) (by simp)
  | retWorker => exact .of_co (by simp) (by simp)
  | poolTake => exact .of_co (by simp) (by simp)
  | serverDestroy => exact hs.keep (by simp [queueDestroyed])
  | _ => exact hs.keep

end

/-! ## The request -/

/-- A handle in the read context is backed by a request. -/
def WakesReader (s : Session) : Prop :=
  s.task = true → s.read.readHandle = true → s.read.status ≠ .stoped

/-- **A handle in the write context is backed by a request** and by what is above the water mark.
The exception is the fatal branch of a write completion, which resumes the coroutine without taking
its handle out of the context. -/
structure WakesWriter (s : Session) : Prop where
  writes : s.task = true → s.writes = s.write.isSending.toNat
  handle : s.task = true → s.write.writeHandle = true → s.ctl.inWriteFatal = false →
    s.write.overLoad = true ∧ s.write.isSending = true
  queued : s.write.Queued

section

variable {s s' : Session} {a : SessionAct}

theorem awaitRead_status (s : Session) : s.awaitRead.read.status ≠ .stoped := by
  rw [awaitRead_eq]
  by_cases h : s.read.status = .stoped <;> simp [h]

/-- A step that does not touch the read side. -/
theorem WakesReader.keep {t : Session} (hs : s.WakesReader) (htask : t.task = s.task := by rfl)
    (hread : t.read = s.read := by rfl) : t.WakesReader := by
  intro alive handle
  rw [hread] at handle ⊢
  exact hs (htask ▸ alive) handle

theorem WakesReader.woken (hs : s.WakesReader) {frame : Frame} : (s.woken frame).WakesReader :=
  hs.keep (by simp) (by simp)

/-- Nothing to wake. -/
theorem WakesReader.of_asleep (h : s.task = true → s.read.readHandle = false) :
    s.WakesReader := fun alive handle => absurd (h alive) (by simp [handle])

/-- A coroutine that survives `handleClose` has no handle in the read context. -/
theorem shut_asleep (s : Session) : s.shut.task = true → s.shut.read.readHandle = false := by
  intro alive
  simp [shut, (shut_task alive).2.2.1]

theorem took_status {res : ℤ} {data : List UInt8} {more : Bool} (h : s.read.status ≠ .stoped) :
    (s.took res data more).read.status ≠ .stoped := by
  have hactive := @took_active s res data more h
  simpa [ReadContext.active] using hactive

/-- Either way the handle is out of the read context. -/
theorem WokeReader.wakesReader {t : Session} (h : WokeReader s t) : t.WakesReader := by
  cases h with
  | asleep handle => exact .of_asleep fun _ => handle
  | woken => exact .of_asleep fun _ => by simp

theorem WokeWriter.wakesReader {t : Session} (h : WokeWriter s t) (hs : s.WakesReader) :
    t.WakesReader := by
  cases h with
  | asleep => exact hs
  | woken => exact WakesReader.woken hs.keep

theorem Move.wakesReader (h : Move s a s') (hb : s.Born) (hs : s.WakesReader) :
    s'.WakesReader := by
  cases h with
  | readMore idle out holder status woke => exact woke.wakesReader
  | readStopped idle out holder fatal status woke => exact woke.wakesReader
  | readAgain idle out holder fatal status woke => exact woke.wakesReader
  | readFatal idle out holder status => exact .woken fun _ _ => took_status status
  | readClose => exact .of_asleep (shut_asleep _)
  | writeMore idle out holder fatal proceeds woke => exact woke.wakesReader hs.keep
  | writeFatal => exact .woken hs.keep
  | writeClose => exact .of_asleep (shut_asleep _)
  | established idle head => exact .of_asleep fun _ => (hb.quiet (hb.unborn head)).2.2.1
  | recvRegister => exact fun _ _ => awaitRead_status _
  | recvResume => exact .woken hs.keep
  | sendResume => exact .woken hs.keep
  | destroyed => exact .of_asleep (shut_asleep _)
  | unwindRead => exact .of_asleep (shut_asleep _)
  | unwindWrite => exact .of_asleep (shut_asleep _)
  | recvReady =>
      rw [recvAwaitResume_eq]
      exact hs.keep
  | recvSuspend => exact fun _ _ => awaitRead_status s
  | sendLate =>
      rw [sendAwaitResume_eq]
      exact hs.keep
  | sendThrough =>
      rw [sendAwaitResume_eq]
      exact hs.keep
  | recvLate =>
      rw [recvAwaitResume_eq]
      exact hs.keep
  | sendLateWorker =>
      rw [sendAwaitResume_eq]
      exact hs.keep
  | @read size =>
      intro alive handle
      simpa [ReadContext.removeAsString] using hs alive handle
  | _ => exact hs.keep

/-- A `sendInLoop` of a connection whose coroutine is there. -/
theorem WakesWriter.wrote (hs : s.WakesWriter) {data : List UInt8} {w : WriteContext}
    {flushed : Bool} (sends : s.write.sendInLoop data = some (w, flushed)) :
    (s.wrote w flushed).WakesWriter := by
  obtain ⟨hwrites, hwrite, hqueued⟩ := hs
  obtain ⟨hflush, hsend, -, hhandle, -⟩ := WriteContext.sendInLoop_frame sends
  refine ⟨?_, ?_, hqueued.sendInLoop sends⟩
  · intro alive
    have heq := hwrites alive
    simp only [Session.writes] at heq
    cases hs : s.write.isSending <;> cases hlow : s.sqeLow <;>
      simp_all [Session.writes, Session.wrote]
  · intro alive handle hctl
    have hover := (hwrite alive (hhandle ▸ handle) hctl).1
    exact ⟨WriteContext.sendInLoop_overLoad sends hover, hsend⟩

theorem WokeWriter.wakesWriter {t : Session} (h : WokeWriter s t)
    (hwrites : s.task = true → s.writes = s.write.isSending.toNat)
    (hsend : s.write.overLoad = true → s.write.isSending = true) (hqueued : s.write.Queued) :
    t.WakesWriter := by
  cases h with
  | asleep handle =>
      exact ⟨hwrites, fun _ h _ => ⟨handle h, hsend (handle h)⟩, hqueued⟩
  | woken handle drained alive =>
      refine ⟨?_, by simp, ?_⟩
      · intro _
        simpa [writes] using hwrites alive
      · simpa [WriteContext.Queued] using hqueued

/-- A completion takes the only request. -/
theorem WakesWriter.last (hs : s.WakesWriter) (alive : s.task = true) (out : 0 < s.kernelWrites) :
    s.kernelWrites - 1 = 0 ∧ s.waiting.count .write = 0 := by
  have hsum := hs.writes alive
  have hle := Bool.toNat_le s.write.isSending
  simp only [Session.writes] at hsum
  omega

/-- A step that does not touch the write side. -/
theorem WakesWriter.keep {t : Session} (hs : s.WakesWriter)
    (hwrites : t.writes = s.writes := by rfl)
    (hctl : t.ctl.inWriteFatal = s.ctl.inWriteFatal := by rfl)
    (hwrite : t.write = s.write := by rfl) (htask : t.task = s.task := by rfl) :
    t.WakesWriter := by
  obtain ⟨h₁, h₂, h₃⟩ := hs
  constructor
  · rwa [htask, hwrites, hwrite]
  · rwa [htask, hwrite, hctl]
  · rwa [hwrite]

/-- The result of a receive. -/
theorem WakesWriter.took (hs : s.WakesWriter) (res : ℤ) (data : List UInt8) (more : Bool) :
    (s.took res data more).WakesWriter :=
  hs.keep (by simp [Session.writes, Session.took])

/-- A coroutine that survives `handleClose` has no handle in the write context. -/
theorem WakesWriter.shut (hs : s.WakesWriter) : s.shut.WakesWriter := by
  refine ⟨fun alive => hs.writes (shut_task alive).1, ?_, hs.queued⟩
  intro alive handle _
  simp [Session.shut, (shut_task alive).2.2.2] at handle

theorem WokeReader.wakesWriter {t : Session} (h : WokeReader s t) (idle : s.ctl = .idle)
    (hs : s.WakesWriter) : t.WakesWriter := by
  cases h with
  | asleep => exact hs
  | woken => exact hs.keep (by simp [writes]) (by simp [idle, Ctl.inWriteFatal]) (by simp) (by simp)

theorem Move.wakesWriter (h : Move s a s') (hb : s.Born) (hh : s.Handles) (hs : s.WakesWriter) :
    s'.WakesWriter := by
  cases h with
  | readMore idle out holder status woke => exact woke.wakesWriter idle (hs.took _ _ _)
  | @readStopped res data _ idle out holder fatal status woke =>
      have ht := hs.took res data false
      exact woke.wakesWriter idle ht.keep
  | readAgain idle out holder fatal status woke =>
      rw [submitRead_eq] at woke
      exact woke.wakesWriter idle (hs.keep (by simp [writes, took]))
  | readFatal idle out holder status fatal handle alive =>
      exact hs.keep (by simp [writes, took]) (by simp [idle, Ctl.inWriteFatal]) (by simp [took])
        (by simp [took])
  | @readClose res data idle out holder status fatal handle stopped =>
      have ht := hs.took res data false
      exact ht.shut.keep
  | @writeMore res w flushed _ idle out holder fatal proceeds woke =>
      obtain ⟨hflush, hsend, -, -, -, hover⟩ := WriteContext.proceed_frame proceeds
      have hpos : w.overLoad = true → flushed = true := by
        intro h
        rw [hover, WriteContext.overLoad, decide_eq_true_eq] at h
        rw [hflush, decide_eq_true_eq]
        omega
      refine woke.wakesWriter (?_) (fun h => hsend.trans (hpos h))
        ((hs.queued.acknowledge res).proceed proceeds)
      intro alive
      obtain ⟨hkernel, hcount⟩ := hs.last alive out
      cases flushed <;> cases s.sqeLow <;> simp [writes, wrote, hsend, hkernel, hcount]
  | writeFatal idle out holder fatal handle alive =>
      obtain ⟨hkernel, hcount⟩ := hs.last alive out
      refine ⟨?_, by simp [Ctl.inWriteFatal], ?_⟩
      · intro _
        simp [writes, hkernel, hcount]
      · simpa [WriteContext.Queued] using hs.queued
  | writeClose idle out holder fatal handle stopped =>
      refine ⟨?_, by simp [shut, endWrite, handle], hs.queued⟩
      intro alive
      obtain ⟨hkernel, hcount⟩ := hs.last (shut_task alive).1 out
      simp [writes, shut, endWrite, hkernel, hcount]
  | established idle head =>
      obtain ⟨-, -, -, hhandle, hnone, hsend⟩ := hb.quiet (hb.unborn head)
      refine ⟨?_, by simp [hhandle], hs.queued⟩
      intro _
      simpa [writes, hsend] using hnone
  | recvRegister idle head alive empty =>
      rw [awaitRead_eq]
      exact hs.keep (by simp [writes])
  | recvResume idle head alive empty =>
      exact hs.keep (by simp [writes]) (by simp [idle, Ctl.inWriteFatal]) (by simp) (by simp)
  | sendRegister idle head alive sends load =>
      have ht := hs.wrote sends
      exact ⟨ht.writes, fun _ _ _ => ⟨load, (WriteContext.sendInLoop_frame sends).2.1⟩, ht.queued⟩
  | @sendResume data fs w flushed idle head alive sends load =>
      obtain ⟨hsum, hhandle, hq⟩ := hs.wrote sends
      -- a handle in the context would mean that the queue was above the mark before
      have hnone : w.writeHandle = false := by
        by_contra h
        have hover := hhandle alive (by simpa [wrote] using h)
          (by simp [wrote, idle, Ctl.inWriteFatal])
        exact absurd (hover.1.symm.trans load) (by decide)
      refine ⟨?_, by simp [wrote, hnone], by simpa [wrote] using hq⟩
      intro _
      simpa [writes, wrote] using hsum alive
  | destroyed idle head stopped =>
      exact WakesWriter.shut hs.keep
  | drainRead idle head => exact hs.keep (by simp [writes, prepareRead, head])
  | drainWrite idle head =>
      refine hs.keep ?_
      simp [writes, prepareWrite, head]
      omega
  | unwindRead frame stopped =>
      have ht : ({ s with ctl := .idle } : Session).WakesWriter :=
        hs.keep rfl (by simp [frame, Ctl.inWriteFatal])
      exact ht.shut.keep
  | unwindWrite frame stopped =>
      obtain ⟨-, handle, -⟩ := hh.writeFrame (by simp [frame, Ctl.inWriteFatal])
      have hdead : ({ s with ctl := .idle }.shut.endWrite).task = false := by
        simp [shut, endWrite, handle]
      refine ⟨?_, ?_, hs.queued⟩
      · intro alive
        exact absurd (alive.symm.trans hdead) (by decide)
      · intro alive
        exact absurd (alive.symm.trans hdead) (by decide)
  | recvReady here ctl =>
      rw [recvAwaitResume_eq]
      exact hs.keep
  | recvSuspend here ctl opened empty =>
      rw [awaitRead_eq]
      exact hs.keep (by simp [writes]) (by simp [ctl])
  | sendLate here ctl closed =>
      rw [sendAwaitResume_eq]
      exact hs.keep
  | sendThrough here ctl opened sends load =>
      rw [sendAwaitResume_eq]
      exact (hs.wrote sends).keep
  | sendSuspend here ctl opened sends load =>
      have ht := hs.wrote sends
      exact ⟨ht.writes, fun _ _ _ => ⟨load, (WriteContext.sendInLoop_frame sends).2.1⟩, ht.queued⟩
  | switchLoop here ctl => exact hs.keep rfl (by simp [ctl])
  | retLoop here ctl => exact hs.keep rfl (by simp [ctl])
  | recvLate here closed =>
      rw [recvAwaitResume_eq]
      exact hs.keep
  | sendLateWorker here closed =>
      rw [sendAwaitResume_eq]
      exact hs.keep
  | _ => exact hs.keep

/-- **The invariant of every run.** -/
structure Awaited (s : Session) : Prop extends Located s where
  waits : s.Waits
  reader : s.WakesReader
  writer : s.WakesWriter
  protocol : s.ReadProtocol

theorem Move.awaited (h : Move s a s') (hs : s.Awaited) : s'.Awaited where
  toLocated := h.located hs.toLocated
  waits := h.waits hs.placed hs.waits
  reader := h.wakesReader hs.born hs.reader
  writer := h.wakesWriter hs.born hs.handles hs.writer
  protocol := h.readProtocol hs.protocol

theorem awaited_create (inputHwm inputHwmChunk outputHwm maxSlices : ℕ) :
    (create inputHwm inputHwmChunk outputHwm maxSlices).Awaited where
  toLocated := located_create _ _ _ _
  waits := ⟨by simp [create, start], by simp [create, start]⟩
  reader := by simp [WakesReader, create, start]
  writer := ⟨fun _ => rfl, by simp [create, start], [], 0, SendQueue.rep_empty⟩
  protocol := ⟨rfl, rfl⟩

end

/-- **No stranded coroutine.**  In every run, when the loop thread is done with a handler and no
functor of the connection is queued: a coroutine suspended in `PrepareToRead` has its handle in the
read context and a read request is outstanding; one suspended in `send` has its handle in the write
context, a write request is outstanding, and there are unsent bytes above the high water mark. -/
theorem suspended_coroutine_awaited {s : Session}
    {inputHwm inputHwmChunk outputHwm maxSlices : ℕ}
    (run : Reach step anyStep (create inputHwm inputHwmChunk outputHwm maxSlices) s)
    (idle : s.ctl = .idle) (drained : s.functors = []) (alive : s.task = true) :
    (s.co = .inRecv → s.read.readHandle = true ∧ s.reads = 1) ∧
      (s.co = .inSend → s.write.writeHandle = true ∧ s.writes = 1 ∧
        s.write.highWaterMark < s.write.outputBuffer.unsent.length) := by
  obtain ⟨-, hwaits, hread, hwrite, hprot⟩ := run.invariant (P := Awaited)
    (awaited_create _ _ _ _) fun s a s' hs _ move => (step_move move).awaited hs
  constructor
  · intro hco
    have handle : s.read.readHandle = true := by simpa [drained] using hwaits.recv alive hco
    have hreads := hprot.reads_eq
    simp [idle, Ctl.inReadFatal, ReadContext.active, hread alive handle] at hreads
    exact ⟨handle, hreads⟩
  · intro hco
    have handle : s.write.writeHandle = true := by simpa [drained] using hwaits.send alive hco
    obtain ⟨hover, hsend⟩ := hwrite.handle alive handle (by simp [idle, Ctl.inWriteFatal])
    refine ⟨handle, ?_, hwrite.queued.overLoad_iff.mp hover⟩
    rw [hwrite.writes alive, hsend, Bool.toNat_true]

/-- The coroutine awaits data from a pool thread, gets it with a backpressure cancel, and its answer
from the pool thread is above the high water mark. -/
theorem suspended_coroutine_awaited_pool :
    ∃ s, Reach step anyStep (create 2 16 2 256) s ∧ s.co = .inSend ∧
      s.write.writeHandle = true ∧ s.writes = 1 ∧
        s.write.highWaterMark < s.write.outputBuffer.unsent.length := by
  obtain ⟨s, run, h⟩ := exists_reach step anyStep (create 2 16 2 256)
    [.functor, .co .switchThread, .poolTake, .co .prepareToRead, .enqueue, .functor,
      .readCqe 3 [1, 2, 3] true, .co (.read 3), .co .switchThread, .readCqe (-ECANCELED) [] false,
      .poolTake, .co (.send [1, 2, 3]), .enqueue, .functor]
    (fun s => decide (s.ctl = .idle ∧ s.functors = [] ∧ s.task = true ∧ s.co = .inSend))
    (by decide +kernel)
  obtain ⟨idle, drained, alive, hco⟩ := of_decide_eq_true h
  exact ⟨s, run, hco, (suspended_coroutine_awaited run idle drained alive).2 hco⟩

end Session

end Proactor
