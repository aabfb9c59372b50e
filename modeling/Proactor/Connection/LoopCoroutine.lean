import Proactor.Connection.Lifetime
import Proactor.Output.WriteRun

/-!
# Coroutines that stay on the loop

`Lifetime`, `WriteProtocol` and `WriteRun` each end in a defect of the code: a running coroutine
can be destroyed, a write request can lose its holder, and a retried write can find no batch.  Two
of the three are brought about by the coroutine.  This module says which coroutines do not: those
that never call `switchThread` and that do not send again from inside the fatal branch that reports
a failed `send` to them (`StaysOnLoop`).

On such a connection nothing goes wrong, however the peer, the kernel, the server and the loop's
queues behave: completions of either side may be fatal in any order, `~TcpServer` may queue
`Destroyed` at any time (`loop_coroutine_safe`).  Only the transient errors of a write, after
which the code retries from the wrong place, are left out.

* `LoopBound` — the coroutine and its handle never leave the loop thread, and on a closing
  connection the loop has nothing left to do with a coroutine that is not finished.  So every
  `handleClose` spares (`LoopBound.spares`).
* `Fronted` — the batch is at the front of the queue as long as somebody may ask for the next one.
-/

namespace Proactor

open Transition

namespace Session

/-- The coroutine leaves the loop thread or sends from the fatal branch, or a write is going to be
retried. -/
def strays (s : Session) : SessionAct → Bool
  | .co .switchThread => true
  | .co (.send _) => decide (s.ctl = .inCo .writeFatal) && !s.closing
  | .writeCqe res => decide (WriteContext.Transient res)
  | _ => false

/-- A step of a connection whose coroutine stays on the loop. -/
def StaysOnLoop (s : Session) (a : SessionAct) : Prop := s.strays a = false

instance (s : Session) (a : SessionAct) : Decidable (StaysOnLoop s a) :=
  inferInstanceAs (Decidable (_ = _))

/-- The positions that have nothing to do with the thread pool. -/
def onLoopSide : CoPos → Bool
  | .onWorker | .suspending _ | .pooled => false
  | _ => true

/-- **The coroutine stays on the loop**, and a closing connection has none left. -/
structure LoopBound (s : Session) : Prop where
  place : onLoopSide s.co = true
  pool : s.pool = false
  awaits : s.awaits = 0
  unborn : s.co = .unborn →
    s.closing = false ∧ s.functors.head? = some .established ∧ s.read.status = .stoped
  closed : s.closing = true → s.ctl = .idle
  orphan : s.orphaned = false

/-- A batch can still be asked for: a request is out, or the coroutine may send. -/
def writable (s : Session) : Bool :=
  s.write.isSending || (!s.closing && !s.ctl.inWriteFatal)

/-- **The batch is at the front of the queue.** -/
def Fronted (s : Session) : Prop :=
  s.writable = true → s.write.Front ∧ 1 ≤ s.write.maxSlices

section

variable {s s' : Session} {a : SessionAct}

theorem StaysOnLoop.quiet (h : StaysOnLoop s a) : QuietInFatal s a := by
  unfold QuietInFatal sendsInFatal
  split
  · simpa [StaysOnLoop, strays] using h
  · rfl

/-! ## The coroutine -/

theorem LoopBound.opened (hs : s.LoopBound) (h : s.ctl ≠ .idle) : s.closing = false := by
  by_contra hclosed
  exact h (hs.closed (by simpa using hclosed))

/-- A coroutine that waits in an awaiter is that of an open connection. -/
theorem LoopBound.opened_of_suspended (hs : s.LoopBound) (alive : s.task = true)
    (hco : s.co = .inRecv ∨ s.co = .inSend) : s.closing = false := by
  have horphan := hs.orphan
  rcases hco with hco | hco <;> simpa [orphaned, alive, hco] using horphan

theorem LoopBound.no_await (hs : s.LoopBound) {w : Awaiter} {fs : List QueuedFunctor}
    (head : s.functors = .await w :: fs) : False := by
  have hnone := awaits_eq_zero.mp hs.awaits w
  exact hnone (by simp [head])

theorem LoopBound.not_worker (hs : s.LoopBound) (here : s.co = .onWorker) : False := by
  have hplace := hs.place
  simp [here, onLoopSide] at hplace

/-- A read request is out only after `Established`. -/
theorem LoopBound.born_of_read (hs : s.LoopBound) (h : s.read.status ≠ .stoped) :
    s.co ≠ .unborn := fun hco => h (hs.unborn hco).2.2

/-- A step that leaves the coroutine where it is. -/
theorem LoopBound.keep {t : Session} (hs : s.LoopBound) (hco : t.co = s.co := by rfl)
    (hpool : t.pool = s.pool := by rfl) (hawaits : t.awaits = s.awaits := by rfl)
    (hhead : s.co = .unborn → t.functors.head? = s.functors.head? := by intro _; rfl)
    (hstatus : s.co = .unborn → t.read.status = s.read.status := by intro _; rfl)
    (hclosing : t.closing = s.closing := by rfl) (hctl : t.ctl = s.ctl := by rfl)
    (htask : t.task = s.task := by rfl) : t.LoopBound where
  place := hco ▸ hs.place
  pool := hpool.trans hs.pool
  awaits := hawaits.trans hs.awaits
  unborn h := by
    have hborn : s.co = .unborn := hco ▸ h
    rw [hclosing, hhead hborn, hstatus hborn]
    exact hs.unborn hborn
  closed h := hctl.trans (hs.closed (hclosing ▸ h))
  orphan := by
    rw [orphaned, hclosing, htask, hco]
    exact hs.orphan

/-- The coroutine of an open connection moves. -/
theorem LoopBound.moved {t : Session} (hs : s.LoopBound) (opened : t.closing = false)
    (hplace : onLoopSide t.co = true) (hborn : t.co ≠ .unborn)
    (hpool : t.pool = s.pool := by rfl) (hawaits : t.awaits = s.awaits := by rfl) :
    t.LoopBound where
  place := hplace
  pool := hpool.trans hs.pool
  awaits := hawaits.trans hs.awaits
  unborn h := absurd h hborn
  closed h := absurd (h.symm.trans opened) (by decide)
  orphan := by simp [orphaned, opened]

theorem LoopBound.woken {t : Session} {frame : Frame} (hs : s.LoopBound)
    (opened : t.closing = false) (hpool : t.pool = s.pool := by rfl)
    (hfunctors : t.functors = s.functors := by rfl) : (t.woken frame).LoopBound :=
  hs.moved (by simpa using opened) (by simp [onLoopSide]) (by simp) (by simpa using hpool)
    (by simp [Session.awaits, hfunctors])

/-- A read completion finds the coroutine of an open connection, or none. -/
theorem WokeReader.loopBound {t : Session} (h : WokeReader t s') (hs : s.LoopBound)
    (hh : s.Handles) (idle : s.ctl = .idle) (active : s.read.status ≠ .stoped)
    (hhandle : t.read.readHandle = s.read.readHandle := by rfl) (hco : t.co = s.co := by rfl)
    (hpool : t.pool = s.pool := by rfl) (hfunctors : t.functors = s.functors := by rfl)
    (hclosing : t.closing = s.closing := by rfl) (hctl : t.ctl = s.ctl := by rfl)
    (htask : t.task = s.task := by rfl) : s'.LoopBound := by
  have hborn := hs.born_of_read active
  cases h with
  | asleep =>
      exact hs.keep hco hpool (by rw [awaits, hfunctors, awaits]) (by simp [hborn])
        (by simp [hborn]) hclosing hctl htask
  | woken handle alive =>
      have hwaits := hh.reader (by simp [idle, Ctl.inReadFatal]) (htask ▸ alive)
        (hhandle ▸ handle)
      have opened := hs.opened_of_suspended (htask ▸ alive) (.inl hwaits.1)
      exact hs.woken (hclosing.trans opened) hpool hfunctors

/-- A write completion likewise. -/
theorem WokeWriter.loopBound {t : Session} (h : WokeWriter t s') (hs : s.LoopBound)
    (hh : s.Handles) (idle : s.ctl = .idle) (hborn : s.co ≠ .unborn)
    (hhandle : t.write.writeHandle = s.write.writeHandle) (hco : t.co = s.co := by rfl)
    (hpool : t.pool = s.pool := by rfl) (hfunctors : t.functors = s.functors := by rfl)
    (hclosing : t.closing = s.closing := by rfl) (hctl : t.ctl = s.ctl := by rfl)
    (htask : t.task = s.task := by rfl) : s'.LoopBound := by
  cases h with
  | asleep =>
      exact hs.keep hco hpool (by rw [awaits, hfunctors, awaits]) (by simp [hborn])
        (by simp [hborn]) hclosing hctl htask
  | woken handle drained alive =>
      have hwaits := hh.writer (by simp [idle, Ctl.inWriteFatal]) (htask ▸ alive)
        (hhandle ▸ handle)
      have opened := hs.opened_of_suspended (htask ▸ alive) (.inr hwaits.1)
      exact hs.woken (hclosing.trans opened) hpool hfunctors

/-- A coroutine that nobody runs is finished, or `handleClose` finds its handle. -/
theorem LoopBound.shut_orphaned (hs : s.LoopBound) (ha : s.Awaited)
    (hrest : s.ctl.runsCo = false) : s.shut.orphaned = false := by
  by_contra h
  simp only [orphaned, Session.shut, Bool.not_eq_false, Bool.and_eq_true, Bool.not_eq_true',
    Bool.or_eq_false_iff] at h
  obtain ⟨⟨-, alive, ⟨-, hreader⟩, hwriter⟩, hfinal⟩ := h
  have hnone := awaits_eq_zero.mp hs.awaits
  have hplace := hs.place
  cases hco : s.co with
  | unborn => exact absurd hco (ha.born.co_ne alive)
  | onLoop => exact absurd (ha.placed.loop.mp hco) (by simp [hrest])
  | inRecv =>
      rcases ha.waits.recv alive hco with h | h
      · exact hnone _ h
      · exact absurd (h.symm.trans hreader) (by decide)
  | inSend =>
      rcases ha.waits.send alive hco with ⟨data, h⟩ | h
      · exact hnone _ h
      · exact absurd (h.symm.trans hwriter) (by decide)
  | final => simp [hco] at hfinal
  | onWorker => simp [hco, onLoopSide] at hplace
  | suspending w => simp [hco, onLoopSide] at hplace
  | pooled => simp [hco, onLoopSide] at hplace

/-- `handleClose` on a connection whose coroutine nobody runs. -/
theorem LoopBound.shut {t : Session} (hs : s.LoopBound) (ha : s.Awaited)
    (hrest : s.ctl.runsCo = false) (hborn : s.co ≠ .unborn) (hctl : t.ctl = .idle)
    (hawaits : t.awaits = s.awaits := by rfl) (hco : t.co = s.co := by rfl)
    (hpool : t.pool = s.pool := by rfl)
    (horphan : t.orphaned = s.shut.orphaned := by rfl) : t.LoopBound where
  place := hco ▸ hs.place
  pool := hpool.trans hs.pool
  awaits := hawaits.trans hs.awaits
  unborn h := absurd (hco ▸ h) hborn
  closed _ := hctl
  orphan := horphan.trans (hs.shut_orphaned ha hrest)

theorem Move.loopBound (h : Move s a s') (stays : StaysOnLoop s a) (ha : s.Awaited)
    (hs : s.LoopBound) : s'.LoopBound := by
  have hactive : s.read.holder = true → s.read.status ≠ .stoped := by
    intro holder hstop
    have hholder := ha.protocol.holder_eq
    simp [ReadContext.active, hstop, holder] at hholder
  have hborn : 0 < s.kernelWrites → s.co ≠ .unborn := by
    intro out hco
    have hnone := (ha.born.quiet hco).2.2.2.2.1
    simp only [writes] at hnone
    omega
  have hbusy : ∀ {c : Ctl}, c ≠ .idle → s.ctl = c → s.co ≠ .unborn := by
    intro c hne hctl hco
    exact hne (hctl.symm.trans (ha.born.quiet hco).2.1)
  cases h with
  | abort => exact hs.keep
  | readMore idle out holder status woke =>
      exact woke.loopBound hs ha.handles idle status (s.took_frame _ _ _).2.1
  | readStopped idle out holder fatal status woke =>
      exact woke.loopBound hs ha.handles idle (hactive holder) (s.took_frame _ _ _).2.1
  | readAgain idle out holder fatal status woke =>
      rw [submitRead_eq] at woke
      exact woke.loopBound hs ha.handles idle (hactive holder) (s.took_frame _ _ _).2.1
  | readFatal idle out holder status fatal handle alive =>
      have hwaits := ha.handles.reader (by simp [idle, Ctl.inReadFatal]) alive handle
      exact hs.woken (hs.opened_of_suspended alive (.inl hwaits.1))
  | readClose idle out holder status fatal handle stopped =>
      refine hs.shut ha (by simp [idle, Ctl.runsCo]) (hs.born_of_read status) idle rfl rfl rfl ?_
      simp [orphaned, Session.shut, took, endRead]
  | writeMore idle out holder fatal proceeds woke =>
      obtain ⟨-, -, -, hhandle, -, -⟩ := WriteContext.proceed_frame proceeds
      rw [s.write.acknowledge_writeHandle] at hhandle
      exact woke.loopBound hs ha.handles idle (hborn out) hhandle
  | writeFatal idle out holder fatal handle alive =>
      have hwaits := ha.handles.writer (by simp [idle, Ctl.inWriteFatal]) alive handle
      exact hs.woken (hs.opened_of_suspended alive (.inr hwaits.1))
  | writeClose idle out holder fatal handle stopped =>
      exact hs.shut ha (by simp [idle, Ctl.runsCo]) (hborn out) idle
  | established idle head =>
      have hunborn := hs.unborn (ha.born.unborn head)
      refine hs.moved hunborn.1 rfl (by simp) rfl ?_
      simp [awaits, head, QueuedFunctor.isAwait]
  | recvRegister idle head => exact (hs.no_await head).elim
  | recvResume idle head => exact (hs.no_await head).elim
  | sendRegister idle head => exact (hs.no_await head).elim
  | sendResume idle head => exact (hs.no_await head).elim
  | destroyed idle head stopped =>
      have hco : s.co ≠ .unborn := by
        intro hco
        have hhead := (hs.unborn hco).2.1
        simp [head] at hhead
      refine hs.shut ha (by simp [idle, Ctl.runsCo]) hco idle ?_
      simp [awaits, Session.shut, head, QueuedFunctor.isAwait]
  | drainRead => exact hs.keep
  | drainWrite => exact hs.keep
  | unwindRead frame stopped =>
      exact hs.shut ha (by simp [frame, Ctl.runsCo]) (hbusy (by simp) frame) rfl
  | unwindWrite frame stopped =>
      exact hs.shut ha (by simp [frame, Ctl.runsCo]) (hbusy (by simp) frame) rfl
  | recvReady here ctl =>
      have opened := hs.opened (by simp [ctl])
      rw [recvAwaitResume_eq]
      exact hs.keep rfl rfl (by simp [awaits]) (by simp [here])
  | recvSuspend here ctl opened empty =>
      rw [awaitRead_eq]
      exact hs.moved opened rfl (by simp)
  | sendLate here ctl closed => exact absurd (hs.closed closed) (by simp [ctl])
  | sendThrough here ctl opened sends load =>
      rw [sendAwaitResume_eq]
      exact hs.moved opened (by simp [wrote, here, onLoopSide]) (by simp [wrote, here]) rfl
        (by simp [awaits, wrote])
  | sendSuspend here ctl opened sends load => exact hs.moved opened rfl (by simp)
  | switchLoop => exact absurd stays (by simp [StaysOnLoop, strays])
  | retLoop here ctl => exact hs.moved (hs.opened (by simp [ctl])) rfl (by simp)
  | recvLate here => exact (hs.not_worker here).elim
  | sendLateWorker here => exact (hs.not_worker here).elim
  | recvLeave here => exact (hs.not_worker here).elim
  | sendLeave here => exact (hs.not_worker here).elim
  | switchWorker here => exact (hs.not_worker here).elim
  | retWorker here => exact (hs.not_worker here).elim
  | read => exact hs.keep
  | enqueue here =>
      have hplace := hs.place
      simp [here, onLoopSide] at hplace
  | poolTake queued => exact absurd (queued.symm.trans hs.pool) (by decide)
  | serverDestroy entry =>
      refine hs.keep rfl rfl (by simp [awaits, queueDestroyed, QueuedFunctor.isAwait]) ?_
      intro hco
      simp [queueDestroyed, (hs.unborn hco).2.1]
  | removeConnection => exact hs.keep
  | pressure => exact hs.keep

/-- **A loop-bound `handleClose` spares the coroutine.** -/
theorem LoopBound.spares (hs : s.LoopBound) (hl : s.Located)
    (back : a = .unwind → s.ctl.runsCo = false ∧ s.ctl ≠ .idle) : Spares s a := by
  cases a with
  | readCqe res data more => simp [Spares, strikes, hs.orphan]
  | writeCqe res => simp [Spares, strikes, hs.orphan]
  | functor => simp [Spares, strikes, hs.orphan]
  | unwind =>
      obtain ⟨hrest, hbusy⟩ := back rfl
      have hplace := hs.place
      cases hco : s.co with
      | unborn => exact absurd (hl.born.quiet hco).2.1 hbusy
      | onLoop => exact absurd (hl.placed.loop.mp hco) (by simp [hrest])
      | onWorker => simp [hco, onLoopSide] at hplace
      | suspending w => simp [hco, onLoopSide] at hplace
      | pooled => simp [hco, onLoopSide] at hplace
      | _ => simp [Spares, strikes, atRest, hco, hs.awaits]
  | _ => rfl

/-! ## The batch -/

/-- A step that touches neither the queue nor the request, and does not end the fatal branch. -/
theorem Fronted.keep {t : Session} (hs : s.Fronted)
    (hwritable : t.writable = true → s.writable = true)
    (hqueue : t.write.outputBuffer = s.write.outputBuffer := by rfl)
    (hbatch : t.write.tempData = s.write.tempData := by rfl)
    (hsend : t.write.isSending = s.write.isSending := by rfl)
    (hslices : t.write.maxSlices = s.write.maxSlices := by rfl) : t.Fronted := by
  intro h
  rw [WriteContext.Front, hqueue, hbatch, hsend, hslices]
  exact hs (hwritable h)

/-- The write side as `handleClose` finds it. -/
theorem writable_of_sending (h : s.write.isSending = true) : s.writable = true := by
  simp [writable, h]

theorem WokeReader.fronted {t : Session} (h : WokeReader t s') (ht : t.Fronted)
    (idle : t.ctl = .idle) : s'.Fronted := by
  cases h with
  | asleep => exact ht
  | woken handle alive =>
      refine ht.keep ?_ (by simp) (by simp) (by simp) (by simp)
      simp [writable, idle, Ctl.inWriteFatal]

theorem WokeWriter.fronted {t : Session} (h : WokeWriter t s') (ht : t.Fronted)
    (idle : t.ctl = .idle) : s'.Fronted := by
  cases h with
  | asleep => exact ht
  | woken handle drained alive =>
      refine ht.keep ?_ (by simp) (by simp) (by simp) (by simp)
      simp [writable, idle, Ctl.inWriteFatal]

/-- A `send` of the coroutine leaves a batch at the front. -/
theorem Fronted.sends (hs : s.Fronted) (hw : s.writable = true) {data : List UInt8}
    {w : WriteContext} {flushed : Bool} (sends : s.write.sendInLoop data = some (w, flushed)) :
    w.Front ∧ 1 ≤ w.maxSlices := by
  obtain ⟨hfront, hslices⟩ := hs hw
  obtain ⟨w', hw', hfront', -, -, hslices', -⟩ := hfront.sendInLoop hslices data
  obtain ⟨rfl, -⟩ : w = w' ∧ _ := by simpa using sends.symm.trans hw'
  exact ⟨hfront', hslices'.symm ▸ hslices⟩

/-- The coroutine of an open connection may send outside the fatal branch. -/
theorem StaysOnLoop.writable {data : List UInt8} {frame : Frame}
    (stays : StaysOnLoop s (.co (.send data))) (ctl : s.ctl = .inCo frame)
    (opened : s.closing = false) : s.writable = true := by
  have hframe : frame ≠ .writeFatal := by simpa [StaysOnLoop, strays, ctl, opened] using stays
  simp [Session.writable, opened, ctl, Ctl.inWriteFatal, hframe]

/-- A completion that neither fails nor is retried reports a count. -/
theorem StaysOnLoop.count {res : ℤ} (stays : StaysOnLoop s (.writeCqe res))
    (fatal : ¬ WriteContext.Fatal res) : 0 ≤ res := by
  by_contra hneg
  have htransient : ¬ WriteContext.Transient res := by simpa [StaysOnLoop, strays] using stays
  exact fatal ⟨by omega, htransient⟩

theorem Move.fronted (h : Move s a s') (stays : StaysOnLoop s a) (hb : s.LoopBound)
    (hw : s.WriteProtocol) (hs : s.Fronted) : s'.Fronted := by
  cases h with
  | abort => exact hs.keep id
  | readMore idle out holder status woke => exact woke.fronted (hs.keep id) idle
  | readStopped idle out holder fatal status woke => exact woke.fronted (hs.keep id) idle
  | readAgain idle out holder fatal status woke =>
      rw [submitRead_eq] at woke
      exact woke.fronted (hs.keep id) idle
  | readFatal idle out holder status fatal handle alive =>
      refine hs.keep ?_ (by simp [took]) (by simp [took]) (by simp [took]) (by simp [took])
      simp [writable, took, idle, Ctl.inWriteFatal]
  | readClose idle out holder status fatal handle stopped =>
      refine hs.keep ?_
      simp [writable, took, shut, endRead]
      exact fun h => .inl h
  | writeMore idle out holder fatal proceeds woke =>
      -- the request is out, so the batch is at the front; the completion moves both on
      have hsend : s.write.isSending = true := by
        have hholder := hw.holder_eq
        simpa [holder, idle, Ctl.inWriteFatal] using hholder.symm
      obtain ⟨hfront, hslices⟩ := hs (writable_of_sending hsend)
      obtain ⟨w', flushed', hw', hfront', -, hslices', -⟩ :=
        hfront.complete hslices (stays.count fatal)
      obtain ⟨rfl, rfl⟩ : _ = w' ∧ _ = flushed' := by simpa using proceeds.symm.trans hw'
      exact woke.fronted (fun _ => ⟨hfront', hslices'.symm ▸ hslices⟩) idle
  | writeFatal idle out holder fatal handle alive =>
      exact fun h => absurd h (by simp [writable, Ctl.inWriteFatal])
  | writeClose idle out holder fatal handle stopped =>
      exact fun h => absurd h (by simp [writable, shut, endWrite])
  | established idle head => exact hs.keep (by simp [writable, idle, Ctl.inWriteFatal])
  | recvRegister idle head => exact (hb.no_await head).elim
  | recvResume idle head => exact (hb.no_await head).elim
  | sendRegister idle head => exact (hb.no_await head).elim
  | sendResume idle head => exact (hb.no_await head).elim
  | destroyed idle head stopped =>
      refine hs.keep ?_
      simp [writable, shut]
      exact fun h => .inl h
  | unwindRead frame stopped =>
      refine hs.keep ?_
      simp [writable, shut, endRead]
      exact fun h => .inl h
  | unwindWrite frame stopped => exact fun h => absurd h (by simp [writable, shut, endWrite])
  | recvReady here ctl =>
      rw [recvAwaitResume_eq]
      exact hs.keep id
  | recvSuspend here ctl opened empty =>
      rw [awaitRead_eq]
      exact hs.keep (by simp [writable, ctl])
  | sendLate here ctl closed => exact absurd (hb.closed closed) (by simp [ctl])
  | sendThrough here ctl opened sends load =>
      rw [sendAwaitResume_eq]
      exact fun _ => hs.sends (stays.writable ctl opened) sends
  | sendSuspend here ctl opened sends load =>
      have hsends := hs.sends (stays.writable ctl opened) sends
      exact fun _ => hsends
  | switchLoop => exact absurd stays (by simp [StaysOnLoop, strays])
  | retLoop here ctl => exact hs.keep (by simp [writable, ctl])
  | recvLate here => exact (hb.not_worker here).elim
  | sendLateWorker here => exact (hb.not_worker here).elim
  | _ => exact hs.keep id

/-! ## Every step -/

/-- **The invariant of a connection whose coroutine stays on the loop.** -/
structure Sheltered (s : Session) : Prop extends Lifetime s where
  writing : s.WriteProtocol
  bound : s.LoopBound
  fronted : s.Fronted
  sound : s.fault = none

/-- The coroutine acts on the loop thread. -/
theorem Sheltered.runs {act : CoAct} (hs : s.Sheltered) (move : s.step (.co act) = some s') :
    ∃ frame, s.ctl = .inCo frame := by
  rcases step_co move with here | here
  · have hrun := hs.placed.loop.mp here
    cases hctl : s.ctl with
    | inCo frame => exact ⟨frame, rfl⟩
    | _ => simp [hctl, Ctl.runsCo] at hrun
  · exact (hs.bound.not_worker here).elim

theorem Sheltered.spares (hs : s.Sheltered) (move : s.step a = some s') : Spares s a := by
  refine hs.bound.spares hs.toLocated ?_
  rintro rfl
  rcases step_unwind move with h | h <;> simp [h, Ctl.runsCo]

/-- A request that is out is being sent. -/
theorem WriteProtocol.sending (hs : s.WriteProtocol) (out : 0 < s.kernelWrites) :
    s.write.isSending = true := by
  have hwrites := hs.writes_eq
  rw [writes] at hwrites
  by_contra hnot
  rw [Bool.not_eq_true] at hnot
  rw [hnot, Bool.toNat_false] at hwrites
  omega

/-- The fatal branch asks for no batch. -/
theorem step_writeCqe_fatal {res : ℤ} (fatal : WriteContext.Fatal res)
    (move : s.step (.writeCqe res) = some s') : s'.fault ≠ some .emptyBatch := by
  have sound := step_sound move
  unfold step at move
  rw [if_neg (by simp [sound])] at move
  simp only [Option.ite_none_right_eq_some, Option.some.injEq] at move
  obtain ⟨-, rfl⟩ := move
  rw [onWriteCompletion]
  simp only [needClose_iff, decide_eq_true_eq, if_pos fatal]
  split
  case isTrue => simp [commit]
  case isFalse =>
    split
    case isTrue =>
      rcases resume_cases { s with
          kernelWrites := s.kernelWrites - 1
          write := s.write.acknowledge res } .writeFatal with
        ⟨-, h⟩ | ⟨-, -, h⟩ | ⟨-, -, -, h⟩
      · rw [h]
        simp [commit]
      · rw [h]
        simp [commit, sound]
      · rw [h]
        simp [commit]
    case isFalse =>
      rw [closeWrite, handleClose_eq]
      split
      case isTrue => simp [Except.map, commit]
      case isFalse => simp [Except.map, commit, shut, sound]

/-- Whenever a batch is asked for, there is one. -/
theorem Sheltered.fed (hs : s.Sheltered) (stays : StaysOnLoop s a) (h : Starves s a)
    (move : s.step a = some s') : s'.fault ≠ some .emptyBatch := by
  cases h with
  | @complete res empty =>
      by_cases fatal : WriteContext.Fatal res
      · exact step_writeCqe_fatal fatal move
      · obtain ⟨-, out, -⟩ := step_writeCqe move
        obtain ⟨hfront, hslices⟩ := hs.fronted (writable_of_sending (hs.writing.sending out))
        have hres := stays.count fatal
        obtain ⟨w, flushed, hw, -⟩ := hfront.complete hslices hres
        exact absurd (empty.symm.trans hw) (by simp)
  | await head => exact (hs.bound.no_await head).elim
  | @send data empty =>
      obtain ⟨frame, ctl⟩ := hs.runs move
      have opened := hs.bound.opened (by simp [ctl])
      obtain ⟨hfront, hslices⟩ := hs.fronted (stays.writable ctl opened)
      obtain ⟨w, hw, -⟩ := hfront.sendInLoop hslices data
      exact absurd (empty.symm.trans hw) (by simp)

/-- **No assertion fails and no frame is misused.** -/
theorem Sheltered.no_fault (hs : s.Sheltered) (stays : StaysOnLoop s a)
    (move : s.step a = some s') : s'.fault = none := by
  have hmove := step_move move
  have hsound : ∀ f, s.fault ≠ some f := by simp [hs.sound]
  rcases hmove.fault_cases with heq | ⟨f, fails, heq⟩
  · rw [heq, hs.sound]
  · have hframe := hmove.no_frame_fault (hs.spares move) hs.toLifetime ⟨hsound _, hsound _⟩
    cases fails with
    | readHolder => exact absurd heq (hmove.no_read_fault hs.protocol ⟨hsound _, hsound _⟩).1
    | readStatus => exact absurd heq (hmove.no_read_fault hs.protocol ⟨hsound _, hsound _⟩).2
    | writeHolder => exact absurd heq (hmove.no_write_fault hs.writing (hsound _))
    | emptyBatch starves => exact absurd heq (hs.fed stays starves move)
    | notSuspended => exact absurd heq (hmove.no_astray_fault hs.toLocated (hsound _))
    | notPooled => exact absurd heq (hmove.no_astray_fault hs.toLocated (hsound _))
    | destroyRunning => exact absurd heq hframe.1
    | destroyedFrame => exact absurd heq hframe.2
    | readRace away => exact (hs.bound.not_worker away).elim

theorem Sheltered.step (hs : s.Sheltered) (stays : StaysOnLoop s a)
    (move : s.step a = some s') : s'.Sheltered where
  toLifetime := (step_move move).lifetime (hs.spares move) hs.toLifetime
  writing := (step_move move).writeProtocol stays.quiet hs.writing
  bound := (step_move move).loopBound stays hs.toAwaited hs.bound
  fronted := (step_move move).fronted stays hs.bound hs.writing hs.fronted
  sound := hs.no_fault stays move

theorem sheltered_create (inputHwm inputHwmChunk outputHwm : ℕ) {maxSlices : ℕ}
    (hslices : 1 ≤ maxSlices) :
    (create inputHwm inputHwmChunk outputHwm maxSlices).Sheltered where
  toLifetime := lifetime_create _ _ _ _
  writing := ⟨rfl, rfl, fun _ => rfl⟩
  bound := ⟨rfl, rfl, rfl, fun _ => ⟨rfl, rfl, rfl⟩, by simp [create, start], rfl⟩
  fronted _ := ⟨⟨[], 0, SendQueue.rep_empty, by simp [create, start, WriteContext.create],
    fun _ => rfl⟩, hslices⟩
  sound := rfl

end

/-- **A coroutine that stays on the loop is safe.**  It never calls `switchThread` and does not send
when a fatal write completion resumes it; no write ends in a transient error.  Then in every run,
with completions of both sides that fail at any time, `Destroyed` queued by the server at any time
and requests that wait for an SQE: no assertion fails, the coroutine is suspended where it is
resumed, and neither a running coroutine is destroyed nor a destroyed one used.  Once the connection
is closing, the loop does not run the coroutine any more, and it is finished or destroyed. -/
theorem loop_coroutine_safe {s : Session} {inputHwm inputHwmChunk outputHwm : ℕ}
    (run : Reach step StaysOnLoop (create inputHwm inputHwmChunk outputHwm 256) s) :
    s.fault = none ∧
      (s.closing = true → s.ctl = .idle ∧ (s.task = false ∨ s.co = .final)) := by
  have h : s.Sheltered := run.invariant (sheltered_create _ _ _ (by decide))
    fun _ _ _ hs stays move => hs.step stays move
  refine ⟨h.sound, ?_⟩
  intro closed
  have horphan := h.bound.orphan
  refine ⟨h.bound.closed closed, ?_⟩
  cases htask : s.task with
  | false => exact .inl rfl
  | true => exact .inr (by simpa [orphaned, closed, htask] using horphan)

/-- The peer resets the connection while the coroutine is suspended in `send` and `Destroyed` is
queued: the coroutine waits for more and goes with the connection; the receive ends after it. -/
theorem loop_coroutine_safe_reset :
    ∃ s, Reach step StaysOnLoop (create 65536 16 2 256) s ∧ s.closing = true ∧ s.sqes.length = 2 ∧
      s.kernelReads = 0 ∧ s.fault = none ∧ (s.task = false ∨ s.co = .final) := by
  obtain ⟨s, run, h⟩ := exists_reach step StaysOnLoop (create 65536 16 2 256)
    [.functor, .co .prepareToRead, .readCqe 3 [1, 2, 3] true, .co (.read 3), .co (.send [1, 2, 3]),
      .serverDestroy, .writeCqe (-ECONNRESET), .co .prepareToRead, .unwind, .functor,
      .readCqe 0 [] false]
    (fun s => s.closing && decide (s.sqes.length = 2 ∧ s.kernelReads = 0)) (by decide +kernel)
  simp only [Bool.and_eq_true, decide_eq_true_eq] at h
  obtain ⟨closed, hsqes, hreads⟩ := h
  exact ⟨s, run, closed, hsqes, hreads, (loop_coroutine_safe run).1,
    ((loop_coroutine_safe run).2 closed).2⟩

end Session

end Proactor
