import Proactor.Connection.SharedPool

/-!
# What a step asks of the loop

A connection asks its loop for two things: an SQE, and a functor at the end of
`pendingFunctors_`.  This module says how much of either one step can ask for, whatever the
coroutine does.

* `Session.Asks` — one step makes at most one call of a submit function, and the number of free
  SQEs alone decides whether that call prepares an entry or waits.
* `Session.Single` — at most one write request is outstanding.  `WriteProtocol` has this, with
  what `is_sending_` and `holder_` say about it, for coroutines that do not send from inside the
  fatal branch of a write; the number alone is right for every coroutine.
-/

namespace Proactor

/-- The kind of entry that is prepared for a context. -/
def ContextType.kind : ContextType → SqeKind
  | .read => .recv
  | .write => .writev

/-- The loop thread turns to the connection. -/
def SessionAct.onLoopThread : SessionAct → Bool
  | .readCqe .. | .writeCqe _ | .functor | .drain => true
  | _ => false

namespace Session

variable {s t : Session} {a : SessionAct}

/-- **The SQEs of a step.** -/
inductive Asks (s t : Session) : Prop
  | nothing (sqes : t.sqes = s.sqes) (waiting : t.waiting = s.waiting)
  | prepared (c : ContextType) (room : s.sqeLow = false)
      (sqes : t.sqes = s.sqes ++ [⟨c.kind, s.closing⟩]) (waiting : t.waiting = s.waiting)
  | queued (c : ContextType) (low : s.sqeLow = true)
      (sqes : t.sqes = s.sqes) (waiting : t.waiting = s.waiting ++ [c])
  | cancelled (sqes : t.sqes = s.sqes ++ [⟨.cancel, s.closing⟩]) (waiting : t.waiting = s.waiting)

theorem Asks.frame {t' : Session} (h : Asks s t) (sqes : t'.sqes = t.sqes)
    (waiting : t'.waiting = t.waiting) : Asks s t' := by
  cases h with
  | nothing hs hw => exact .nothing (sqes.trans hs) (waiting.trans hw)
  | prepared c room hs hw => exact .prepared c room (sqes.trans hs) (waiting.trans hw)
  | queued c low hs hw => exact .queued c low (sqes.trans hs) (waiting.trans hw)
  | cancelled hs hw => exact .cancelled (sqes.trans hs) (waiting.trans hw)

theorem Asks.since {s₀ : Session} (h : Asks s₀ t) (sqes : s₀.sqes = s.sqes := by rfl)
    (waiting : s₀.waiting = s.waiting := by rfl) (low : s₀.sqeLow = s.sqeLow := by rfl)
    (closing : s₀.closing = s.closing := by rfl) : Asks s t := by
  cases h with
  | nothing hs hw => exact .nothing (hs.trans sqes) (hw.trans waiting)
  | prepared c hroom hs hw =>
      exact .prepared c (low ▸ hroom) (sqes ▸ closing ▸ hs) (hw.trans waiting)
  | queued c hlow hs hw => exact .queued c (low ▸ hlow) (hs.trans sqes) (waiting ▸ hw)
  | cancelled hs hw => exact .cancelled (sqes ▸ closing ▸ hs) (hw.trans waiting)

theorem asks_submitRead (s : Session) : Asks s s.submitRead := by
  rw [submitRead_eq]
  cases hlow : s.sqeLow with
  | true => exact .queued .read hlow (by simp) (by simp)
  | false => exact .prepared .read hlow (by simp [ContextType.kind]) (by simp)

theorem asks_awaitRead (s : Session) : Asks s s.awaitRead := by
  rw [awaitRead_eq]
  by_cases hstatus : s.read.status = .stoped
  · cases hlow : s.sqeLow with
    | true => exact .queued .read hlow (by simp [hstatus]) (by simp [hstatus])
    | false => exact .prepared .read hlow (by simp [hstatus, ContextType.kind]) (by simp [hstatus])
  · exact .nothing (by simp [hstatus]) (by simp [hstatus])

theorem asks_wrote (s : Session) (w : WriteContext) (flushed : Bool) :
    Asks s (s.wrote w flushed) := by
  cases flushed with
  | false => exact .nothing (by simp [wrote]) (by simp [wrote])
  | true =>
      cases hlow : s.sqeLow with
      | true => exact .queued .write hlow (by simp [wrote, hlow]) (by simp [wrote, hlow])
      | false =>
          exact .prepared .write hlow (by simp [wrote, hlow, ContextType.kind])
            (by simp [wrote, hlow])

theorem asks_took (s : Session) (res : ℤ) (data : List UInt8) (more : Bool) :
    Asks s (s.took res data more) := by
  cases hcancel : (s.read.takeResult res data).2.2 with
  | true => exact .cancelled (by simp [took, hcancel]) rfl
  | false => exact .nothing (by simp [took, hcancel]) rfl

theorem WokeReader.asks (h : WokeReader s t) : t.sqes = s.sqes ∧ t.waiting = s.waiting := by
  cases h with
  | asleep => exact ⟨rfl, rfl⟩
  | woken => exact ⟨by simp, by simp⟩

theorem WokeWriter.asks (h : WokeWriter s t) : t.sqes = s.sqes ∧ t.waiting = s.waiting := by
  cases h with
  | asleep => exact ⟨rfl, rfl⟩
  | woken => exact ⟨by simp, by simp⟩

/-- **One step, at most one call.** -/
theorem Move.asks (h : Move s a t) (ha : a ≠ .drain) : Asks s t := by
  cases h with
  | @readMore res data _ idle out holder status woke =>
      exact (asks_took s res data true).frame woke.asks.1 woke.asks.2
  | @readStopped res data _ idle out holder fatal status woke =>
      exact (asks_took s res data false).frame woke.asks.1 woke.asks.2
  | @readAgain res data _ idle out holder fatal status woke =>
      -- the receive goes on, so it has not been cancelled in the same step
      have hnone : (s.read.takeResult res data).2.2 = false := by
        by_contra hcancel
        have := (ReadContext.takeResult_cancel (by simpa using hcancel)).2.1
        exact absurd (this.symm.trans status) (by decide)
      have hsubmit := asks_submitRead (s.took res data false)
      rw [submitRead_eq] at hsubmit woke
      have hsqes : (s.took res data false).sqes = s.sqes := by simp [took, hnone]
      exact (hsubmit.frame woke.asks.1 woke.asks.2).since hsqes
  | @readFatal res data =>
      exact (asks_took s res data false).frame (by simp) (by simp)
  | @readClose res data => exact (asks_took s res data false).frame rfl rfl
  | @writeMore res w flushed _ idle out holder fatal proceeds woke =>
      exact ((asks_wrote _ w flushed).frame woke.asks.1 woke.asks.2).since
  | writeFatal => exact .nothing (by simp) (by simp)
  | @recvRegister fs => exact (asks_awaitRead { s with functors := fs }).since
  | recvResume => exact .nothing (by simp) (by simp)
  | @sendRegister data fs w flushed => exact (asks_wrote { s with functors := fs } _ flushed).since
  | @sendResume data fs w flushed =>
      have hwrote := asks_wrote { s with functors := fs } w flushed
      exact (hwrote.frame (woken_sqes _ _) (woken_waiting _ _)).since
  | drainRead => exact absurd rfl ha
  | drainWrite => exact absurd rfl ha
  | recvReady => exact .nothing (by rw [recvAwaitResume_eq]) (by rw [recvAwaitResume_eq])
  | recvSuspend => exact (asks_awaitRead s).frame rfl rfl
  | sendLate => exact .nothing (by rw [sendAwaitResume_eq]) (by rw [sendAwaitResume_eq])
  | @sendThrough data frame w flushed =>
      exact (asks_wrote s w flushed).frame (by rw [sendAwaitResume_eq]) (by rw [sendAwaitResume_eq])
  | @sendSuspend data frame w flushed => exact (asks_wrote s w flushed).frame rfl rfl
  | recvLate => exact .nothing (by rw [recvAwaitResume_eq]) (by rw [recvAwaitResume_eq])
  | sendLateWorker => exact .nothing (by rw [sendAwaitResume_eq]) (by rw [sendAwaitResume_eq])
  | _ => exact .nothing rfl rfl

/-! ## Functors -/

theorem WokeReader.functors (h : WokeReader s t) : s.functors <+: t.functors := by
  cases h with
  | asleep => exact List.prefix_rfl
  | woken =>
      rw [woken_functors]
      exact List.prefix_append _ _

theorem WokeWriter.functors (h : WokeWriter s t) : s.functors <+: t.functors := by
  cases h with
  | asleep => exact List.prefix_rfl
  | woken =>
      rw [woken_functors]
      exact List.prefix_append _ _

/-- The functors in the queue once the step has taken the one it runs. -/
def unrun (s : Session) : SessionAct → List QueuedFunctor
  | .functor => s.functors.tail
  | _ => s.functors

/-- **A step adds its functors at the end.** -/
theorem Move.functors (h : Move s a t) (ok : a = .functor → t.fault = none) :
    s.unrun a <+: t.functors := by
  cases h with
  | abort =>
      cases a with
      | functor => simp at ok
      | _ => exact List.prefix_rfl
  | readMore idle out holder status woke => exact woke.functors
  | readStopped idle out holder fatal status woke => exact woke.functors
  | readAgain idle out holder fatal status woke =>
      rw [submitRead_eq] at woke
      exact woke.functors
  | readFatal =>
      rw [woken_functors]
      exact List.prefix_append _ _
  | writeMore idle out holder fatal proceeds woke => exact woke.functors
  | writeFatal =>
      rw [woken_functors]
      exact List.prefix_append _ _
  | established idle head => simp [unrun, head]
  | recvRegister idle head => simp [unrun, head, awaitRead_eq]
  | recvResume idle head => simp [unrun, head]
  | sendRegister idle head => simp [unrun, head, wrote]
  | sendResume idle head => simp [unrun, head, wrote]
  | destroyed idle head => simp [unrun, head, shut]
  | recvReady => simp [unrun, recvAwaitResume_eq]
  | recvSuspend => simp [unrun, awaitRead_eq]
  | sendLate => simp [unrun, sendAwaitResume_eq]
  | sendThrough => simp [unrun, sendAwaitResume_eq, wrote]
  | recvLate => simp [unrun, recvAwaitResume_eq]
  | sendLateWorker => simp [unrun, sendAwaitResume_eq]
  | enqueue => simp [unrun]
  | serverDestroy => simp [unrun, queueDestroyed]
  | _ => exact List.prefix_rfl

/-- A step that faults has changed nothing else. -/
theorem Move.faulted (h : Move s a t) (sound : s.fault = none) (failed : t.fault ≠ none) :
    t = { s with fault := t.fault } := by
  cases h with
  | abort => rfl
  | readMore _ _ _ _ woke => exact absurd sound (by cases woke <;> simpa [took] using failed)
  | readStopped _ _ _ _ _ woke =>
      exact absurd sound (by cases woke <;> simpa [took, endRead] using failed)
  | readAgain _ _ _ _ _ woke =>
      exact absurd sound (by cases woke <;> simpa [took, submitRead_eq] using failed)
  | writeMore _ _ _ _ _ woke => exact absurd sound (by cases woke <;> simpa [wrote] using failed)
  | _ =>
      refine absurd sound ?_
      simpa [took, shut, endRead, endWrite, wrote, awaitRead_eq, prepareRead, prepareWrite,
        recvAwaitResume_eq, sendAwaitResume_eq, queueDestroyed] using failed

/-! ## The loop thread -/

/-- A connection that the loop thread is not at work on stays so until the loop thread turns to
it. -/
theorem Move.idle (h : Move s a t) (idle : s.ctl = .idle) (later : a.onLoopThread = false) :
    t.ctl = .idle := by
  cases h with
  | readMore | readStopped | readAgain | readFatal | writeMore | writeFatal | established
  | recvRegister | recvResume | sendRegister | sendResume =>
      simp [SessionAct.onLoopThread] at later
  | unwindRead => rfl
  | unwindWrite => rfl
  | recvReady here ctl => simp [idle] at ctl
  | recvSuspend here ctl => simp [idle] at ctl
  | sendLate here ctl => simp [idle] at ctl
  | sendThrough here ctl => simp [idle] at ctl
  | sendSuspend here ctl => simp [idle] at ctl
  | switchLoop here ctl => simp [idle] at ctl
  | retLoop here ctl => simp [idle] at ctl
  | recvLate =>
      rw [recvAwaitResume_eq]
      exact idle
  | sendLateWorker =>
      rw [sendAwaitResume_eq]
      exact idle
  | _ => exact idle

/-! ## Write requests -/

/-- **At most one write request.**  Either `is_sending_` says whether there is one, or the end of a
fatal branch has cleared it; then the connection is closed, its coroutine is destroyed and
`holder_` is null. -/
def Single (s : Session) : Prop :=
  s.writes = s.write.isSending.toNat ∨
    s.writes ≤ 1 ∧ s.closing = true ∧ s.task = false ∧ s.write.holder = false ∧ s.co ≠ .unborn

theorem Single.le (h : s.Single) : s.writes ≤ 1 := by
  rcases h with h | ⟨h, -⟩
  · rw [h]
    exact Bool.toNat_le _
  · exact h

/-- A step that does not touch the write side. -/
theorem Single.keep (hs : s.Single) (hwrites : t.writes = s.writes := by rfl)
    (hsend : t.write.isSending = s.write.isSending := by rfl)
    (hholder : t.write.holder = s.write.holder := by rfl)
    (hclosing : s.closing = true → t.closing = true := by exact id)
    (htask : s.task = false → t.task = false := by exact id)
    (hco : s.co ≠ .unborn → t.co ≠ .unborn := by exact id) : t.Single := by
  rcases hs with hs | ⟨hle, closed, gone, holder, born⟩
  · exact .inl (by rw [hwrites, hsend, hs])
  · exact .inr ⟨hwrites ▸ hle, hclosing closed, htask gone, hholder.trans holder, hco born⟩

theorem Single.woken {frame : Frame} (hs : s.Single) : (s.woken frame).Single :=
  hs.keep (by simp [writes]) (by simp) (by simp) (by simp) (by simp) (by simp)

theorem WokeReader.single (h : WokeReader s t) (hs : s.Single) : t.Single := by
  cases h with
  | asleep => exact hs
  | woken => exact Single.woken hs.keep

theorem WokeWriter.single (h : WokeWriter s t) (hs : s.Single) : t.Single := by
  cases h with
  | asleep => exact hs
  | woken => exact Single.woken hs.keep

/-- A `sendInLoop` of a live coroutine, or on an open connection. -/
theorem Single.wrote (hs : s.Single) (live : s.task = true ∨ s.closing = false)
    {data : List UInt8} {w : WriteContext} {flushed : Bool}
    (sends : s.write.sendInLoop data = some (w, flushed)) : (s.wrote w flushed).Single := by
  obtain ⟨hflush, hsend, -⟩ := WriteContext.sendInLoop_frame sends
  rcases hs with hs | ⟨-, closed, gone, -⟩
  · left
    simp only [writes] at hs
    cases hsending : s.write.isSending <;> cases hlow : s.sqeLow <;>
      simp_all [writes, Session.wrote]
  · rcases live with live | live
    · exact absurd (gone.symm.trans live) (by decide)
    · exact absurd (closed.symm.trans live) (by decide)

/-- A completion that finds `holder_` takes the only request. -/
theorem Single.last (hs : s.Single) (holder : s.write.holder = true) (out : 0 < s.kernelWrites) :
    s.kernelWrites - 1 = 0 ∧ s.waiting.count .write = 0 := by
  rcases hs with hs | ⟨-, -, -, null, -⟩
  · have hle := Bool.toNat_le s.write.isSending
    simp only [writes] at hs
    omega
  · exact absurd (holder.symm.trans null) (by decide)

theorem Move.single (h : Move s a t) (hl : s.Located) (hs : s.Single) : t.Single := by
  cases h with
  | readMore idle out holder status woke => exact woke.single hs.keep
  | readStopped idle out holder fatal status woke => exact woke.single hs.keep
  | readAgain idle out holder fatal status woke =>
      rw [submitRead_eq] at woke
      exact woke.single (hs.keep (by simp [writes, took]))
  | @readFatal res data =>
      have htook : (s.took res data false).Single := hs.keep
      exact htook.woken
  | readClose =>
      exact hs.keep rfl rfl rfl (fun _ => rfl) (fun h => by simp [shut, endRead, took, h])
  | @writeMore res w flushed _ idle out holder fatal proceeds woke =>
      obtain ⟨hkernel, hcount⟩ := hs.last holder out
      obtain ⟨-, hsend, -⟩ := WriteContext.proceed_frame proceeds
      refine woke.single (.inl ?_)
      cases flushed <;> cases s.sqeLow <;> simp [writes, Session.wrote, hsend, hkernel, hcount]
  | writeFatal idle out holder =>
      obtain ⟨hkernel, hcount⟩ := hs.last holder out
      exact Single.woken (.inl (by simp [writes, hkernel, hcount]))
  | writeClose idle out holder =>
      obtain ⟨hkernel, hcount⟩ := hs.last holder out
      exact .inl (by simp [writes, shut, endWrite, hkernel, hcount])
  | established idle head =>
      have hquiet := hl.born.quiet (hl.born.unborn head)
      exact .inl (by simpa [writes, hquiet.2.2.2.2.2] using hquiet.2.2.2.2.1)
  | recvRegister =>
      rw [awaitRead_eq]
      exact hs.keep (by simp [writes])
  | recvResume => exact Single.woken hs.keep
  | sendRegister idle head alive sends => exact (hs.wrote (.inl alive) sends).keep
  | sendResume idle head alive sends => exact Single.woken (hs.wrote (.inl alive) sends).keep
  | destroyed => exact hs.keep rfl rfl rfl (fun _ => rfl) (fun h => by simp [shut, h])
  | drainRead idle head => exact hs.keep (by simp [writes, prepareRead, head])
  | drainWrite idle head =>
      refine hs.keep ?_
      simp [writes, prepareWrite, head]
      omega
  | unwindRead =>
      exact hs.keep rfl rfl rfl (fun _ => rfl) (fun h => by simp [shut, endRead, h])
  | unwindWrite frame =>
      -- the branch clears `is_sending_`, whatever the coroutine has sent from inside it
      obtain ⟨alive, handle, -⟩ := hl.handles.writeFrame (by simp [frame, Ctl.inWriteFatal])
      exact .inr ⟨hs.le, rfl, by simp [shut, endWrite, handle], rfl, hl.born.co_ne alive⟩
  | recvReady =>
      rw [recvAwaitResume_eq]
      exact hs.keep
  | recvSuspend =>
      rw [awaitRead_eq]
      exact hs.keep (by simp [writes]) rfl rfl id id (fun _ => by simp)
  | sendLate =>
      rw [sendAwaitResume_eq]
      exact hs.keep
  | sendThrough here ctl opened sends =>
      rw [sendAwaitResume_eq]
      exact (hs.wrote (.inr opened) sends).keep
  | sendSuspend here ctl opened sends =>
      exact (hs.wrote (.inr opened) sends).keep rfl rfl rfl id id (fun _ => by simp)
  | recvLate =>
      rw [recvAwaitResume_eq]
      exact hs.keep
  | sendLateWorker =>
      rw [sendAwaitResume_eq]
      exact hs.keep
  | enqueue => exact hs.keep rfl rfl rfl id id (fun _ => by simp)
  | switchLoop | retLoop | recvLeave | sendLeave | switchWorker | retWorker | poolTake =>
      exact hs.keep rfl rfl rfl id id (fun _ => by simp)
  | _ => exact hs.keep

theorem Reached.located (h : s.Reached) : s.Located := by
  obtain ⟨_, _, _, _, run⟩ := h
  exact run.invariant (located_create _ _ _ _) fun _ _ _ hs _ move => (step_move move).located hs

theorem Reached.single (h : s.Reached) : s.Single := by
  obtain ⟨_, _, _, _, run⟩ := h
  have hboth := run.invariant (P := fun s => s.Located ∧ s.Single)
    ⟨located_create _ _ _ _, .inl rfl⟩
    fun _ _ _ hs _ move => ⟨(step_move move).located hs.1, (step_move move).single hs.1 hs.2⟩
  exact hboth.2

/-- Requests of a context that are in the kernel. -/
def inKernel (s : Session) : ContextType → ℕ
  | .read => s.kernelReads
  | .write => s.kernelWrites

/-- **One request for each context**, in the kernel or waiting, whatever the coroutine does. -/
theorem Reached.outstanding_le (h : s.Reached) (c : ContextType) :
    s.inKernel c + s.waiting.count c ≤ 1 := by
  cases c with
  | read =>
      have hreads := h.readProtocol.reads_eq
      have hle := Bool.toNat_le s.read.active
      simp only [reads] at hreads
      simp only [inKernel]
      omega
  | write => exact h.single.le

end Session

end Proactor
