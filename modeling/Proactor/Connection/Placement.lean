import Proactor.Connection.ReadProtocol
import Proactor.Connection.WriteProtocol

/-!
# Where the coroutine is

The handle of the coroutine can be in four places: in the queue of the thread pool, in a functor of
the loop that one of its awaiters has queued, in the read context and in the write context.  The
invariants here say that it is in one of them at a time, and that the coroutine is then suspended
where the owner of the handle expects it.  They hold in every run.

* `Born` — before `Established` has run, nobody has a handle.
* `Placed` — the coroutine is where the pool, the queued functor or the loop thread takes it to be.
* `Handles` — a handle in a context belongs to a coroutine that waits there.  The fatal branches
  of the two `on_completion` functions resume the coroutine and leave its handle in the context;
  until the end of the branch the handle means nothing.

So every `resume()` finds the coroutine suspended (`resume_finds_suspended`), unless the coroutine
has been destroyed before: that is the subject of `Lifetime`.
-/

namespace Proactor

open Transition

def QueuedFunctor.isAwait : QueuedFunctor → Bool
  | .await _ => true
  | _ => false

/-- The loop thread is running the coroutine. -/
def Ctl.runsCo : Ctl → Bool
  | .inCo _ => true
  | _ => false

namespace Session

/-- The functors of the coroutine's awaiters in the queue of the loop. -/
def awaits (s : Session) : ℕ := s.functors.countP QueuedFunctor.isAwait

/-- **Before `Established` the connection is untouched**, and `Established` runs once. -/
structure Born (s : Session) : Prop where
  count : s.functors.count .established = if s.co = .unborn then 1 else 0
  quiet : s.co = .unborn →
    s.task = false ∧ s.ctl = .idle ∧ s.read.readHandle = false ∧ s.write.writeHandle = false ∧
      s.writes = 0 ∧ s.write.isSending = false

/-- **The coroutine is in one place**, and whoever is going to resume it finds it there. -/
structure Placed (s : Session) : Prop where
  loop : s.co = .onLoop ↔ s.ctl.runsCo = true
  pool : s.pool = true → s.co = .pooled
  await : ∀ w, .await w ∈ s.functors → s.co = parked w
  once : s.awaits ≤ 1

/-- **A handle in a context belongs to a coroutine that waits there.**  In a fatal branch the handle
that has been used is still there; on a closing connection it is the only one. -/
structure Handles (s : Session) : Prop where
  reader : s.ctl.inReadFatal = false → s.task = true → s.read.readHandle = true →
    s.co = .inRecv ∧ s.awaits = 0
  writer : s.ctl.inWriteFatal = false → s.task = true → s.write.writeHandle = true →
    s.co = .inSend ∧ s.awaits = 0
  readFrame : s.ctl.inReadFatal = true →
    s.task = true ∧ s.read.readHandle = true ∧ (s.closing = true → s.write.writeHandle = false)
  writeFrame : s.ctl.inWriteFatal = true →
    s.task = true ∧ s.write.writeHandle = true ∧ (s.closing = true → s.read.readHandle = false)

@[simp] theorem count_notice (late : Bool) : (notice late).count .established = 0 := by
  cases late <;> rfl

@[simp] theorem countP_notice (late : Bool) : (notice late).countP QueuedFunctor.isAwait = 0 := by
  cases late <;> rfl

@[simp] theorem leave_runsCo (frame : Frame) : (leave frame).runsCo = false := by
  cases frame <;> rfl

@[simp] theorem parked_ne_unborn (w : Awaiter) : parked w ≠ .unborn := by
  cases w <;> simp [parked]

theorem parked_cases (w : Awaiter) : parked w = .inRecv ∨ parked w = .inSend := by
  cases w <;> simp [parked]

section

variable {s s' : Session} {a : SessionAct}

theorem awaits_eq_zero : s.awaits = 0 ↔ ∀ w, .await w ∉ s.functors := by
  simp only [awaits, List.countP_eq_zero]
  constructor
  · intro h w hw
    exact h _ hw rfl
  · intro h f hf
    cases f with
    | await w => exact absurd hf (h w)
    | _ => simp [QueuedFunctor.isAwait]

/-- A coroutine that survives `handleClose` has no handle in a context. -/
theorem shut_task (h : s.shut.task = true) :
    s.task = true ∧ s.closing = false ∧ s.read.readHandle = false ∧
      s.write.writeHandle = false := by
  simpa [shut, and_assoc] using h

/-! ## Birth -/

theorem Born.co_ne (h : s.Born) (alive : s.task = true) : s.co ≠ .unborn := by
  intro hco
  exact absurd (alive.symm.trans (h.quiet hco).1) (by decide)

theorem Born.unborn (h : s.Born) {fs : List QueuedFunctor}
    (head : s.functors = .established :: fs) : s.co = .unborn := by
  have hcount := h.count
  rw [head, List.count_cons_self] at hcount
  by_contra hco
  rw [if_neg hco] at hcount
  omega

/-- A coroutine that exists stays in existence, and its `Established` has run. -/
theorem Born.of_co {t : Session} (hs : s.Born) (hco : s.co ≠ .unborn) (hco' : t.co ≠ .unborn)
    (hcount : t.functors.count .established = s.functors.count .established) : t.Born := by
  refine ⟨?_, fun h => absurd h hco'⟩
  rw [hcount, hs.count, if_neg hco, if_neg hco']

/-- A step that can happen before `Established`. -/
theorem Born.keep {t : Session} (hs : s.Born)
    (hcount : t.functors.count .established = s.functors.count .established := by rfl)
    (hctl : s.ctl = .idle → t.ctl = .idle := by exact id)
    (htask : s.task = false → t.task = false := by exact id)
    (hreader : s.read.readHandle = false → t.read.readHandle = false := by exact id)
    (hwriter : s.write.writeHandle = false → t.write.writeHandle = false := by exact id)
    (hwrites : t.writes = s.writes := by rfl) (hco : t.co = s.co := by rfl)
    (hsend : t.write.isSending = s.write.isSending := by rfl) : t.Born := by
  refine ⟨?_, ?_⟩
  · rw [hcount, hco]
    exact hs.count
  · intro h
    obtain ⟨h₁, h₂, h₃, h₄, h₅, h₆⟩ := hs.quiet (hco ▸ h)
    exact ⟨htask h₁, hctl h₂, hreader h₃, hwriter h₄, hwrites.trans h₅, hsend.trans h₆⟩

theorem WokeReader.born (h : WokeReader s s') (hs : s.Born) : s'.Born := by
  cases h with
  | asleep => exact hs
  | woken handle alive => exact hs.of_co (hs.co_ne alive) (by simp) (by simp)

theorem WokeWriter.born (h : WokeWriter s s') (hs : s.Born) : s'.Born := by
  cases h with
  | asleep => exact hs
  | woken handle drained alive => exact hs.of_co (hs.co_ne alive) (by simp) (by simp)

theorem Move.born (h : Move s a s') (hs : s.Born) : s'.Born := by
  have hwriting : 0 < s.kernelWrites → s.co ≠ .unborn := by
    intro out hco
    have hnone := (hs.quiet hco).2.2.2.2.1
    simp only [writes] at hnone
    omega
  cases h with
  | readMore idle out holder status woke =>
      exact woke.born (hs.keep rfl id id (by simp [took]))
  | readStopped idle out holder fatal status woke =>
      exact woke.born (hs.keep rfl id id (by simp [took, endRead]))
  | readAgain idle out holder fatal status woke =>
      rw [submitRead_eq] at woke
      exact woke.born (hs.keep rfl id id (by simp [took]) id (by simp [writes, took]))
  | readFatal idle out holder status fatal handle alive =>
      exact hs.of_co (hs.co_ne alive) (by simp) (by simp [took])
  | readClose idle out holder status fatal handle stopped =>
      exact hs.keep rfl id (by simp +contextual [took, shut, endRead])
        (by simp [took, shut, endRead, handle]) (by simp +contextual [shut, endRead, took])
  | writeMore idle out holder fatal proceeds woke =>
      have hco := hwriting out
      exact woke.born (hs.of_co hco hco rfl)
  | writeFatal idle out holder fatal handle alive =>
      exact hs.of_co (hs.co_ne alive) (by simp) (by simp)
  | writeClose idle out holder fatal handle stopped =>
      have hco := hwriting out
      exact hs.of_co hco hco rfl
  | established idle head =>
      have hcount := hs.count
      rw [hs.unborn head, head, List.count_cons_self, if_pos rfl] at hcount
      exact ⟨by simpa using hcount, by simp⟩
  | recvRegister idle head alive empty =>
      have hco := hs.co_ne alive
      rw [awaitRead_eq]
      exact hs.of_co hco hco (by simp [head])
  | recvResume idle head alive empty => exact hs.of_co (hs.co_ne alive) (by simp) (by simp [head])
  | sendRegister idle head alive sends load =>
      have hco := hs.co_ne alive
      exact hs.of_co hco hco (by simp [wrote, head])
  | sendResume idle head alive sends load =>
      exact hs.of_co (hs.co_ne alive) (by simp) (by simp [wrote, head])
  | destroyed idle head stopped =>
      exact hs.keep (by simp [shut, head]) id (by simp +contextual [shut])
        (by simp +contextual [shut]) (by simp +contextual [shut])
  | drainRead idle head =>
      exact hs.keep rfl id id id id (by simp [writes, prepareRead, head])
  | drainWrite idle head =>
      refine hs.keep rfl id id id id ?_
      simp [writes, prepareWrite, head]
      omega
  | unwindRead frame stopped =>
      exact hs.keep rfl (by simp [shut, endRead]) (by simp +contextual [shut, endRead])
        (by simp +contextual [shut, endRead]) (by simp +contextual [shut, endRead])
  | unwindWrite frame stopped =>
      have hco : s.co ≠ .unborn := fun h => by simp [(hs.quiet h).2.1] at frame
      exact hs.of_co hco hco rfl
  | recvReady here ctl =>
      exact hs.of_co (by simp [here]) (by simp [recvAwaitResume_eq, here])
        (by simp [recvAwaitResume_eq])
  | recvSuspend here ctl opened empty =>
      exact hs.of_co (by simp [here]) (by simp) (by simp [awaitRead_eq])
  | sendLate here ctl closed =>
      exact hs.of_co (by simp [here]) (by simp [sendAwaitResume_eq, here])
        (by simp [sendAwaitResume_eq])
  | sendThrough here ctl opened sends load =>
      exact hs.of_co (by simp [here]) (by simp [sendAwaitResume_eq, wrote, here])
        (by simp [sendAwaitResume_eq, wrote])
  | sendSuspend here ctl opened sends load =>
      exact hs.of_co (by simp [here]) (by simp) (by simp [wrote])
  | switchLoop here ctl => exact hs.of_co (by simp [here]) (by simp) rfl
  | retLoop here ctl => exact hs.of_co (by simp [here]) (by simp) rfl
  | recvLate here closed =>
      exact hs.of_co (by simp [here]) (by simp [recvAwaitResume_eq, here])
        (by simp [recvAwaitResume_eq])
  | sendLateWorker here closed =>
      exact hs.of_co (by simp [here]) (by simp [sendAwaitResume_eq, here])
        (by simp [sendAwaitResume_eq])
  | recvLeave here opened => exact hs.of_co (by simp [here]) (by simp) rfl
  | sendLeave here opened => exact hs.of_co (by simp [here]) (by simp) rfl
  | switchWorker here => exact hs.of_co (by simp [here]) (by simp) rfl
  | retWorker here => exact hs.of_co (by simp [here]) (by simp) rfl
  | enqueue here => exact hs.of_co (by simp [here]) (by simp) (by simp)
  | poolTake queued alive here => exact hs.of_co (by simp [here]) (by simp) rfl
  | serverDestroy entry => exact hs.keep (by simp [queueDestroyed])
  | abort => exact hs.keep
  | read => exact hs.keep
  | removeConnection => exact hs.keep
  | pressure => exact hs.keep

/-! ## The place -/

/-- A coroutine that is not suspended in an awaiter has no functor in the queue. -/
theorem Placed.no_await (hs : s.Placed) (hr : s.co ≠ .inRecv) (hw : s.co ≠ .inSend) :
    s.awaits = 0 := by
  refine awaits_eq_zero.mpr ?_
  intro w h
  rcases parked_cases w with hp | hp
  · exact hr ((hs.await w h).trans hp)
  · exact hw ((hs.await w h).trans hp)

/-- While the coroutine runs, nobody else has its handle. -/
theorem Placed.running_free (hs : s.Placed) (h : running s.co = true) :
    s.pool = false ∧ s.awaits = 0 := by
  refine ⟨?_, hs.no_await ?_ ?_⟩
  · by_contra hp
    simp [hs.pool (by simpa using hp), running] at h
  · rintro hco
    simp [hco, running] at h
  · rintro hco
    simp [hco, running] at h

/-- The functor that runs was the only one. -/
theorem Placed.head_free (hs : s.Placed) {w : Awaiter} {fs : List QueuedFunctor}
    (head : s.functors = .await w :: fs) :
    s.co = parked w ∧ s.pool = false ∧ fs.countP QueuedFunctor.isAwait = 0 := by
  have hco := hs.await w (by simp [head])
  have honce := hs.once
  simp only [awaits, head, List.countP_cons, QueuedFunctor.isAwait, if_true] at honce
  refine ⟨hco, ?_, by omega⟩
  by_contra h
  have := hs.pool (by simpa using h)
  rcases parked_cases w with hp | hp <;> simp [hco, hp] at this

theorem Placed.off_loop (hs : s.Placed) (h : s.co ≠ .onLoop) : s.ctl.runsCo = false := by
  by_contra hrun
  exact h (hs.loop.mpr (by simpa using hrun))

/-- A handle in a context, found there by the loop thread between two handlers. -/
theorem Handles.waiting (hs : s.Handles) (idle : s.ctl = .idle) (alive : s.task = true)
    (handle : s.read.readHandle = true ∨ s.write.writeHandle = true) :
    (s.co = .inRecv ∧ s.read.readHandle = true ∨ s.co = .inSend ∧ s.write.writeHandle = true) ∧
      s.awaits = 0 := by
  rcases handle with h | h
  · obtain ⟨hco, h0⟩ := hs.reader (by simp [idle, Ctl.inReadFatal]) alive h
    exact ⟨.inl ⟨hco, h⟩, h0⟩
  · obtain ⟨hco, h0⟩ := hs.writer (by simp [idle, Ctl.inWriteFatal]) alive h
    exact ⟨.inr ⟨hco, h⟩, h0⟩

/-- Only the context has the handle of a coroutine that waits there. -/
theorem Placed.waiting_free (hs : s.Placed) (hh : s.Handles) (idle : s.ctl = .idle)
    (alive : s.task = true) (handle : s.read.readHandle = true ∨ s.write.writeHandle = true) :
    s.pool = false ∧ s.awaits = 0 := by
  obtain ⟨hco, h0⟩ := hh.waiting idle alive handle
  refine ⟨?_, h0⟩
  by_contra h
  have := hs.pool (by simpa using h)
  rcases hco with ⟨hco, -⟩ | ⟨hco, -⟩ <;> simp [hco] at this

/-- A step that leaves the coroutine where it is and queues no functor of an awaiter. -/
theorem Placed.keep {t : Session} (hs : s.Placed) (fs : List QueuedFunctor)
    (hfs : t.functors = s.functors ++ fs) (hquiet : fs.countP QueuedFunctor.isAwait = 0 := by rfl)
    (hctl : t.ctl.runsCo = s.ctl.runsCo := by rfl) (hco : t.co = s.co := by rfl)
    (hpool : t.pool = s.pool := by rfl) : t.Placed := by
  refine ⟨?_, ?_, ?_, ?_⟩
  · rw [hco, hctl]
    exact hs.loop
  · rw [hpool, hco]
    exact hs.pool
  · intro w hw
    rw [hfs, List.mem_append] at hw
    rw [hco]
    refine hs.await w (hw.resolve_right ?_)
    intro h
    exact (List.countP_eq_zero.mp hquiet _ h) rfl
  · have honce := hs.once
    simp only [awaits] at honce ⊢
    rw [hfs, List.countP_append, hquiet]
    exact honce

/-- The loop takes a functor that is not of an awaiter. -/
theorem Placed.tail (hs : s.Placed) {f : QueuedFunctor} {fs : List QueuedFunctor}
    (head : s.functors = f :: fs) (hf : f.isAwait = false) :
    ({ s with functors := fs } : Session).Placed := by
  refine ⟨hs.loop, hs.pool, fun w hw => hs.await w (by simp [head, hw]), ?_⟩
  have honce := hs.once
  simpa [awaits, head, List.countP_cons, hf] using honce

/-- A step that moves the coroutine, when no functor of its awaiters is queued. -/
theorem Placed.moved (hfree : s.awaits = 0) (hpool : s.pool = true → s.co = .pooled)
    (hloop : s.co = .onLoop ↔ s.ctl.runsCo = true) : s.Placed :=
  ⟨hloop, hpool, fun w hw => absurd hw (awaits_eq_zero.mp hfree w), by omega⟩

theorem Placed.woken (frame : Frame) (hfree : s.pool = false ∧ s.awaits = 0) :
    (s.woken frame).Placed := by
  obtain ⟨hpool, h0⟩ := hfree
  refine Placed.moved ?_ (by simp [hpool]) (by simp [Ctl.runsCo])
  simp only [awaits] at h0
  simp [awaits, h0]

/-- Waking a coroutine whose handle nobody else has. -/
theorem WokeReader.placed (h : WokeReader s s') (hs : s.Placed)
    (hfree : s.task = true → s.read.readHandle = true → s.pool = false ∧ s.awaits = 0) :
    s'.Placed := by
  cases h with
  | asleep => exact hs
  | woken handle alive => exact Placed.woken _ (hfree alive handle)

theorem WokeWriter.placed (h : WokeWriter s s') (hs : s.Placed)
    (hfree : s.task = true → s.write.writeHandle = true → s.pool = false ∧ s.awaits = 0) :
    s'.Placed := by
  cases h with
  | asleep => exact hs
  | woken handle drained alive => exact Placed.woken _ (hfree alive handle)

theorem Move.placed (h : Move s a s') (hb : s.Born) (hh : s.Handles) (hs : s.Placed) :
    s'.Placed := by
  have hfree := hs.waiting_free hh
  cases h with
  | abort => exact hs.keep [] (by simp)
  | @readMore res data _ idle out holder status woke =>
      refine woke.placed (hs.keep [] (by simp [took])) ?_
      intro alive handle
      exact hfree idle alive (.inl (by simpa [took] using handle))
  | @readStopped res data _ idle out holder fatal status woke =>
      refine woke.placed (hs.keep [] (by simp [took, endRead])) ?_
      intro alive handle
      exact hfree idle alive (.inl (by simpa [took, endRead] using handle))
  | @readAgain res data _ idle out holder fatal status woke =>
      rw [submitRead_eq] at woke
      refine woke.placed (hs.keep [] (by simp [took])) ?_
      intro alive handle
      exact hfree idle alive (.inl (by simpa [took] using handle))
  | writeMore idle out holder fatal proceeds woke =>
      obtain ⟨-, -, -, hhandle, -, -⟩ := WriteContext.proceed_frame proceeds
      refine woke.placed (hs.keep [] (by simp [wrote])) ?_
      intro alive handle
      exact hfree idle alive (.inr (by simpa [wrote, hhandle] using handle))
  | readFatal idle out holder status fatal handle alive =>
      exact Placed.woken _ (hfree idle alive (.inl handle))
  | writeFatal idle out holder fatal handle alive =>
      exact Placed.woken _ (hfree idle alive (.inr handle))
  | readClose => exact hs.keep [] (by simp [took, shut, endRead])
  | writeClose => exact hs.keep [] (by simp [shut, endWrite])
  | established idle head =>
      have hunborn := hb.unborn head
      have ht := hs.tail head rfl
      refine Placed.moved (ht.no_await ?_ ?_) ?_ (by simp [Ctl.runsCo])
      · simp [hunborn]
      · simp [hunborn]
      · intro h
        exact absurd (hunborn.symm.trans (hs.pool h)) (by decide)
  | recvRegister idle head alive empty =>
      obtain ⟨hco, hpool, h0⟩ := hs.head_free head
      rw [awaitRead_eq]
      exact Placed.moved h0 (by simp [hpool]) (by simp [hco, parked, idle, Ctl.runsCo])
  | recvResume idle head alive empty => exact Placed.woken _ (hs.head_free head).2
  | sendRegister idle head alive sends load =>
      obtain ⟨hco, hpool, h0⟩ := hs.head_free head
      exact Placed.moved h0 (by simp [wrote, hpool])
        (by simp [wrote, hco, parked, idle, Ctl.runsCo])
  | sendResume idle head alive sends load => exact Placed.woken _ (hs.head_free head).2
  | destroyed idle head stopped => exact (hs.tail head rfl).keep [] (by simp [shut])
  | drainRead => exact hs.keep [] (by simp [prepareRead])
  | drainWrite => exact hs.keep [] (by simp [prepareWrite])
  | unwindRead frame stopped =>
      exact hs.keep [] (by simp [shut, endRead]) rfl (by simp [shut, endRead, frame, Ctl.runsCo])
  | unwindWrite frame stopped =>
      exact hs.keep [] (by simp [shut, endWrite]) rfl (by simp [shut, endWrite, frame, Ctl.runsCo])
  | recvReady here ctl =>
      rw [recvAwaitResume_eq]
      exact hs.keep _ rfl (by simp)
  | recvSuspend here ctl opened empty =>
      obtain ⟨hpool, h0⟩ := hs.running_free (by simp [here, running])
      rw [awaitRead_eq]
      exact Placed.moved h0 (by simp [hpool]) (by simp)
  | sendLate here ctl closed =>
      rw [sendAwaitResume_eq]
      exact hs.keep _ rfl (by simp)
  | sendThrough here ctl opened sends load =>
      rw [sendAwaitResume_eq]
      exact hs.keep _ rfl (by simp)
  | sendSuspend here ctl opened sends load =>
      obtain ⟨hpool, h0⟩ := hs.running_free (by simp [here, running])
      exact Placed.moved h0 (by simp [wrote, hpool]) (by simp)
  | switchLoop here ctl =>
      obtain ⟨-, h0⟩ := hs.running_free (by simp [here, running])
      exact Placed.moved h0 (by simp) (by simp)
  | retLoop here ctl =>
      obtain ⟨hpool, h0⟩ := hs.running_free (by simp [here, running])
      exact Placed.moved h0 (by simp [hpool]) (by simp)
  | recvLate here closed =>
      rw [recvAwaitResume_eq]
      exact hs.keep _ rfl (by simp)
  | sendLateWorker here closed =>
      rw [sendAwaitResume_eq]
      exact hs.keep _ rfl (by simp)
  | recvLeave here opened =>
      obtain ⟨hpool, h0⟩ := hs.running_free (by simp [here, running])
      exact Placed.moved h0 (by simp [hpool]) (by simp [hs.off_loop (by simp [here])])
  | sendLeave here opened =>
      obtain ⟨hpool, h0⟩ := hs.running_free (by simp [here, running])
      exact Placed.moved h0 (by simp [hpool]) (by simp [hs.off_loop (by simp [here])])
  | switchWorker here =>
      obtain ⟨-, h0⟩ := hs.running_free (by simp [here, running])
      exact Placed.moved h0 (by simp) (by simp [hs.off_loop (by simp [here])])
  | retWorker here =>
      obtain ⟨hpool, h0⟩ := hs.running_free (by simp [here, running])
      exact Placed.moved h0 (by simp [hpool]) (by simp [hs.off_loop (by simp [here])])
  | read => exact hs.keep [] (by simp)
  | @enqueue w here =>
      obtain ⟨hpool, h0⟩ := hs.running_free (by simp [here, running])
      have hctl := hs.off_loop (by simp [here])
      refine ⟨?_, by simp [hpool], ?_, ?_⟩
      · rcases parked_cases w with hp | hp <;> simp [hp, hctl]
      · intro v hv
        simp only [List.mem_append, awaits_eq_zero.mp h0 v, List.mem_singleton, false_or,
          QueuedFunctor.await.injEq] at hv
        rw [hv]
      · simp only [awaits] at h0
        simp [awaits, h0, QueuedFunctor.isAwait]
  | poolTake queued alive here =>
      refine Placed.moved (hs.no_await ?_ ?_) (by simp) (by simp [hs.off_loop (by simp [here])])
      · simp [here]
      · simp [here]
  | serverDestroy entry => exact hs.keep [.destroyed] rfl
  | removeConnection => exact hs.keep [] (by simp)
  | pressure => exact hs.keep [] (by simp)

/-! ## The handles -/

/-- The coroutine waits on one side at most. -/
theorem Handles.one (hs : s.Handles) (idle : s.ctl = .idle) (alive : s.task = true) :
    s.read.readHandle = false ∨ s.write.writeHandle = false := by
  by_contra h
  simp only [not_or, Bool.not_eq_false] at h
  obtain ⟨hr, -⟩ := hs.reader (by simp [idle, Ctl.inReadFatal]) alive h.1
  obtain ⟨hw, -⟩ := hs.writer (by simp [idle, Ctl.inWriteFatal]) alive h.2
  exact absurd (hr.symm.trans hw) (by decide)

/-- While a functor of its awaiter is queued, it waits on neither. -/
theorem Handles.head_none (hs : s.Handles) (idle : s.ctl = .idle) (alive : s.task = true)
    {w : Awaiter} {fs : List QueuedFunctor} (head : s.functors = .await w :: fs) :
    s.read.readHandle = false ∧ s.write.writeHandle = false := by
  have hpos : s.awaits ≠ 0 := by simp [awaits, head, QueuedFunctor.isAwait]
  by_contra h
  rw [not_and_or, Bool.not_eq_false, Bool.not_eq_false] at h
  exact hpos (hs.waiting idle alive h).2

/-- A step that does not touch the coroutine or its handles. -/
theorem Handles.keep {t : Session} (hs : s.Handles) (hawaits : t.awaits = s.awaits := by rfl)
    (hctl : t.ctl = s.ctl := by rfl) (htask : t.task = s.task := by rfl)
    (hco : t.co = s.co := by rfl) (hclosing : t.closing = s.closing := by rfl)
    (hreader : t.read.readHandle = s.read.readHandle := by rfl)
    (hwriter : t.write.writeHandle = s.write.writeHandle := by rfl) : t.Handles := by
  obtain ⟨h₁, h₂, h₃, h₄⟩ := hs
  constructor
  · rwa [hctl, htask, hreader, hco, hawaits]
  · rwa [hctl, htask, hwriter, hco, hawaits]
  · rwa [hctl, htask, hreader, hclosing, hwriter]
  · rwa [hctl, htask, hwriter, hclosing, hreader]

/-- A step that moves a coroutine which is not suspended in an awaiter: its handle is in no
context, a used one in a fatal branch apart. -/
theorem Handles.moved {t : Session} (hs : s.Handles) (hr : s.co ≠ .inRecv) (hw : s.co ≠ .inSend)
    (hrf : t.ctl.inReadFatal = s.ctl.inReadFatal := by rfl)
    (hwf : t.ctl.inWriteFatal = s.ctl.inWriteFatal := by rfl) (htask : t.task = s.task := by rfl)
    (hclosing : t.closing = s.closing := by rfl)
    (hreader : t.read.readHandle = s.read.readHandle := by rfl)
    (hwriter : t.write.writeHandle = s.write.writeHandle := by rfl) : t.Handles := by
  obtain ⟨h₁, h₂, h₃, h₄⟩ := hs
  constructor
  · intro hctl alive handle
    exact absurd (h₁ (hrf ▸ hctl) (htask ▸ alive) (hreader ▸ handle)).1 hr
  · intro hctl alive handle
    exact absurd (h₂ (hwf ▸ hctl) (htask ▸ alive) (hwriter ▸ handle)).1 hw
  · rwa [hrf, htask, hreader, hclosing, hwriter]
  · rwa [hwf, htask, hwriter, hclosing, hreader]

/-- Outside the fatal branches, when no handle of a live coroutine is in a context. -/
theorem Handles.quiet (hrf : s.ctl.inReadFatal = false) (hwf : s.ctl.inWriteFatal = false)
    (hr : s.task = true → s.read.readHandle = false)
    (hw : s.task = true → s.write.writeHandle = false) : s.Handles :=
  ⟨fun _ alive h => absurd (h.symm.trans (hr alive)) (by decide),
    fun _ alive h => absurd (h.symm.trans (hw alive)) (by decide), by simp [hrf], by simp [hwf]⟩

/-- A `handleClose` leaves no handle of a coroutine that survives it. -/
theorem Handles.shut (idle : s.ctl = .idle) : s.shut.Handles := by
  refine Handles.quiet (by simp [Session.shut, idle, Ctl.inReadFatal])
    (by simp [Session.shut, idle, Ctl.inWriteFatal]) (?_) ?_
  · intro alive
    simp [Session.shut, (shut_task alive).2.2.1]
  · intro alive
    simp [Session.shut, (shut_task alive).2.2.2]

theorem WokeReader.handles (h : WokeReader s s') (hs : s.Handles) (idle : s.ctl = .idle) :
    s'.Handles := by
  cases h with
  | asleep => exact hs
  | woken handle alive =>
      have hnone := (hs.one idle alive).resolve_left (by simp [handle])
      exact Handles.quiet (by simp [Ctl.inReadFatal]) (by simp [Ctl.inWriteFatal]) (by simp)
        (by simp [hnone])

theorem WokeWriter.handles (h : WokeWriter s s') (hs : s.Handles) (idle : s.ctl = .idle) :
    s'.Handles := by
  cases h with
  | asleep => exact hs
  | woken handle drained alive =>
      have hnone := (hs.one idle alive).resolve_right (by simp [handle])
      exact Handles.quiet (by simp [Ctl.inReadFatal]) (by simp [Ctl.inWriteFatal])
        (by simp [hnone]) (by simp)

theorem Move.handles (h : Move s a s') (hb : s.Born) (hp : s.Placed) (hs : s.Handles) :
    s'.Handles := by
  cases h with
  | abort => exact hs.keep
  | @readMore res data _ idle out holder status woke =>
      have ht : (s.took res data true).Handles :=
        hs.keep rfl rfl rfl rfl rfl (by simp [took])
      exact woke.handles ht idle
  | @readStopped res data _ idle out holder fatal status woke =>
      have ht : (s.took res data false).endRead.Handles :=
        hs.keep rfl rfl rfl rfl rfl (by simp [took, endRead])
      exact woke.handles ht idle
  | @readAgain res data _ idle out holder fatal status woke =>
      rw [submitRead_eq] at woke
      refine woke.handles ?_ idle
      exact hs.keep rfl rfl rfl rfl rfl (by simp [took])
  | writeMore idle out holder fatal proceeds woke =>
      obtain ⟨-, -, -, hhandle, -, -⟩ := WriteContext.proceed_frame proceeds
      rw [s.write.acknowledge_writeHandle] at hhandle
      exact woke.handles (hs.keep rfl rfl rfl rfl rfl rfl hhandle) idle
  | readFatal idle out holder status fatal handle alive =>
      have hnone := (hs.one idle alive).resolve_left (by simp [handle])
      refine ⟨by simp [Ctl.inReadFatal], by simp [took, hnone], ?_,
        by simp [Ctl.inWriteFatal]⟩
      intro _
      simp [took, alive, handle, hnone]
  | writeFatal idle out holder fatal handle alive =>
      have hnone := (hs.one idle alive).resolve_right (by simp [handle])
      refine ⟨by simp [hnone], by simp [Ctl.inWriteFatal], by simp [Ctl.inReadFatal], ?_⟩
      intro _
      simp [alive, handle, hnone]
  | @readClose res data idle out holder status fatal handle stopped =>
      have ht : (s.took res data false).shut.Handles := Handles.shut idle
      exact ht.keep
  | writeClose idle out holder fatal handle stopped =>
      have ht : ({ s with
          kernelWrites := s.kernelWrites - 1
          write := { s.write with isError := true, isSending := false } } : Session).shut.Handles :=
        Handles.shut idle
      exact ht.keep
  | established idle head =>
      obtain ⟨-, -, hr, hw, -⟩ := hb.quiet (hb.unborn head)
      exact Handles.quiet rfl rfl (fun _ => hr) fun _ => hw
  | recvRegister idle head alive empty =>
      obtain ⟨hco, -, h0⟩ := hp.head_free head
      obtain ⟨-, hnone⟩ := hs.head_none idle alive head
      rw [awaitRead_eq]
      exact ⟨fun _ _ _ => ⟨hco, h0⟩, by simp [hnone], by simp [idle, Ctl.inReadFatal],
        by simp [idle, Ctl.inWriteFatal]⟩
  | recvResume idle head alive empty =>
      obtain ⟨hr, hw⟩ := hs.head_none idle alive head
      exact Handles.quiet (by simp [Ctl.inReadFatal]) (by simp [Ctl.inWriteFatal]) (by simp [hr])
        (by simp [hw])
  | sendRegister idle head alive sends load =>
      obtain ⟨hco, -, h0⟩ := hp.head_free head
      obtain ⟨hnone, -⟩ := hs.head_none idle alive head
      exact ⟨by simp [wrote, hnone], fun _ _ _ => ⟨hco, h0⟩,
        by simp [wrote, idle, Ctl.inReadFatal], by simp [wrote, idle, Ctl.inWriteFatal]⟩
  | sendResume idle head alive sends load =>
      obtain ⟨hr, hw⟩ := hs.head_none idle alive head
      obtain ⟨-, -, -, hhandle, -, -⟩ := WriteContext.sendInLoop_frame sends
      exact Handles.quiet (by simp [Ctl.inReadFatal]) (by simp [Ctl.inWriteFatal])
        (by simp [wrote, hr]) (by simp [wrote, hhandle, hw])
  | destroyed idle head stopped => exact Handles.shut idle
  | drainRead idle head => exact hs.keep
  | drainWrite idle head => exact hs.keep
  | unwindRead frame stopped =>
      have ht : ({ s with ctl := .idle } : Session).shut.Handles := Handles.shut rfl
      exact ht.keep
  | unwindWrite frame stopped =>
      have ht : ({ s with ctl := .idle } : Session).shut.Handles := Handles.shut rfl
      exact ht.keep
  | recvReady here ctl =>
      rw [recvAwaitResume_eq]
      exact hs.keep (by simp [awaits])
  | recvSuspend here ctl opened empty =>
      obtain ⟨-, h0⟩ := hp.running_free (by simp [here, running])
      rw [awaitRead_eq]
      refine ⟨fun _ _ _ => ⟨rfl, h0⟩, ?_, ?_, ?_⟩
      · intro hctl alive handle
        have := (hs.writer (by simpa [ctl] using hctl) alive handle).1
        exact absurd (here.symm.trans this) (by decide)
      · intro hctl
        exact ⟨(hs.readFrame (by simpa [ctl] using hctl)).1, rfl, by simp [opened]⟩
      · intro hctl
        obtain ⟨alive, handle, -⟩ := hs.writeFrame (by simpa [ctl] using hctl)
        exact ⟨alive, handle, by simp [opened]⟩
  | sendLate here ctl closed =>
      rw [sendAwaitResume_eq]
      exact hs.keep (by simp [awaits])
  | sendThrough here ctl opened sends load =>
      obtain ⟨-, -, -, hhandle, -, -⟩ := WriteContext.sendInLoop_frame sends
      rw [sendAwaitResume_eq]
      exact hs.moved (by simp [here]) (by simp [here]) rfl rfl rfl rfl rfl hhandle
  | sendSuspend here ctl opened sends load =>
      obtain ⟨-, h0⟩ := hp.running_free (by simp [here, running])
      refine ⟨?_, fun _ _ _ => ⟨rfl, h0⟩, ?_, ?_⟩
      · intro hctl alive handle
        have := (hs.reader (by simpa [ctl] using hctl) alive handle).1
        exact absurd (here.symm.trans this) (by decide)
      · intro hctl
        obtain ⟨alive, handle, -⟩ := hs.readFrame (by simpa [ctl] using hctl)
        exact ⟨alive, handle, by simp [wrote, opened]⟩
      · intro hctl
        exact ⟨(hs.writeFrame (by simpa [ctl] using hctl)).1, rfl, by simp [wrote, opened]⟩
  | switchLoop here ctl =>
      exact hs.moved (by simp [here]) (by simp [here]) (by simp [ctl]) (by simp [ctl])
  | retLoop here ctl =>
      exact hs.moved (by simp [here]) (by simp [here]) (by simp [ctl]) (by simp [ctl])
  | recvLate here closed =>
      rw [recvAwaitResume_eq]
      exact hs.keep (by simp [awaits])
  | sendLateWorker here closed =>
      rw [sendAwaitResume_eq]
      exact hs.keep (by simp [awaits])
  | recvLeave here opened => exact hs.moved (by simp [here]) (by simp [here])
  | sendLeave here opened => exact hs.moved (by simp [here]) (by simp [here])
  | switchWorker here => exact hs.moved (by simp [here]) (by simp [here])
  | retWorker here => exact hs.moved (by simp [here]) (by simp [here])
  | read => exact hs.keep
  | enqueue here => exact hs.moved (by simp [here]) (by simp [here])
  | poolTake queued alive here => exact hs.moved (by simp [here]) (by simp [here])
  | serverDestroy entry =>
      exact hs.keep (by simp [awaits, queueDestroyed, QueuedFunctor.isAwait])
  | removeConnection => exact hs.keep
  | pressure => exact hs.keep

/-! ## Resumptions -/

/-- **The place of the coroutine, in every run.** -/
structure Located (s : Session) : Prop where
  born : s.Born
  placed : s.Placed
  handles : s.Handles

theorem Move.located (h : Move s a s') (hs : s.Located) : s'.Located where
  born := h.born hs.born
  placed := h.placed hs.born hs.handles hs.placed
  handles := h.handles hs.born hs.placed hs.handles

theorem located_create (inputHwm inputHwmChunk outputHwm maxSlices : ℕ) :
    (create inputHwm inputHwmChunk outputHwm maxSlices).Located where
  born := ⟨rfl, fun _ => ⟨rfl, rfl, rfl, rfl, rfl, rfl⟩⟩
  placed := ⟨by simp [create, start, Ctl.runsCo], by simp [create, start],
    by simp [create, start], Nat.zero_le 1⟩
  handles := Handles.quiet rfl rfl (fun _ => rfl) fun _ => rfl

/-- A step that resumes a live coroutine on the loop thread finds it in an awaiter. -/
theorem Located.uses (hs : s.Located) (h : Uses s a) (resumes : a ≠ .poolTake)
    (alive : s.task = true) : s.co = .inRecv ∨ s.co = .inSend := by
  cases h with
  | read idle out handle =>
      exact (hs.handles.waiting idle alive (.inl handle)).1.imp And.left And.left
  | write idle out handle =>
      exact (hs.handles.waiting idle alive (.inr handle)).1.imp And.left And.left
  | @await w fs idle head =>
      have hco := (hs.placed.head_free head).1
      exact (parked_cases w).imp hco.trans hco.trans
  | pool queued => exact absurd rfl resumes

theorem Move.no_astray_fault (h : Move s a s') (hs : s.Located)
    (hf : s.fault ≠ some .notSuspended) : s'.fault ≠ some .notSuspended := by
  rcases h.fault_cases with heq | ⟨f, fails, heq⟩
  · rwa [heq]
  · rw [heq]
    cases fails with
    | notSuspended uses resumes alive recv send =>
        rcases hs.uses uses resumes alive with hco | hco
        · exact absurd hco recv
        · exact absurd hco send
    | notPooled queued astray => exact absurd (hs.placed.pool queued) astray
    | _ => simp

end

/-- **Every resumption finds the coroutine suspended** where the holder of the handle left it,
unless the coroutine has been destroyed: in `RecvDataAwaiter` if the read context has the handle, in
`SendDataAwaiter` if the write context has it (but for the fatal branch that has used it), in the
awaiter that has queued the functor, and in `SwitchThreadAwaiter` if the pool has it. -/
theorem resume_finds_suspended {s : Session} {inputHwm inputHwmChunk outputHwm maxSlices : ℕ}
    (run : Reach step anyStep (create inputHwm inputHwmChunk outputHwm maxSlices) s) :
    s.fault ≠ some .notSuspended ∧ (s.task = true →
      (s.ctl.inReadFatal = false → s.read.readHandle = true → s.co = .inRecv) ∧
      (s.ctl.inWriteFatal = false → s.write.writeHandle = true → s.co = .inSend) ∧
      (∀ w, .await w ∈ s.functors → s.co = parked w) ∧
      (s.pool = true → s.co = .pooled)) := by
  have h := run.invariant (P := fun s => s.Located ∧ s.fault ≠ some .notSuspended)
    ⟨located_create _ _ _ _, by simp [create, start]⟩
    fun s a s' hs _ move =>
      ⟨(step_move move).located hs.1, (step_move move).no_astray_fault hs.1 hs.2⟩
  obtain ⟨hlocated, hfault⟩ := h
  refine ⟨hfault, fun alive => ⟨?_, ?_, hlocated.placed.await, hlocated.placed.pool⟩⟩
  · intro hctl handle
    exact (hlocated.handles.reader hctl alive handle).1
  · intro hctl handle
    exact (hlocated.handles.writer hctl alive handle).1

/-- The coroutine is resumed by a completion, on a pool thread and by the functor of its awaiter. -/
theorem resume_finds_suspended_thrice :
    ∃ s, Reach step anyStep (create 65536 16 65536 256) s ∧ s.co = .onLoop ∧ s.recvResult = 2 ∧
      s.fault ≠ some .notSuspended ∧ s.pool = false := by
  obtain ⟨s, run, h⟩ := exists_reach step anyStep (create 65536 16 65536 256)
    [.functor, .co .prepareToRead, .readCqe 1 [1] true, .co .switchThread, .poolTake,
      .co .prepareToRead, .readCqe 1 [2] true, .enqueue, .functor]
    (fun s => decide (s.co = .onLoop ∧ s.recvResult = 2 ∧ s.task = true)) (by decide +kernel)
  obtain ⟨hco, hresult, alive⟩ := of_decide_eq_true h
  obtain ⟨hfault, hplaces⟩ := resume_finds_suspended run
  refine ⟨s, run, hco, hresult, hfault, ?_⟩
  rw [Bool.eq_false_iff]
  intro hpool
  exact absurd (hco.symm.trans ((hplaces alive).2.2.2 hpool)) (by decide)

end Session

end Proactor
