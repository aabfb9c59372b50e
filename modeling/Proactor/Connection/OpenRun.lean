import Proactor.Connection.Placement
import Proactor.Output.WriteRun

/-!
# A connection before its first fatal completion

As long as no completion is fatal and nobody calls `Destroyed`, a connection whose coroutine stays
on the loop thread is never closed: no assertion fails, the coroutine is alive whenever it is
resumed and the batch in the kernel is the front of the output queue (`Tame`).

The second half says what each step does to the bytes in the two buffers: `unread`, to which a read
completion appends and from which `read` takes, and `unsent`, to which `send` appends and from which
a write completion takes.
-/

namespace Proactor

open Transition

namespace Session

/-- The steps of a loop with an open connection and a coroutine that does not leave it. -/
def Harmless : SessionAct → Prop
  | .readCqe res _ _ => ¬ ReadContext.Fatal res
  | .writeCqe res => 0 ≤ res
  | .functor | .drain | .unwind | .pressure _ => True
  | .co .switchThread => False
  | .co _ => True
  | _ => False

/-- Nothing has been closed and nothing is going to be. -/
structure Unclosed (s : Session) : Prop where
  opened : s.closing = false
  alive : s.co ≠ .unborn → s.task = true
  functors : ∀ f ∈ s.functors, f = .established
  frame : s.ctl = .idle ∨ s.ctl = .inCo .tail
  inLoop : s.co ≠ .onWorker

/-- **What holds of a session while its completions are harmless.** -/
structure Tame (s : Session) : Prop where
  located : s.Located
  reading : s.ReadProtocol
  writing : s.WriteProtocol
  unclosed : s.Unclosed
  slices : s.write.maxSlices = 256
  front : s.write.Front
  sound : s.fault = none

section

variable {s s' : Session} {a : SessionAct}

theorem Unclosed.keep {t : Session} (hs : s.Unclosed) (hclosing : t.closing = s.closing := by rfl)
    (htask : t.task = s.task := by rfl) (hco : t.co = s.co := by rfl)
    (hctl : t.ctl = s.ctl := by rfl) (hfunctors : t.functors = s.functors := by rfl) :
    t.Unclosed where
  opened := hclosing.trans hs.opened
  alive h := htask.trans (hs.alive (hco ▸ h))
  functors := hfunctors ▸ hs.functors
  frame := hctl ▸ hs.frame
  inLoop := hco ▸ hs.inLoop

/-- The coroutine moves on the loop thread. -/
theorem Unclosed.moved {t : Session} (hs : s.Unclosed) (alive : s.task = true)
    (hco : t.co ≠ .onWorker) (hctl : t.ctl = .idle ∨ t.ctl = .inCo .tail)
    (hclosing : t.closing = s.closing := by rfl) (htask : t.task = s.task := by rfl)
    (hfunctors : t.functors = s.functors := by rfl) : t.Unclosed where
  opened := hclosing.trans hs.opened
  alive _ := htask.trans alive
  functors := hfunctors ▸ hs.functors
  frame := hctl
  inLoop := hco

theorem Unclosed.woken (hs : s.Unclosed) (alive : s.task = true) : (s.woken .tail).Unclosed :=
  hs.moved alive (by simp) (by simp) (by simp) (by simp) (by simp [hs.opened, notice])

theorem WokeReader.unclosed (h : WokeReader s s') (hs : s.Unclosed) : s'.Unclosed := by
  cases h with
  | asleep => exact hs
  | woken handle alive => exact Unclosed.woken hs.keep alive

theorem WokeWriter.unclosed (h : WokeWriter s s') (hs : s.Unclosed) : s'.Unclosed := by
  cases h with
  | asleep => exact hs
  | woken handle drained alive => exact Unclosed.woken hs.keep alive

theorem Unclosed.tail (hs : s.Unclosed) {frame : Frame} (ctl : s.ctl = .inCo frame) :
    leave frame = .idle := by
  rcases hs.frame with h | h
  · exact absurd (ctl.symm.trans h) (by simp)
  · obtain rfl : frame = .tail := by simpa using ctl.symm.trans h
    rfl

theorem Unclosed.head (hs : s.Unclosed) {f : QueuedFunctor} {fs : List QueuedFunctor}
    (head : s.functors = f :: fs) : f = .established :=
  hs.functors f (head ▸ List.mem_cons_self)

theorem Unclosed.quiet (hs : s.Unclosed) (a : SessionAct) : QuietInFatal s a := by
  unfold QuietInFatal sendsInFatal
  split
  · rcases hs.frame with h | h <;> simp [h]
  · rfl

theorem Move.unclosed (h : Move s a s') (ok : Harmless a) (hs : s.Unclosed) : s'.Unclosed := by
  have hframe : ∀ g, s.ctl ≠ .back g := fun g hg => by
    rcases hs.frame with h | h <;> simp [hg] at h
  have hrun : s.co = .onLoop → s.task = true := fun here => hs.alive (by simp [here])
  cases h with
  | abort => exact hs.keep
  | readMore idle out holder status woke => exact woke.unclosed hs.keep
  | readStopped idle out holder fatal status woke => exact woke.unclosed hs.keep
  | readAgain idle out holder fatal status woke =>
      rw [submitRead_eq] at woke
      exact woke.unclosed hs.keep
  | readFatal _ _ _ _ fatal => exact absurd fatal ok
  | readClose _ _ _ _ fatal => exact absurd fatal ok
  | writeMore idle out holder fatal proceeds woke => exact woke.unclosed hs.keep
  | writeFatal _ _ _ fatal => exact absurd fatal.1 (Int.not_lt.mpr ok)
  | writeClose _ _ _ fatal => exact absurd fatal.1 (Int.not_lt.mpr ok)
  | established idle head =>
      exact ⟨hs.opened, fun _ => rfl, fun f hf => hs.functors f (head ▸ List.mem_cons_of_mem _ hf),
        .inr rfl, by simp⟩
  | recvRegister idle head => exact absurd (hs.head head) (by simp)
  | recvResume idle head => exact absurd (hs.head head) (by simp)
  | sendRegister idle head => exact absurd (hs.head head) (by simp)
  | sendResume idle head => exact absurd (hs.head head) (by simp)
  | destroyed idle head => exact absurd (hs.head head) (by simp)
  | drainRead => exact hs.keep
  | drainWrite => exact hs.keep
  | unwindRead frame => exact absurd frame (hframe _)
  | unwindWrite frame => exact absurd frame (hframe _)
  | recvReady here ctl =>
      rw [recvAwaitResume_eq]
      exact hs.keep rfl rfl rfl rfl (by simp [hs.opened, notice])
  | recvSuspend here ctl opened empty =>
      rw [awaitRead_eq]
      exact hs.moved (hrun here) (by simp) (.inl (hs.tail ctl))
  | sendLate here ctl closed => exact absurd (closed.symm.trans hs.opened) (by decide)
  | sendThrough here ctl opened sends load =>
      rw [sendAwaitResume_eq]
      exact hs.keep rfl rfl rfl rfl (by simp [wrote, hs.opened, notice])
  | sendSuspend here ctl opened sends load =>
      exact hs.moved (hrun here) (by simp) (.inl (hs.tail ctl))
  | switchLoop => exact absurd ok id
  | retLoop here ctl => exact hs.moved (hrun here) (by simp) (.inl (hs.tail ctl))
  | recvLate here => exact absurd here hs.inLoop
  | sendLateWorker here => exact absurd here hs.inLoop
  | recvLeave here => exact absurd here hs.inLoop
  | sendLeave here => exact absurd here hs.inLoop
  | switchWorker here => exact absurd here hs.inLoop
  | retWorker here => exact absurd here hs.inLoop
  | read => exact hs.keep
  | pressure => exact hs.keep
  | enqueue => exact absurd ok id
  | poolTake => exact absurd ok id
  | serverDestroy => exact absurd ok id
  | removeConnection => exact absurd ok id

/-- A handle in a context, or an awaiter's functor, belongs to a coroutine that is there. -/
theorem Tame.uses (hs : s.Tame) (ok : Harmless a) (h : Uses s a) : s.task = true := by
  refine hs.unclosed.alive fun hco => ?_
  obtain ⟨-, -, hreader, hwriter, -⟩ := hs.located.born.quiet hco
  cases h with
  | read idle out handle => exact absurd (handle.symm.trans hreader) (by decide)
  | write idle out handle => exact absurd (handle.symm.trans hwriter) (by decide)
  | await idle head => exact absurd (hs.unclosed.head head) (by simp)
  | pool => exact ok

theorem Tame.closes (hs : s.Tame) (ok : Harmless a) (h : Closes s a) : False := by
  cases h with
  | read idle out fatal => exact ok fatal
  | write idle out fatal => exact absurd fatal.1 (Int.not_lt.mpr ok)
  | destroyed idle head => exact absurd (hs.unclosed.head head) (by simp)
  | unwindRead frame => rcases hs.unclosed.frame with h | h <;> simp [frame] at h
  | unwindWrite frame => rcases hs.unclosed.frame with h | h <;> simp [frame] at h

/-- The queue always has a batch when one is asked for. -/
theorem Tame.starves (hs : s.Tame) (ok : Harmless a) (h : Starves s a) : False := by
  have hmax : 1 ≤ s.write.maxSlices := by simp [hs.slices]
  cases h with
  | complete empty =>
      obtain ⟨w, flushed, hw, -⟩ := hs.front.complete hmax ok
      exact absurd (empty.symm.trans hw) (by simp)
  | await head empty => exact absurd (hs.unclosed.head head) (by simp)
  | @send data empty =>
      obtain ⟨w, hw, -⟩ := hs.front.sendInLoop hmax data
      exact absurd (empty.symm.trans hw) (by simp)

/-- **No assertion fails and the coroutine is used as it should be.** -/
theorem Tame.no_fault (hs : s.Tame) {f : Fault} (h : Fails s a f) (ok : Harmless a) : False := by
  have hmove : Move s a { s with fault := some f } := .abort h
  have hsound : ∀ g, s.fault ≠ some g := by simp [hs.sound]
  cases h with
  | readHolder => exact (hmove.no_read_fault hs.reading ⟨hsound _, hsound _⟩).1 rfl
  | readStatus => exact (hmove.no_read_fault hs.reading ⟨hsound _, hsound _⟩).2 rfl
  | writeHolder => exact hmove.no_write_fault hs.writing (hsound _) rfl
  | emptyBatch starves => exact hs.starves ok starves
  | notSuspended => exact hmove.no_astray_fault hs.located (hsound _) rfl
  | notPooled => exact hmove.no_astray_fault hs.located (hsound _) rfl
  | destroyRunning closes => exact hs.closes ok closes
  | destroyedFrame uses gone => exact absurd (gone.symm.trans (hs.uses ok uses)) (by decide)
  | readRace away => exact hs.unclosed.inLoop away

/-! ## The bytes in the two buffers -/

/-- What the output buffer still has to send. -/
def unsent (s : Session) : List UInt8 := s.write.outputBuffer.unsent

/-- What the input buffer still has to give. -/
def unread (s : Session) : List UInt8 := s.read.inputBuffer.flatten

/-- The write side as a step leaves it: the queue with its batch, and the unsent bytes. -/
structure Sends (s s' : Session) (unsent : List UInt8) : Prop where
  front : s'.write.Front
  slices : s'.write.maxSlices = s.write.maxSlices
  bytes : s'.unsent = unsent

theorem Sends.of_write (hs : s.Tame) (h : s'.write = s.write) : Sends s s' s.unsent :=
  ⟨h ▸ hs.front, by rw [h], by rw [unsent, h, unsent]⟩

/-- A result of the kernel that carries no payload. -/
theorem took_unread {res : ℤ} {data : List UInt8} {more : Bool} (hlen : data.length = res.toNat) :
    (s.took res data more).unread = s.unread ++ data := by
  by_cases hres : res ≤ 0
  · have hdata : data = [] := List.length_eq_zero_iff.mp (hlen.trans (Int.toNat_of_nonpos hres))
    simp [unread, took, ReadContext.takeResult, hres, ReadContext.handleError_eq _ hres, hdata]
  · simp only [unread, took, ReadContext.takeResult, if_neg hres, ReadContext.receive]
    split <;> simp

theorem WokeReader.buffers (h : WokeReader s s') :
    s'.write = s.write ∧ s'.unread = s.unread := by
  cases h with
  | asleep => exact ⟨rfl, rfl⟩
  | woken => simp [unread]

/-- A read completion appends its payload to the unread bytes. -/
theorem Move.readCqe_flow {res : ℤ} {data : List UInt8} {more : Bool}
    (h : Move s (.readCqe res data more) s') (hlen : data.length = res.toNat)
    (ok : Harmless (.readCqe res data more)) (hs : s.Tame) :
    s'.write = s.write ∧ s'.unread = s.unread ++ data := by
  have htook : (s.took res data more).unread = s.unread ++ data := took_unread hlen
  cases h with
  | abort fails => exact (hs.no_fault fails ok).elim
  | readMore idle out holder status woke =>
      obtain ⟨hwrite, hunread⟩ := woke.buffers
      exact ⟨hwrite, hunread.trans htook⟩
  | readStopped idle out holder fatal status woke =>
      obtain ⟨hwrite, hunread⟩ := woke.buffers
      exact ⟨hwrite, hunread.trans htook⟩
  | readAgain idle out holder fatal status woke =>
      rw [submitRead_eq] at woke
      obtain ⟨hwrite, hunread⟩ := woke.buffers
      exact ⟨hwrite, hunread.trans htook⟩
  | readFatal _ _ _ _ fatal => exact absurd fatal ok
  | readClose _ _ _ _ fatal => exact absurd fatal ok

theorem WokeWriter.buffers (h : WokeWriter s s') :
    s'.read = s.read ∧ s'.write = { s.write with writeHandle := s'.write.writeHandle } := by
  cases h with
  | asleep => exact ⟨rfl, rfl⟩
  | woken => simp

/-- A write completion takes the acknowledged bytes off the front of the unsent ones. -/
theorem Move.writeCqe_flow {res : ℤ} (h : Move s (.writeCqe res) s')
    (ok : Harmless (.writeCqe res)) (hs : s.Tame) :
    Sends s s' (s.unsent.drop res.toNat) ∧ s'.unread = s.unread := by
  cases h with
  | abort fails => exact (hs.no_fault fails ok).elim
  | writeMore idle out holder fatal proceeds woke =>
      obtain ⟨w, flushed, hw, hfront, -, hslices, hfragments, -⟩ :=
        hs.front.complete (by simp [hs.slices]) ok
      obtain ⟨rfl, rfl⟩ : _ = w ∧ _ = flushed := by simpa using proceeds.symm.trans hw
      obtain ⟨hread, hwrite⟩ := woke.buffers
      refine ⟨⟨?_, ?_, ?_⟩, ?_⟩
      · rw [hwrite]
        exact hfront
      · rw [hwrite]
        exact hslices
      · rw [unsent, hwrite]
        exact SendQueue.unsent_of_skip hfragments
      · rw [unread, hread]
        rfl
  | writeFatal _ _ _ fatal => exact absurd fatal.1 (Int.not_lt.mpr ok)
  | writeClose _ _ _ fatal => exact absurd fatal.1 (Int.not_lt.mpr ok)

/-- The loop's own steps touch neither buffer. -/
theorem Move.loop_flow (h : Move s a s') (ok : Harmless a) (hs : s.Tame)
    (ha : a = .functor ∨ a = .drain ∨ a = .unwind ∨ ∃ low, a = .pressure low) :
    s'.write = s.write ∧ s'.unread = s.unread := by
  cases h with
  | abort fails => exact (hs.no_fault fails ok).elim
  | established => exact ⟨rfl, rfl⟩
  | recvRegister idle head => exact absurd (hs.unclosed.head head) (by simp)
  | recvResume idle head => exact absurd (hs.unclosed.head head) (by simp)
  | sendRegister idle head => exact absurd (hs.unclosed.head head) (by simp)
  | sendResume idle head => exact absurd (hs.unclosed.head head) (by simp)
  | destroyed idle head => exact absurd (hs.unclosed.head head) (by simp)
  | drainRead => exact ⟨rfl, rfl⟩
  | drainWrite => exact ⟨rfl, rfl⟩
  | unwindRead frame => exact (hs.closes ok (.unwindRead frame)).elim
  | unwindWrite frame => exact (hs.closes ok (.unwindWrite frame)).elim
  | pressure => exact ⟨rfl, rfl⟩
  | _ => simp at ha

theorem Move.prepareToRead_flow (h : Move s (.co .prepareToRead) s') (hs : s.Tame) :
    (s'.write = s.write ∧ s'.unread = s.unread) ∧ (s'.co = .onLoop ∨ s'.co = .inRecv) := by
  cases h with
  | abort fails => exact (hs.no_fault fails trivial).elim
  | recvReady here ctl =>
      rw [recvAwaitResume_eq]
      exact ⟨⟨rfl, rfl⟩, .inl here⟩
  | recvSuspend here ctl opened empty =>
      rw [awaitRead_eq]
      exact ⟨⟨rfl, rfl⟩, .inr rfl⟩
  | recvLate here => exact absurd here hs.unclosed.inLoop
  | recvLeave here => exact absurd here hs.unclosed.inLoop

/-- `send` appends to the unsent bytes. -/
theorem Move.send_flow {data : List UInt8} (h : Move s (.co (.send data)) s') (hs : s.Tame) :
    Sends s s' (s.unsent ++ data) ∧ s'.unread = s.unread ∧
      (s'.co = .onLoop ∨ s'.co = .inSend) := by
  obtain ⟨w, hw, hfront, -, hfragments, hslices, -⟩ :=
    hs.front.sendInLoop (by simp [hs.slices]) data
  have hbytes := SendQueue.unsent_of_append hfragments
  cases h with
  | abort fails => exact (hs.no_fault fails trivial).elim
  | sendLate here ctl closed => exact absurd (closed.symm.trans hs.unclosed.opened) (by decide)
  | sendThrough here ctl opened sends load =>
      obtain ⟨rfl, rfl⟩ : _ = w ∧ _ := by simpa using sends.symm.trans hw
      rw [sendAwaitResume_eq]
      exact ⟨⟨hfront, hslices, hbytes⟩, rfl, .inl here⟩
  | sendSuspend here ctl opened sends load =>
      obtain ⟨rfl, rfl⟩ : _ = w ∧ _ := by simpa using sends.symm.trans hw
      exact ⟨⟨hfront, hslices, hbytes⟩, rfl, .inr rfl⟩
  | sendLateWorker here => exact absurd here hs.unclosed.inLoop
  | sendLeave here => exact absurd here hs.unclosed.inLoop

/-- `read` takes its bytes off the front of the unread ones. -/
theorem Move.read_flow {size : ℕ} (h : Move s (.co (.read size)) s') (hs : s.Tame) :
    s'.write = s.write ∧ (s.read.removeAsString size).1 ++ s'.unread = s.unread ∧ s'.co = s.co := by
  cases h with
  | abort fails => exact (hs.no_fault fails trivial).elim
  | read =>
      refine ⟨rfl, ?_, rfl⟩
      simp only [unread, ReadContext.removeAsString]
      rw [Chunked.flatten_dropFlat, List.take_append_drop]

theorem Move.ret_flow (h : Move s (.co .ret) s') (hs : s.Tame) :
    (s'.write = s.write ∧ s'.unread = s.unread) ∧ s'.co = .final := by
  cases h with
  | abort fails => exact (hs.no_fault fails trivial).elim
  | retLoop => exact ⟨⟨rfl, rfl⟩, rfl⟩
  | retWorker here => exact absurd here hs.unclosed.inLoop

theorem WokeReader.co_cases (h : WokeReader s s') :
    s'.co = s.co ∨ s'.co = .onLoop ∧ s.task = true ∧ s.read.readHandle = true := by
  cases h with
  | asleep => exact .inl rfl
  | woken handle alive => exact .inr ⟨by simp, alive, handle⟩

theorem WokeWriter.co_cases (h : WokeWriter s s') :
    s'.co = s.co ∨ s'.co = .onLoop ∧ s.task = true ∧ s.write.writeHandle = true := by
  cases h with
  | asleep => exact .inl rfl
  | woken handle drained alive => exact .inr ⟨by simp, alive, handle⟩

/-- The coroutine has not been started or waits in one of its awaiters. -/
def asleep : CoPos → Bool
  | .unborn | .inRecv | .inSend => true
  | _ => false

/-- A step of the loop leaves the coroutine where it is, or makes it go on. -/
theorem Move.loop_co (h : Move s a s') (ok : Harmless a) (hs : s.Tame) (ha : ∀ act, a ≠ .co act) :
    s'.co = s.co ∨ s'.co = .onLoop ∧ asleep s.co = true := by
  have hreader : ∀ {t : Session}, s.ctl = .idle → WokeReader t s' → t.co = s.co → t.task = s.task →
      t.read.readHandle = s.read.readHandle →
      s'.co = s.co ∨ s'.co = .onLoop ∧ asleep s.co = true := by
    intro t idle woke hco htask hhandle
    rcases woke.co_cases with h | ⟨h, alive, handle⟩
    · exact .inl (h.trans hco)
    · have := hs.located.handles.reader (by simp [idle, Ctl.inReadFatal]) (htask ▸ alive)
        (hhandle ▸ handle)
      exact .inr ⟨h, by rw [this.1]; rfl⟩
  cases h with
  | abort => exact .inl rfl
  | readMore idle out holder status woke =>
      exact hreader idle woke rfl rfl (s.took_frame _ _ _).2.1
  | readStopped idle out holder fatal status woke =>
      exact hreader idle woke rfl rfl (s.took_frame _ _ _).2.1
  | readAgain idle out holder fatal status woke =>
      rw [submitRead_eq] at woke
      exact hreader idle woke rfl rfl (s.took_frame _ _ _).2.1
  | writeMore idle out holder fatal proceeds woke =>
      obtain ⟨-, -, -, hhandle, -, -⟩ := WriteContext.proceed_frame proceeds
      rw [s.write.acknowledge_writeHandle] at hhandle
      rcases woke.co_cases with h | ⟨h, alive, handle⟩
      · exact .inl h
      · have := hs.located.handles.writer (by simp [idle, Ctl.inWriteFatal]) alive
          (hhandle.symm.trans handle)
        exact .inr ⟨h, by rw [this.1]; rfl⟩
  | established idle head => exact .inr ⟨rfl, by rw [hs.located.born.unborn head]; rfl⟩
  | recvRegister idle head => exact absurd (hs.unclosed.head head) (by simp)
  | recvResume idle head => exact absurd (hs.unclosed.head head) (by simp)
  | sendRegister idle head => exact absurd (hs.unclosed.head head) (by simp)
  | sendResume idle head => exact absurd (hs.unclosed.head head) (by simp)
  | destroyed idle head => exact absurd (hs.unclosed.head head) (by simp)
  | readFatal _ _ _ _ fatal => exact absurd fatal ok
  | readClose _ _ _ _ fatal => exact absurd fatal ok
  | writeFatal _ _ _ fatal => exact absurd fatal.1 (Int.not_lt.mpr ok)
  | writeClose _ _ _ fatal => exact absurd fatal.1 (Int.not_lt.mpr ok)
  | unwindRead => exact .inl rfl
  | unwindWrite => exact .inl rfl
  | drainRead => exact .inl rfl
  | drainWrite => exact .inl rfl
  | pressure => exact .inl rfl
  | enqueue => exact absurd ok id
  | poolTake => exact absurd ok id
  | serverDestroy => exact absurd ok id
  | removeConnection => exact absurd ok id
  | _ => exact absurd rfl (ha _)

/-- The fields of `Tame` that every step keeps, given what it does to the write side. -/
theorem Move.tame {bytes : List UInt8} (h : Move s a s') (ok : Harmless a) (hs : s.Tame)
    (sends : Sends s s' bytes) : s'.Tame where
  located := h.located hs.located
  reading := h.readProtocol hs.reading
  writing := h.writeProtocol (hs.unclosed.quiet a) hs.writing
  unclosed := h.unclosed ok hs.unclosed
  slices := sends.slices.trans hs.slices
  front := sends.front
  sound := by
    rcases h.fault_cases with heq | ⟨f, fails, -⟩
    · rw [heq, hs.sound]
    · exact (hs.no_fault fails ok).elim

/-- The batch in the kernel is the front of the unsent bytes. -/
theorem Tame.batch_front (hs : s.Tame) (out : 0 < s.kernelWrites) {n : ℕ} (hn : n ≤ s.batchLen) :
    s.write.batch.take n = s.unsent.take n := by
  have hsend : s.write.isSending = true := by
    have hwrites := hs.writing.writes_eq
    rw [writes] at hwrites
    cases h : s.write.isSending with
    | true => rfl
    | false =>
        rw [h, Bool.toNat_false] at hwrites
        omega
  obtain ⟨l, k, hrep, hbatch, -⟩ := hs.front
  have hload := hrep.load_iovecs fun p (hp : p ∈ l.take k) => List.mem_of_mem_take hp
  have hlen : s.write.batch.length = s.batchLen := by
    rw [WriteContext.batch, batchLen, hbatch hsend, hload, List.length_flatten, List.map_map,
      List.map_map]
    congr 1
    exact List.map_congr_left fun p hp => hrep.rest_length (List.mem_of_mem_take hp)
  obtain ⟨rest, hrest⟩ := WriteContext.batch_prefix hrep (hbatch hsend)
  rw [unsent, ← hrest, List.take_append_of_le_length (hlen ▸ hn)]

theorem tame_create (inputHwm inputHwmChunk outputHwm : ℕ) :
    (create inputHwm inputHwmChunk outputHwm 256).Tame where
  located := located_create _ _ _ _
  reading := ⟨rfl, rfl⟩
  writing := ⟨rfl, rfl, fun _ => rfl⟩
  unclosed := ⟨rfl, fun h => absurd rfl h, by simp [create, start], .inl rfl,
    by simp [create, start]⟩
  slices := rfl
  front := ⟨[], 0, SendQueue.rep_empty, by simp [create, start, WriteContext.create], fun _ => rfl⟩
  sound := rfl

end

end Session

end Proactor
