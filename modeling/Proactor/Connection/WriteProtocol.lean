import Proactor.Connection.Moves

/-!
# The write request protocol

`is_sending_`, `holder_` and the outstanding write request of a connection agree in every run in
which the coroutine, when the fatal branch of a write completion resumes it, does not send before
the connection is closed (`write_request_protocol`).

The branch clears `is_sending_` before it resumes the coroutine and clears it again, together with
`holder_`, after the coroutine has suspended.  A `send` in between finds no request out and submits
one, which the end of the branch then disowns (`write_request_disowned`).
-/

namespace Proactor

open Transition

/-- The loop thread is inside the fatal branch of `WriteContext::on_completion`. -/
def Ctl.inWriteFatal (c : Ctl) : Bool := decide (c = .inCo .writeFatal ∨ c = .back .writeFatal)

namespace Session

@[simp] theorem leave_inWriteFatal (frame : Frame) :
    (leave frame).inWriteFatal = (Ctl.inCo frame).inWriteFatal := by
  cases frame <;> rfl

/-- At most one write request is outstanding, and `is_sending_` and `holder_` say whether. -/
def OneWrite (s : Session) : Prop :=
  s.writes ≤ 1 ∧ (s.write.isSending = true ↔ s.writes = 1) ∧
    (s.write.holder = true ↔ s.writes = 1)

instance (s : Session) : Decidable s.OneWrite := inferInstanceAs (Decidable (_ ∧ _ ∧ _))

/-- The coroutine, resumed by a fatal write completion of an open connection, sends. -/
def sendsInFatal (s : Session) : SessionAct → Bool
  | .co (.send _) => decide (s.ctl = .inCo .writeFatal) && !s.closing
  | _ => false

/-- No send from inside the fatal branch. -/
def QuietInFatal (s : Session) (a : SessionAct) : Prop := s.sendsInFatal a = false

instance (s : Session) (a : SessionAct) : Decidable (QuietInFatal s a) :=
  inferInstanceAs (Decidable (_ = _))

/-- **The invariant of the write side.** -/
structure WriteProtocol (s : Session) : Prop where
  writes_eq : s.writes = s.write.isSending.toNat
  holder_eq : s.write.holder = (s.write.isSending || s.ctl.inWriteFatal)
  fatal : s.ctl.inWriteFatal = true → s.write.isSending = false

section

variable {s s' : Session} {a : SessionAct}

theorem WriteProtocol.oneWrite (h : s.WriteProtocol) (hframe : s.ctl.inWriteFatal = false) :
    s.OneWrite := by
  have hwrites := h.writes_eq
  have hholder := h.holder_eq
  rw [hframe, Bool.or_false] at hholder
  cases hsend : s.write.isSending <;> simp [OneWrite, hwrites, hholder, hsend]

/-- A `sendInLoop` outside the fatal branch. -/
theorem WriteProtocol.wrote (hs : s.WriteProtocol) (hframe : s.ctl.inWriteFatal = false)
    {data : List UInt8} {w : WriteContext} {flushed : Bool}
    (sends : s.write.sendInLoop data = some (w, flushed)) : (s.wrote w flushed).WriteProtocol := by
  obtain ⟨hwrites, hholder, -⟩ := hs
  obtain ⟨hflush, hsend, hhold, -⟩ := WriteContext.sendInLoop_frame sends
  simp only [writes] at hwrites
  rw [hframe, Bool.or_false] at hholder
  refine ⟨?_, ?_, fun h => absurd (h.symm.trans hframe) (by decide)⟩
  · cases hs : s.write.isSending <;> cases hlow : s.sqeLow <;>
      simp_all [writes, Session.wrote]
  · simp [Session.wrote, hsend, hhold, hholder, hflush]

/-- A completion takes the only request. -/
theorem WriteProtocol.last (hs : s.WriteProtocol) (idle : s.ctl = .idle)
    (holder : s.write.holder = true) (out : 0 < s.kernelWrites) :
    s.kernelWrites - 1 = 0 ∧ s.waiting.count .write = 0 := by
  have hwrites := hs.writes_eq
  have hholder := hs.holder_eq
  rw [holder, idle] at hholder
  simp only [writes, Ctl.inWriteFatal] at hwrites hholder
  have hsend : s.write.isSending = true := by simpa using hholder.symm
  rw [hsend, Bool.toNat_true] at hwrites
  omega

/-- A step that does not touch the write side. -/
theorem WriteProtocol.keep {t : Session} (hs : s.WriteProtocol)
    (hwrites : t.writes = s.writes := by rfl)
    (hctl : t.ctl.inWriteFatal = s.ctl.inWriteFatal := by rfl)
    (hsend : t.write.isSending = s.write.isSending := by rfl)
    (hholder : t.write.holder = s.write.holder := by rfl) : t.WriteProtocol := by
  obtain ⟨h₁, h₂, h₃⟩ := hs
  constructor
  · rwa [hwrites, hsend]
  · rwa [hholder, hsend, hctl]
  · rwa [hctl, hsend]

/-- A resumption outside the fatal branch. -/
theorem WriteProtocol.woken {frame : Frame} (hs : s.WriteProtocol) (idle : s.ctl = .idle)
    (hframe : frame ≠ .writeFatal) : (s.woken frame).WriteProtocol :=
  hs.keep (by simp [writes]) (by simp [idle, Ctl.inWriteFatal, hframe]) (by simp) (by simp)

theorem WokeReader.writeProtocol {t : Session} (h : WokeReader s t) (hs : s.WriteProtocol)
    (idle : s.ctl = .idle) : t.WriteProtocol := by
  cases h with
  | asleep => exact hs
  | woken => exact WriteProtocol.woken hs.keep idle (by decide)

theorem WokeWriter.writeProtocol {t : Session} (h : WokeWriter s t) (hs : s.WriteProtocol)
    (idle : s.ctl = .idle) : t.WriteProtocol := by
  cases h with
  | asleep => exact hs
  | woken => exact WriteProtocol.woken hs.keep idle (by decide)

theorem Move.writeProtocol (h : Move s a s') (quiet : QuietInFatal s a) (hs : s.WriteProtocol) :
    s'.WriteProtocol := by
  have hnot : s.ctl = .idle → s.ctl.inWriteFatal = false := fun idle => by
    simp [idle, Ctl.inWriteFatal]
  cases h with
  | readMore idle out holder status woke => exact woke.writeProtocol hs.keep idle
  | readStopped idle out holder fatal status woke => exact woke.writeProtocol hs.keep idle
  | readAgain idle out holder fatal status woke =>
      rw [submitRead_eq] at woke
      exact woke.writeProtocol (hs.keep (by simp [writes, took])) idle
  | @readFatal res data idle out holder status fatal handle alive =>
      have ht : (s.took res data false).WriteProtocol := hs.keep
      exact ht.woken idle (by decide)
  | readClose => exact hs.keep
  | writeMore idle out holder fatal proceeds woke =>
      obtain ⟨hkernel, hcount⟩ := hs.last idle holder out
      obtain ⟨-, hsend, hhold, -, -, -⟩ := WriteContext.proceed_frame proceeds
      rw [s.write.acknowledge_holder, holder, Bool.true_and] at hhold
      refine woke.writeProtocol ⟨?_, ?_, ?_⟩ idle
      · rename_i flushed
        cases flushed <;> cases s.sqeLow <;> simp [writes, wrote, hsend, hkernel, hcount]
      · simp [wrote, hhold, hsend, idle, Ctl.inWriteFatal]
      · simp [wrote, idle, Ctl.inWriteFatal]
  | writeFatal idle out holder fatal handle alive =>
      obtain ⟨hkernel, hcount⟩ := hs.last idle holder out
      constructor <;> simp [Ctl.inWriteFatal, writes, holder, hkernel, hcount]
  | writeClose idle out holder fatal handle stopped =>
      obtain ⟨hkernel, hcount⟩ := hs.last idle holder out
      constructor <;> simp [Ctl.inWriteFatal, writes, shut, endWrite, idle, hkernel, hcount]
  | established idle head => exact hs.keep rfl (by simp [idle, Ctl.inWriteFatal])
  | recvRegister idle head alive empty =>
      rw [awaitRead_eq]
      exact hs.keep (by simp [writes])
  | recvResume idle head alive empty => exact WriteProtocol.woken hs.keep idle (by decide)
  | sendRegister idle head alive sends load => exact (hs.wrote (hnot idle) sends).keep
  | sendResume idle head alive sends load =>
      exact WriteProtocol.woken (hs.wrote (hnot idle) sends).keep idle (by decide)
  | drainRead idle head => exact hs.keep (by simp [writes, prepareRead, head])
  | drainWrite idle head =>
      refine hs.keep ?_
      simp [writes, prepareWrite, head]
      omega
  | unwindRead frame stopped =>
      exact hs.keep rfl (by simp [shut, endRead, frame, Ctl.inWriteFatal])
  | unwindWrite frame stopped =>
      -- the branch clears `holder_`; `is_sending_` has been false since its start
      have hsend := hs.fatal (by simp [frame, Ctl.inWriteFatal])
      have hnone : s.writes = 0 := by simpa [hsend] using hs.writes_eq
      exact ⟨hnone, rfl, fun _ => rfl⟩
  | recvReady here ctl =>
      rw [recvAwaitResume_eq]
      exact hs.keep
  | recvSuspend here ctl opened empty =>
      rw [awaitRead_eq]
      exact hs.keep (by simp [writes]) (by simp [ctl])
  | sendLate here ctl closed =>
      rw [sendAwaitResume_eq]
      exact hs.keep
  | sendThrough here ctl opened sends load =>
      have hframe : s.ctl.inWriteFatal = false := by
        simp_all [QuietInFatal, sendsInFatal, Ctl.inWriteFatal]
      rw [sendAwaitResume_eq]
      exact (hs.wrote hframe sends).keep
  | sendSuspend here ctl opened sends load =>
      have hframe : s.ctl.inWriteFatal = false := by
        simp_all [QuietInFatal, sendsInFatal, Ctl.inWriteFatal]
      exact (hs.wrote hframe sends).keep rfl (by simp [wrote, ctl])
  | switchLoop here ctl => exact hs.keep rfl (by simp [ctl])
  | retLoop here ctl => exact hs.keep rfl (by simp [ctl])
  | recvLate here closed =>
      rw [recvAwaitResume_eq]
      exact hs.keep
  | sendLateWorker here closed =>
      rw [sendAwaitResume_eq]
      exact hs.keep
  | _ => exact hs.keep

/-- A completion finds its request: `assert(holder_)` does not fail. -/
theorem Move.no_write_fault (h : Move s a s') (hs : s.WriteProtocol)
    (hf : s.fault ≠ some .writeHolder) : s'.fault ≠ some .writeHolder := by
  rcases h.fault_cases with heq | ⟨f, fails, heq⟩
  · rwa [heq]
  · have hwrites := hs.writes_eq
    have hholder := hs.holder_eq
    simp only [writes] at hwrites
    rw [heq]
    cases fails with
    | writeHolder out holder idle =>
        have hsend : s.write.isSending = false := by
          rw [holder, eq_comm, Bool.or_eq_false_iff] at hholder
          exact hholder.1
        rw [hsend, Bool.toNat_false] at hwrites
        omega
    | _ => simp

/-- While a request is out, only its completion changes the iovec array. -/
theorem Move.tempData_eq (h : Move s a s') (hsend : s.write.isSending = true)
    (ha : ∀ res, a ≠ .writeCqe res) : s'.write.tempData = s.write.tempData := by
  cases h with
  | readMore idle out holder status woke => cases woke <;> simp [took]
  | readStopped idle out holder fatal status woke => cases woke <;> simp [took, endRead]
  | readAgain idle out holder fatal status woke => cases woke <;> simp [took, submitRead_eq]
  | writeMore => exact absurd rfl (ha _)
  | writeFatal => exact absurd rfl (ha _)
  | writeClose => exact absurd rfl (ha _)
  | sendRegister idle head alive sends load =>
      exact (WriteContext.sendInLoop_frame sends).2.2.2.2.2 hsend
  | sendResume idle head alive sends load =>
      simpa [wrote] using (WriteContext.sendInLoop_frame sends).2.2.2.2.2 hsend
  | sendThrough here ctl opened sends load =>
      rw [sendAwaitResume_eq]
      exact (WriteContext.sendInLoop_frame sends).2.2.2.2.2 hsend
  | sendSuspend here ctl opened sends load =>
      exact (WriteContext.sendInLoop_frame sends).2.2.2.2.2 hsend
  | _ =>
      simp [took, shut, endRead, endWrite, awaitRead_eq, prepareRead, prepareWrite,
        recvAwaitResume_eq, sendAwaitResume_eq, queueDestroyed]

theorem reach_writeProtocol {inputHwm inputHwmChunk outputHwm maxSlices : ℕ}
    (run : Reach step QuietInFatal (create inputHwm inputHwmChunk outputHwm maxSlices) s) :
    s.WriteProtocol ∧ s.fault ≠ some .writeHolder :=
  run.invariant (P := fun s => s.WriteProtocol ∧ s.fault ≠ some .writeHolder)
    ⟨⟨rfl, rfl, fun _ => rfl⟩, by simp [create, start]⟩
    fun _ _ _ hs quiet move =>
      ⟨(step_move move).writeProtocol quiet hs.1, (step_move move).no_write_fault hs.1 hs.2⟩

end

/-- **The write request protocol.**  In every run in which no coroutine sends from inside the fatal
branch of a write completion while the connection is open: outside that branch, at most one write
request is outstanding and `is_sending_` and `holder_` say whether there is one; until it
completes no step changes `temp_data_`; and the assertion of `on_completion` holds for every
completion. -/
theorem write_request_protocol {s : Session} {inputHwm inputHwmChunk outputHwm maxSlices : ℕ}
    (run : Reach step QuietInFatal (create inputHwm inputHwmChunk outputHwm maxSlices) s) :
    (s.ctl.inWriteFatal = false → s.OneWrite) ∧
      (∀ a s', s.step a = some s' → s.writes = 1 → (∀ res, a ≠ .writeCqe res) →
        s'.write.tempData = s.write.tempData) ∧
      s.fault ≠ some .writeHolder := by
  obtain ⟨h, hf⟩ := reach_writeProtocol run
  refine ⟨h.oneWrite, ?_, hf⟩
  intro a s' move hone ha
  refine (step_move move).tempData_eq ?_ ha
  have hwrites := h.writes_eq
  rw [hone] at hwrites
  cases hsend : s.write.isSending with
  | true => rfl
  | false => simp [hsend] at hwrites

/-- The coroutine sends above the high water mark, its write fails, and it returns. -/
theorem write_request_protocol_failed :
    let run := exec (guarded step QuietInFatal) (create 65536 16 2 256)
      [.functor, .co (.send [1, 2, 3]), .writeCqe (-EPIPE), .co .ret, .unwind]
    run.map (fun s => (s.writes, s.write.isSending, s.write.holder, s.ctl))
        = some (0, false, false, .idle) ∧
      ∀ s ∈ run, s.ctl.inWriteFatal = false → s.OneWrite := by
  intro run
  exact ⟨by decide +kernel, fun s hs => (write_request_protocol (reach_of_exec hs)).1⟩

/-- A coroutine that ignores the failed `send` and sends again: its request is in the kernel while
`is_sending_` is false and `holder_` is null, and its completion fails the assertion. -/
theorem write_request_disowned :
    ¬ ∀ s, Reach step anyStep (create 65536 16 2 256) s →
      (s.ctl.inWriteFatal = false → s.OneWrite) ∧ s.fault ≠ some .writeHolder := by
  intro h
  obtain ⟨s, run, hbad⟩ := exists_reach step anyStep (create 65536 16 2 256)
    [.functor, .co (.send [1, 2, 3]), .writeCqe (-EPIPE), .co (.send [4]), .unwind]
    (fun s => !s.ctl.inWriteFatal && !decide s.OneWrite) (by decide +kernel)
  simp only [Bool.and_eq_true, Bool.not_eq_true', decide_eq_false_iff_not] at hbad
  exact hbad.2 ((h s run).1 hbad.1)

end Session

end Proactor
