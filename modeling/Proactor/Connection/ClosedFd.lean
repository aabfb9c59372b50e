import Proactor.Connection.Wakeup

/-!
# Requests on a closed descriptor

`handleClose` closes the socket, and the kernel may give its number to the next connection.  An SQE
that is prepared afterwards reads from, or writes to, whatever that number now stands for.  The two
awaiters look at `closing_` before they do anything on the loop thread.  Their functors, the two
`on_completion` functions and the queue of requests that wait for an SQE do not, and each of them
has a way to prepare one (`reissues`).  `no_request_after_close` says that these are all the ways
there are, and `request_after_close` that they are there.
-/

namespace Proactor

open Transition

/-- The payload takes the input buffer above one of its high water marks. -/
def ReadContext.fills (r : ReadContext) (data : List UInt8) : Bool :=
  ({ r with inputBuffer := r.inputBuffer ++ [data] } : ReadContext).overLoad

/-- When a request that has ended is due again. -/
theorem ReadContext.takeResult_status (r : ReadContext) (res : ℤ) (data : List UInt8) :
    (r.takeResult res data).2.1.status = .reading ↔
      r.status = .reading ∧ ¬ (0 < res ∧ r.fills data = true) := by
  by_cases hres : res ≤ 0
  · have hpos : ¬ 0 < res := by omega
    simp [takeResult, hres, handleError_eq r hres, hpos]
  · have hpos : 0 < res := by omega
    simp only [takeResult, if_neg hres, receive, fills, hpos, true_and, Bool.not_eq_true]
    split
    case isTrue h => simp [h.1]
    case isFalse h =>
      simp only [not_and_or, Bool.not_eq_true, not_not] at h
      rcases h with h | h
      · simp [h]
      · simp [h]

/-- A read or write request on a descriptor that is closed. -/
def Sqe.late (q : Sqe) : Bool := q.closed && decide (q.kind ≠ .cancel)

namespace Session

/-- The first functor in the queue prepares a request. -/
def functorSubmits (s : Session) : Bool :=
  match s.functors.head? with
  | some (.await .recv) => s.read.isEmpty && decide (s.read.status = .stoped)
  | some (.await (.send _)) => !s.write.isSending
  | _ => false

/-- The step prepares a read or write request although the connection is closing. -/
def reissues (s : Session) : SessionAct → Bool
  | .readCqe res data more =>
      s.closing && !s.sqeLow && !more && !decide (ReadContext.Fatal res) &&
        decide (s.read.status = .reading) && !(decide (0 < res) && s.read.fills data)
  | .writeCqe res =>
      s.closing && !s.sqeLow && !decide (WriteContext.Fatal res) &&
        decide (res.toNat < s.write.outputBuffer.totalLen)
  | .functor => s.closing && !s.sqeLow && s.functorSubmits
  | .drain => s.closing
  | _ => false

/-- The step keeps off the closed descriptor. -/
def KeepsOff (s : Session) (a : SessionAct) : Prop := s.reissues a = false

instance (s : Session) (a : SessionAct) : Decidable (KeepsOff s a) :=
  inferInstanceAs (Decidable (_ = _))

/-- No request has been prepared on the closed descriptor. -/
def NoLateRequest (s : Session) : Prop := ∀ q ∈ s.sqes, q.late = false

/-! ## What the operations prepare -/

def lateRequest (s : Session) : Bool := s.sqes.any Sqe.late

theorem noLateRequest_iff (s : Session) : s.NoLateRequest ↔ s.lateRequest = false := by
  simp [NoLateRequest, lateRequest]

section

variable {s s' : Session} {a : SessionAct}

theorem lateRequest_congr (h : s'.sqes = s.sqes) : s'.lateRequest = s.lateRequest := by
  rw [lateRequest, h, lateRequest]

theorem lateRequest_took (res : ℤ) (data : List UInt8) (more : Bool) :
    (s.took res data more).lateRequest = s.lateRequest := by
  cases h : (s.read.takeResult res data).2.2 <;> simp [lateRequest, took, h, Sqe.late]

theorem lateRequest_submitRead :
    s.submitRead.lateRequest = (s.lateRequest || (s.closing && !s.sqeLow)) := by
  rw [submitRead_eq]
  cases h : s.sqeLow <;> simp [lateRequest, Sqe.late]

theorem lateRequest_awaitRead :
    s.awaitRead.lateRequest
      = (s.lateRequest || (s.closing && !s.sqeLow && decide (s.read.status = .stoped))) := by
  rw [awaitRead_eq]
  by_cases h : s.read.status = .stoped <;> cases hlow : s.sqeLow <;>
    simp [lateRequest, Sqe.late, h]

theorem lateRequest_wrote (w : WriteContext) (flushed : Bool) :
    (s.wrote w flushed).lateRequest = (s.lateRequest || (s.closing && !s.sqeLow && flushed)) := by
  cases h : s.sqeLow <;> cases flushed <;> simp [lateRequest, wrote, Sqe.late, h]

theorem lateRequest_prepareRead :
    s.prepareRead.lateRequest = (s.lateRequest || s.closing) := by
  simp [lateRequest, prepareRead, Sqe.late]

theorem lateRequest_prepareWrite :
    s.prepareWrite.lateRequest = (s.lateRequest || s.closing) := by
  simp [lateRequest, prepareWrite, Sqe.late]

theorem WokeReader.lateRequest (h : WokeReader s s') : s'.lateRequest = s.lateRequest := by
  cases h with
  | asleep => rfl
  | woken => exact lateRequest_congr (by simp)

theorem WokeWriter.lateRequest (h : WokeWriter s s') : s'.lateRequest = s.lateRequest := by
  cases h with
  | asleep => rfl
  | woken => exact lateRequest_congr (by simp)

/-- A completion that is not fatal submits again when it leaves `status_` at `READING`. -/
theorem reissues_readCqe {res : ℤ} {data : List UInt8} (fatal : ¬ ReadContext.Fatal res) :
    s.reissues (.readCqe res data false)
      = (s.closing && !s.sqeLow && decide ((s.took res data false).read.status = .reading)) := by
  have hstatus : decide ((s.took res data false).read.status = .reading)
      = (decide (s.read.status = .reading) && !(decide (0 < res) && s.read.fills data)) := by
    simp [took, s.read.takeResult_status res data]
  rw [hstatus]
  simp [reissues, fatal, Bool.and_assoc]

/-- **A step prepares a late request exactly when it is one of those listed**, unless it ends in a
fault. -/
theorem Move.lateRequest (h : Move s a s') (hq : s.write.Queued) :
    s'.lateRequest = (s.lateRequest || s.reissues a) ∨
      s'.fault ≠ none ∧ s'.lateRequest = s.lateRequest := by
  -- the moves that prepare nothing and are not listed
  have hnone : s'.sqes = s.sqes → s.reissues a = false →
      s'.lateRequest = (s.lateRequest || s.reissues a) := by
    intro hsqes hfalse
    rw [lateRequest_congr hsqes, hfalse, Bool.or_false]
  cases h with
  | abort => exact .inr ⟨by simp, rfl⟩
  | readMore idle out holder status woke =>
      left
      rw [woke.lateRequest, lateRequest_took]
      simp [reissues]
  | @readStopped res data _ idle out holder fatal status woke =>
      left
      have hsqes : (s.took res data false).endRead.sqes = (s.took res data false).sqes := rfl
      rw [woke.lateRequest, lateRequest_congr hsqes, lateRequest_took, reissues_readCqe fatal]
      simp [status]
  | readAgain idle out holder fatal status woke =>
      left
      rw [woke.lateRequest, lateRequest_submitRead, lateRequest_took, reissues_readCqe fatal,
        status]
      simp [took]
  | readFatal idle out holder status fatal handle alive =>
      left
      rw [lateRequest_congr (woken_sqes _ _), lateRequest_took]
      simp [reissues, fatal]
  | @readClose res data idle out holder status fatal handle stopped =>
      left
      have hsqes : (s.took res data false).shut.endRead.sqes = (s.took res data false).sqes := rfl
      rw [lateRequest_congr hsqes, lateRequest_took]
      simp [reissues, fatal]
  | @writeMore res _ w flushed idle out holder fatal proceeds woke =>
      left
      obtain ⟨hflush, -⟩ := WriteContext.proceed_frame proceeds
      have hleft : 0 < (s.write.acknowledge res).outputBuffer.totalLen ↔
          res.toNat < s.write.outputBuffer.totalLen := by
        rw [hq.acknowledge_totalLen fatal]
        exact Nat.sub_pos_iff_lt
      rw [woke.lateRequest, lateRequest_wrote, hflush]
      simp [reissues, fatal, lateRequest, hleft]
  | writeFatal idle out holder fatal handle alive =>
      exact .inl (hnone (by simp) (by simp [reissues, fatal]))
  | writeClose idle out holder fatal handle stopped =>
      exact .inl (hnone rfl (by simp [reissues, fatal]))
  | established idle head => exact .inl (hnone rfl (by simp [reissues, functorSubmits, head]))
  | recvRegister idle head alive empty =>
      left
      rw [lateRequest_awaitRead]
      simp [reissues, functorSubmits, head, empty, lateRequest]
  | recvResume idle head alive empty =>
      exact .inl (hnone (by simp) (by simp [reissues, functorSubmits, head, empty]))
  | sendRegister idle head alive sends load =>
      left
      obtain ⟨hflush, -⟩ := WriteContext.sendInLoop_frame sends
      rw [lateRequest_wrote, hflush]
      simp [reissues, functorSubmits, head, lateRequest]
  | sendResume idle head alive sends load =>
      left
      obtain ⟨hflush, -⟩ := WriteContext.sendInLoop_frame sends
      rw [lateRequest_congr (woken_sqes _ _), lateRequest_wrote, hflush]
      simp [reissues, functorSubmits, head, lateRequest]
  | destroyed idle head stopped => exact .inl (hnone rfl (by simp [reissues, functorSubmits, head]))
  | drainRead => exact .inl lateRequest_prepareRead
  | drainWrite => exact .inl lateRequest_prepareWrite
  | recvReady here ctl => exact .inl (hnone (by simp [recvAwaitResume_eq]) rfl)
  | recvSuspend here ctl opened empty =>
      have h := @lateRequest_awaitRead s
      rw [opened, Bool.false_and, Bool.false_and] at h
      exact .inl h
  | @sendThrough _ _ w flushed here ctl opened sends load =>
      have h := @lateRequest_wrote s w flushed
      rw [opened, Bool.false_and, Bool.false_and] at h
      rw [sendAwaitResume_eq]
      exact .inl h
  | @sendSuspend _ _ w flushed here ctl opened sends load =>
      have h := @lateRequest_wrote s { w with writeHandle := true } flushed
      rw [opened, Bool.false_and, Bool.false_and] at h
      exact .inl h
  | sendLate here ctl closed => exact .inl (hnone (by simp [sendAwaitResume_eq]) rfl)
  | recvLate here closed => exact .inl (hnone (by simp [recvAwaitResume_eq]) rfl)
  | sendLateWorker here closed => exact .inl (hnone (by simp [sendAwaitResume_eq]) rfl)
  | _ => exact .inl (hnone rfl rfl)

theorem reach_noLateRequest {inputHwm inputHwmChunk outputHwm maxSlices : ℕ}
    (run : Reach step KeepsOff (create inputHwm inputHwmChunk outputHwm maxSlices) s) :
    s.Awaited ∧ s.NoLateRequest := by
  refine run.invariant (P := fun s => s.Awaited ∧ s.NoLateRequest)
    ⟨awaited_create _ _ _ _, by simp [NoLateRequest, create, start]⟩ ?_
  rintro s a s' ⟨hs, hnone⟩ keepsOff move
  refine ⟨(step_move move).awaited hs, ?_⟩
  rw [noLateRequest_iff] at hnone ⊢
  rcases (step_move move).lateRequest hs.writer.queued with h | ⟨-, h⟩
  · rw [h, hnone, keepsOff, Bool.or_false]
  · rw [h, hnone]

end

/-- **No request on a closed descriptor**, in every run whose steps keep off it; and in every state
of such a run, the steps that keep off are exactly those that prepare no such request. -/
theorem no_request_after_close {s : Session} {inputHwm inputHwmChunk outputHwm maxSlices : ℕ}
    (run : Reach step KeepsOff (create inputHwm inputHwmChunk outputHwm maxSlices) s) :
    s.NoLateRequest ∧
      ∀ a s', s.step a = some s' → s'.fault = none → (s'.NoLateRequest ↔ KeepsOff s a) := by
  obtain ⟨hs, hnone⟩ := reach_noLateRequest run
  refine ⟨hnone, ?_⟩
  intro a s' move hfault
  rw [noLateRequest_iff] at hnone ⊢
  rcases (step_move move).lateRequest hs.writer.queued with h | ⟨h, -⟩
  · rw [h, hnone, Bool.false_or, KeepsOff]
  · exact absurd hfault h

/-- The peer disconnects while a write is out, and the write completes in full. -/
theorem no_request_after_close_written :
    ∃ s, Reach step KeepsOff (create 65536 16 65536 256) s ∧ s.closing = true ∧
      s.sqes.length = 2 ∧ s.NoLateRequest := by
  obtain ⟨s, run, h⟩ := exists_reach step KeepsOff (create 65536 16 65536 256)
    [.functor, .co .prepareToRead, .readCqe 1 [1] true, .co (.send [2]), .co .ret,
      .readCqe 0 [] false, .writeCqe 1]
    (fun s => decide (s.closing = true ∧ s.sqes.length = 2)) (by decide +kernel)
  obtain ⟨closed, hlen⟩ := of_decide_eq_true h
  exact ⟨s, run, closed, hlen, (no_request_after_close run).1⟩

/-- A coroutine on a pool thread finds the connection open and starts to wait for data; the peer
disconnects before its functor runs, and the functor submits a receive. -/
theorem request_after_close :
    ¬ ∀ s, Reach step anyStep (create 65536 16 65536 256) s → s.NoLateRequest := by
  intro h
  obtain ⟨s, run, hbad⟩ := exists_reach step anyStep (create 65536 16 65536 256)
    [.functor, .co .prepareToRead, .readCqe 1 [1] true, .co (.read 1), .co .switchThread,
      .poolTake, .co .prepareToRead, .readCqe 0 [] false, .enqueue, .functor]
    (fun s => s.lateRequest) (by decide +kernel)
  have := (noLateRequest_iff s).mp (h s run)
  exact absurd (hbad.symm.trans this) (by decide)

end Session

end Proactor
