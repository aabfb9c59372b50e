import Proactor.Connection.Moves

/-!
# The read request protocol

At most one multishot receive of a connection is outstanding, and `status_` and `holder_` say
whether there is one.  The only moment at which they disagree is inside the fatal branch of
`ReadContext::on_completion`, between the last completion and the end of the branch: there
`status_` still says that a request is out, which is what keeps the coroutine, if that branch
resumes it, from submitting another one.
-/

namespace Proactor

open Transition

/-- A request has been submitted and has not ended. -/
def ReadContext.active (r : ReadContext) : Bool := decide (r.status ≠ .stoped)

/-- The loop thread is inside the fatal branch of `ReadContext::on_completion`. -/
def Ctl.inReadFatal (c : Ctl) : Bool := decide (c = .inCo .readFatal ∨ c = .back .readFatal)

namespace Session

@[simp] theorem leave_inReadFatal (frame : Frame) :
    (leave frame).inReadFatal = (Ctl.inCo frame).inReadFatal := by
  cases frame <;> rfl

/-- **The invariant of the read side.** -/
structure ReadProtocol (s : Session) : Prop where
  holder_eq : s.read.holder = s.read.active
  reads_eq : s.reads + s.ctl.inReadFatal.toNat = s.read.active.toNat

section

variable {s s' : Session} {a : SessionAct}

/-- A step that does not touch the read side. -/
theorem ReadProtocol.keep {t : Session} (hs : s.ReadProtocol)
    (hreads : t.reads = s.reads := by rfl)
    (hctl : t.ctl.inReadFatal = s.ctl.inReadFatal := by rfl)
    (hholder : t.read.holder = s.read.holder := by rfl)
    (hstatus : t.read.status = s.read.status := by rfl) : t.ReadProtocol := by
  obtain ⟨h₁, h₂⟩ := hs
  constructor
  · rwa [ReadContext.active, hstatus, hholder]
  · rwa [ReadContext.active, hstatus, hreads, hctl]

/-- A resumption outside the fatal branch. -/
theorem ReadProtocol.woken {frame : Frame} (hs : s.ReadProtocol) (idle : s.ctl = .idle)
    (hframe : frame ≠ .readFatal) : (s.woken frame).ReadProtocol :=
  hs.keep (by simp [reads]) (by simp [idle, Ctl.inReadFatal, hframe]) (by simp) (by simp)

theorem WokeReader.readProtocol {t : Session} (h : WokeReader s t) (hs : s.ReadProtocol)
    (idle : s.ctl = .idle) : t.ReadProtocol := by
  cases h with
  | asleep => exact hs
  | woken => exact ReadProtocol.woken hs.keep idle (by decide)

theorem WokeWriter.readProtocol {t : Session} (h : WokeWriter s t) (hs : s.ReadProtocol)
    (idle : s.ctl = .idle) : t.ReadProtocol := by
  cases h with
  | asleep => exact hs
  | woken => exact ReadProtocol.woken hs.keep idle (by decide)

/-- While a request is out, a result leaves it out. -/
theorem took_active {res : ℤ} {data : List UInt8} {more : Bool} (h : s.read.status ≠ .stoped) :
    (s.took res data more).read.active = true := by
  rcases (s.took_frame res data more).2.2.1 with hs | hs
  · simp [ReadContext.active, hs, h]
  · simp [ReadContext.active, hs]

/-- An await submits a request exactly when none is out. -/
theorem ReadProtocol.awaitRead (hs : s.ReadProtocol) : s.awaitRead.ReadProtocol := by
  obtain ⟨hholder, hreads⟩ := hs
  rw [awaitRead_eq]
  simp only [ReadContext.active, reads] at hholder hreads
  by_cases h : s.read.status = .stoped
  · refine ⟨by simp [ReadContext.active, h], ?_⟩
    cases hlow : s.sqeLow <;> simp_all [ReadContext.active, reads]
  · refine ⟨by simpa [ReadContext.active, h] using hholder, ?_⟩
    simpa [ReadContext.active, reads, h] using hreads

theorem Move.readProtocol (h : Move s a s') (hs : s.ReadProtocol) : s'.ReadProtocol := by
  have hholder := hs.holder_eq
  have hreads := hs.reads_eq
  simp only [reads] at hreads
  cases h with
  | readMore idle out holder status woke =>
      refine woke.readProtocol ⟨?_, ?_⟩ idle
      · rw [(s.took_frame _ _ _).1, took_active status, holder]
      · rw [took_active status]
        rw [← hholder, holder, idle] at hreads
        simpa [reads, took, idle] using hreads
  | readStopped idle out holder fatal status woke =>
      rw [← hholder, holder, idle] at hreads
      refine woke.readProtocol ⟨rfl, ?_⟩ idle
      simp [reads, took, endRead, idle, ReadContext.active, Ctl.inReadFatal] at hreads ⊢
      omega
  | readAgain idle out holder fatal status woke =>
      rw [← hholder, holder, idle] at hreads
      refine woke.readProtocol ?_ (by rw [submitRead_eq]; exact idle)
      rw [submitRead_eq]
      refine ⟨rfl, ?_⟩
      cases hlow : s.sqeLow <;>
        simp [reads, took, idle, hlow, ReadContext.active, Ctl.inReadFatal] at hreads ⊢ <;> omega
  | readFatal idle out holder status fatal handle alive =>
      -- the last completion is gone, `status_` and `holder_` are as before
      rw [← hholder, holder, idle] at hreads
      refine ⟨?_, ?_⟩
      · simp [took_active status, (s.took_frame _ _ _).1, holder]
      · simp [reads, Ctl.inReadFatal, took_active status]
        simp [took, Ctl.inReadFatal] at hreads ⊢
        omega
  | readClose idle out holder status fatal handle stopped =>
      rw [← hholder, holder, idle] at hreads
      refine ⟨rfl, ?_⟩
      simp [reads, took, shut, endRead, ReadContext.active, idle, Ctl.inReadFatal] at hreads ⊢
      omega
  | writeMore idle out holder fatal proceeds woke =>
      exact woke.readProtocol (hs.keep (by simp [reads, wrote])) idle
  | writeFatal idle out holder fatal handle alive =>
      exact ReadProtocol.woken hs.keep idle (by decide)
  | established idle head => exact hs.keep rfl (by simp [idle, Ctl.inReadFatal])
  | recvRegister idle head alive empty =>
      exact ReadProtocol.awaitRead hs.keep
  | recvResume idle head alive empty => exact ReadProtocol.woken hs.keep idle (by decide)
  | sendRegister idle head alive sends load => exact hs.keep (by simp [reads, wrote])
  | sendResume idle head alive sends load =>
      exact ReadProtocol.woken (hs.keep (by simp [reads, wrote])) idle (by decide)
  | drainRead idle head =>
      refine hs.keep ?_
      simp [reads, prepareRead, head]
      omega
  | drainWrite idle head => exact hs.keep (by simp [reads, prepareWrite, head])
  | unwindRead frame stopped =>
      refine ⟨rfl, ?_⟩
      simp [reads, shut, endRead, ReadContext.active, frame, Ctl.inReadFatal] at hreads ⊢
      cases hst : s.read.status <;> simp [hst] at hreads <;> omega
  | unwindWrite frame stopped =>
      exact hs.keep rfl (by simp [shut, endWrite, frame, Ctl.inReadFatal])
  | recvReady here ctl =>
      rw [recvAwaitResume_eq]
      exact hs.keep
  | recvSuspend here ctl opened empty =>
      refine hs.awaitRead.keep rfl ?_
      have hctl : s.awaitRead.ctl = s.ctl := by rw [awaitRead_eq]
      simp [hctl, ctl]
  | sendLate here ctl closed =>
      rw [sendAwaitResume_eq]
      exact hs.keep
  | sendThrough here ctl opened sends load =>
      rw [sendAwaitResume_eq]
      exact hs.keep (by simp [reads, wrote])
  | sendSuspend here ctl opened sends load => exact hs.keep (by simp [reads, wrote]) (by simp [ctl])
  | switchLoop here ctl => exact hs.keep rfl (by simp [ctl])
  | retLoop here ctl => exact hs.keep rfl (by simp [ctl])
  | recvLate here closed =>
      rw [recvAwaitResume_eq]
      exact hs.keep
  | sendLateWorker here closed =>
      rw [sendAwaitResume_eq]
      exact hs.keep
  | _ => exact hs.keep

/-- A completion finds its request: neither assertion of `on_completion` fails. -/
theorem Move.no_read_fault (h : Move s a s') (hs : s.ReadProtocol)
    (hf : s.fault ≠ some .readHolder ∧ s.fault ≠ some .readStatus) :
    s'.fault ≠ some .readHolder ∧ s'.fault ≠ some .readStatus := by
  rcases h.fault_cases with heq | ⟨f, fails, heq⟩
  · rwa [heq]
  · have hreads := hs.reads_eq
    have hholder := hs.holder_eq
    simp only [reads] at hreads
    rw [heq]
    cases fails with
    | readHolder out holder idle =>
        rw [← hholder, holder, idle] at hreads
        simp [Ctl.inReadFatal] at hreads
        omega
    | readStatus out status idle =>
        simp [ReadContext.active, status] at hreads
        omega
    | _ => simp

end

/-- **The read request protocol.**  In every run, outside the fatal branch of a read completion, at
most one read request is outstanding, and there is one exactly when `status_` is `READING` or
`CANCELING`, exactly when `holder_` is set.  Both assertions of `on_completion` hold for every
completion. -/
theorem read_request_protocol {s : Session} {inputHwm inputHwmChunk outputHwm maxSlices : ℕ}
    (run : Reach step anyStep (create inputHwm inputHwmChunk outputHwm maxSlices) s) :
    (s.ctl.inReadFatal = false →
      s.reads ≤ 1 ∧
      (s.reads = 1 ↔ s.read.status = .reading ∨ s.read.status = .canceling) ∧
      (s.reads = 1 ↔ s.read.holder = true)) ∧
    s.fault ≠ some .readHolder ∧ s.fault ≠ some .readStatus := by
  have h := run.invariant (P := fun s => s.ReadProtocol ∧
      s.fault ≠ some .readHolder ∧ s.fault ≠ some .readStatus)
    ⟨⟨rfl, rfl⟩, by simp [create, start], by simp [create, start]⟩
    fun s a s' hs _ move =>
      ⟨(step_move move).readProtocol hs.1, (step_move move).no_read_fault hs.1 hs.2⟩
  refine ⟨?_, h.2⟩
  intro hframe
  have hreads := h.1.reads_eq
  have hholder := h.1.holder_eq
  rw [hframe] at hreads
  cases hst : s.read.status <;>
    simp [ReadContext.active, hst] at hreads hholder <;> simp [hreads, hholder]

/-- The coroutine waits for data, a payload passes the high water mark, and the cancelled request
ends: nothing is outstanding. -/
theorem read_request_protocol_cancel :
    let run := exec step (create 2 16 8 256)
      [.functor, .co .prepareToRead, .readCqe 3 [1, 2, 3] true, .co .ret,
        .readCqe (-ECANCELED) [] false]
    run.map (fun s => (s.reads, s.read.status, s.read.holder, s.ctl))
        = some (0, .stoped, false, .idle) ∧
      ∀ s ∈ run, s.ctl.inReadFatal = false → s.reads ≤ 1 := by
  intro run
  exact ⟨by decide +kernel, fun s hs hframe =>
    ((read_request_protocol (reach_of_exec_any hs)).1 hframe).1⟩

end Session

end Proactor
