import Proactor.Connection.ReadProtocol

/-!
# Backpressure on the read side

When the input buffer passes one of its high water marks the connection cancels its multishot
receive; when the coroutine has read everything and asks for more, a new receive is submitted.
This module shows that the two never contradict each other: a receive is submitted only below the
marks, a cancel only above them, at most one cancel follows each receive, and once a receive has
been cancelled nothing but a `PrepareToRead` that finds the buffer empty starts another.

`ReadEffect` says what a step can do to the read side, and everything here is proved from it:

* `Move.readEffect` — every move has one of these effects;
* `ReadLoad` — the invariant, kept by each of them;
* `read_backpressure` — the result for every run.
-/

namespace Proactor

open Chunked Transition

namespace ReadContext

variable {r : ReadContext} {res : ℤ} {data : List UInt8}

/-- `overLoad` reads the buffer and the marks. -/
theorem overLoad_congr {r' : ReadContext} (buffer : r'.inputBuffer = r.inputBuffer)
    (bytes : r'.highWaterMark = r.highWaterMark)
    (chunks : r'.highWaterMarkChunk = r.highWaterMarkChunk) : r'.overLoad = r.overLoad := by
  rw [overLoad, overLoad, totalLen, totalLen, totalChunk, totalChunk, buffer, bytes, chunks]

/-- Reading takes the buffer no further above a mark. -/
theorem removeAsString_overLoad (n : ℕ) (h : r.overLoad = false) :
    (r.removeAsString n).2.overLoad = false := by
  have hlen : (dropFlat n r.inputBuffer).flatten.length ≤ r.inputBuffer.flatten.length := by
    rw [flatten_dropFlat, List.length_drop]
    exact Nat.sub_le _ _
  have hchunk := length_dropFlat_le n r.inputBuffer
  simp only [overLoad, totalLen, totalChunk, removeAsString, Bool.or_eq_false_iff] at h ⊢
  exact ⟨decide_eq_false (by have := of_decide_eq_false h.1; omega),
    decide_eq_false (by have := of_decide_eq_false h.2; omega)⟩

/-- A buffer of non-empty chunks without bytes has no chunks. -/
theorem overLoad_of_isEmpty (chunks : ∀ c ∈ r.inputBuffer, c ≠ []) (h : r.isEmpty = true) :
    r.overLoad = false := by
  have hbytes : r.inputBuffer.flatten = [] :=
    List.eq_nil_of_length_eq_zero (of_decide_eq_true h)
  have hnil : r.inputBuffer = [] := by
    refine List.eq_nil_iff_forall_not_mem.mpr fun c hc => chunks c hc ?_
    exact List.flatten_eq_nil_iff.mp hbytes c hc
  simp [overLoad, totalLen, totalChunk, hnil]

theorem takeResult_chunks (chunks : ∀ c ∈ r.inputBuffer, c ≠ []) (hlen : data.length = res.toNat) :
    ∀ c ∈ (r.takeResult res data).2.1.inputBuffer, c ≠ [] := by
  by_cases hres : res ≤ 0
  · simpa [takeResult, hres, handleError_eq r hres] using chunks
  · have hdata : data ≠ [] := by
      rw [← List.length_pos_iff]
      omega
    have hbuf : (r.takeResult res data).2.1.inputBuffer = r.inputBuffer ++ [data] := by
      simp only [takeResult, if_neg hres, receive]
      split <;> rfl
    rw [hbuf]
    intro c hc
    rcases List.mem_append.mp hc with hc | hc
    · exact chunks c hc
    · exact List.mem_singleton.mp hc ▸ hdata

/-- A result without a cancel leaves the status, and a request that goes on is below the marks. -/
theorem takeResult_going (load : r.status = .reading → r.overLoad = false)
    (h : (r.takeResult res data).2.2 = false) :
    (r.takeResult res data).2.1.status = r.status ∧
      ((r.takeResult res data).2.1.status = .reading →
        (r.takeResult res data).2.1.overLoad = false) := by
  by_cases hres : res ≤ 0
  · have hread : (r.takeResult res data).2.1
        = { r with isError := r.isError || decide (Fatal res) } := by
      simp [takeResult, hres, handleError_eq r hres]
    rw [hread]
    exact ⟨rfl, load⟩
  · simp only [takeResult, if_neg hres, receive] at h ⊢
    split at h
    case isTrue => simp at h
    case isFalse hcond =>
      rw [if_neg hcond]
      refine ⟨rfl, fun hreading => ?_⟩
      have hnot : r.status ≠ .canceling := by
        rw [show r.status = .reading from hreading]
        decide
      by_contra hover
      exact hcond ⟨by simpa using hover, hnot⟩

/-- A result with a cancel found the request going on and the buffer above a mark. -/
theorem takeResult_cancel (h : (r.takeResult res data).2.2 = true) :
    r.status ≠ .canceling ∧ (r.takeResult res data).2.1.status = .canceling ∧
      (r.takeResult res data).2.1.overLoad = true := by
  by_cases hres : res ≤ 0
  · simp [takeResult, hres] at h
  · simp only [takeResult, if_neg hres, receive] at h ⊢
    split at h
    case isTrue hcond =>
      rw [if_pos hcond]
      exact ⟨hcond.2, rfl, hcond.1⟩
    case isFalse => simp at h

end ReadContext

namespace Session

/-! ## What a step does to the read side -/

/-- The receive and cancel SQEs prepared so far. -/
def requests (s : Session) : List SqeKind := (s.sqes.map Sqe.kind).filter (· ≠ .writev)

/-- The receives submitted so far, those that still wait for an SQE included. -/
def submittedReads (s : Session) : ℕ := s.requests.count .recv + s.waiting.count .read

/-- The step is a `PrepareToRead` that has reached the loop thread: of a coroutine that runs there,
or the functor that its awaiter queued. -/
inductive Prepares (s : Session) : SessionAct → Prop
  | onLoop (here : s.co = .onLoop) : Prepares s (.co .prepareToRead)
  | functor {fs : List QueuedFunctor} (head : s.functors = .await .recv :: fs) :
      Prepares s .functor

/-- The read side is the same. -/
structure SameReads (s t : Session) : Prop where
  status : t.read.status = s.read.status
  buffer : t.read.inputBuffer = s.read.inputBuffer
  bytes : t.read.highWaterMark = s.read.highWaterMark
  chunks : t.read.highWaterMarkChunk = s.read.highWaterMarkChunk
  kernel : t.kernelReads = s.kernelReads
  waiting : t.waiting.count .read = s.waiting.count .read
  requests : t.requests = s.requests

inductive ReadEffect (s : Session) : SessionAct → Session → Prop
  | kept {a s'} (same : SameReads s s') : ReadEffect s a s'
  | consumed {size s'} (same : SameReads { s with read := (s.read.removeAsString size).2 } s') :
      ReadEffect s (.co (.read size)) s'
  | awaited {a s'} (prepares : Prepares s a) (empty : s.read.isEmpty = true)
      (same : SameReads s.awaitRead s') : ReadEffect s a s'
  | drained {cs s'} (head : s.waiting = .read :: cs)
      (same : SameReads { s with waiting := cs }.prepareRead s') : ReadEffect s .drain s'
  /-- The receive goes on, or the coroutine is resumed before the connection closes. -/
  | took {res data more s'} (out : 0 < s.kernelReads) (status : s.read.status ≠ .stoped)
      (stays : more = true ∨ ReadContext.Fatal res)
      (same : SameReads (s.took res data more) s') : ReadEffect s (.readCqe res data more) s'
  /-- The receive was cancelled, or the connection is closed. -/
  | ended {res data s'} (out : 0 < s.kernelReads)
      (ends : (s.took res data false).read.status = .canceling ∨ ReadContext.Fatal res)
      (same : SameReads (s.took res data false).endRead s') :
      ReadEffect s (.readCqe res data false) s'
  | again {res data s'} (out : 0 < s.kernelReads) (fatal : ¬ ReadContext.Fatal res)
      (status : (s.took res data false).read.status = .reading)
      (same : SameReads (s.took res data false).submitRead s') :
      ReadEffect s (.readCqe res data false) s'
  | unwound {s'} (frame : s.ctl = .back .readFatal) (same : SameReads s.endRead s') :
      ReadEffect s .unwind s'

/-- A step that submits a receive. -/
inductive Starts (s : Session) : SessionAct → Prop
  /-- A `PrepareToRead` that finds the buffer empty and no receive out. -/
  | prepare {a} (prepares : Prepares s a) (empty : s.read.isEmpty = true)
      (stopped : s.read.status = .stoped) : Starts s a
  /-- A final completion of a receive that was not cancelled. -/
  | completion {res data} (fatal : ¬ ReadContext.Fatal res) (reading : s.read.status = .reading) :
      Starts s (.readCqe res data false)

variable {s s' t : Session} {a : SessionAct}

theorem SameReads.overLoad (h : SameReads s t) : t.read.overLoad = s.read.overLoad :=
  ReadContext.overLoad_congr h.buffer h.bytes h.chunks

theorem SameReads.submittedReads (h : SameReads s t) : t.submittedReads = s.submittedReads := by
  rw [Session.submittedReads, Session.submittedReads, h.requests, h.waiting]

/-- A step that leaves the read side alone, or changes only what is compared elsewhere. -/
theorem SameReads.of_eq (status : t.read.status = s.read.status := by rfl)
    (buffer : t.read.inputBuffer = s.read.inputBuffer := by rfl)
    (bytes : t.read.highWaterMark = s.read.highWaterMark := by rfl)
    (chunks : t.read.highWaterMarkChunk = s.read.highWaterMarkChunk := by rfl)
    (kernel : t.kernelReads = s.kernelReads := by rfl)
    (waiting : t.waiting.count .read = s.waiting.count .read := by rfl)
    (requests : t.requests = s.requests := by rfl) : SameReads s t :=
  ⟨status, buffer, bytes, chunks, kernel, waiting, requests⟩

theorem SameReads.trans {u : Session} (h : SameReads s t) (h' : SameReads t u) : SameReads s u :=
  ⟨h'.status.trans h.status, h'.buffer.trans h.buffer, h'.bytes.trans h.bytes,
    h'.chunks.trans h.chunks, h'.kernel.trans h.kernel, h'.waiting.trans h.waiting,
    h'.requests.trans h.requests⟩

theorem sameReads_woken (s : Session) (frame : Frame) : SameReads s (s.woken frame) := by
  rw [woken_eq]
  exact .of_eq

theorem sameReads_recvAwaitResume (s : Session) : SameReads s s.recvAwaitResume := by
  rw [recvAwaitResume_eq]
  exact .of_eq

theorem sameReads_sendAwaitResume (s : Session) : SameReads s s.sendAwaitResume := by
  rw [sendAwaitResume_eq]
  exact .of_eq

theorem WokeReader.sameReads (h : WokeReader s t) : SameReads s t := by
  cases h with
  | asleep => exact .of_eq
  | woken => exact SameReads.trans .of_eq (sameReads_woken _ _)

theorem WokeWriter.sameReads (h : WokeWriter s t) : SameReads s t := by
  cases h with
  | asleep => exact .of_eq
  | woken => exact SameReads.trans .of_eq (sameReads_woken _ _)

/-- A write request is no read request. -/
theorem sameReads_wrote (s : Session) (w : WriteContext) (flushed : Bool) :
    SameReads s (s.wrote w flushed) := by
  refine .of_eq rfl rfl rfl rfl rfl ?_ ?_
  · simp [wrote]
  · cases flushed <;> cases hlow : s.sqeLow <;> simp [wrote, requests, hlow]

theorem Move.readEffect (h : Move s a s') : ReadEffect s a s' := by
  cases h with
  | readMore idle out holder status woke =>
      exact .took out status (.inl rfl) woke.sameReads
  | readStopped idle out holder fatal status woke =>
      exact .ended out (.inl status) woke.sameReads
  | readAgain idle out holder fatal status woke => exact .again out fatal status woke.sameReads
  | readFatal idle out holder status fatal handle alive =>
      exact .took out status (.inr fatal) (sameReads_woken _ _)
  | readClose idle out holder status fatal handle stopped =>
      exact .ended out (.inr fatal) .of_eq
  | writeMore idle out holder fatal proceeds woke =>
      exact .kept ((SameReads.trans .of_eq (sameReads_wrote _ _ _)).trans woke.sameReads)
  | writeFatal => exact .kept (SameReads.trans .of_eq (sameReads_woken _ _))
  | recvRegister idle head alive empty =>
      refine .awaited (.functor head) empty ?_
      rw [awaitRead_eq, awaitRead_eq]
      exact .of_eq
  | recvResume => exact .kept (SameReads.trans .of_eq (sameReads_woken _ _))
  | sendRegister => exact .kept (SameReads.trans .of_eq (sameReads_wrote _ _ _))
  | sendResume =>
      exact .kept ((SameReads.trans .of_eq (sameReads_wrote _ _ _)).trans (sameReads_woken _ _))
  | drainRead idle head => exact .drained head .of_eq
  | drainWrite idle head =>
      refine .kept (.of_eq rfl rfl rfl rfl rfl ?_ ?_)
      · simp [prepareWrite, head]
      · simp [prepareWrite, requests]
  | unwindRead frame stopped => exact .unwound frame .of_eq
  | recvReady => exact .kept (sameReads_recvAwaitResume s)
  | recvLate => exact .kept (sameReads_recvAwaitResume s)
  | recvSuspend here ctl opened empty => exact .awaited (.onLoop here) empty .of_eq
  | sendLate => exact .kept (sameReads_sendAwaitResume s)
  | sendLateWorker => exact .kept (sameReads_sendAwaitResume s)
  | sendThrough => exact .kept ((sameReads_wrote _ _ _).trans (sameReads_sendAwaitResume _))
  | @sendSuspend _ _ w flushed =>
      exact .kept ((sameReads_wrote s { w with writeHandle := true } flushed).trans .of_eq)
  | read => exact .consumed .of_eq
  | _ => exact .kept .of_eq

/-! ## Submissions -/

@[simp] theorem requests_took (s : Session) (res : ℤ) (data : List UInt8) (more : Bool) :
    (s.took res data more).requests
      = s.requests ++ if (s.read.takeResult res data).2.2 then [.cancel] else [] := by
  cases h : (s.read.takeResult res data).2.2 <;> simp [requests, took, h]

@[simp] theorem requests_prepareRead (s : Session) :
    s.prepareRead.requests = s.requests ++ [.recv] := by
  simp [requests, prepareRead]

@[simp] theorem requests_submitRead (s : Session) :
    s.submitRead.requests = s.requests ++ if s.sqeLow then [] else [.recv] := by
  cases hlow : s.sqeLow <;> simp [requests, submitRead_eq, hlow]

/-- A submission counts once, prepared or waiting. -/
theorem submittedReads_submitRead (s : Session) :
    s.submitRead.submittedReads = s.submittedReads + 1 := by
  simp only [submittedReads, requests_submitRead]
  cases hlow : s.sqeLow <;> simp [submitRead_eq, hlow] <;> omega

theorem submittedReads_took (s : Session) (res : ℤ) (data : List UInt8) (more : Bool) :
    (s.took res data more).submittedReads = s.submittedReads := by
  simp only [submittedReads, requests_took]
  split <;> simp [took]

theorem submittedReads_endRead (s : Session) : s.endRead.submittedReads = s.submittedReads := rfl

/-- A result does not make a receive go on that was cancelled. -/
theorem reading_of_took {res : ℤ} {data : List UInt8} {more : Bool}
    (h : (s.took res data more).read.status = .reading) : s.read.status = .reading := by
  rcases (s.took_frame res data more).2.2.1 with hs | hs
  · exact hs.symm.trans h
  · exact absurd (hs.symm.trans h) (by decide)

/-- **What submits a receive.**  A step submits none, and then `status_` does not become `READING`;
or it is one of those that may, and then `status_` is `READING`. -/
theorem ReadEffect.starts (h : ReadEffect s a s') :
    (s'.submittedReads = s.submittedReads ∧
        (s'.read.status = .reading → s.read.status = .reading)) ∨
      (s'.submittedReads = s.submittedReads + 1 ∧ s'.read.status = .reading ∧ Starts s a) := by
  cases h with
  | kept same => exact .inl ⟨same.submittedReads, fun h => same.status.symm.trans h⟩
  | consumed same => exact .inl ⟨same.submittedReads, fun h => same.status.symm.trans h⟩
  | awaited prepares empty same =>
      rw [same.submittedReads, same.status]
      by_cases hstop : s.read.status = .stoped
      · refine .inr ⟨?_, ?_, .prepare prepares empty hstop⟩
        · rw [awaitRead, if_pos hstop, submittedReads_submitRead]
          rfl
        · rw [awaitRead, if_pos hstop, submitRead_eq]
      · refine .inl ?_
        rw [awaitRead, if_neg hstop]
        exact ⟨rfl, id⟩
  | drained head same =>
      rw [same.submittedReads, same.status]
      refine .inl ⟨?_, id⟩
      simp only [submittedReads, requests_prepareRead, head]
      simp [prepareRead, requests]
      omega
  | took out status stays same =>
      rw [same.submittedReads, same.status]
      exact .inl ⟨submittedReads_took _ _ _ _, reading_of_took⟩
  | ended out ends same =>
      rw [same.submittedReads, same.status]
      refine .inl ⟨?_, by simp [endRead]⟩
      rw [submittedReads_endRead, submittedReads_took]
  | again out fatal status same =>
      rw [same.submittedReads, same.status]
      refine .inr ⟨?_, ?_, .completion fatal (reading_of_took status)⟩
      · rw [submittedReads_submitRead, submittedReads_took]
      · rw [submitRead_eq]
  | unwound frame same =>
      rw [same.submittedReads, same.status]
      exact .inl ⟨submittedReads_endRead s, by simp [endRead]⟩

/-! ## Cancels -/

/-- Every cancel comes right after a receive of its own. -/
def CancelsOnce (l : List SqeKind) : Prop :=
  ∀ l₁ l₂, l = l₁ ++ .cancel :: l₂ → ∃ l₀, l₁ = l₀ ++ [.recv]

theorem CancelsOnce.concat {l : List SqeKind} {k : SqeKind} (h : CancelsOnce l)
    (hk : k = .cancel → ∃ l₀, l = l₀ ++ [.recv]) : CancelsOnce (l ++ [k]) := by
  intro l₁ l₂ heq
  rcases List.eq_nil_or_concat' l₂ with rfl | ⟨m, k', rfl⟩
  · obtain ⟨rfl, hlast⟩ := List.append_inj' heq rfl
    exact hk (List.singleton_inj.mp hlast)
  · rw [← List.cons_append, ← List.append_assoc] at heq
    exact h l₁ m (List.append_inj' heq rfl).1

/-! ## The invariant -/

/-- **The invariant of the read side's load.** -/
structure ReadLoad (s : Session) : Prop where
  chunks : ∀ c ∈ s.read.inputBuffer, c ≠ []
  load : s.read.status = .reading → s.read.overLoad = false
  /-- A receive that waits for an SQE cannot have been cancelled. -/
  waiting : 0 < s.waiting.count .read → s.read.status = .reading
  /-- The receive that the kernel works on is the last request. -/
  fresh : s.read.status = .reading → 0 < s.kernelReads → ∃ l, s.requests = l ++ [.recv]
  cancels : CancelsOnce s.requests

theorem ReadLoad.of_same (h : s.ReadLoad) (same : SameReads s t) : t.ReadLoad where
  chunks := same.buffer ▸ h.chunks
  load := by
    rw [same.status, same.overLoad]
    exact h.load
  waiting := by
    rw [same.status, same.waiting]
    exact h.waiting
  fresh := by
    rw [same.status, same.kernel, same.requests]
    exact h.fresh
  cancels := same.requests ▸ h.cancels

/-- While the kernel has a receive, none waits for an SQE. -/
theorem ReadProtocol.none_waiting (h : s.ReadProtocol) (out : 0 < s.kernelReads) :
    s.waiting.count .read = 0 ∧ s.read.status ≠ .stoped := by
  have hreads := h.reads_eq
  simp only [reads] at hreads
  constructor
  · have := Bool.toNat_le s.read.active
    omega
  · intro hstop
    simp [ReadContext.active, hstop] at hreads
    omega

theorem ReadLoad.took (h : s.ReadLoad) (hp : s.ReadProtocol) (out : 0 < s.kernelReads) {res : ℤ}
    {data : List UInt8} (hlen : data.length = res.toNat) (more : Bool) :
    (s.took res data more).ReadLoad where
  chunks := ReadContext.takeResult_chunks h.chunks hlen
  load := by
    intro hreading
    cases hc : (s.read.takeResult res data).2.2 with
    | false => exact (ReadContext.takeResult_going h.load hc).2 hreading
    | true =>
        have hstatus := (ReadContext.takeResult_cancel hc).2.1
        exact absurd (hstatus.symm.trans hreading) (by decide)
  waiting := by
    intro hw
    have := (hp.none_waiting out).1
    exact absurd this (Nat.pos_iff_ne_zero.mp hw)
  fresh := by
    intro hreading _
    rw [requests_took]
    cases hc : (s.read.takeResult res data).2.2 with
    | false => simpa using h.fresh (reading_of_took hreading) out
    | true =>
        have hstatus := (ReadContext.takeResult_cancel hc).2.1
        exact absurd (hstatus.symm.trans hreading) (by decide)
  cancels := by
    rw [requests_took]
    cases hc : (s.read.takeResult res data).2.2 with
    | false => simpa using h.cancels
    | true =>
        -- the cancel is for the receive that is out, and that is the last request
        have hreading : s.read.status = .reading := by
          cases hs : s.read.status with
          | reading => rfl
          | stoped => exact absurd hs (hp.none_waiting out).2
          | canceling => exact absurd hs (ReadContext.takeResult_cancel hc).1
        exact h.cancels.concat fun _ => h.fresh hreading out

theorem ReadLoad.endRead (h : s.ReadLoad) (hw : s.waiting.count .read = 0) :
    s.endRead.ReadLoad where
  chunks := h.chunks
  load := by simp [Session.endRead]
  waiting := fun hpos => absurd hw (Nat.pos_iff_ne_zero.mp hpos)
  fresh := by simp [Session.endRead]
  cancels := h.cancels

theorem ReadLoad.submitRead (h : s.ReadLoad) (hover : s.read.overLoad = false)
    (hfresh : 0 < s.kernelReads → ∃ l, s.requests = l ++ [.recv]) : s.submitRead.ReadLoad where
  chunks := by
    rw [submitRead_eq]
    exact h.chunks
  load := by
    rw [submitRead_eq]
    exact fun _ => hover
  waiting := by
    rw [submitRead_eq]
    exact fun _ => rfl
  fresh := by
    intro _ hk
    rw [requests_submitRead]
    cases hlow : s.sqeLow with
    | true => simpa using hfresh (by simpa [submitRead_eq, hlow] using hk)
    | false => exact ⟨_, rfl⟩
  cancels := by
    rw [requests_submitRead]
    cases hlow : s.sqeLow with
    | true => simpa using h.cancels
    | false => exact h.cancels.concat (by simp)

theorem ReadLoad.awaitRead (h : s.ReadLoad) (hp : s.ReadProtocol) (empty : s.read.isEmpty = true) :
    s.awaitRead.ReadLoad := by
  have hset : ({ s with read := { s.read with readHandle := true } } : Session).ReadLoad :=
    h.of_same .of_eq
  rw [Session.awaitRead]
  split
  case isTrue hstop =>
    refine hset.submitRead (ReadContext.overLoad_of_isEmpty h.chunks empty) ?_
    intro out
    exact absurd hstop (hp.none_waiting out).2
  case isFalse => exact hset

theorem ReadEffect.readLoad (h : ReadEffect s a s') (hs : s.ReadLoad) (hp : s.ReadProtocol)
    (hlen : ∀ res data more, a = .readCqe res data more → data.length = res.toNat) :
    s'.ReadLoad := by
  cases h with
  | kept same => exact hs.of_same same
  | @consumed size _ same =>
      refine ReadLoad.of_same ?_ same
      exact ⟨dropFlat_ne_nil hs.chunks,
        fun hreading => ReadContext.removeAsString_overLoad size (hs.load hreading), hs.waiting,
        hs.fresh, hs.cancels⟩
  | awaited prepares empty same => exact (hs.awaitRead hp empty).of_same same
  | drained head same =>
      have hreading : s.read.status = .reading := hs.waiting (by simp [head])
      refine ReadLoad.of_same ?_ same
      refine ⟨hs.chunks, hs.load, fun _ => hreading, fun _ _ => ?_, ?_⟩
      · rw [requests_prepareRead]
        exact ⟨_, rfl⟩
      · rw [requests_prepareRead]
        exact CancelsOnce.concat hs.cancels (by simp)
  | took out status stays same => exact (hs.took hp out (hlen _ _ _ rfl) _).of_same same
  | ended out ends same =>
      exact ((hs.took hp out (hlen _ _ _ rfl) _).endRead (hp.none_waiting out).1).of_same same
  | again out fatal status same =>
      have ht := hs.took hp out (hlen _ _ _ rfl) false
      exact (ht.submitRead (ht.load status) (ht.fresh status)).of_same same
  | unwound frame same =>
      refine (hs.endRead ?_).of_same same
      have hreads := hp.reads_eq
      have hactive := Bool.toNat_le s.read.active
      simp only [reads, frame, Ctl.inReadFatal] at hreads
      simp at hreads
      omega

/-- What every run keeps. -/
theorem readLoad_of_reach {inputHwm inputHwmChunk outputHwm maxSlices : ℕ}
    (run : Reach step anyStep (create inputHwm inputHwmChunk outputHwm maxSlices) s) :
    s.ReadLoad ∧ s.ReadProtocol := by
  refine run.invariant (P := fun s => s.ReadLoad ∧ s.ReadProtocol) ?_ ?_
  · refine ⟨⟨by simp [create, start, ReadContext.create], fun _ => ?_, by simp [create, start],
      by simp [create, start], ?_⟩, rfl, rfl⟩
    · simp [create, start, ReadContext.create, ReadContext.overLoad, ReadContext.totalLen,
        ReadContext.totalChunk]
    · simp [CancelsOnce, requests, create, start]
  · rintro s a s' ⟨hs, hp⟩ - move
    have hlen : ∀ res data more, a = .readCqe res data more → data.length = res.toNat := by
      rintro res data more rfl
      exact (step_readCqe move).2.2
    exact ⟨(step_move move).readEffect.readLoad hs hp hlen, (step_move move).readProtocol hp⟩

/-! ## Submitting below the marks, cancelling above them -/

/-- When the SQE of a receive is prepared, `status_` is `READING`. -/
theorem ReadEffect.prepared (h : ReadEffect s a s') (hs : s.ReadLoad)
    (hmore : s.requests.count .recv < s'.requests.count .recv) : s'.read.status = .reading := by
  cases h with
  | kept same => exact absurd (same.requests ▸ hmore) (Nat.lt_irrefl _)
  | consumed same => exact absurd (same.requests ▸ hmore) (Nat.lt_irrefl _)
  | awaited prepares empty same =>
      rw [same.requests, awaitRead] at hmore
      rw [same.status, awaitRead]
      split at hmore
      case isTrue hstop => rw [if_pos hstop, submitRead_eq]
      case isFalse => exact absurd hmore (Nat.lt_irrefl _)
  | drained head same =>
      rw [same.status]
      exact hs.waiting (by simp [head])
  | took out status stays same =>
      rw [same.requests, requests_took] at hmore
      split at hmore <;> simp at hmore
  | ended out ends same =>
      have hcount : s.requests.count .recv < (s.took _ _ false).requests.count .recv :=
        same.requests ▸ hmore
      rw [requests_took] at hcount
      split at hcount <;> simp at hcount
  | again out fatal status same => rw [same.status, submitRead_eq]
  | unwound frame same => exact absurd (same.requests ▸ hmore) (Nat.lt_irrefl _)

theorem count_cancel_took {res : ℤ} {data : List UInt8} {more : Bool}
    (h : s.requests.count .cancel < (s.took res data more).requests.count .cancel) :
    (s.took res data more).read.status = .canceling ∧
      (s.took res data more).read.overLoad = true := by
  rw [requests_took] at h
  cases hc : (s.read.takeResult res data).2.2 with
  | false => simp [hc] at h
  | true => exact (ReadContext.takeResult_cancel hc).2

/-- A step that cancels leaves the buffer above a mark and the receive cancelled. -/
theorem ReadEffect.cancelled (h : ReadEffect s a s')
    (hmore : s.requests.count .cancel < s'.requests.count .cancel) :
    s'.read.overLoad = true ∧ s'.read.status ≠ .reading := by
  cases h with
  | kept same => exact absurd (same.requests ▸ hmore) (Nat.lt_irrefl _)
  | consumed same => exact absurd (same.requests ▸ hmore) (Nat.lt_irrefl _)
  | awaited prepares empty same =>
      rw [same.requests, awaitRead] at hmore
      split at hmore
      · rw [requests_submitRead] at hmore
        split at hmore <;> simp [requests] at hmore
      · simp [requests] at hmore
  | drained head same =>
      rw [same.requests, requests_prepareRead] at hmore
      simp [requests] at hmore
  | took out status stays same =>
      rw [same.requests] at hmore
      obtain ⟨hstatus, hover⟩ := count_cancel_took hmore
      rw [same.overLoad, same.status, hstatus]
      exact ⟨hover, by decide⟩
  | @ended res data _ out ends same =>
      rw [same.requests] at hmore
      have hcount : s.requests.count .cancel
          < (s.took res data false).requests.count .cancel := hmore
      rw [same.overLoad, same.status]
      exact ⟨(count_cancel_took hcount).2, by simp [endRead]⟩
  | @again res data _ out fatal status same =>
      rw [same.requests, requests_submitRead] at hmore
      have hcount : s.requests.count .cancel
          < (s.took res data false).requests.count .cancel := by
        split at hmore <;> simpa using hmore
      exact absurd ((count_cancel_took hcount).1.symm.trans status) (by decide)
  | unwound frame same => exact absurd (same.requests ▸ hmore) (Nat.lt_irrefl _)

/-- A `PrepareToRead` that starts reading again: no receive is out and the buffer is empty. -/
def Restarts (s : Session) (a : SessionAct) : Prop :=
  Prepares s a ∧ s.read.isEmpty = true ∧ s.read.status = .stoped

/-- Without a restart nothing is read again. -/
theorem ReadEffect.stays (h : ReadEffect s a s') (hstatus : s.read.status ≠ .reading)
    (hno : ¬ Restarts s a) :
    s'.read.status ≠ .reading ∧ s'.submittedReads = s.submittedReads := by
  rcases h.starts with ⟨hsame, hkept⟩ | ⟨-, -, hstarts⟩
  · exact ⟨fun hreading => hstatus (hkept hreading), hsame⟩
  · cases hstarts with
    | prepare prepares empty stopped => exact absurd ⟨prepares, empty, stopped⟩ hno
    | completion fatal reading => exact absurd reading hstatus

/-- **Read backpressure.**  In every run, with any marks:
while `status_` is `READING` the buffer is below the marks; every cancel SQE directly follows a
receive SQE of its own; a step that submits a receive, or prepares one that had to wait for an SQE,
leaves the buffer below the marks (it does not change after the submission); a step that cancels
leaves it above one; and from a state that is not `READING`, as after a cancel, nothing is
submitted until a `PrepareToRead` finds the buffer empty. -/
theorem read_backpressure {inputHwm inputHwmChunk outputHwm maxSlices : ℕ}
    (run : Reach step anyStep (create inputHwm inputHwmChunk outputHwm maxSlices) s) :
    (s.read.status = .reading → s.read.overLoad = false) ∧
      CancelsOnce s.requests ∧
      (∀ a s', s.step a = some s' →
        (s.requests.count .recv < s'.requests.count .recv ∨
            s.submittedReads < s'.submittedReads → s'.read.overLoad = false) ∧
        (s.requests.count .cancel < s'.requests.count .cancel →
          s'.read.overLoad = true ∧ s'.read.status ≠ .reading)) ∧
      (s.read.status ≠ .reading → ∀ t, Reach step (fun u a => ¬ Restarts u a) s t →
        t.read.status ≠ .reading ∧ t.submittedReads = s.submittedReads) := by
  have h := (readLoad_of_reach run).1
  refine ⟨h.load, h.cancels, ?_, ?_⟩
  · intro a s' hstep
    have heffect := (step_move hstep).readEffect
    refine ⟨?_, heffect.cancelled⟩
    intro hmore
    refine (readLoad_of_reach (.next run trivial hstep)).1.load ?_
    rcases hmore with hmore | hmore
    · exact heffect.prepared h hmore
    · rcases heffect.starts with ⟨hsame, -⟩ | ⟨-, hreading, -⟩
      · omega
      · exact hreading
  · intro hstatus t hrun
    refine hrun.invariant
      (P := fun t => t.read.status ≠ .reading ∧ t.submittedReads = s.submittedReads)
      ⟨hstatus, rfl⟩ ?_
    rintro u a u' ⟨hu, hsame⟩ hno hstep
    obtain ⟨hu', hsame'⟩ := (step_move hstep).readEffect.stays hu hno
    exact ⟨hu', hsame'.trans hsame⟩

/-- A payload passes the mark and the receive is cancelled; the coroutine reads everything and waits
for the cancelled receive to end, and its next `PrepareToRead` submits another one. -/
theorem read_backpressure_restart :
    ∃ s, Reach step anyStep (create 2 16 8 256) s ∧ s.requests = [.recv, .cancel, .recv] ∧
      s.read.status = .reading ∧ s.read.overLoad = false := by
  obtain ⟨s, run, h⟩ := exists_reach step anyStep (create 2 16 8 256)
    [.functor, .co .prepareToRead, .readCqe 3 [1, 2, 3] true, .co (.read 3), .co .prepareToRead,
      .readCqe (-ECANCELED) [] false, .co .prepareToRead]
    (fun s => decide (s.requests = [.recv, .cancel, .recv] ∧ s.read.status = .reading))
    (by decide +kernel)
  obtain ⟨hrequests, hstatus⟩ := of_decide_eq_true h
  exact ⟨s, run, hrequests, hstatus, (read_backpressure run).1 hstatus⟩

end Session

end Proactor
