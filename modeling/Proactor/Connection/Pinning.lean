import Proactor.Connection.WriteProtocol

/-!
# The memory of a write request

`_submitWriteMsg` gives the kernel the address of the array `temp_data_`, whose entries point into
the fragments of the output queue.  The kernel reads both when it likes, until it completes the
request; until the SQE is prepared the loop itself reads the array.  In the meantime the coroutine
sends, which appends to the same queue, and the connection may be closed.

* `Session.Batches` — what a step can do to the array and the queue.
* `WriteContext.Pinned` — every entry of the array of a request points at the unsent part of a
  fragment that is in the queue.
* `iovecs_pinned` — nothing but the completion moves or changes what the request points at.
-/

namespace Proactor

open Transition SendQueue

namespace WriteContext

/-- The array, the queue and whether a request is out are the same. -/
structure SameBatch (w w' : WriteContext) : Prop where
  buffer : w'.outputBuffer = w.outputBuffer
  iovecs : w'.tempData = w.tempData
  sending : w'.isSending = w.isSending

/-- **The array of a request points into the queue.** -/
structure Pinned (w : WriteContext) : Prop where
  queued : w.Queued
  iovecs : w.isSending = true →
    ∀ iov ∈ w.tempData, ∃ p ∈ w.outputBuffer.nodes, iov = w.outputBuffer.iovecOf p

variable {w w' : WriteContext} {flushed : Bool} {data : List UInt8}

theorem SameBatch.pinned (h : SameBatch w w') (hw : w.Pinned) : w'.Pinned := by
  obtain ⟨hqueued, hiovecs⟩ := hw
  refine ⟨?_, ?_⟩
  · simpa only [Queued, h.buffer] using hqueued
  · rw [h.buffer, h.iovecs, h.sending]
    exact hiovecs

theorem SameBatch.trans {w'' : WriteContext} (h : SameBatch w w') (h' : SameBatch w' w'') :
    SameBatch w w'' :=
  ⟨h'.buffer.trans h.buffer, h'.iovecs.trans h.iovecs, h'.sending.trans h.sending⟩

theorem pinned_create (highWaterMark maxSlices : ℕ) : (create highWaterMark maxSlices).Pinned :=
  ⟨⟨[], 0, rep_empty⟩, nofun⟩

/-- The array of a new request is taken from the queue as it is. -/
theorem Queued.flush_pinned (h : w.Queued) (hflush : w.flush = some w') : w'.Pinned := by
  obtain ⟨l, k, hrep⟩ := h
  obtain ⟨hbatch, hrep'⟩ := hrep.getBatchFragment w.maxSlices
  simp only [WriteContext.flush, Option.ite_none_left_eq_some, Option.some.injEq] at hflush
  obtain ⟨-, rfl⟩ := hflush
  refine ⟨?_, fun _ => ?_⟩
  · rw [hbatch]
    exact ⟨l, _, hrep'⟩
  · rw [hbatch, hrep'.nodes_eq]
    intro iov hiov
    obtain ⟨p, hp, rfl⟩ := List.mem_map.mp hiov
    exact ⟨p, List.mem_of_mem_drop (List.mem_of_mem_take hp), rfl⟩

/-- What `append` does to the queue of a request. -/
theorem Queued.append_kept (h : w.Queued) (data : List UInt8) {p : ℕ}
    (hp : p ∈ w.outputBuffer.nodes) :
    p ∈ (w.outputBuffer.append data).nodes ∧
      (w.outputBuffer.append data).iovecOf p = w.outputBuffer.iovecOf p ∧
      (w.outputBuffer.append data).load (w.outputBuffer.iovecOf p)
        = w.outputBuffer.load (w.outputBuffer.iovecOf p) := by
  obtain ⟨l, k, hrep⟩ := h
  rw [hrep.nodes_eq] at hp
  have hp' : p ∈ l ++ [w.outputBuffer.fresh] := List.mem_append_left _ hp
  have hiovec := hrep.append_iovecOf data hp
  refine ⟨(hrep.append data).nodes_eq ▸ hp', hiovec, ?_⟩
  rw [← hiovec, (hrep.append data).load_iovecOf hp', hiovec, hrep.load_iovecOf hp,
    hrep.append_rest data hp]

theorem Pinned.sendInLoop (h : w.Pinned) (hsend : w.sendInLoop data = some (w', flushed)) :
    w'.Pinned := by
  have hqueued := h.queued.sendInLoop hsend
  cases hs : w.isSending with
  | true =>
      simp only [WriteContext.sendInLoop, hs, if_true, Option.some.injEq, Prod.mk.injEq] at hsend
      obtain ⟨rfl, -⟩ := hsend
      refine ⟨hqueued, fun _ iov hiov => ?_⟩
      obtain ⟨p, hp, rfl⟩ := h.iovecs hs iov hiov
      obtain ⟨hmem, hiovec, -⟩ := h.queued.append_kept data hp
      exact ⟨p, hmem, hiovec.symm⟩
  | false =>
      simp only [WriteContext.sendInLoop, hs, Bool.false_eq_true, if_false, Option.map_eq_some_iff,
        Prod.mk.injEq] at hsend
      obtain ⟨v, hv, rfl, -⟩ := hsend
      obtain ⟨l, k, hrep⟩ := h.queued
      have happ : ({ w with outputBuffer := w.outputBuffer.append data, holder := true } :
          WriteContext).Queued := ⟨_, _, hrep.append data⟩
      obtain ⟨hq, hiovecs⟩ := happ.flush_pinned hv
      exact ⟨hq, fun _ => hiovecs (flush_frame hv).1⟩

theorem Queued.proceed_pinned (h : w.Queued) (hproceed : w.proceed = some (w', flushed)) :
    w'.Pinned := by
  simp only [WriteContext.proceed] at hproceed
  split at hproceed
  case isTrue =>
    simp only [Option.map_eq_some_iff, Prod.mk.injEq] at hproceed
    obtain ⟨v, hv, rfl, -⟩ := hproceed
    exact h.flush_pinned hv
  case isFalse =>
    simp only [Option.some.injEq, Prod.mk.injEq] at hproceed
    obtain ⟨rfl, -⟩ := hproceed
    exact ⟨h, by simp⟩

end WriteContext

/-- The completion of a write request. -/
def SessionAct.completesWrite : SessionAct → Bool
  | .writeCqe _ => true
  | _ => false

namespace Session

open WriteContext

/-- **What a step does to the array and the queue.** -/
inductive Batches (s : Session) (a : SessionAct) (s' : Session) : Prop
  | kept (same : SameBatch s.write s'.write)
  | sent {data w flushed} (sends : s.write.sendInLoop data = some (w, flushed))
      (same : SameBatch w s'.write)
  | completed {res w flushed} (cqe : a = .writeCqe res)
      (proceeds : (s.write.acknowledge res).proceed = some (w, flushed))
      (same : SameBatch w s'.write)
  | ended (frame : s.ctl.inWriteFatal = true ∨ ∃ res, a = .writeCqe res)
      (buffer : s'.write.outputBuffer = s.write.outputBuffer) (done : s'.write.isSending = false)

variable {s s' : Session} {a : SessionAct}

theorem WokeReader.sameBatch {t : Session} (h : WokeReader s t) : SameBatch s.write t.write := by
  cases h with
  | asleep => exact ⟨rfl, rfl, rfl⟩
  | woken => exact ⟨by simp, by simp, by simp⟩

theorem WokeWriter.sameBatch {t : Session} (h : WokeWriter s t) : SameBatch s.write t.write := by
  cases h with
  | asleep => exact ⟨rfl, rfl, rfl⟩
  | woken => exact ⟨by simp, by simp, by simp⟩

theorem recvAwaitResume_batch (s : Session) : SameBatch s.write s.recvAwaitResume.write := by
  rw [recvAwaitResume_eq]
  exact ⟨rfl, rfl, rfl⟩

theorem sendAwaitResume_batch (s : Session) : SameBatch s.write s.sendAwaitResume.write := by
  rw [sendAwaitResume_eq]
  exact ⟨rfl, rfl, rfl⟩

theorem awaitRead_batch (s : Session) : SameBatch s.write s.awaitRead.write := by
  rw [awaitRead_eq]
  exact ⟨rfl, rfl, rfl⟩

theorem Move.batches (h : Move s a s') : Batches s a s' := by
  cases h with
  | readMore idle out holder status woke =>
      exact .kept (SameBatch.trans ⟨rfl, rfl, rfl⟩ woke.sameBatch)
  | readStopped idle out holder fatal status woke =>
      exact .kept (SameBatch.trans ⟨rfl, rfl, rfl⟩ woke.sameBatch)
  | readAgain idle out holder fatal status woke =>
      rw [submitRead_eq] at woke
      exact .kept (SameBatch.trans ⟨rfl, rfl, rfl⟩ woke.sameBatch)
  | readFatal => exact .kept ⟨by simp [took], by simp [took], by simp [took]⟩
  | writeMore idle out holder fatal proceeds woke =>
      exact .completed rfl proceeds (SameBatch.trans ⟨rfl, rfl, rfl⟩ woke.sameBatch)
  | @writeFatal res => exact .ended (.inr ⟨res, rfl⟩) (by simp) (by simp)
  | @writeClose res => exact .ended (.inr ⟨res, rfl⟩) rfl rfl
  | @recvRegister fs => exact .kept (awaitRead_batch { s with functors := fs })
  | recvResume => exact .kept ⟨by simp, by simp, by simp⟩
  | sendRegister idle head alive sends => exact .sent sends ⟨rfl, rfl, rfl⟩
  | sendResume idle head alive sends =>
      exact .sent sends ⟨by simp [wrote], by simp [wrote], by simp [wrote]⟩
  | unwindWrite frame => exact .ended (.inl (by simp [frame, Ctl.inWriteFatal])) rfl rfl
  | recvReady => exact .kept (recvAwaitResume_batch s)
  | recvSuspend => exact .kept (awaitRead_batch s)
  | sendLate => exact .kept (sendAwaitResume_batch s)
  | @sendThrough data frame w flushed here ctl opened sends =>
      exact .sent sends (sendAwaitResume_batch (s.wrote w flushed))
  | sendSuspend here ctl opened sends => exact .sent sends ⟨rfl, rfl, rfl⟩
  | recvLate => exact .kept (recvAwaitResume_batch s)
  | sendLateWorker => exact .kept (sendAwaitResume_batch s)
  | _ => exact .kept ⟨rfl, rfl, rfl⟩

theorem Batches.pinned (h : Batches s a s') (hs : s.write.Pinned) : s'.write.Pinned := by
  cases h with
  | kept same => exact same.pinned hs
  | sent sends same => exact same.pinned (hs.sendInLoop sends)
  | @completed res w flushed cqe proceeds same =>
      exact same.pinned ((hs.queued.acknowledge res).proceed_pinned proceeds)
  | ended frame buffer done =>
      refine ⟨?_, fun h => absurd (done.symm.trans h) (by decide)⟩
      simpa only [Queued, buffer] using hs.queued

/-- The guard: the request that is out is not completed. -/
def Uncompleted (s : Session) (a : SessionAct) : Prop :=
  QuietInFatal s a ∧ a.completesWrite = false

instance (s : Session) (a : SessionAct) : Decidable (Uncompleted s a) :=
  inferInstanceAs (Decidable (_ ∧ _))

/-- **One step of a connection with a write request out.** -/
theorem Move.pinned_step (h : Move s a s') (hs : s.write.Pinned) (hp : s.WriteProtocol)
    (sending : s.write.isSending = true) (guard : Uncompleted s a) :
    s'.write.isSending = true ∧ s'.write.tempData = s.write.tempData ∧
      ∀ iov ∈ s.write.tempData,
        s'.write.outputBuffer.load iov = s.write.outputBuffer.load iov := by
  cases h.batches with
  | kept same =>
      exact ⟨same.sending.trans sending, same.iovecs, fun iov _ => by rw [same.buffer]⟩
  | @sent data w flushed sends same =>
      simp only [WriteContext.sendInLoop, sending, if_true, Option.some.injEq, Prod.mk.injEq]
        at sends
      obtain ⟨rfl, -⟩ := sends
      refine ⟨same.sending, same.iovecs, fun iov hiov => ?_⟩
      obtain ⟨p, hp, rfl⟩ := hs.iovecs sending iov hiov
      rw [same.buffer]
      exact (hs.queued.append_kept data hp).2.2
  | completed cqe => simp [Uncompleted, cqe, SessionAct.completesWrite] at guard
  | ended frame =>
      rcases frame with frame | ⟨res, rfl⟩
      · exact absurd sending (by simp [hp.fatal frame])
      · simp [Uncompleted, SessionAct.completesWrite] at guard

/-- **The kernel reads what was submitted.**  In every run in which the coroutine does not send from
inside the fatal branch of a write: while a write request waits for its SQE or is in the kernel, the
connection is held for it, and every entry of its array points at the unsent part of a fragment in
the queue.  Until the completion neither the array nor a byte it points at changes and no fragment
of it leaves the queue, whatever is sent or received and also when the connection is closed. -/
theorem iovecs_pinned {inputHwm inputHwmChunk outputHwm maxSlices : ℕ}
    (run : Reach step QuietInFatal (create inputHwm inputHwmChunk outputHwm maxSlices) s)
    (out : 0 < s.writes) :
    s.write.holder = true ∧
    (∀ iov ∈ s.write.tempData, ∃ p ∈ s.write.outputBuffer.nodes,
      iov = s.write.outputBuffer.iovecOf p) ∧
    ∀ s', Reach step Uncompleted s s' →
      0 < s'.writes ∧ s'.write.holder = true ∧ s'.write.tempData = s.write.tempData ∧
      ∀ iov ∈ s.write.tempData,
        (∃ p ∈ s'.write.outputBuffer.nodes, iov = s'.write.outputBuffer.iovecOf p) ∧
        s'.write.outputBuffer.load iov = s.write.outputBuffer.load iov := by
  have hsending : ∀ {t : Session}, t.WriteProtocol → 0 < t.writes → t.write.isSending = true := by
    intro t ht hout
    cases h : t.write.isSending with
    | true => rfl
    | false => simp [ht.writes_eq, h] at hout
  have hp : s.WriteProtocol := (reach_writeProtocol run).1
  have hs : s.write.Pinned := run.invariant (P := fun s => s.write.Pinned) (pinned_create _ _)
    fun _ _ _ h _ move => (step_move move).batches.pinned h
  have hheld : ∀ {t : Session}, t.WriteProtocol → t.write.isSending = true →
      t.write.holder = true := by
    intro t ht hsend
    rw [ht.holder_eq, hsend, Bool.true_or]
  refine ⟨hheld hp (hsending hp out), hs.iovecs (hsending hp out), fun s' later => ?_⟩
  have hlater := later.invariant (P := fun t => t.write.Pinned ∧ t.WriteProtocol ∧
      t.write.isSending = true ∧ t.write.tempData = s.write.tempData ∧
      ∀ iov ∈ s.write.tempData, t.write.outputBuffer.load iov = s.write.outputBuffer.load iov)
    ⟨hs, hp, hsending hp out, rfl, fun _ _ => rfl⟩ ?_
  · obtain ⟨hpinned, hprotocol, hsend, hiovecs, hbytes⟩ := hlater
    refine ⟨by simp [hprotocol.writes_eq, hsend], hheld hprotocol hsend, hiovecs, ?_⟩
    intro iov hiov
    exact ⟨hpinned.iovecs hsend iov (hiovecs ▸ hiov), hbytes iov hiov⟩
  · rintro t a t' ⟨hpinned, hprotocol, hsend, hiovecs, hbytes⟩ guard move
    have hmove := step_move move
    obtain ⟨hsend', hiovecs', hbytes'⟩ := hmove.pinned_step hpinned hprotocol hsend guard
    refine ⟨hmove.batches.pinned hpinned, hmove.writeProtocol guard.1 hprotocol, hsend',
      hiovecs'.trans hiovecs, fun iov hiov => ?_⟩
    exact (hbytes' iov (hiovecs ▸ hiov)).trans (hbytes iov hiov)

/-- Two strings are sent, and the connection is closed, while the request for the first is out. -/
theorem iovecs_pinned_closed :
    let run := exec (guarded step QuietInFatal) (create 64 8 1024 4)
      [.functor, .co .prepareToRead, .readCqe 1 [0] true, .co (.send [1, 2, 3])]
    let later := fun s => exec (guarded step Uncompleted) s
      [.co (.send [4]), .co .ret, .serverDestroy, .functor]
    (run.bind later).map (fun s => (s.closing, s.writes, s.write.outputBuffer.unsent))
        = some (true, 1, [1, 2, 3, 4]) ∧
      ∀ s ∈ run, ∀ s' ∈ later s, s'.write.tempData = s.write.tempData ∧
        s'.write.holder = true := by
  intro run later
  refine ⟨by decide +kernel, fun s hs s' hs' => ?_⟩
  have hout : run.all (fun s => decide (0 < s.writes)) = true := by decide +kernel
  rw [Option.mem_def.mp hs] at hout
  obtain ⟨-, -, hlater⟩ := iovecs_pinned (reach_of_exec hs) (of_decide_eq_true hout)
  obtain ⟨-, hholder, hiovecs, -⟩ := hlater s' (reach_of_exec hs')
  exact ⟨hiovecs, hholder⟩

end Session

end Proactor
