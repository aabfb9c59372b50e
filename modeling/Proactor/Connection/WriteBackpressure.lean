import Proactor.Connection.Wakeup

/-!
# Backpressure on the write side

A coroutine that sends while the output queue is above its high water mark is suspended in `send`
until completions have brought the queue down again.  Three paths do this: `await_ready` on the loop
thread, the functor that the awaiter queues from a pool thread, and the end of a write completion,
which resumes.

What they have in common is the invariant `SendBound`: above the mark the one coroutine of the
connection is suspended in `send`, and no send of its own is still on the way to the loop.  So
nothing is ever appended above the mark, and the queue holds at most the mark and one more string.

The fatal branch of a write completion resumes the coroutine above the mark, so all this is about
runs up to the first fatal write completion.
-/

namespace Proactor

open Transition

namespace Session

variable {s s' t : Session} {a : SessionAct} {hwm len : ℕ}

/-- Every string sent has at most `len` bytes, and no write completion is fatal. -/
def SendsUpTo (len : ℕ) (_ : Session) : SessionAct → Prop
  | .co (.send data) => data.length ≤ len
  | .writeCqe res => ¬ WriteContext.Fatal res
  | _ => True

/-- `output_buffer_.getTotalLen()` -/
def queued (s : Session) : ℕ := s.write.outputBuffer.totalLen

/-- **The invariant of the output queue.** -/
structure SendBound (hwm len : ℕ) (s : Session) : Prop where
  mark : s.write.highWaterMark = hwm
  bound : s.queued ≤ hwm + len
  waits : hwm < s.queued → s.co = .inSend ∧ s.awaits = 0
  /-- A string that a pool thread is about to queue. -/
  leaving : ∀ data, s.co = .suspending (.send data) → data.length ≤ len
  /-- A string in a functor. -/
  functors : ∀ data, .await (.send data) ∈ s.functors → data.length ≤ len

/-- A coroutine that is not suspended in `send` finds the queue below the mark. -/
theorem SendBound.low (h : SendBound hwm len s) (hco : s.co ≠ .inSend) : s.queued ≤ hwm := by
  by_contra hover
  exact hco (h.waits (Nat.lt_of_not_le hover)).1

/-- A send that is still on the way to the loop will find the queue below the mark. -/
theorem SendBound.low_of_await (h : SendBound hwm len s) {w : Awaiter} {fs : List QueuedFunctor}
    (head : s.functors = .await w :: fs) : s.queued ≤ hwm := by
  by_contra hover
  have hnone := (h.waits (Nat.lt_of_not_le hover)).2
  exact awaits_eq_zero.mp hnone w (by simp [head])

/-- A state with the queue below the mark. -/
theorem SendBound.of_low (hmark : t.write.highWaterMark = hwm) (hlow : t.queued ≤ hwm)
    (hleaving : ∀ data, t.co = .suspending (.send data) → data.length ≤ len)
    (hfunctors : ∀ data, .await (.send data) ∈ t.functors → data.length ≤ len) :
    SendBound hwm len t :=
  ⟨hmark, by omega, by omega, hleaving, hfunctors⟩

/-- A step that leaves the coroutine and its functors alone and does not add to the queue. -/
theorem SendBound.keep (h : SendBound hwm len s) (fs : List QueuedFunctor)
    (hfs : t.functors = s.functors ++ fs) (hquiet : fs.countP QueuedFunctor.isAwait = 0 := by rfl)
    (hmark : t.write.highWaterMark = s.write.highWaterMark := by rfl)
    (hlen : t.queued ≤ s.queued := by exact Nat.le_refl _) (hco : t.co = s.co := by rfl) :
    SendBound hwm len t where
  mark := hmark.trans h.mark
  bound := Nat.le_trans hlen h.bound
  waits := by
    intro hover
    obtain ⟨hin, hnone⟩ := h.waits (by omega)
    refine ⟨hco.trans hin, ?_⟩
    rw [awaits, hfs, List.countP_append, hquiet]
    exact hnone
  leaving := fun data hdata => h.leaving data (hco ▸ hdata)
  functors := by
    intro data hdata
    rw [hfs, List.mem_append] at hdata
    refine h.functors data (hdata.resolve_right ?_)
    intro hmem
    exact (List.countP_eq_zero.mp hquiet _ hmem) rfl

/-- The loop takes a functor that is not of an awaiter. -/
theorem SendBound.tail (h : SendBound hwm len s) {f : QueuedFunctor} {fs : List QueuedFunctor}
    (head : s.functors = f :: fs) (hf : f.isAwait = false) :
    SendBound hwm len { s with functors := fs } where
  mark := h.mark
  bound := h.bound
  waits := by
    intro hover
    obtain ⟨hin, hnone⟩ := h.waits hover
    refine ⟨hin, ?_⟩
    simpa [awaits, head, List.countP_cons, hf] using hnone
  leaving := h.leaving
  functors := fun data hdata => h.functors data (by simp [head, hdata])

/-- A step that moves a coroutine that is not suspended in `send`. -/
theorem SendBound.moved (h : SendBound hwm len s) (elsewhere : s.co ≠ .inSend)
    (hleaving : ∀ data, t.co = .suspending (.send data) → data.length ≤ len)
    (hfunctors : ∀ w, .await w ∈ t.functors → .await w ∈ s.functors := by exact fun _ hw => hw)
    (hmark : t.write.highWaterMark = s.write.highWaterMark := by rfl)
    (hlen : t.queued = s.queued := by rfl) : SendBound hwm len t :=
  .of_low (hmark.trans h.mark) (hlen ▸ h.low elsewhere) hleaving fun data hdata =>
    h.functors data (hfunctors _ hdata)

theorem await_not_mem_notice (w : Awaiter) (late : Bool) : .await w ∉ notice late := by
  cases late <;> simp [notice]

/-- The coroutine is resumed with the queue below the mark. -/
theorem SendBound.woken (h : SendBound hwm len s) (hlow : s.queued ≤ hwm) (frame : Frame) :
    SendBound hwm len (s.woken frame) := by
  refine .of_low ?_ ?_ ?_ ?_
  · rw [woken_write]
    exact h.mark
  · rw [queued, woken_write]
    exact hlow
  · simp
  · intro data hdata
    rw [woken_functors, List.mem_append] at hdata
    exact h.functors data (hdata.resolve_right (await_not_mem_notice _ _))

theorem WokeReader.sendBound (h : WokeReader s t) (hb : SendBound hwm len s)
    (elsewhere : s.task = true → s.read.readHandle = true → s.co ≠ .inSend) :
    SendBound hwm len t := by
  cases h with
  | asleep => exact hb
  | woken handle alive =>
      have hkeep : SendBound hwm len { s with read := { s.read with readHandle := false } } :=
        hb.keep [] (by simp)
      exact hkeep.woken (hb.low (elsewhere alive handle)) .tail

/-- `overLoad` compares the queue with the mark. -/
theorem SendBound.low_of_overLoad (hmark : t.write.highWaterMark = hwm)
    (h : t.write.overLoad = false) : t.queued ≤ hwm := by
  have := of_decide_eq_false h
  rw [queued]
  omega

theorem WokeWriter.sendBound (h : WokeWriter s t) (hb : SendBound hwm len s) :
    SendBound hwm len t := by
  cases h with
  | asleep => exact hb
  | woken handle drained alive =>
      have hkeep : SendBound hwm len { s with write := { s.write with writeHandle := false } } :=
        hb.keep [] (by simp)
      exact hkeep.woken (SendBound.low_of_overLoad hb.mark drained) .tail

/-- A handle in the read context belongs to a coroutine that waits to read. -/
theorem Awaited.reader_elsewhere (hs : s.Awaited) (idle : s.ctl = .idle) (alive : s.task = true)
    (handle : s.read.readHandle = true) : s.co ≠ .inSend := by
  have hco := (hs.handles.reader (by simp [idle, Ctl.inReadFatal]) alive handle).1
  simp [hco]

/-- A string appended below the mark: the queue stays below it, or the coroutine waits in `send` and
nothing else of it is on the way. -/
theorem SendBound.appended (hb : SendBound hwm len s) (hlow : s.queued ≤ hwm)
    {data : List UInt8} {w : WriteContext} {flushed : Bool} (hdata : data.length ≤ len)
    (sends : s.write.sendInLoop data = some (w, flushed))
    (hqueued : t.queued = w.outputBuffer.totalLen)
    (hmark' : t.write.highWaterMark = w.highWaterMark)
    (hwaits : w.overLoad = true → t.co = .inSend ∧ t.awaits = 0)
    (hleaving : ∀ data, t.co ≠ .suspending (.send data))
    (hfunctors : ∀ w, .await w ∈ t.functors → .await w ∈ s.functors) :
    SendBound hwm len t := by
  obtain ⟨htotal, hwmark⟩ := WriteContext.sendInLoop_totalLen sends
  rw [queued] at hlow
  have hmark := hb.mark
  refine ⟨hmark'.trans (hwmark.trans hmark), by omega, ?_, fun data h => absurd h (hleaving data),
    fun data hdata => hb.functors data (hfunctors _ hdata)⟩
  intro hover
  refine hwaits (decide_eq_true ?_)
  omega

theorem Move.sendBound (h : Move s a s') (ok : SendsUpTo len s a) (hs : s.Awaited)
    (hb : SendBound hwm len s) : SendBound hwm len s' := by
  cases h with
  | readMore idle out holder status woke =>
      refine woke.sendBound (hb.keep [] (by simp [took])) ?_
      intro alive handle
      exact hs.reader_elsewhere idle alive (by simpa [took] using handle)
  | readStopped idle out holder fatal status woke =>
      refine woke.sendBound (hb.keep [] (by simp [took, endRead])) ?_
      intro alive handle
      exact hs.reader_elsewhere idle alive (by simpa [took, endRead] using handle)
  | readAgain idle out holder fatal status woke =>
      rw [submitRead_eq] at woke
      refine woke.sendBound (hb.keep [] (by simp [took])) ?_
      intro alive handle
      exact hs.reader_elsewhere idle alive (by simpa [took] using handle)
  | readFatal idle out holder status fatal handle alive =>
      refine SendBound.woken (hb.keep [] (by simp [took])) ?_ _
      exact hb.low (hs.reader_elsewhere idle alive handle)
  | writeMore idle out holder fatal proceeds woke =>
      have hack := hs.writer.queued.acknowledge_totalLen fatal
      obtain ⟨hlen, hmark⟩ := WriteContext.proceed_totalLen proceeds
      refine woke.sendBound (hb.keep [] (by simp [wrote]) rfl ?_ ?_)
      · exact hmark.trans (s.write.acknowledge_frame _).2.2.2
      · exact Nat.le_trans (Nat.le_of_eq (hlen.trans hack)) (Nat.sub_le _ _)
  | writeFatal idle out holder fatal => exact absurd fatal ok
  | writeClose idle out holder fatal => exact absurd fatal ok
  | established idle head =>
      have hco := hs.born.unborn head
      exact hb.moved (by simp [hco]) (by simp) (by simp +contextual [head])
  | recvRegister idle head alive empty =>
      obtain ⟨hco, -, -⟩ := hs.placed.head_free head
      rw [awaitRead_eq]
      exact hb.moved (by simp [hco, parked]) (by simp [hco, parked]) (by simp +contextual [head])
  | @recvResume fs idle head alive empty =>
      obtain ⟨hco, -, -⟩ := hs.placed.head_free head
      have htail : SendBound hwm len { s with functors := fs } :=
        hb.moved (by simp [hco, parked]) (by simp [hco, parked]) (by simp +contextual [head])
      exact htail.woken (hb.low_of_await head) _
  | @sendRegister data fs w flushed idle head alive sends load =>
      obtain ⟨hco, -, hnone⟩ := hs.placed.head_free head
      exact hb.appended (hb.low_of_await head) (hb.functors data (by simp [head])) sends rfl rfl
        (fun _ => ⟨hco, hnone⟩) (by simp [wrote, hco, parked]) (by simp +contextual [wrote, head])
  | @sendResume data fs w flushed idle head alive sends load =>
      obtain ⟨hco, -, hnone⟩ := hs.placed.head_free head
      have happ : SendBound hwm len ({ s with functors := fs }.wrote w flushed) :=
        hb.appended (hb.low_of_await head) (hb.functors data (by simp [head])) sends rfl rfl
          (fun _ => ⟨hco, hnone⟩) (by simp [wrote, hco, parked]) (by simp +contextual [wrote, head])
      exact happ.woken (SendBound.low_of_overLoad happ.mark load) _
  | destroyed idle head stopped =>
      exact (hb.tail head rfl).keep [] (by simp [shut])
  | recvReady here ctl =>
      rw [recvAwaitResume_eq]
      exact hb.keep _ rfl (by simp)
  | recvSuspend here ctl opened empty =>
      rw [awaitRead_eq]
      exact hb.moved (by simp [here]) (by simp)
  | sendLate here ctl closed =>
      rw [sendAwaitResume_eq]
      exact hb.keep _ rfl (by simp)
  | @sendThrough data frame w flushed here ctl opened sends load =>
      have happ : SendBound hwm len (s.wrote w flushed) :=
        hb.appended (hb.low (by simp [here])) ok sends rfl rfl
          (fun hover => absurd (load.symm.trans hover) (by decide)) (by simp [wrote, here])
          fun _ hw => hw
      rw [sendAwaitResume_eq]
      exact happ.keep _ rfl (by simp)
  | @sendSuspend data frame w flushed here ctl opened sends load =>
      obtain ⟨-, hnone⟩ := hs.placed.running_free (by simp [here, running])
      exact hb.appended (hb.low (by simp [here])) ok sends rfl rfl (fun _ => ⟨rfl, hnone⟩) (by simp)
        fun _ hw => hw
  | switchLoop here ctl => exact hb.moved (by simp [here]) (by simp)
  | retLoop here ctl => exact hb.moved (by simp [here]) (by simp)
  | recvLate here closed =>
      rw [recvAwaitResume_eq]
      exact hb.keep _ rfl (by simp)
  | sendLateWorker here closed =>
      rw [sendAwaitResume_eq]
      exact hb.keep _ rfl (by simp)
  | recvLeave here opened => exact hb.moved (by simp [here]) (by simp)
  | @sendLeave data here opened =>
      refine hb.moved (by simp [here]) ?_
      intro data' hdata
      obtain rfl : data = data' := by simpa using hdata
      exact ok
  | switchWorker here => exact hb.moved (by simp [here]) (by simp)
  | retWorker here => exact hb.moved (by simp [here]) (by simp)
  | @enqueue w here =>
      refine .of_low hb.mark (hb.low (by simp [here])) (by cases w <;> simp [parked]) ?_
      intro data hdata
      rcases List.mem_append.mp hdata with hmem | hmem
      · exact hb.functors data hmem
      · obtain rfl : Awaiter.send data = w := by simpa using hmem
        exact hb.leaving data here
  | poolTake queued alive here => exact hb.moved (by simp [here]) (by simp)
  | serverDestroy entry => exact hb.keep [.destroyed] rfl
  | _ => exact hb.keep [] (by simp [took, shut, endRead, endWrite, prepareRead, prepareWrite])

theorem sendBound_of_reach {inputHwm inputHwmChunk outputHwm maxSlices : ℕ}
    (run : Reach step (SendsUpTo len) (create inputHwm inputHwmChunk outputHwm maxSlices) s) :
    s.Awaited ∧ SendBound outputHwm len s := by
  refine run.invariant (P := fun s => s.Awaited ∧ SendBound outputHwm len s) ?_ ?_
  · exact ⟨awaited_create _ _ _ _,
      .of_low rfl (Nat.zero_le _) (by simp [create, start]) (by simp [create, start])⟩
  · rintro s a s' ⟨hs, hb⟩ ok hstep
    exact ⟨(step_move hstep).awaited hs, (step_move hstep).sendBound ok hs hb⟩

/-- **Output backpressure.**  In every run up to the first fatal write completion, with any mark, if
no string sent is longer than `len` then the output queue never holds more than the mark and `len`
bytes; and a step that resumes the coroutine from `send` does so with the queue below the mark. -/
theorem write_backpressure {inputHwm inputHwmChunk outputHwm maxSlices : ℕ}
    (run : Reach step (SendsUpTo len) (create inputHwm inputHwmChunk outputHwm maxSlices) s) :
    s.queued ≤ outputHwm + len ∧
      ∀ a s', SendsUpTo len s a → s.step a = some s' → s.co = .inSend → s'.co ≠ .inSend →
        s'.queued ≤ outputHwm := by
  refine ⟨(sendBound_of_reach run).2.bound, ?_⟩
  intro a s' ok hstep _ hresumed
  exact (sendBound_of_reach (.next run ok hstep)).2.low hresumed

instance (len : ℕ) (s : Session) : (a : SessionAct) → Decidable (SendsUpTo len s a)
  | .co (.send data) => inferInstanceAs (Decidable (data.length ≤ len))
  | .writeCqe res => inferInstanceAs (Decidable (¬ WriteContext.Fatal res))
  | .readCqe .. | .functor | .drain | .unwind | .co .prepareToRead | .co .switchThread
  | .co (.read _) | .co .ret | .enqueue | .poolTake | .serverDestroy | .removeConnection
  | .pressure _ | .readRace => inferInstanceAs (Decidable True)

/-- Two bytes reach a mark of two without passing it, five more pass it and the coroutine waits; it
is resumed when a short write has brought the queue down to the mark. -/
theorem write_backpressure_resumed :
    ∃ s s', Reach step (SendsUpTo 5) (create 2 16 2 256) s ∧ s.co = .inSend ∧
      s.queued ≤ 2 + 5 ∧ s.step (.writeCqe 3) = some s' ∧ s'.co = .onLoop ∧ s'.queued ≤ 2 := by
  obtain ⟨s, run, h⟩ := exists_reach step (SendsUpTo 5) (create 2 16 2 256)
    [.functor, .co (.send [1, 2]), .co (.send [3, 4, 5, 6, 7]), .writeCqe 2]
    (fun s => decide (s.co = .inSend) &&
      (s.step (.writeCqe 3)).any fun s' : Session => decide (s'.co = .onLoop))
    (by decide +kernel)
  simp only [Bool.and_eq_true, decide_eq_true_eq, Option.any_eq_true] at h
  obtain ⟨hco, s', hstep, hresumed⟩ := h
  obtain ⟨hbound, hresume⟩ := write_backpressure run
  exact ⟨s, s', run, hco, hbound, hstep, hresumed,
    hresume (.writeCqe 3) s' (by decide : ¬ WriteContext.Fatal 3) hstep hco (by simp [hresumed])⟩

end Session

end Proactor
