import Proactor.Connection.OpenRun
import Proactor.Connection.ReadBackpressure

/-!
# What the coroutine has read when the connection closes

The peer sends its data and closes: the last receive completes with 0.  `handleError` treats this
like an error, and the awaiters look at `is_error_` and `closing_` before they look at the buffer:
`PrepareToRead` reports the close at once, whatever is still buffered, and a coroutine that waits in
`send` is destroyed with the connection.  So the coroutine need not have read everything.

A `Delivery` is a connection with two logs: the payloads that have come in, and the bytes that the
coroutine has read.

* `Inv.stream` — what was read and what is still buffered are together what was received.
* `Inv.waiting` — a coroutine that waits in `PrepareToRead` has read everything.
* `delivery_at_close` — so what is missing when the coroutine is told of the close, or is destroyed,
  is what is in the buffer, and nothing is if it was waiting to read.

Nothing guards the buffer against a read on a pool thread, and `PrepareToRead` returns an `int`.  So
the result is about coroutines that may go to other threads but read on the loop thread
(`Session.LoopReads`), and about buffers of less than `2 ^ 31` bytes (`Session.FitsInt`), where a
negative result is news of the connection and not of a length.
-/

namespace Proactor

open Transition

structure Delivery where
  conn : Session
  /-- The payloads of the read completions, in their order. -/
  received : List (List UInt8)
  /-- What `read` has given to the coroutine. -/
  delivered : List UInt8

namespace Delivery

def create (inputHwm inputHwmChunk outputHwm maxSlices : ℕ) : Delivery where
  conn := .create inputHwm inputHwmChunk outputHwm maxSlices
  received := []
  delivered := []

/-- The logs after a step. -/
def record (d : Delivery) (conn : Session) : SessionAct → Delivery
  | .readCqe _ data _ => { d with conn := conn, received := d.received ++ [data] }
  | .co (.read size) =>
      { d with conn := conn, delivered := d.delivered ++ (d.conn.read.removeAsString size).1 }
  | _ => { d with conn := conn }

def step (d : Delivery) (a : SessionAct) : Option Delivery :=
  (d.conn.step a).map fun conn => d.record conn a

/-- The step gives the coroutine its first negative result from `PrepareToRead`, or it destroys the
coroutine. -/
def Ends (d d' : Delivery) : Prop :=
  (0 ≤ d.conn.recvResult ∧ d'.conn.recvResult < 0) ∨ (d.conn.task = true ∧ d'.conn.task = false)

@[simp] theorem record_conn (d : Delivery) (conn : Session) (a : SessionAct) :
    (d.record conn a).conn = conn := by
  cases a with
  | co act => cases act <;> rfl
  | _ => rfl

theorem step_conn {d d' : Delivery} {a : SessionAct} (h : d.step a = some d') :
    d.conn.step a = some d'.conn ∧ d' = d.record d'.conn a := by
  simp only [step, Option.map_eq_some_iff] at h
  obtain ⟨conn, hconn, rfl⟩ := h
  rw [record_conn]
  exact ⟨hconn, rfl⟩

end Delivery

namespace Session

variable {s s' : Session} {a : SessionAct}

/-- A read completion that does not end in a fault appends its payload to the unread bytes. -/
theorem Move.readCqe_unread {res : ℤ} {data : List UInt8} {more : Bool}
    (h : Move s (.readCqe res data more) s') (hlen : data.length = res.toNat)
    (alive : s'.fault = none) : s'.unread = s.unread ++ data := by
  have htook : (s.took res data more).unread = s.unread ++ data := took_unread hlen
  rw [unread] at htook ⊢
  cases h with
  | abort fails => simp at alive
  | readMore idle out holder status woke => rw [woke.sameReads.buffer, htook]
  | readStopped idle out holder fatal status woke => exact woke.sameReads.buffer ▸ htook
  | readAgain idle out holder fatal status woke =>
      rw [submitRead_eq] at woke
      exact woke.sameReads.buffer ▸ htook
  | readFatal => rw [woken_read, htook]
  | readClose => exact htook

/-- `read` takes bytes from the front of the unread ones. -/
theorem Move.read_unread {size : ℕ} (h : Move s (.co (.read size)) s') (alive : s'.fault = none) :
    s'.unread = s.unread.drop size := by
  cases h with
  | abort fails => simp at alive
  | read => rw [unread, ReadContext.removeAsString, Chunked.flatten_dropFlat, ← unread]

/-- Only read completions and `read` change the unread bytes. -/
theorem ReadEffect.unread (h : ReadEffect s a s')
    (hcqe : ∀ res data more, a ≠ .readCqe res data more) (hread : ∀ size, a ≠ .co (.read size)) :
    s'.unread = s.unread := by
  rw [Session.unread, Session.unread]
  cases h with
  | kept same => rw [same.buffer]
  | consumed same => exact absurd rfl (hread _)
  | awaited prepares empty same => rw [same.buffer, awaitRead_eq]
  | drained head same => rw [same.buffer]; rfl
  | took => exact absurd rfl (hcqe _ _ _)
  | ended => exact absurd rfl (hcqe _ _ _)
  | again => exact absurd rfl (hcqe _ _ _)
  | unwound frame same => rw [same.buffer]; rfl

/-- **The unread bytes stay below the limit of an `int`.** -/
theorem Move.unread_fits (h : Move s a s')
    (hlen : ∀ res data more, a = .readCqe res data more → data.length = res.toNat)
    (alive : s'.fault = none) (fits : s.FitsInt a) (before : s.unread.length < 2 ^ 31) :
    s'.unread.length < 2 ^ 31 := by
  by_cases hcqe : ∃ res data more, a = .readCqe res data more
  · obtain ⟨res, data, more, rfl⟩ := hcqe
    rw [h.readCqe_unread (hlen _ _ _ rfl) alive, List.length_append]
    exact fits
  by_cases hread : ∃ size, a = .co (.read size)
  · obtain ⟨size, rfl⟩ := hread
    rw [h.read_unread alive, List.length_drop]
    omega
  · rwa [h.readEffect.unread (fun res data more h => hcqe ⟨res, data, more, h⟩)
      fun size h => hread ⟨size, h⟩]

/-- A step leaves what `PrepareToRead` has returned, or it ends one. -/
theorem Move.recvResult (h : Move s a s') : s'.recvResult = s.recvResult ∨
    s'.recvResult = if s'.read.isError || s'.closing then -1 else toInt s'.unread.length := by
  have hwoken : ∀ (t : Session) (frame : Frame), t.recvResult = s.recvResult →
      (t.woken frame).recvResult = s.recvResult ∨ (t.woken frame).recvResult =
        if (t.woken frame).read.isError || (t.woken frame).closing then -1
        else toInt (t.woken frame).unread.length := by
    intro t frame hsame
    by_cases hco : t.co = .inSend
    · exact .inl (by rw [woken_eq, ← hsame]; exact if_pos hco)
    · exact .inr (by rw [woken_eq]; exact if_neg hco)
  cases h with
  | readMore _ _ _ _ woke | readStopped _ _ _ _ _ woke =>
      cases woke with
      | asleep => exact .inl rfl
      | woken => exact hwoken _ _ rfl
  | readAgain _ _ _ _ _ woke =>
      rw [submitRead_eq] at woke
      cases woke with
      | asleep => exact .inl rfl
      | woken => exact hwoken _ _ rfl
  | writeMore _ _ _ _ _ woke =>
      cases woke with
      | asleep => exact .inl rfl
      | woken => exact hwoken _ _ rfl
  | readFatal | writeFatal | recvResume | sendResume => exact hwoken _ _ rfl
  | recvReady | recvLate =>
      rw [recvAwaitResume_eq]
      exact .inr rfl
  | sendLate | sendThrough | sendLateWorker =>
      rw [sendAwaitResume_eq]
      exact .inl rfl
  | recvRegister | recvSuspend =>
      rw [awaitRead_eq]
      exact .inl rfl
  | _ => exact .inl rfl

/-- **A negative result is no length.** -/
theorem Move.recv_negative (h : Move s a s') (fits : s'.unread.length < 2 ^ 31)
    (before : 0 ≤ s.recvResult) (negative : s'.recvResult < 0) :
    s'.read.isError = true ∨ s'.closing = true := by
  rcases h.recvResult with hsame | hresult
  · omega
  · rw [toInt_of_lt fits] at hresult
    by_contra hopen
    rw [if_neg (by simpa using hopen)] at hresult
    omega

/-! ## A waiting reader has read everything -/

/-- `read_handle_` is set only while there is nothing to read. -/
def ReaderDrained (s : Session) : Prop := s.read.readHandle = true → s.unread = []

theorem ReaderDrained.keep (hs : s.ReaderDrained)
    (hhandle : s'.read.readHandle = true → s.read.readHandle = true := by exact id)
    (hunread : s'.unread = s.unread := by rfl) : s'.ReaderDrained :=
  fun h => hunread.trans (hs (hhandle h))

theorem ReaderDrained.woken (hs : s.ReaderDrained) (frame : Frame) :
    (s.woken frame).ReaderDrained :=
  hs.keep (by simp) (by simp [unread])

/-- The end of a read completion takes the handle out of the context. -/
theorem WokeReader.readHandle (h : WokeReader s s') : s'.read.readHandle = false := by
  cases h with
  | asleep handle => exact handle
  | woken => simp

theorem WokeWriter.readerDrained (h : WokeWriter s s') (hs : s.ReaderDrained) :
    s'.ReaderDrained := by
  cases h with
  | asleep => exact hs
  | woken => exact ReaderDrained.woken hs.keep _

theorem unread_of_isEmpty (h : s.read.isEmpty = true) : s.unread = [] :=
  List.eq_nil_of_length_eq_zero (of_decide_eq_true h)

theorem ReaderDrained.of_empty (hempty : s'.unread = []) : s'.ReaderDrained := fun _ => hempty

theorem Move.readerDrained (h : Move s a s')
    (hlen : ∀ res data more, a = .readCqe res data more → data.length = res.toNat)
    (hs : s.ReaderDrained) : s'.ReaderDrained := by
  cases h with
  | readMore idle out holder status woke => simp [ReaderDrained, woke.readHandle]
  | readStopped idle out holder fatal status woke => simp [ReaderDrained, woke.readHandle]
  | readAgain idle out holder fatal status woke => simp [ReaderDrained, woke.readHandle]
  | @readFatal res data idle out holder status fatal =>
      -- a fatal result has no payload
      have hnil : data = [] := by
        rw [← List.length_eq_zero_iff, hlen _ _ _ rfl]
        exact Int.toNat_of_nonpos fatal.1
      refine ReaderDrained.woken (hs.keep (by simp [took]) ?_) _
      rw [took_unread (hlen _ _ _ rfl), hnil, List.append_nil]
  | readClose idle out holder status fatal handle =>
      simp [ReaderDrained, took, shut, endRead, handle]
  | writeMore idle out holder fatal proceeds woke => exact woke.readerDrained hs.keep
  | writeFatal => exact ReaderDrained.woken hs.keep _
  | writeClose => exact hs.keep (by simp +contextual [shut, endWrite])
  | recvRegister idle head alive empty =>
      refine .of_empty ?_
      rw [awaitRead_eq]
      exact unread_of_isEmpty empty
  | recvResume => exact ReaderDrained.woken hs.keep _
  | sendResume => exact ReaderDrained.woken hs.keep _
  | destroyed => exact hs.keep (by simp +contextual [shut])
  | unwindRead => exact hs.keep (by simp +contextual [shut, endRead])
  | unwindWrite => exact hs.keep (by simp +contextual [shut, endWrite])
  | recvReady =>
      rw [recvAwaitResume_eq]
      exact hs.keep
  | recvLate =>
      rw [recvAwaitResume_eq]
      exact hs.keep
  | recvSuspend here ctl opened empty =>
      refine .of_empty ?_
      rw [awaitRead_eq]
      exact unread_of_isEmpty empty
  | sendLate =>
      rw [sendAwaitResume_eq]
      exact hs.keep
  | sendLateWorker =>
      rw [sendAwaitResume_eq]
      exact hs.keep
  | sendThrough =>
      rw [sendAwaitResume_eq]
      exact hs.keep
  | @read size =>
      intro handle
      have hnil : s.read.inputBuffer.flatten = [] := hs handle
      simp [unread, ReadContext.removeAsString, Chunked.flatten_dropFlat, hnil]
  | _ => exact hs.keep

/-- An orderly close that finds the coroutine waiting in `PrepareToRead` resumes it with -1, and
there is nothing left to read. -/
theorem Move.close_waiting {data : List UInt8} (h : Move s (.readCqe 0 data false) s')
    (hlen : data.length = (0 : ℤ).toNat) (alive : s'.fault = none) (hl : s.Located)
    (hs : s.ReaderDrained) (handle : s.read.readHandle = true) :
    s'.recvResult = -1 ∧ s'.co = .onLoop ∧ s'.unread = [] := by
  have hfatal : ReadContext.Fatal 0 := by decide
  have hunread := h.readCqe_unread hlen alive
  rw [hs handle, List.eq_nil_of_length_eq_zero hlen] at hunread
  cases h with
  | abort fails => simp at alive
  | readStopped idle out holder fatal => exact absurd hfatal fatal
  | readAgain idle out holder fatal => exact absurd hfatal fatal
  | readFatal idle out holder status fatal handle task =>
      have hco := (hl.handles.reader (by simp [idle, Ctl.inReadFatal]) task handle).1
      refine ⟨?_, by simp, hunread⟩
      have herror := (s.took_frame 0 data false).2.2.2
      rw [woken_eq]
      simp [took, hco] at herror ⊢
      simp [herror, hfatal]
  | readClose idle out holder status fatal hnone =>
      exact absurd (hnone.symm.trans handle) (by decide)

end Session

namespace Delivery

variable {d d' : Delivery} {a : SessionAct}

/-! ## The invariant -/

/-- The coroutine reads on the loop thread, and what is buffered fits in an `int`. -/
def Plain (d : Delivery) (a : SessionAct) : Prop := d.conn.LoopReads a ∧ d.conn.FitsInt a

instance (d : Delivery) (a : SessionAct) : Decidable (Plain d a) :=
  inferInstanceAs (Decidable (_ ∧ _))

/-- **What every such run keeps**, until a fault. -/
structure Inv (d : Delivery) : Prop where
  stream : d.conn.fault = none → d.delivered ++ d.conn.unread = d.received.flatten
  waiting : d.conn.ReaderDrained
  located : d.conn.Located
  fits : d.conn.fault = none → d.conn.unread.length < 2 ^ 31

theorem Inv.step (h : Inv d) (plain : Plain d a) (hstep : d.step a = some d') : Inv d' := by
  obtain ⟨hconn, hd'⟩ := step_conn hstep
  have hmove := Session.step_move hconn
  have hlen : ∀ res data more, a = .readCqe res data more → data.length = res.toNat := by
    rintro res data more rfl
    exact (Session.step_readCqe hconn).2.2
  refine ⟨?_, hmove.readerDrained hlen h.waiting, hmove.located h.located, fun alive =>
    hmove.unread_fits hlen alive plain.2 (h.fits (Session.step_sound hconn))⟩
  intro alive
  have hstream := h.stream (Session.step_sound hconn)
  by_cases hcqe : ∃ res data more, a = .readCqe res data more
  · obtain ⟨res, data, more, rfl⟩ := hcqe
    rw [hd', record_conn, record, hmove.readCqe_unread (hlen _ _ _ rfl) alive]
    simp only [List.flatten_append, List.flatten_singleton, ← hstream, List.append_assoc]
  by_cases hread : ∃ size, a = .co (.read size)
  · obtain ⟨size, rfl⟩ := hread
    rw [hd', record_conn, record, hmove.read_unread alive, ← hstream]
    simp only [Session.unread, ReadContext.removeAsString, List.append_assoc,
      List.take_append_drop]
  · have hsame : d'.conn.unread = d.conn.unread :=
      hmove.readEffect.unread (fun res data more h => hcqe ⟨res, data, more, h⟩)
        fun size h => hread ⟨size, h⟩
    have hlogs : d'.delivered = d.delivered ∧ d'.received = d.received := by
      rw [hd']
      cases a with
      | readCqe res data more => exact absurd ⟨res, data, more, rfl⟩ hcqe
      | co act =>
          cases act with
          | read size => exact absurd ⟨size, rfl⟩ hread
          | _ => exact ⟨rfl, rfl⟩
      | _ => exact ⟨rfl, rfl⟩
    rw [hsame, hlogs.1, hlogs.2]
    exact hstream

theorem inv_of_reach {inputHwm inputHwmChunk outputHwm maxSlices : ℕ}
    (run : Reach step Plain (create inputHwm inputHwmChunk outputHwm maxSlices) d) : Inv d := by
  refine run.invariant ⟨fun _ => rfl, ?_, Session.located_create _ _ _ _, fun _ => ?_⟩
    fun _ _ _ h plain hstep => h.step plain hstep
  · simp [Session.ReaderDrained, create, Session.create, Session.start, ReadContext.create]
  · simp [Session.unread, create, Session.create, Session.start, ReadContext.create]

/-- **What the coroutine has read when it learns of the close.**  In every run in which the
coroutine reads on the loop thread and less than `2 ^ 31` bytes are buffered: when the coroutine
gets its first negative result from `PrepareToRead` or is destroyed, the bytes it has read and those
still in the input buffer are the received payloads; so it has read all of them exactly if the
buffer is empty.  It has if the orderly close finds it waiting in `PrepareToRead`, and then the
close is what it is resumed with.  A negative result comes only from a failed read side or a closing
connection. -/
theorem delivery_at_close {inputHwm inputHwmChunk outputHwm maxSlices : ℕ}
    (run : Reach step Plain (create inputHwm inputHwmChunk outputHwm maxSlices) d)
    (plain : Plain d a) (hstep : d.step a = some d') (alive : d'.conn.fault = none) :
    (Ends d d' →
        d'.delivered ++ d'.conn.unread = d'.received.flatten ∧
        (d'.delivered = d'.received.flatten ↔ d'.conn.unread = [])) ∧
      (∀ data, a = .readCqe 0 data false → d.conn.read.readHandle = true →
        d'.delivered = d'.received.flatten ∧ d'.conn.recvResult = -1 ∧ d'.conn.co = .onLoop) ∧
      (0 ≤ d.conn.recvResult → d'.conn.recvResult < 0 →
        d'.conn.read.isError = true ∨ d'.conn.closing = true) := by
  have h := inv_of_reach run
  have h' := h.step plain hstep
  have hstream := h'.stream alive
  refine ⟨fun _ => ⟨hstream, ?_⟩, ?_, (Session.step_move (step_conn hstep).1).recv_negative
    (h'.fits alive)⟩
  · rw [← hstream]
    constructor
    · intro hall
      exact List.self_eq_append_right.mp hall
    · intro hnil
      rw [hnil, List.append_nil]
  · rintro data rfl handle
    obtain ⟨hresult, hco, hdrained⟩ := (Session.step_move (step_conn hstep).1).close_waiting
      (Session.step_readCqe (step_conn hstep).1).2.2 alive h.located h.waiting handle
    rw [hdrained, List.append_nil] at hstream
    exact ⟨hstream, hresult, hco⟩

/-- The coroutine has read both bytes and waits for more when the peer closes. -/
theorem delivery_at_close_waiting :
    ∃ d d', Reach step Plain (create 64 16 64 256) d ∧ d.conn.read.readHandle = true ∧
      d.step (.readCqe 0 [] false) = some d' ∧ d'.delivered = d'.received.flatten ∧
      d'.conn.recvResult = -1 ∧ d'.received = [[1, 2], []] := by
  obtain ⟨d, run, h⟩ := exists_reach step Plain (create 64 16 64 256)
    [.functor, .co .prepareToRead, .readCqe 2 [1, 2] true, .co (.read 2), .co .prepareToRead]
    (fun d => d.conn.read.readHandle && decide (Plain d (.readCqe 0 [] false)) &&
      (d.step (.readCqe 0 [] false)).any fun d' : Delivery =>
        decide (d'.conn.fault = none ∧ d'.received = [[1, 2], []]))
    (by decide +kernel)
  simp only [Bool.and_eq_true, decide_eq_true_eq, Option.any_eq_true] at h
  obtain ⟨⟨handle, plain⟩, d', hstep, halive, hreceived⟩ := h
  obtain ⟨hall, hresult, -⟩ := (delivery_at_close run plain hstep halive).2.1 [] rfl handle
  exact ⟨d, d', run, handle, hstep, hall, hresult, hreceived⟩

/-- The read completions are payloads and then the close, no write fails, and the coroutine does not
return before `PrepareToRead` has told it to. -/
def OrderlyClose (d : Delivery) : SessionAct → Prop
  | .readCqe res _ more => 0 < res ∨ (res = 0 ∧ more = false)
  | .writeCqe res => 0 ≤ res
  | .co .ret => d.conn.recvResult < 0
  | .serverDestroy => False
  | _ => True

instance (d : Delivery) : (a : SessionAct) → Decidable (OrderlyClose d a)
  | .readCqe res _ more => inferInstanceAs (Decidable (0 < res ∨ (res = 0 ∧ more = false)))
  | .writeCqe res => inferInstanceAs (Decidable (0 ≤ res))
  | .co .ret => inferInstanceAs (Decidable (d.conn.recvResult < 0))
  | .serverDestroy => inferInstanceAs (Decidable False)
  | .functor | .drain | .unwind | .co .prepareToRead | .co (.send _) | .co .switchThread
  | .co (.read _) | .enqueue | .poolTake | .removeConnection | .pressure _ | .readRace =>
      inferInstanceAs (Decidable True)

/-- A byte comes in while the coroutine waits in `send` above the high water mark, and the peer
closes: the coroutine is destroyed with the byte unread. -/
theorem close_discards_buffered :
    ¬ ∀ inputHwm inputHwmChunk outputHwm maxSlices d a d',
      Reach step OrderlyClose (create inputHwm inputHwmChunk outputHwm maxSlices) d →
      OrderlyClose d a → d.step a = some d' → d'.conn.fault = none → Ends d d' →
      d'.delivered = d'.received.flatten := by
  intro h
  obtain ⟨d, run, hd⟩ := exists_reach step OrderlyClose (create 64 16 2 256)
    [.functor, .co .prepareToRead, .readCqe 1 [1] true, .co (.read 1), .co (.send [1, 1, 1]),
      .readCqe 1 [2] true]
    (fun d => d.conn.task && (d.step (.readCqe 0 [] false)).any fun d' : Delivery =>
      decide (d'.conn.fault = none ∧ d'.conn.task = false ∧ d'.delivered = [1] ∧
        d'.received = [[1], [2], []]))
    (by decide +kernel)
  simp only [Bool.and_eq_true, decide_eq_true_eq, Option.any_eq_true] at hd
  obtain ⟨htask, d', hstep, halive, hgone, hdelivered, hreceived⟩ := hd
  have hall := h 64 16 2 256 d (.readCqe 0 [] false) d' run (by decide : _ ∨ _) hstep halive
    (.inr ⟨htask, hgone⟩)
  rw [hdelivered, hreceived] at hall
  exact absurd hall (by decide)

end Delivery

end Proactor
