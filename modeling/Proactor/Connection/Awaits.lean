import Proactor.Connection.Delivery
import Proactor.Connection.Holding

/-!
# What the awaiters tell the coroutine

`PrepareToRead` and `send` give their results in `await_resume` (`src/TcpConnection.cc`), at once or
when a completion handler, a functor or the fatal branch of one of the two `on_completion` functions
resumes the coroutine.  A `Dialogue` is a connection together with what its coroutine can know from
these results:

* `bytes` — what was in the input buffer when `PrepareToRead` last returned its length, less what
  has been read since.  More may have come in meanwhile; these bytes are still the first.
* `readFailed`, `sendFailed` — one of them has reported a failure.

`awaits_answered` says what the results mean, for a coroutine that may wait on any thread, reads on
the loop thread, and finds less than `2 ^ 31` bytes buffered (`Plain`).
-/

namespace Proactor

open Transition

namespace Session

/-- The step ends a `PrepareToRead`: it did not suspend, or the coroutine waited in it and goes
on. -/
def recvReturns (s : Session) (a : SessionAct) (t : Session) : Bool :=
  match a with
  | .co .prepareToRead => decide (t.co = s.co)
  | _ => decide (s.co = .inRecv) && decide (t.co = .onLoop)

/-- The step ends a `send`. -/
def sendReturns (s : Session) (a : SessionAct) (t : Session) : Bool :=
  match a with
  | .co (.send _) => decide (t.co = s.co)
  | _ => decide (s.co = .inSend) && decide (t.co = .onLoop)

/-- The read side is of no use any more. -/
def readDead (s : Session) : Bool := s.read.isError || s.closing

def writeDead (s : Session) : Bool := s.closing || s.write.isError

/-- What `PrepareToRead` returns now. -/
def recvAnswer (s : Session) : ℤ := if s.readDead then -1 else toInt s.unread.length

section

variable {s t u : Session} {a : SessionAct}

/-! ## Results -/

theorem recvAwaitResume_answer (s : Session) :
    s.recvAwaitResume.recvResult = s.recvAwaitResume.recvAnswer := by
  rw [recvAwaitResume_eq]
  rfl

theorem sendAwaitResume_answer (s : Session) :
    s.sendAwaitResume.sendResult = !s.sendAwaitResume.writeDead := by
  rw [sendAwaitResume_eq]
  simp [writeDead]

theorem woken_recvAnswer (frame : Frame) (h : s.co = .inRecv) :
    (s.woken frame).recvResult = (s.woken frame).recvAnswer := by
  simp [woken_eq, h, recvAnswer, readDead, ReadContext.totalLen, unread]

theorem woken_sendAnswer (frame : Frame) (h : s.co = .inSend) :
    (s.woken frame).sendResult = !(s.woken frame).writeDead := by
  simp [woken_eq, h, writeDead]

theorem WokeReader.resumes (h : WokeReader s t) (waiting : s.co ≠ .onLoop)
    (back : t.co = .onLoop) : s.read.readHandle = true ∧ s.task = true ∧
      ∃ (u : Session) (frame : Frame), t = u.woken frame ∧ u.co = s.co := by
  cases h with
  | asleep => exact absurd back waiting
  | woken handle alive => exact ⟨handle, alive, _, _, rfl, rfl⟩

theorem WokeWriter.resumes (h : WokeWriter s t) (waiting : s.co ≠ .onLoop)
    (back : t.co = .onLoop) : s.write.writeHandle = true ∧ s.task = true ∧
      ∃ (u : Session) (frame : Frame), t = u.woken frame ∧ u.co = s.co := by
  cases h with
  | asleep => exact absurd back waiting
  | woken handle drained alive => exact ⟨handle, alive, _, _, rfl, rfl⟩

/-- **A coroutine that comes back from an awaiter has been resumed**, and `await_resume` was the
last thing to happen. -/
theorem Move.resumes (h : Move s a t) (hb : s.Born) (waiting : s.co = .inRecv ∨ s.co = .inSend)
    (back : t.co = .onLoop) :
    Uses s a ∧ s.task = true ∧
      ∃ (u : Session) (frame : Frame), t = u.woken frame ∧ u.co = s.co := by
  have hne : s.co ≠ .onLoop := by rcases waiting with h | h <;> simp [h]
  have hborn : s.co ≠ .unborn := by rcases waiting with h | h <;> simp [h]
  cases h with
  | @readMore res data _ idle out holder status woke =>
      obtain ⟨handle, hwoken⟩ := woke.resumes hne back
      exact ⟨.read idle out ((took_frame s res data true).2.1 ▸ handle), hwoken⟩
  | @readStopped res data _ idle out holder fatal status woke =>
      obtain ⟨handle, hwoken⟩ := woke.resumes hne back
      exact ⟨.read idle out ((took_frame s res data false).2.1 ▸ handle), hwoken⟩
  | @readAgain res data _ idle out holder fatal status woke =>
      rw [submitRead_eq] at woke
      obtain ⟨handle, hwoken⟩ := woke.resumes hne back
      exact ⟨.read idle out ((took_frame s res data false).2.1 ▸ handle), hwoken⟩
  | readFatal idle out holder status fatal handle alive =>
      exact ⟨.read idle out handle, alive, _, _, rfl, rfl⟩
  | @writeMore res w flushed _ idle out holder fatal proceeds woke =>
      obtain ⟨-, -, -, hkept, -⟩ := WriteContext.proceed_frame proceeds
      obtain ⟨handle, hwoken⟩ := woke.resumes hne back
      rw [WriteContext.acknowledge_writeHandle] at hkept
      exact ⟨.write idle out (hkept.symm.trans handle), hwoken⟩
  | writeFatal idle out holder fatal handle alive =>
      exact ⟨.write idle out handle, alive, _, _, rfl, rfl⟩
  | established idle head =>
      have hcount := hb.count
      rw [if_neg hborn, head, List.count_cons_self] at hcount
      omega
  | recvRegister =>
      rw [awaitRead_eq] at back
      exact absurd back hne
  | recvResume idle head alive => exact ⟨.await idle head, alive, _, _, rfl, rfl⟩
  | sendResume idle head alive => exact ⟨.await idle head, alive, _, _, rfl, rfl⟩
  | poolTake queued alive here => simp [here] at waiting
  | recvSuspend => simp at back
  | recvReady =>
      rw [recvAwaitResume_eq] at back
      exact absurd back hne
  | recvLate =>
      rw [recvAwaitResume_eq] at back
      exact absurd back hne
  | sendLate here => exact absurd here hne
  | sendThrough here => exact absurd here hne
  | sendLateWorker =>
      rw [sendAwaitResume_eq] at back
      exact absurd back hne
  | enqueue here => simp [here] at waiting
  | sendSuspend => simp at back
  | switchLoop => simp at back
  | retLoop => simp at back
  | recvLeave => simp at back
  | sendLeave => simp at back
  | switchWorker => simp at back
  | retWorker => simp at back
  | _ => exact absurd back hne

/-- The two ways to come back from `PrepareToRead`. -/
theorem recvReturns_cases (ret : s.recvReturns a t = true) :
    a = .co .prepareToRead ∧ t.co = s.co ∨
      a ≠ .co .prepareToRead ∧ s.co = .inRecv ∧ t.co = .onLoop := by
  by_cases ha : a = .co .prepareToRead
  · subst ha
    exact .inl ⟨rfl, by simpa [recvReturns] using ret⟩
  · have hret : (decide (s.co = .inRecv) && decide (t.co = .onLoop)) = true := by
      rw [← ret, recvReturns]
      exact ha
    exact .inr ⟨ha, by simpa using hret⟩

theorem sendReturns_cases (ret : s.sendReturns a t = true) :
    (∃ data, a = .co (.send data)) ∧ t.co = s.co ∨ s.co = .inSend ∧ t.co = .onLoop := by
  by_cases ha : ∃ data, a = .co (.send data)
  · obtain ⟨data, rfl⟩ := ha
    exact .inl ⟨⟨data, rfl⟩, by simpa [sendReturns] using ret⟩
  · have hret : (decide (s.co = .inSend) && decide (t.co = .onLoop)) = true := by
      rw [← ret, sendReturns]
      exact fun data h => ha ⟨data, h⟩
    exact .inr (by simpa using hret)

theorem Move.recvAnswer (h : Move s a t) (hb : s.Born) (alive : t.fault = none)
    (ret : s.recvReturns a t = true) : t.recvResult = t.recvAnswer := by
  rcases recvReturns_cases ret with ⟨rfl, hco⟩ | ⟨-, waiting, back⟩
  · cases h with
    | abort => simp at alive
    | recvReady => exact recvAwaitResume_answer s
    | recvLate => exact recvAwaitResume_answer s
    | recvSuspend here => simp [here] at hco
    | recvLeave here => simp [here] at hco
  · obtain ⟨-, -, u, frame, rfl, hco⟩ := h.resumes hb (.inl waiting) back
    exact woken_recvAnswer frame (hco.trans waiting)

theorem Move.sendAnswer (h : Move s a t) (hb : s.Born) (alive : t.fault = none)
    (ret : s.sendReturns a t = true) : t.sendResult = !t.writeDead := by
  rcases sendReturns_cases ret with ⟨⟨data, rfl⟩, hco⟩ | ⟨waiting, back⟩
  · cases h with
    | abort => simp at alive
    | sendLate => exact sendAwaitResume_answer s
    | sendLateWorker => exact sendAwaitResume_answer s
    | sendThrough => exact sendAwaitResume_answer _
    | sendSuspend here => simp [here] at hco
    | sendLeave here => simp [here] at hco
  · obtain ⟨-, -, u, frame, rfl, hco⟩ := h.resumes hb (.inr waiting) back
    exact woken_sendAnswer frame (hco.trans waiting)

/-! ## Failures are final -/

theorem WokeReader.isError_eq (h : WokeReader s t) :
    t.read.isError = s.read.isError ∧ t.write.isError = s.write.isError := by
  cases h <;> simp

theorem WokeWriter.isError_eq (h : WokeWriter s t) :
    t.read.isError = s.read.isError ∧ t.write.isError = s.write.isError := by
  cases h <;> simp

/-- A read completion records a fatal result. -/
theorem Move.readCqe_isError {res : ℤ} {data : List UInt8} {more : Bool}
    (h : Move s (.readCqe res data more) t) (alive : t.fault = none) :
    t.read.isError = (s.read.isError || decide (ReadContext.Fatal res)) := by
  have htook := (took_frame s res data more).2.2.2
  cases h with
  | abort => simp at alive
  | readMore idle out holder status woke => exact woke.isError_eq.1.trans htook
  | readStopped idle out holder fatal status woke => exact woke.isError_eq.1.trans htook
  | readAgain idle out holder fatal status woke =>
      rw [submitRead_eq] at woke
      exact woke.isError_eq.1.trans htook
  | readFatal =>
      rw [woken_read]
      exact htook
  | readClose => exact htook

theorem Move.read_isError (h : Move s a t) (dead : s.read.isError = true) :
    t.read.isError = true := by
  cases h with
  | readMore idle out holder status woke =>
      rw [woke.isError_eq.1, (took_frame s _ _ _).2.2.2, dead, Bool.true_or]
  | @readStopped res data _ idle out holder fatal status woke =>
      have htook := (took_frame s res data false).2.2.2
      rw [dead, Bool.true_or] at htook
      exact woke.isError_eq.1.trans htook
  | @readAgain res data _ idle out holder fatal status woke =>
      have htook := (took_frame s res data false).2.2.2
      rw [dead, Bool.true_or] at htook
      rw [submitRead_eq] at woke
      exact woke.isError_eq.1.trans htook
  | readFatal => rw [woken_read, (took_frame s _ _ _).2.2.2, dead, Bool.true_or]
  | @readClose res data =>
      have htook := (took_frame s res data false).2.2.2
      rw [dead, Bool.true_or] at htook
      exact htook
  | writeMore idle out holder fatal proceeds woke => exact woke.isError_eq.1.trans dead
  | recvRegister => rw [awaitRead_eq]; exact dead
  | recvSuspend => rw [awaitRead_eq]; exact dead
  | recvReady => rw [recvAwaitResume_eq]; exact dead
  | recvLate => rw [recvAwaitResume_eq]; exact dead
  | sendLate => rw [sendAwaitResume_eq]; exact dead
  | sendLateWorker => rw [sendAwaitResume_eq]; exact dead
  | sendThrough => rw [sendAwaitResume_eq]; exact dead
  | writeFatal => rw [woken_read]; exact dead
  | recvResume => rw [woken_read]; exact dead
  | sendResume => rw [woken_read]; exact dead
  | _ => exact dead

theorem acknowledge_isError (w : WriteContext) {res : ℤ} (fatal : ¬ WriteContext.Fatal res) :
    (w.acknowledge res).isError = w.isError := by
  by_cases hneg : res < 0
  · have htransient : WriteContext.Transient res := by
      by_contra h
      exact fatal ⟨hneg, h⟩
    rw [w.acknowledge_transient htransient]
  · rw [w.acknowledge_count (Int.not_lt.mp hneg)]

theorem Move.write_isError (h : Move s a t) (dead : s.write.isError = true) :
    t.write.isError = true := by
  cases h with
  | readMore idle out holder status woke => exact woke.isError_eq.2.trans dead
  | readStopped idle out holder fatal status woke => exact woke.isError_eq.2.trans dead
  | readAgain idle out holder fatal status woke =>
      rw [submitRead_eq] at woke
      exact woke.isError_eq.2.trans dead
  | readFatal => rw [woken_write]; exact dead
  | writeMore idle out holder fatal proceeds woke =>
      obtain ⟨-, -, -, -, hkept, -⟩ := WriteContext.proceed_frame proceeds
      rw [acknowledge_isError _ fatal] at hkept
      exact woke.isError_eq.2.trans (hkept.trans dead)
  | writeFatal => rw [woken_write]
  | writeClose => rfl
  | recvRegister => rw [awaitRead_eq]; exact dead
  | recvSuspend => rw [awaitRead_eq]; exact dead
  | sendRegister idle head alive sends load =>
      obtain ⟨-, -, -, -, hkept, -⟩ := WriteContext.sendInLoop_frame sends
      exact hkept.trans dead
  | sendResume idle head alive sends load =>
      obtain ⟨-, -, -, -, hkept, -⟩ := WriteContext.sendInLoop_frame sends
      rw [woken_write]
      exact hkept.trans dead
  | sendThrough here ctl opened sends load =>
      obtain ⟨-, -, -, -, hkept, -⟩ := WriteContext.sendInLoop_frame sends
      rw [sendAwaitResume_eq]
      exact hkept.trans dead
  | sendSuspend here ctl opened sends load =>
      obtain ⟨-, -, -, -, hkept, -⟩ := WriteContext.sendInLoop_frame sends
      exact hkept.trans dead
  | recvResume => rw [woken_write]; exact dead
  | recvReady => rw [recvAwaitResume_eq]; exact dead
  | recvLate => rw [recvAwaitResume_eq]; exact dead
  | sendLate => rw [sendAwaitResume_eq]; exact dead
  | sendLateWorker => rw [sendAwaitResume_eq]; exact dead
  | _ => exact dead

theorem Move.readDead (h : Move s a t) (dead : s.readDead = true) : t.readDead = true := by
  simp only [Session.readDead, Bool.or_eq_true] at dead ⊢
  exact dead.imp h.read_isError h.closing_mono

theorem Move.writeDead (h : Move s a t) (dead : s.writeDead = true) : t.writeDead = true := by
  simp only [Session.writeDead, Bool.or_eq_true] at dead ⊢
  exact dead.imp h.closing_mono h.write_isError

/-! ## A result of zero -/

/-- `PrepareToRead` does not suspend on the loop thread only if the connection is closing or there
is data. -/
theorem step_ready (move : s.step (.co .prepareToRead) = some t) (here : s.co = .onLoop)
    (stays : t.co = s.co) : s.closing = true ∨ s.read.isEmpty = false := by
  by_contra hnot
  have hcond : ¬ (s.closing = true ∨ s.read.isEmpty = false) := hnot
  cases hctl : s.ctl with
  | inCo frame =>
      simp only [step, here, hctl, actOnLoop, if_neg hcond, commit,
        Option.ite_none_left_eq_some, Option.some.injEq] at move
      obtain ⟨-, rfl⟩ := move
      simp [here] at stays
  | _ => simp [step, here, hctl] at move

/-- **`PrepareToRead` returns 0 only when a completion without data, that is no failure either, has
woken the coroutine.** -/
theorem step_recv_zero (move : s.step a = some t) (hl : s.Located) (alive : t.fault = none)
    (fits : t.unread.length < 2 ^ 31) (ret : s.recvReturns a t = true) (zero : t.recvResult = 0) :
    ∃ res data more, a = .readCqe res data more ∧
      (res = -ENOBUFS ∨ res = -EAGAIN ∨ res = -ECANCELED) := by
  have hmove := step_move move
  have hanswer := hmove.recvAnswer hl.born alive ret
  rw [zero, recvAnswer, toInt_of_lt fits] at hanswer
  split at hanswer
  case isTrue => simp at hanswer
  case isFalse hdead =>
    simp only [readDead, Bool.or_eq_true, not_or, Bool.not_eq_true] at hdead
    have hnone : t.unread = [] := List.eq_nil_of_length_eq_zero (by omega)
    have hdata : s.read.isEmpty = false → t.unread ≠ s.unread := by
      intro hsome hsame
      rw [hsame, unread] at hnone
      have hempty : s.read.isEmpty = true := by
        simp only [ReadContext.isEmpty, ReadContext.totalLen, hnone, List.length_nil, decide_true]
      exact absurd (hempty.symm.trans hsome) (by decide)
    rcases recvReturns_cases ret with ⟨rfl, hco⟩ | ⟨-, waiting, back⟩
    · cases hmove with
      | abort => simp at alive
      | recvReady here =>
          rw [recvAwaitResume_eq] at hdead hdata
          rcases step_ready move here hco with hclosing | hsome
          · exact absurd hclosing (by simpa using hdead.2)
          · exact absurd rfl (hdata hsome)
      | recvLate here closed =>
          rw [recvAwaitResume_eq] at hdead
          exact absurd closed (by simpa using hdead.2)
      | recvSuspend here => simp [here] at hco
      | recvLeave here => simp [here] at hco
    · obtain ⟨huses, htask, -⟩ := hmove.resumes hl.born (.inl waiting) back
      cases huses with
      | @read res data more idle out handle =>
          have hlen := (step_readCqe move).2.2
          have hunread := hmove.readCqe_unread hlen alive
          have herror := hmove.readCqe_isError alive
          rw [hnone] at hunread
          rw [hdead.1] at herror
          have hnil : data = [] := (List.append_eq_nil_iff.mp hunread.symm).2
          have hres : res ≤ 0 := by
            rw [hnil, List.length_nil] at hlen
            omega
          obtain ⟨-, hfatal⟩ : s.read.isError = false ∧ ¬ ReadContext.Fatal res := by
            simpa using herror.symm
          refine ⟨res, data, more, rfl, ?_⟩
          simp only [ReadContext.Fatal, hres, true_and, not_and, not_not] at hfatal
          tauto
      | write idle out handle =>
          have hco := (hl.handles.writer (by simp [idle, Ctl.inWriteFatal]) htask handle).1
          exact absurd (waiting.symm.trans hco) (by decide)
      | await idle head =>
          cases hmove with
          | abort => simp at alive
          | established _ head' => simp [head] at head'
          | recvRegister =>
              rw [awaitRead_eq] at back
              exact absurd (waiting.symm.trans back) (by decide)
          | recvResume _ _ _ hsome => exact absurd (by simp [unread]) (hdata hsome)
          | sendRegister _ _ => exact absurd (waiting.symm.trans back) (by decide)
          | sendResume _ head' =>
              obtain ⟨hco', -, -⟩ := hl.placed.head_free head'
              exact absurd (waiting.symm.trans hco') (by simp [parked])
          | destroyed _ head' => simp [head] at head'
      | pool queued => exact absurd (waiting.symm.trans (hl.placed.pool queued)) (by decide)

end

end Session

/-- A connection, and what its coroutine has been told. -/
structure Dialogue where
  conn : Session
  /-- What was there to read when `PrepareToRead` last returned a length, less what has been read
  since. -/
  bytes : List UInt8
  /-- `PrepareToRead` has returned a negative number. -/
  readFailed : Bool
  /-- `send` has returned false. -/
  sendFailed : Bool

namespace Dialogue

def create (inputHwm inputHwmChunk outputHwm maxSlices : ℕ) : Dialogue where
  conn := .create inputHwm inputHwmChunk outputHwm maxSlices
  bytes := []
  readFailed := false
  sendFailed := false

/-- The bytes that the coroutine knows of after a step. -/
def known (d : Dialogue) (t : Session) (a : SessionAct) : List UInt8 :=
  if d.conn.recvReturns a t = true ∧ 0 ≤ t.recvResult then t.unread
  else match a with
    | .co (.read size) => d.bytes.drop size
    | _ => d.bytes

def step (d : Dialogue) (a : SessionAct) : Option Dialogue :=
  (d.conn.step a).map fun t =>
    { conn := t
      bytes := d.known t a
      readFailed := d.readFailed || d.conn.recvReturns a t && decide (t.recvResult < 0)
      sendFailed := d.sendFailed || d.conn.sendReturns a t && !t.sendResult }

variable {d d' : Dialogue} {a : SessionAct} {t : Session}

/-- The coroutine reads on the loop thread, and what is buffered fits in an `int`. -/
def Plain (d : Dialogue) (a : SessionAct) : Prop := d.conn.LoopReads a ∧ d.conn.FitsInt a

instance (d : Dialogue) (a : SessionAct) : Decidable (Plain d a) :=
  inferInstanceAs (Decidable (_ ∧ _))

/-- **What the coroutine has been told stays true**, until a fault. -/
structure Sound (d : Dialogue) : Prop where
  located : d.conn.Located
  fits : d.conn.fault = none → d.conn.unread.length < 2 ^ 31
  first : d.conn.fault = none → d.bytes <+: d.conn.unread
  readDead : d.conn.fault = none → d.readFailed = true → d.conn.readDead = true
  writeDead : d.conn.fault = none → d.sendFailed = true → d.conn.writeDead = true

/-- What has not been read is still the first to come. -/
theorem Sound.known (hd : d.Sound) (move : d.conn.step a = some t) (alive : t.fault = none) :
    d.known t a <+: t.unread := by
  have hmove := Session.step_move move
  have hfirst := hd.first (Session.step_sound move)
  unfold Dialogue.known
  split
  case isTrue => exact List.prefix_refl _
  case isFalse =>
    by_cases hcqe : ∃ res data more, a = .readCqe res data more
    · obtain ⟨res, data, more, rfl⟩ := hcqe
      rw [hmove.readCqe_unread (Session.step_readCqe move).2.2 alive]
      exact hfirst.trans (List.prefix_append _ _)
    by_cases hread : ∃ size, a = .co (.read size)
    · obtain ⟨size, rfl⟩ := hread
      rw [hmove.read_unread alive]
      obtain ⟨rest, hrest⟩ := hfirst
      rw [← hrest, List.drop_append]
      exact List.prefix_append _ _
    · have hsame : t.unread = d.conn.unread :=
        hmove.readEffect.unread (fun res data more h => hcqe ⟨res, data, more, h⟩)
          fun size h => hread ⟨size, h⟩
      rw [hsame]
      split
      case h_1 => exact absurd ⟨_, rfl⟩ hread
      case h_2 => exact hfirst

/-- The step leaves less than `2 ^ 31` bytes in the buffer. -/
theorem Sound.fits_step (hd : d.Sound) (plain : Plain d a) (move : d.conn.step a = some t)
    (alive : t.fault = none) : t.unread.length < 2 ^ 31 := by
  refine (Session.step_move move).unread_fits ?_ alive plain.2 (hd.fits (Session.step_sound move))
  rintro res data more rfl
  exact (Session.step_readCqe move).2.2

theorem Sound.step (hd : d.Sound) (plain : Plain d a) (h : d.step a = some d') : d'.Sound := by
  simp only [Dialogue.step, Option.map_eq_some_iff] at h
  obtain ⟨t, move, rfl⟩ := h
  have hmove := Session.step_move move
  have before := Session.step_sound move
  refine ⟨hmove.located hd.located, hd.fits_step plain move, hd.known move, ?_, ?_⟩
  · intro alive hfailed
    simp only [Bool.or_eq_true, Bool.and_eq_true, decide_eq_true_eq] at hfailed
    rcases hfailed with hbefore | ⟨hret, hneg⟩
    · exact hmove.readDead (hd.readDead before hbefore)
    · rw [hmove.recvAnswer hd.located.born alive hret, Session.recvAnswer,
        Session.toInt_of_lt (hd.fits_step plain move alive)] at hneg
      split at hneg
      case isTrue hdead => exact hdead
      case isFalse => omega
  · intro alive hfailed
    simp only [Bool.or_eq_true, Bool.and_eq_true, Bool.not_eq_true'] at hfailed
    rcases hfailed with hbefore | ⟨hret, hfalse⟩
    · exact hmove.writeDead (hd.writeDead before hbefore)
    · rw [hmove.sendAnswer hd.located.born alive hret] at hfalse
      simpa using hfalse

/-- **The awaiters tell the truth, and a failure is final.**  In every run with less than `2 ^ 31`
bytes in the buffer, of a coroutine that waits and sends on any thread and reads on the loop thread:

* the bytes that were in the buffer when `PrepareToRead` last returned their number are, as far as
  they have not been read, still the first in it, so that reading up to that many gives them and no
  others;
* `PrepareToRead` returns -1 if the read side has failed or the connection is closing, and otherwise
  the number of bytes in the buffer at that moment; it returns 0 only when it was woken by one of
  the three results that bring no data and are no failure;
* `send` returns false exactly if the write side has failed or the connection is closing;
* after a failure of one of them, all its later results are failures. -/
theorem awaits_answered {inputHwm inputHwmChunk outputHwm maxSlices : ℕ}
    (run : Reach step Plain (create inputHwm inputHwmChunk outputHwm maxSlices) d)
    (plain : Plain d a) (move : d.conn.step a = some t) (alive : t.fault = none) :
    (∀ size ≤ d.bytes.length, (d.conn.read.removeAsString size).1 = d.bytes.take size) ∧
      (d.conn.recvReturns a t = true →
        t.recvResult = (if t.read.isError || t.closing then -1 else (t.unread.length : ℤ)) ∧
        (t.recvResult = 0 → ∃ res data more, a = .readCqe res data more ∧
          (res = -ENOBUFS ∨ res = -EAGAIN ∨ res = -ECANCELED)) ∧
        (d.readFailed = true → t.recvResult = -1)) ∧
      (d.conn.sendReturns a t = true →
        t.sendResult = !(t.closing || t.write.isError) ∧
        (d.sendFailed = true → t.sendResult = false)) := by
  have hd : d.Sound := run.invariant (P := Sound)
    ⟨Session.located_create _ _ _ _, fun _ => by simp [Session.unread, create, Session.create,
      Session.start, ReadContext.create], fun _ => List.nil_prefix, fun _ => nofun, fun _ => nofun⟩
    fun _ _ _ h plain hstep => h.step plain hstep
  have hmove := Session.step_move move
  have before := Session.step_sound move
  have fits := hd.fits_step plain move alive
  refine ⟨?_, ?_, ?_⟩
  · intro size hsize
    obtain ⟨rest, hrest⟩ := hd.first before
    show d.conn.unread.take size = d.bytes.take size
    rw [← hrest, List.take_append_of_le_length hsize]
  · intro hret
    have hanswer := hmove.recvAnswer hd.located.born alive hret
    refine ⟨?_, Session.step_recv_zero move hd.located alive fits hret, ?_⟩
    · rw [hanswer, Session.recvAnswer, Session.toInt_of_lt fits]
      rfl
    · intro hfailed
      have hdead := hmove.readDead (hd.readDead before hfailed)
      rw [hanswer, Session.recvAnswer, if_pos hdead]
  · intro hret
    have hanswer := hmove.sendAnswer hd.located.born alive hret
    refine ⟨hanswer, ?_⟩
    intro hfailed
    rw [hanswer, hmove.writeDead (hd.writeDead before hfailed)]
    rfl

/-- A coroutine is told of two bytes and goes to a pool thread.  One more comes in, the peer goes
away, and `PrepareToRead` fails, and fails again; the two bytes can still be read. -/
theorem awaits_answered_failed : ∃ d t,
    Reach step Plain (create 65536 16 65536 256) d ∧ d.bytes = [1, 2] ∧
      d.conn.unread = [1, 2, 3] ∧ d.readFailed = true ∧
      d.conn.step (.co .prepareToRead) = some t ∧ t.recvResult = -1 ∧
      (d.conn.read.removeAsString 2).1 = [1, 2] := by
  obtain ⟨d, run, h⟩ := exists_reach step Plain (create 65536 16 65536 256)
    [.functor, .co .prepareToRead, .readCqe 2 [1, 2] true, .co .switchThread, .poolTake,
      .readCqe 1 [3] true, .readCqe 0 [] false, .co .prepareToRead]
    (fun d => decide (d.bytes = [1, 2] ∧ d.conn.unread = [1, 2, 3] ∧ d.readFailed = true) &&
      (d.conn.step (.co .prepareToRead)).any fun t : Session =>
        decide (t.fault = none ∧ d.conn.recvReturns (.co .prepareToRead) t = true))
    (by decide +kernel)
  simp only [Bool.and_eq_true, decide_eq_true_eq, Option.any_eq_true] at h
  obtain ⟨⟨hbytes, hunread, hfailed⟩, t, move, alive, hret⟩ := h
  obtain ⟨hread, hrecv, -⟩ :=
    awaits_answered (a := .co .prepareToRead) run ⟨trivial, trivial⟩ move alive
  refine ⟨d, t, run, hbytes, hunread, hfailed, move, (hrecv hret).2.2 hfailed, ?_⟩
  have htwo := hread 2 (by simp [hbytes])
  rwa [hbytes] at htwo

end Dialogue

end Proactor
