import Proactor.Connection.EchoProgram

/-!
# The echo servers of the repository, to the end of the connection

The repository has two coroutines called `echo_server`: that of
`test/unit_test/TcpConnectionTest.cc` (`Echo`), which stops when `send` fails, and that of
`README.md` and of `test/integration_test/IntegrationTest.cc`, which does not look at the result.

`echo_conservation` follows the first one up to the first fatal completion.  Here both are followed
through everything that may happen to the connection (`checked_echo_conserves`,
`echo_server_conserves`).

The coroutine that ignores the failure of `send` needs one more condition.  The fatal branch resumes
it, it asks for data, and if there is any it sends again, from inside the branch
(`echo_server_disowned`).  So the write that fails must not find unread input.
-/

namespace Proactor

open Transition

/-! ## `echo_server` of `TcpConnectionTest.cc` -/

theorem Echo.next_calls {s : Echo} {act : CoAct} {pos : EchoPos} (h : s.next = some (act, pos)) :
    EchoCall Echo.inHand Echo.places s.session s.pos act pos := by
  unfold Echo.next at h
  split at h
  case h_1 hpos =>
    obtain ⟨rfl, rfl⟩ : .prepareToRead = act ∧ .size = pos := by simpa using h
    exact .prepareToRead (by rw [hpos]; rfl) rfl (by simp [Echo.places]) (by simp [Echo.places])
  case h_2 hpos =>
    simp only at h
    split at h
    · obtain ⟨rfl, rfl⟩ : .ret = act ∧ .done = pos := by simpa using h
      exact .ret (by rw [hpos]; rfl) rfl (by simp [Echo.places])
    · simp only [Option.some.injEq, Prod.mk.injEq] at h
      obtain ⟨rfl, rfl⟩ := h
      exact .read (by rw [hpos]; rfl) rfl (by simp [Echo.places])
  case h_3 data hpos =>
    obtain ⟨rfl, rfl⟩ : .send data = act ∧ .sent = pos := by simpa using h
    have hhand : data = Echo.inHand s.pos := by rw [hpos]; rfl
    rw [hhand]
    exact .send rfl (by simp [Echo.places]) (by simp [Echo.places])
  case h_4 hpos =>
    split at h
    · obtain ⟨rfl, rfl⟩ : .prepareToRead = act ∧ .size = pos := by simpa using h
      exact .prepareToRead (by rw [hpos]; rfl) rfl (by simp [Echo.places]) (by simp [Echo.places])
    · obtain ⟨rfl, rfl⟩ : .ret = act ∧ .done = pos := by simpa using h
      exact .ret (by rw [hpos]; rfl) rfl (by simp [Echo.places])
  case h_5 => exact absurd h (by simp)

/-- The coroutine of an `Echo`: when `send` fails it returns, whatever the input. -/
def checkedEcho : EchoProgram EchoPos where
  start := .prepare
  next pos s := Echo.next ⟨s, pos, [], []⟩
  hand := Echo.inHand
  places := Echo.places
  calm _ := true
  start_hand := rfl
  start_places := by simp [Echo.places]
  calls h := Echo.next_calls h
  wakes h asleep := Echo.mem_places_onLoop h asleep
  holds := by
    intro pos h
    cases pos with
    | data data => rfl
    | _ => exact absurd rfl h
  givesUp := by
    intro pos s act pos' waits failed _ call
    cases pos with
    | sent =>
        obtain ⟨rfl, -⟩ : .ret = act ∧ _ := by simpa [Echo.next, failed] using call
        exact .inl rfl
    | _ => simp [Echo.places] at waits

/-! ## `echo_server` of `README.md` and `IntegrationTest.cc` -/

/-- Where `echo_server` is. -/
inductive ServerPos
  /-- At the top of the loop, or in the `send` at the end of it. -/
  | top
  /-- `PrepareToRead` has been called; `size` is what it returns. -/
  | size
  /-- `data` has been read, is not empty and is about to be sent. -/
  | data (data : List UInt8)
  | done

namespace ServerPos

def next (pos : ServerPos) (s : Session) : Option (CoAct × ServerPos) :=
  match pos with
  | .top => some (.prepareToRead, .size)
  | .size =>
      let size := s.recvResult
      if size < 0 then some (.ret, .done)
      else
        let bytes := (s.read.removeAsString size.toNat).1
        some (.read size.toNat, if bytes = [] then .top else .data bytes)
  | .data bytes => some (.send bytes, .top)
  | .done => none

def hand : ServerPos → List UInt8
  | .data bytes => bytes
  | _ => []

def places : ServerPos → List CoPos
  | .top => [.unborn, .inSend, .onLoop]
  | .size => [.inRecv, .onLoop]
  | .data _ => [.onLoop]
  | .done => [.final]

theorem next_calls {pos pos' : ServerPos} {s : Session} {act : CoAct}
    (h : pos.next s = some (act, pos')) : EchoCall hand places s pos act pos' := by
  cases pos with
  | top =>
      obtain ⟨rfl, rfl⟩ : .prepareToRead = act ∧ .size = pos' := by simpa [next] using h
      exact .prepareToRead rfl rfl (by simp [places]) (by simp [places])
  | size =>
      simp only [next] at h
      split at h
      · obtain ⟨rfl, rfl⟩ : .ret = act ∧ .done = pos' := by simpa using h
        exact .ret rfl rfl (by simp [places])
      · simp only [Option.some.injEq, Prod.mk.injEq] at h
        obtain ⟨rfl, rfl⟩ := h
        split
        case isTrue hdata => exact .read rfl hdata.symm (by simp [places])
        case isFalse hdata => exact .read rfl rfl (by simp [places])
  | data bytes =>
      obtain ⟨rfl, rfl⟩ : .send bytes = act ∧ .top = pos' := by simpa [next] using h
      exact .send rfl (by simp [places]) (by simp [places])
  | done => simp [next] at h

end ServerPos

/-- It does not see that `send` fails, and is safe if there is nothing to read then. -/
def echoServer : EchoProgram ServerPos where
  start := .top
  next := ServerPos.next
  hand := ServerPos.hand
  places := ServerPos.places
  calm r := r.isEmpty
  start_hand := rfl
  start_places := by simp [ServerPos.places]
  calls := ServerPos.next_calls
  wakes := by
    intro pos co h asleep
    cases pos with
    | done =>
        obtain rfl : co = .final := by simpa [ServerPos.places] using h
        exact absurd asleep (by decide)
    | _ => simp [ServerPos.places]
  holds := by
    intro pos h
    cases pos with
    | data data => rfl
    | _ => exact absurd rfl h
  givesUp := by
    intro pos s act pos' waits _ empty call
    cases pos with
    | top =>
        obtain ⟨rfl, -⟩ : .prepareToRead = act ∧ _ := by simpa [ServerPos.next] using call
        exact .inr ⟨rfl, empty⟩
    | _ => simp [ServerPos.places] at waits

/-- **The checked echo server, to the end.**  Whatever the peer, the kernel and the server do, with
fatal completions of both sides at any time, as long as no write ends in a transient error: no
assertion fails and no coroutine frame is misused; what has been acknowledged is at every moment a
prefix of what has been received; and between two handlers, before the connection closes and after,
the acknowledged, the unsent and the unread bytes are the received ones. -/
theorem checked_echo_conserves {inputHwm inputHwmChunk outputHwm : ℕ} {s : Hosted EchoPos}
    (run : Reach checkedEcho.step checkedEcho.Fits
      (checkedEcho.create inputHwm inputHwmChunk outputHwm) s) :
    s.session.fault = none ∧ s.acked <+: s.received.flatten ∧
      (s.session.ctl = .idle →
        s.acked ++ s.session.write.outputBuffer.unsent ++ s.session.read.inputBuffer.flatten
          = s.received.flatten) :=
  EchoProgram.conserves run

/-- The peer resets the connection while the coroutine is suspended in `send` with unread input: it
returns, the branch closes the connection, and a payload that comes in later is kept. -/
theorem checked_echo_conserves_reset :
    ∃ s, Reach checkedEcho.step checkedEcho.Fits (checkedEcho.create 65536 16 2) s ∧
      s.session.closing = true ∧ s.acked = [1] ∧ s.session.fault = none ∧
      s.acked ++ s.session.write.outputBuffer.unsent ++ s.session.read.inputBuffer.flatten
        = [1, 2, 3, 4, 5, 6] := by
  obtain ⟨s, run, h⟩ := exists_reach checkedEcho.step checkedEcho.Fits
    (checkedEcho.create 65536 16 2)
    [.env .functor, .co, .env (.readCqe 4 [1, 2, 3, 4] true), .co, .co, .env (.readCqe 1 [5] true),
      .env (.writeCqe 1), .env (.writeCqe (-ECONNRESET)), .co, .env .unwind,
      .env (.readCqe 1 [6] true)]
    (fun s => decide (s.session.ctl = .idle ∧ s.session.closing = true ∧ s.acked = [1] ∧
      s.received.flatten = [1, 2, 3, 4, 5, 6])) (by decide +kernel)
  obtain ⟨idle, closed, hacked, hreceived⟩ := of_decide_eq_true h
  obtain ⟨sound, -, hstream⟩ := checked_echo_conserves run
  exact ⟨s, run, closed, hacked, sound, (hstream idle).trans hreceived⟩

/-- **The echo server of the README, to the end.**  The same for the coroutine that ignores the
result of `send`, in the runs in which a fatal write completion that finds it suspended in `send`
finds no unread input. -/
theorem echo_server_conserves {inputHwm inputHwmChunk outputHwm : ℕ} {s : Hosted ServerPos}
    (run : Reach echoServer.step echoServer.Fits
      (echoServer.create inputHwm inputHwmChunk outputHwm) s) :
    s.session.fault = none ∧ s.acked <+: s.received.flatten ∧
      (s.session.ctl = .idle →
        s.acked ++ s.session.write.outputBuffer.unsent ++ s.session.read.inputBuffer.flatten
          = s.received.flatten) :=
  EchoProgram.conserves run

/-- The write fails with nothing to read: the coroutine waits for data inside the fatal branch, and
goes when the branch closes the connection. -/
theorem echo_server_conserves_reset :
    ∃ s, Reach echoServer.step echoServer.Fits (echoServer.create 65536 16 2) s ∧
      s.session.closing = true ∧ s.acked = [1] ∧ s.session.fault = none ∧
      s.acked ++ s.session.write.outputBuffer.unsent ++ s.session.read.inputBuffer.flatten
        = [1, 2, 3, 4, 5] := by
  obtain ⟨s, run, h⟩ := exists_reach echoServer.step echoServer.Fits (echoServer.create 65536 16 2)
    [.env .functor, .co, .env (.readCqe 4 [1, 2, 3, 4] true), .co, .co, .env (.writeCqe 1),
      .env (.writeCqe (-ECONNRESET)), .co, .env .unwind, .env (.readCqe 1 [5] true)]
    (fun s => decide (s.session.ctl = .idle ∧ s.session.closing = true ∧ s.acked = [1] ∧
      s.received.flatten = [1, 2, 3, 4, 5])) (by decide +kernel)
  obtain ⟨idle, closed, hacked, hreceived⟩ := of_decide_eq_true h
  obtain ⟨sound, -, hstream⟩ := echo_server_conserves run
  exact ⟨s, run, closed, hacked, sound, (hstream idle).trans hreceived⟩

/-- With one unread byte it sends from inside the branch; the request outlives its holder, and its
completion fails the assertion. -/
theorem echo_server_disowned :
    ∃ s, Reach echoServer.step anyStep (echoServer.create 65536 16 2) s ∧
      s.session.fault = some .writeHolder := by
  obtain ⟨s, run, h⟩ := exists_reach echoServer.step anyStep (echoServer.create 65536 16 2)
    [.env .functor, .co, .env (.readCqe 4 [1, 2, 3, 4] true), .co, .co, .env (.readCqe 1 [5] true),
      .env (.writeCqe (-ECONNRESET)), .co, .co, .co, .env .unwind, .env (.writeCqe (-ECONNRESET))]
    (fun s => decide (s.session.fault = some .writeHolder)) (by decide +kernel)
  exact ⟨s, run, of_decide_eq_true h⟩

end Proactor
