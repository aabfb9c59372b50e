import Proactor.Connection.OpenRun

/-!
# The echo coroutine

`echo_server` of `test/unit_test/TcpConnectionTest.cc` waits for data, reads what `PrepareToRead`
reports and sends it back, until one of the two awaiters reports an error.  An `Echo` is a session
with that coroutine in the place of an arbitrary one, and with two logs: the payloads that have come
in, and the bytes that the write completions have acknowledged.

Until a completion is fatal no byte is lost: what has been acknowledged, what is unsent, what the
coroutine has in its hands and what is unread are together the received payloads (`Echo.Inv`).  The
coroutine has something in its hands only while it runs, so between two handlers of the loop nothing
is missing from the buffers (`echo_conservation`).
-/

namespace Proactor

open Transition

/-! ## The coroutine -/

/-- Where `echo_server` is. -/
inductive EchoPos
  | prepare
  /-- `PrepareToRead` has been called; `size` is what it returns. -/
  | size
  /-- `data` has been read and is about to be sent. -/
  | data (data : List UInt8)
  /-- `send` has been called; `need_continue` is what it returns. -/
  | sent
  | done

structure Echo where
  session : Session
  pos : EchoPos
  /-- The payloads of the read completions, in their order. -/
  received : List (List UInt8)
  /-- The bytes that the write completions have acknowledged. -/
  acked : List UInt8

inductive EchoAct
  | readCqe (res : ℤ) (data : List UInt8) (more : Bool)
  | writeCqe (res : ℤ)
  | functor
  | drain
  | unwind
  | pressure (low : Bool)
  /-- `echo_server` goes on to its next call. -/
  | co

namespace Echo

/-- A new connection; `WriteContext` takes 256 slices at a time. -/
def create (inputHwm inputHwmChunk outputHwm : ℕ) : Echo where
  session := .create inputHwm inputHwmChunk outputHwm 256
  pos := .prepare
  received := []
  acked := []

/-- The next call of `echo_server`, and where it is then. -/
def next (s : Echo) : Option (CoAct × EchoPos) :=
  match s.pos with
  | .prepare => some (.prepareToRead, .size)
  | .size =>
      let size := s.session.recvResult
      if size < 0 then some (.ret, .done)
      else some (.read size.toNat, .data (s.session.read.removeAsString size.toNat).1)
  | .data data => some (.send data, .sent)
  | .sent =>
      if s.session.sendResult then some (.prepareToRead, .size) else some (.ret, .done)
  | .done => none

def step (s : Echo) : EchoAct → Option Echo
  | .readCqe res data more => (s.session.step (.readCqe res data more)).map fun t =>
      { s with session := t, received := s.received ++ [data] }
  | .writeCqe res => (s.session.step (.writeCqe res)).map fun t =>
      { s with session := t, acked := s.acked ++ s.session.write.batch.take res.toNat }
  | .functor => (s.session.step .functor).map fun t => { s with session := t }
  | .drain => (s.session.step .drain).map fun t => { s with session := t }
  | .unwind => (s.session.step .unwind).map fun t => { s with session := t }
  | .pressure low => (s.session.step (.pressure low)).map fun t => { s with session := t }
  | .co => s.next.bind fun (act, pos) => (s.session.step (.co act)).map fun t =>
      { s with session := t, pos := pos }

/-- No completion is fatal, and no write fails. -/
def BeforeFatal (_ : Echo) : EchoAct → Prop
  | .readCqe res _ _ => ¬ ReadContext.Fatal res
  | .writeCqe res => 0 ≤ res
  | _ => True

instance (s : Echo) : (a : EchoAct) → Decidable (BeforeFatal s a)
  | .readCqe res _ _ => inferInstanceAs (Decidable (¬ ReadContext.Fatal res))
  | .writeCqe res => inferInstanceAs (Decidable (0 ≤ res))
  | .functor | .drain | .unwind | .pressure _ | .co => inferInstanceAs (Decidable True)

/-! ## Conservation -/

/-- Where the coroutine of the session can be while `echo_server` is there. -/
def places : EchoPos → List CoPos
  | .prepare => [.unborn, .onLoop]
  | .size => [.inRecv, .onLoop]
  | .data _ => [.onLoop]
  | .sent => [.inSend, .onLoop]
  | .done => [.final]

/-- The bytes that have left the input buffer and are not in the output buffer yet. -/
def inHand : EchoPos → List UInt8
  | .data data => data
  | _ => []

/-- **What the echo keeps**, in the middle of a handler too. -/
structure Inv (s : Echo) : Prop where
  tame : s.session.Tame
  place : s.session.co ∈ places s.pos
  stream : s.acked ++ s.session.unsent ++ inHand s.pos ++ s.session.unread = s.received.flatten

variable {s s' : Echo} {a : EchoAct}

/-- A resumption finds `echo_server` at one of its two awaits, or before its first line. -/
theorem mem_places_onLoop {pos : EchoPos} {co : CoPos} (h : co ∈ places pos)
    (asleep : Session.asleep co = true) : .onLoop ∈ places pos := by
  cases pos with
  | done =>
      obtain rfl : co = .final := by simpa [places] using h
      exact absurd asleep (by decide)
  | _ => simp [places]

theorem Inv.place_loop (hs : s.Inv) {b : SessionAct} {t : Session} (h : s.session.Move b t)
    (ok : Session.Harmless b) (hb : ∀ act, b ≠ .co act) : t.co ∈ places s.pos := by
  rcases h.loop_co ok hs.tame hb with hco | ⟨hco, asleep⟩
  · rw [hco]
    exact hs.place
  · rw [hco]
    exact mem_places_onLoop hs.place asleep

/-- A step that changes neither buffer. -/
theorem Inv.still (hs : s.Inv) {b : SessionAct} {t : Session} {pos : EchoPos}
    (h : s.session.Move b t) (ok : Session.Harmless b)
    (flow : t.write = s.session.write ∧ t.unread = s.session.unread)
    (place : t.co ∈ places pos) (hand : inHand pos = inHand s.pos) :
    Inv { s with session := t, pos := pos } where
  tame := h.tame ok hs.tame (.of_write hs.tame flow.1)
  place := place
  stream := by
    have hstream := hs.stream
    simp only [Session.unsent, ← flow.1, ← flow.2] at hstream ⊢
    rw [hand]
    exact hstream

theorem Inv.readCqe (hs : s.Inv) {res : ℤ} {data : List UInt8} {more : Bool}
    (ok : ¬ ReadContext.Fatal res) (h : s.step (.readCqe res data more) = some s') : s'.Inv := by
  obtain ⟨t, move, rfl⟩ := Option.map_eq_some_iff.mp h
  have hlen : data.length = res.toNat := (Session.step_readCqe move).2.2
  have hmove := Session.step_move move
  obtain ⟨hwrite, hunread⟩ := hmove.readCqe_flow hlen ok hs.tame
  refine ⟨hmove.tame ok hs.tame (.of_write hs.tame hwrite), hs.place_loop hmove ok (by simp), ?_⟩
  calc s.acked ++ t.unsent ++ inHand s.pos ++ t.unread
      = s.acked ++ s.session.unsent ++ inHand s.pos ++ s.session.unread ++ data := by
        rw [hunread, Session.unsent, hwrite, ← Session.unsent, List.append_assoc _ _ data]
    _ = (s.received ++ [data]).flatten := by rw [hs.stream]; simp

theorem Inv.writeCqe (hs : s.Inv) {res : ℤ} (ok : 0 ≤ res)
    (h : s.step (.writeCqe res) = some s') : s'.Inv := by
  obtain ⟨t, move, rfl⟩ := Option.map_eq_some_iff.mp h
  obtain ⟨-, out, hres⟩ := Session.step_writeCqe move
  have hmove := Session.step_move move
  obtain ⟨sends, hunread⟩ := hmove.writeCqe_flow ok hs.tame
  refine ⟨hmove.tame ok hs.tame sends, hs.place_loop hmove ok (by simp), ?_⟩
  calc s.acked ++ s.session.write.batch.take res.toNat ++ t.unsent ++ inHand s.pos ++ t.unread
      = s.acked ++ (s.session.unsent.take res.toNat ++ s.session.unsent.drop res.toNat)
          ++ inHand s.pos ++ s.session.unread := by
        rw [hs.tame.batch_front out (by omega), sends.bytes, hunread, List.append_assoc s.acked]
    _ = s.received.flatten := by rw [List.take_append_drop, hs.stream]

/-- The loop's own steps. -/
theorem Inv.loop (hs : s.Inv) {b : SessionAct} {t : Session} (move : s.session.step b = some t)
    (ok : Session.Harmless b)
    (hb : b = .functor ∨ b = .drain ∨ b = .unwind ∨ ∃ low, b = .pressure low) :
    Inv { s with session := t } := by
  have hmove := Session.step_move move
  have hnot : ∀ act, b ≠ .co act := by rcases hb with rfl | rfl | rfl | ⟨low, rfl⟩ <;> simp
  exact hs.still hmove ok (hmove.loop_flow ok hs.tame hb) (hs.place_loop hmove ok hnot) rfl

/-- `co_await conn->PrepareToRead()`. -/
theorem Inv.prepareToRead (hs : s.Inv) {t : Session}
    (move : s.session.step (.co .prepareToRead) = some t) (hand : inHand s.pos = []) :
    Inv { s with session := t, pos := .size } := by
  have hmove := Session.step_move move
  obtain ⟨flow, hco⟩ := hmove.prepareToRead_flow hs.tame
  refine hs.still hmove trivial flow ?_ hand.symm
  rcases hco with hco | hco <;> simp [places, hco]

/-- The end of `echo_server`. -/
theorem Inv.ret (hs : s.Inv) {t : Session} (move : s.session.step (.co .ret) = some t)
    (hand : inHand s.pos = []) : Inv { s with session := t, pos := .done } := by
  have hmove := Session.step_move move
  obtain ⟨flow, hco⟩ := hmove.ret_flow hs.tame
  exact hs.still hmove trivial flow (by simp [places, hco]) hand.symm

/-- `std::string data = conn->read(size)`: the bytes go into the hands of the coroutine. -/
theorem Inv.read (hs : s.Inv) {t : Session} {size : ℕ}
    (move : s.session.step (.co (.read size)) = some t) (hpos : s.pos = .size) :
    Inv { s with session := t, pos := .data (s.session.read.removeAsString size).1 } := by
  have hmove := Session.step_move move
  obtain ⟨hwrite, hbytes, hco⟩ := hmove.read_flow hs.tame
  refine ⟨hmove.tame trivial hs.tame (.of_write hs.tame hwrite), ?_, ?_⟩
  · -- the session can only have acted while the coroutine was running
    have hrun := Session.step_co move
    rcases hrun with hrun | hrun
    · simp [places, hco, hrun]
    · exact absurd hrun hs.tame.unclosed.inLoop
  · have hstream := hs.stream
    rw [hpos, ← hbytes] at hstream
    simpa [inHand, Session.unsent, hwrite] using hstream

/-- `co_await conn->send(data)`: the bytes go into the output buffer. -/
theorem Inv.send (hs : s.Inv) {t : Session} {data : List UInt8}
    (move : s.session.step (.co (.send data)) = some t) (hpos : s.pos = .data data) :
    Inv { s with session := t, pos := .sent } := by
  have hmove := Session.step_move move
  obtain ⟨sends, hunread, hco⟩ := hmove.send_flow hs.tame
  refine ⟨hmove.tame trivial hs.tame sends, ?_, ?_⟩
  · rcases hco with hco | hco <;> simp [places, hco]
  · have hstream := hs.stream
    rw [hpos] at hstream
    simpa [inHand, sends.bytes, hunread] using hstream

theorem Inv.co (hs : s.Inv) (h : s.step .co = some s') : s'.Inv := by
  simp only [step, Option.bind_eq_some_iff, Option.map_eq_some_iff] at h
  obtain ⟨⟨act, pos⟩, hnext, t, move, rfl⟩ := h
  unfold next at hnext
  split at hnext
  case h_1 hpos =>
    obtain ⟨rfl, rfl⟩ : .prepareToRead = act ∧ .size = pos := by simpa using hnext
    exact hs.prepareToRead move (by rw [hpos]; rfl)
  case h_2 hpos =>
    simp only at hnext
    split at hnext
    · obtain ⟨rfl, rfl⟩ : .ret = act ∧ .done = pos := by simpa using hnext
      exact hs.ret move (by rw [hpos]; rfl)
    · simp only [Option.some.injEq, Prod.mk.injEq] at hnext
      obtain ⟨rfl, rfl⟩ := hnext
      exact hs.read move hpos
  case h_3 data hpos =>
    obtain ⟨rfl, rfl⟩ : .send data = act ∧ .sent = pos := by simpa using hnext
    exact hs.send move hpos
  case h_4 hpos =>
    split at hnext
    · obtain ⟨rfl, rfl⟩ : .prepareToRead = act ∧ .size = pos := by simpa using hnext
      exact hs.prepareToRead move (by rw [hpos]; rfl)
    · obtain ⟨rfl, rfl⟩ : .ret = act ∧ .done = pos := by simpa using hnext
      exact hs.ret move (by rw [hpos]; rfl)
  case h_5 => exact absurd hnext (by simp)

theorem Inv.step (hs : s.Inv) (ok : BeforeFatal s a) (h : s.step a = some s') : s'.Inv := by
  cases a with
  | readCqe res data more => exact hs.readCqe ok h
  | writeCqe res => exact hs.writeCqe ok h
  | functor =>
      obtain ⟨t, move, rfl⟩ := Option.map_eq_some_iff.mp h
      exact hs.loop move trivial (.inl rfl)
  | drain =>
      obtain ⟨t, move, rfl⟩ := Option.map_eq_some_iff.mp h
      exact hs.loop move trivial (.inr (.inl rfl))
  | unwind =>
      obtain ⟨t, move, rfl⟩ := Option.map_eq_some_iff.mp h
      exact hs.loop move trivial (.inr (.inr (.inl rfl)))
  | pressure low =>
      obtain ⟨t, move, rfl⟩ := Option.map_eq_some_iff.mp h
      exact hs.loop move trivial (.inr (.inr (.inr ⟨low, rfl⟩)))
  | co => exact hs.co h

theorem inv_create (inputHwm inputHwmChunk outputHwm : ℕ) :
    (create inputHwm inputHwmChunk outputHwm).Inv where
  tame := Session.tame_create _ _ _
  place := by simp [create, places, Session.create, Session.start]
  stream := rfl

/-- Between two handlers the coroutine has nothing in its hands. -/
theorem Inv.empty_handed (hs : s.Inv) (idle : s.session.ctl = .idle) : inHand s.pos = [] := by
  cases hpos : s.pos with
  | data data =>
      have hco : s.session.co = .onLoop := by simpa [hpos, places] using hs.place
      have hrun := hs.tame.located.placed.loop.mp hco
      exact absurd hrun (by simp [idle, Ctl.runsCo])
  | _ => rfl

/-- **Echo conservation.**  With any water marks, whatever the read completions carry and however
they end, whatever part of a batch the write completions acknowledge, and in whatever order they
resume the coroutine: until the first fatal completion, whenever the loop is not inside a handler,
the acknowledged bytes followed by the unsent and the unread ones are the received payloads. -/
theorem echo_conservation {inputHwm inputHwmChunk outputHwm : ℕ} {s : Echo}
    (run : Reach step BeforeFatal (create inputHwm inputHwmChunk outputHwm) s)
    (idle : s.session.ctl = .idle) :
    s.session.fault = none ∧
      s.acked ++ s.session.write.outputBuffer.unsent ++ s.session.read.inputBuffer.flatten
        = s.received.flatten := by
  have h : s.Inv := run.invariant (inv_create _ _ _) fun _ _ _ hs ok move => hs.step ok move
  refine ⟨h.tame.sound, ?_⟩
  have hstream := h.stream
  rw [h.empty_handed idle, List.append_nil] at hstream
  exact hstream

/-- Five bytes come in above both high water marks.  The coroutine reads three of them, is suspended
in `send`, and goes on with the rest when two bytes are out; the cancelled receive has ended. -/
theorem echo_conservation_suspended :
    ∃ s, Reach step BeforeFatal (create 2 16 2) s ∧ s.session.co = .inSend ∧ s.acked = [1, 2] ∧
      s.received.flatten = [1, 2, 3, 4, 5] ∧ s.session.read.status = .stoped ∧
      s.acked ++ s.session.write.outputBuffer.unsent ++ s.session.read.inputBuffer.flatten
        = s.received.flatten := by
  obtain ⟨s, run, h⟩ := exists_reach step BeforeFatal (create 2 16 2)
    [.functor, .co, .readCqe 3 [1, 2, 3] true, .co, .co, .readCqe 2 [4, 5] true,
      .readCqe (-ECANCELED) [] false, .writeCqe 2, .co, .co, .co]
    (fun s => decide (s.session.ctl = .idle ∧ s.session.co = .inSend ∧ s.acked = [1, 2] ∧
      s.received.flatten = [1, 2, 3, 4, 5] ∧ s.session.read.status = .stoped)) (by decide +kernel)
  obtain ⟨idle, hco, hacked, hreceived, hstatus⟩ := of_decide_eq_true h
  exact ⟨s, run, hco, hacked, hreceived, hstatus, (echo_conservation run idle).2⟩

end Echo

end Proactor
