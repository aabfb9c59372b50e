import Proactor.Connection.Delivery
import Proactor.Connection.Echo
import Proactor.Connection.LoopCoroutine

/-!
# Coroutines that send back what they read

An `EchoProgram` is a coroutine that reads, sends what it has read and has nothing else in its
hands.  Its fields say of the program what the proofs need: what it may call in which position, and
that after a `send` that has failed it returns, or waits for data that is not there.

Such a program keeps to the loop (`LoopCoroutine`), so no assertion fails; and it conserves the
bytes (`EchoProgram.conserves`).  The runs go to the end of the connection and beyond: fatal
completions of either side, the branches that resume the coroutine before they close, `Destroyed`,
completions that arrive after the close.
-/

namespace Proactor

open Transition

namespace Session

section

variable {s s' : Session} {a : SessionAct}

/-! ## What a step does to the bytes -/

/-- Only write completions and `send` change the unsent bytes. -/
theorem Move.unsent_eq (h : Move s a s') (hs : s.LoopBound) (hcqe : ∀ res, a ≠ .writeCqe res)
    (hsend : ∀ data, a ≠ .co (.send data)) : s'.unsent = s.unsent := by
  have hwrite : s'.write.outputBuffer = s.write.outputBuffer → s'.unsent = s.unsent := by
    intro h
    rw [unsent, h, unsent]
  cases h with
  | readMore idle out holder status woke =>
      rw [unsent, woke.buffers.1]
      rfl
  | readStopped idle out holder fatal status woke =>
      rw [unsent, woke.buffers.1]
      rfl
  | readAgain idle out holder fatal status woke =>
      rw [submitRead_eq] at woke
      rw [unsent, woke.buffers.1]
      rfl
  | readFatal => exact hwrite (by simp [took])
  | writeMore => exact absurd rfl (hcqe _)
  | writeFatal => exact absurd rfl (hcqe _)
  | writeClose => exact absurd rfl (hcqe _)
  | recvRegister idle head => exact (hs.no_await head).elim
  | recvResume idle head => exact (hs.no_await head).elim
  | sendRegister idle head => exact (hs.no_await head).elim
  | sendResume idle head => exact (hs.no_await head).elim
  | sendLate => exact absurd rfl (hsend _)
  | sendThrough => exact absurd rfl (hsend _)
  | sendSuspend => exact absurd rfl (hsend _)
  | sendLateWorker => exact absurd rfl (hsend _)
  | sendLeave => exact absurd rfl (hsend _)
  | recvReady => exact hwrite (by rw [recvAwaitResume_eq])
  | recvLate => exact hwrite (by rw [recvAwaitResume_eq])
  | recvSuspend => exact hwrite (by rw [awaitRead_eq])
  | _ => exact hwrite rfl

/-- The batch that is out is the front of the unsent bytes. -/
theorem Sheltered.batch_front (hs : s.Sheltered) (out : 0 < s.kernelWrites) :
    s.write.batch.length = s.batchLen ∧ s.write.batch <+: s.unsent := by
  have hsend := hs.writing.sending out
  obtain ⟨⟨l, k, hrep, hbatch, -⟩, -⟩ := hs.fronted (writable_of_sending hsend)
  refine ⟨?_, WriteContext.batch_prefix hrep (hbatch hsend)⟩
  have hload := hrep.load_iovecs fun p (hp : p ∈ l.take k) => List.mem_of_mem_take hp
  rw [WriteContext.batch, batchLen, hbatch hsend, hload, List.length_flatten, List.map_map,
    List.map_map]
  congr 1
  exact List.map_congr_left fun p hp => hrep.rest_length (List.mem_of_mem_take hp)

theorem Sheltered.batch_take (hs : s.Sheltered) (out : 0 < s.kernelWrites) {n : ℕ}
    (hn : n ≤ s.batchLen) : s.write.batch.take n = s.unsent.take n := by
  obtain ⟨hlen, rest, hrest⟩ := hs.batch_front out
  rw [← hrest, List.take_append_of_le_length (hlen ▸ hn)]

/-- A write completion takes what it acknowledges off the unsent bytes; a fatal one nothing. -/
theorem Move.writeCqe_unsent {res : ℤ} (h : Move s (.writeCqe res) s')
    (stays : StaysOnLoop s (.writeCqe res)) (hs : s.Sheltered) (sound : s'.fault = none) :
    s'.unsent = s.unsent.drop res.toNat := by
  have hnone : WriteContext.Fatal res → res.toNat = 0 := by
    intro fatal
    have hneg := fatal.1
    omega
  cases h with
  | abort => simp at sound
  | writeMore idle out holder fatal proceeds woke =>
      obtain ⟨hfront, hslices⟩ := hs.fronted (writable_of_sending (hs.writing.sending out))
      obtain ⟨w', flushed', hw', -, -, -, hfragments, -⟩ :=
        hfront.complete hslices (stays.count fatal)
      obtain ⟨rfl, rfl⟩ : _ = w' ∧ _ = flushed' := by simpa using proceeds.symm.trans hw'
      rw [unsent, woke.buffers.2]
      exact SendQueue.unsent_of_skip hfragments
  | writeFatal idle out holder fatal => simp [unsent, hnone fatal]
  | writeClose idle out holder fatal => simp [unsent, hnone fatal, shut, endWrite]

/-- `send` appends to the unsent bytes. -/
theorem Sheltered.send_unsent {data : List UInt8} (hs : s.Sheltered)
    (stays : StaysOnLoop s (.co (.send data))) (move : s.step (.co (.send data)) = some s') :
    s'.unsent = s.unsent ++ data := by
  obtain ⟨frame, ctl⟩ := hs.runs move
  have opened := hs.bound.opened (by simp [ctl])
  obtain ⟨hfront, hslices⟩ := hs.fronted (stays.writable ctl opened)
  obtain ⟨w, hw, -, -, hfragments, -, -⟩ := hfront.sendInLoop hslices data
  have hbytes := SendQueue.unsent_of_append hfragments
  have sound := hs.no_fault stays move
  cases step_move move with
  | abort => simp at sound
  | sendLate here ctl closed => exact absurd (closed.symm.trans opened) (by decide)
  | sendThrough here ctl opened sends load =>
      obtain ⟨rfl, rfl⟩ : _ = w ∧ _ := by simpa using sends.symm.trans hw
      rw [sendAwaitResume_eq]
      exact hbytes
  | sendSuspend here ctl opened sends load =>
      obtain ⟨rfl, rfl⟩ : _ = w ∧ _ := by simpa using sends.symm.trans hw
      exact hbytes
  | sendLateWorker here => exact (hs.bound.not_worker here).elim
  | sendLeave here => exact (hs.bound.not_worker here).elim

/-! ## What a step does to the coroutine -/

/-- How a step of the loop, the kernel or the server leaves the coroutine. -/
inductive Stirs (s : Session) (a : SessionAct) (s' : Session) : Prop
  /-- The loop has done something else. -/
  | rest (co : s'.co = s.co) (idle : s'.ctl = .idle)
  /-- Another thread has done something else. -/
  | aside (co : s'.co = s.co) (ctl : s'.ctl = s.ctl) (result : s'.sendResult = s.sendResult)
      (read : s'.read = s.read)
  | wakes (asleep : asleep s.co = true) (co : s'.co = .onLoop) (ctl : s'.ctl ≠ .inCo .writeFatal)
  /-- The fatal branch of a write completion resumes it, with a failed `send`. -/
  | fails {res : ℤ} (cqe : a = .writeCqe res) (fatal : WriteContext.Fatal res)
      (handle : s.write.writeHandle = true) (waits : s.co = .inSend) (co : s'.co = .onLoop)
      (result : s'.sendResult = false) (read : s'.read = s.read)

theorem WokeReader.stirs {t : Session} (h : WokeReader t s') (hh : s.Handles) (idle : s.ctl = .idle)
    (hhandle : t.read.readHandle = s.read.readHandle) (hco : t.co = s.co := by rfl)
    (htask : t.task = s.task := by rfl) (hctl : t.ctl = s.ctl := by rfl) : Stirs s a s' := by
  cases h with
  | asleep => exact .rest hco (hctl.trans idle)
  | woken handle alive =>
      have hwaits := hh.reader (by simp [idle, Ctl.inReadFatal]) (htask ▸ alive) (hhandle ▸ handle)
      exact .wakes (by rw [hwaits.1]; rfl) (by simp) (by simp)

theorem Move.stirs (h : Move s a s') (hs : s.Sheltered) (hco : ∀ act, a ≠ .co act) :
    Stirs s a s' := by
  cases h with
  | abort => exact .aside rfl rfl rfl rfl
  | readMore idle out holder status woke =>
      exact woke.stirs hs.handles idle (s.took_frame _ _ _).2.1
  | readStopped idle out holder fatal status woke =>
      exact woke.stirs hs.handles idle (s.took_frame _ _ _).2.1
  | readAgain idle out holder fatal status woke =>
      rw [submitRead_eq] at woke
      exact woke.stirs hs.handles idle (s.took_frame _ _ _).2.1
  | readFatal idle out holder status fatal handle alive =>
      have hwaits := hs.handles.reader (by simp [idle, Ctl.inReadFatal]) alive handle
      exact .wakes (by rw [hwaits.1]; rfl) (by simp) (by simp)
  | readClose idle => exact .rest rfl idle
  | writeMore idle out holder fatal proceeds woke =>
      obtain ⟨-, -, -, hhandle, -, -⟩ := WriteContext.proceed_frame proceeds
      rw [s.write.acknowledge_writeHandle] at hhandle
      cases woke with
      | asleep => exact .rest rfl idle
      | woken handle drained alive =>
          have hwaits := hs.handles.writer (by simp [idle, Ctl.inWriteFatal]) alive
            (hhandle.symm.trans handle)
          exact .wakes (by rw [hwaits.1]; rfl) (by simp) (by simp)
  | writeFatal idle out holder fatal handle alive =>
      have hwaits := hs.handles.writer (by simp [idle, Ctl.inWriteFatal]) alive handle
      exact .fails rfl fatal handle hwaits.1 (by simp) (by simp [woken_eq, hwaits.1]) (by simp)
  | writeClose idle => exact .rest rfl idle
  | established idle head =>
      exact .wakes (by rw [hs.born.unborn head]; rfl) rfl (by simp)
  | destroyed idle => exact .rest rfl idle
  | recvRegister idle head => exact (hs.bound.no_await head).elim
  | recvResume idle head => exact (hs.bound.no_await head).elim
  | sendRegister idle head => exact (hs.bound.no_await head).elim
  | sendResume idle head => exact (hs.bound.no_await head).elim
  | drainRead idle => exact .rest rfl idle
  | drainWrite idle => exact .rest rfl idle
  | unwindRead => exact .rest rfl rfl
  | unwindWrite => exact .rest rfl rfl
  | enqueue here =>
      have hplace := hs.bound.place
      simp [here, onLoopSide] at hplace
  | poolTake queued => exact absurd (queued.symm.trans hs.bound.pool) (by decide)
  | serverDestroy => exact .aside rfl rfl rfl rfl
  | removeConnection => exact .aside rfl rfl rfl rfl
  | pressure => exact .aside rfl rfl rfl rfl
  | _ => exact absurd rfl (hco _)

/-- Where a call suspends the coroutine, if it does. -/
def away : CoAct → CoPos
  | .prepareToRead => .inRecv
  | .send _ => .inSend
  | .switchThread => .pooled
  | .read _ => .onLoop
  | .ret => .final

/-- A call returns at once, or the coroutine leaves the loop thread's stack. -/
theorem Sheltered.calls {act : CoAct} (hs : s.Sheltered) (stays : StaysOnLoop s (.co act))
    (move : s.step (.co act) = some s') :
    (s'.co = .onLoop ∧ s'.ctl = s.ctl ∧ act ≠ .ret) ∨
      (s'.co = away act ∧ ∀ frame, s'.ctl ≠ .inCo frame) := by
  have hmove := step_move move
  have sound := hs.no_fault stays move
  have hnot : s.co ≠ .onWorker := fun here => hs.bound.not_worker here
  have here : s.co = .onLoop := (step_co move).resolve_right hnot
  cases hmove with
  | abort => simp at sound
  | recvReady =>
      rw [recvAwaitResume_eq]
      exact .inl ⟨here, rfl, by simp⟩
  | recvSuspend => exact .inr ⟨rfl, by simp⟩
  | sendLate =>
      rw [sendAwaitResume_eq]
      exact .inl ⟨here, rfl, by simp⟩
  | sendThrough =>
      rw [sendAwaitResume_eq]
      exact .inl ⟨here, rfl, by simp⟩
  | sendSuspend => exact .inr ⟨rfl, by simp⟩
  | switchLoop => exact .inr ⟨rfl, by simp⟩
  | retLoop => exact .inr ⟨rfl, by simp⟩
  | read => exact .inl ⟨here, rfl, by simp⟩
  | recvLate here => exact absurd here hnot
  | sendLateWorker here => exact absurd here hnot
  | recvLeave here => exact absurd here hnot
  | sendLeave here => exact absurd here hnot
  | switchWorker here => exact absurd here hnot
  | retWorker here => exact absurd here hnot

/-- Returning, and waiting for data that is not there, are calls that do not return at once. -/
theorem Sheltered.gives_up {act : CoAct} (hs : s.Sheltered) (move : s.step (.co act) = some s')
    (h : act = .ret ∨ act = .prepareToRead ∧ s.read.isEmpty = true) (frame : Frame) :
    s'.ctl ≠ .inCo frame := by
  obtain ⟨frame', ctl⟩ := hs.runs move
  have here : s.co = .onLoop := hs.placed.loop.mpr (by simp [ctl, Ctl.runsCo])
  have opened := hs.bound.opened (by simp [ctl])
  unfold Session.step at move
  rw [if_neg (by simp [hs.sound])] at move
  simp only [here, ctl, Option.some.injEq] at move
  rcases h with rfl | ⟨rfl, empty⟩
  · simp [← move, actOnLoop, commit]
  · simp [← move, actOnLoop, commit, opened, empty]

end

end Session

/-! ## Echo programs -/

/-- What an echo program may call, with nothing but its input in its hands.  `hand` is what it holds
in a position, `places` where the coroutine of the session can be then. -/
inductive EchoCall {π : Type} (hand : π → List UInt8) (places : π → List CoPos) (s : Session)
    (pos : π) : CoAct → π → Prop
  | prepareToRead {pos' : π} (before : hand pos = []) (after : hand pos' = [])
      (here : .onLoop ∈ places pos') (away : .inRecv ∈ places pos') :
      EchoCall hand places s pos .prepareToRead pos'
  | read {size : ℕ} {pos' : π} (before : hand pos = [])
      (after : hand pos' = (s.read.removeAsString size).1) (here : .onLoop ∈ places pos') :
      EchoCall hand places s pos (.read size) pos'
  | send {pos' : π} (after : hand pos' = []) (here : .onLoop ∈ places pos')
      (away : .inSend ∈ places pos') : EchoCall hand places s pos (.send (hand pos)) pos'
  | ret {pos' : π} (before : hand pos = []) (after : hand pos' = [])
      (away : .final ∈ places pos') : EchoCall hand places s pos .ret pos'

/-- **A coroutine that sends back what it reads.**  After a `send` that has failed it returns, or
waits for data that is not there, if `calm` holds of the input then. -/
structure EchoProgram (π : Type) where
  start : π
  /-- The next call, and the position after it. -/
  next : π → Session → Option (CoAct × π)
  hand : π → List UInt8
  places : π → List CoPos
  calm : ReadContext → Bool
  start_hand : hand start = []
  start_places : .unborn ∈ places start
  calls {pos : π} {s : Session} {act : CoAct} {pos' : π} (h : next pos s = some (act, pos')) :
    EchoCall hand places s pos act pos'
  wakes {pos : π} {co : CoPos} (h : co ∈ places pos) (asleep : Session.asleep co = true) :
    .onLoop ∈ places pos
  holds {pos : π} (h : hand pos ≠ []) : places pos = [.onLoop]
  givesUp {pos : π} {s : Session} {act : CoAct} {pos' : π} (waits : .inSend ∈ places pos)
    (failed : s.sendResult = false) (h : calm s.read = true)
    (call : next pos s = some (act, pos')) :
    act = .ret ∨ act = .prepareToRead ∧ s.read.isEmpty = true

/-- A connection with an echo program for its coroutine, and the logs of an `Echo`. -/
structure Hosted (π : Type) where
  session : Session
  pos : π
  /-- The payloads of the read completions, in their order. -/
  received : List (List UInt8)
  /-- The bytes that the write completions have acknowledged. -/
  acked : List UInt8

inductive HostAct
  /-- The coroutine goes on to its next call. -/
  | co
  /-- Anything else. -/
  | env (a : SessionAct)

/-- The payload that comes with a step. -/
def SessionAct.payload : SessionAct → List (List UInt8)
  | .readCqe _ data _ => [data]
  | _ => []

/-- The bytes that a step acknowledges. -/
def Session.acknowledged (s : Session) : SessionAct → List UInt8
  | .writeCqe res => s.write.batch.take res.toNat
  | _ => []

namespace EchoProgram

variable {π : Type} (p : EchoProgram π)

def create (inputHwm inputHwmChunk outputHwm : ℕ) : Hosted π where
  session := .create inputHwm inputHwmChunk outputHwm 256
  pos := p.start
  received := []
  acked := []

def step (s : Hosted π) : HostAct → Option (Hosted π)
  | .co => (p.next s.pos s.session).bind fun (act, pos) =>
      (s.session.step (.co act)).map fun t => { s with session := t, pos := pos }
  | .env a =>
      if a.isCo then none
      else (s.session.step a).map fun t => { s with
        session := t
        received := s.received ++ a.payload
        acked := s.acked ++ s.session.acknowledged a }

/-- No write is retried, and one that fails under a suspended `send` finds a calm input. -/
def Fits (s : Hosted π) : HostAct → Prop
  | .env (.writeCqe res) => ¬ WriteContext.Transient res ∧
      (WriteContext.Fatal res → s.session.write.writeHandle = true →
        p.calm s.session.read = true)
  | _ => True

instance (s : Hosted π) : (a : HostAct) → Decidable (p.Fits s a)
  | .env (.writeCqe _) => inferInstanceAs (Decidable (_ ∧ _))
  | .env (.readCqe _ _ _) | .env .functor | .env .drain | .env .unwind | .env (.co _)
  | .env .enqueue | .env .poolTake | .env .serverDestroy | .env .removeConnection
  | .env (.pressure _) | .env .readRace | .co => inferInstanceAs (Decidable True)

/-- **What an echo program keeps**, in the middle of a handler too. -/
structure Inv (s : Hosted π) : Prop where
  sheltered : s.session.Sheltered
  place : s.session.co ∈ p.places s.pos
  stream : s.acked ++ s.session.unsent ++ p.hand s.pos ++ s.session.unread = s.received.flatten
  failed : s.session.ctl = .inCo .writeFatal →
    .inSend ∈ p.places s.pos ∧ s.session.sendResult = false ∧ p.calm s.session.read = true

variable {p} {s s' : Hosted π} {a : SessionAct} {t : Session}

/-- The steps of the others never stray. -/
theorem Fits.stays (fits : p.Fits s (.env a)) (hco : a.isCo = false) :
    Session.StaysOnLoop s.session a := by
  cases a with
  | writeCqe res => simpa [Session.StaysOnLoop, Session.strays] using fits.1
  | co act => simp [SessionAct.isCo] at hco
  | _ => rfl

/-- The bytes after a step of the others. -/
theorem Inv.env_stream (hs : p.Inv s) (fits : p.Fits s (.env a)) (hco : a.isCo = false)
    (move : s.session.step a = some t) :
    s.acked ++ s.session.acknowledged a ++ t.unsent ++ p.hand s.pos ++ t.unread
      = (s.received ++ a.payload).flatten := by
  have stays := fits.stays hco
  have sound := hs.sheltered.no_fault stays move
  have hmove := Session.step_move move
  have hstream := hs.stream
  cases a with
  | readCqe res data more =>
      have hunsent := hmove.unsent_eq hs.sheltered.bound (by simp) (by simp)
      have hunread := hmove.readCqe_unread (Session.step_readCqe move).2.2 sound
      simp only [Session.acknowledged, SessionAct.payload, List.append_nil, List.flatten_append,
        List.flatten_cons, List.flatten_nil]
      rw [hunsent, hunread, ← List.append_assoc, hstream]
  | writeCqe res =>
      obtain ⟨-, out, hres⟩ := Session.step_writeCqe move
      have hunsent := hmove.writeCqe_unsent stays hs.sheltered sound
      have hunread := hmove.readEffect.unread (by simp) (by simp)
      simp only [Session.acknowledged, SessionAct.payload, List.append_nil]
      rw [hs.sheltered.batch_take out (by omega), hunsent, hunread, List.append_assoc s.acked,
        List.take_append_drop, hstream]
  | co act => simp [SessionAct.isCo] at hco
  | _ =>
      have hunsent := hmove.unsent_eq hs.sheltered.bound (by simp) (by simp)
      have hunread := hmove.readEffect.unread (by simp) (by simp)
      simpa [Session.acknowledged, SessionAct.payload, hunsent, hunread] using hstream

/-- Where the others leave the coroutine. -/
theorem Inv.env_place (hs : p.Inv s) (h : Session.Stirs s.session a t) : t.co ∈ p.places s.pos := by
  cases h with
  | rest co => exact co ▸ hs.place
  | aside co => exact co ▸ hs.place
  | wakes asleep co => exact co ▸ p.wakes hs.place asleep
  | fails cqe fatal handle waits co => exact co ▸ p.wakes hs.place (by rw [waits]; rfl)

theorem Inv.env_failed (hs : p.Inv s) (fits : p.Fits s (.env a)) (h : Session.Stirs s.session a t)
    (ctl : t.ctl = .inCo .writeFatal) :
    .inSend ∈ p.places s.pos ∧ t.sendResult = false ∧ p.calm t.read = true := by
  cases h with
  | rest _ idle => exact absurd (idle.symm.trans ctl) (by simp)
  | aside co hctl result read =>
      rw [result, read]
      exact hs.failed (hctl ▸ ctl)
  | wakes _ _ hctl => exact absurd ctl hctl
  | fails cqe fatal handle waits co result read =>
      subst cqe
      refine ⟨waits ▸ hs.place, result, ?_⟩
      rw [read]
      exact fits.2 fatal handle

theorem Inv.env (hs : p.Inv s) (fits : p.Fits s (.env a)) (hco : a.isCo = false)
    (move : s.session.step a = some t) :
    p.Inv { s with
      session := t, received := s.received ++ a.payload,
      acked := s.acked ++ s.session.acknowledged a } := by
  have hnot : ∀ act, a ≠ .co act := by
    rintro act rfl
    simp [SessionAct.isCo] at hco
  have hstirs := (Session.step_move move).stirs hs.sheltered hnot
  exact ⟨hs.sheltered.step (fits.stays hco) move, hs.env_place hstirs,
    hs.env_stream fits hco move, hs.env_failed fits hstirs⟩

/-- No call of the program strays: from inside the fatal branch it does not send. -/
theorem Inv.stays (hs : p.Inv s) {act : CoAct} {pos : π}
    (call : p.next s.pos s.session = some (act, pos)) :
    Session.StaysOnLoop s.session (.co act) := by
  cases p.calls call with
  | prepareToRead => rfl
  | read => rfl
  | ret => rfl
  | send after here away =>
      have hctl : s.session.ctl ≠ .inCo .writeFatal := by
        intro ctl
        obtain ⟨waits, failed, calm⟩ := hs.failed ctl
        rcases p.givesUp waits failed calm call with h | ⟨h, -⟩ <;> simp at h
      simp [Session.StaysOnLoop, Session.strays, hctl]

/-- **A call of the program.** -/
theorem Inv.co (hs : p.Inv s) {act : CoAct} {pos : π}
    (call : p.next s.pos s.session = some (act, pos)) (move : s.session.step (.co act) = some t) :
    p.Inv { s with session := t, pos := pos } := by
  have stays := hs.stays call
  have hstream := hs.stream
  have hcalls := hs.sheltered.calls stays move
  have hfatal : t.ctl ≠ .inCo .writeFatal := by
    intro ctl
    rcases hcalls with ⟨-, hctl, -⟩ | ⟨-, hctl⟩
    · obtain ⟨waits, failed, calm⟩ := hs.failed (hctl ▸ ctl)
      exact hs.sheltered.gives_up move (p.givesUp waits failed calm call) _ ctl
    · exact hctl _ ctl
  refine ⟨hs.sheltered.step stays move, ?_, ?_, fun ctl => absurd ctl hfatal⟩
  · rcases hcalls with ⟨hco, -, hret⟩ | ⟨hco, -⟩
    · rw [hco]
      cases p.calls call with
      | prepareToRead before after here away => exact here
      | read before after here => exact here
      | send after here away => exact here
      | ret => exact absurd rfl hret
    · rw [hco]
      cases p.calls call with
      | prepareToRead before after here away => exact away
      | read before after here => exact here
      | send after here away => exact away
      | ret before after away => exact away
  · have hmove := Session.step_move move
    cases p.calls call with
    | prepareToRead before after here away =>
        have hunsent := hmove.unsent_eq hs.sheltered.bound (by simp) (by simp)
        have hunread := hmove.readEffect.unread (by simp) (by simp)
        simp only [hunsent, hunread, after]
        rwa [before] at hstream
    | read before after here =>
        have hunsent := hmove.unsent_eq hs.sheltered.bound (by simp) (by simp)
        have hunread := hmove.read_unread (hs.sheltered.no_fault stays move)
        have hbytes : p.hand pos ++ t.unread = s.session.unread := by
          rw [hunread, after]
          exact List.take_append_drop _ _
        rw [before, ← hbytes] at hstream
        simpa [hunsent] using hstream
    | send after here away =>
        have hunsent := hs.sheltered.send_unsent stays move
        have hunread := hmove.readEffect.unread (by simp) (by simp)
        simpa [hunsent, hunread, after] using hstream
    | ret before after away =>
        have hunsent := hmove.unsent_eq hs.sheltered.bound (by simp) (by simp)
        have hunread := hmove.readEffect.unread (by simp) (by simp)
        simp only [hunsent, hunread, after]
        rwa [before] at hstream

theorem Inv.step {a : HostAct} (hs : p.Inv s) (fits : p.Fits s a) (h : p.step s a = some s') :
    p.Inv s' := by
  cases a with
  | co =>
      simp only [EchoProgram.step, Option.bind_eq_some_iff, Option.map_eq_some_iff] at h
      obtain ⟨⟨act, pos⟩, call, t, move, rfl⟩ := h
      exact hs.co call move
  | env a =>
      simp only [EchoProgram.step, Option.ite_none_left_eq_some, Option.map_eq_some_iff,
        Bool.not_eq_true] at h
      obtain ⟨hco, t, move, rfl⟩ := h
      exact hs.env fits hco move

theorem inv_create (inputHwm inputHwmChunk outputHwm : ℕ) :
    p.Inv (p.create inputHwm inputHwmChunk outputHwm) where
  sheltered := Session.sheltered_create _ _ _ (by decide)
  place := p.start_places
  stream := by
    rw [create, p.start_hand]
    rfl
  failed := by simp [create, Session.create, Session.start]

/-- Between two handlers the program has nothing in its hands. -/
theorem Inv.empty_handed (hs : p.Inv s) (idle : s.session.ctl = .idle) : p.hand s.pos = [] := by
  by_contra h
  have hco : s.session.co = .onLoop := by simpa [p.holds h] using hs.place
  have hrun := hs.sheltered.placed.loop.mp hco
  simp [idle, Ctl.runsCo] at hrun

/-- **An echo program fails nowhere and loses nothing.** -/
theorem conserves {inputHwm inputHwmChunk outputHwm : ℕ}
    (run : Reach p.step p.Fits (p.create inputHwm inputHwmChunk outputHwm) s) :
    s.session.fault = none ∧ s.acked <+: s.received.flatten ∧
      (s.session.ctl = .idle →
        s.acked ++ s.session.write.outputBuffer.unsent ++ s.session.read.inputBuffer.flatten
          = s.received.flatten) := by
  have h : p.Inv s := run.invariant (inv_create _ _ _) fun _ _ _ hs fits move => hs.step fits move
  have hstream := h.stream
  refine ⟨h.sheltered.sound, ?_, ?_⟩
  · rw [← hstream, List.append_assoc, List.append_assoc]
    exact List.prefix_append _ _
  · intro idle
    rw [h.empty_handed idle, List.append_nil] at hstream
    exact hstream

end EchoProgram

end Proactor
