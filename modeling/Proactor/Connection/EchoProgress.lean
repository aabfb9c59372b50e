import Proactor.Connection.Awaits
import Proactor.Connection.EchoServers
import Proactor.Connection.Requests
import Proactor.Output.Full

/-!
# The echo server while its connection is open

What the server of the README needs to go on, in every run without a fatal completion (`Lively`):
what `PrepareToRead` has returned is still what there is when the server reads, a coroutine that
waits for data has read everything, and the output queue has no empty fragment.

The server sends no empty string, so a batch always carries bytes (`WriteContext.Full`).  What it
has not read stays below `2 ^ 31` bytes, so the `int` it is told is what there is.
-/

namespace Proactor

open Transition

namespace Session

section

variable {s s' : Session} {a : SessionAct}

/-- A request that is out carries bytes. -/
theorem Sheltered.batch_pos (hs : s.Sheltered) (full : s.write.Full) (out : 0 < s.kernelWrites) :
    0 < s.batchLen := by
  have hsend := hs.writing.sending out
  obtain ⟨⟨l, k, hrep, hbatch, -⟩, -⟩ := hs.fronted (writable_of_sending hsend)
  have hne := full.batch hsend
  rw [batchLen, hbatch hsend]
  rw [hbatch hsend] at hne
  cases hl : l.take k with
  | nil => simp [hl] at hne
  | cons p ps =>
      have hp : p ∈ l := List.mem_of_mem_take (hl ▸ List.mem_cons_self)
      have hrest : (s.write.outputBuffer.heap p).rest ≠ [] := by
        refine full.fragments _ ?_
        rw [hrep.fragments_eq]
        exact List.mem_map_of_mem hp
      have hlen := hrep.rest_length hp
      have hpos := List.length_pos_iff.mpr hrest
      simp only [List.map_cons, List.sum_cons, SendQueue.iovecOf]
      omega

/-! ## Steps of an open connection -/

/-- Nothing but `send` and write completions touches the queue, and neither leaves an empty
fragment or an empty batch. -/
theorem Move.full (h : Move s a s') (ok : Harmless a) (stays : StaysOnLoop s a) (hs : s.Sheltered)
    (hopen : s.Unclosed) (hdata : ∀ data, a = .co (.send data) → data ≠ [])
    (full : s.write.Full) : s'.write.Full := by
  have hsends : ∀ {data frame w flushed}, a = .co (.send data) → s.ctl = .inCo frame →
      s.closing = false → s.write.sendInLoop data = some (w, flushed) → w.Full := by
    intro data frame w flushed ha ctl opened sends
    obtain ⟨hfront, hslices⟩ := hs.fronted ((ha ▸ stays).writable ctl opened)
    exact full.sendInLoop hfront hslices (hdata data ha) sends
  cases h with
  | abort => exact full
  | readMore idle out holder status woke =>
      rw [woke.buffers.1]
      exact full
  | readStopped idle out holder fatal status woke =>
      rw [woke.buffers.1]
      exact full
  | readAgain idle out holder fatal status woke =>
      rw [submitRead_eq] at woke
      rw [woke.buffers.1]
      exact full
  | readFatal _ _ _ _ fatal => exact absurd fatal ok
  | readClose _ _ _ _ fatal => exact absurd fatal ok
  | writeMore idle out holder fatal proceeds woke =>
      obtain ⟨hfront, hslices⟩ := hs.fronted (writable_of_sending (hs.writing.sending out))
      rw [woke.buffers.2]
      exact (full.complete hfront hslices ok proceeds).congr
  | writeFatal _ _ _ fatal => exact absurd fatal.1 (Int.not_lt.mpr ok)
  | writeClose _ _ _ fatal => exact absurd fatal.1 (Int.not_lt.mpr ok)
  | recvRegister idle head => exact (hs.bound.no_await head).elim
  | recvResume idle head => exact (hs.bound.no_await head).elim
  | sendRegister idle head => exact (hs.bound.no_await head).elim
  | sendResume idle head => exact (hs.bound.no_await head).elim
  | recvReady =>
      rw [recvAwaitResume_eq]
      exact full
  | recvLate here => exact (hs.bound.not_worker here).elim
  | recvSuspend =>
      rw [awaitRead_eq]
      exact full
  | sendLate =>
      rw [sendAwaitResume_eq]
      exact full
  | sendLateWorker here => exact (hs.bound.not_worker here).elim
  | sendThrough here ctl opened sends load =>
      rw [sendAwaitResume_eq]
      exact hsends rfl ctl opened sends
  | sendSuspend here ctl opened sends load => exact (hsends rfl ctl opened sends).congr
  | unwindRead frame => rcases hopen.frame with h | h <;> simp [frame] at h
  | unwindWrite frame => rcases hopen.frame with h | h <;> simp [frame] at h
  | _ => exact full.congr

/-- No harmless step is an error of the read side. -/
theorem Move.isError_eq (h : Move s a s') (ok : Harmless a) (sound : s'.fault = none) :
    s'.read.isError = s.read.isError := by
  cases h with
  | abort => simp at sound
  | readMore idle out holder status woke =>
      rw [woke.isError_eq.1, (took_frame s _ _ _).2.2.2, decide_eq_false ok, Bool.or_false]
  | @readStopped res data _ idle out holder fatal status woke =>
      have htook := (took_frame s res data false).2.2.2
      rw [decide_eq_false ok, Bool.or_false] at htook
      exact woke.isError_eq.1.trans htook
  | @readAgain res data _ idle out holder fatal status woke =>
      have htook := (took_frame s res data false).2.2.2
      rw [decide_eq_false ok, Bool.or_false] at htook
      rw [submitRead_eq] at woke
      exact woke.isError_eq.1.trans htook
  | readFatal _ _ _ _ fatal => exact absurd fatal ok
  | readClose _ _ _ _ fatal => exact absurd fatal ok
  | writeMore idle out holder fatal proceeds woke => exact woke.isError_eq.1
  | writeFatal => simp
  | recvResume => simp
  | sendResume => simp [wrote]
  | recvRegister => rw [awaitRead_eq]
  | recvSuspend => rw [awaitRead_eq]
  | recvReady => rw [recvAwaitResume_eq]
  | recvLate => rw [recvAwaitResume_eq]
  | sendLate => rw [sendAwaitResume_eq]
  | sendLateWorker => rw [sendAwaitResume_eq]
  | sendThrough =>
      rw [sendAwaitResume_eq]
      rfl
  | _ => rfl

/-- While the coroutine runs, only the number of free SQEs can change beside it. -/
theorem Move.beside (h : Move s a s') (ok : Harmless a) (hco : a.isCo = false) {frame : Frame}
    (ctl : s.ctl = .inCo frame) (sound : s'.fault = none) :
    s'.recvResult = s.recvResult ∧ s'.unread = s.unread := by
  cases h with
  | abort => simp at sound
  | pressure => exact ⟨rfl, rfl⟩
  | unwindRead back => simp [ctl] at back
  | unwindWrite back => simp [ctl] at back
  | enqueue => exact absurd ok id
  | poolTake => exact absurd ok id
  | serverDestroy => exact absurd ok id
  | removeConnection => exact absurd ok id
  | _ => simp_all [SessionAct.isCo]

theorem Move.waiting_le (h : Move s a s') (ha : a ≠ .drain) :
    s'.waiting.length ≤ s.waiting.length + 1 := by
  cases h.asks ha with
  | nothing sqes waiting => simp [waiting]
  | prepared c room sqes waiting => simp [waiting]
  | queued c low sqes waiting => simp [waiting]
  | cancelled sqes waiting => simp [waiting]

theorem Move.sqeLow_eq (h : Move s a s') (ha : ∀ low, a ≠ .pressure low) :
    s'.sqeLow = s.sqeLow := by
  cases h with
  | readMore _ _ _ _ woke => cases woke <;> simp [took, woken_eq]
  | readStopped _ _ _ _ _ woke => cases woke <;> simp [took, endRead, woken_eq]
  | readAgain _ _ _ _ _ woke => cases woke <;> simp [took, submitRead_eq, woken_eq]
  | writeMore _ _ _ _ _ woke => cases woke <;> simp [wrote, woken_eq]
  | pressure => exact absurd rfl (ha _)
  | _ =>
      simp [took, shut, endRead, endWrite, wrote, woken_eq, awaitRead_eq, prepareRead, prepareWrite,
        recvAwaitResume_eq, sendAwaitResume_eq, queueDestroyed]

end

end Session

instance : (a : SessionAct) → Decidable (Session.Harmless a)
  | .readCqe res _ _ => inferInstanceAs (Decidable (¬ ReadContext.Fatal res))
  | .writeCqe res => inferInstanceAs (Decidable (0 ≤ res))
  | .co .switchThread | .enqueue | .poolTake | .serverDestroy | .removeConnection | .readRace =>
      inferInstanceAs (Decidable False)
  | .co .prepareToRead | .co (.send _) | .co (.read _) | .co .ret | .functor | .drain | .unwind
  | .pressure _ => inferInstanceAs (Decidable True)

namespace EchoServer

/-! ## The server before the first fatal completion -/

/-- No completion is fatal, and nobody calls `Destroyed`. -/
def Undisturbed (_ : Hosted ServerPos) : HostAct → Prop
  | .co => True
  | .env a => Session.Harmless a

instance (s : Hosted ServerPos) : (a : HostAct) → Decidable (Undisturbed s a)
  | .co => inferInstanceAs (Decidable True)
  | .env a => inferInstanceAs (Decidable (Session.Harmless a))

/-- **The server is ready to go on.** -/
structure Lively (s : Hosted ServerPos) : Prop where
  inv : echoServer.Inv s
  unclosed : s.session.Unclosed
  drained : s.session.ReaderDrained
  clean : s.session.read.isError = false
  /-- What `PrepareToRead` has returned is still what there is. -/
  heard : s.pos = .size → s.session.co = .onLoop →
    s.session.recvResult = Session.toInt s.session.unread.length
  full : s.session.write.Full
  laden : ∀ bytes, s.pos = .data bytes → bytes ≠ []
  going : s.pos ≠ .done

variable {s s' : Hosted ServerPos} {a : SessionAct} {t : Session}

theorem fits_of_harmless (ok : Session.Harmless a) : echoServer.Fits s (.env a) := by
  cases a with
  | writeCqe res =>
      have hres : 0 ≤ res := ok
      refine ⟨fun h => ?_, fun fatal => ?_⟩
      · have := h.neg
        omega
      · have := fatal.1
        omega
  | _ => trivial

/-- What has not been read is part of what has been received. -/
theorem Lively.unread_le (hs : Lively s) :
    s.session.unread.length ≤ s.received.flatten.length := by
  rw [← hs.inv.stream]
  simp only [List.length_append]
  omega

/-- When `PrepareToRead` returns, it returns what there is. -/
theorem Lively.heard_of_return (hs : Lively s) {b : SessionAct} (ok : Session.Harmless b)
    (move : s.session.step b = some t) (sound : t.fault = none)
    (ret : s.session.recvReturns b t = true) : t.recvResult = Session.toInt t.unread.length := by
  have hmove := Session.step_move move
  have hclean : t.read.isError = false := (hmove.isError_eq ok sound).trans hs.clean
  have hopen : t.closing = false := (hmove.unclosed ok hs.unclosed).opened
  rw [hmove.recvAnswer hs.inv.sheltered.born sound ret]
  simp [Session.recvAnswer, Session.readDead, hclean, hopen]

theorem Lively.env (hs : Lively s) (ok : Session.Harmless a) (hco : a.isCo = false)
    (move : s.session.step a = some t) :
    Lively { s with
      session := t, received := s.received ++ a.payload,
      acked := s.acked ++ s.session.acknowledged a } := by
  have fits := fits_of_harmless (s := s) ok
  have stays := fits.stays hco
  have sound := hs.inv.sheltered.no_fault stays move
  have hmove := Session.step_move move
  have hinv := hs.inv.env fits hco move
  refine ⟨hinv, hmove.unclosed ok hs.unclosed, ?_, ?_, ?_, ?_, hs.laden, hs.going⟩
  · refine hmove.readerDrained ?_ hs.drained
    rintro res data more rfl
    exact (Session.step_readCqe move).2.2
  · exact (hmove.isError_eq ok sound).trans hs.clean
  · intro hpos here
    by_cases hrun : s.session.co = .onLoop
    · -- the coroutine was running already, so nothing has touched its input
      have hruns := hs.inv.sheltered.placed.loop.mp hrun
      cases hctl : s.session.ctl with
      | inCo frame =>
          obtain ⟨hresult, hunread⟩ := hmove.beside ok hco hctl sound
          rw [hresult, hunread]
          exact hs.heard hpos hrun
      | _ => simp [hctl, Ctl.runsCo] at hruns
    · have hwaits : s.session.co = .inRecv := by
        have hplace := hs.inv.place
        rw [hpos] at hplace
        simpa [echoServer, ServerPos.places, hrun] using hplace
      have hback : t.co = .onLoop := here
      refine hs.heard_of_return ok move sound ?_
      cases a with
      | co act => simp [SessionAct.isCo] at hco
      | _ => simp [Session.recvReturns, hwaits, hback]
  · refine hmove.full ok stays hs.inv.sheltered hs.unclosed ?_ hs.full
    rintro data rfl
    simp [SessionAct.isCo] at hco

/-- The calls of the server, with what it has in its hands. -/
theorem Lively.next_cases (hs : Lively s) {act : CoAct} {pos : ServerPos}
    (call : echoServer.next s.pos s.session = some (act, pos)) (here : s.session.co = .onLoop)
    (small : s.received.flatten.length < 2 ^ 31) :
    s.pos = .top ∧ act = .prepareToRead ∧ pos = .size ∨
      s.pos = .size ∧ act = .read s.session.unread.length ∧
        pos = (if s.session.unread = [] then .top else .data s.session.unread) ∨
      ∃ bytes, s.pos = .data bytes ∧ act = .send bytes ∧ pos = .top := by
  have hnext : s.pos.next s.session = some (act, pos) := call
  cases hpos : s.pos with
  | top =>
      obtain ⟨rfl, rfl⟩ : .prepareToRead = act ∧ .size = pos := by
        simpa [hpos, ServerPos.next] using hnext
      exact .inl ⟨rfl, rfl, rfl⟩
  | size =>
      have hlen := hs.unread_le
      have hsize : s.session.recvResult = s.session.unread.length := by
        rw [hs.heard hpos here]
        exact Session.toInt_of_lt (by omega)
      have hall : (s.session.read.removeAsString s.session.unread.length).1 = s.session.unread :=
        List.take_length
      have hnot : ¬ (s.session.unread.length : ℤ) < 0 := by omega
      simp only [hpos, ServerPos.next, hsize, if_neg hnot, Int.toNat_natCast, hall,
        Option.some.injEq, Prod.mk.injEq] at hnext
      exact .inr (.inl ⟨rfl, hnext.1.symm, hnext.2.symm⟩)
  | data bytes =>
      obtain ⟨rfl, rfl⟩ : .send bytes = act ∧ .top = pos := by
        simpa [hpos, ServerPos.next] using hnext
      exact .inr (.inr ⟨bytes, rfl, rfl, rfl⟩)
  | done => simp [hpos, ServerPos.next] at hnext

theorem Lively.co (hs : Lively s) {act : CoAct} {pos : ServerPos}
    (call : echoServer.next s.pos s.session = some (act, pos))
    (move : s.session.step (.co act) = some t) (small : s.received.flatten.length < 2 ^ 31) :
    Lively { s with session := t, pos := pos } := by
  have stays := hs.inv.stays call
  have sound := hs.inv.sheltered.no_fault stays move
  have hmove := Session.step_move move
  have here : s.session.co = .onLoop :=
    (Session.step_co move).resolve_right fun h => hs.inv.sheltered.bound.not_worker h
  have hcases := hs.next_cases call here small
  have ok : Session.Harmless (.co act) := by
    rcases hcases with ⟨-, rfl, -⟩ | ⟨-, rfl, -⟩ | ⟨_, -, rfl, -⟩ <;> trivial
  refine ⟨hs.inv.co call move, hmove.unclosed ok hs.unclosed, ?_, ?_, ?_, ?_, ?_, ?_⟩
  · exact hmove.readerDrained (by simp) hs.drained
  · exact (hmove.isError_eq ok sound).trans hs.clean
  · intro hpos hback
    replace hpos : pos = .size := hpos
    replace hback : t.co = .onLoop := hback
    rcases hcases with ⟨-, rfl, -⟩ | ⟨-, -, h⟩ | ⟨_, -, -, h⟩
    · exact hs.heard_of_return ok move sound (by simp [Session.recvReturns, here, hback])
    · rw [hpos] at h
      split at h <;> cases h
    · rw [hpos] at h
      cases h
  · refine hmove.full ok stays hs.inv.sheltered hs.unclosed ?_ hs.full
    intro data heq
    rcases hcases with ⟨-, rfl, -⟩ | ⟨-, rfl, -⟩ | ⟨bytes, hpos, rfl, -⟩
    · simp at heq
    · simp at heq
    · obtain rfl : bytes = data := by simpa using heq
      exact hs.laden bytes hpos
  · intro bytes hpos
    replace hpos : pos = .data bytes := hpos
    rcases hcases with ⟨-, -, h⟩ | ⟨-, -, h⟩ | ⟨_, -, -, h⟩
    · rw [hpos] at h
      cases h
    · rw [hpos] at h
      split at h
      · cases h
      · rename_i hne
        cases h
        exact hne
    · rw [hpos] at h
      cases h
  · rcases hcases with ⟨-, -, rfl⟩ | ⟨-, -, rfl⟩ | ⟨_, -, -, rfl⟩
    · simp
    · dsimp only
      split <;> simp
    · simp

/-- **Every harmless step keeps the server going**, as long as it has not received too much. -/
theorem Lively.step (hs : Lively s) {b : HostAct} (ok : Undisturbed s b)
    (h : echoServer.step s b = some s') (small : s.received.flatten.length < 2 ^ 31) :
    Lively s' := by
  cases b with
  | co =>
      simp only [EchoProgram.step, Option.bind_eq_some_iff, Option.map_eq_some_iff] at h
      obtain ⟨⟨act, pos⟩, call, t, move, rfl⟩ := h
      exact hs.co call move small
  | env a =>
      simp only [EchoProgram.step, Option.ite_none_left_eq_some, Option.map_eq_some_iff,
        Bool.not_eq_true] at h
      obtain ⟨hco, t, move, rfl⟩ := h
      exact hs.env ok hco move

theorem lively_create (inputHwm inputHwmChunk outputHwm : ℕ) :
    Lively (echoServer.create inputHwm inputHwmChunk outputHwm) where
  inv := EchoProgram.inv_create _ _ _
  unclosed := (Session.tame_create _ _ _).unclosed
  drained := by simp [Session.ReaderDrained, EchoProgram.create, Session.create, Session.start,
    ReadContext.create]
  clean := rfl
  heard := by simp [EchoProgram.create, echoServer]
  full := ⟨by simp [EchoProgram.create, Session.create, Session.start, WriteContext.create,
      SendQueue.rep_empty.fragments_eq, SendQueue.restsOf],
    by simp [EchoProgram.create, Session.create, Session.start, WriteContext.create], fun _ => rfl⟩
  laden := by simp [EchoProgram.create, echoServer]
  going := by simp [EchoProgram.create, echoServer]

/-- The payloads only become more. -/
theorem received_le {b : HostAct} (h : echoServer.step s b = some s') :
    s.received.flatten.length ≤ s'.received.flatten.length := by
  cases b with
  | co =>
      simp only [EchoProgram.step, Option.bind_eq_some_iff, Option.map_eq_some_iff] at h
      obtain ⟨-, -, t, -, rfl⟩ := h
      exact Nat.le_refl _
  | env a =>
      simp only [EchoProgram.step, Option.ite_none_left_eq_some, Option.map_eq_some_iff] at h
      obtain ⟨-, t, -, rfl⟩ := h
      simp

theorem lively_of_reach {inputHwm inputHwmChunk outputHwm : ℕ}
    (run : Reach echoServer.step Undisturbed
      (echoServer.create inputHwm inputHwmChunk outputHwm) s)
    (small : s.received.flatten.length < 2 ^ 31) : Lively s := by
  revert small
  refine run.invariant (P := fun s => s.received.flatten.length < 2 ^ 31 → Lively s)
    (fun _ => lively_create _ _ _) ?_
  intro s b s' hs ok h small
  have hle := received_le h
  exact (hs (by omega)).step ok h (by omega)

end EchoServer

end Proactor
