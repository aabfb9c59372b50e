import Proactor.Connection.EchoProgress

/-!
# The echo server answers

A connection has two mechanisms that make its coroutine wait: `PrepareToRead` until there is data,
`send` until the output queue is below its mark; a third one makes a request wait for an SQE.  This
module says that they do not wait for each other.

After any run without a fatal completion, let the peer send nothing more.  Whatever the loop, the
kernel and the coroutine then do, in whatever order, and whatever part of a batch a write completion
acknowledges as long as it is not empty: every step brings the answer nearer (`rank`), and there is
a step to be made until everything that has been received is acknowledged
(`echo_server_answers`).
-/

namespace Proactor

open Transition

namespace EchoServer

variable {s s' : Hosted ServerPos} {a : SessionAct} {t : Session}

/-! ## Every step counts -/

/-- Steps without new input: of the coroutine and the loop, and write completions that acknowledge
something; the low water mark is only left. -/
def Serving (s : Hosted ServerPos) : HostAct → Prop
  | .co | .env .functor | .env .drain => True
  | .env (.writeCqe res) => 0 < res
  | .env (.pressure low) => low = false ∧ s.session.sqeLow = true
  | _ => False

instance (s : Hosted ServerPos) : (a : HostAct) → Decidable (Serving s a)
  | .co | .env .functor | .env .drain => inferInstanceAs (Decidable True)
  | .env (.writeCqe res) => inferInstanceAs (Decidable (0 < res))
  | .env (.pressure low) => inferInstanceAs (Decidable (low = false ∧ s.session.sqeLow = true))
  | .env (.readCqe _ _ _) | .env .unwind | .env (.co _) | .env .enqueue | .env .poolTake
  | .env .serverDestroy | .env .removeConnection | .env .readRace =>
      inferInstanceAs (Decidable False)

/-- How far the coroutine is from its next wait. -/
def phase (s : Hosted ServerPos) : ℕ :=
  match s.session.co, s.pos with
  | .unborn, _ => 10
  | .onLoop, .top => if s.session.unread = [] then 4 else 8
  | .onLoop, .size => 6
  | _, _ => 0

/-- What is left to do: every byte has to be read, sent and acknowledged. -/
def rank (s : Hosted ServerPos) : ℕ :=
  10 * (3 * s.session.unread.length + 2 * s.pos.hand.length + s.session.unsent.length) + phase s
    + s.session.waiting.length + s.session.sqeLow.toNat

theorem phase_le (h : s.session.co ≠ .unborn) : phase s ≤ 8 := by
  unfold phase
  split
  · exact absurd ‹_› h
  · split <;> omega
  · omega
  · omega

theorem phase_congr (hco : s'.session.co = s.session.co) (hpos : s'.pos = s.pos)
    (hunread : s'.session.unread = s.session.unread) : phase s' = phase s := by
  simp only [phase, hco, hpos, hunread]

theorem Serving.undisturbed {b : HostAct} (h : Serving s b) : Undisturbed s b := by
  cases b with
  | co => trivial
  | env a =>
      cases a with
      | writeCqe res =>
          have hres : 0 < res := h
          exact Int.le_of_lt hres
      | functor => trivial
      | drain => trivial
      | pressure low => trivial
      | _ => exact absurd h id

/-- A call of the coroutine. -/
theorem Lively.rank_co (hs : Lively s) {act : CoAct} {pos : ServerPos}
    (call : echoServer.next s.pos s.session = some (act, pos))
    (move : s.session.step (.co act) = some t) (small : s.received.flatten.length < 2 ^ 31) :
    rank { s with session := t, pos := pos } < rank s := by
  have stays := hs.inv.stays call
  have sound := hs.inv.sheltered.no_fault stays move
  have hmove := Session.step_move move
  have here : s.session.co = .onLoop :=
    (Session.step_co move).resolve_right fun h => hs.inv.sheltered.bound.not_worker h
  have hwaiting := hmove.waiting_le (by simp)
  have hlow := hmove.sqeLow_eq (by simp)
  have hbound := hs.inv.sheltered.bound
  rcases hs.next_cases call here small with ⟨hpos, rfl, rfl⟩ | ⟨hpos, rfl, rfl⟩ |
    ⟨bytes, hpos, rfl, rfl⟩
  · -- `PrepareToRead` waits exactly when there is nothing to read
    have hunsent := hmove.unsent_eq hbound (by simp) (by simp)
    have hunread := hmove.readEffect.unread (by simp) (by simp)
    by_cases hempty : s.session.unread = []
    · have hnone : s.session.read.isEmpty = true :=
        decide_eq_true (List.length_eq_zero_iff.mpr hempty)
      have hgives := hs.inv.sheltered.gives_up move (.inr ⟨rfl, hnone⟩)
      have haway : t.co = .inRecv := by
        rcases hs.inv.sheltered.calls stays move with ⟨-, hctl, -⟩ | ⟨h, -⟩
        · obtain ⟨frame, ctl⟩ := hs.inv.sheltered.runs move
          exact absurd (hctl.trans ctl) (hgives frame)
        · exact h
      simp only [rank, phase, hunsent, hunread, hlow, here, hpos, haway, hempty, ServerPos.hand]
      simp only [if_true]
      omega
    · have hback : phase { s with session := t, pos := .size } ≤ 6 := by
        rcases hs.inv.sheltered.calls stays move with ⟨h, -⟩ | ⟨h, -⟩ <;>
          simp [phase, h, Session.away]
      simp only [rank, hunsent, hunread, hlow, hpos, ServerPos.hand] at hback ⊢
      simp only [phase, here, hpos, if_neg hempty] at hback ⊢
      omega
  · -- `read` takes everything
    have hunsent := hmove.unsent_eq hbound (by simp) (by simp)
    have hunread : t.unread = [] := by
      rw [hmove.read_unread sound, List.drop_length]
    have hstay : t.co = .onLoop := by
      rcases hs.inv.sheltered.calls stays move with ⟨h, -⟩ | ⟨h, -⟩
      · exact h
      · exact h
    by_cases hempty : s.session.unread = []
    · simp only [rank, phase, hunsent, hunread, hlow, here, hstay, hpos, hempty, ServerPos.hand,
        if_true]
      omega
    · have hlen := List.length_pos_iff.mpr hempty
      simp only [rank, phase, hunsent, hunread, hlow, here, hstay, hpos, if_neg hempty,
        ServerPos.hand, List.length_nil]
      omega
  · -- `send` moves what the coroutine has in its hands
    have hunsent := hs.inv.sheltered.send_unsent stays move
    have hunread := hmove.readEffect.unread (by simp) (by simp)
    have hlen := List.length_pos_iff.mpr (hs.laden bytes hpos)
    have hphase : phase { s with session := t, pos := .top } ≤ 8 := by
      refine phase_le ?_
      rcases hs.inv.sheltered.calls stays move with ⟨h, -⟩ | ⟨h, -⟩ <;> simp [h, Session.away]
    have hold : phase s = 0 := by simp [phase, here, hpos]
    simp only [rank, hold, hunsent, hunread, hlow, hpos, ServerPos.hand, List.length_append,
      List.length_nil]
    omega

/-- A step of the loop or the kernel. -/
theorem Lively.rank_env (hs : Lively s) (serving : Serving s (.env a))
    (move : s.session.step a = some t) (received acked) :
    rank { s with session := t, received := received, acked := acked } < rank s := by
  have ok : Session.Harmless a := serving.undisturbed
  have hmove := Session.step_move move
  have hco : a.isCo = false := by
    cases a with
    | co act => exact absurd serving id
    | readRace => exact absurd serving id
    | _ => rfl
  have stays := (fits_of_harmless (s := s) ok).stays hco
  have sound := hs.inv.sheltered.no_fault stays move
  have hbound := hs.inv.sheltered.bound
  have hphase : t.co ≠ .unborn →
      phase { s with session := t, received := received, acked := acked } ≤ 8 :=
    fun h => phase_le h
  cases a with
  | functor =>
      have hunsent := hmove.unsent_eq hbound (by simp) (by simp)
      have hunread := hmove.readEffect.unread (by simp) (by simp)
      have hwaiting := hmove.waiting_le (by simp)
      have hlow := hmove.sqeLow_eq (by simp)
      obtain ⟨hborn, hstart⟩ : s.session.co = .unborn ∧ t.co = .onLoop := by
        cases hmove with
        | abort => simp at sound
        | established idle head => exact ⟨hs.inv.sheltered.born.unborn head, rfl⟩
        | recvRegister idle head => exact (hbound.no_await head).elim
        | recvResume idle head => exact (hbound.no_await head).elim
        | sendRegister idle head => exact (hbound.no_await head).elim
        | sendResume idle head => exact (hbound.no_await head).elim
        | destroyed idle head => exact absurd (hs.unclosed.head head) (by simp)
      have hold : phase s = 10 := by simp [phase, hborn]
      have hnew := hphase (by simp [hstart])
      simp only [rank, hold, hunsent, hunread, hlow]
      omega
  | drain =>
      have hunsent := hmove.unsent_eq hbound (by simp) (by simp)
      have hunread := hmove.readEffect.unread (by simp) (by simp)
      have hlow := hmove.sqeLow_eq (by simp)
      obtain ⟨hco, hwaiting⟩ : t.co = s.session.co ∧
          s.session.waiting.length = t.waiting.length + 1 := by
        cases hmove with
        | abort => simp at sound
        | drainRead idle head => simp [Session.prepareRead, head]
        | drainWrite idle head => simp [Session.prepareWrite, head]
      have hsame : phase { s with session := t, received := received, acked := acked } = phase s :=
        phase_congr hco rfl hunread
      simp only [rank, hsame, hunsent, hunread, hlow]
      omega
  | writeCqe res =>
      have hpos : 0 < res := serving
      obtain ⟨idle, out, hres⟩ := Session.step_writeCqe move
      obtain ⟨hbatch, hfront⟩ := hs.inv.sheltered.batch_front out
      have hle := hfront.length_le
      have hunsent := hmove.writeCqe_unsent stays hs.inv.sheltered sound
      have hunread := hmove.readEffect.unread (by simp) (by simp)
      have hwaiting := hmove.waiting_le (by simp)
      have hlow := hmove.sqeLow_eq (by simp)
      have hborn : s.session.co ≠ .unborn := by
        intro hco
        have hnone := (hs.inv.sheltered.born.quiet hco).2.2.2.2.1
        simp only [Session.writes] at hnone
        omega
      have hnew := hphase (by
        cases hmove.stirs hs.inv.sheltered (by simp) with
        | rest co => rwa [co]
        | aside co => rwa [co]
        | wakes asleep co => simp [co]
        | fails cqe fatal handle waits co => simp [co])
      simp only [rank, hunsent, hunread, hlow, List.length_drop]
      omega
  | pressure low =>
      obtain ⟨rfl, hlow⟩ := serving
      have hunsent := hmove.unsent_eq hbound (by simp) (by simp)
      have hunread := hmove.readEffect.unread (by simp) (by simp)
      obtain ⟨hco, hwaiting, hleft⟩ : t.co = s.session.co ∧
          t.waiting = s.session.waiting ∧ t.sqeLow = false := by
        cases hmove with
        | abort => simp at sound
        | pressure => exact ⟨rfl, rfl, rfl⟩
      have hsame : phase { s with session := t, received := received, acked := acked } = phase s :=
        phase_congr hco rfl hunread
      simp only [rank, hsame, hunsent, hunread, hwaiting, hleft, hlow, Bool.toNat_true,
        Bool.toNat_false]
      omega
  | _ => exact absurd serving id

theorem Lively.rank_lt (hs : Lively s) {b : HostAct} (serving : Serving s b)
    (h : echoServer.step s b = some s') (small : s.received.flatten.length < 2 ^ 31) :
    rank s' < rank s := by
  cases b with
  | co =>
      simp only [EchoProgram.step, Option.bind_eq_some_iff, Option.map_eq_some_iff] at h
      obtain ⟨⟨act, pos⟩, call, t, move, rfl⟩ := h
      exact hs.rank_co call move small
  | env a =>
      simp only [EchoProgram.step, Option.ite_none_left_eq_some, Option.map_eq_some_iff,
        Bool.not_eq_true] at h
      obtain ⟨-, t, move, rfl⟩ := h
      exact hs.rank_env serving move _ _

/-- A serving step brings nothing new. -/
theorem Serving.received_eq {b : HostAct} (serving : Serving s b)
    (h : echoServer.step s b = some s') : s'.received = s.received := by
  cases b with
  | co =>
      simp only [EchoProgram.step, Option.bind_eq_some_iff, Option.map_eq_some_iff] at h
      obtain ⟨-, -, t, -, rfl⟩ := h
      rfl
  | env a =>
      simp only [EchoProgram.step, Option.ite_none_left_eq_some, Option.map_eq_some_iff] at h
      obtain ⟨-, t, -, rfl⟩ := h
      cases a with
      | readCqe res data more => exact absurd serving id
      | _ => simp [SessionAct.payload]

/-! ## There is always a step -/

/-- Everything is acknowledged, and the server waits for more. -/
def Answered (s : Hosted ServerPos) : Prop :=
  s.acked = s.received.flatten ∧ s.session.co = .inRecv

/-- Some step can be made. -/
def CanServe (s : Hosted ServerPos) : Prop :=
  ∃ b s', Serving s b ∧ echoServer.step s b = some s'

theorem canServe_env (serving : Serving s (.env a)) (hco : a.isCo = false)
    (h : ∃ t, s.session.step a = some t) : CanServe s := by
  obtain ⟨t, move⟩ := h
  exact ⟨.env a, _, serving, by simp [EchoProgram.step, hco, move]; rfl⟩

/-- The coroutine, while it runs. -/
theorem Lively.serves_co (hs : Lively s) (here : s.session.co = .onLoop) : CanServe s := by
  have hruns := hs.inv.sheltered.placed.loop.mp here
  obtain ⟨frame, ctl⟩ : ∃ frame, s.session.ctl = .inCo frame := by
    cases hctl : s.session.ctl with
    | inCo frame => exact ⟨frame, rfl⟩
    | _ => simp [hctl, Ctl.runsCo] at hruns
  obtain ⟨act, pos, call⟩ : ∃ act pos, echoServer.next s.pos s.session = some (act, pos) := by
    have hgoing := hs.going
    show ∃ act pos, s.pos.next s.session = some (act, pos)
    cases hpos : s.pos with
    | top => exact ⟨_, _, rfl⟩
    | size =>
        simp only [ServerPos.next]
        split
        · exact ⟨_, _, rfl⟩
        · exact ⟨_, _, rfl⟩
    | data bytes => exact ⟨_, _, rfl⟩
    | done => exact absurd hpos hgoing
  obtain ⟨t, move⟩ : ∃ t, s.session.step (.co act) = some t := by
    simp [Session.step, hs.inv.sheltered.sound, here, ctl]
  exact ⟨.co, _, trivial, by simp [EchoProgram.step, call, move]; rfl⟩

/-- A write request, from wherever it is. -/
theorem Lively.serves_write (hs : Lively s) (idle : s.session.ctl = .idle)
    (hsend : s.session.write.isSending = true) : CanServe s := by
  have sound := hs.inv.sheltered.sound
  by_cases out : 0 < s.session.kernelWrites
  · have hpos := hs.inv.sheltered.batch_pos hs.full out
    have serving : Serving s (.env (.writeCqe s.session.batchLen)) := by
      show (0 : ℤ) < s.session.batchLen
      omega
    refine canServe_env serving rfl ?_
    simp [Session.step, sound, idle, out]
  · -- it waits for an SQE
    have hwrites := hs.inv.sheltered.writing.writes_eq
    rw [hsend, Session.writes, Bool.toNat_true] at hwrites
    cases hlow : s.session.sqeLow with
    | true =>
        have serving : Serving s (.env (.pressure false)) := ⟨rfl, hlow⟩
        refine canServe_env serving rfl ?_
        simp [Session.step, sound]
    | false =>
        have serving : Serving s (.env .drain) := trivial
        refine canServe_env serving rfl ?_
        cases hwaiting : s.session.waiting with
        | nil =>
            rw [hwaiting, List.count_nil] at hwrites
            omega
        | cons c cs => simp [Session.step, sound, idle, hlow, hwaiting]

/-- **The server answers, or there is a step to make.** -/
theorem Lively.serves (hs : Lively s) : Answered s ∨ CanServe s := by
  have hsheltered := hs.inv.sheltered
  have hplace := hsheltered.bound.place
  have hidle : s.session.co ≠ .onLoop → s.session.ctl = .idle := by
    intro hco
    rcases hs.unclosed.frame with h | h
    · exact h
    · exact absurd (hsheltered.placed.loop.mpr (by simp [h, Ctl.runsCo])) hco
  cases hco : s.session.co with
  | onLoop => exact .inr (hs.serves_co hco)
  | unborn =>
      have hhead := (hsheltered.bound.unborn hco).2.1
      have serving : Serving s (.env .functor) := trivial
      refine .inr (canServe_env serving rfl ?_)
      cases hfunctors : s.session.functors with
      | nil => simp [hfunctors] at hhead
      | cons f fs => simp [Session.step, hsheltered.sound, hidle (by simp [hco]), hfunctors]
  | inRecv =>
      have idle := hidle (by simp [hco])
      cases hsend : s.session.write.isSending with
      | true => exact .inr (hs.serves_write idle hsend)
      | false =>
          have alive := hs.unclosed.alive (by simp [hco])
          have handle := (hsheltered.waits.recv alive hco).resolve_left
            (Session.awaits_eq_zero.mp hsheltered.bound.awaits _)
          refine .inl ⟨?_, hco⟩
          rw [← hs.inv.stream, hs.inv.empty_handed idle, hs.drained handle]
          simp [Session.unsent, hs.full.empty hsend]
  | inSend =>
      have idle := hidle (by simp [hco])
      have alive := hs.unclosed.alive (by simp [hco])
      have handle : s.session.write.writeHandle = true := by
        refine (hsheltered.waits.send alive hco).resolve_left ?_
        rintro ⟨data, h⟩
        exact Session.awaits_eq_zero.mp hsheltered.bound.awaits _ h
      have hsend := (hsheltered.writer.handle alive handle (by simp [idle, Ctl.inWriteFatal])).2
      exact .inr (hs.serves_write idle hsend)
  | final =>
      have hpos := hs.inv.place
      have hgoing := hs.going
      rw [hco] at hpos
      cases h : s.pos with
      | done => exact absurd h hgoing
      | _ => simp [h, echoServer, ServerPos.places] at hpos
  | onWorker => simp [hco, Session.onLoopSide] at hplace
  | suspending w => simp [hco, Session.onLoopSide] at hplace
  | pooled => simp [hco, Session.onLoopSide] at hplace

/-- **The echo server answers.**  After any run without a fatal completion in which fewer than
`2 ^ 31` bytes have come in, with both high water marks wherever they are: a run in which nothing
more comes in has at most `rank s` steps, in whatever order the loop, the coroutine and the kernel
make them and however small the parts are that the kernel acknowledges; and as long as not
everything that has been received is acknowledged and the server waits for more, there is a step to
make. -/
theorem echo_server_answers {inputHwm inputHwmChunk outputHwm : ℕ} {s s' : Hosted ServerPos}
    {steps : List HostAct}
    (run : Reach echoServer.step Undisturbed
      (echoServer.create inputHwm inputHwmChunk outputHwm) s)
    (small : s.received.flatten.length < 2 ^ 31)
    (later : exec (guarded echoServer.step Serving) s steps = some s') :
    steps.length ≤ rank s ∧ s'.received = s.received ∧
      (s'.acked = s.received.flatten ∧ s'.session.co = .inRecv ∨
        ∃ b t, Serving s' b ∧ echoServer.step s' b = some t) := by
  obtain ⟨⟨hlively, hreceived⟩, hle⟩ := exec_le_rank
    (P := fun t => Lively t ∧ t.received = s.received) rank
    (fun t b t' ht serving h => by
      have hsmall : t.received.flatten.length < 2 ^ 31 := ht.2 ▸ small
      exact ⟨⟨ht.1.step serving.undisturbed h hsmall, (serving.received_eq h).trans ht.2⟩,
        ht.1.rank_lt serving h hsmall⟩)
    ⟨lively_of_reach run small, rfl⟩ later
  refine ⟨by omega, hreceived, ?_⟩
  rcases hlively.serves with ⟨hacked, hco⟩ | h
  · exact .inl ⟨hreceived ▸ hacked, hco⟩
  · exact .inr h

/-- Both marks are passed, the receive has been cancelled and no SQE is free while the server waits
in `send`.  The kernel acknowledges one byte at a time, and the answer is complete. -/
theorem echo_server_answers_bytewise :
    ∃ s s', Reach echoServer.step Undisturbed (echoServer.create 2 16 0) s ∧
      s.session.co = .inSend ∧ s.session.read.status = .stoped ∧
      s.received.flatten = [1, 2, 3, 4] ∧ 10 ≤ rank s ∧ Answered s' ∧ s'.received = s.received := by
  obtain ⟨s, run, h⟩ := exists_reach echoServer.step Undisturbed (echoServer.create 2 16 0)
    [.env .functor, .co, .env (.readCqe 3 [1, 2, 3] true), .co, .env (.pressure true), .co,
      .env (.readCqe 1 [4] true), .env (.readCqe (-ECANCELED) [] false)]
    (fun s => decide (s.session.co = .inSend ∧ s.session.read.status = .stoped ∧
        s.received.flatten = [1, 2, 3, 4]) &&
      (exec (guarded echoServer.step Serving) s
        [.env (.pressure false), .env .drain, .env (.writeCqe 1), .env (.writeCqe 1),
          .env (.writeCqe 1), .co, .co, .co, .env (.writeCqe 1), .co]).any
        fun (s' : Hosted ServerPos) => decide (s'.acked = [1, 2, 3, 4] ∧ s'.session.co = .inRecv))
    (by decide +kernel)
  simp only [Bool.and_eq_true, decide_eq_true_eq, Option.any_eq_true] at h
  obtain ⟨⟨hco, hstatus, hreceived⟩, s', later, hacked, hco'⟩ := h
  obtain ⟨hle, hsame, -⟩ := echo_server_answers run (by simp [hreceived]) later
  refine ⟨s, s', run, hco, hstatus, hreceived, hle, ⟨?_, hco'⟩, hsame⟩
  rw [hsame, hreceived, hacked]

end EchoServer

end Proactor
