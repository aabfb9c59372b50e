import Proactor.Server.Acceptor
import Proactor.Server.TcpServer

/-!
# Destroying the server

`~TcpServer` queues `Destroyed` in the loop of every connection that is still in the table, and then
its members go: the acceptor, with the context of its accept request, and the pool, which ends the
threads of the sub-loops and joins them.  So when the destructor has finished only the base loop
goes on.  Three things there still lead to the server.

* `Destroyed` closes an open connection, and closing calls the close callback that `newConnection`
  has installed, which has captured the server.  Without sub-loops it runs on the base loop, after
  the destructor; with them it may run before the threads have ended, but then it queues
  `removeConnectionInLoop` in the base loop, which runs after the destructor.
* A connection of the base loop may not have been started yet: its functor calls
  `coroutine_handler_`.
* Nothing cancels the accept request.  Its next completion is handled in the context that has been
  destroyed with the acceptor, and leads to `newConnection`; so does a `listen` that `start` has
  queued.

`AllClear` is what has to be the case when the destructor finishes, and then nothing uses the server
any more (`no_use_after_destruction`).
-/

namespace Proactor

open Transition

structure Teardown where
  server : TcpServer
  acceptor : Acceptor
  /-- `started_` is not 0. -/
  started : Bool
  /-- The functor with which `start` calls `listen` is in the queue of the base loop. -/
  listens : Bool
  /-- The connections accepted while `~TcpServer` goes over the table. -/
  late : List ℕ
  /-- `~TcpServer` has begun. -/
  begun : Bool
  /-- It has finished, and the server and its sub-loops are gone. -/
  finished : Bool
  /-- The server has been used after that. -/
  used : Bool

inductive TeardownAct
  /-- A step of the base loop, a sub-loop or a thread of a coroutine. -/
  | run (a : ServerAct)
  /-- `start`, called by the owner of the server. -/
  | start
  /-- The base loop runs `listen`. -/
  | listen
  /-- A completion of the accept request, or what the base loop does for it. -/
  | acceptor (a : AcceptorAct)
  /-- The loop of `~TcpServer` comes to the entry of a connection. -/
  | destroy (i : ℕ)
  /-- The members have been destroyed. -/
  | finish

namespace Teardown

/-- The constructor sets the connection callback of the acceptor. -/
def create (name : List Char) (addr : InetAddress) (numThreads : ℕ) : Teardown where
  server := .create name addr numThreads
  acceptor := .create true false
  started := false
  listens := false
  late := []
  begun := false
  finished := false
  used := false

/-- The connection belongs to the base loop. -/
def onBase (s : TcpServer) (i : ℕ) : Bool := (s.conns[i]?).any fun c => decide (c.loop = 0)

/-- What can still happen on the loops: when the destructor has finished, the sub-loops have ended.
Connections are accepted by the acceptor. -/
def allowed (d : Teardown) : ServerAct → Bool
  | .accept => false
  | .conn i act =>
      !d.finished || onBase d.server i || (d.server.conns[i]?).all fun c => !c.session.byLoop act
  | .reset i | .touch i | .destroyed i => !d.finished || onBase d.server i
  | .removal => true
  | .destroy _ => false

/-- The step runs the functor of `newConnection`, which calls `coroutine_handler_`. -/
def starts (s : Session) : SessionAct → Bool
  | .functor => decide (s.functors.head? = some .established)
  | _ => false

/-- The step calls the close callback. -/
def closes (s t : Session) : Bool := !s.closing && t.closing

/-- The step from `s` to `t` uses the server: it calls the close callback, starts a connection or
runs `removeConnectionInLoop`. -/
def uses (s : TcpServer) (a : ServerAct) (t : TcpServer) : Bool :=
  match a with
  | .removal => true
  | .conn i act =>
      match s.conns[i]?, t.conns[i]? with
      | some c, some c' => closes c.session c'.session || starts c.session act
      | _, _ => false
  | _ => false

/-- A step of the accept request.  A connection that comes in goes to `newConnection`. -/
def accept (d : Teardown) (a : AcceptorAct) : Option Teardown :=
  (d.acceptor.step a).bind fun t =>
    let d' := { d with acceptor := t, used := d.finished }
    match a with
    | .completion res _ =>
        if 0 < res then
          (d.server.step .accept).map fun s => { d' with
            server := s
            late := if d.begun then d.late ++ [d.server.conns.length] else d.late }
        else some d'
    | .drain => some d'
    | .pressure _ => some { d with acceptor := t }
    | .setConnetionCallback _ => none

/-- The loop of `~TcpServer` has come to every entry but those that were inserted behind it. -/
def swept (d : Teardown) : Bool := d.server.connectionMap.entries.all fun e => d.late.contains e.2

def step (d : Teardown) (a : TeardownAct) : Option Teardown :=
  if d.used then none
  else match a with
    | .run a =>
        if d.allowed a then
          (d.server.step a).map fun t =>
            { d with server := t, used := d.finished && uses d.server a t }
        else none
    | .start =>
        if d.begun then none
        else some { d with started := true, listens := d.listens || !d.started }
    | .listen =>
        if d.listens then
          some { d with listens := false, acceptor := d.acceptor.listen, used := d.finished }
        else none
    | .acceptor a => d.accept a
    | .destroy i =>
        if d.finished then none
        else (d.server.conns[i]?).bind fun c =>
          if d.server.connectionMap.lookup c.name = some i then
            some { d with
              begun := true
              server := { d.server with
                connectionMap := d.server.connectionMap.erase c.name }.put i
                  { c with session := c.session.queueDestroyed } }
          else none
    | .finish =>
        if d.finished = false ∧ d.swept = true then
          some { d with
            begun := true
            finished := true
            server := { d.server with connectionMap := ∅ } }
        else none

/-- No connection of the base loop leads back to the server: no functor of `removeConnection` is
queued, and the connections have been started and closed. -/
def Cleared (s : TcpServer) : Prop :=
  s.removals = [] ∧
    ∀ c ∈ s.conns, c.loop = 0 → c.session.closing = true ∧ .established ∉ c.session.functors

instance (s : TcpServer) : Decidable (Cleared s) := inferInstanceAs (Decidable (_ ∧ _))

/-- Nothing on the base loop leads back to the server, the accept request and `listen` included. -/
def AllClear (d : Teardown) : Prop :=
  Cleared d.server ∧ d.acceptor.outstanding = 0 ∧ d.listens = false

instance (d : Teardown) : Decidable (AllClear d) := inferInstanceAs (Decidable (_ ∧ _))

/-- The destructor finishes only when everything is cleared. -/
def ClearsUp (d : Teardown) : TeardownAct → Prop
  | .finish => AllClear d
  | _ => True

instance (d : Teardown) : (a : TeardownAct) → Decidable (ClearsUp d a)
  | .finish => inferInstanceAs (Decidable (AllClear d))
  | .run _ | .start | .listen | .acceptor _ | .destroy _ => inferInstanceAs (Decidable True)

end Teardown

namespace Session

variable {s t : Session} {a : SessionAct}

/-- Only the loop of a connection closes it. -/
theorem Move.closing_offLoop (h : Move s a t) (off : s.byLoop a = false) :
    t.closing = s.closing := by
  cases h with
  | recvLate => rw [recvAwaitResume_eq]
  | sendLateWorker => rw [sendAwaitResume_eq]
  | _ => simp_all [byLoop, queueDestroyed]

theorem established_not_mem_notice (late : Bool) : .established ∉ notice late := by
  cases late <;> simp [notice]

theorem WokeReader.not_established (h : WokeReader s t) (hs : .established ∉ s.functors) :
    .established ∉ t.functors := by
  cases h with
  | asleep => exact hs
  | woken => simp [hs, established_not_mem_notice]

theorem WokeWriter.not_established (h : WokeWriter s t) (hs : .established ∉ s.functors) :
    .established ∉ t.functors := by
  cases h with
  | asleep => exact hs
  | woken => simp [hs, established_not_mem_notice]

/-- `Established` is queued once, when the connection is created. -/
theorem Move.not_established (h : Move s a t) (hs : .established ∉ s.functors) :
    .established ∉ t.functors := by
  cases h with
  | readMore _ _ _ _ woke => exact woke.not_established hs
  | readStopped _ _ _ _ _ woke => exact woke.not_established hs
  | readAgain _ _ _ _ _ woke =>
      rw [submitRead_eq] at woke
      exact woke.not_established hs
  | writeMore _ _ _ _ _ woke => exact woke.not_established hs
  | _ =>
      simp_all [took, shut, endRead, endWrite, wrote, awaitRead_eq, prepareRead, prepareWrite,
        recvAwaitResume_eq, sendAwaitResume_eq, queueDestroyed, established_not_mem_notice]

end Session

namespace Teardown

variable {d d' : Teardown} {a : TeardownAct}

/-- What is left of a cleared server stays cleared when a connection is recorded that is closed, or
is not of the base loop. -/
theorem Cleared.put {s : TcpServer} {i : ℕ} {c : Conn} (h : Cleared s)
    (hc : c.loop = 0 → c.session.closing = true ∧ .established ∉ c.session.functors) :
    Cleared (s.put i c) := by
  refine ⟨h.1, ?_⟩
  intro e he hloop
  obtain ⟨j, hj⟩ := List.mem_iff_getElem?.mp he
  rcases TcpServer.put_conns hj with ⟨-, rfl⟩ | ⟨-, hold⟩
  · exact hc hloop
  · exact h.2 e (List.mem_of_getElem? hold) hloop

/-- No connection of a cleared server that can still take a step is started by it. -/
theorem Cleared.starts {s : TcpServer} {c : Conn} {act : SessionAct} (h : Cleared s)
    (mem : c ∈ s.conns) (base : c.loop = 0 ∨ c.session.byLoop act = false) :
    starts c.session act = false := by
  cases act with
  | functor =>
      rcases base with hbase | hoff
      · refine decide_eq_false fun hhead => (h.2 c mem hbase).2 ?_
        exact List.mem_of_mem_head? hhead
      · simp [Session.byLoop] at hoff
  | _ => rfl

/-- A connection of a cleared server that can still take a step. -/
theorem Cleared.steps {s : TcpServer} {c : Conn} {act : SessionAct} {u : Session} (h : Cleared s)
    (mem : c ∈ s.conns) (base : c.loop = 0 ∨ c.session.byLoop act = false)
    (move : c.session.step act = some u) :
    closes c.session u = false ∧
      (c.loop = 0 → u.closing = true ∧ .established ∉ u.functors) := by
  have hmove := Session.step_move move
  have hkept : c.loop = 0 → u.closing = true ∧ .established ∉ u.functors := by
    intro hbase
    obtain ⟨hclosing, hnone⟩ := h.2 c mem hbase
    exact ⟨hmove.closing_mono hclosing, hmove.not_established hnone⟩
  refine ⟨?_, hkept⟩
  rcases base with hbase | hoff
  · simp [closes, (h.2 c mem hbase).1]
  · simp [closes, hmove.closing_offLoop hoff]

/-- A cleared server is not used by what can still happen, and stays cleared. -/
theorem Cleared.step {s t : TcpServer} {a : ServerAct} (h : Cleared s) (hno : a ≠ .accept)
    (hloop : ∀ i, a ≠ .destroy i)
    (base : ∀ i act c, a = .conn i act → s.conns[i]? = some c →
      c.loop = 0 ∨ c.session.byLoop act = false)
    (hstep : s.step a = some t) : uses s a t = false ∧ Cleared t := by
  have hturn := TcpServer.step_turn hstep
  cases hturn with
  | accept room => exact absurd rfl hno
  | acceptLate => exact absurd rfl hno
  | @conn i c act u found own loop move still =>
      have mem := List.mem_of_getElem? found
      obtain ⟨hcloses, hkept⟩ := h.steps mem (base i act c rfl found) move
      refine ⟨?_, h.put hkept⟩
      simp only [uses, found, TcpServer.put_conns_self found, Bool.or_eq_false_iff]
      exact ⟨hcloses, h.starts mem (base i act c rfl found)⟩
  | @close i c act u found own loop move opened closed alive =>
      have hcloses := (h.steps (List.mem_of_getElem? found) (base i act c rfl found) move).1
      simp [closes, opened, closed] at hcloses
  | @closeLate i c act u found own loop move opened closed gone =>
      have hcloses := (h.steps (List.mem_of_getElem? found) (base i act c rfl found) move).1
      simp [closes, opened, closed] at hcloses
  | @reset i c found rest => exact ⟨rfl, h.put (h.2 c (List.mem_of_getElem? found))⟩
  | @touch i c found rest => exact ⟨rfl, h.put (h.2 c (List.mem_of_getElem? found))⟩
  | @destroyed i c found owned =>
      refine ⟨rfl, h.put fun hbase => ?_⟩
      obtain ⟨hclosing, hnone⟩ := h.2 c (List.mem_of_getElem? found) hbase
      exact ⟨hclosing, by simpa [Session.queueDestroyed] using hnone⟩
  | removal head found alive => simp [h.1] at head
  | removalLate head => simp [h.1] at head
  | @destroy i c found entry => exact absurd rfl (hloop i)

/-! ## Runs -/

/-- Once the destructor has finished everything is cleared, and the server has not been used
since. -/
structure Ended (d : Teardown) : Prop where
  cleared : d.finished = true → d.begun = true ∧ AllClear d
  unused : d.used = false

theorem Ended.create (name : List Char) (addr : InetAddress) (numThreads : ℕ) :
    Ended (create name addr numThreads) :=
  ⟨nofun, rfl⟩

/-- What the destructor's end leaves to run. -/
theorem allowed_base {a : ServerAct} (hfinished : d.finished = true)
    (hallowed : d.allowed a = true) (i : ℕ) (act : SessionAct) (c : Conn) (ha : a = .conn i act)
    (found : d.server.conns[i]? = some c) : c.loop = 0 ∨ c.session.byLoop act = false := by
  subst ha
  simpa [allowed, hfinished, onBase, found] using hallowed

/-- A step of the loops. -/
theorem Ended.run (h : Ended d) {a : ServerAct} {t : TcpServer} (hallowed : d.allowed a = true)
    (hstep : d.server.step a = some t) :
    Ended { d with server := t, used := d.finished && uses d.server a t } := by
  cases hfinished : d.finished with
  | false => exact ⟨by simp, by simp⟩
  | true =>
      obtain ⟨hbegun, hcleared, hrest⟩ := h.cleared hfinished
      have hno : a ≠ .accept := by
        rintro rfl
        simp [allowed] at hallowed
      have hloop : ∀ i, a ≠ .destroy i := by
        rintro i rfl
        simp [allowed] at hallowed
      obtain ⟨hunused, hcleared'⟩ :=
        hcleared.step hno hloop (allowed_base hfinished hallowed) hstep
      exact ⟨fun _ => ⟨hbegun, hcleared', hrest⟩, by simp [hunused]⟩

/-- When no accept request is left, the only step of the acceptor is the loop's count of SQEs. -/
theorem acceptor_quiet {s t : Acceptor} {a : AcceptorAct} (quiet : s.outstanding = 0)
    (hstep : s.step a = some t) :
    t.outstanding = 0 ∧ (∀ res more, a ≠ .completion res more) ∧ a ≠ .drain := by
  simp only [Acceptor.outstanding, Nat.add_eq_zero_iff] at quiet
  simp only [Acceptor.step, Option.ite_none_left_eq_some] at hstep
  cases a with
  | completion res more => simp [quiet.2] at hstep
  | drain => simp [quiet.1] at hstep
  | setConnetionCallback set =>
      obtain rfl := Option.some.inj hstep.2
      simp [Acceptor.outstanding, quiet]
  | pressure low =>
      obtain rfl := Option.some.inj hstep.2
      simp [Acceptor.outstanding, quiet]

/-- A step of the accept request. -/
theorem Ended.accept (h : Ended d) {a : AcceptorAct} (hstep : d.accept a = some d') : Ended d' := by
  simp only [Teardown.accept, Option.bind_eq_some_iff] at hstep
  obtain ⟨t, hmove, hstep⟩ := hstep
  cases hfinished : d.finished with
  | false =>
      cases a with
      | completion res more =>
          simp only at hstep
          split at hstep
          case isTrue =>
            obtain ⟨s, -, rfl⟩ := Option.map_eq_some_iff.mp hstep
            exact ⟨by simp [hfinished], hfinished⟩
          case isFalse =>
            obtain rfl := Option.some.inj hstep
            exact ⟨by simp [hfinished], hfinished⟩
      | drain =>
          obtain rfl := Option.some.inj hstep
          exact ⟨by simp [hfinished], hfinished⟩
      | pressure low =>
          obtain rfl := Option.some.inj hstep
          exact ⟨by simp [hfinished], h.unused⟩
      | setConnetionCallback set => exact absurd hstep (by simp)
  | true =>
      obtain ⟨hbegun, hcleared, hquiet, hlistens⟩ := h.cleared hfinished
      obtain ⟨hquiet', hcompletion, hdrain⟩ := acceptor_quiet hquiet hmove
      cases a with
      | completion res more => exact absurd rfl (hcompletion res more)
      | drain => exact absurd rfl hdrain
      | pressure low =>
          obtain rfl := Option.some.inj hstep
          exact ⟨fun _ => ⟨hbegun, hcleared, hquiet', hlistens⟩, h.unused⟩
      | setConnetionCallback set => exact absurd hstep (by simp)

theorem Ended.step (h : Ended d) (clears : ClearsUp d a) (hstep : d.step a = some d') :
    Ended d' := by
  unfold Teardown.step at hstep
  rw [if_neg (by simp [h.unused])] at hstep
  cases a with
  | run a =>
      simp only [Option.ite_none_right_eq_some, Option.map_eq_some_iff] at hstep
      obtain ⟨hallowed, t, hstep, rfl⟩ := hstep
      exact h.run hallowed hstep
  | start =>
      simp only [Option.ite_none_left_eq_some, Option.some.injEq] at hstep
      obtain ⟨hbegun, rfl⟩ := hstep
      exact ⟨fun hfinished => absurd (h.cleared hfinished).1 hbegun, h.unused⟩
  | listen =>
      simp only [Option.ite_none_right_eq_some, Option.some.injEq] at hstep
      obtain ⟨hlistens, rfl⟩ := hstep
      have hrunning : d.finished = false := by
        rw [Bool.eq_false_iff]
        exact fun hfinished => absurd ((h.cleared hfinished).2.2.2.symm.trans hlistens) (by decide)
      exact ⟨by simp [hrunning], hrunning⟩
  | acceptor a => exact h.accept hstep
  | destroy i =>
      simp only [Option.ite_none_left_eq_some, Option.bind_eq_some_iff,
        Option.ite_none_right_eq_some, Option.some.injEq] at hstep
      obtain ⟨hrunning, c, found, entry, rfl⟩ := hstep
      exact ⟨fun hfinished => absurd hfinished hrunning, h.unused⟩
  | finish =>
      simp only [Option.ite_none_right_eq_some, Option.some.injEq] at hstep
      obtain ⟨-, rfl⟩ := hstep
      exact ⟨fun _ => ⟨rfl, clears⟩, h.unused⟩

/-- **In a run whose destructor finishes only when everything is cleared, no later step uses the
server.** -/
theorem no_use_after_destruction (name : List Char) (addr : InetAddress) (numThreads : ℕ)
    (run : Reach step ClearsUp (create name addr numThreads) d) : d.used = false :=
  (run.invariant (Ended.create name addr numThreads) fun _ _ _ h clears hstep =>
    h.step clears hstep).unused

/-- The accept request has ended for want of descriptors, the only connection has been closed, and
the base loop still has a `Destroyed` to run when the destructor ends. -/
theorem no_use_after_destruction_closed : ∃ d,
    Reach step ClearsUp (create ['s'] ⟨(127, 0, 0, 1), 8080⟩ 0) d ∧ d.finished = true ∧
      d.server.conns.length = 1 ∧ d.used = false := by
  obtain ⟨d, run, hd⟩ := exists_reach step ClearsUp (create ['s'] ⟨(127, 0, 0, 1), 8080⟩ 0)
    [.start, .listen, .acceptor (.completion 7 true), .run (.conn 0 .functor),
      .run (.conn 0 (.co .prepareToRead)), .acceptor (.completion (-EMFILE) false),
      .run (.destroyed 0), .run (.conn 0 .functor), .run (.destroyed 0), .finish,
      .run (.conn 0 .functor)]
    (fun d => d.finished && decide (d.server.conns.length = 1)) (by decide)
  simp only [Bool.and_eq_true, decide_eq_true_eq] at hd
  exact ⟨d, run, hd.1, hd.2, no_use_after_destruction _ _ _ run⟩

/-- **A connection that is open when the destructor ends calls back into the server.** -/
theorem callback_after_destruction : ¬ ∀ (name : List Char) (addr : InetAddress) (numThreads : ℕ)
    (d : Teardown), Reach step anyStep (create name addr numThreads) d → d.used = false := by
  intro h
  obtain ⟨d, run, hd⟩ := exists_reach step anyStep (create ['s'] ⟨(127, 0, 0, 1), 8080⟩ 0)
    [.start, .listen, .acceptor (.completion 7 true), .run (.conn 0 .functor),
      .run (.conn 0 (.co .prepareToRead)), .destroy 0, .finish, .run (.conn 0 .functor)]
    (fun d => d.used) (by decide)
  simp [h _ _ _ d run] at hd

/-- So does one of a sub-loop that closes before the threads have ended. -/
example : ((exec step (create ['s'] ⟨(127, 0, 0, 1), 8080⟩ 1)
    [.start, .listen, .acceptor (.completion 7 true), .run (.conn 0 .functor),
      .run (.conn 0 (.co .prepareToRead)), .destroy 0, .run (.conn 0 .functor), .finish,
      .run .removal]).any fun d => d.used) = true := by
  decide

/-- And a client that connects when the server has gone. -/
example : ((exec step (create ['s'] ⟨(127, 0, 0, 1), 8080⟩ 0)
    [.start, .listen, .finish, .acceptor (.completion 7 true)]).any fun d => d.used) = true := by
  decide

end Teardown

end Proactor
