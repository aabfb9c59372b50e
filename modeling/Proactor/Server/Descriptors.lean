import Proactor.Connection.ClosedFd
import Proactor.Server.Attendance

/-!
# Descriptors and their numbers

The kernel knows the socket of a connection by a number, and gives the number away again as soon as
it has been closed.  A `Socket` (`src/Socket.cc`) closes its number once: `closed_` remembers that
it has, whether `handleClose` or the destructor came first.  An SQE holds the number too, from its
preparation on, but what the number stands for is looked up when `loop()` calls `io_uring_submit`,
a turn later (`src/IoUringLoop.cc`).  `Process` follows the server together with the numbers, the
table in which the kernel keeps what they stand for, every `::close`, the read and write requests
that are prepared, and those submitted so far, each with the connection it has hit.

* An open connection is never let go of (`Attended`), so the close in `~Socket` always finds the
  descriptor closed.
* A number stands for the connection whose socket is open under it (`Tracked`), so a `::close`
  hits the connection that makes it, and a request does so exactly when it was submitted before
  `handleClose` (`descriptors_owned`).  A request submitted later can reach the data of somebody
  else, even one that was prepared in time.
* So in runs in which no closing connection prepares a request, and none is closed that has one
  prepared, none of them does (`requests_reach_own_connection`).

A run ends with the first callback of a server whose destructor has begun, and the loops go on: what
their ends do to the queues they leave is not part of this.
-/

namespace Proactor

open Transition

structure Socket where
  /-- `socketfd_` -/
  fd : ℕ
  /-- `closed_` -/
  closed : Bool
  deriving DecidableEq, Repr

/-- A call of `::close`. -/
structure CloseCall where
  conn : ℕ
  fd : ℕ
  /-- What the number stood for. -/
  target : Option ℕ
  deriving DecidableEq, Repr

/-- A read or write request whose SQE has been prepared. -/
structure Prepared where
  conn : ℕ
  /-- `sqe->fd` -/
  fd : ℕ
  deriving DecidableEq, Repr

/-- One that `io_uring_submit` has given to the kernel. -/
structure Request where
  conn : ℕ
  /-- `closing_` of the connection at that moment. -/
  closed : Bool
  /-- What the number stood for. -/
  target : Option ℕ
  deriving DecidableEq, Repr

structure Process where
  server : TcpServer
  /-- `sock_` of every connection. -/
  sockets : List Socket
  /-- The kernel's table: the connection that an open number stands for. -/
  table : AList fun _ : ℕ => ℕ
  closeCalls : List CloseCall
  prepared : List Prepared
  requests : List Request

inductive ProcessAct
  /-- A connection is accepted under a number. -/
  | accept (fd : ℕ)
  | run (a : ServerAct)
  /-- `io_uring_submit` of a loop. -/
  | submit (loop : ℕ)

namespace Process

def create (name : List Char) (addr : InetAddress) (numThreads : ℕ) : Process where
  server := .create name addr numThreads
  sockets := []
  table := ∅
  closeCalls := []
  prepared := []
  requests := []

/-- `Socket::close`, of the socket of connection `i`. -/
def close (p : Process) (i : ℕ) : Process :=
  match p.sockets[i]? with
  | some ⟨fd, false⟩ =>
      { p with
        sockets := p.sockets.set i ⟨fd, true⟩
        table := p.table.erase fd
        closeCalls := p.closeCalls ++ [⟨i, fd, p.table.lookup fd⟩] }
  | _ => p

/-- Connection `i` prepares the read and write requests among the SQEs that are new. -/
def prepare (p : Process) (i : ℕ) (sqes : List Sqe) : Process :=
  match p.sockets[i]? with
  | some sock =>
      { p with
        prepared := p.prepared ++ (sqes.filter fun q => decide (q.kind ≠ .cancel)).map fun _ =>
          ⟨i, sock.fd⟩ }
  | none => p

/-- The request belongs to a connection of the loop. -/
def ofLoop (p : Process) (loop : ℕ) (q : Prepared) : Bool :=
  (p.server.conns[q.conn]?).any fun c => decide (c.loop = loop)

/-- What becomes of a prepared request when it is submitted. -/
def issue (p : Process) (q : Prepared) : Request where
  conn := q.conn
  closed := (p.server.conns[q.conn]?).any fun c => c.session.closing
  target := p.table.lookup q.fd

/-- `io_uring_submit`, of the ring of a loop. -/
def submit (p : Process) (loop : ℕ) : Process :=
  { p with
    prepared := p.prepared.filter fun q => !p.ofLoop loop q
    requests := p.requests ++ (p.prepared.filter (p.ofLoop loop)).map p.issue }

/-- What a step that took connection `i` from `c` to `d` did with its descriptor: it prepared
requests, it went through `handleClose`, or the last owner went and `~Socket` ran. -/
def follow (p : Process) (i : ℕ) (c d : Conn) : Process :=
  let p := p.prepare i (d.session.sqes.drop c.session.sqes.length)
  let p := if c.session.closing = false ∧ d.session.closing = true then p.close i else p
  if c.freed = false ∧ d.freed = true then p.close i else p

/-- The process after a step of the server. -/
def absorb (p : Process) (a : ServerAct) (t : TcpServer) : Process :=
  match (p.server.subject a).bind fun i =>
      (p.server.conns[i]?).bind fun c => (t.conns[i]?).map fun d => (i, c, d) with
  | some (i, c, d) => { p.follow i c d with server := t }
  | none => { p with server := t }

/-- The acceptor passes on positive numbers only, and the kernel gives none that is in use.  A loop
submits when none of its handlers is running. -/
def step (p : Process) : ProcessAct → Option Process
  | .accept fd =>
      if 0 < fd ∧ p.table.lookup fd = none then
        (p.server.step .accept).map fun t =>
          if p.server.gone then { p with server := t }
          else { p with
            server := t
            sockets := p.sockets ++ [⟨fd, false⟩]
            table := p.table.insert fd p.server.conns.length }
      else none
  | .run a =>
      match a with
      | .accept => none
      | a => (p.server.step a).map (p.absorb a)
  | .submit loop =>
      if p.server.fault = false ∧ p.server.loopFree p.server.conns.length loop = true then
        some (p.submit loop)
      else none

end Process

/-! ## The sockets and the kernel's table -/

namespace Process

def closeCallsOf (p : Process) (i : ℕ) : List CloseCall := p.closeCalls.filter fun k => k.conn = i

/-- **The sockets agree with the kernel.** -/
structure Tracked (p : Process) : Prop where
  /-- A number stands for the connection whose socket is open under it. -/
  known : ∀ fd i, p.table.lookup fd = some i ↔ p.sockets[i]? = some ⟨fd, false⟩
  /-- A socket that is closed has called `::close` once, on itself, and an open one has not. -/
  calls : ∀ (i : ℕ) (k : Socket), p.sockets[i]? = some k →
    p.closeCallsOf i = if k.closed then [⟨i, k.fd, some i⟩] else []
  callers : ∀ k ∈ p.closeCalls, k.conn < p.sockets.length

section

variable {p p' : Process} {i fd : ℕ} {k : Socket} {c d : Conn}

theorem close_of_closed (h : p.sockets[i]? = some k) (closed : k.closed = true) :
    p.close i = p := by
  obtain ⟨fd, _⟩ := k
  obtain rfl := closed
  simp [close, h]

theorem close_of_open (h : p.sockets[i]? = some ⟨fd, false⟩) :
    p.close i = { p with
      sockets := p.sockets.set i ⟨fd, true⟩
      table := p.table.erase fd
      closeCalls := p.closeCalls ++ [⟨i, fd, p.table.lookup fd⟩] } := by
  simp [close, h]

/-- **A socket closes its own descriptor.** -/
theorem Tracked.close (hp : p.Tracked) (h : p.sockets[i]? = some ⟨fd, false⟩) :
    (p.close i).Tracked := by
  have hi : i < p.sockets.length := (List.getElem?_eq_some_iff.mp h).1
  have hown : p.table.lookup fd = some i := (hp.known fd i).mpr h
  rw [close_of_open h]
  refine ⟨?_, ?_, ?_⟩
  · intro fd' j
    by_cases hfd : fd' = fd
    · subst hfd
      simp only [AList.lookup_erase, reduceCtorEq, false_iff]
      intro hj
      rw [List.getElem?_set] at hj
      split at hj
      case isTrue => simp at hj
      case isFalse hne =>
        exact hne (Option.some.inj (hown.symm.trans ((hp.known fd' j).mpr hj)))
    · simp only [AList.lookup_erase_ne hfd, hp.known fd' j, List.getElem?_set]
      split
      case isTrue hj =>
        subst hj
        rw [h]
        simp [Ne.symm hfd]
      case isFalse => rfl
  · intro j k hk
    have hsplit : (p.closeCalls ++ [⟨i, fd, p.table.lookup fd⟩] : List CloseCall).filter
        (fun k => k.conn = j) = p.closeCallsOf j ++ if i = j then [⟨i, fd, some i⟩] else [] := by
      by_cases hj : i = j <;> simp [closeCallsOf, hj, hown]
    show (_ : List CloseCall).filter _ = _
    rw [hsplit]
    rw [List.getElem?_set] at hk
    split at hk
    case isTrue hj =>
      subst hj
      obtain rfl : k = ⟨fd, true⟩ := by simpa [hi] using hk.symm
      simp [hp.calls i _ h]
    case isFalse hj => simp [hj, hp.calls j k hk]
  · intro e he
    rw [List.length_set]
    rcases List.mem_append.mp he with he | he
    · exact hp.callers e he
    · rwa [List.mem_singleton.mp he]

/-- The kernel gives a number that is free. -/
theorem Tracked.accept (hp : p.Tracked) (free : p.table.lookup fd = none) (t : TcpServer) :
    Tracked { p with
      server := t
      sockets := p.sockets ++ [⟨fd, false⟩]
      table := p.table.insert fd p.sockets.length } := by
  refine ⟨?_, ?_, ?_⟩
  · intro fd' j
    by_cases hfd : fd' = fd
    · subst hfd
      rw [AList.lookup_insert, Option.some.injEq]
      constructor
      · rintro rfl
        simp
      · intro hj
        rcases Slots.getElem?_snoc hj with ⟨-, hold⟩ | ⟨rfl, -⟩
        · simp [(hp.known fd' j).mpr hold] at free
        · rfl
    · rw [AList.lookup_insert_ne hfd, hp.known fd' j]
      constructor
      · intro hj
        have hlt : j < p.sockets.length := (List.getElem?_eq_some_iff.mp hj).1
        rw [List.getElem?_append_left hlt, hj]
      · intro hj
        rcases Slots.getElem?_snoc hj with ⟨-, hold⟩ | ⟨-, hnew⟩
        · exact hold
        · exact absurd (congrArg Socket.fd hnew) hfd
  · intro j k hk
    rcases Slots.getElem?_snoc hk with ⟨-, hold⟩ | ⟨rfl, rfl⟩
    · exact hp.calls j k hold
    · show p.closeCallsOf p.sockets.length = []
      rw [closeCallsOf, List.filter_eq_nil_iff]
      intro e he
      have := hp.callers e he
      simp only [decide_eq_true_eq]
      omega
  · intro e he
    have := hp.callers e he
    simp only [List.length_append, List.length_singleton]
    omega

/-! ## Steps of the process -/

/-- **The invariant of a process.** -/
structure Sound (p : Process) : Prop extends Tracked p where
  named : p.server.Named
  attended : p.server.Attended
  /-- `closed_` is set where `closing_` is. -/
  paired : p.sockets.map Socket.closed = p.server.conns.map fun c => c.session.closing
  /-- An SQE has the number of its connection's socket. -/
  numbered : ∀ q ∈ p.prepared, ∃ k, p.sockets[q.conn]? = some k ∧ k.fd = q.fd
  /-- A request reaches its own connection exactly when `closing_` was not set. -/
  proper : ∀ r ∈ p.requests, r.target = some r.conn ↔ r.closed = false

theorem follow_self : p.follow i c c = p := by
  have hnone : ∀ b : Bool, ¬ (b = false ∧ b = true) := by decide
  simp only [follow, hnone, if_false, List.drop_length]
  cases h : p.sockets[i]? with
  | none => simp [prepare, h]
  | some k => simp [prepare, h]

theorem prepare_eq (h : p.sockets[i]? = some k) (sqes : List Sqe) :
    p.prepare i sqes = { p with
      prepared := p.prepared ++ (sqes.filter fun q => decide (q.kind ≠ .cancel)).map fun _ =>
        ⟨i, k.fd⟩ } := by
  simp [prepare, h]

theorem Sound.socket (hp : p.Sound) (found : p.server.conns[i]? = some c) :
    ∃ k, p.sockets[i]? = some k ∧ k.closed = c.session.closing := by
  have hi := congrArg (fun l => l[i]?) hp.paired
  simpa [found] using hi

theorem Sound.length (hp : p.Sound) : p.sockets.length = p.server.conns.length := by
  simpa using congrArg List.length hp.paired

/-- When the last owner goes the connection is closed, and `~Socket` has nothing to do. -/
theorem follow_eq (h : p.sockets[i]? = some k) (hclosed : k.closed = c.session.closing)
    (freed : d.freed = true → d.session.closing = true) :
    p.follow i c d =
      if c.session.closing = false ∧ d.session.closing = true then
        (p.prepare i (d.session.sqes.drop c.session.sqes.length)).close i
      else p.prepare i (d.session.sqes.drop c.session.sqes.length) := by
  have hsock : (p.prepare i (d.session.sqes.drop c.session.sqes.length)).sockets[i]? = some k := by
    rwa [prepare_eq h]
  have hi : i < (p.prepare i (d.session.sqes.drop c.session.sqes.length)).sockets.length :=
    (List.getElem?_eq_some_iff.mp hsock).1
  unfold follow
  by_cases hflip : c.session.closing = false ∧ d.session.closing = true
  · simp only [if_pos hflip]
    split
    case isTrue =>
      obtain ⟨fd, closed⟩ := k
      obtain rfl : closed = false := hclosed.trans hflip.1
      refine close_of_closed (k := ⟨fd, true⟩) ?_ rfl
      rw [close_of_open hsock]
      exact List.getElem?_set_self hi
    case isFalse => rfl
  · simp only [if_neg hflip]
    split
    case isTrue hgone =>
      refine close_of_closed hsock (hclosed.trans ?_)
      rw [← Bool.not_eq_false]
      exact fun hopen => hflip ⟨hopen, freed hgone.2⟩
    case isFalse => rfl

/-- The sockets of a process keep their numbers when one is closed. -/
theorem numbered_set {sockets : List Socket} (h : sockets[i]? = some ⟨fd, false⟩) {j : ℕ}
    {k : Socket} (hk : sockets[j]? = some k) :
    ∃ k', (sockets.set i ⟨fd, true⟩)[j]? = some k' ∧ k'.fd = k.fd := by
  rw [List.getElem?_set]
  split
  case isTrue hj =>
    subst hj
    obtain rfl := Option.some.inj (h.symm.trans hk)
    rw [if_pos (List.getElem?_eq_some_iff.mp h).1]
    exact ⟨_, rfl, rfl⟩
  case isFalse => exact ⟨k, hk, rfl⟩

/-- **A step about one connection.** -/
theorem Sound.change (hp : p.Sound) {t : TcpServer} (found : p.server.conns[i]? = some c)
    (hconns : t.conns = p.server.conns.set i d) (evolves : c.Evolves d) (hn : t.Named)
    (ht : t.Attended) : Sound { p.follow i c d with server := t } := by
  obtain ⟨k, hk, hclosed⟩ := hp.socket found
  have hi : i < p.server.conns.length := (List.getElem?_eq_some_iff.mp found).1
  have hd : t.conns[i]? = some d := by rw [hconns, List.getElem?_set_self hi]
  generalize hnew : d.session.sqes.drop c.session.sqes.length = new
  have hnumbered : ∀ q ∈ (p.prepare i new).prepared, ∃ k, p.sockets[q.conn]? = some k ∧
      k.fd = q.fd := by
    intro q hq
    simp only [prepare_eq hk, List.mem_append, List.mem_map] at hq
    rcases hq with hq | ⟨_, -, rfl⟩
    · exact hp.numbered q hq
    · exact ⟨k, hk, rfl⟩
  rw [follow_eq hk hclosed (ht.freed i d hd), hnew]
  split
  case isTrue hflip =>
    obtain ⟨fd, closed⟩ := k
    obtain rfl : closed = false := hclosed.trans hflip.1
    have hsock : (p.prepare i new).sockets[i]? = some ⟨fd, false⟩ := by rwa [prepare_eq hk]
    have htracked : ((p.prepare i new).close i).Tracked := by
      refine Tracked.close ?_ hsock
      rw [prepare_eq hk]
      exact ⟨hp.known, hp.calls, hp.callers⟩
    refine ⟨⟨htracked.known, htracked.calls, htracked.callers⟩, hn, ht, ?_, ?_, ?_⟩
    · rw [close_of_open hsock, prepare_eq hk]
      simp only [hconns, List.map_set, hp.paired, hflip.2]
    · rw [close_of_open hsock]
      intro q hq
      obtain ⟨k', hk', hfd⟩ := hnumbered q hq
      obtain ⟨k'', hk'', hfd'⟩ := numbered_set hk hk'
      rw [prepare_eq hk]
      exact ⟨k'', hk'', hfd'.trans hfd⟩
    · rw [close_of_open hsock, prepare_eq hk]
      exact hp.proper
  case isFalse hflip =>
    have hsame : d.session.closing = c.session.closing := by
      cases hc : c.session.closing with
      | true => exact evolves.closing hc
      | false => simpa [hc] using hflip
    rw [prepare_eq hk] at hnumbered ⊢
    refine ⟨⟨hp.known, hp.calls, hp.callers⟩, hn, ht, ?_, hnumbered, hp.proper⟩
    have hself :
        (p.server.conns.map fun c => c.session.closing)[i]? = some c.session.closing := by
      simp [found]
    obtain ⟨hlt, hget⟩ := List.getElem?_eq_some_iff.mp hself
    simp only [hconns, List.map_set, hp.paired, hsame]
    rw [← hget, List.set_getElem_self]

/-- A step that changes no connection. -/
theorem Sound.unchanged (hp : p.Sound) {t : TcpServer} (hconns : t.conns = p.server.conns)
    (hn : t.Named) (ht : t.Attended) : Sound { p with server := t } where
  known := hp.known
  calls := hp.calls
  callers := hp.callers
  named := hn
  attended := ht
  paired := by rw [hconns, hp.paired]
  numbered := hp.numbered
  proper := hp.proper

theorem Sound.absorb (hp : p.Sound) {a : ServerAct} {t : TcpServer} (hno : a ≠ .accept)
    (move : p.server.step a = some t) : (p.absorb a t).Sound := by
  have hturn := TcpServer.step_turn move
  have hn := hturn.named hp.named
  have ht := hturn.attended hp.named hp.attended
  unfold Process.absorb
  rcases hturn.changes hno with hsame | ⟨i, c, d, hsubject, found, hconns, evolves⟩
  · split
    case h_1 i c d hfound =>
      simp only [hsame, Option.bind_eq_some_iff, Option.map_eq_some_iff, Prod.mk.injEq] at hfound
      obtain ⟨_, -, _, hc, _, hd, rfl, rfl, rfl⟩ := hfound
      obtain rfl := Option.some.inj (hc.symm.trans hd)
      rw [follow_self]
      exact hp.unchanged hsame hn ht
    case h_2 => exact hp.unchanged hsame hn ht
  · have hi : i < p.server.conns.length := (List.getElem?_eq_some_iff.mp found).1
    have hd : t.conns[i]? = some d := by rw [hconns, List.getElem?_set_self hi]
    simp only [hsubject, found, hd, Option.bind_some, Option.map_some]
    exact hp.change found hconns evolves hn ht

theorem step_run {a : ServerAct} (h : p.step (.run a) = some p') :
    a ≠ .accept ∧ ∃ t, p.server.step a = some t ∧ p.absorb a t = p' := by
  cases a with
  | accept => simp [Process.step] at h
  | _ => exact ⟨nofun, Option.map_eq_some_iff.mp h⟩

/-- **A request is submitted on its own connection exactly if that is open.** -/
theorem Sound.issue (hp : p.Sound) {q : Prepared} (hq : q ∈ p.prepared) :
    (p.issue q).target = some q.conn ↔ (p.issue q).closed = false := by
  obtain ⟨⟨fd, closed⟩, hk, rfl⟩ := hp.numbered q hq
  have hi := congrArg (fun l => l[q.conn]?) hp.paired
  simp only [List.getElem?_map, hk, Option.map_some] at hi
  obtain ⟨c, hc, hclosing⟩ := Option.map_eq_some_iff.mp hi.symm
  simp [Process.issue, hc, hclosing, hp.known, hk]

theorem Sound.submit (hp : p.Sound) (loop : ℕ) : (p.submit loop).Sound where
  known := hp.known
  calls := hp.calls
  callers := hp.callers
  named := hp.named
  attended := hp.attended
  paired := hp.paired
  numbered q hq := hp.numbered q (List.mem_of_mem_filter hq)
  proper r hr := by
    rcases List.mem_append.mp hr with hr | hr
    · exact hp.proper r hr
    · obtain ⟨q, hq, rfl⟩ := List.mem_map.mp hr
      exact hp.issue (List.mem_of_mem_filter hq)

theorem Sound.step {a : ProcessAct} (hp : p.Sound) (move : p.step a = some p') : p'.Sound := by
  cases a with
  | accept fd =>
      simp only [Process.step, Option.ite_none_right_eq_some, Option.map_eq_some_iff] at move
      obtain ⟨⟨-, free⟩, t, move, rfl⟩ := move
      have hturn := TcpServer.step_turn move
      have hn := hturn.named hp.named
      have ht := hturn.attended hp.named hp.attended
      have hafter := TcpServer.step_accept move
      split
      case isTrue gone =>
        rw [if_pos gone] at hafter
        exact hp.unchanged (by rw [hafter]) hn ht
      case isFalse alive =>
        rw [if_neg alive] at hafter
        have htracked := hp.toTracked.accept free t
        rw [hp.length] at htracked
        refine ⟨htracked, hn, ht, ?_, ?_, hp.proper⟩
        · rw [hafter]
          simp [TcpServer.newConnection, hp.paired, Conn.create, Session.create, Session.start]
        · intro q hq
          obtain ⟨k, hk, hfd⟩ := hp.numbered q hq
          have hlt : q.conn < p.sockets.length := (List.getElem?_eq_some_iff.mp hk).1
          exact ⟨k, by rw [List.getElem?_append_left hlt, hk], hfd⟩
  | run a =>
      obtain ⟨hno, t, hstep, rfl⟩ := step_run move
      exact hp.absorb hno hstep
  | submit loop =>
      simp only [Process.step, Option.ite_none_right_eq_some, Option.some.injEq] at move
      obtain ⟨-, rfl⟩ := move
      exact hp.submit loop

theorem sound_create (name : List Char) (addr : InetAddress) (numThreads : ℕ) :
    (create name addr numThreads).Sound where
  known := by simp [create]
  calls := by simp [create]
  callers := by simp [create]
  named := TcpServer.named_create name addr numThreads
  attended := ⟨by simp [create, TcpServer.create], by simp [create, TcpServer.create],
    by simp [create, TcpServer.create]⟩
  paired := rfl
  numbered := by simp [create]
  proper := by simp [create]

end

/-- **Descriptors belong to their connections.**  In every run of a server, until a callback of a
server whose destructor has begun, and whatever numbers the kernel gives out again: an open number
stands for the connection whose socket has it; a connection that `handleClose` has closed, and with
it every one whose last owner has gone, has called `::close` once, and that call hit its own
descriptor; an open one has not called it; and a read or write request hits the descriptor of its
own connection exactly when it was submitted before `handleClose`. -/
theorem descriptors_owned {p : Process} {name : List Char} {addr : InetAddress} {numThreads : ℕ}
    (run : Reach step anyStep (create name addr numThreads) p) :
    (∀ fd i, p.table.lookup fd = some i ↔ p.sockets[i]? = some ⟨fd, false⟩) ∧
      (∀ (i : ℕ) (c : Conn), p.server.conns[i]? = some c →
        (c.freed = true → c.session.closing = true) ∧
        ∃ k, p.sockets[i]? = some k ∧ k.closed = c.session.closing ∧
          p.closeCalls.filter (fun call => call.conn = i) =
            if c.session.closing then [⟨i, k.fd, some i⟩] else []) ∧
      ∀ r ∈ p.requests, r.target = some r.conn ↔ r.closed = false := by
  have hp : p.Sound := run.invariant (sound_create name addr numThreads)
    fun _ _ _ hs _ move => hs.step move
  refine ⟨hp.known, ?_, hp.proper⟩
  intro i c found
  obtain ⟨k, hk, hclosed⟩ := hp.socket found
  refine ⟨hp.attended.freed i c found, k, hk, hclosed, ?_⟩
  rw [← hclosed]
  exact hp.calls i k hk

/-- The first connection is closed and let go of while it has number 7.  The kernel gives 7 to the
second, whose receive is its own. -/
theorem descriptors_owned_reused :
    ∃ p, Reach step anyStep (create ['s'] ⟨(127, 0, 0, 1), 8080⟩ 0) p ∧
      p.sockets = [⟨7, true⟩, ⟨7, false⟩] ∧ p.server.conns.map Conn.freed = [true, false] ∧
      p.table.lookup 7 = some 1 ∧ p.closeCalls = [⟨0, 7, some 0⟩] ∧
      p.requests.map Request.conn = [0, 1] ∧
      ∀ r ∈ p.requests, r.target = some r.conn ↔ r.closed = false := by
  obtain ⟨p, run, h⟩ := exists_reach step anyStep (create ['s'] ⟨(127, 0, 0, 1), 8080⟩ 0)
    [.accept 7, .run (.conn 0 .functor), .run (.conn 0 (.co .prepareToRead)), .submit 0,
      .run (.conn 0 (.readCqe 0 [] false)), .run (.conn 0 (.co .ret)), .run (.conn 0 .unwind),
      .run (.reset 0), .run (.touch 0), .accept 7, .run (.conn 1 .functor),
      .run (.conn 1 (.co .prepareToRead)), .submit 0]
    (fun p => decide (p.sockets = [⟨7, true⟩, ⟨7, false⟩] ∧
      p.server.conns.map Conn.freed = [true, false] ∧ p.closeCalls = [⟨0, 7, some 0⟩] ∧
      p.requests.map Request.conn = [0, 1]))
    (by decide +kernel)
  obtain ⟨hsockets, hfreed, hcalls, hconns⟩ := of_decide_eq_true h
  obtain ⟨htable, -, hrequests⟩ := descriptors_owned run
  exact ⟨p, run, hsockets, hfreed, (htable 7 1).mpr (by simp [hsockets]), hcalls, hconns, hrequests⟩

/-- A coroutine on a pool thread starts to wait for data; the peer disconnects, the kernel gives the
number to the next connection, and the functor submits a receive on it. -/
example : ∃ p, Reach step anyStep (create ['s'] ⟨(127, 0, 0, 1), 8080⟩ 0) p ∧
    p.requests.any (fun r => decide (r.conn = 0 ∧ r.target = some 1)) = true :=
  exists_reach step anyStep (create ['s'] ⟨(127, 0, 0, 1), 8080⟩ 0)
    [.accept 7, .run (.conn 0 .functor), .run (.conn 0 (.co .prepareToRead)), .submit 0,
      .run (.conn 0 (.readCqe 1 [1] true)), .run (.conn 0 (.co (.read 1))),
      .run (.conn 0 (.co .switchThread)), .run (.conn 0 .poolTake),
      .run (.conn 0 (.co .prepareToRead)), .run (.conn 0 (.readCqe 0 [] false)),
      .run (.reset 0), .run (.touch 0), .accept 7, .run (.conn 0 .enqueue),
      .run (.conn 0 .functor), .submit 0]
    (fun p => p.requests.any fun r => decide (r.conn = 0 ∧ r.target = some 1)) (by decide +kernel)

/-- A write is prepared, and the receive of the same batch ends with 0: the write goes to the
connection that has been given the number before it is submitted. -/
example : ∃ p, Reach step anyStep (create ['s'] ⟨(127, 0, 0, 1), 8080⟩ 0) p ∧
    p.requests.any (fun r => decide (r.conn = 0 ∧ r.target = some 1)) = true :=
  exists_reach step anyStep (create ['s'] ⟨(127, 0, 0, 1), 8080⟩ 0)
    [.accept 7, .run (.conn 0 .functor), .run (.conn 0 (.co .prepareToRead)), .submit 0,
      .run (.conn 0 (.readCqe 1 [1] true)), .run (.conn 0 (.co (.send [2]))),
      .run (.conn 0 (.co .ret)), .run (.conn 0 (.readCqe 0 [] false)), .run (.reset 0),
      .run (.touch 0), .accept 7, .submit 0]
    (fun p => p.requests.any fun r => decide (r.conn = 0 ∧ r.target = some 1)) (by decide +kernel)

end Process

/-! ## Runs that keep off closed descriptors -/

theorem Session.Awaited.queueDestroyed {s : Session} (h : s.Awaited) :
    s.queueDestroyed.Awaited where
  born := h.born.keep (by simp [Session.queueDestroyed])
  placed := h.placed.keep [.destroyed] rfl
  handles := h.handles.keep
    (by simp [Session.awaits, Session.queueDestroyed, QueuedFunctor.isAwait])
  waits := h.waits.keep (by simp [Session.queueDestroyed])
  reader := h.reader
  writer := h.writer.keep
  protocol := h.protocol.keep

namespace TcpServer

/-- The step is not one with which a closing connection prepares a read or write request. -/
def keepsOff (s : TcpServer) : ServerAct → Bool
  | .conn i act => (s.conns[i]?).all fun c => !c.session.reissues act
  | _ => true

/-- No connection has prepared a request late. -/
def Prompt (s : TcpServer) : Prop :=
  ∀ (i : ℕ) (c : Conn), s.conns[i]? = some c → c.session.Awaited ∧ c.session.lateRequest = false

section

variable {s s' t : TcpServer} {i : ℕ} {c d : Conn} {a : ServerAct}

theorem Prompt.put (hs : s.Prompt) (hconns : t.conns = s.conns) (awaited : d.session.Awaited)
    (prompt : d.session.lateRequest = false) : (t.put i d).Prompt := by
  intro j e he
  rcases put_conns he with ⟨-, rfl⟩ | ⟨-, he⟩
  · exact ⟨awaited, prompt⟩
  · exact hs j e (hconns ▸ he)

/-- A step of a session that keeps off. -/
theorem Prompt.session (hs : s.Prompt) {act : SessionAct} {u : Session}
    (found : s.conns[i]? = some c) (move : c.session.step act = some u)
    (off : s.keepsOff (.conn i act) = true) : u.Awaited ∧ u.lateRequest = false := by
  obtain ⟨hawaited, hprompt⟩ := hs i c found
  have hmove := Session.step_move move
  have hoff : c.session.reissues act = false := by simpa [keepsOff, found] using off
  refine ⟨hmove.awaited hawaited, ?_⟩
  rcases hmove.lateRequest hawaited.writer.queued with h | ⟨-, h⟩
  · rw [h, hprompt, hoff, Bool.or_false]
  · rw [h, hprompt]

theorem Turn.prompt (h : Turn s a s') (off : s.keepsOff a = true) (hs : s.Prompt) :
    s'.Prompt := by
  cases h with
  | accept room =>
      intro j e he
      rcases newConnection_conns he with ⟨-, rfl⟩ | hold
      · exact ⟨Session.awaited_create _ _ _ _, rfl⟩
      · exact hs j e hold
  | conn found own loop move still =>
      obtain ⟨hawaited, hprompt⟩ := hs.session found move off
      exact hs.put rfl hawaited hprompt
  | close found own loop move opened closed alive =>
      obtain ⟨hawaited, hprompt⟩ := hs.session found move off
      unfold removeConnection
      split
      case isTrue => exact hs.put rfl hawaited hprompt
      case isFalse => exact hs.put rfl hawaited hprompt
  | reset found rest =>
      obtain ⟨hawaited, hprompt⟩ := hs _ _ found
      exact hs.put rfl hawaited hprompt
  | touch found rest =>
      obtain ⟨hawaited, hprompt⟩ := hs _ _ found
      exact hs.put rfl hawaited hprompt
  | destroyed found owned =>
      obtain ⟨hawaited, hprompt⟩ := hs _ _ found
      exact hs.put rfl hawaited.queueDestroyed hprompt
  | removal head found alive =>
      obtain ⟨hawaited, hprompt⟩ := hs _ _ found
      exact hs.put rfl hawaited hprompt
  | destroy found entry =>
      obtain ⟨hawaited, hprompt⟩ := hs _ _ found
      exact hs.put rfl hawaited.queueDestroyed hprompt
  | @closeLate i c act u found own loop move =>
      obtain ⟨hawaited, hprompt⟩ := hs.session found move off
      have hput : (s.put i (c.after act u)).Prompt := hs.put rfl hawaited hprompt
      exact hput
  | acceptLate => exact hs
  | removalLate => exact hs

end

end TcpServer

namespace Session

variable {s t : Session} {a : SessionAct}

/-- The step goes through `handleClose`. -/
def shuts (s : Session) : SessionAct → Bool
  | .functor => decide (s.functors.head? = some .destroyed)
  | a => s.callsClose a

theorem Move.shuts_of_closes (h : Move s a t) (opened : s.closing = false)
    (closed : t.closing = true) : s.shuts a = true := by
  cases h with
  | readMore _ _ _ _ woke => cases woke <;> simp_all [took]
  | readStopped _ _ _ _ _ woke => cases woke <;> simp_all [took, endRead]
  | readAgain _ _ _ _ _ woke => cases woke <;> simp_all [took, submitRead_eq]
  | writeMore _ _ _ _ _ woke => cases woke <;> simp_all [wrote]
  | readClose _ _ _ _ fatal handle => simp [shuts, callsClose, fatal, handle]
  | writeClose _ _ _ fatal handle => simp [shuts, callsClose, fatal, handle]
  | destroyed _ head => simp [shuts, head]
  | unwindRead => rfl
  | unwindWrite => rfl
  | _ =>
      simp_all [took, wrote, awaitRead_eq, prepareRead, prepareWrite, recvAwaitResume_eq,
        sendAwaitResume_eq, queueDestroyed]

end Session

/-- Only a step of the connection itself that goes through `handleClose` closes it. -/
theorem TcpServer.Turn.shuts {s t : TcpServer} {a : ServerAct} {i : ℕ} {c d : Conn}
    (h : TcpServer.Turn s a t) (found : s.conns[i]? = some c) (after : t.conns[i]? = some d)
    (opened : c.session.closing = false) (closed : d.session.closing = true) :
    ∃ act, a = .conn i act ∧ c.session.shuts act = true := by
  have hstill : s.conns[i]? ≠ some d := by
    intro hsame
    obtain rfl := Option.some.inj (found.symm.trans hsame)
    exact absurd (opened.symm.trans closed) (by decide)
  -- so the step has recorded this connection
  have hput : ∀ {u : TcpServer} {j : ℕ} {e e' : Conn}, u.conns = s.conns → s.conns[j]? = some e →
      (u.put j e').conns[i]? = some d → j = i ∧ e = c ∧ d.session = e'.session := by
    intro u j e e' hconns hj hafter
    rcases put_conns hafter with ⟨rfl, rfl⟩ | ⟨-, hsame⟩
    · exact ⟨rfl, Option.some.inj (hj.symm.trans found), rfl⟩
    · exact absurd (hconns ▸ hsame) hstill
  have hquiet : ∀ {u : TcpServer} {j : ℕ} {e e' : Conn}, u.conns = s.conns →
      s.conns[j]? = some e → e'.session.closing = e.session.closing →
      (u.put j e').conns[i]? ≠ some d := by
    intro u j e e' hconns hj hsame hafter
    obtain ⟨-, rfl, hd⟩ := hput hconns hj hafter
    rw [hd, hsame, opened] at closed
    exact absurd closed (by decide)
  have hconn : ∀ (u : TcpServer) (e' : Conn) {j : ℕ} {e : Conn} {act : SessionAct},
      u.conns = s.conns → s.conns[j]? = some e → e.session.step act = some e'.session →
      (u.put j e').conns[i]? = some d →
      ∃ act', ServerAct.conn j act = .conn i act' ∧ c.session.shuts act' = true := by
    intro u e' j e act hconns hj move hafter
    obtain ⟨rfl, rfl, hd⟩ := hput hconns hj hafter
    exact ⟨act, rfl, (Session.step_move move).shuts_of_closes opened (hd ▸ closed)⟩
  cases h with
  | accept room =>
      rcases newConnection_conns after with ⟨-, rfl⟩ | hsame
      · exact absurd closed (by simp [Conn.create, Session.create, Session.start])
      · exact absurd hsame hstill
  | acceptLate => exact absurd after hstill
  | removalLate => exact absurd after hstill
  | @conn j e act u found' own loop move still =>
      exact hconn s (e.after act u) rfl found' move after
  | @closeLate j e act u found' own loop move =>
      exact hconn s (e.after act u) rfl found' move after
  | @close j e act u found' own loop move =>
      unfold removeConnection at after
      split at after
      case isTrue =>
        exact hconn { s with connectionMap := s.connectionMap.erase e.name }
          { e.after act u with removed := true } rfl found' move after
      case isFalse =>
        exact hconn { s with removals := s.removals ++ [j] } (e.after act u) rfl found' move after
  | reset found' => exact absurd after (hquiet rfl found' rfl)
  | touch found' => exact absurd after (hquiet rfl found' rfl)
  | destroyed found' => exact absurd after (hquiet rfl found' rfl)
  | removal head found' => exact absurd after (hquiet rfl found' rfl)
  | destroy found' => exact absurd after (hquiet rfl found' rfl)

namespace Process

/-- A request of connection `i` has been prepared and not submitted. -/
def owes (p : Process) (i : ℕ) : Bool := p.prepared.any fun q => decide (q.conn = i)

/-- The step is not one with which a closing connection prepares a request, or one that closes a
connection with a request still to be submitted. -/
def keepsOff (p : Process) : ServerAct → Bool
  | .conn i act => p.server.keepsOff (.conn i act) && (p.server.conns[i]?).all fun c =>
      !(p.owes i && c.session.shuts act && !c.session.closing)
  | _ => true

def KeepsOff (p : Process) : ProcessAct → Prop
  | .run a => p.keepsOff a = true
  | _ => True

instance (p : Process) : (a : ProcessAct) → Decidable (KeepsOff p a)
  | .run _ => inferInstanceAs (Decidable (_ = _))
  | .accept _ | .submit _ => inferInstanceAs (Decidable True)

/-- No connection has prepared a request late, and those that have one prepared are open. -/
structure Prompt (p : Process) : Prop where
  server : p.server.Prompt
  opened : ∀ q ∈ p.prepared, ∀ c, p.server.conns[q.conn]? = some c → c.session.closing = false
  requests : ∀ r ∈ p.requests, r.closed = false

section

variable {p p' : Process} {i : ℕ} {c d : Conn} {a : ServerAct} {t : TcpServer}

@[simp] theorem close_prepared (p : Process) (i : ℕ) : (p.close i).prepared = p.prepared := by
  unfold close
  split <;> rfl

@[simp] theorem close_requests (p : Process) (i : ℕ) : (p.close i).requests = p.requests := by
  unfold close
  split <;> rfl

@[simp] theorem prepare_requests (p : Process) (i : ℕ) (sqes : List Sqe) :
    (p.prepare i sqes).requests = p.requests := by
  unfold prepare
  split <;> rfl

@[simp] theorem follow_requests : (p.follow i c d).requests = p.requests := by
  simp only [follow]
  split <;> split <;> simp

/-- Where the prepared requests after a step come from. -/
theorem mem_follow_prepared {q : Prepared} (hq : q ∈ (p.follow i c d).prepared) :
    q ∈ p.prepared ∨ q.conn = i ∧
      ∃ sqe ∈ d.session.sqes.drop c.session.sqes.length, sqe.kind ≠ .cancel := by
  have hprepared : q ∈ (p.prepare i (d.session.sqes.drop c.session.sqes.length)).prepared := by
    simp only [follow] at hq
    split at hq <;> split at hq <;> simpa using hq
  cases h : p.sockets[i]? with
  | none =>
      simp only [prepare, h] at hprepared
      exact .inl hprepared
  | some k =>
      simp only [prepare_eq h, List.mem_append, List.mem_map, List.mem_filter,
        decide_eq_true_eq] at hprepared
      rcases hprepared with hold | ⟨sqe, hsqe, rfl⟩
      · exact .inl hold
      · exact .inr ⟨rfl, sqe, hsqe⟩

theorem keepsOff_server (off : p.keepsOff a = true) : p.server.keepsOff a = true := by
  cases a with
  | conn i act =>
      simp only [keepsOff, Bool.and_eq_true] at off
      exact off.1
  | _ => rfl

/-- A guarded step closes no connection with a request still to be submitted. -/
theorem Prompt.still_open (hp : p.Prompt) (off : p.keepsOff a = true) (hno : a ≠ .accept)
    (move : p.server.step a = some t) {q : Prepared} (hq : q ∈ p.prepared)
    (after : t.conns[q.conn]? = some d) : d.session.closing = false := by
  have hturn := TcpServer.step_turn move
  obtain ⟨c, found⟩ : ∃ c, p.server.conns[q.conn]? = some c := by
    have hlt : q.conn < t.conns.length := (List.getElem?_eq_some_iff.mp after).1
    refine ⟨_, List.getElem?_eq_getElem ?_⟩
    rcases hturn.changes hno with hsame | ⟨_, _, _, -, -, hconns, -⟩
    · rwa [← hsame]
    · rwa [hconns, List.length_set] at hlt
  rw [Bool.eq_false_iff]
  intro closed
  obtain ⟨act, rfl, hshuts⟩ := hturn.shuts found after (hp.opened q hq c found) closed
  have howes : p.owes q.conn = true := List.any_eq_true.mpr ⟨q, hq, by simp⟩
  simp [keepsOff, found, howes, hshuts, hp.opened q hq c found] at off

theorem Prompt.absorb (hp : p.Prompt) (off : p.keepsOff a = true) (hno : a ≠ .accept)
    (move : p.server.step a = some t) : (p.absorb a t).Prompt := by
  have hturn := TcpServer.step_turn move
  have ht : t.Prompt := hturn.prompt (keepsOff_server off) hp.server
  unfold Process.absorb
  split
  case h_1 i c d hfound =>
    simp only [Option.bind_eq_some_iff, Option.map_eq_some_iff, Prod.mk.injEq] at hfound
    obtain ⟨_, hsubject, _, found, _, after, rfl, rfl, rfl⟩ := hfound
    refine ⟨ht, ?_, fun r hr => hp.requests r (by simpa using hr)⟩
    intro q hq e he
    rcases mem_follow_prepared hq with hq | ⟨rfl, sqe, hsqe, hkind⟩
    · exact hp.still_open off hno move hq he
    · obtain rfl := Option.some.inj (after.symm.trans he)
      rcases hturn.changes hno with hsame | ⟨j, c', d', hsubject', found', hconns, evolves⟩
      · obtain rfl := Option.some.inj (found.symm.trans (hsame ▸ after))
        simp at hsqe
      · -- the request was prepared by a connection that was open and stays so
        obtain rfl := Option.some.inj (hsubject.symm.trans hsubject')
        obtain rfl := Option.some.inj (found.symm.trans found')
        have hi : q.conn < p.server.conns.length := (List.getElem?_eq_some_iff.mp found).1
        rw [hconns, List.getElem?_set_self hi] at after
        obtain rfl := Option.some.inj after
        obtain ⟨new, hnew, hall⟩ := evolves.submits
        rw [hnew, List.drop_left] at hsqe
        obtain ⟨hsqe_closed, hsame⟩ := hall sqe hsqe hkind
        have hlate := (Session.noLateRequest_iff _).mpr
          (ht q.conn _ (by rw [hconns, List.getElem?_set_self hi])).2
        have hopen : sqe.closed = false := by
          simpa [Sqe.late, hkind] using hlate sqe (hnew ▸ List.mem_append_right _ hsqe)
        rw [hsame, ← hsqe_closed, hopen]
  case h_2 => exact ⟨ht, fun q hq d after => hp.still_open off hno move hq after, hp.requests⟩

theorem Prompt.step {b : ProcessAct} (hp : p.Prompt) (off : p.KeepsOff b)
    (move : p.step b = some p') : p'.Prompt := by
  cases b with
  | accept fd =>
      simp only [Process.step, Option.ite_none_right_eq_some, Option.map_eq_some_iff] at move
      obtain ⟨-, t, move, rfl⟩ := move
      have ht : t.Prompt := (TcpServer.step_turn move).prompt rfl hp.server
      have hafter := TcpServer.step_accept move
      split
      case isTrue gone =>
        rw [if_pos gone] at hafter
        exact ⟨ht, by rw [hafter]; exact hp.opened, hp.requests⟩
      case isFalse alive =>
        rw [if_neg alive] at hafter
        refine ⟨ht, fun q hq c hc => ?_, hp.requests⟩
        replace hc : t.conns[q.conn]? = some c := hc
        rw [hafter] at hc
        rcases TcpServer.newConnection_conns hc with ⟨-, rfl⟩ | hold
        · rfl
        · exact hp.opened q hq c hold
  | run a =>
      obtain ⟨hno, t, hstep, rfl⟩ := step_run move
      exact hp.absorb off hno hstep
  | submit loop =>
      simp only [Process.step, Option.ite_none_right_eq_some, Option.some.injEq] at move
      obtain ⟨-, rfl⟩ := move
      refine ⟨hp.server, fun q hq => hp.opened q (List.mem_of_mem_filter hq), ?_⟩
      intro r hr
      rcases List.mem_append.mp hr with hr | hr
      · exact hp.requests r hr
      · obtain ⟨q, hq, rfl⟩ := List.mem_map.mp hr
        simp only [issue]
        rw [Bool.eq_false_iff, ne_eq, Option.any_eq_true]
        rintro ⟨c, hc, closed⟩
        exact absurd (closed.symm.trans (hp.opened q (List.mem_of_mem_filter hq) c hc)) (by decide)

end

/-- **No connection reads or writes another one's descriptor**, in every run in which no closing
connection prepares a request and no connection is closed while a request of it is prepared and not
submitted: every read and write request so far hit the descriptor of the connection that prepared
it. -/
theorem requests_reach_own_connection {p : Process} {name : List Char} {addr : InetAddress}
    {numThreads : ℕ} (run : Reach step KeepsOff (create name addr numThreads) p) :
    ∀ r ∈ p.requests, r.target = some r.conn := by
  have h := run.invariant (P := fun p => p.Sound ∧ p.Prompt)
    ⟨sound_create name addr numThreads, by simp [TcpServer.Prompt, create, TcpServer.create],
      by simp [create], by simp [create]⟩
    fun _ _ _ hs off move => ⟨hs.1.step move, hs.2.step off move⟩
  intro r hr
  exact (h.1.proper r hr).mpr (h.2.requests r hr)

/-- The first connection is closed with a write out; the second gets its number, and both have
requests. -/
theorem requests_reach_own_connection_reused :
    ∃ p, Reach step KeepsOff (create ['s'] ⟨(127, 0, 0, 1), 8080⟩ 0) p ∧
      p.sockets = [⟨7, true⟩, ⟨7, false⟩] ∧ p.requests.map Request.conn = [0, 0, 1] ∧
      ∀ r ∈ p.requests, r.target = some r.conn := by
  obtain ⟨p, run, h⟩ := exists_reach step KeepsOff (create ['s'] ⟨(127, 0, 0, 1), 8080⟩ 0)
    [.accept 7, .run (.conn 0 .functor), .run (.conn 0 (.co .prepareToRead)), .submit 0,
      .run (.conn 0 (.readCqe 1 [1] true)), .run (.conn 0 (.co (.send [2]))),
      .run (.conn 0 (.co .ret)), .submit 0, .run (.conn 0 (.readCqe 0 [] false)),
      .run (.reset 0), .run (.touch 0), .accept 7, .run (.conn 1 .functor),
      .run (.conn 1 (.co .prepareToRead)), .submit 0, .run (.conn 0 (.writeCqe 1))]
    (fun p => decide (p.sockets = [⟨7, true⟩, ⟨7, false⟩] ∧
      p.requests.map Request.conn = [0, 0, 1])) (by decide +kernel)
  obtain ⟨hsockets, hrequests⟩ := of_decide_eq_true h
  exact ⟨p, run, hsockets, hrequests, requests_reach_own_connection run⟩

end Process

end Proactor
