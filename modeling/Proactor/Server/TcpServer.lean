import Proactor.Connection.Holding
import Proactor.Core.Slots
import Mathlib.Data.List.AList

/-!
# The server and its connections

`TcpServer` (`src/TcpServer.cc`) gives every accepted connection a name and a loop and keeps it in
`connection_map_` until its close callback has taken it out again.  With sub-loops the callback runs
on another thread than the map and goes through the queue of the base loop; without them it erases
the entry at once, in the middle of `handleClose`.

The connections are `Session`s, stepped one at a time.  What a session leaves out is who keeps the
connection alive, and when it goes: an `on_completion` that ends its request gives up `holder_` and
then still uses the context.  So a step of a session that clears a holder leaves two things to do on
the connection's loop, `reset`, with which the owner goes, and `touch`, the accesses after it.
Other threads may act before each of them.

`freed` remembers that the last owner has gone, and `touched` that an `on_completion` used the
connection afterwards.
-/

namespace Proactor

open Transition

/-! ## Names -/

/-- `InetAddress`: an IPv4 address and a port, as the host reads them. -/
structure InetAddress where
  ip : UInt8 × UInt8 × UInt8 × UInt8
  port : UInt16

/-- `%d` and `%u`, of a number that is not negative. -/
def decimal (n : ℕ) : List Char := Nat.toDigits 10 n

/-- What `snprintf` leaves in a buffer: the last byte is the terminator. -/
def snprintf (size : ℕ) (text : List Char) : List Char := text.take (size - 1)

namespace InetAddress

/-- `inet_ntop`. -/
def toIp (a : InetAddress) : List Char :=
  decimal a.ip.1.toNat ++ '.' :: decimal a.ip.2.1.toNat ++ '.' :: decimal a.ip.2.2.1.toNat ++
    '.' :: decimal a.ip.2.2.2.toNat

def toIpPort (a : InetAddress) : List Char :=
  a.toIp ++ snprintf (64 - a.toIp.length) (':' :: decimal a.port.toNat)

end InetAddress

/-! ## Connections -/

/-- What an `on_completion` has still to do after its part of the session's step. -/
inductive Rest
  /-- `holder_.reset()` -/
  | reset
  /-- The uses of the context after it. -/
  | touch
  deriving DecidableEq, Repr

structure Conn where
  name : List Char
  /-- The loop that owns it; 0 is the base loop. -/
  loop : ℕ
  session : Session
  rest : Option Rest
  /-- `removeConnectionInLoop` has run for it. -/
  removed : Bool
  /-- Its last owner has gone. -/
  freed : Bool
  /-- An `on_completion` has used it after that. -/
  touched : Bool

namespace Conn

/-- `std::make_shared<TcpConnection>` in `newConnection`. -/
def create (name : List Char) (loop : ℕ) : Conn where
  name := name
  loop := loop
  session := .create (4096 * 16) 16 (4096 * 16) 256
  rest := none
  removed := false
  freed := false
  touched := false

/-- Its loop is inside one of its handlers. -/
def busy (c : Conn) : Bool := c.rest.isSome || decide (c.session.ctl ≠ .idle)

/-- The connection after a step of its session. -/
def after (c : Conn) (act : SessionAct) (t : Session) : Conn :=
  { c with
    session := t
    rest :=
      if c.session.read.holder && !t.read.holder || c.session.write.holder && !t.write.holder then
        some .reset
      else c.rest
    touched := c.touched || c.freed && act.inCompletion }

end Conn

/-! ## The server -/

structure TcpServer where
  name : List Char
  ipPort : List Char
  /-- The number of sub-loops. -/
  numThreads : ℕ
  /-- `next_` of the loop pool. -/
  next : ℕ
  nextConnId : ℕ
  /-- Every connection created so far; the map and the functors refer to them by their number. -/
  conns : List Conn
  connectionMap : AList fun _ : List Char => ℕ
  /-- The functors of `removeConnection` in the queue of the base loop. -/
  removals : List ℕ
  /-- `~TcpServer` has begun. -/
  gone : Bool
  /-- A callback has been called on a destroyed server. -/
  fault : Bool

inductive ServerAct
  /-- The acceptor calls `newConnection`. -/
  | accept
  /-- A step of a connection, its coroutine or its requests. -/
  | conn (i : ℕ) (act : SessionAct)
  | reset (i : ℕ)
  | touch (i : ℕ)
  /-- An owner of the connection queues `Destroyed` in its loop. -/
  | destroyed (i : ℕ)
  /-- The base loop runs the first functor of `removeConnection`. -/
  | removal
  /-- `~TcpServer` comes to the entry of a connection. -/
  | destroy (i : ℕ)

namespace TcpServer

def create (name : List Char) (addr : InetAddress) (numThreads : ℕ) : TcpServer where
  name := name
  ipPort := addr.toIpPort
  numThreads := numThreads
  next := 0
  nextConnId := 1
  conns := []
  connectionMap := ∅
  removals := []
  gone := false
  fault := false

/-- `IoUringLoopThreadPool::getNextLoop`, and `next_` after it. -/
def getNextLoop (s : TcpServer) : ℕ × ℕ :=
  if s.numThreads = 0 then (0, s.next) else (s.next + 1, (s.next + 1) % s.numThreads)

/-- The name of the next connection. -/
def connName (s : TcpServer) : List Char :=
  s.name ++ snprintf 64 ('-' :: s.ipPort ++ '#' :: decimal s.nextConnId)

def newConnection (s : TcpServer) : TcpServer :=
  { s with
    next := s.getNextLoop.2
    nextConnId := s.nextConnId + 1
    conns := s.conns ++ [.create s.connName s.getNextLoop.1]
    connectionMap := s.connectionMap.insert s.connName s.conns.length }

/-- **The owners of a connection.** -/
def owned (s : TcpServer) (i : ℕ) (c : Conn) : Bool :=
  decide (s.connectionMap.lookup c.name = some i) || decide (i ∈ s.removals) || c.session.held ||
    decide (c.rest = some .reset)

/-- Record a connection after a step, and whether an owner is left. -/
def put (s : TcpServer) (i : ℕ) (c : Conn) : TcpServer :=
  { s with conns := s.conns.set i { c with freed := c.freed || !s.owned i c } }

def removeConnectionInLoop (s : TcpServer) (i : ℕ) (c : Conn) : TcpServer :=
  { s with connectionMap := s.connectionMap.erase c.name }.put i { c with removed := true }

/-- `removeConnection`: `runInLoop` calls at once on the base loop and queues on another. -/
def removeConnection (s : TcpServer) (i : ℕ) (c : Conn) : TcpServer :=
  if c.loop = 0 then s.removeConnectionInLoop i c
  else { s with removals := s.removals ++ [i] }.put i c

/-- A step of the connection's session, in which `handleClose` may have called the close
callback.  Without a server that is a fault, of which the connection keeps its part. -/
def advance (s : TcpServer) (i : ℕ) (c : Conn) (act : SessionAct) (t : Session) : TcpServer :=
  if c.session.callbacks < t.callbacks then
    if s.gone then { s.put i (c.after act t) with fault := true }
    else s.removeConnection i (c.after act t)
  else s.put i (c.after act t)

/-- No other connection of the loop is inside a handler. -/
def loopFree (s : TcpServer) (i loop : ℕ) : Bool :=
  s.conns.zipIdx.all fun (c, j) => decide (j = i) || decide (c.loop ≠ loop) || !c.busy

/-- `next_conn_id_` is an `int`: it cannot pass its largest value. -/
def maxConnId : ℕ := 2 ^ 31 - 1

def stepConn (s : TcpServer) (i : ℕ) (c : Conn) : ServerAct → Option TcpServer
  | .conn _ act =>
      match act with
      | .serverDestroy | .removeConnection => none
      | act =>
          if c.session.byLoop act = true ∧ ¬ (c.rest = none ∧ s.loopFree i c.loop = true) then none
          else (c.session.step act).map (s.advance i c act)
  | .reset _ => if c.rest = some .reset then some (s.put i { c with rest := some .touch }) else none
  | .touch _ =>
      if c.rest = some .touch then
        some (s.put i { c with rest := none, touched := c.touched || c.freed })
      else none
  | .destroyed _ =>
      if s.owned i c then some (s.put i { c with session := c.session.queueDestroyed }) else none
  | .destroy _ =>
      if s.connectionMap.lookup c.name = some i then
        some ({ s with connectionMap := s.connectionMap.erase c.name, gone := true }.put i
          { c with session := c.session.queueDestroyed })
      else none
  | _ => none

def step (s : TcpServer) (a : ServerAct) : Option TcpServer :=
  if s.fault then none
  else match a with
    | .accept =>
        if s.nextConnId < maxConnId ∧ s.loopFree s.conns.length 0 = true then
          some (if s.gone then { s with fault := true } else s.newConnection)
        else none
    | .removal =>
        match s.removals with
        | [] => none
        | i :: is =>
            if s.gone then some { s with fault := true }
            else (s.conns[i]?).map ({ s with removals := is }.removeConnectionInLoop i)
    | .conn i _ | .reset i | .touch i | .destroyed i | .destroy i =>
        (s.conns[i]?).bind fun c => s.stepConn i c a

/-! ## What one step can do -/

/-- The ways in which a step can end. -/
inductive Turn (s : TcpServer) : ServerAct → TcpServer → Prop
  | accept (room : s.nextConnId < maxConnId) (alive : s.gone = false) :
      Turn s .accept s.newConnection
  | acceptLate (gone : s.gone = true) : Turn s .accept { s with fault := true }
  | conn {i c act t} (found : s.conns[i]? = some c) (own : act ≠ .serverDestroy)
      (loop : c.session.byLoop act = true → c.rest = none) (move : c.session.step act = some t)
      (still : c.session.closing = true ∨ t.closing = false) :
      Turn s (.conn i act) (s.put i (c.after act t))
  | close {i c act t} (found : s.conns[i]? = some c) (own : act ≠ .serverDestroy)
      (loop : c.session.byLoop act = true → c.rest = none) (move : c.session.step act = some t)
      (opened : c.session.closing = false) (closed : t.closing = true) (alive : s.gone = false) :
      Turn s (.conn i act) (s.removeConnection i (c.after act t))
  | closeLate {i c act t} (found : s.conns[i]? = some c) (own : act ≠ .serverDestroy)
      (loop : c.session.byLoop act = true → c.rest = none) (move : c.session.step act = some t)
      (opened : c.session.closing = false) (closed : t.closing = true) (gone : s.gone = true) :
      Turn s (.conn i act) { s.put i (c.after act t) with fault := true }
  | reset {i c} (found : s.conns[i]? = some c) (rest : c.rest = some .reset) :
      Turn s (.reset i) (s.put i { c with rest := some .touch })
  | touch {i c} (found : s.conns[i]? = some c) (rest : c.rest = some .touch) :
      Turn s (.touch i) (s.put i { c with rest := none, touched := c.touched || c.freed })
  | destroyed {i c} (found : s.conns[i]? = some c) (owned : s.owned i c = true) :
      Turn s (.destroyed i) (s.put i { c with session := c.session.queueDestroyed })
  | removal {i is c} (head : s.removals = i :: is) (found : s.conns[i]? = some c)
      (alive : s.gone = false) :
      Turn s .removal ({ s with removals := is }.removeConnectionInLoop i c)
  | destroy {i c} (found : s.conns[i]? = some c) (entry : s.connectionMap.lookup c.name = some i) :
      Turn s (.destroy i) ({ s with
          connectionMap := s.connectionMap.erase c.name, gone := true }.put i
        { c with session := c.session.queueDestroyed })
  | removalLate {i is} (head : s.removals = i :: is) (gone : s.gone = true) :
      Turn s .removal { s with fault := true }

section

variable {s s' : TcpServer} {a : ServerAct}

theorem stepConn_turn {i : ℕ} {c : Conn} {act : SessionAct} (found : s.conns[i]? = some c)
    (h : s.stepConn i c (.conn i act) = some s') : Turn s (.conn i act) s' := by
  have hstep : act ≠ .serverDestroy ∧
      ¬ (c.session.byLoop act = true ∧ ¬ (c.rest = none ∧ s.loopFree i c.loop = true)) ∧
      ∃ t, c.session.step act = some t ∧ s.advance i c act t = s' := by
    simp only [stepConn] at h
    split at h
    case h_1 => exact absurd h (by simp)
    case h_2 => exact absurd h (by simp)
    case h_3 hdestroy _ =>
      simp only [Option.ite_none_left_eq_some, Option.map_eq_some_iff] at h
      exact ⟨hdestroy, h⟩
  obtain ⟨own, hfree, t, move, rfl⟩ := hstep
  have loop : c.session.byLoop act = true → c.rest = none := by
    intro hby
    by_contra hrest
    exact hfree ⟨hby, fun h => hrest h.1⟩
  -- the callback is called in the steps that set `closing_`
  obtain ⟨-, hcalls⟩ := (Session.step_move move).counts
  unfold advance
  split
  case isTrue h =>
    obtain ⟨opened, closed⟩ : c.session.closing = false ∧ t.closing = true := by
      cases hc : c.session.closing <;> cases ht : t.closing <;> simp [hc, ht] at hcalls ⊢ <;> omega
    split
    case isTrue gone => exact .closeLate found own loop move opened closed gone
    case isFalse alive => exact .close found own loop move opened closed (by simpa using alive)
  case isFalse h =>
    refine .conn found own loop move ?_
    cases hc : c.session.closing with
    | true => exact .inl rfl
    | false =>
        refine .inr ?_
        cases ht : t.closing with
        | false => rfl
        | true =>
            simp [hc, ht] at hcalls
            omega

/-- **Every step is one of the turns.** -/
theorem step_turn (h : s.step a = some s') : Turn s a s' := by
  unfold step at h
  split at h
  case isTrue => exact absurd h (by simp)
  case isFalse =>
    cases a with
    | accept =>
        simp only [Option.ite_none_right_eq_some, Option.some.injEq] at h
        obtain ⟨⟨room, -⟩, rfl⟩ := h
        split
        case isTrue gone => exact .acceptLate gone
        case isFalse alive => exact .accept room (by simpa using alive)
    | removal =>
        simp only at h
        split at h
        case h_1 => exact absurd h (by simp)
        case h_2 i is head =>
          split at h
          case isTrue gone =>
            obtain rfl := Option.some.inj h
            exact .removalLate head gone
          case isFalse alive =>
            obtain ⟨c, found, rfl⟩ := Option.map_eq_some_iff.mp h
            exact .removal head found (by simpa using alive)
    | conn i act =>
        obtain ⟨c, found, h⟩ := Option.bind_eq_some_iff.mp h
        exact stepConn_turn found h
    | reset i =>
        obtain ⟨c, found, h⟩ := Option.bind_eq_some_iff.mp h
        simp only [stepConn, Option.ite_none_right_eq_some, Option.some.injEq] at h
        obtain ⟨rest, rfl⟩ := h
        exact .reset found rest
    | touch i =>
        obtain ⟨c, found, h⟩ := Option.bind_eq_some_iff.mp h
        simp only [stepConn, Option.ite_none_right_eq_some, Option.some.injEq] at h
        obtain ⟨rest, rfl⟩ := h
        exact .touch found rest
    | destroyed i =>
        obtain ⟨c, found, h⟩ := Option.bind_eq_some_iff.mp h
        simp only [stepConn, Option.ite_none_right_eq_some, Option.some.injEq] at h
        obtain ⟨owned, rfl⟩ := h
        exact .destroyed found owned
    | destroy i =>
        obtain ⟨c, found, h⟩ := Option.bind_eq_some_iff.mp h
        simp only [stepConn, Option.ite_none_right_eq_some, Option.some.injEq] at h
        obtain ⟨entry, rfl⟩ := h
        exact .destroy found entry

/-- The connections after `newConnection`. -/
theorem newConnection_conns {j : ℕ} {d : Conn} (h : s.newConnection.conns[j]? = some d) :
    (j = s.conns.length ∧ d = .create s.connName s.getNextLoop.1) ∨ s.conns[j]? = some d := by
  rcases Slots.getElem?_snoc h with ⟨-, hold⟩ | hnew
  · exact .inr hold
  · exact .inl hnew

/-- A record in the list of connections after a step that recorded `c`. -/
theorem put_conns {i j : ℕ} {c d : Conn} (h : (s.put i c).conns[j]? = some d) :
    (j = i ∧ d = { c with freed := c.freed || !s.owned i c }) ∨ (j ≠ i ∧ s.conns[j]? = some d) := by
  rw [put, List.getElem?_set] at h
  by_cases hj : i = j
  · rw [if_pos hj] at h
    split at h
    · exact .inl ⟨hj.symm, (Option.some.inj h).symm⟩
    · exact absurd h (by simp)
  · rw [if_neg hj] at h
    exact .inr ⟨Ne.symm hj, h⟩

theorem put_conns_self {i : ℕ} {c d : Conn} (found : s.conns[i]? = some d) :
    (s.put i c).conns[i]? = some { c with freed := c.freed || !s.owned i c } := by
  have hi : i < s.conns.length := (List.getElem?_eq_some_iff.mp found).1
  rw [put, List.getElem?_set_self hi]

theorem put_conns_ne {i j : ℕ} {c : Conn} (h : j ≠ i) :
    (s.put i c).conns[j]? = s.conns[j]? := by
  rw [put, List.getElem?_set_ne (Ne.symm h)]

@[simp] theorem put_length (i : ℕ) (c : Conn) : (s.put i c).conns.length = s.conns.length := by
  rw [put, List.length_set]

end

end TcpServer

end Proactor
