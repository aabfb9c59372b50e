import Proactor.Server.Attendance
import Mathlib.Data.Int.CardIntervalMod

/-!
# Starting the server

`TcpServer::start` may be called by any thread and any number of times; the one that finds
`started_` at 0 starts the sub-loops, one after the other, and then has the acceptor listen on the
base loop (`src/TcpServer.cc`, `src/IoUringLoopThreadPool.cc`).  From then on `getNextLoop` takes
`loops_[next_]` for every connection.

`setThreadNum` checks `started_` and `started_` of the pool and writes `num_threads_` of both; none
of this is one step, and `start` may fall in between.  `setThreadInitCallback` checks nothing.

* `Boot.step` — the threads that configure and start the server, and the server itself from the
  moment it listens.
* `Boot.Configured` — what the owner of the server has to see to: nobody calls `start` while another
  thread is inside `setThreadNum`, or sets the callback after the first `start`.
* `TcpServer.Dealt` — where a server with a given number of sub-loops puts its connections.
* `connections_dealt_round` — that the number of sub-loops is then settled before the first
  connection, so that `loops_[next_]` is there, the connections are dealt round, and the server is
  the one the other modules start from.
-/

namespace Proactor

open Transition

/-- `IoUringLoopThreadPool`. -/
structure LoopPool where
  started : Bool
  numThreads : ℤ
  /-- `loops_`; the sub-loops are numbered from 1, and 0 is the base loop. -/
  loops : List ℕ
  next : ℕ
  deriving DecidableEq, Repr

namespace LoopPool

def create : LoopPool where
  started := false
  numThreads := 0
  loops := []
  next := 0

/-- `none` if `loops_[next_]` is out of range. -/
def getNextLoop (p : LoopPool) : Option (ℕ × LoopPool) :=
  if p.loops.isEmpty then some (0, p)
  else (p.loops[p.next]?).map fun loop =>
    (loop, { p with next := (((p.next : ℤ) + 1).tmod p.numThreads).toNat })

end LoopPool

/-- Where the thread that starts the server is. -/
inductive StartPc
  /-- Nobody has called `start`. -/
  | before
  /-- At the beginning of `pool_->start`. -/
  | pool
  /-- In its loop, at `i<num_threads_`. -/
  | threads (i : ℕ)
  /-- At `loop_->runInLoop`. -/
  | listen
  | finished
  deriving DecidableEq, Repr

/-- Where a thread in `setThreadNum` is. -/
inductive ConfigPc
  /-- At `num_threads_=thread_num`. -/
  | server
  /-- At the assertion of `pool_->setNumThreads`. -/
  | check
  /-- At the assignment there. -/
  | pool
  deriving DecidableEq, Repr

/-- A call of `setThreadNum` that has passed the first assertion. -/
structure Config where
  threadNum : ℤ
  pc : ConfigPc
  deriving DecidableEq, Repr

structure Boot where
  /-- `started_`, an `int` that counts the calls of `start` and goes round. -/
  started : ℕ
  /-- `num_threads_` -/
  numThreads : ℤ
  /-- `thread_init_callback_` is set. -/
  initCallback : Bool
  /-- The calls of `setThreadNum` that have not returned. -/
  configs : List Config
  pool : LoopPool
  pc : StartPc
  /-- The loops with which the callback has been called. -/
  inits : List ℕ
  /-- Functors in the queue of the base loop that call `listen`. -/
  queued : ℕ
  /-- Calls of `listen`. -/
  listens : ℕ
  server : TcpServer
  /-- An assertion of `setThreadNum` has failed. -/
  aborted : Bool
  /-- `loops_[next_]` was out of range. -/
  wild : Bool

inductive BootAct
  /-- A thread calls `setThreadNum`, up to the first assertion. -/
  | setThreadNum (threadNum : ℤ)
  /-- The next step of one that is inside it. -/
  | configure (k : ℕ)
  | setThreadInitCallback (set : Bool)
  /-- A thread calls `start`. -/
  | start
  /-- The next step of the thread that starts the server, which may be that of the base loop. -/
  | advance (inLoop : Bool)
  /-- The base loop runs the functor. -/
  | listen
  | serve (a : ServerAct)

namespace Boot

def create (name : List Char) (addr : InetAddress) : Boot where
  started := 0
  numThreads := 0
  initCallback := false
  configs := []
  pool := .create
  pc := .before
  inits := []
  queued := 0
  listens := 0
  server := .create name addr 0
  aborted := false
  wild := false

/-- `acceptor_->listen()`.  Until then there has been nothing to do for the server. -/
def listen (b : Boot) : Boot :=
  { b with listens := b.listens + 1, server := { b.server with numThreads := b.pool.loops.length } }

/-- `assert(!started_)`, and the rest of the call to come. -/
def setThreadNum (b : Boot) (threadNum : ℤ) : Boot :=
  if b.started = 0 then { b with configs := b.configs ++ [⟨threadNum, .server⟩] }
  else { b with aborted := true }

/-- What a call of `setThreadNum` does next. -/
def configure (b : Boot) (k : ℕ) : Config → Boot
  | ⟨n, .server⟩ => { b with numThreads := n, configs := b.configs.set k ⟨n, .check⟩ }
  | ⟨n, .check⟩ =>
      if b.pool.started then { b with aborted := true }
      else { b with configs := b.configs.set k ⟨n, .pool⟩ }
  | ⟨n, .pool⟩ =>
      { b with pool := { b.pool with numThreads := n }, configs := b.configs.eraseIdx k }

/-- `start`, up to the call of `pool_->start`. -/
def start (b : Boot) : Boot :=
  { b with started := (b.started + 1) % 2 ^ 32, pc := if b.started = 0 then .pool else b.pc }

/-- A turn of the loop of `IoUringLoopThreadPool::start`, or its end.  A sub-loop runs the callback
before `startLoop` returns. -/
def startThread (b : Boot) (i : ℕ) : Boot :=
  if (i : ℤ) < b.pool.numThreads then
    { b with
      pool := { b.pool with loops := b.pool.loops ++ [i + 1] }
      inits := if b.initCallback then b.inits ++ [i + 1] else b.inits
      pc := .threads (i + 1) }
  else
    { b with
      inits := if b.pool.numThreads = 0 ∧ b.initCallback then b.inits ++ [0] else b.inits
      pc := .listen }

def advance (b : Boot) (inLoop : Bool) : Option Boot :=
  match b.pc with
  | .pool => some { b with pool := { b.pool with started := true }, pc := .threads 0 }
  | .threads i => some (b.startThread i)
  | .listen =>
      some (if inLoop then { b with pc := .finished }.listen
        else { b with pc := .finished, queued := b.queued + 1 })
  | .before | .finished => none

/-- `newConnection` asks the pool for the loop. -/
def accept (b : Boot) : Option Boot :=
  match b.pool.getNextLoop with
  | none => some { b with wild := true }
  | some (loop, pool) => (b.server.step .accept).map fun t =>
      if b.server.gone then { b with server := t }
      else { b with
        pool := pool
        server := { t with
          conns := t.conns.modify b.server.conns.length fun c => { c with loop := loop } } }

def step (b : Boot) (a : BootAct) : Option Boot :=
  if b.aborted ∨ b.wild then none
  else match a with
    | .setThreadNum threadNum => some (b.setThreadNum threadNum)
    | .configure k => (b.configs[k]?).map (b.configure k)
    | .setThreadInitCallback set => some { b with initCallback := set }
    | .start => some b.start
    | .advance inLoop => b.advance inLoop
    | .listen => if 0 < b.queued then some { b with queued := b.queued - 1 }.listen else none
    | .serve a =>
        match a with
        | .accept => if 0 < b.listens then b.accept else none
        | a => (b.server.step a).map fun t => { b with server := t }

/-- `start` is called when no thread is inside `setThreadNum`, and less than `2 ^ 32` times, and the
callback is set before. -/
def Configured (b : Boot) : BootAct → Prop
  | .start => b.configs = [] ∧ b.started + 1 < 2 ^ 32
  | .setThreadInitCallback _ => b.started = 0
  | _ => True

instance (b : Boot) : (a : BootAct) → Decidable (Configured b a)
  | .start => inferInstanceAs (Decidable (_ ∧ _))
  | .setThreadInitCallback _ => inferInstanceAs (Decidable (b.started = 0))
  | .setThreadNum _ | .configure _ | .advance _ | .listen | .serve _ =>
      inferInstanceAs (Decidable True)

end Boot

/-! ## Where a server puts its connections -/

namespace TcpServer

/-- The loop of the connection with number `i`. -/
def dealt (n i : ℕ) : ℕ := if n = 0 then 0 else i % n + 1

/-- **The connections are dealt round** to `n` sub-loops. -/
structure Dealt (n : ℕ) (s : TcpServer) : Prop where
  threads : s.numThreads = n
  loops : s.conns.map Conn.loop = (List.range s.conns.length).map (dealt n)
  next : s.next = if n = 0 then 0 else s.conns.length % n

section

variable {s s' t : TcpServer} {n i : ℕ} {c d : Conn} {a : ServerAct}

/-- A connection stays where it is. -/
theorem Dealt.put (hs : Dealt n s) (found : s.conns[i]? = some c) (hloop : d.loop = c.loop)
    (hconns : t.conns = s.conns) (hthreads : t.numThreads = s.numThreads)
    (hnext : t.next = s.next) : Dealt n (t.put i d) := by
  have hi : i < (s.conns.map Conn.loop).length := by
    simpa using (List.getElem?_eq_some_iff.mp found).1
  have hself : (s.conns.map Conn.loop)[i] = d.loop := by
    rw [List.getElem_eq_iff]
    simp [found, hloop]
  have hloops : (t.put i d).conns.map Conn.loop = s.conns.map Conn.loop := by
    simp only [TcpServer.put, List.map_set, hconns]
    rw [← hself, List.set_getElem_self]
  refine ⟨hthreads.trans hs.threads, ?_, ?_⟩
  · rw [hloops, hs.loops, put_length, hconns]
  · rw [put_length, hconns, ← hs.next]
    exact hnext

theorem Dealt.accept (hs : Dealt n s) : Dealt n s.newConnection := by
  have hloop : s.getNextLoop = (dealt n s.conns.length,
      if n = 0 then 0 else (s.conns.length + 1) % n) := by
    unfold getNextLoop
    rw [hs.threads, hs.next]
    by_cases hn : n = 0
    · simp [hn, dealt]
    · simp [hn, dealt, Nat.add_mod]
  refine ⟨hs.threads, ?_, ?_⟩
  · simp [newConnection, hs.loops, List.range_succ, hloop, Conn.create]
  · simp [newConnection, hloop]

/-- Only `newConnection` asks for a loop. -/
theorem Turn.dealt (h : Turn s a s') (hs : Dealt n s) : Dealt n s' := by
  cases h with
  | accept => exact hs.accept
  | conn found => exact hs.put found rfl rfl rfl rfl
  | close found =>
      unfold removeConnection
      split
      case isTrue => exact hs.put found rfl rfl rfl rfl
      case isFalse => exact hs.put found rfl rfl rfl rfl
  | reset found => exact hs.put found rfl rfl rfl rfl
  | touch found => exact hs.put found rfl rfl rfl rfl
  | destroyed found => exact hs.put found rfl rfl rfl rfl
  | removal head found => exact hs.put found rfl rfl rfl rfl
  | destroy found => exact hs.put found rfl rfl rfl rfl
  | @closeLate i c act u found =>
      have hput : Dealt n (s.put i (c.after act u)) := hs.put found rfl rfl rfl rfl
      exact ⟨hput.threads, hput.loops, hput.next⟩
  | acceptLate => exact ⟨hs.threads, hs.loops, hs.next⟩
  | removalLate => exact ⟨hs.threads, hs.loops, hs.next⟩

/-- Only `newConnection` moves on. -/
theorem Turn.next_eq (h : Turn s a s') (hno : a ≠ .accept) : s'.next = s.next := by
  cases h with
  | accept => exact absurd rfl hno
  | close found =>
      unfold removeConnection
      split <;> rfl
  | _ => rfl

/-- How many of the first `m` connections are with a given sub-loop. -/
theorem count_dealt {m k : ℕ} (hk : k < n) :
    ((List.range m).map (TcpServer.dealt n)).count (k + 1) =
      m / n + if k < m % n then 1 else 0 := by
  have hn : 0 < n := Nat.lt_of_le_of_lt (Nat.zero_le k) hk
  have hmod : k % n = k := Nat.mod_eq_of_lt hk
  have hcount : ((List.range m).map (TcpServer.dealt n)).count (k + 1) =
      m.count (· ≡ k [MOD n]) := by
    induction m with
    | zero => rfl
    | succ m ih =>
        have hlast : TcpServer.dealt n m = k + 1 ↔ m ≡ k [MOD n] := by
          rw [TcpServer.dealt, if_neg (Nat.ne_of_gt hn), Nat.ModEq, hmod, Nat.add_right_cancel_iff]
        rw [List.range_succ, List.map_append, List.count_append, ih, Nat.count_succ]
        simp [hlast, List.count_singleton]
  rw [hcount, Nat.count_modEq_card _ hn, hmod]

theorem reach_dealt {name : List Char} {addr : InetAddress}
    (run : Reach step anyStep (create name addr n) s) : Dealt n s :=
  run.invariant ⟨rfl, rfl, by simp [create]⟩ fun _ _ _ hs _ move => (step_turn move).dealt hs

end

end TcpServer

/-! ## What the steps of the start keep -/

/-- How many of `n` sub-loops have been started. -/
def StartPc.threadsUp (n : ℕ) : StartPc → ℕ
  | .before | .pool => 0
  | .threads i => i
  | .listen | .finished => n

namespace Boot

variable {b b' : Boot} {name : List Char} {addr : InetAddress}

/-- The number of sub-loops that have been asked for. -/
def size (b : Boot) : ℕ := b.pool.numThreads.toNat

/-- The loops that have been initialised, when the callback is set: the base loop only if no
sub-loops were asked for. -/
def initialised (b : Boot) : List ℕ :=
  if (b.pc = .listen ∨ b.pc = .finished) ∧ b.pool.numThreads = 0 then [0] else b.pool.loops

/-- **The invariant of the start.** -/
structure Sound (name : List Char) (addr : InetAddress) (b : Boot) : Prop where
  counted : b.started = 0 ↔ b.pc = .before
  configs : b.configs ≠ [] → b.pc = .before
  loops : b.pool.loops = (List.range (b.pc.threadsUp b.size)).map (· + 1)
  bound : b.pc.threadsUp b.size ≤ b.size
  inits : b.inits = if b.initCallback then b.initialised else []
  once : b.queued + b.listens = if b.pc = .finished then 1 else 0
  idle : b.listens = 0 → b.server = .create name addr 0
  serving : b.listens ≠ 0 →
    Reach TcpServer.step anyStep (.create name addr b.pool.loops.length) b.server
  next : b.pool.next = b.server.next
  wild : b.wild = false

theorem Sound.length (hb : Sound name addr b) : b.pool.loops.length = b.pc.threadsUp b.size := by
  rw [hb.loops, List.length_map, List.length_range]

/-- Whoever listens has finished the start. -/
theorem Sound.finished (hb : Sound name addr b) (h : b.queued + b.listens ≠ 0) :
    b.pc = .finished := by
  have := hb.once
  by_contra hpc
  rw [if_neg hpc] at this
  exact h this

theorem Sound.setThreadNum (hb : Sound name addr b) (threadNum : ℤ) :
    Sound name addr (b.setThreadNum threadNum) := by
  unfold Boot.setThreadNum
  split
  case isTrue h =>
    exact ⟨hb.counted, fun _ => hb.counted.mp h, hb.loops, hb.bound, hb.inits, hb.once, hb.idle,
      hb.serving, hb.next, hb.wild⟩
  case isFalse =>
    exact ⟨hb.counted, hb.configs, hb.loops, hb.bound, hb.inits, hb.once, hb.idle, hb.serving,
      hb.next, hb.wild⟩

/-- While a thread is inside `setThreadNum`, nobody has called `start`. -/
theorem Sound.configure (hb : Sound name addr b) {k : ℕ} {c : Config}
    (found : b.configs[k]? = some c) : Sound name addr (b.configure k c) := by
  have hpc : b.pc = .before := hb.configs (List.ne_nil_of_mem (List.mem_of_getElem? found))
  obtain ⟨n, pc⟩ := c
  cases pc with
  | server =>
      exact ⟨hb.counted, fun _ => hpc, hb.loops, hb.bound, hb.inits, hb.once, hb.idle, hb.serving,
        hb.next, hb.wild⟩
  | check =>
      rw [Boot.configure]
      split
      case isTrue =>
        exact ⟨hb.counted, hb.configs, hb.loops, hb.bound, hb.inits, hb.once, hb.idle, hb.serving,
          hb.next, hb.wild⟩
      case isFalse =>
        exact ⟨hb.counted, fun _ => hpc, hb.loops, hb.bound, hb.inits, hb.once, hb.idle,
          hb.serving, hb.next, hb.wild⟩
  | pool =>
      refine ⟨hb.counted, fun _ => hpc, ?_, ?_, ?_, hb.once, hb.idle, hb.serving, hb.next, hb.wild⟩
      · simpa [Boot.configure, hpc, StartPc.threadsUp] using hb.loops
      · simp [Boot.configure, hpc, StartPc.threadsUp]
      · simpa [Boot.configure, initialised, hpc] using hb.inits

/-- Before the first `start` the callback has not been called. -/
theorem Sound.setThreadInitCallback (hb : Sound name addr b) (set : Bool) (first : b.started = 0) :
    Sound name addr { b with initCallback := set } := by
  have hpc : b.pc = .before := hb.counted.mp first
  have hloops := hb.loops
  have hinits := hb.inits
  simp only [hpc, StartPc.threadsUp, List.range_zero, List.map_nil] at hloops
  refine ⟨hb.counted, hb.configs, hb.loops, hb.bound, ?_, hb.once, hb.idle, hb.serving, hb.next,
    hb.wild⟩
  simp only [initialised, hpc, hloops, reduceCtorEq, or_self, false_and, if_false] at hinits ⊢
  cases set <;> simp [hinits]

theorem Sound.start (hb : Sound name addr b) (settled : b.configs = [])
    (room : b.started + 1 < 2 ^ 32) : Sound name addr b.start := by
  have hmod : (b.started + 1) % 2 ^ 32 = b.started + 1 := Nat.mod_eq_of_lt room
  by_cases hfirst : b.started = 0
  · have hpc : b.pc = .before := hb.counted.mp hfirst
    have honce := hb.once
    refine ⟨by simp [Boot.start, hfirst], fun h => absurd settled h, ?_, ?_, ?_, ?_, hb.idle,
      hb.serving, hb.next, hb.wild⟩
    · simpa [Boot.start, hfirst, hpc, StartPc.threadsUp] using hb.loops
    · simp [Boot.start, hfirst, StartPc.threadsUp]
    · simpa [Boot.start, hfirst, initialised, hpc] using hb.inits
    · simpa [Boot.start, hfirst, hpc] using honce
  · have hstart : b.start = { b with started := b.started + 1 } := by
      simp only [Boot.start, hmod, if_neg hfirst]
    have hpc : b.pc ≠ .before := fun h => hfirst (hb.counted.mpr h)
    rw [hstart]
    exact ⟨by simp [hpc], hb.configs, hb.loops, hb.bound, hb.inits, hb.once, hb.idle, hb.serving,
      hb.next, hb.wild⟩

/-- Once `start` has been called, no thread is inside `setThreadNum`. -/
theorem Sound.settled (hb : Sound name addr b) (h : b.pc ≠ .before) : b.configs = [] := by
  by_contra hconfigs
  exact h (hb.configs hconfigs)

/-- A turn of the loop that starts the sub-loops. -/
theorem Sound.startThread {i : ℕ} (hb : Sound name addr b) (hpc : b.pc = .threads i) :
    Sound name addr (b.startThread i) := by
  have hloops := hb.loops
  have hbound := hb.bound
  have hinits := hb.inits
  have honce := hb.once
  have hcounted := hb.counted
  simp only [hpc, StartPc.threadsUp] at hloops hbound
  simp only [hpc, reduceCtorEq, iff_false, if_false] at honce hcounted
  simp only [initialised, hpc, reduceCtorEq, or_self, false_and, if_false] at hinits
  have hlistens : b.listens = 0 := by omega
  have hsettled := hb.settled (by simp [hpc])
  unfold Boot.startThread
  split
  case isTrue hlt =>
    refine ⟨by simp [hcounted], fun h => absurd hsettled h, ?_, ?_, ?_, by simpa using honce,
      hb.idle, ?_, hb.next, hb.wild⟩
    · simp [StartPc.threadsUp, List.range_succ, hloops]
    · simp only [StartPc.threadsUp, size]
      omega
    · simp only [initialised, reduceCtorEq, or_self, false_and, if_false]
      cases hcb : b.initCallback <;> simp [hcb, hinits]
    · exact fun h => absurd hlistens h
  case isFalse hge =>
    have hall : i = b.size := by
      simp only [size] at hbound ⊢
      omega
    refine ⟨by simp [hcounted], fun h => absurd hsettled h, ?_, ?_, ?_, by simpa using honce,
      hb.idle, ?_, hb.next, hb.wild⟩
    · simpa [StartPc.threadsUp, size, hall] using hloops
    · exact Nat.le_refl _
    · simp only [initialised, true_or, true_and, hinits]
      cases hcb : b.initCallback with
      | false => simp
      | true =>
          by_cases hzero : b.pool.numThreads = 0
          · have hnone : b.pool.loops = [] := by simp [hloops, hall, size, hzero]
            simp [hzero, hnone]
          · simp [hzero]
    · exact fun h => absurd hlistens h

/-- The base loop calls `listen`, for the first time. -/
theorem Sound.listen (hb : Sound name addr b) (first : b.listens = 0)
    (up : b.pc = .listen ∨ b.pc = .finished) :
    Sound name addr { b with pc := .finished, queued := 0 }.listen := by
  have hup : b.pc.threadsUp b.size = b.size := by
    rcases up with h | h <;> rw [h] <;> rfl
  have hcounted : b.started ≠ 0 := by
    intro hzero
    have hpc := hb.counted.mp hzero
    simp [hpc] at up
  have hinits := hb.inits
  rw [initialised, if_congr (and_iff_right up) rfl rfl] at hinits
  have hsettled := hb.settled fun h => hcounted (hb.counted.mpr h)
  refine ⟨by simpa [Boot.listen] using hcounted, fun h => absurd hsettled h, ?_, Nat.le_refl _, ?_,
    ?_, ?_, ?_, hb.next, hb.wild⟩
  · show b.pool.loops = (List.range b.size).map (· + 1)
    rw [hb.loops, hup]
  · simpa [Boot.listen, initialised] using hinits
  · simp [Boot.listen, first]
  · simp [Boot.listen]
  · intro _
    show Reach _ _ _ { b.server with numThreads := b.pool.loops.length }
    rw [hb.idle first]
    exact .start

theorem Sound.advance {inLoop : Bool} (hb : Sound name addr b) (h : b.advance inLoop = some b') :
    Sound name addr b' := by
  cases hpc : b.pc with
  | before => simp [Boot.advance, hpc] at h
  | finished => simp [Boot.advance, hpc] at h
  | pool =>
      simp only [Boot.advance, hpc, Option.some.injEq] at h
      subst h
      have hsettled := hb.settled (by simp [hpc])
      refine ⟨?_, fun h => absurd hsettled h, ?_, ?_, ?_, ?_, hb.idle, hb.serving, hb.next,
        hb.wild⟩
      · simpa [hpc] using hb.counted
      · simpa [hpc, StartPc.threadsUp] using hb.loops
      · simp [StartPc.threadsUp]
      · simpa [initialised, hpc] using hb.inits
      · simpa [hpc] using hb.once
  | threads i =>
      simp only [Boot.advance, hpc, Option.some.injEq] at h
      subst h
      exact hb.startThread hpc
  | listen =>
      have honce := hb.once
      simp only [hpc, reduceCtorEq, if_false] at honce
      have hqueued : b.queued = 0 := by omega
      have hlistens : b.listens = 0 := by omega
      simp only [Boot.advance, hpc, Option.some.injEq] at h
      split at h
      case isTrue =>
        subst h
        have := hb.listen hlistens (.inl hpc)
        rwa [← hqueued] at this
      case isFalse =>
        subst h
        have hsettled := hb.settled (by simp [hpc])
        refine ⟨?_, fun h => absurd hsettled h, ?_, Nat.le_refl _, ?_, ?_, hb.idle, hb.serving,
          hb.next, hb.wild⟩
        · simpa [hpc] using hb.counted
        · simpa [hpc, StartPc.threadsUp, size] using hb.loops
        · simpa [initialised, hpc] using hb.inits
        · simp [hqueued, hlistens]

theorem step_created {a : ServerAct} {t : TcpServer}
    (h : (TcpServer.create name addr 0).step a = some t) : a = .accept := by
  cases a with
  | accept => rfl
  | removal => simp [TcpServer.step, TcpServer.create] at h
  | _ => simp [TcpServer.step, TcpServer.create] at h

/-- **The pool gives the loop that the connection is due**, from inside `loops_`. -/
theorem Sound.getNextLoop (hb : Sound name addr b) (listening : b.listens ≠ 0) :
    b.pool.getNextLoop = some (b.server.getNextLoop.1,
      { b.pool with next := b.server.getNextLoop.2 }) := by
  have hpc : b.pc = .finished := hb.finished (by omega)
  have hlength := hb.length
  have hloops := hb.loops
  rw [hpc] at hlength hloops
  have hdealt := TcpServer.reach_dealt (hb.serving listening)
  rw [hlength] at hdealt
  unfold LoopPool.getNextLoop TcpServer.getNextLoop
  rw [hdealt.threads]
  by_cases hn : b.size = 0
  · have hempty : b.pool.loops.isEmpty = true := by simp [hloops, StartPc.threadsUp, hn]
    rw [if_pos hempty]
    simp [StartPc.threadsUp, hn, ← hb.next]
  · have hthreads : b.pool.numThreads = b.size := by
      simp only [size] at hn ⊢
      omega
    have hlt : b.server.next < b.size := by
      rw [hdealt.next, StartPc.threadsUp, if_neg hn]
      exact Nat.mod_lt _ (Nat.pos_of_ne_zero hn)
    have hsome : b.pool.loops.isEmpty = false := by
      simp [hloops, StartPc.threadsUp, hn]
    have hget : b.pool.loops[b.pool.next]? = some (b.server.next + 1) := by
      simp [hloops, StartPc.threadsUp, hb.next, hlt]
    have hmod : (((b.pool.next : ℤ) + 1).tmod b.pool.numThreads).toNat =
        (b.server.next + 1) % b.size := by
      rw [hthreads, hb.next]
      norm_cast
    simp [hsome, hget, hmod, StartPc.threadsUp, hn]

theorem Sound.accept (hb : Sound name addr b) (listening : b.listens ≠ 0)
    (h : b.accept = some b') : Sound name addr b' := by
  simp only [Boot.accept, hb.getNextLoop listening, Option.map_eq_some_iff] at h
  obtain ⟨t, move, rfl⟩ := h
  have hafter := TcpServer.step_accept move
  split
  case isTrue gone =>
    rw [if_pos gone] at hafter
    exact ⟨hb.counted, hb.configs, hb.loops, hb.bound, hb.inits, hb.once,
      fun h => absurd h listening, fun h => .next (hb.serving h) trivial move,
      by rw [hafter]; exact hb.next, hb.wild⟩
  case isFalse alive =>
    rw [if_neg alive] at hafter
    subst hafter
    have hsame : b.server.newConnection.conns.modify b.server.conns.length
        (fun c => { c with loop := b.server.getNextLoop.1 }) = b.server.newConnection.conns := by
      simp [TcpServer.newConnection, List.modify_eq_take_drop, Conn.create]
    rw [hsame]
    exact ⟨hb.counted, hb.configs, hb.loops, hb.bound, hb.inits, hb.once,
      fun h => absurd h listening, fun h => .next (hb.serving h) trivial move, rfl, hb.wild⟩

theorem Sound.step {a : BootAct} (hb : Sound name addr b) (ok : Configured b a)
    (move : b.step a = some b') : Sound name addr b' := by
  simp only [Boot.step, Option.ite_none_left_eq_some] at move
  obtain ⟨-, move⟩ := move
  cases a with
  | setThreadNum threadNum =>
      obtain rfl := Option.some.inj move
      exact hb.setThreadNum threadNum
  | configure k =>
      obtain ⟨c, found, rfl⟩ := Option.map_eq_some_iff.mp move
      exact hb.configure found
  | setThreadInitCallback set =>
      obtain rfl := Option.some.inj move
      exact hb.setThreadInitCallback set ok
  | start =>
      obtain rfl := Option.some.inj move
      exact hb.start ok.1 ok.2
  | advance inLoop => exact hb.advance move
  | listen =>
      simp only [Option.ite_none_right_eq_some, Option.some.injEq] at move
      obtain ⟨hqueued, rfl⟩ := move
      have hpc : b.pc = .finished := hb.finished (by omega)
      have honce := hb.once
      rw [if_pos hpc] at honce
      have hone : b.queued - 1 = 0 := by omega
      have hlisten := hb.listen (by omega) (.inr hpc)
      rwa [← hpc, ← hone] at hlisten
  | serve a =>
      by_cases ha : a = .accept
      · subst ha
        simp only [Option.ite_none_right_eq_some] at move
        exact hb.accept (by omega) move.2
      · have hserve : (b.server.step a).map (fun t => { b with server := t }) = some b' := by
          cases a with
          | accept => exact absurd rfl ha
          | _ => exact move
        obtain ⟨t, hstep, rfl⟩ := Option.map_eq_some_iff.mp hserve
        have listening : b.listens ≠ 0 := by
          intro hnone
          rw [hb.idle hnone] at hstep
          exact ha (step_created hstep)
        refine ⟨hb.counted, hb.configs, hb.loops, hb.bound, hb.inits, hb.once,
          fun h => absurd h listening, fun h => .next (hb.serving h) trivial hstep, ?_, hb.wild⟩
        exact hb.next.trans ((TcpServer.step_turn hstep).next_eq ha).symm

theorem sound_create (name : List Char) (addr : InetAddress) :
    Sound name addr (create name addr) where
  counted := by simp [create]
  configs h := absurd rfl h
  loops := rfl
  bound := Nat.le_refl 0
  inits := by simp [create, LoopPool.create]
  once := rfl
  idle _ := rfl
  serving h := absurd rfl h
  next := rfl
  wild := rfl

/-- **Connections are dealt round.**  Whatever threads set the number of sub-loops and start the
server, how often, and in whatever order the base loop, the sub-loops and the pool threads take
their turns, as long as `start` is called less than `2 ^ 32` times and never while a thread is
inside `setThreadNum`, and the callback is set before the first `start`: the acceptor listens at
most once; `loops_[next_]` is in range whenever a connection is accepted; by then the number of
sub-loops is settled, all of them are up and the initialisation callback, if there is one, has run
with each of them (with none, on the base loop, but not if a negative number was asked for); the
server is the one that starts with this many sub-loops; its connections go to them in turn, so that
the numbers of connections accepted for two of them never differ by more than one. -/
theorem connections_dealt_round (run : Reach step Configured (create name addr) b) :
    b.wild = false ∧ b.queued + b.listens ≤ 1 ∧
      (b.server.conns ≠ [] →
        b.pool.loops = (List.range b.size).map (· + 1) ∧
        (b.initCallback = true →
          b.inits = if b.pool.numThreads = 0 then [0] else b.pool.loops) ∧
        Reach TcpServer.step anyStep (.create name addr b.size) b.server ∧
        b.server.conns.map Conn.loop =
          (List.range b.server.conns.length).map
            (fun i => if b.size = 0 then 0 else i % b.size + 1) ∧
        ∀ k < b.size, (b.server.conns.map Conn.loop).count (k + 1) =
          b.server.conns.length / b.size +
            if k < b.server.conns.length % b.size then 1 else 0) := by
  have hb : Sound name addr b := run.invariant (sound_create name addr)
    fun _ _ _ hs ok move => hs.step ok move
  refine ⟨hb.wild, ?_, ?_⟩
  · rw [hb.once]
    split <;> decide
  intro hconns
  have listening : b.listens ≠ 0 := by
    intro hnone
    rw [hb.idle hnone] at hconns
    exact hconns rfl
  have hpc : b.pc = .finished := hb.finished (by omega)
  have hlength : b.pool.loops.length = b.size := by rw [hb.length, hpc]; rfl
  have hserving := hb.serving listening
  rw [hlength] at hserving
  have hdealt := TcpServer.reach_dealt hserving
  refine ⟨?_, ?_, hserving, hdealt.loops, ?_⟩
  · rw [hb.loops, hpc]
    rfl
  · intro hcb
    rw [hb.inits, hcb, if_pos rfl, initialised, if_congr (and_iff_right (.inr hpc)) rfl rfl]
  · intro k hk
    rw [hdealt.loops]
    exact TcpServer.count_dealt hk

/-- One thread configures the server, two call `start`, and three connections go to two
sub-loops. -/
theorem connections_dealt_round_two :
    ∃ b, Reach step Configured (create ['s'] ⟨(127, 0, 0, 1), 8080⟩) b ∧ b.started = 2 ∧
      b.inits = [1, 2] ∧ b.server.conns.map Conn.loop = [1, 2, 1] ∧ b.wild = false := by
  obtain ⟨b, run, h⟩ := exists_reach step Configured (create ['s'] ⟨(127, 0, 0, 1), 8080⟩)
    [.setThreadInitCallback true, .setThreadNum 2, .configure 0, .configure 0, .configure 0,
      .start, .advance false, .start, .advance false, .advance false,
      .advance false, .advance false, .listen, .serve .accept, .serve .accept, .serve .accept]
    (fun b => decide (b.started = 2 ∧ b.inits = [1, 2] ∧ b.server.conns.map Conn.loop = [1, 2, 1]))
    (by decide +kernel)
  obtain ⟨hstarted, hinits, hloops⟩ := of_decide_eq_true h
  exact ⟨b, run, hstarted, hinits, hloops, (connections_dealt_round run).1⟩

end Boot

end Proactor
