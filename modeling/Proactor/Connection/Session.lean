import Proactor.Core.Transition
import Proactor.Connection.ReadContext
import Mathlib.Algebra.GroupWithZero.Nat

/-!
# A connection, its loop and its coroutine

A `Session` is one `TcpConnection` (`src/TcpConnection.cc`) together with what acts on it:

* the loop that owns it: the queue of functors, the queue of requests that wait for a free SQE,
  and the point at which the loop thread is;
* the kernel: how many of its read and write requests are outstanding;
* the business coroutine: any program of `PrepareToRead`, `send`, `switchThread`, `read` and
  return, on the loop thread or on a thread of the pool.

A step is one thing the loop thread, a pool thread or the kernel does.  When a completion handler
resumes the coroutine, the coroutine's own actions are steps of their own, so that a pool thread
may act in between; the handler goes on (`unwind`) when the coroutine has suspended or returned.
Most resumptions are the last thing a handler does.  Two are not: the fatal branches of the two
`on_completion` functions resume the coroutine first and close the connection afterwards.

Nothing guards the input buffer: on a pool thread the coroutine reads it while the loop may append
to it.  A `read` of a pool thread that overlaps no append is a step like any other; one that does
overlap is the step `readRace`.  A `read` of more than `std::string::max_size()` bytes throws before
it takes anything and is no step.

A failed assertion, a data race and the two kinds of undefined behaviour of coroutine handles
(destroying a coroutine that is running, using one that is gone) are `Fault`s, after which nothing
happens.
-/

namespace Proactor

open Transition

/-- `ContextType`, for the two contexts of a connection. -/
inductive ContextType
  | read
  | write
  deriving DecidableEq, Repr

inductive SqeKind
  | recv
  | writev
  | cancel
  deriving DecidableEq, Repr

/-- A prepared SQE, with the value of `closing_` at that moment. -/
structure Sqe where
  kind : SqeKind
  closed : Bool
  deriving DecidableEq, Repr

/-- An awaiter that has to reach the loop from another thread. -/
inductive Awaiter
  | recv
  | send (data : List UInt8)
  deriving DecidableEq, Repr

/-- The functors of a connection in `pendingFunctors_`. -/
inductive QueuedFunctor
  | established
  | await (awaiter : Awaiter)
  | destroyed
  deriving DecidableEq, Repr

/-- Where the coroutine is. -/
inductive CoPos
  /-- Not created yet: `Established` has not run. -/
  | unborn
  | onLoop
  | onWorker
  /-- On a pool thread, in `await_suspend`, before `queueInLoop`. -/
  | suspending (awaiter : Awaiter)
  | inRecv
  | inSend
  /-- In the queue of the thread pool. -/
  | pooled
  /-- At its final suspend point. -/
  | final
  deriving DecidableEq, Repr

/-- From where the loop thread has resumed the coroutine. -/
inductive Frame
  /-- As the last action of a handler or functor. -/
  | tail
  /-- From the fatal branch of `ReadContext::on_completion`. -/
  | readFatal
  /-- From the fatal branch of `WriteContext::on_completion`. -/
  | writeFatal
  deriving DecidableEq, Repr

/-- What the loop thread is doing: nothing of this connection, running its coroutine, or about to
go on with a handler whose resumption of the coroutine has returned. -/
inductive Ctl
  | idle
  | inCo (frame : Frame)
  | back (frame : Frame)
  deriving DecidableEq, Repr

inductive Fault
  /-- `assert(holder_)` in `ReadContext::on_completion`. -/
  | readHolder
  /-- The assertion on `status_` there. -/
  | readStatus
  /-- `assert(holder_)` in `WriteContext::on_completion`. -/
  | writeHolder
  /-- `assert(!temp_data_.empty())` in `flush`. -/
  | emptyBatch
  /-- Resuming a coroutine that is not suspended there, or is done; `Placement` shows that no run
  comes to it. -/
  | notSuspended
  /-- `task_handle_.destroy()` on a coroutine that is running. -/
  | destroyRunning
  /-- Resuming a destroyed coroutine, or running a functor whose awaiter lived in its frame. -/
  | destroyedFrame
  /-- `removeAsString` on a pool thread while the loop appends to the same buffer. -/
  | readRace
  deriving DecidableEq, Repr

structure Session where
  /-- `closing_` -/
  closing : Bool
  /-- `task_handle_` is not null. -/
  task : Bool
  read : ReadContext
  write : WriteContext
  co : CoPos
  ctl : Ctl
  /-- The handle is in the queue of the thread pool. -/
  pool : Bool
  functors : List QueuedFunctor
  /-- The entries of this connection in `waiting_submit_queue_`. -/
  waiting : List ContextType
  kernelReads : ℕ
  kernelWrites : ℕ
  /-- `remainedSqe() < sqe_low_water_mark_` -/
  sqeLow : Bool
  /-- Every SQE prepared for the connection so far. -/
  sqes : List Sqe
  /-- The connection is in the server's `connection_map_`. -/
  mapEntry : Bool
  /-- What the last `PrepareToRead` gave to the coroutine. -/
  recvResult : ℤ
  /-- What the last `send` gave to the coroutine. -/
  sendResult : Bool
  /-- Calls of `sock_.close()`. -/
  closes : ℕ
  /-- Calls of `close_callback_`. -/
  callbacks : ℕ
  fault : Option Fault

/-- What the coroutine can do next. -/
inductive CoAct
  | prepareToRead
  | send (data : List UInt8)
  /-- `switchThread`, when the pool's queue is not full; otherwise it has no effect. -/
  | switchThread
  | read (size : ℕ)
  | ret

inductive SessionAct
  /-- A completion of the multishot receive, with its payload if `res > 0`. -/
  | readCqe (res : ℤ) (data : List UInt8) (more : Bool)
  | writeCqe (res : ℤ)
  /-- The loop runs its first functor. -/
  | functor
  /-- `doingSubmitWaitingTask` takes this connection's first entry. -/
  | drain
  /-- The handler that resumed the coroutine goes on. -/
  | unwind
  | co (act : CoAct)
  /-- A pool thread executes `queueInLoop` in `await_suspend`. -/
  | enqueue
  /-- A pool thread takes the handle and resumes it. -/
  | poolTake
  /-- `~TcpServer` queues `Destroyed`. -/
  | serverDestroy
  /-- `removeConnectionInLoop`, after the close callback. -/
  | removeConnection
  /-- The number of free SQEs passes the low water mark. -/
  | pressure (low : Bool)
  /-- A completion's payload is appended while a pool thread is in `read`. -/
  | readRace

/-- An action of the coroutine. -/
def SessionAct.isCo : SessionAct → Bool
  | .co _ | .readRace => true
  | _ => false

namespace Session

/-- A connection as `newConnection` leaves it. -/
def start (read : ReadContext) (write : WriteContext) : Session where
  closing := false
  task := false
  read := read
  write := write
  co := .unborn
  ctl := .idle
  pool := false
  functors := [.established]
  waiting := []
  kernelReads := 0
  kernelWrites := 0
  sqeLow := false
  sqes := []
  mapEntry := true
  recvResult := 0
  sendResult := true
  closes := 0
  callbacks := 0
  fault := none

/-- The connection of `TcpServer::newConnection`, with any water marks. -/
def create (inputHwm inputHwmChunk outputHwm maxSlices : ℕ) : Session :=
  start (.create inputHwm inputHwmChunk) (.create outputHwm maxSlices)

/-! ## Requests -/

/-- `IoUringLoop::_submitReadMultishut`. -/
def prepareRead (s : Session) : Session :=
  { s with kernelReads := s.kernelReads + 1, sqes := s.sqes ++ [⟨.recv, s.closing⟩] }

/-- `IoUringLoop::_submitWriteMsg`. -/
def prepareWrite (s : Session) : Session :=
  { s with kernelWrites := s.kernelWrites + 1, sqes := s.sqes ++ [⟨.writev, s.closing⟩] }

def submitReadMultishut (s : Session) : Session :=
  if s.sqeLow then { s with waiting := s.waiting ++ [.read] } else s.prepareRead

def submitWriteMsg (s : Session) : Session :=
  if s.sqeLow then { s with waiting := s.waiting ++ [.write] } else s.prepareWrite

/-- `TcpConnection::submitRead`. -/
def submitRead (s : Session) : Session :=
  let s := { s with read := { s.read with holder := true } }
  let s := s.submitReadMultishut
  { s with read := { s.read with status := .reading } }

def submitCancel (s : Session) : Session := { s with sqes := s.sqes ++ [⟨.cancel, s.closing⟩] }

/-- A result of the write context, with a request to submit or not. -/
def takeWrite (s : Session) : Option (WriteContext × Bool) → Except Fault Session
  | none => .error .emptyBatch
  | some (write, flushed) =>
      let s := { s with write := write }
      .ok (if flushed then s.submitWriteMsg else s)

/-- `TcpConnection::sendInLoop`. -/
def sendInLoop (s : Session) (data : List UInt8) : Except Fault Session :=
  s.takeWrite (s.write.sendInLoop data)

/-! ## The coroutine -/

def running : CoPos → Bool
  | .onLoop | .onWorker | .suspending _ => true
  | _ => false

/-- `task_handle_.destroy()`. -/
def destroyTask (s : Session) : Except Fault Session :=
  if s.task then
    if running s.co then .error .destroyRunning else .ok { s with task := false }
  else .ok s

/-- `TcpConnection::handleClose`. -/
def handleClose (s : Session) : Except Fault Session :=
  if s.closing = false then
    let s := { s with closing := true, closes := s.closes + 1 }
    let s' := if s.read.readHandle || s.write.writeHandle then s.destroyTask else .ok s
    s'.map fun s => { s with
      read := { s.read with readHandle := false }
      write := { s.write with writeHandle := false }
      callbacks := s.callbacks + 1 }
  else s.destroyTask

def queueDestroyed (s : Session) : Session := { s with functors := s.functors ++ [.destroyed] }

/-- `size_t` to `int`. -/
def toInt (n : ℕ) : ℤ := Int.bmod n (2 ^ 32)

/-- `RecvDataAwaiter::await_resume`. -/
def recvAwaitResume (s : Session) : Session :=
  if s.read.isError then { s with recvResult := -1 }
  else if s.closing then { s.queueDestroyed with recvResult := -1 }
  else { s with recvResult := toInt s.read.totalLen }

/-- `SendDataAwaiter::await_resume`. -/
def sendAwaitResume (s : Session) : Session :=
  if s.closing then { s.queueDestroyed with sendResult := false }
  else { s with sendResult := !s.write.isError }

/-- `resume()` of the coroutine handle on the loop thread: the awaiter's `await_resume` runs and
the coroutine goes on. -/
def resume (s : Session) (frame : Frame) : Except Fault Session :=
  if s.task then
    match s.co with
    | .inRecv => .ok { s.recvAwaitResume with co := .onLoop, ctl := .inCo frame }
    | .inSend => .ok { s.sendAwaitResume with co := .onLoop, ctl := .inCo frame }
    | _ => .error .notSuspended
  else .error .destroyedFrame

/-- Where the loop thread is when the coroutine stops running on it. -/
def leave : Frame → Ctl
  | .tail => .idle
  | .readFatal => .back .readFatal
  | .writeFatal => .back .writeFatal

/-! ## Completions -/

/-- `need_close`, and the state after the result has been dealt with. -/
def handleRead (s : Session) (res : ℤ) (data : List UInt8) : Bool × Session :=
  let (needClose, read, cancel) := s.read.takeResult res data
  let s := { s with read := read }
  (needClose, if cancel then s.submitCancel else s)

/-- The end of `ReadContext::on_completion`. -/
def wakeReader (s : Session) : Except Fault Session :=
  if s.read.readHandle then
    { s with read := { s.read with readHandle := false } }.resume .tail
  else .ok s

/-- The end of its fatal branch. -/
def closeRead (s : Session) : Except Fault Session :=
  s.handleClose.map fun s => { s with read := { s.read with holder := false, status := .stoped } }

def onReadCompletion (s : Session) (res : ℤ) (data : List UInt8) (more : Bool) :
    Except Fault Session :=
  if s.read.holder = false then .error .readHolder
  else if s.read.status = .stoped then .error .readStatus
  else
    let (needClose, s) := s.handleRead res data
    if more then s.wakeReader
    else if s.read.status = .canceling ∧ needClose = false then
      { s with read := { s.read with status := .stoped, holder := false } }.wakeReader
    else if s.read.status = .reading ∧ needClose = false then s.submitRead.wakeReader
    else if s.read.readHandle then s.resume .readFatal
    else s.closeRead

/-- The end of `WriteContext::on_completion`. -/
def wakeWriter (s : Session) : Except Fault Session :=
  if s.write.writeHandle ∧ s.write.overLoad = false then
    { s with write := { s.write with writeHandle := false } }.resume .tail
  else .ok s

/-- The end of its fatal branch. -/
def closeWrite (s : Session) : Except Fault Session :=
  s.handleClose.map fun s => { s with write := { s.write with holder := false, isSending := false } }

def onWriteCompletion (s : Session) (res : ℤ) : Except Fault Session :=
  if s.write.holder = false then .error .writeHolder
  else
    let needClose := decide (res < 0) && (s.write.handleError res).1
    let s := { s with write := s.write.acknowledge res }
    if needClose then
      if s.write.writeHandle then s.resume .writeFatal else s.closeWrite
    else (s.takeWrite s.write.proceed).bind wakeWriter

/-! ## Functors and the coroutine's actions -/

/-- A functor of `pendingFunctors_`. -/
def runFunctor (s : Session) : QueuedFunctor → Except Fault Session
  | .established => .ok { s with task := true, co := .onLoop, ctl := .inCo .tail }
  | .await .recv =>
      if s.task = false then .error .destroyedFrame
      else if s.read.isEmpty then
        let s := { s with read := { s.read with readHandle := true } }
        .ok (if s.read.status = .stoped then s.submitRead else s)
      else s.resume .tail
  | .await (.send data) =>
      if s.task = false then .error .destroyedFrame
      else (s.sendInLoop data).bind fun s =>
        if s.write.overLoad then .ok { s with write := { s.write with writeHandle := true } }
        else s.resume .tail
  | .destroyed => s.handleClose

/-- An action of the coroutine on the loop thread. -/
def actOnLoop (s : Session) (frame : Frame) : CoAct → Except Fault Session
  | .prepareToRead =>
      if s.closing ∨ s.read.isEmpty = false then .ok s.recvAwaitResume
      else
        let s := { s with read := { s.read with readHandle := true } }
        let s := if s.read.status = .stoped then s.submitRead else s
        .ok { s with co := .inRecv, ctl := leave frame }
  | .send data =>
      if s.closing then .ok s.sendAwaitResume
      else (s.sendInLoop data).map fun s =>
        if s.write.overLoad then
          { s with write := { s.write with writeHandle := true }, co := .inSend, ctl := leave frame }
        else s.sendAwaitResume
  | .switchThread => .ok { s with co := .pooled, pool := true, ctl := leave frame }
  | .read size => .ok { s with read := (s.read.removeAsString size).2 }
  | .ret => .ok { s with co := .final, ctl := leave frame }

/-- An action of the coroutine on a pool thread. -/
def actOnWorker (s : Session) : CoAct → Session
  | .prepareToRead => if s.closing then s.recvAwaitResume else { s with co := .suspending .recv }
  | .send data => if s.closing then s.sendAwaitResume else { s with co := .suspending (.send data) }
  | .switchThread => { s with co := .pooled, pool := true }
  | .read size => { s with read := (s.read.removeAsString size).2 }
  | .ret => { s with co := .final }

/-- The coroutine is suspended in the awaiter's `await_suspend`. -/
def parked : Awaiter → CoPos
  | .recv => .inRecv
  | .send _ => .inSend

/-! ## Steps -/

/-- A fault stops everything. -/
def commit (s : Session) : Except Fault Session → Session
  | .error f => { s with fault := some f }
  | .ok s' => s'

/-- Bytes in the write request that is out. -/
def batchLen (s : Session) : ℕ := (s.write.tempData.map Iovec.len).sum

def step (s : Session) (a : SessionAct) : Option Session :=
  if s.fault.isSome then none
  else match a with
    | .readCqe res data more =>
        if s.ctl = .idle ∧ 0 < s.kernelReads ∧ data.length = res.toNat then
          some (s.commit ({ s with
            kernelReads := if more then s.kernelReads else s.kernelReads - 1 }.onReadCompletion
              res data more))
        else none
    | .writeCqe res =>
        if s.ctl = .idle ∧ 0 < s.kernelWrites ∧ res ≤ s.batchLen then
          some (s.commit ({ s with kernelWrites := s.kernelWrites - 1 }.onWriteCompletion res))
        else none
    | .functor =>
        match s.functors with
        | [] => none
        | f :: fs =>
            if s.ctl = .idle then some (s.commit ({ s with functors := fs }.runFunctor f))
            else none
    | .drain =>
        match s.waiting with
        | [] => none
        | c :: cs =>
            if s.ctl = .idle ∧ s.sqeLow = false then
              let s := { s with waiting := cs }
              some (match c with
                | .read => s.prepareRead
                | .write => s.prepareWrite)
            else none
    | .unwind =>
        match s.ctl with
        | .back .readFatal => some (s.commit ({ s with ctl := .idle }.closeRead))
        | .back .writeFatal => some (s.commit ({ s with ctl := .idle }.closeWrite))
        | _ => none
    | .co act =>
        match s.co, s.ctl with
        | .onLoop, .inCo frame => some (s.commit (s.actOnLoop frame act))
        | .onWorker, _ => some (s.actOnWorker act)
        | _, _ => none
    | .enqueue =>
        match s.co with
        | .suspending w =>
            some { s with co := parked w, functors := s.functors ++ [.await w] }
        | _ => none
    | .poolTake =>
        if s.pool then
          some (s.commit (if s.task = false then .error .destroyedFrame
            else if s.co = .pooled then .ok { s with pool := false, co := .onWorker }
            else .error .notSuspended))
        else none
    | .serverDestroy =>
        if s.mapEntry then some { s.queueDestroyed with mapEntry := false } else none
    | .removeConnection =>
        if s.closing ∧ s.mapEntry then some { s with mapEntry := false } else none
    | .pressure low => some { s with sqeLow := low }
    | .readRace =>
        if s.co = .onWorker ∧ s.ctl = .idle ∧ 0 < s.kernelReads then
          some (s.commit (.error .readRace))
        else none

/-! ## Conditions on the reads -/

/-- The coroutine reads on the loop thread only. -/
def LoopReads (s : Session) : SessionAct → Prop
  | .co (.read _) => s.co = .onLoop
  | .readRace => False
  | _ => True

instance (s : Session) : (a : SessionAct) → Decidable (LoopReads s a)
  | .co (.read _) => inferInstanceAs (Decidable (s.co = .onLoop))
  | .readRace => inferInstanceAs (Decidable False)
  | .readCqe .. | .writeCqe _ | .functor | .drain | .unwind | .co .prepareToRead | .co (.send _)
  | .co .switchThread | .co .ret | .enqueue | .poolTake | .serverDestroy | .removeConnection
  | .pressure _ => inferInstanceAs (Decidable True)

/-- What is buffered after the step has a length that an `int` can hold. -/
def FitsInt (s : Session) : SessionAct → Prop
  | .readCqe _ data _ => s.read.totalLen + data.length < 2 ^ 31
  | _ => True

instance (s : Session) : (a : SessionAct) → Decidable (FitsInt s a)
  | .readCqe _ data _ => inferInstanceAs (Decidable (s.read.totalLen + data.length < 2 ^ 31))
  | .writeCqe _ | .functor | .drain | .unwind | .co _ | .enqueue | .poolTake | .serverDestroy
  | .removeConnection | .pressure _ | .readRace => inferInstanceAs (Decidable True)

/-! ## Requests that are out -/

/-- Outstanding read requests: in the kernel or waiting for an SQE. -/
def reads (s : Session) : ℕ := s.kernelReads + s.waiting.count .read

/-- Outstanding write requests: in the kernel or waiting for an SQE. -/
def writes (s : Session) : ℕ := s.kernelWrites + s.waiting.count .write

end Session

end Proactor
