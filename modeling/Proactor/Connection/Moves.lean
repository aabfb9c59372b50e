import Proactor.Connection.Session

/-!
# What one step can do

`Move s a s'` lists the ways in which a step of a session can end, one constructor for each path
through the code, with the conditions under which it is taken and the state after it.
`step_move` says that the list is complete.  Every invariant of the connection is proved by going
through it.

The operations of a session that branch on their way are restated here as one record update each
(`shut`, `woken`, `took`, `wrote`, `submitRead_eq`), so that a proof that does not care about a
branch need not split on it.
-/

namespace Proactor

namespace Session

/-! ## The operations as record updates -/

@[simp] theorem leave_eq_idle (frame : Frame) : leave frame = .idle ↔ frame = .tail := by
  cases frame <;> simp [leave]

@[simp] theorem leave_ne_inCo (frame g : Frame) : leave frame ≠ .inCo g := by
  cases frame <;> simp [leave]

@[simp] theorem leave_eq_back (frame g : Frame) :
    leave frame = .back g ↔ frame = g ∧ g ≠ .tail := by
  cases frame <;> cases g <;> simp [leave]

/-- `handleClose`, when it does not hit a running coroutine. -/
def shut (s : Session) : Session :=
  { s with
    closing := true
    task := s.task && !(s.closing || s.read.readHandle || s.write.writeHandle)
    read := { s.read with readHandle := s.read.readHandle && s.closing }
    write := { s.write with writeHandle := s.write.writeHandle && s.closing }
    closes := s.closes + (!s.closing).toNat
    callbacks := s.callbacks + (!s.closing).toNat }

/-- `handleClose` destroys the coroutine: the connection is closing already, or a handle is
registered. -/
def destroys (s : Session) : Bool := s.closing || s.read.readHandle || s.write.writeHandle

theorem handleClose_eq (s : Session) :
    s.handleClose = if s.destroys ∧ s.task ∧ running s.co then .error .destroyRunning
      else .ok s.shut := by
  obtain ⟨closing, task, ⟨_, _, _, readHandle⟩, ⟨_, _, _, writeHandle⟩, co⟩ := s
  cases hrun : running co <;> cases closing <;> cases task <;> cases readHandle <;>
    cases writeHandle <;> simp [handleClose, destroyTask, destroys, shut, Except.map, hrun]

theorem submitRead_eq (s : Session) :
    s.submitRead = { s with
      read := { s.read with holder := true, status := .reading }
      waiting := s.waiting ++ (if s.sqeLow then [.read] else [])
      kernelReads := s.kernelReads + (if s.sqeLow then 0 else 1)
      sqes := s.sqes ++ (if s.sqeLow then [] else [⟨.recv, s.closing⟩]) } := by
  cases h : s.sqeLow <;> simp [submitRead, submitReadMultishut, prepareRead, h]

@[simp] theorem count_ite (c d : ContextType) (p : Prop) [Decidable p] :
    (if p then [c] else []).count d = if p ∧ c = d then 1 else 0 := by
  by_cases hp : p <;> by_cases hc : c = d <;> simp [hp, hc]

/-- The write context has changed, and a request has been submitted or not. -/
def wrote (s : Session) (write : WriteContext) (flushed : Bool) : Session :=
  { s with
    write := write
    waiting := s.waiting ++ (if flushed && s.sqeLow then [.write] else [])
    kernelWrites := s.kernelWrites + (if flushed && !s.sqeLow then 1 else 0)
    sqes := s.sqes ++ (if flushed && !s.sqeLow then [⟨.writev, s.closing⟩] else []) }

theorem takeWrite_some (s : Session) (write : WriteContext) (flushed : Bool) :
    s.takeWrite (some (write, flushed)) = .ok (s.wrote write flushed) := by
  cases flushed <;> cases h : s.sqeLow <;>
    simp [takeWrite, submitWriteMsg, prepareWrite, wrote, h]

/-- The read context after a completion's result, with the cancel SQE if one was sent. -/
def took (s : Session) (res : ℤ) (data : List UInt8) (more : Bool) : Session :=
  { s with
    kernelReads := if more then s.kernelReads else s.kernelReads - 1
    read := (s.read.takeResult res data).2.1
    sqes := s.sqes ++ (if (s.read.takeResult res data).2.2 then [⟨.cancel, s.closing⟩] else []) }

theorem handleRead_eq (s : Session) (res : ℤ) (data : List UInt8) (more : Bool) :
    { s with kernelReads := if more then s.kernelReads else s.kernelReads - 1 }.handleRead res data
      = (decide (ReadContext.Fatal res), s.took res data more) := by
  rw [← (s.read.takeResult_spec res data).1]
  cases h : (s.read.takeResult res data).2.2 <;> simp [handleRead, took, submitCancel, h]

/-- **Below 2^31 bytes the coroutine gets the number of bytes.** -/
theorem toInt_of_lt {n : ℕ} (h : n < 2 ^ 31) : toInt n = n :=
  Int.bmod_eq_of_le (by omega) (by omega)

/-- The functor that an awaiter queues when it finds the connection closing. -/
def notice (late : Bool) : List QueuedFunctor := if late then [.destroyed] else []

theorem recvAwaitResume_eq (s : Session) :
    s.recvAwaitResume = { s with
      functors := s.functors ++ notice (!s.read.isError && s.closing)
      recvResult := if s.read.isError || s.closing then -1 else toInt s.read.totalLen } := by
  cases h : s.read.isError <;> cases hc : s.closing <;>
    simp [recvAwaitResume, queueDestroyed, notice, h, hc]

theorem sendAwaitResume_eq (s : Session) :
    s.sendAwaitResume = { s with
      functors := s.functors ++ notice s.closing
      sendResult := !s.closing && !s.write.isError } := by
  cases hc : s.closing <;> simp [sendAwaitResume, queueDestroyed, notice, hc]

/-- The coroutine runs on the loop thread again. -/
def woken (s : Session) (frame : Frame) : Session :=
  if s.co = .inSend then { s.sendAwaitResume with co := .onLoop, ctl := .inCo frame }
  else { s.recvAwaitResume with co := .onLoop, ctl := .inCo frame }

theorem resume_cases (s : Session) (frame : Frame) :
    (s.task = false ∧ s.resume frame = .error .destroyedFrame) ∨
      (s.task = true ∧ (s.co = .inRecv ∨ s.co = .inSend) ∧ s.resume frame = .ok (s.woken frame)) ∨
      (s.task = true ∧ s.co ≠ .inRecv ∧ s.co ≠ .inSend ∧
        s.resume frame = .error .notSuspended) := by
  cases ht : s.task with
  | false => simp [resume, ht]
  | true =>
      cases hco : s.co <;> simp [resume, woken, ht, hco]

/-- A resumption sets the position and may queue `Destroyed`; the rest stays. -/
theorem woken_eq (s : Session) (frame : Frame) :
    s.woken frame = { s with
      functors := s.functors ++ notice (s.closing && (decide (s.co = .inSend) || !s.read.isError))
      recvResult := if s.co = .inSend then s.recvResult
        else if s.read.isError || s.closing then -1 else toInt s.read.totalLen
      sendResult := if s.co = .inSend then !s.closing && !s.write.isError else s.sendResult
      co := .onLoop
      ctl := .inCo frame } := by
  by_cases h : s.co = .inSend
  · simp [woken, sendAwaitResume_eq, h]
  · simp [woken, recvAwaitResume_eq, h, Bool.and_comm]

section Woken

variable (s : Session) (frame : Frame)

@[simp] theorem woken_closing : (s.woken frame).closing = s.closing := by rw [woken_eq]
@[simp] theorem woken_task : (s.woken frame).task = s.task := by rw [woken_eq]
@[simp] theorem woken_read : (s.woken frame).read = s.read := by rw [woken_eq]
@[simp] theorem woken_write : (s.woken frame).write = s.write := by rw [woken_eq]
@[simp] theorem woken_co : (s.woken frame).co = .onLoop := by rw [woken_eq]
@[simp] theorem woken_ctl : (s.woken frame).ctl = .inCo frame := by rw [woken_eq]
@[simp] theorem woken_pool : (s.woken frame).pool = s.pool := by rw [woken_eq]
@[simp] theorem woken_functors : (s.woken frame).functors = s.functors ++
    notice (s.closing && (decide (s.co = .inSend) || !s.read.isError)) := by rw [woken_eq]
@[simp] theorem woken_sqes : (s.woken frame).sqes = s.sqes := by rw [woken_eq]
@[simp] theorem woken_fault : (s.woken frame).fault = s.fault := by rw [woken_eq]
@[simp] theorem woken_waiting : (s.woken frame).waiting = s.waiting := by rw [woken_eq]
@[simp] theorem woken_kernelReads : (s.woken frame).kernelReads = s.kernelReads := by rw [woken_eq]
@[simp] theorem woken_kernelWrites : (s.woken frame).kernelWrites = s.kernelWrites := by
  rw [woken_eq]

end Woken

/-! ## Faults -/

/-- A step that calls `handleClose`, and the coroutine's frame at that moment. -/
inductive Closes (s : Session) : SessionAct → Prop
  | read {res data} (idle : s.ctl = .idle) (out : 0 < s.kernelReads)
      (fatal : ReadContext.Fatal res) (handle : s.read.readHandle = false) :
      Closes s (.readCqe res data false)
  | write {res} (idle : s.ctl = .idle) (out : 0 < s.kernelWrites)
      (fatal : WriteContext.Fatal res) (handle : s.write.writeHandle = false) :
      Closes s (.writeCqe res)
  | destroyed {fs} (idle : s.ctl = .idle) (head : s.functors = .destroyed :: fs) :
      Closes s .functor
  | unwindRead (frame : s.ctl = .back .readFatal) : Closes s .unwind
  | unwindWrite (frame : s.ctl = .back .writeFatal) : Closes s .unwind

/-- A step that uses the coroutine's frame: it resumes the coroutine, or it runs the functor of
one of its awaiters. -/
inductive Uses (s : Session) : SessionAct → Prop
  | read {res data more} (idle : s.ctl = .idle) (out : 0 < s.kernelReads)
      (handle : s.read.readHandle = true) : Uses s (.readCqe res data more)
  | write {res} (idle : s.ctl = .idle) (out : 0 < s.kernelWrites)
      (handle : s.write.writeHandle = true) : Uses s (.writeCqe res)
  | await {w fs} (idle : s.ctl = .idle) (head : s.functors = .await w :: fs) : Uses s .functor
  | pool (queued : s.pool = true) : Uses s .poolTake

/-- A step that asks for a batch when `temp_data_` comes out empty. -/
inductive Starves (s : Session) : SessionAct → Prop
  | complete {res} (empty : (s.write.acknowledge res).proceed = none) : Starves s (.writeCqe res)
  | await {data fs} (head : s.functors = .await (.send data) :: fs)
      (empty : s.write.sendInLoop data = none) : Starves s .functor
  | send {data} (empty : s.write.sendInLoop data = none) : Starves s (.co (.send data))

/-- When a step ends in a fault. -/
inductive Fails (s : Session) : SessionAct → Fault → Prop
  | readHolder {res data more} (out : 0 < s.kernelReads) (holder : s.read.holder = false)
      (idle : s.ctl = .idle) : Fails s (.readCqe res data more) .readHolder
  | readStatus {res data more} (out : 0 < s.kernelReads) (status : s.read.status = .stoped)
      (idle : s.ctl = .idle) : Fails s (.readCqe res data more) .readStatus
  | writeHolder {res} (out : 0 < s.kernelWrites) (holder : s.write.holder = false)
      (idle : s.ctl = .idle) : Fails s (.writeCqe res) .writeHolder
  | emptyBatch {a} (starves : Starves s a) : Fails s a .emptyBatch
  | notSuspended {a} (uses : Uses s a) (resumes : a ≠ .poolTake) (alive : s.task = true)
      (recv : s.co ≠ .inRecv) (send : s.co ≠ .inSend) : Fails s a .notSuspended
  | notPooled (queued : s.pool = true) (astray : s.co ≠ .pooled) : Fails s .poolTake .notSuspended
  | destroyRunning {a} (closes : Closes s a) (destroys : s.destroys = true) (alive : s.task = true)
      (running : running s.co = true) : Fails s a .destroyRunning
  | destroyedFrame {a} (uses : Uses s a) (gone : s.task = false) : Fails s a .destroyedFrame
  | readRace (away : s.co = .onWorker) (idle : s.ctl = .idle) (out : 0 < s.kernelReads) :
      Fails s .readRace .readRace

/-! ## Moves -/

/-- How `ReadContext::on_completion` ends: the coroutine is woken if it waits there. -/
inductive WokeReader (s : Session) : Session → Prop
  | asleep (handle : s.read.readHandle = false) : WokeReader s s
  | woken (handle : s.read.readHandle = true) (alive : s.task = true) :
      WokeReader s ({ s with read := { s.read with readHandle := false } }.woken .tail)

/-- How `WriteContext::on_completion` ends. -/
inductive WokeWriter (s : Session) : Session → Prop
  | asleep (handle : s.write.writeHandle = true → s.write.overLoad = true) : WokeWriter s s
  | woken (handle : s.write.writeHandle = true) (drained : s.write.overLoad = false)
      (alive : s.task = true) :
      WokeWriter s ({ s with write := { s.write with writeHandle := false } }.woken .tail)

/-- `read_context_` when its request has ended. -/
def endRead (s : Session) : Session :=
  { s with read := { s.read with holder := false, status := .stoped } }

/-- `write_context_` when its request has ended. -/
def endWrite (s : Session) : Session :=
  { s with write := { s.write with holder := false, isSending := false } }

/-- `read_handle_` is set and a receive is submitted unless there is one. -/
def awaitRead (s : Session) : Session :=
  let s := { s with read := { s.read with readHandle := true } }
  if s.read.status = .stoped then s.submitRead else s

theorem awaitRead_eq (s : Session) :
    s.awaitRead = { s with
      read := { s.read with
        readHandle := true
        holder := s.read.holder || decide (s.read.status = .stoped)
        status := if s.read.status = .stoped then .reading else s.read.status }
      waiting := s.waiting ++ (if s.read.status = .stoped ∧ s.sqeLow = true then [.read] else [])
      kernelReads := s.kernelReads + (if s.read.status = .stoped ∧ s.sqeLow = false then 1 else 0)
      sqes := s.sqes ++ (if s.read.status = .stoped ∧ s.sqeLow = false then
        [⟨.recv, s.closing⟩] else []) } := by
  by_cases h : s.read.status = .stoped <;> cases hlow : s.sqeLow <;>
    simp [awaitRead, submitRead_eq, h, hlow]

inductive Move (s : Session) : SessionAct → Session → Prop
  | abort {a f} (fails : Fails s a f) : Move s a { s with fault := some f }
  | readMore {res data s'} (idle : s.ctl = .idle) (out : 0 < s.kernelReads)
      (holder : s.read.holder = true) (status : s.read.status ≠ .stoped)
      (woke : WokeReader (s.took res data true) s') : Move s (.readCqe res data true) s'
  | readStopped {res data s'} (idle : s.ctl = .idle) (out : 0 < s.kernelReads)
      (holder : s.read.holder = true) (fatal : ¬ ReadContext.Fatal res)
      (status : (s.took res data false).read.status = .canceling)
      (woke : WokeReader (s.took res data false).endRead s') : Move s (.readCqe res data false) s'
  | readAgain {res data s'} (idle : s.ctl = .idle) (out : 0 < s.kernelReads)
      (holder : s.read.holder = true) (fatal : ¬ ReadContext.Fatal res)
      (status : (s.took res data false).read.status = .reading)
      (woke : WokeReader (s.took res data false).submitRead s') : Move s (.readCqe res data false) s'
  | readFatal {res data} (idle : s.ctl = .idle) (out : 0 < s.kernelReads)
      (holder : s.read.holder = true) (status : s.read.status ≠ .stoped)
      (fatal : ReadContext.Fatal res) (handle : s.read.readHandle = true) (alive : s.task = true) :
      Move s (.readCqe res data false) ((s.took res data false).woken .readFatal)
  | readClose {res data} (idle : s.ctl = .idle) (out : 0 < s.kernelReads)
      (holder : s.read.holder = true) (status : s.read.status ≠ .stoped)
      (fatal : ReadContext.Fatal res) (handle : s.read.readHandle = false)
      (stopped : ¬ (s.destroys ∧ s.task ∧ running s.co)) :
      Move s (.readCqe res data false) (s.took res data false).shut.endRead
  | writeMore {res w flushed s'} (idle : s.ctl = .idle) (out : 0 < s.kernelWrites)
      (holder : s.write.holder = true) (fatal : ¬ WriteContext.Fatal res)
      (proceeds : (s.write.acknowledge res).proceed = some (w, flushed))
      (woke : WokeWriter ({ s with kernelWrites := s.kernelWrites - 1 }.wrote w flushed) s') :
      Move s (.writeCqe res) s'
  | writeFatal {res} (idle : s.ctl = .idle) (out : 0 < s.kernelWrites)
      (holder : s.write.holder = true) (fatal : WriteContext.Fatal res)
      (handle : s.write.writeHandle = true) (alive : s.task = true) :
      Move s (.writeCqe res) ({ s with
        kernelWrites := s.kernelWrites - 1
        write := { s.write with isError := true, isSending := false } }.woken .writeFatal)
  | writeClose {res} (idle : s.ctl = .idle) (out : 0 < s.kernelWrites)
      (holder : s.write.holder = true) (fatal : WriteContext.Fatal res)
      (handle : s.write.writeHandle = false)
      (stopped : ¬ (s.destroys ∧ s.task ∧ running s.co)) :
      Move s (.writeCqe res) { s with
        kernelWrites := s.kernelWrites - 1
        write := { s.write with isError := true, isSending := false } }.shut.endWrite
  | established {fs} (idle : s.ctl = .idle) (head : s.functors = .established :: fs) :
      Move s .functor { s with functors := fs, task := true, co := .onLoop, ctl := .inCo .tail }
  | recvRegister {fs} (idle : s.ctl = .idle) (head : s.functors = .await .recv :: fs)
      (alive : s.task = true) (empty : s.read.isEmpty = true) :
      Move s .functor { s with functors := fs }.awaitRead
  | recvResume {fs} (idle : s.ctl = .idle) (head : s.functors = .await .recv :: fs)
      (alive : s.task = true) (empty : s.read.isEmpty = false) :
      Move s .functor ({ s with functors := fs }.woken .tail)
  | sendRegister {data fs w flushed} (idle : s.ctl = .idle)
      (head : s.functors = .await (.send data) :: fs) (alive : s.task = true)
      (sends : s.write.sendInLoop data = some (w, flushed)) (load : w.overLoad = true) :
      Move s .functor ({ s with functors := fs }.wrote { w with writeHandle := true } flushed)
  | sendResume {data fs w flushed} (idle : s.ctl = .idle)
      (head : s.functors = .await (.send data) :: fs) (alive : s.task = true)
      (sends : s.write.sendInLoop data = some (w, flushed)) (load : w.overLoad = false) :
      Move s .functor (({ s with functors := fs }.wrote w flushed).woken .tail)
  | destroyed {fs} (idle : s.ctl = .idle) (head : s.functors = .destroyed :: fs)
      (stopped : ¬ (s.destroys ∧ s.task ∧ running s.co)) :
      Move s .functor { s with functors := fs }.shut
  | drainRead {cs} (idle : s.ctl = .idle) (head : s.waiting = .read :: cs) :
      Move s .drain { s with waiting := cs }.prepareRead
  | drainWrite {cs} (idle : s.ctl = .idle) (head : s.waiting = .write :: cs) :
      Move s .drain { s with waiting := cs }.prepareWrite
  | unwindRead (frame : s.ctl = .back .readFatal)
      (stopped : ¬ (s.destroys ∧ s.task ∧ running s.co)) :
      Move s .unwind { s with ctl := .idle }.shut.endRead
  | unwindWrite (frame : s.ctl = .back .writeFatal)
      (stopped : ¬ (s.destroys ∧ s.task ∧ running s.co)) :
      Move s .unwind { s with ctl := .idle }.shut.endWrite
  | recvReady {frame} (here : s.co = .onLoop) (ctl : s.ctl = .inCo frame) :
      Move s (.co .prepareToRead) s.recvAwaitResume
  | recvSuspend {frame} (here : s.co = .onLoop) (ctl : s.ctl = .inCo frame)
      (opened : s.closing = false) (empty : s.read.isEmpty = true) :
      Move s (.co .prepareToRead) { s.awaitRead with co := .inRecv, ctl := leave frame }
  | sendLate {data frame} (here : s.co = .onLoop) (ctl : s.ctl = .inCo frame)
      (closed : s.closing = true) : Move s (.co (.send data)) s.sendAwaitResume
  | sendThrough {data frame w flushed} (here : s.co = .onLoop) (ctl : s.ctl = .inCo frame)
      (opened : s.closing = false) (sends : s.write.sendInLoop data = some (w, flushed))
      (load : w.overLoad = false) :
      Move s (.co (.send data)) (s.wrote w flushed).sendAwaitResume
  | sendSuspend {data frame w flushed} (here : s.co = .onLoop) (ctl : s.ctl = .inCo frame)
      (opened : s.closing = false) (sends : s.write.sendInLoop data = some (w, flushed))
      (load : w.overLoad = true) :
      Move s (.co (.send data))
        { s.wrote { w with writeHandle := true } flushed with co := .inSend, ctl := leave frame }
  | switchLoop {frame} (here : s.co = .onLoop) (ctl : s.ctl = .inCo frame) :
      Move s (.co .switchThread) { s with co := .pooled, pool := true, ctl := leave frame }
  | retLoop {frame} (here : s.co = .onLoop) (ctl : s.ctl = .inCo frame) :
      Move s (.co .ret) { s with co := .final, ctl := leave frame }
  | recvLate (here : s.co = .onWorker) (closed : s.closing = true) :
      Move s (.co .prepareToRead) s.recvAwaitResume
  | sendLateWorker {data} (here : s.co = .onWorker) (closed : s.closing = true) :
      Move s (.co (.send data)) s.sendAwaitResume
  | recvLeave (here : s.co = .onWorker) (opened : s.closing = false) :
      Move s (.co .prepareToRead) { s with co := .suspending .recv }
  | sendLeave {data} (here : s.co = .onWorker) (opened : s.closing = false) :
      Move s (.co (.send data)) { s with co := .suspending (.send data) }
  | switchWorker (here : s.co = .onWorker) :
      Move s (.co .switchThread) { s with co := .pooled, pool := true }
  | retWorker (here : s.co = .onWorker) : Move s (.co .ret) { s with co := .final }
  | read {size} : Move s (.co (.read size)) { s with read := (s.read.removeAsString size).2 }
  | enqueue {w} (here : s.co = .suspending w) :
      Move s .enqueue { s with co := parked w, functors := s.functors ++ [.await w] }
  | poolTake (queued : s.pool = true) (alive : s.task = true) (here : s.co = .pooled) :
      Move s .poolTake { s with pool := false, co := .onWorker }
  | serverDestroy (entry : s.mapEntry = true) :
      Move s .serverDestroy { s.queueDestroyed with mapEntry := false }
  | removeConnection : Move s .removeConnection { s with mapEntry := false }
  | pressure {low} : Move s (.pressure low) { s with sqeLow := low }

/-! ## The list is complete -/

section Complete

variable {s s' : Session} {a : SessionAct}

theorem took_frame (s : Session) (res : ℤ) (data : List UInt8) (more : Bool) :
    (s.took res data more).read.holder = s.read.holder ∧
      (s.took res data more).read.readHandle = s.read.readHandle ∧
      ((s.took res data more).read.status = s.read.status ∨
        (s.took res data more).read.status = .canceling) ∧
      (s.took res data more).read.isError = (s.read.isError || decide (ReadContext.Fatal res)) :=
  (s.read.takeResult_spec res data).2

/-- Waking the reader is one of the two ways to end, or a fault. -/
theorem wakeReader_move {t : Session} (idle : s.ctl = .idle) (out : 0 < s.kernelReads)
    {res : ℤ} {data : List UInt8} {more : Bool}
    (handle : t.read.readHandle = s.read.readHandle) (task : t.task = s.task) (co : t.co = s.co)
    (ok : ∀ s', WokeReader t s' → Move s (.readCqe res data more) s') :
    Move s (.readCqe res data more) (s.commit t.wakeReader) := by
  rw [wakeReader]
  split
  case isTrue h =>
    have uses : Uses s (.readCqe res data more) := .read idle out (handle ▸ h)
    rcases resume_cases { t with read := { t.read with readHandle := false } } .tail with
      ⟨ht, hr⟩ | ⟨ht, -, hr⟩ | ⟨ht, hrecv, hsend, hr⟩
    · rw [hr]
      exact .abort (.destroyedFrame uses (task ▸ ht))
    · rw [hr]
      exact ok _ (.woken h ht)
    · rw [hr]
      exact .abort (.notSuspended uses (by simp) (task ▸ ht) (co ▸ hrecv) (co ▸ hsend))
  case isFalse h => exact ok _ (.asleep (by simpa using h))

theorem readCqe_move {res : ℤ} {data : List UInt8} {more : Bool} (idle : s.ctl = .idle)
    (out : 0 < s.kernelReads) :
    Move s (.readCqe res data more) (s.commit ({ s with
      kernelReads := if more then s.kernelReads else s.kernelReads - 1 }.onReadCompletion
        res data more)) := by
  rw [onReadCompletion, handleRead_eq]
  obtain ⟨hholder, hhandle, hstatus, -⟩ := s.took_frame res data more
  simp only
  split
  case isTrue h => exact .abort (.readHolder out h idle)
  case isFalse holder =>
    rw [Bool.not_eq_false] at holder
    split
    case isTrue h => exact .abort (.readStatus out h idle)
    case isFalse status =>
      cases more with
      | true =>
          rw [if_pos rfl]
          exact wakeReader_move idle out hhandle rfl rfl fun s' woke =>
            .readMore idle out holder status woke
      | false =>
          rw [if_neg (by decide)]
          by_cases fatal : ReadContext.Fatal res
          · simp only [fatal, decide_true, Bool.true_eq_false, and_false, if_false]
            split
            case isTrue h =>
              have handle : s.read.readHandle = true := hhandle ▸ h
              rcases resume_cases (s.took res data false) .readFatal with
                ⟨ht, hr⟩ | ⟨ht, -, hr⟩ | ⟨ht, hrecv, hsend, hr⟩
              · rw [hr]
                exact .abort (.destroyedFrame (.read idle out handle) ht)
              · rw [hr]
                exact .readFatal idle out holder status fatal handle ht
              · rw [hr]
                exact .abort (.notSuspended (.read idle out handle) (by simp) ht hrecv hsend)
            case isFalse h =>
              have handle : s.read.readHandle = false := by rw [← hhandle]; simpa using h
              rw [closeRead, handleClose_eq]
              have hd : (s.took res data false).destroys = s.destroys := by
                simp only [destroys, hhandle]; rfl
              rw [hd]
              split
              case isTrue hrun =>
                exact .abort
                  (.destroyRunning (.read idle out fatal handle) hrun.1 hrun.2.1 hrun.2.2)
              case isFalse hrun => exact .readClose idle out holder status fatal handle hrun
          · simp only [fatal, decide_false, and_true]
            split
            case isTrue h =>
              exact wakeReader_move idle out hhandle rfl rfl fun s' woke =>
                .readStopped idle out holder fatal h woke
            case isFalse hcancel =>
              have hreading : (s.took res data false).read.status = .reading := by
                cases h : (s.took res data false).read.status with
                | reading => rfl
                | canceling => exact absurd h hcancel
                | stoped =>
                    rcases hstatus with hs | hs
                    · exact absurd (hs.symm.trans h) status
                    · exact absurd hs hcancel
              rw [if_pos hreading]
              refine wakeReader_move idle out ?_ ?_ ?_ fun s' woke =>
                .readAgain idle out holder fatal hreading woke
              · rw [submitRead_eq]; exact hhandle
              · rw [submitRead_eq]; rfl
              · rw [submitRead_eq]; rfl

theorem needClose_iff (w : WriteContext) (res : ℤ) :
    (decide (res < 0) && (w.handleError res).1) = decide (WriteContext.Fatal res) := by
  by_cases hneg : res < 0
  · by_cases ht : WriteContext.Transient res
    · simp [WriteContext.handleError_transient w ht, WriteContext.Fatal, ht]
    · simp [WriteContext.handleError_fatal w ⟨hneg, ht⟩, WriteContext.Fatal, hneg, ht]
  · simp [WriteContext.Fatal, hneg]

theorem acknowledge_fatal (w : WriteContext) {res : ℤ} (h : WriteContext.Fatal res) :
    w.acknowledge res = { w with isError := true, isSending := false } := by
  simp [WriteContext.acknowledge, h.1, WriteContext.handleError_fatal w h]

/-- Waking the writer is one of the two ways to end, or a fault. -/
theorem wakeWriter_move {t : Session} (idle : s.ctl = .idle) (out : 0 < s.kernelWrites) {res : ℤ}
    (handle : t.write.writeHandle = s.write.writeHandle) (task : t.task = s.task)
    (co : t.co = s.co) (ok : ∀ s', WokeWriter t s' → Move s (.writeCqe res) s') :
    Move s (.writeCqe res) (s.commit t.wakeWriter) := by
  rw [wakeWriter]
  split
  case isTrue h =>
    have uses : Uses s (.writeCqe res) := .write idle out (handle ▸ h.1)
    rcases resume_cases { t with write := { t.write with writeHandle := false } } .tail with
      ⟨ht, hr⟩ | ⟨ht, -, hr⟩ | ⟨ht, hrecv, hsend, hr⟩
    · rw [hr]
      exact .abort (.destroyedFrame uses (task ▸ ht))
    · rw [hr]
      exact ok _ (.woken h.1 h.2 ht)
    · rw [hr]
      exact .abort (.notSuspended uses (by simp) (task ▸ ht) (co ▸ hrecv) (co ▸ hsend))
  case isFalse h =>
    refine ok _ (.asleep ?_)
    intro hw
    simpa [hw] using h

theorem writeCqe_move {res : ℤ} (idle : s.ctl = .idle) (out : 0 < s.kernelWrites) :
    Move s (.writeCqe res)
      (s.commit ({ s with kernelWrites := s.kernelWrites - 1 }.onWriteCompletion res)) := by
  rw [onWriteCompletion]
  simp only [needClose_iff, decide_eq_true_eq]
  split
  case isTrue h => exact .abort (.writeHolder out h idle)
  case isFalse holder =>
    rw [Bool.not_eq_false] at holder
    by_cases fatal : WriteContext.Fatal res
    · rw [if_pos fatal, acknowledge_fatal s.write fatal]
      split
      case isTrue h =>
        rcases resume_cases { s with
            kernelWrites := s.kernelWrites - 1
            write := { s.write with isError := true, isSending := false } } .writeFatal with
          ⟨ht, hr⟩ | ⟨ht, -, hr⟩ | ⟨ht, hrecv, hsend, hr⟩
        · rw [hr]
          exact .abort (.destroyedFrame (.write idle out h) ht)
        · rw [hr]
          exact .writeFatal idle out holder fatal h ht
        · rw [hr]
          exact .abort (.notSuspended (.write idle out h) (by simp) ht hrecv hsend)
      case isFalse h =>
        have handle : s.write.writeHandle = false := by simpa using h
        rw [closeWrite, handleClose_eq]
        split
        case isTrue hrun =>
          exact .abort (.destroyRunning (.write idle out fatal handle) hrun.1 hrun.2.1 hrun.2.2)
        case isFalse hrun => exact .writeClose idle out holder fatal handle hrun
    · rw [if_neg fatal]
      cases hp : (s.write.acknowledge res).proceed with
      | none => exact .abort (.emptyBatch (.complete hp))
      | some p =>
          obtain ⟨w, flushed⟩ := p
          obtain ⟨-, -, -, hw, -, -⟩ := WriteContext.proceed_frame hp
          rw [s.write.acknowledge_writeHandle] at hw
          rw [takeWrite_some]
          exact wakeWriter_move idle out hw rfl rfl fun s' woke =>
            .writeMore idle out holder fatal hp woke

/-- A functor of one of the coroutine's awaiters that ends in a resumption. -/
theorem resume_move {t : Session} (uses : Uses s .functor) (task : t.task = s.task)
    (co : t.co = s.co) (alive : s.task = true) (ok : Move s .functor (t.woken .tail)) :
    Move s .functor (s.commit (t.resume .tail)) := by
  rcases resume_cases t .tail with ⟨ht, hr⟩ | ⟨-, -, hr⟩ | ⟨-, hrecv, hsend, hr⟩
  · rw [task, alive] at ht
    exact absurd ht (by decide)
  · rw [hr]
    exact ok
  · rw [hr]
    exact .abort (.notSuspended uses (by simp) alive (co ▸ hrecv) (co ▸ hsend))

theorem functor_move {f : QueuedFunctor} {fs : List QueuedFunctor} (idle : s.ctl = .idle)
    (head : s.functors = f :: fs) :
    Move s .functor (s.commit ({ s with functors := fs }.runFunctor f)) := by
  cases f with
  | established => exact .established idle head
  | await w =>
      rcases Bool.eq_false_or_eq_true s.task with alive | gone
      · have hnot : ¬ s.task = false := by simp [alive]
        cases w with
        | recv =>
            rw [runFunctor, if_neg hnot]
            split
            case isTrue h => exact .recvRegister idle head alive h
            case isFalse h =>
              exact resume_move (.await idle head) rfl rfl alive
                (.recvResume idle head alive (by simpa using h))
        | send data =>
            rw [runFunctor, if_neg hnot, sendInLoop]
            cases hs : s.write.sendInLoop data with
            | none => exact .abort (.emptyBatch (.await head hs))
            | some p =>
                obtain ⟨w, flushed⟩ := p
                rw [takeWrite_some, Except.bind]
                split
                case isTrue h => exact .sendRegister idle head alive hs h
                case isFalse h =>
                  exact resume_move (.await idle head) rfl rfl alive
                    (.sendResume idle head alive hs (Bool.eq_false_iff.mpr h))
      · have hfault : { s with functors := fs }.runFunctor (.await w) = .error .destroyedFrame := by
          cases w <;> simp [runFunctor, gone]
        rw [hfault]
        exact .abort (.destroyedFrame (.await idle head) gone)
  | destroyed =>
      rw [runFunctor, handleClose_eq]
      split
      case isTrue h => exact .abort (.destroyRunning (.destroyed idle head) h.1 h.2.1 h.2.2)
      case isFalse h => exact .destroyed idle head h

theorem actOnLoop_move {frame : Frame} {act : CoAct} (here : s.co = .onLoop)
    (ctl : s.ctl = .inCo frame) : Move s (.co act) (s.commit (s.actOnLoop frame act)) := by
  cases act with
  | prepareToRead =>
      rw [actOnLoop]
      split
      case isTrue => exact .recvReady here ctl
      case isFalse h =>
        simp only [not_or, Bool.not_eq_true, Bool.not_eq_false] at h
        exact .recvSuspend here ctl h.1 h.2
  | send data =>
      rw [actOnLoop]
      split
      case isTrue h => exact .sendLate here ctl h
      case isFalse h =>
        rw [Bool.not_eq_true] at h
        rw [sendInLoop]
        cases hs : s.write.sendInLoop data with
        | none => exact .abort (.emptyBatch (.send hs))
        | some p =>
            obtain ⟨w, flushed⟩ := p
            rw [takeWrite_some, Except.map]
            split
            case isTrue hover => exact .sendSuspend here ctl h hs hover
            case isFalse hover => exact .sendThrough here ctl h hs (Bool.eq_false_iff.mpr hover)
  | switchThread => exact .switchLoop here ctl
  | read size => exact .read
  | ret => exact .retLoop here ctl

theorem actOnWorker_move {act : CoAct} (here : s.co = .onWorker) :
    Move s (.co act) (s.actOnWorker act) := by
  cases act with
  | prepareToRead =>
      rw [actOnWorker]
      split
      case isTrue h => exact .recvLate here h
      case isFalse h => exact .recvLeave here (by simpa using h)
  | send data =>
      rw [actOnWorker]
      split
      case isTrue h => exact .sendLateWorker here h
      case isFalse h => exact .sendLeave here (by simpa using h)
  | switchThread => exact .switchWorker here
  | read size => exact .read
  | ret => exact .retWorker here

theorem unwind_move (closes : Closes s .unwind)
    (g : Session → Session)
    (ok : ¬ (s.destroys ∧ s.task ∧ running s.co) →
      Move s .unwind (g { s with ctl := .idle }.shut)) :
    Move s .unwind (s.commit ({ s with ctl := .idle }.handleClose.map g)) := by
  rw [handleClose_eq]
  split
  case isTrue h => exact .abort (.destroyRunning closes h.1 h.2.1 h.2.2)
  case isFalse h => exact ok h

/-- **Every step is one of the moves.** -/
theorem step_move (h : s.step a = some s') : Move s a s' := by
  unfold step at h
  split at h
  case isTrue => exact absurd h (by simp)
  case isFalse =>
    cases a with
    | readCqe res data more =>
        simp only [Option.ite_none_right_eq_some, Option.some.injEq] at h
        obtain ⟨⟨idle, out, -⟩, rfl⟩ := h
        exact readCqe_move idle out
    | writeCqe res =>
        simp only [Option.ite_none_right_eq_some, Option.some.injEq] at h
        obtain ⟨⟨idle, out, -⟩, rfl⟩ := h
        exact writeCqe_move idle out
    | functor =>
        simp only at h
        split at h
        case h_1 => exact absurd h (by simp)
        case h_2 f fs head =>
          simp only [Option.ite_none_right_eq_some, Option.some.injEq] at h
          obtain ⟨idle, rfl⟩ := h
          exact functor_move idle head
    | drain =>
        simp only at h
        split at h
        case h_1 => exact absurd h (by simp)
        case h_2 c cs head =>
          simp only [Option.ite_none_right_eq_some, Option.some.injEq] at h
          obtain ⟨⟨idle, -⟩, rfl⟩ := h
          cases c with
          | read => exact .drainRead idle head
          | write => exact .drainWrite idle head
    | unwind =>
        simp only at h
        split at h
        case h_1 ctl =>
          obtain rfl := Option.some.inj h
          exact unwind_move (.unwindRead ctl) endRead (.unwindRead ctl)
        case h_2 ctl =>
          obtain rfl := Option.some.inj h
          exact unwind_move (.unwindWrite ctl) endWrite (.unwindWrite ctl)
        case h_3 => exact absurd h (by simp)
    | co act =>
        simp only at h
        split at h
        case h_1 here ctl =>
          obtain rfl := Option.some.inj h
          exact actOnLoop_move here ctl
        case h_2 here =>
          obtain rfl := Option.some.inj h
          exact actOnWorker_move here
        case h_3 => exact absurd h (by simp)
    | enqueue =>
        simp only at h
        split at h
        case h_1 w here =>
          obtain rfl := Option.some.inj h
          exact .enqueue here
        case h_2 => exact absurd h (by simp)
    | poolTake =>
        simp only [Option.ite_none_right_eq_some, Option.some.injEq] at h
        obtain ⟨queued, rfl⟩ := h
        split
        case isTrue gone => exact .abort (.destroyedFrame (.pool queued) gone)
        case isFalse alive =>
          split
          case isTrue here => exact .poolTake queued (by simpa using alive) here
          case isFalse astray => exact .abort (.notPooled queued astray)
    | serverDestroy =>
        simp only [Option.ite_none_right_eq_some, Option.some.injEq] at h
        obtain ⟨entry, rfl⟩ := h
        exact .serverDestroy entry
    | removeConnection =>
        simp only [Option.ite_none_right_eq_some, Option.some.injEq] at h
        obtain ⟨-, rfl⟩ := h
        exact .removeConnection
    | pressure low =>
        obtain rfl := Option.some.inj h
        exact .pressure
    | readRace =>
        simp only [Option.ite_none_right_eq_some, Option.some.injEq] at h
        obtain ⟨⟨away, idle, out⟩, rfl⟩ := h
        exact .abort (.readRace away idle out)

/-- Nothing happens after a fault. -/
theorem step_sound (h : s.step a = some s') : s.fault = none := by
  unfold step at h
  split at h
  case isTrue => exact absurd h (by simp)
  case isFalse hfault => simpa using hfault

/-- When there can be a read completion. -/
theorem step_readCqe {res : ℤ} {data : List UInt8} {more : Bool}
    (h : s.step (.readCqe res data more) = some s') :
    s.ctl = .idle ∧ 0 < s.kernelReads ∧ data.length = res.toNat := by
  unfold step at h
  split at h
  case isTrue => exact absurd h (by simp)
  case isFalse =>
    simp only [Option.ite_none_right_eq_some] at h
    exact h.1

/-- The coroutine acts only while it is running. -/
theorem step_co {act : CoAct} (h : s.step (.co act) = some s') :
    s.co = .onLoop ∨ s.co = .onWorker := by
  unfold step at h
  split at h
  case isTrue => exact absurd h (by simp)
  case isFalse =>
    simp only at h
    split at h
    case h_1 here ctl => exact .inl here
    case h_2 here => exact .inr here
    case h_3 => exact absurd h (by simp)

/-- When there can be a write completion. -/
theorem step_writeCqe {res : ℤ} (h : s.step (.writeCqe res) = some s') :
    s.ctl = .idle ∧ 0 < s.kernelWrites ∧ res ≤ s.batchLen := by
  unfold step at h
  split at h
  case isTrue => exact absurd h (by simp)
  case isFalse =>
    simp only [Option.ite_none_right_eq_some] at h
    exact h.1

/-- When a pool thread can read while the loop appends. -/
theorem step_readRace (h : s.step .readRace = some s') :
    s.co = .onWorker ∧ s.ctl = .idle ∧ 0 < s.kernelReads := by
  unfold step at h
  split at h
  case isTrue => exact absurd h (by simp)
  case isFalse =>
    simp only [Option.ite_none_right_eq_some] at h
    exact h.1

/-- When a handler that has resumed the coroutine goes on. -/
theorem step_unwind (h : s.step .unwind = some s') :
    s.ctl = .back .readFatal ∨ s.ctl = .back .writeFatal := by
  unfold step at h
  split at h
  case isTrue => exact absurd h (by simp)
  case isFalse =>
    simp only at h
    split at h
    case h_1 ctl => exact .inl ctl
    case h_2 ctl => exact .inr ctl
    case h_3 => exact absurd h (by simp)

/-- **A step closes the socket and calls the close callback when it sets `closing_`, and not
otherwise.** -/
theorem Move.counts (h : Move s a s') :
    s'.closes + s.closing.toNat = s.closes + s'.closing.toNat ∧
      s'.callbacks + s.closing.toNat = s.callbacks + s'.closing.toNat := by
  have hshut : ∀ t : Session, t.closing.toNat + (!t.closing).toNat = 1 := fun t => by
    cases t.closing <;> rfl
  cases h with
  | readMore _ _ _ _ woke => cases woke <;> simp [took, woken_eq]
  | readStopped _ _ _ _ _ woke => cases woke <;> simp [took, endRead, woken_eq]
  | readAgain _ _ _ _ _ woke => cases woke <;> simp [took, submitRead_eq, woken_eq]
  | writeMore _ _ _ _ _ woke => cases woke <;> simp [wrote, woken_eq]
  | readClose | writeClose | destroyed | unwindRead | unwindWrite =>
      have := hshut s
      simp only [took, shut, endRead, endWrite, Bool.toNat_true]
      omega
  | _ =>
      simp [took, wrote, woken_eq, awaitRead_eq, prepareRead, prepareWrite,
        recvAwaitResume_eq, sendAwaitResume_eq, queueDestroyed]

/-- A step faults for one of the listed reasons, or not at all. -/
theorem Move.fault_cases (h : Move s a s') :
    s'.fault = s.fault ∨ ∃ f, Fails s a f ∧ s'.fault = some f := by
  cases h with
  | abort fails => exact .inr ⟨_, fails, rfl⟩
  | readMore _ _ _ _ woke => cases woke <;> simp [took]
  | readStopped _ _ _ _ _ woke => cases woke <;> simp [took, endRead]
  | readAgain _ _ _ _ _ woke => cases woke <;> simp [took, submitRead_eq]
  | writeMore _ _ _ _ _ woke => cases woke <;> simp [wrote]
  | _ =>
      simp [took, shut, endRead, endWrite, wrote, awaitRead_eq, prepareRead, prepareWrite,
        recvAwaitResume_eq, sendAwaitResume_eq, queueDestroyed]

end Complete

end Session

end Proactor
