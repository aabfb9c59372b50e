import Mathlib.Data.List.Nodup
import Mathlib.Data.List.Perm.Basic
import Mathlib.Algebra.Group.Nat.Defs
import Proactor.Core.Loop
import Proactor.Core.Transition

/-!
# The submission ring and the queue of waiting requests

`IoUringLoop` asks for an SQE in three ways.  A submit function takes one at once when at least
`sqe_low_water_mark_` entries are free and queues the context otherwise;
`doingSubmitWaitingTask` serves the queue while *more* than the mark is free; `submitCancel` and
the wake-up take an entry below the mark and submit the ring when it is full.

Every call of a submit function gets a `ticket`, its position among the calls.  Tickets are not in
the source: they tell two calls with the same context apart, so that "exactly one SQE" can be said.

* `SubmitRing` — the ring, `waiting_submit_queue_` and the calls made so far.
* `SubmitRing.drained` — what `doingSubmitWaitingTask` serves, in closed form.
* `SubmitRing.Conserved` — the invariant: no request is lost, doubled or overtaken.

`io_uring_get_sqe` fails only on a full ring and `io_uring_submit` empties it.
-/

namespace Proactor

open Transition

namespace SubmitRing

/-- `ContextType`, with the contexts that are not a connection's. -/
inductive ContextType
  | read
  | write
  | accept
  | wakeup
  deriving DecidableEq, Repr

/-- The part of an `IoContext` the ring needs: where it is, and its `type_`. -/
structure IoContext where
  addr : ℕ
  type : ContextType
  deriving DecidableEq, Repr

/-- One call of a submit function. -/
structure Request where
  ticket : ℕ
  ctx : IoContext
  deriving DecidableEq, Repr

/-- A prepared submission entry.  The first three carry the context in `user_data`, the wake-up
read carries the loop itself and a cancel carries `0`. -/
inductive Sqe
  | recvMultishot (req : Request)
  | writev (req : Request)
  | acceptMultishot (req : Request)
  | readEventfd
  | cancel (addr : ℕ)
  deriving DecidableEq, Repr

/-- The call an entry was prepared for. -/
def Sqe.request? : Sqe → Option Request
  | .recvMultishot req => some req
  | .writev req => some req
  | .acceptMultishot req => some req
  | .readEventfd => none
  | .cancel _ => none

/-- The entry that is of the request's own kind.  A wake-up context is never passed to a submit
function and has none. -/
def Request.sqe? (req : Request) : Option Sqe :=
  match req.ctx.type with
  | .read => some (.recvMultishot req)
  | .write => some (.writev req)
  | .accept => some (.acceptMultishot req)
  | .wakeup => none

/-- The entry of a request is prepared for that request. -/
theorem Request.request?_of_sqe? {req : Request} {sqe : Sqe} (hkind : req.sqe? = some sqe) :
    sqe.request? = some req := by
  unfold Request.sqe? at hkind
  split at hkind
  · cases hkind; rfl
  · cases hkind; rfl
  · cases hkind; rfl
  · cases hkind

/-- How the process ended: by an `assert`, or by the `exit` in `LOG_FATAL`. -/
inductive Halt
  | assertFailed
  | logFatal
  deriving DecidableEq, Repr

end SubmitRing

/-- The submission side of an `IoUringLoop`. -/
structure SubmitRing where
  capacity : ℕ
  sqeLowWaterMark : ℕ
  /-- Entries prepared since the last submit. -/
  sq : List Proactor.SubmitRing.Sqe
  /-- Entries the kernel has been given. -/
  submitted : List Proactor.SubmitRing.Sqe
  waitingSubmitQueue : List Proactor.SubmitRing.Request
  halt : Option Proactor.SubmitRing.Halt
  /-- The contexts passed to the submit functions so far. -/
  calls : List Proactor.SubmitRing.IoContext
  /-- The requests that were put into `waiting_submit_queue_` so far. -/
  queued : List Proactor.SubmitRing.Request
  deriving DecidableEq, Repr

namespace SubmitRing

/-- `io_uring_queue_init` and an empty queue. -/
def create (capacity lowWaterMark : ℕ) : SubmitRing where
  capacity := capacity
  sqeLowWaterMark := lowWaterMark
  sq := []
  submitted := []
  waitingSubmitQueue := []
  halt := none
  calls := []
  queued := []

/-- `io_uring_sq_space_left`. -/
def remainedSqe (r : SubmitRing) : ℕ := r.capacity - r.sq.length

def ioUringSubmit (r : SubmitRing) : SubmitRing :=
  { r with sq := [], submitted := r.submitted ++ r.sq }

/-- `getIoUringSqe`: the ring with an entry to fill, or `none` for a null pointer. -/
def getIoUringSqe (forceSubmit : Bool) (r : SubmitRing) : Option SubmitRing :=
  if r.sq.length < r.capacity then some r
  else if forceSubmit then
    if r.ioUringSubmit.sq.length < r.capacity then some r.ioUringSubmit else none
  else none

/-- Fill the entry that was just taken. -/
def prep (sqe : Sqe) (r : SubmitRing) : SubmitRing := { r with sq := r.sq ++ [sqe] }

/-- The common body of `_submitReadMultishut`, `_submitWriteMsg` and `_submitAcceptMultishut`. -/
def submitNow (entry : Request → Sqe) (req : Request) (r : SubmitRing) : SubmitRing :=
  match r.getIoUringSqe false with
  | some r => r.prep (entry req)
  | none => { r with halt := some .assertFailed }

def submitReadMultishutNow : Request → SubmitRing → SubmitRing := submitNow .recvMultishot

def submitWriteMsgNow : Request → SubmitRing → SubmitRing := submitNow .writev

def submitAcceptMultishutNow : Request → SubmitRing → SubmitRing := submitNow .acceptMultishot

/-- The common body of the three public submit functions. -/
def submit (now : Request → SubmitRing → SubmitRing) (ctx : IoContext) (r : SubmitRing) :
    SubmitRing :=
  let req : Request := ⟨r.calls.length, ctx⟩
  let r := { r with calls := r.calls ++ [ctx] }
  if r.remainedSqe < r.sqeLowWaterMark then
    { r with
      waitingSubmitQueue := r.waitingSubmitQueue ++ [req]
      queued := r.queued ++ [req] }
  else now req r

def submitReadMultishut (addr : ℕ) : SubmitRing → SubmitRing :=
  submit submitReadMultishutNow ⟨addr, .read⟩

def submitWriteMsg (addr : ℕ) : SubmitRing → SubmitRing :=
  submit submitWriteMsgNow ⟨addr, .write⟩

def submitAcceptMultishut (addr : ℕ) : SubmitRing → SubmitRing :=
  submit submitAcceptMultishutNow ⟨addr, .accept⟩

/-- An entry taken with `force_submit`.  When there is none even then, `LOG_FATAL` exits. -/
def forced (sqe : Sqe) (r : SubmitRing) : SubmitRing :=
  match r.getIoUringSqe true with
  | some r => r.prep sqe
  | none => { r.ioUringSubmit with halt := some .logFatal }

/-- `submitCancel`, which hands the ring to the kernel at once. -/
def submitCancel (addr : ℕ) (r : SubmitRing) : SubmitRing :=
  let r := r.forced (.cancel addr)
  if r.halt = none then r.ioUringSubmit else r

/-- `IoUringLoop::on_completion`: read the eventfd again. -/
def onCompletion (r : SubmitRing) : SubmitRing := r.forced .readEventfd

/-- The `switch` of `doingSubmitWaitingTask`.  There is no case for a wake-up context. -/
def dispatch (req : Request) (r : SubmitRing) : SubmitRing :=
  match req.ctx.type with
  | .read => r.submitReadMultishutNow req
  | .write => r.submitWriteMsgNow req
  | .accept => r.submitAcceptMultishutNow req
  | .wakeup => r

/-- `max_process_per_loop`. -/
def maxProcessPerLoop : ℕ := 100

/-- The test of the loop in `doingSubmitWaitingTask`, on the ring and `processed`. -/
def drainTest (p : SubmitRing × ℕ) : Bool :=
  p.1.waitingSubmitQueue ≠ [] ∧ p.1.sqeLowWaterMark < p.1.remainedSqe ∧ p.2 < maxProcessPerLoop

/-- The body of that loop: serve the front, then pop it. -/
def drainBody (p : SubmitRing × ℕ) : SubmitRing × ℕ :=
  match p.1.waitingSubmitQueue with
  | [] => p
  | req :: rest => ({ p.1.dispatch req with waitingSubmitQueue := rest }, p.2 + 1)

def doingSubmitWaitingTask (r : SubmitRing) : SubmitRing :=
  (Loop.whileLoop drainTest drainBody maxProcessPerLoop (r, 0)).1

/-- What the loop thread does with the ring. -/
inductive Act
  | submitReadMultishut (addr : ℕ)
  | submitWriteMsg (addr : ℕ)
  | submitAcceptMultishut (addr : ℕ)
  | submitCancel (addr : ℕ)
  | onCompletion
  | ioUringSubmit
  | doingSubmitWaitingTask
  deriving DecidableEq, Repr

def act : Act → SubmitRing → SubmitRing
  | .submitReadMultishut addr => submitReadMultishut addr
  | .submitWriteMsg addr => submitWriteMsg addr
  | .submitAcceptMultishut addr => submitAcceptMultishut addr
  | .submitCancel addr => submitCancel addr
  | .onCompletion => onCompletion
  | .ioUringSubmit => ioUringSubmit
  | .doingSubmitWaitingTask => doingSubmitWaitingTask

/-- One call, made by a process that has not ended. -/
def step (r : SubmitRing) (a : Act) : Option SubmitRing :=
  if r.halt = none then some (r.act a) else none

/-! ## What one call does -/

section

variable {r : SubmitRing} {req : Request} {sqe : Sqe}

/-- At or above a positive mark an entry is free. -/
theorem room_of_mark (hlow : 1 ≤ r.sqeLowWaterMark) (h : r.sqeLowWaterMark ≤ r.remainedSqe) :
    r.sq.length < r.capacity := by
  unfold remainedSqe at h
  omega

theorem submitNow_of_room (entry : Request → Sqe) (room : r.sq.length < r.capacity) :
    r.submitNow entry req = r.prep (entry req) := by
  simp [submitNow, getIoUringSqe, room]

/-- With an entry free, the `switch` prepares the entry of the request's own kind. -/
theorem dispatch_of_room (hkind : req.sqe? = some sqe) (room : r.sq.length < r.capacity) :
    r.dispatch req = r.prep sqe := by
  unfold Request.sqe? at hkind
  unfold dispatch
  cases htype : req.ctx.type with
  | read =>
      simp only [htype, Option.some.injEq] at hkind
      exact hkind ▸ submitNow_of_room _ room
  | write =>
      simp only [htype, Option.some.injEq] at hkind
      exact hkind ▸ submitNow_of_room _ room
  | accept =>
      simp only [htype, Option.some.injEq] at hkind
      exact hkind ▸ submitNow_of_room _ room
  | wakeup => simp [htype] at hkind

/-- Below the mark a submit function queues the context. -/
theorem submit_of_low {entry : Request → Sqe} {ctx : IoContext}
    (low : r.remainedSqe < r.sqeLowWaterMark) :
    r.submit (submitNow entry) ctx = { r with
      calls := r.calls ++ [ctx]
      waitingSubmitQueue := r.waitingSubmitQueue ++ [⟨r.calls.length, ctx⟩]
      queued := r.queued ++ [⟨r.calls.length, ctx⟩] } := by
  have low' : ({ r with calls := r.calls ++ [ctx] } : SubmitRing).remainedSqe
      < r.sqeLowWaterMark := low
  simp only [submit, low', if_true]

/-- With enough entries free it prepares one at once. -/
theorem submit_of_room {entry : Request → Sqe} {ctx : IoContext} (hlow : 1 ≤ r.sqeLowWaterMark)
    (room : ¬ r.remainedSqe < r.sqeLowWaterMark) :
    r.submit (submitNow entry) ctx
      = prep (entry ⟨r.calls.length, ctx⟩) { r with calls := r.calls ++ [ctx] } := by
  have room' : ¬ ({ r with calls := r.calls ++ [ctx] } : SubmitRing).remainedSqe
      < r.sqeLowWaterMark := room
  have hfree := room_of_mark hlow (Nat.not_lt.mp room)
  simp only [submit, room', if_false]
  exact submitNow_of_room entry hfree

/-- The number of requests one call of `doingSubmitWaitingTask` serves. -/
def drained (r : SubmitRing) : ℕ :=
  min r.waitingSubmitQueue.length (min maxProcessPerLoop (r.remainedSqe - r.sqeLowWaterMark))

/-- The ring after the first `k` requests of the queue have been served. -/
def afterServing (k : ℕ) (r : SubmitRing) : SubmitRing :=
  { r with
    sq := r.sq ++ (r.waitingSubmitQueue.take k).filterMap Request.sqe?
    waitingSubmitQueue := r.waitingSubmitQueue.drop k }

/-- Only contexts that have an entry of their own kind wait. -/
def Waitable (r : SubmitRing) : Prop := ∀ req ∈ r.waitingSubmitQueue, (req.sqe?).isSome

theorem length_afterServing (hw : r.Waitable) {k : ℕ} (hk : k ≤ r.waitingSubmitQueue.length) :
    (r.afterServing k).sq.length = r.sq.length + k := by
  have hall : ((r.waitingSubmitQueue.take k).filterMap Request.sqe?).length =
      (r.waitingSubmitQueue.take k).length :=
    List.filterMap_length_eq_length.mpr fun req hmem => hw req (List.mem_of_mem_take hmem)
  simp only [afterServing, List.length_append, hall, List.length_take]
  omega

/-- One turn of the loop serves one more request. -/
theorem drainBody_afterServing (hw : r.Waitable) {k : ℕ} (hk : k < r.waitingSubmitQueue.length)
    (room : (r.afterServing k).sq.length < r.capacity) :
    drainBody (r.afterServing k, k) = (r.afterServing (k + 1), k + 1) := by
  have hdrop : r.waitingSubmitQueue.drop k =
      r.waitingSubmitQueue[k] :: r.waitingSubmitQueue.drop (k + 1) :=
    List.drop_eq_getElem_cons hk
  obtain ⟨sqe, hkind⟩ := Option.isSome_iff_exists.mp (hw _ (List.getElem_mem hk))
  have hserve : (r.afterServing k).dispatch r.waitingSubmitQueue[k] =
      (r.afterServing k).prep sqe := dispatch_of_room hkind room
  have htake : (r.waitingSubmitQueue.take (k + 1)).filterMap Request.sqe? =
      (r.waitingSubmitQueue.take k).filterMap Request.sqe? ++ [sqe] := by
    rw [List.take_succ_eq_append_getElem hk, List.filterMap_append]
    simp [hkind]
  show (match r.waitingSubmitQueue.drop k with
    | [] => (r.afterServing k, k)
    | req :: rest =>
        ({ (r.afterServing k).dispatch req with waitingSubmitQueue := rest }, k + 1)) = _
  simp only [hdrop, hserve]
  simp only [prep, afterServing, htake, List.append_assoc]

/-- **What `doingSubmitWaitingTask` does**: the first `drained` requests of the queue become
entries of their own kind, in order, and nothing else changes. -/
theorem doingSubmitWaitingTask_eq (hw : r.Waitable) :
    r.doingSubmitWaitingTask = r.afterServing r.drained := by
  -- after `processed` turns the ring is the one that has served `processed` requests
  have hloop := Loop.whileLoop_total
    (P := fun p : SubmitRing × ℕ => p.1 = r.afterServing p.2 ∧ p.2 ≤ r.drained)
    (c := drainTest) (f := drainBody) (fun p => maxProcessPerLoop - p.2) ?_
    maxProcessPerLoop (r, 0) ⟨by simp [afterServing], Nat.zero_le _⟩ (by simp)
  · obtain ⟨⟨hring, hle⟩, hstop⟩ := hloop
    unfold doingSubmitWaitingTask
    generalize Loop.whileLoop drainTest drainBody maxProcessPerLoop (r, 0) = p at hring hle hstop
    have hlen := length_afterServing hw (Nat.le_trans hle (Nat.min_le_left _ _))
    have hk : p.2 = r.drained := by
      refine Nat.le_antisymm hle ?_
      rw [drainTest, hring] at hstop
      by_contra hlt
      refine absurd hstop ?_
      simp only [decide_eq_false_iff_not, not_not, remainedSqe, hlen]
      unfold drained remainedSqe at hlt
      refine ⟨?_, ?_, ?_⟩
      · show r.waitingSubmitQueue.drop p.2 ≠ []
        rw [ne_eq, List.drop_eq_nil_iff]
        omega
      · show r.sqeLowWaterMark < r.capacity - (r.sq.length + p.2)
        omega
      · omega
    rw [hring, hk]
  · rintro ⟨t, k⟩ ⟨hring, hle⟩ htest
    replace hring : t = r.afterServing k := hring
    subst hring
    have hlen := length_afterServing hw (Nat.le_trans hle (Nat.min_le_left _ _))
    simp only [drainTest, decide_eq_true_eq, remainedSqe, hlen] at htest
    obtain ⟨hne, hroom, hmax⟩ := htest
    replace hne : r.waitingSubmitQueue.drop k ≠ [] := hne
    replace hroom : r.sqeLowWaterMark < r.capacity - (r.sq.length + k) := hroom
    rw [ne_eq, List.drop_eq_nil_iff, Nat.not_le] at hne
    have hroom' : (r.afterServing k).sq.length < r.capacity := by
      replace hlen : (r.afterServing k).sq.length = r.sq.length + k := hlen
      omega
    rw [drainBody_afterServing hw hne hroom']
    refine ⟨⟨rfl, ?_⟩, ?_⟩
    · show k + 1 ≤ r.drained
      unfold drained remainedSqe
      omega
    · show maxProcessPerLoop - (k + 1) < maxProcessPerLoop - k
      omega

end

/-! ## Conservation -/

/-- Every entry prepared so far, in order. -/
def made (r : SubmitRing) : List Sqe := r.submitted ++ r.sq

/-- The calls that have become entries, in the order of the entries. -/
def served (r : SubmitRing) : List Request := r.made.filterMap Sqe.request?

/-- The calls made so far, with their tickets. -/
def requests (r : SubmitRing) : List Request := r.calls.zipIdx.map fun c => ⟨c.2, c.1⟩

/-- **No request is lost, doubled or overtaken.** -/
structure Conserved (r : SubmitRing) : Prop where
  noAssert : r.halt ≠ some .assertFailed
  /-- Each call is an entry or waits, and only calls are. -/
  once : (r.served ++ r.waitingSubmitQueue).Perm r.requests
  ownKind : ∀ sqe ∈ r.made, ∀ req, sqe.request? = some req → req.sqe? = some sqe
  waitable : r.Waitable
  /-- What was queued and is served by now comes before what still waits. -/
  fifo : r.served.filter (· ∈ r.queued) ++ r.waitingSubmitQueue = r.queued

section

variable {r r' : SubmitRing} {req : Request} {sqe : Sqe}

theorem create_conserved (capacity lowWaterMark : ℕ) :
    (create capacity lowWaterMark).Conserved where
  noAssert := by simp [create]
  once := .nil
  ownKind := by simp [made, create]
  waitable := by simp [Waitable, create]
  fifo := rfl

/-- Steps that leave the entries, the queue and the calls as they are. -/
theorem Conserved.keep (hs : r.Conserved) (halt : r'.halt ≠ some .assertFailed)
    (hmade : r'.made = r.made)
    (hwaiting : r'.waitingSubmitQueue = r.waitingSubmitQueue := by rfl)
    (hcalls : r'.calls = r.calls := by rfl) (hqueued : r'.queued = r.queued := by rfl) :
    r'.Conserved where
  noAssert := halt
  once := by
    have h := hs.once
    simpa only [served, requests, hmade, hwaiting, hcalls] using h
  ownKind := hmade ▸ hs.ownKind
  waitable := by
    unfold Waitable
    exact hwaiting ▸ hs.waitable
  fifo := by
    have h := hs.fifo
    simpa only [served, hmade, hwaiting, hqueued] using h

/-- A call that has been made has a ticket below the number of calls. -/
theorem ticket_lt (h : req ∈ r.requests) : req.ticket < r.calls.length := by
  simp only [requests, List.mem_map] at h
  obtain ⟨c, hmem, rfl⟩ := h
  exact List.snd_lt_of_mem_zipIdx hmem

theorem requests_of_calls {ctx : IoContext} (h : r'.calls = r.calls ++ [ctx]) :
    r'.requests = r.requests ++ [⟨r.calls.length, ctx⟩] := by
  simp [requests, h, List.zipIdx_append]

/-- The next call is new: it is neither an entry nor has it ever been queued. -/
theorem Conserved.fresh (hs : r.Conserved) (req : Request) (h : req.ticket = r.calls.length) :
    req ∉ r.served ∧ req ∉ r.waitingSubmitQueue ∧ req ∉ r.queued := by
  have hnot : req ∉ r.served ++ r.waitingSubmitQueue := by
    intro hmem
    have := ticket_lt (hs.once.mem_iff.mp hmem)
    omega
  rw [List.mem_append, not_or] at hnot
  refine ⟨hnot.1, hnot.2, ?_⟩
  rw [← hs.fifo, List.mem_append, not_or]
  exact ⟨fun hmem => hnot.1 (List.mem_of_mem_filter hmem), hnot.2⟩

/-- Taking an entry that belongs to no call. -/
theorem Conserved.own (hs : r.Conserved) (hnone : sqe.request? = none)
    (halt : r'.halt ≠ some .assertFailed) (hmade : r'.made = r.made ++ [sqe])
    (hwaiting : r'.waitingSubmitQueue = r.waitingSubmitQueue := by rfl)
    (hcalls : r'.calls = r.calls := by rfl) (hqueued : r'.queued = r.queued := by rfl) :
    r'.Conserved := by
  have hserved : r'.served = r.served := by simp [served, hmade, hnone]
  refine ⟨halt, ?_, ?_, ?_, ?_⟩
  · have h := hs.once
    simpa only [requests, hserved, hwaiting, hcalls] using h
  · intro q hq req hreq
    rw [hmade, List.mem_append, List.mem_singleton] at hq
    rcases hq with hq | rfl
    · exact hs.ownKind q hq req hreq
    · exact absurd (hnone.symm.trans hreq) (by simp)
  · unfold Waitable
    exact hwaiting ▸ hs.waitable
  · have h := hs.fifo
    simpa only [hserved, hwaiting, hqueued] using h

theorem forced_conserved (hs : r.Conserved) (hnone : sqe.request? = none) :
    (r.forced sqe).Conserved := by
  unfold forced getIoUringSqe
  by_cases hroom : r.sq.length < r.capacity
  · rw [if_pos hroom]
    exact hs.own hnone hs.noAssert (by simp [made, prep])
  · rw [if_neg hroom, if_pos rfl]
    by_cases hcap : r.ioUringSubmit.sq.length < r.capacity
    · rw [if_pos hcap]
      exact hs.own hnone hs.noAssert (by simp [made, prep, ioUringSubmit])
    · rw [if_neg hcap]
      exact hs.keep (by simp) (by simp [made, ioUringSubmit])

theorem ioUringSubmit_conserved (hs : r.Conserved) : r.ioUringSubmit.Conserved :=
  hs.keep hs.noAssert (by simp [made, ioUringSubmit])

theorem submitCancel_conserved (hs : r.Conserved) (addr : ℕ) :
    (r.submitCancel addr).Conserved := by
  have hforced : (r.forced (.cancel addr)).Conserved := forced_conserved hs rfl
  unfold submitCancel
  by_cases halt : (r.forced (.cancel addr)).halt = none
  · simpa only [halt, if_true] using ioUringSubmit_conserved hforced
  · simpa only [halt, if_false] using hforced

/-- Below the mark the call waits behind the others. -/
theorem Conserved.enqueue (hs : r.Conserved) {ctx : IoContext}
    (hkind : ((⟨r.calls.length, ctx⟩ : Request).sqe?).isSome) :
    ({ r with
      calls := r.calls ++ [ctx]
      waitingSubmitQueue := r.waitingSubmitQueue ++ [⟨r.calls.length, ctx⟩]
      queued := r.queued ++ [⟨r.calls.length, ctx⟩] } : SubmitRing).Conserved := by
  obtain ⟨hserved, -, -⟩ := hs.fresh ⟨r.calls.length, ctx⟩ rfl
  refine ⟨hs.noAssert, ?_, hs.ownKind, ?_, ?_⟩
  · rw [requests_of_calls rfl]
    show (r.served ++ (r.waitingSubmitQueue ++ [(⟨r.calls.length, ctx⟩ : Request)])).Perm _
    rw [← List.append_assoc]
    exact hs.once.append_right _
  · intro req hmem
    rw [List.mem_append, List.mem_singleton] at hmem
    rcases hmem with hmem | rfl
    · exact hs.waitable req hmem
    · exact hkind
  · -- the new ticket is not among the served ones, so the filter selects what it selected
    have hsame : r.served.filter (· ∈ r.queued ++ [⟨r.calls.length, ctx⟩]) =
        r.served.filter (· ∈ r.queued) := by
      refine List.filter_congr fun req hmem => ?_
      have hne : req ≠ ⟨r.calls.length, ctx⟩ := fun h => hserved (h ▸ hmem)
      simp [hne]
    show r.served.filter (· ∈ r.queued ++ [⟨r.calls.length, ctx⟩]) ++
      (r.waitingSubmitQueue ++ [⟨r.calls.length, ctx⟩]) = _
    rw [hsame, ← List.append_assoc, hs.fifo]

/-- At or above the mark the call gets its entry at once. -/
theorem Conserved.direct (hs : r.Conserved) {ctx : IoContext}
    (hkind : (⟨r.calls.length, ctx⟩ : Request).sqe? = some sqe) :
    (prep sqe { r with calls := r.calls ++ [ctx] }).Conserved := by
  have hreq := Request.request?_of_sqe? hkind
  obtain ⟨-, -, hqueued⟩ := hs.fresh ⟨r.calls.length, ctx⟩ rfl
  have hserved : (prep sqe { r with calls := r.calls ++ [ctx] }).served =
      r.served ++ [⟨r.calls.length, ctx⟩] := by
    simp [served, made, prep, hreq]
  refine ⟨hs.noAssert, ?_, ?_, hs.waitable, ?_⟩
  · rw [hserved, requests_of_calls (r := r) rfl, List.append_assoc]
    refine (List.perm_append_comm.append_left _).trans ?_
    rw [← List.append_assoc]
    exact hs.once.append_right _
  · intro q hq req' hreq'
    have hq' : q ∈ r.made ++ [sqe] := by simpa [made, prep] using hq
    rw [List.mem_append, List.mem_singleton] at hq'
    rcases hq' with hq' | rfl
    · exact hs.ownKind q hq' req' hreq'
    · cases hreq.symm.trans hreq'
      exact hkind
  · rw [hserved]
    show (r.served ++ [(⟨r.calls.length, ctx⟩ : Request)]).filter (· ∈ r.queued) ++
      r.waitingSubmitQueue = r.queued
    have hskip : [(⟨r.calls.length, ctx⟩ : Request)].filter (· ∈ r.queued) = [] := by
      simp [hqueued]
    rw [List.filter_append, hskip, List.append_nil, hs.fifo]

/-- The three submit functions, for the mark the loop is created with. -/
theorem submit_conserved (hs : r.Conserved) (hlow : 1 ≤ r.sqeLowWaterMark)
    (entry : Request → Sqe) {ctx : IoContext}
    (hkind : ∀ t, (⟨t, ctx⟩ : Request).sqe? = some (entry ⟨t, ctx⟩)) :
    (r.submit (submitNow entry) ctx).Conserved := by
  unfold submit
  by_cases hless : r.remainedSqe < r.sqeLowWaterMark
  · have hless' : ({ r with calls := r.calls ++ [ctx] } : SubmitRing).remainedSqe <
        r.sqeLowWaterMark := hless
    simp only [hless', if_true]
    exact hs.enqueue (by simp [hkind])
  · have hless' : ¬({ r with calls := r.calls ++ [ctx] } : SubmitRing).remainedSqe <
        r.sqeLowWaterMark := hless
    have hroom := room_of_mark hlow (Nat.not_lt.mp hless)
    simp only [hless', if_false]
    rw [submitNow_of_room entry (by exact hroom)]
    exact hs.direct (hkind _)

/-- The entries prepared for the front of the queue are those of its requests, in order. -/
theorem served_afterServing (hw : r.Waitable) (k : ℕ) :
    (r.afterServing k).served = r.served ++ r.waitingSubmitQueue.take k := by
  have hfront : ((r.waitingSubmitQueue.take k).filterMap Request.sqe?).filterMap Sqe.request? =
      r.waitingSubmitQueue.take k := by
    rw [List.filterMap_filterMap]
    conv_rhs => rw [← List.filterMap_some (l := r.waitingSubmitQueue.take k)]
    refine List.filterMap_congr fun req hmem => ?_
    obtain ⟨sqe, hkind⟩ := Option.isSome_iff_exists.mp (hw req (List.mem_of_mem_take hmem))
    rw [hkind, Option.bind_some, Request.request?_of_sqe? hkind]
  simp only [served, made, afterServing, List.filterMap_append, hfront, List.append_assoc]

/-- Serving the front of the queue. -/
theorem afterServing_conserved (hs : r.Conserved) (k : ℕ) : (r.afterServing k).Conserved := by
  have hserved := served_afterServing hs.waitable k
  refine ⟨hs.noAssert, ?_, ?_, ?_, ?_⟩
  · rw [hserved, List.append_assoc]
    show (r.served ++ (r.waitingSubmitQueue.take k ++ r.waitingSubmitQueue.drop k)).Perm r.requests
    rw [List.take_append_drop]
    exact hs.once
  · intro q hq req hreq
    have hq' : q ∈ r.made ++ (r.waitingSubmitQueue.take k).filterMap Request.sqe? := by
      simpa [made, afterServing] using hq
    rw [List.mem_append, List.mem_filterMap] at hq'
    rcases hq' with hq' | ⟨req', -, hkind⟩
    · exact hs.ownKind q hq' req hreq
    · cases (Request.request?_of_sqe? hkind).symm.trans hreq
      exact hkind
  · exact fun req hmem => hs.waitable req (List.mem_of_mem_drop hmem)
  · rw [hserved]
    show (r.served ++ r.waitingSubmitQueue.take k).filter (· ∈ r.queued) ++
      r.waitingSubmitQueue.drop k = r.queued
    -- whatever waits has been queued
    have hall : (r.waitingSubmitQueue.take k).filter (· ∈ r.queued) =
        r.waitingSubmitQueue.take k := by
      refine List.filter_eq_self.mpr fun req hmem => ?_
      have hq : req ∈ r.queued := by
        rw [← hs.fifo]
        exact List.mem_append_right _ (List.mem_of_mem_take hmem)
      simpa using hq
    rw [List.filter_append, hall, List.append_assoc, List.take_append_drop, hs.fifo]

end

/-- One call keeps the invariant, and the mark. -/
theorem act_conserved {r : SubmitRing} (a : Act) (hlow : 1 ≤ r.sqeLowWaterMark)
    (hs : r.Conserved) : (r.act a).Conserved := by
  cases a with
  | submitReadMultishut => exact submit_conserved hs hlow .recvMultishot fun _ => rfl
  | submitWriteMsg => exact submit_conserved hs hlow .writev fun _ => rfl
  | submitAcceptMultishut => exact submit_conserved hs hlow .acceptMultishot fun _ => rfl
  | submitCancel addr => exact submitCancel_conserved hs addr
  | onCompletion => exact forced_conserved hs rfl
  | ioUringSubmit => exact ioUringSubmit_conserved hs
  | doingSubmitWaitingTask =>
      show r.doingSubmitWaitingTask.Conserved
      rw [doingSubmitWaitingTask_eq hs.waitable]
      exact afterServing_conserved hs _

/-- No call changes the size of the ring or the mark. -/
theorem act_mark {r : SubmitRing} (a : Act) (hw : r.Waitable) :
    (r.act a).sqeLowWaterMark = r.sqeLowWaterMark := by
  have hforced : ∀ sqe, (r.forced sqe).sqeLowWaterMark = r.sqeLowWaterMark := by
    intro sqe
    unfold forced getIoUringSqe
    split_ifs <;> rfl
  have hsubmit : ∀ entry ctx,
      (r.submit (submitNow entry) ctx).sqeLowWaterMark = r.sqeLowWaterMark := by
    intro entry ctx
    unfold submit submitNow getIoUringSqe
    dsimp only
    split_ifs <;> rfl
  cases a with
  | submitReadMultishut => exact hsubmit _ _
  | submitWriteMsg => exact hsubmit _ _
  | submitAcceptMultishut => exact hsubmit _ _
  | submitCancel addr =>
      show (r.submitCancel addr).sqeLowWaterMark = _
      unfold submitCancel
      dsimp only
      split_ifs <;> exact hforced _
  | onCompletion => exact hforced _
  | ioUringSubmit => rfl
  | doingSubmitWaitingTask =>
      show r.doingSubmitWaitingTask.sqeLowWaterMark = _
      rw [doingSubmitWaitingTask_eq hw]
      rfl

theorem reach_conserved {capacity lowWaterMark : ℕ} (hlow : 1 ≤ lowWaterMark) {r : SubmitRing}
    (run : Reach step anyStep (create capacity lowWaterMark) r) :
    r.Conserved ∧ r.sqeLowWaterMark = lowWaterMark := by
  refine run.invariant (P := fun r => r.Conserved ∧ r.sqeLowWaterMark = lowWaterMark)
    ⟨create_conserved _ _, rfl⟩ ?_
  rintro s a s' ⟨hs, hmark⟩ - move
  unfold step at move
  split at move
  · cases move
    exact ⟨act_conserved a (hmark ▸ hlow) hs, (act_mark a hs.waitable).trans hmark⟩
  · cases move

end SubmitRing

end Proactor
