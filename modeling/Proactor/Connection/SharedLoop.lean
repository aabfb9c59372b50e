import Proactor.Connection.Requests
import Proactor.IoUring.SubmitQueue

/-!
# The connections of a loop and the queues they share

`Session` gives each connection a queue of functors and a queue of requests that wait for an SQE of
its own, and takes `remainedSqe() < sqe_low_water_mark_` as something that changes at any time.  An
`IoUringLoop` has one `pendingFunctors_`, one `waiting_submit_queue_` and one ring for all its
connections.  `SharedLoop` is that loop: its connections, the shared queue of functors and the
`SubmitRing`, with the loop thread at work on one connection at a time.

A step of a connection is a step of `Session`, which finds the ring as it is at that moment.  What
the step has asked for is then asked of the ring and of the shared queue.  The functors, on the
other hand, and the waiting requests are taken from the shared queues, and their owners are told.
`SharedQueues` shows that the two sides agree.

* `SharedLoop.step` — what the loop thread, the pool threads and the kernel do.
* the `_shares` lemmas — what each call does to the queues, as far as connections are concerned.
* `Session.Reached.serve_all` — what `doingSubmitWaitingTask` does to one connection.
-/

namespace Proactor

open Transition

namespace SubmitRing

/-- The connection a context belongs to, and which of its two contexts it is. -/
def IoContext.owner? (ctx : IoContext) : Option (ℕ × Proactor.ContextType) :=
  match ctx.type with
  | .read => some (ctx.addr / 2, .read)
  | .write => some (ctx.addr / 2, .write)
  | .accept => none
  | .wakeup => none

/-- The connection an entry was prepared for. -/
def Sqe.owner? : Sqe → Option (ℕ × SqeKind)
  | .recvMultishot req => some (req.ctx.addr / 2, .recv)
  | .writev req => some (req.ctx.addr / 2, .writev)
  | .cancel addr => some (addr / 2, .cancel)
  | .acceptMultishot _ => none
  | .readEventfd => none

/-- `waiting_submit_queue_`, as far as it belongs to connections. -/
def waiters (r : SubmitRing) : List (ℕ × Proactor.ContextType) :=
  r.waitingSubmitQueue.filterMap fun req => req.ctx.owner?

/-- The entries prepared for connections. -/
def entries (r : SubmitRing) : List (ℕ × SqeKind) := r.made.filterMap Sqe.owner?

end SubmitRing

structure SharedLoop where
  ring : SubmitRing
  /-- `pendingFunctors_`, with the connection of each functor. -/
  pendingFunctors : List (ℕ × QueuedFunctor)
  conns : List Session

inductive SharedAct
  /-- `newConnection`, which always queues `Established`. -/
  | connect (inputHwm inputHwmChunk outputHwm maxSlices : ℕ)
  /-- An acceptor of a program's own that calls `Established` at once, on this loop's thread. -/
  | connectInLoop (inputHwm inputHwmChunk outputHwm maxSlices : ℕ)
  /-- Something happens to one connection. -/
  | conn (conn : ℕ) (act : SessionAct)
  /-- `doingPendingFunctors` runs the first functor. -/
  | functor
  | doingSubmitWaitingTask
  | submitAcceptMultishut (addr : ℕ)
  /-- The eventfd has been read. -/
  | onCompletion
  | ioUringSubmit

/-- What the loop does for all its connections together. -/
def SessionAct.ofLoop : SessionAct → Bool
  | .functor | .drain | .pressure _ => true
  | _ => false

/-- `_submitReadMultishut` or `_submitWriteMsg`, for a context taken from the queue. -/
def Session.serve (c : ContextType) (s : Session) : Session :=
  let s := { s with waiting := s.waiting.tail }
  match c with
  | .read => s.prepareRead
  | .write => s.prepareWrite

namespace SharedLoop

def create (capacity lowWaterMark : ℕ) : SharedLoop where
  ring := .create capacity lowWaterMark
  pendingFunctors := []
  conns := []

/-- `remainedSqe() < sqe_low_water_mark_` -/
def low (l : SharedLoop) : Bool := decide (l.ring.remainedSqe < l.ring.sqeLowWaterMark)

/-- The connection as it finds the ring. -/
def facing (l : SharedLoop) (s : Session) : Session := { s with sqeLow := l.low }

/-- The loop thread is not inside a handler or functor. -/
def idle (l : SharedLoop) : Bool := l.conns.all fun s => decide (s.ctl = .idle)

/-- The process is gone. -/
def ended (l : SharedLoop) : Bool :=
  decide (l.ring.halt ≠ none) || l.conns.any fun s => s.fault.isSome

/-- The call of the loop that a request of connection `i` is made with.  The contexts of the
connection are at addresses `2 * i` and `2 * i + 1`. -/
def callOf (i : ℕ) : SqeKind → SubmitRing.Act
  | .recv => .submitReadMultishut (2 * i)
  | .writev => .submitWriteMsg (2 * i + 1)
  | .cancel => .submitCancel (2 * i)

/-- The calls connection `i` has made on its way from `s` to `t`. -/
def calls (i : ℕ) (s t : Session) : List SubmitRing.Act :=
  (t.sqes.drop s.sqes.length).map (fun sqe => callOf i sqe.kind) ++
    (t.waiting.drop s.waiting.length).map fun c => callOf i c.kind

/-- Connection `i` has gone from `s` to `t`. -/
def put (l : SharedLoop) (i : ℕ) (s t : Session) : SharedLoop where
  ring := (calls i s t).foldl (fun r a => r.act a) l.ring
  pendingFunctors := l.pendingFunctors ++ (t.functors.drop s.functors.length).map (Prod.mk i)
  conns := l.conns.set i t

/-- The requests that `doingSubmitWaitingTask` takes from the queue. -/
def front (l : SharedLoop) : List (ℕ × ContextType) :=
  (l.ring.doingSubmitWaitingTask.served.drop l.ring.served.length).filterMap
    fun req => req.ctx.owner?

/-- The connections when they have got their entries. -/
def served (l : SharedLoop) : List Session :=
  l.front.foldl (fun conns p => conns.modify p.1 (Session.serve p.2)) l.conns

def step (l : SharedLoop) (a : SharedAct) : Option SharedLoop :=
  if l.ended then none
  else match a with
    | .connect inputHwm inputHwmChunk outputHwm maxSlices =>
        some { l with
          pendingFunctors := l.pendingFunctors ++ [(l.conns.length, .established)]
          conns := l.conns ++ [.create inputHwm inputHwmChunk outputHwm maxSlices] }
    | .connectInLoop inputHwm inputHwmChunk outputHwm maxSlices =>
        if l.idle then
          ((Session.create inputHwm inputHwmChunk outputHwm maxSlices).step .functor).map fun t =>
            { l with conns := l.conns ++ [t] }
        else none
    | .conn i act =>
        if act.ofLoop || act.onLoopThread && !l.idle then none
        else (l.conns[i]?).bind fun s =>
          ((l.facing s).step act).map fun t => l.put i (l.facing s) t
    | .functor =>
        match l.pendingFunctors with
        | [] => none
        | (i, f) :: rest =>
            if l.idle then (l.conns[i]?).map fun s =>
              let s' := { l.facing s with functors := s.functors.tail }
              let t := (l.facing s).commit (s'.runFunctor f)
              if t.fault.isSome then { l with conns := l.conns.set i t }
              else { l with pendingFunctors := rest }.put i s' t
            else none
    | .doingSubmitWaitingTask =>
        if l.idle then
          some { l with ring := l.ring.doingSubmitWaitingTask, conns := l.served }
        else none
    | .submitAcceptMultishut addr =>
        if l.idle then some { l with ring := l.ring.submitAcceptMultishut addr } else none
    | .onCompletion => if l.idle then some { l with ring := l.ring.onCompletion } else none
    | .ioUringSubmit => if l.idle then some { l with ring := l.ring.ioUringSubmit } else none

end SharedLoop

/-! ## What the calls do to the shared queues -/

namespace SubmitRing

variable {r : SubmitRing}

theorem entries_prep (sqe : Sqe) (r : SubmitRing) :
    (r.prep sqe).entries = r.entries ++ sqe.owner?.toList := by
  cases h : sqe.owner? <;> simp [entries, made, prep, h]

theorem entries_ioUringSubmit (r : SubmitRing) : r.ioUringSubmit.entries = r.entries := by
  simp [entries, made, ioUringSubmit]

/-- A submit function below the mark. -/
theorem submit_low_shares (entry : Request → Sqe) (ctx : IoContext)
    (low : r.remainedSqe < r.sqeLowWaterMark) :
    (r.submit (submitNow entry) ctx).entries = r.entries ∧
      (r.submit (submitNow entry) ctx).waiters = r.waiters ++ ctx.owner?.toList := by
  rw [submit_of_low low]
  refine ⟨rfl, ?_⟩
  cases h : ctx.owner? <;> simp [waiters, h]

/-- A submit function with enough entries free. -/
theorem submit_room_shares (entry : Request → Sqe) (ctx : IoContext)
    (hlow : 1 ≤ r.sqeLowWaterMark)
    (room : ¬ r.remainedSqe < r.sqeLowWaterMark) :
    (r.submit (submitNow entry) ctx).entries
        = r.entries ++ (entry ⟨r.calls.length, ctx⟩).owner?.toList ∧
      (r.submit (submitNow entry) ctx).waiters = r.waiters := by
  rw [submit_of_room hlow room, entries_prep]
  exact ⟨rfl, rfl⟩

/-- An entry taken with `force_submit`. -/
theorem forced_shares (sqe : Sqe) (r : SubmitRing) :
    ((r.forced sqe).halt = none → (r.forced sqe).entries = r.entries ++ sqe.owner?.toList) ∧
      (r.forced sqe).waiters = r.waiters ∧
      (sqe.owner? = none → (r.forced sqe).entries = r.entries) := by
  unfold forced getIoUringSqe
  by_cases hroom : r.sq.length < r.capacity
  · rw [if_pos hroom]
    refine ⟨fun _ => entries_prep sqe r, rfl, fun h => ?_⟩
    simp only [entries_prep, h, Option.toList_none, List.append_nil]
  · rw [if_neg hroom, if_pos rfl]
    by_cases hcap : r.ioUringSubmit.sq.length < r.capacity
    · rw [if_pos hcap]
      refine ⟨fun _ => ?_, rfl, fun h => ?_⟩
      · simp only [entries_prep, entries_ioUringSubmit]
      · simp only [entries_prep, entries_ioUringSubmit, h, Option.toList_none, List.append_nil]
    · rw [if_neg hcap]
      exact ⟨fun h => by simp at h, rfl, fun _ => entries_ioUringSubmit r⟩

theorem submitCancel_shares (addr : ℕ) (ok : (r.submitCancel addr).halt = none) :
    (r.submitCancel addr).entries = r.entries ++ [(addr / 2, .cancel)] ∧
      (r.submitCancel addr).waiters = r.waiters := by
  obtain ⟨hentries, hwaiters, -⟩ := forced_shares (.cancel addr) r
  unfold submitCancel at ok ⊢
  by_cases halt : (r.forced (.cancel addr)).halt = none
  · simp only [halt, if_true] at ok ⊢
    exact ⟨(entries_ioUringSubmit _).trans (hentries halt), hwaiters⟩
  · simp only [halt, if_false] at ok

/-- The entry of a request belongs to the connection of its context. -/
theorem owner?_of_sqe? {req : Request} {sqe : Sqe} (h : req.sqe? = some sqe) :
    sqe.owner? = req.ctx.owner?.map fun p => (p.1, p.2.kind) := by
  unfold Request.sqe? at h
  cases htype : req.ctx.type with
  | read =>
      simp only [htype, Option.some.injEq] at h
      simp [← h, Sqe.owner?, IoContext.owner?, htype, ContextType.kind]
  | write =>
      simp only [htype, Option.some.injEq] at h
      simp [← h, Sqe.owner?, IoContext.owner?, htype, ContextType.kind]
  | accept =>
      simp only [htype, Option.some.injEq] at h
      simp [← h, Sqe.owner?, IoContext.owner?, htype]
  | wakeup => simp [htype] at h

/-- **What `doingSubmitWaitingTask` does to the shared queues.** -/
theorem doingSubmitWaitingTask_shares (hw : r.Waitable) :
    ∃ k, (r.doingSubmitWaitingTask.served.drop r.served.length) = r.waitingSubmitQueue.take k ∧
      r.doingSubmitWaitingTask.waitingSubmitQueue = r.waitingSubmitQueue.drop k ∧
      r.doingSubmitWaitingTask.entries = r.entries ++
        ((r.waitingSubmitQueue.take k).filterMap fun req => req.ctx.owner?).map
          fun p => (p.1, p.2.kind) := by
  rw [doingSubmitWaitingTask_eq hw]
  refine ⟨r.drained, ?_, rfl, ?_⟩
  · rw [served_afterServing hw, List.drop_left]
  · have hfront : ((r.waitingSubmitQueue.take r.drained).filterMap Request.sqe?).filterMap
        Sqe.owner? = ((r.waitingSubmitQueue.take r.drained).filterMap
          fun req => req.ctx.owner?).map fun p => (p.1, p.2.kind) := by
      rw [List.filterMap_filterMap, List.map_filterMap]
      refine List.filterMap_congr fun req hmem => ?_
      obtain ⟨sqe, hkind⟩ := Option.isSome_iff_exists.mp (hw req (List.mem_of_mem_take hmem))
      rw [hkind, Option.bind_some, owner?_of_sqe? hkind]
    simp only [entries, made, afterServing, List.filterMap_append, hfront, List.append_assoc]

end SubmitRing

/-! ## One connection -/

namespace Session

variable {s t : Session}

/-- A connection may find the ring in any state. -/
theorem Reached.pressure (h : s.Reached) (ok : s.fault = none) (low : Bool) :
    Reached { s with sqeLow := low } :=
  h.step (a := .pressure low) (by simp [Session.step, ok])

/-- Its first waiting request gets an entry. -/
theorem Reached.serve (h : s.Reached) (ok : s.fault = none) (idle : s.ctl = .idle)
    {c : ContextType} {cs : List ContextType} (head : s.waiting = c :: cs) :
    (s.serve c).Reached := by
  have hroom := h.pressure ok false
  have hdrain : Session.step { s with sqeLow := false } .drain
      = some { s.serve c with sqeLow := false } := by
    cases c <;> simp [Session.step, ok, idle, head, Session.serve, prepareRead, prepareWrite]
  have hback := (hroom.step hdrain).pressure (by cases c <;> exact ok) s.sqeLow
  cases c <;> exact hback

/-- The requests of a connection that `doingSubmitWaitingTask` has taken have got their entries. -/
theorem Reached.serve_all (h : s.Reached) (ok : s.fault = none) (idle : s.ctl = .idle)
    {cs rest : List ContextType} (hwaiting : s.waiting = cs ++ rest)
    (ht : t = cs.foldl (fun s c => s.serve c) s) :
    t.Reached ∧ t.waiting = rest ∧
      t.sqes.map Sqe.kind = s.sqes.map Sqe.kind ++ cs.map ContextType.kind ∧
      t.functors = s.functors ∧ t.ctl = .idle := by
  induction cs generalizing s with
  | nil =>
      rw [List.foldl_nil] at ht
      subst ht
      exact ⟨h, hwaiting, by simp, rfl, idle⟩
  | cons c cs ih =>
      have hserve := h.serve ok idle hwaiting
      have htail : (s.serve c).waiting = cs ++ rest := by
        cases c <;> simp [Session.serve, prepareRead, prepareWrite, hwaiting]
      have hsqes : (s.serve c).sqes.map Sqe.kind = s.sqes.map Sqe.kind ++ [c.kind] := by
        cases c <;> simp [Session.serve, prepareRead, prepareWrite, ContextType.kind]
      obtain ⟨hreached, hrest, hmade, hfunctors, hidle⟩ :=
        ih hserve (by cases c <;> exact ok) (by cases c <;> exact idle) htail ht
      refine ⟨hreached, hrest, ?_, ?_, hidle⟩
      · rw [hmade, hsqes, List.append_assoc, List.map_cons, List.singleton_append]
      · rw [hfunctors]
        cases c <;> rfl

end Session

end Proactor
