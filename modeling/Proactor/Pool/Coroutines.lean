import Proactor.Connection.Requests
import Proactor.Pool.ThreadPool

/-!
# The coroutines of the connections in the thread pool

`Session` has a flag for "the handle is in the queue of the thread pool" and lets a pool thread take
the handle whenever the flag is set; `ThreadPool` has the queue, the workers and the destructor, and
numbers for coroutines.  `CoPool` is both: one pool and the connections, of any loops, whose
coroutines switch to it.  `switchThread` is cut where the source is: `await_ready` looks at the
queue without the lock, and `await_suspend` pushes the handle later; in the meantime the coroutine
is on its way and does nothing else.

* `ThreadPool.Hands` — what a step of the pool does to the handles that wait to be resumed.
* `shared_thread_pool_refines` — every connection in a run is a run of `Session`, the pool is a run
  of `ThreadPool`, the flag of a connection says whether its handle is in the pool, where it is
  only once, and a worker that has popped the handle of a live coroutine finds it suspended there.

When `resume()` of a worker returns is left open.
-/

namespace Proactor

open Transition

/-- The handle this worker has popped and not resumed yet. -/
def WorkerPc.holding? : WorkerPc → Option ℕ
  | .took k => some k
  | _ => none

namespace ThreadPool

/-- The handles that have been enqueued and not been resumed. -/
def pending (s : ThreadPool) : List ℕ := s.tasks ++ s.workers.filterMap WorkerPc.holding?

/-- **What a step of the pool does to these handles.** -/
inductive Hands (s : ThreadPool) (a : Act) (s' : ThreadPool) : Prop
  | kept (other : a ≠ .enqueue) (busy : ∀ i k, a = .worker i → s.workers[i]? ≠ some (.took k))
      (pending : s'.pending.Perm s.pending) (enqueued : s'.enqueued = s.enqueued)
  | pushed (call : a = .enqueue) (pending : s'.pending.Perm (s.enqueued :: s.pending))
      (enqueued : s'.enqueued = s.enqueued + 1)
  | resumed {i k : ℕ} (worker : a = .worker i) (place : s.workers[i]? = some (.took k))
      (pending : s.pending.Perm (k :: s'.pending)) (enqueued : s'.enqueued = s.enqueued)

section

variable {s s' : ThreadPool} {a : Act}

/-- A worker that goes on without a handle. -/
theorem pending_move {i : ℕ} {pc pc' : WorkerPc} (place : s.workers[i]? = some pc)
    (h : pc.holding? = none := by rfl) (h' : pc'.holding? = none := by rfl) :
    (s.move i pc').pending = s.pending := by
  rw [pending, ThreadPool.move, Slots.filterMap_set_of_eq place (h'.trans h.symm)]
  rfl

theorem pending_notifyAll (s : ThreadPool) :
    (s.workers.map WorkerPc.notify).filterMap WorkerPc.holding?
      = s.workers.filterMap WorkerPc.holding? := by
  rw [List.filterMap_map]
  refine List.filterMap_congr fun w _ => ?_
  cases w <;> rfl

/-- The steps of a worker that is not about to resume a handle. -/
theorem Hands.idle {i : ℕ} {pc : WorkerPc} (place : s.workers[i]? = some pc)
    (h : pc.holding? = none) (pending : s'.pending.Perm s.pending)
    (enqueued : s'.enqueued = s.enqueued) : Hands s (.worker i) s' := by
  refine .kept (by simp) ?_ pending enqueued
  rintro j k ha hj
  cases ha
  rw [place, Option.some.injEq] at hj
  subst hj
  cases h

theorem Move.hands (h : Move s a s') : Hands s a s' := by
  cases h with
  | lock place waits free =>
      refine .idle place ?_ (.of_eq (pending_move place ?_)) rfl
      · rcases waits with rfl | rfl <;> rfl
      · rcases waits with rfl | rfl <;> rfl
  | pass place => exact .idle place rfl (.of_eq (pending_move place)) rfl
  | wait place => exact .idle place rfl (.of_eq (pending_move place)) rfl
  | sleep place => exact .idle place rfl (.of_eq (pending_move place)) rfl
  | leave place => exact .idle place rfl (.of_eq (pending_move place)) rfl
  | undefined place => exact .idle place rfl (.of_eq (pending_move place)) rfl
  | @take i k tasks place head =>
      refine .idle place rfl ?_ rfl
      have hheld := Slots.filterMap_set_of_none (f := WorkerPc.holding?) (b := .took k) (c := k)
        place rfl rfl
      show (tasks ++ (s.workers.set i (.took k)).filterMap WorkerPc.holding?).Perm s.pending
      rw [pending, head, List.cons_append]
      exact (hheld.append_left tasks).trans List.perm_middle
  | @resume i k place =>
      refine .resumed rfl place ?_ rfl
      have hheld := Slots.filterMap_set_to_none (f := WorkerPc.holding?) (b := .inTask k)
        place rfl rfl
      exact (hheld.append_left s.tasks).trans List.perm_middle
  | finish place => exact .idle place rfl (.of_eq (pending_move place)) rfl
  | spurious place => exact .kept (by simp) (by simp) (.of_eq (pending_move place)) rfl
  | enqueue caller free =>
      refine .pushed rfl ?_ rfl
      show (s.tasks ++ [s.enqueued] ++ s.workers.filterMap WorkerPc.holding?).Perm _
      rw [List.append_assoc, List.singleton_append]
      exact List.perm_middle
  | notifyOne due place => exact .kept (by simp) (by simp) (.of_eq (pending_move place)) rfl
  | notifyAll =>
      refine .kept (by simp) (by simp) (.of_eq ?_) rfl
      show s.tasks ++ (s.workers.map WorkerPc.notify).filterMap WorkerPc.holding? = s.pending
      rw [pending_notifyAll]
      rfl
  | _ => exact .kept (by simp) (by simp) (.refl _) rfl

end

end ThreadPool

/-! ## The steps of a connection -/

/-- A step in which the pool has a part. -/
def SessionAct.ofPool : SessionAct → Bool
  | .co .switchThread | .poolTake => true
  | _ => false

namespace Session

variable {s t : Session} {a : SessionAct}

/-- The coroutine runs, and may act next. -/
def active (s : Session) : Prop := s.co = .onLoop ∨ s.co = .onWorker

instance (s : Session) : Decidable s.active := inferInstanceAs (Decidable (_ ∨ _))

theorem active.running (h : s.active) : running s.co = true := by
  rcases h with h | h <;> simp [h, Session.running]

theorem active.not_waiting (h : s.active) : ¬ (s.co = .inRecv ∨ s.co = .inSend) := by
  rcases h with h | h <;> simp [h]

/-- Without the pool the flag stays as it is. -/
theorem Move.pool_eq (h : Move s a t) (ha : a.ofPool = false) : t.pool = s.pool := by
  cases h with
  | readMore _ _ _ _ woke => cases woke <;> simp [took]
  | readStopped _ _ _ _ _ woke => cases woke <;> simp [took, endRead]
  | readAgain _ _ _ _ _ woke => cases woke <;> simp [took, submitRead_eq]
  | writeMore _ _ _ _ _ woke => cases woke <;> simp [wrote]
  | switchLoop => simp [SessionAct.ofPool] at ha
  | switchWorker => simp [SessionAct.ofPool] at ha
  | poolTake => simp [SessionAct.ofPool] at ha
  | _ =>
      simp [took, shut, endRead, endWrite, wrote, awaitRead_eq, prepareRead, prepareWrite,
        recvAwaitResume_eq, sendAwaitResume_eq, queueDestroyed]

/-- A coroutine that runs goes on running until it acts itself. -/
theorem Move.co_eq (h : Move s a t) (hl : s.Located) (run : s.active) (ha : a.isCo = false) :
    t.co = s.co := by
  have hread : s.ctl = .idle → 0 < s.kernelReads → s.read.readHandle = true → s.task = true →
      False := fun idle out handle alive =>
    run.not_waiting (hl.uses (a := .readCqe 0 [] true) (.read idle out handle) (by simp) alive)
  have hwrite : s.ctl = .idle → 0 < s.kernelWrites → s.write.writeHandle = true → s.task = true →
      False := fun idle out handle alive =>
    run.not_waiting (hl.uses (a := .writeCqe 0) (.write idle out handle) (by simp) alive)
  have hawait : ∀ {w fs}, s.ctl = .idle → s.functors = .await w :: fs → s.task = true →
      False := fun idle head alive =>
    run.not_waiting (hl.uses (a := .functor) (.await idle head) (by simp) alive)
  have htook := s.took_frame
  cases h with
  | @readMore res data _ idle out holder status woke =>
      cases woke with
      | asleep => rfl
      | woken handle alive => exact (hread idle out ((htook res data true).2.1 ▸ handle) alive).elim
  | @readStopped res data _ idle out holder fatal status woke =>
      cases woke with
      | asleep => rfl
      | woken handle alive =>
          exact (hread idle out ((htook res data false).2.1 ▸ handle) alive).elim
  | @readAgain res data _ idle out holder fatal status woke =>
      rw [submitRead_eq] at woke
      cases woke with
      | asleep => rfl
      | woken handle alive =>
          exact (hread idle out ((htook res data false).2.1 ▸ handle) alive).elim
  | readFatal idle out holder status fatal handle alive =>
      exact (hread idle out handle alive).elim
  | @writeMore res w flushed _ idle out holder fatal proceeds woke =>
      cases woke with
      | asleep => rfl
      | woken handle drained alive =>
          obtain ⟨-, -, -, hkept, -⟩ := WriteContext.proceed_frame proceeds
          rw [WriteContext.acknowledge_writeHandle] at hkept
          exact (hwrite idle out (hkept.symm.trans handle) alive).elim
  | writeFatal idle out holder fatal handle alive => exact (hwrite idle out handle alive).elim
  | established idle head =>
      have hunborn := hl.born.unborn head
      rcases run with h | h <;> simp [hunborn] at h
  | recvRegister => rw [awaitRead_eq]
  | recvResume idle head alive => exact (hawait idle head alive).elim
  | sendRegister => rfl
  | sendResume idle head alive => exact (hawait idle head alive).elim
  | enqueue here => rcases run with h | h <;> simp [here] at h
  | poolTake queued alive here => rcases run with h | h <;> simp [here] at h
  | recvReady | recvSuspend | sendLate | sendThrough | sendSuspend | switchLoop | retLoop
  | recvLate | sendLateWorker | recvLeave | sendLeave | switchWorker | retWorker | read =>
      simp [SessionAct.isCo] at ha
  | _ => rfl

theorem Move.switchThread_pool (h : Move s (.co .switchThread) t) : t.pool = true := by
  cases h with
  | abort fails =>
      cases fails with
      | emptyBatch starves => cases starves
      | notSuspended uses => cases uses
      | destroyRunning closes => cases closes
      | destroyedFrame uses => cases uses
  | switchLoop => rfl
  | switchWorker => rfl

theorem Move.poolTake_pool (h : Move s .poolTake t) (ok : t.fault = none) :
    s.pool = true ∧ t.pool = false := by
  cases h with
  | abort => simp at ok
  | poolTake queued => exact ⟨queued, rfl⟩

end Session

/-! ## The pool and the connections -/

structure CoPool where
  pool : ThreadPool
  /-- The connection of each handle, in the order in which they are enqueued. -/
  handles : List ℕ
  /-- The connections whose coroutine is in `await_suspend` of `switchThread`, before the push. -/
  switching : List ℕ
  conns : List Session

inductive CoPoolAct
  | connect (inputHwm inputHwmChunk outputHwm maxSlices : ℕ)
  /-- Something happens to a connection, without the pool. -/
  | conn (conn : ℕ) (act : SessionAct)
  /-- `await_ready` of `switchThread`. -/
  | awaitReady (conn : ℕ)
  /-- `await_suspend` of `switchThread`. -/
  | enqueue (conn : ℕ)
  | worker (i : ℕ)
  | spurious (i : ℕ)
  | notifyOne (i : Option ℕ)
  | stop
  | destroy

namespace CoPool

def create (threadNum queueSize : ℕ) : CoPool where
  pool := .create threadNum queueSize
  handles := []
  switching := []
  conns := []

/-- A step of the pool in which no coroutine has a part. -/
def alone (c : CoPool) (a : ThreadPool.Act) : Option CoPool :=
  (c.pool.step a).map fun p => { c with pool := p }

/-- `handel.resume()` in the lambda of worker `w`, which has popped handle `k`.  After a fault the
process is gone. -/
def resume (c : CoPool) (w k : ℕ) : Option CoPool :=
  (c.handles[k]?).bind fun i => (c.conns[i]?).bind fun s =>
    (s.step .poolTake).bind fun t =>
      if t.fault.isSome then some { c with conns := c.conns.set i t }
      else (c.pool.step (.worker w)).map fun p =>
        { c with pool := p, conns := c.conns.set i t }

def step (c : CoPool) (a : CoPoolAct) : Option CoPool :=
  if c.conns.any fun s => s.fault.isSome then none
  else match a with
    | .connect inputHwm inputHwmChunk outputHwm maxSlices =>
        some { c with conns := c.conns ++ [.create inputHwm inputHwmChunk outputHwm maxSlices] }
    | .conn i act =>
        if act.ofPool || act.isCo && decide (i ∈ c.switching) then none
        else (c.conns[i]?).bind fun s => (s.step act).map fun t =>
          { c with conns := c.conns.set i t }
    | .awaitReady i =>
        (c.conns[i]?).bind fun s =>
          if s.active ∧ i ∉ c.switching then
            (c.pool.step .awaitReady).map fun p => { c with
              pool := p
              switching := if c.pool.isFull then c.switching else c.switching ++ [i] }
          else none
    | .enqueue i =>
        if i ∈ c.switching then
          (c.conns[i]?).bind fun s => (s.step (.co .switchThread)).bind fun t =>
            (c.pool.step .enqueue).map fun p =>
              { pool := p
                handles := c.handles ++ [i]
                switching := c.switching.erase i
                conns := c.conns.set i t }
        else none
    | .worker w =>
        match c.pool.workers[w]? with
        | some (.took k) => c.resume w k
        | _ => c.alone (.worker w)
    | .spurious i => c.alone (.spurious i)
    | .notifyOne i => c.alone (.notifyOne i)
    | .stop => c.alone .stop
    | .destroy => c.alone .destroy

/-- The connections of the handles that wait to be resumed. -/
def pending (c : CoPool) : List ℕ := c.pool.pending.filterMap fun k => c.handles[k]?

/-- **What holds in every state reached.** -/
structure Sound (threadNum queueSize : ℕ) (c : CoPool) : Prop where
  session : ∀ s ∈ c.conns, s.Reached
  pool : Reach ThreadPool.step anyStep (.create threadNum queueSize) c.pool
  handles : c.handles.length = c.pool.enqueued
  known : ∀ k ∈ c.pool.pending, k < c.pool.enqueued
  /-- The flag of a connection says whether its handle waits, and it waits once. -/
  flag : ∀ i, c.pending.count i = (c.conns[i]?).elim 0 fun s => s.pool.toNat
  nodup : c.switching.Nodup
  /-- A coroutine on its way into the queue stays where it is. -/
  switching : ∀ i ∈ c.switching, ∃ s, c.conns[i]? = some s ∧ s.active

variable {c c' : CoPool} {i : ℕ} {s t : Session} {threadNum queueSize : ℕ}

theorem sound_create : Sound threadNum queueSize (create threadNum queueSize) where
  session := by simp [create]
  pool := .start
  handles := rfl
  known := by simp [create, ThreadPool.create, ThreadPool.pending, WorkerPc.holding?]
  flag := by simp [create, CoPool.pending, ThreadPool.create, ThreadPool.pending, WorkerPc.holding?]
  nodup := List.nodup_nil
  switching := by simp [create]

section

variable (h : Sound threadNum queueSize c)

include h in
theorem Sound.set_session (reached : t.Reached) : ∀ u ∈ c.conns.set i t, u.Reached := by
  intro u hu
  rcases List.mem_or_eq_of_mem_set hu with hu | rfl
  · exact h.session u hu
  · exact reached

include h in
/-- The flags after the handle of `i` has come or gone. -/
theorem Sound.set_flag (hi : c.conns[i]? = some s) {pending : List ℕ}
    (hothers : ∀ j, j ≠ i → pending.count j = c.pending.count j)
    (hown : pending.count i = t.pool.toNat) :
    ∀ j, pending.count j = ((c.conns.set i t)[j]?).elim 0 fun s => s.pool.toNat := by
  intro j
  obtain ⟨hlt, -⟩ := List.getElem?_eq_some_iff.mp hi
  by_cases hj : j = i
  · subst hj
    rw [List.getElem?_set_self hlt, Option.elim_some, hown]
  · rw [List.getElem?_set_ne (Ne.symm hj), hothers j hj, h.flag j]

include h in
theorem Sound.set_switching (hi : c.conns[i]? = some s) (hstay : i ∈ c.switching → t.active) :
    ∀ j ∈ c.switching, ∃ u, (c.conns.set i t)[j]? = some u ∧ u.active := by
  intro j hj
  obtain ⟨hlt, -⟩ := List.getElem?_eq_some_iff.mp hi
  by_cases hij : i = j
  · subst hij
    exact ⟨t, List.getElem?_set_self hlt, hstay hj⟩
  · rw [List.getElem?_set_ne hij]
    exact h.switching j hj

include h in
theorem Sound.flag_eq (hi : c.conns[i]? = some s) : c.pending.count i = s.pool.toNat := by
  rw [h.flag i, hi, Option.elim_some]

/-- A handle that has been enqueued keeps its connection. -/
theorem filterMap_handles {handles : List ℕ} {ks : List ℕ} (hks : ∀ k ∈ ks, k < handles.length)
    (new : List ℕ) :
    ks.filterMap (fun k => (handles ++ new)[k]?) = ks.filterMap fun k => handles[k]? := by
  refine List.filterMap_congr fun k hk => ?_
  rw [List.getElem?_append_left (hks k hk)]

include h in
theorem Sound.connect (a b d e : ℕ) :
    Sound threadNum queueSize { c with conns := c.conns ++ [.create a b d e] } where
  session := by
    intro u hu
    rcases List.mem_append.mp hu with hu | hu
    · exact h.session u hu
    · rw [List.mem_singleton.mp hu]
      exact ⟨a, b, d, e, .start⟩
  pool := h.pool
  handles := h.handles
  known := h.known
  flag := by
    intro j
    rw [show CoPool.pending { c with conns := c.conns ++ [.create a b d e] } = c.pending from rfl,
      h.flag j, List.getElem?_append]
    split
    case isTrue => rfl
    case isFalse hge =>
      rw [List.getElem?_eq_none (Nat.not_lt.mp hge), List.getElem?_singleton]
      split <;> rfl
  nodup := h.nodup
  switching := by
    intro j hj
    obtain ⟨s, hs, hactive⟩ := h.switching j hj
    obtain ⟨hlt, -⟩ := List.getElem?_eq_some_iff.mp hs
    exact ⟨s, by rw [List.getElem?_append_left hlt, hs], hactive⟩

include h in
/-- A step of one connection, without the pool. -/
theorem Sound.conn {act : SessionAct} (hi : c.conns[i]? = some s) (own : act.ofPool = false)
    (free : act.isCo = true → i ∉ c.switching) (move : s.step act = some t) :
    Sound threadNum queueSize { c with conns := c.conns.set i t } where
  session := h.set_session ((h.session s (List.mem_of_getElem? hi)).step move)
  pool := h.pool
  handles := h.handles
  known := h.known
  flag := by
    refine h.set_flag hi (fun _ _ => rfl) ?_
    rw [(Session.step_move move).pool_eq own]
    exact h.flag_eq hi
  nodup := h.nodup
  switching := by
    refine h.set_switching hi fun hmem => ?_
    obtain ⟨s', hs', hactive⟩ := h.switching i hmem
    cases hs'.symm.trans hi
    have hco := (Session.step_move move).co_eq (h.session s (List.mem_of_getElem? hi)).located
      hactive (by by_contra hco; exact free (by simpa using hco) hmem)
    rwa [Session.active, hco]

include h in
/-- A step of the pool that neither takes in a handle nor resumes one. -/
theorem Sound.alone {p : ThreadPool} {a : ThreadPool.Act} (move : c.pool.step a = some p)
    (other : a ≠ .enqueue) (busy : ∀ w k, a = .worker w → c.pool.workers[w]? ≠ some (.took k)) :
    Sound threadNum queueSize { c with pool := p } := by
  have hpool := h.pool.next trivial move
  cases (ThreadPool.step_move move).hands with
  | kept _ _ pending enqueued =>
      refine ⟨h.session, hpool, h.handles.trans enqueued.symm, ?_, ?_, h.nodup, h.switching⟩
      · intro k hk
        rw [enqueued]
        exact h.known k (pending.mem_iff.mp hk)
      · intro j
        rw [← h.flag j]
        exact (pending.filterMap _).count_eq j
  | pushed call => exact absurd call other
  | resumed worker place => exact absurd place (busy _ _ worker)

include h in
theorem Sound.awaitReady {p : ThreadPool} (hi : c.conns[i]? = some s) (run : s.active)
    (free : i ∉ c.switching) (move : c.pool.step .awaitReady = some p) :
    Sound threadNum queueSize { c with
      pool := p
      switching := if c.pool.isFull then c.switching else c.switching ++ [i] } := by
  obtain ⟨hsession, hpool, hhandles, hknown, hflag, hnodup, hswitching⟩ :=
    h.alone move (by simp) (by simp)
  cases hfull : c.pool.isFull with
  | true => exact ⟨hsession, hpool, hhandles, hknown, hflag, hnodup, hswitching⟩
  | false =>
      refine ⟨hsession, hpool, hhandles, hknown, hflag, ?_, ?_⟩
      · exact hnodup.append (List.nodup_singleton i) (by simpa using free)
      · intro j hj
        rcases List.mem_append.mp hj with hj | hj
        · exact hswitching j hj
        · rw [List.mem_singleton.mp hj]
          exact ⟨s, hi, run⟩

include h in
/-- The handle of `i` comes into the queue. -/
theorem Sound.enqueue {p : ThreadPool} (hi : c.conns[i]? = some s) (mem : i ∈ c.switching)
    (move : s.step (.co .switchThread) = some t) (push : c.pool.step .enqueue = some p) :
    Sound threadNum queueSize
      { pool := p
        handles := c.handles ++ [i]
        switching := c.switching.erase i
        conns := c.conns.set i t } := by
  have hreached := h.session s (List.mem_of_getElem? hi)
  obtain ⟨s', hs', hactive⟩ := h.switching i mem
  cases hs'.symm.trans hi
  have hout : s.pool = false := (hreached.located.placed.running_free hactive.running).1
  cases (ThreadPool.step_move push).hands with
  | kept other => exact absurd rfl other
  | resumed worker => cases worker
  | pushed _ pending enqueued =>
      have hlen := h.handles
      have hpending : (p.pending.filterMap fun k => (c.handles ++ [i])[k]?).Perm
          (i :: c.pending) := by
        refine (pending.filterMap _).trans (.of_eq ?_)
        rw [List.filterMap_cons, ← hlen, List.getElem?_concat_length,
          filterMap_handles (fun k hk => hlen ▸ h.known k hk) [i]]
        rfl
      refine ⟨h.set_session (hreached.step move), h.pool.next trivial push, ?_, ?_, ?_,
        h.nodup.erase i, ?_⟩
      · rw [List.length_append, enqueued, hlen]
        rfl
      · intro k hk
        rw [enqueued]
        rcases List.mem_cons.mp (pending.mem_iff.mp hk) with rfl | hk
        · exact Nat.lt_succ_self _
        · exact Nat.lt_succ_of_lt (h.known k hk)
      · refine h.set_flag hi (fun j hj => (hpending.count_eq j).trans ?_)
          ((hpending.count_eq i).trans ?_)
        · rw [List.count_cons_of_ne (Ne.symm hj)]
        · rw [List.count_cons_self, h.flag_eq hi, hout, (Session.step_move move).switchThread_pool]
          rfl
      · intro j hj
        have hne : j ≠ i := fun hji => h.nodup.not_mem_erase (hji ▸ hj)
        rw [List.getElem?_set_ne (Ne.symm hne)]
        exact h.switching j (List.mem_of_mem_erase hj)

include h in
/-- The handle that a worker has popped is its connection's. -/
theorem Sound.popped {w k : ℕ} (place : c.pool.workers[w]? = some (.took k)) :
    ∃ i s, c.handles[k]? = some i ∧ c.conns[i]? = some s ∧ s.pool = true ∧ s.co = .pooled := by
  have hheld : k ∈ c.pool.pending :=
    List.mem_append_right _ (List.mem_filterMap.mpr ⟨_, List.mem_of_getElem? place, rfl⟩)
  have hlt : k < c.handles.length := h.handles ▸ h.known k hheld
  have hhandle : c.handles[k]? = some c.handles[k] := List.getElem?_eq_getElem hlt
  have hcount : 0 < c.pending.count c.handles[k] :=
    List.count_pos_iff.mpr (List.mem_filterMap.mpr ⟨k, hheld, hhandle⟩)
  rw [h.flag] at hcount
  cases hi : c.conns[c.handles[k]]? with
  | none => simp [hi] at hcount
  | some s =>
      have hpool : s.pool = true := by
        rw [hi, Option.elim_some] at hcount
        cases hflag : s.pool with
        | true => rfl
        | false => simp [hflag] at hcount
      have hplaced := (h.session s (List.mem_of_getElem? hi)).located.placed
      exact ⟨_, s, hhandle, hi, hpool, hplaced.pool hpool⟩

include h in
/-- The handle of `i` is resumed. -/
theorem Sound.resume {p : ThreadPool} {w k : ℕ} (hi : c.conns[i]? = some s)
    (handle : c.handles[k]? = some i) (place : c.pool.workers[w]? = some (.took k))
    (move : s.step .poolTake = some t) (ok : t.fault = none)
    (turn : c.pool.step (.worker w) = some p) :
    Sound threadNum queueSize { c with pool := p, conns := c.conns.set i t } := by
  have hreached := h.session s (List.mem_of_getElem? hi)
  obtain ⟨hin, hout⟩ := (Session.step_move move).poolTake_pool ok
  cases (ThreadPool.step_move turn).hands with
  | kept _ busy => exact absurd place (busy w k rfl)
  | pushed call => cases call
  | @resumed w' k' worker place' pending enqueued =>
      cases worker
      cases place.symm.trans place'
      have hpending : c.pending.Perm (i :: p.pending.filterMap fun k => c.handles[k]?) := by
        refine (pending.filterMap _).trans (.of_eq ?_)
        rw [List.filterMap_cons, handle]
      have hown := h.flag_eq hi
      rw [hpending.count_eq, List.count_cons_self, hin, Bool.toNat_true] at hown
      refine ⟨h.set_session (hreached.step move), h.pool.next trivial turn,
        h.handles.trans enqueued.symm, ?_, ?_, h.nodup, ?_⟩
      · intro j hj
        rw [enqueued]
        exact h.known j (pending.mem_iff.mpr (List.mem_cons_of_mem _ hj))
      · refine h.set_flag hi (fun j hj => ?_) ?_
        · rw [hpending.count_eq, List.count_cons_of_ne (Ne.symm hj)]
          rfl
        · rw [hout]
          exact Nat.succ.inj hown
      · -- a coroutine whose handle is in the pool is not on its way into it
        refine h.set_switching hi fun hmem => ?_
        obtain ⟨s', hs', hactive⟩ := h.switching i hmem
        cases hs'.symm.trans hi
        have hfree := (hreached.located.placed.running_free hactive.running).1
        exact absurd (hin.symm.trans hfree) (by decide)

include h in
/-- Resuming a coroutine that has been destroyed. -/
theorem Sound.resume_faults (hi : c.conns[i]? = some s) (sound : s.fault = none)
    (move : s.step .poolTake = some t) (failed : t.fault ≠ none) :
    Sound threadNum queueSize { c with conns := c.conns.set i t } := by
  have hsame := (Session.step_move move).faulted sound failed
  refine ⟨h.set_session ((h.session s (List.mem_of_getElem? hi)).step move), h.pool, h.handles,
    h.known, h.set_flag hi (fun _ _ => rfl) ?_, h.nodup, h.set_switching hi fun hmem => ?_⟩
  · have hpool : t.pool = s.pool := by rw [hsame]
    rw [hpool]
    exact h.flag_eq hi
  · obtain ⟨s', hs', hactive⟩ := h.switching i hmem
    cases hs'.symm.trans hi
    rwa [hsame]

end

/-- **One step.** -/
theorem Sound.step {a : CoPoolAct} (h : Sound threadNum queueSize c)
    (move : c.step a = some c') : Sound threadNum queueSize c' := by
  unfold CoPool.step at move
  split at move
  case isTrue => cases move
  case isFalse hfaults =>
    have alive : ∀ s ∈ c.conns, s.fault = none := by simpa using hfaults
    have hother : ∀ {a : ThreadPool.Act}, c.alone a = some c' → a ≠ .enqueue →
        (∀ w k, a = .worker w → c.pool.workers[w]? ≠ some (.took k)) →
        Sound threadNum queueSize c' := by
      intro a move other busy
      simp only [CoPool.alone, Option.map_eq_some_iff] at move
      obtain ⟨p, hp, rfl⟩ := move
      exact h.alone hp other busy
    cases a with
    | connect a b d e =>
        cases move
        exact h.connect a b d e
    | conn i act =>
        simp only [Option.ite_none_left_eq_some, Option.bind_eq_some_iff, Option.map_eq_some_iff,
          Bool.or_eq_true, Bool.and_eq_true, decide_eq_true_eq, not_or, not_and,
          Bool.not_eq_true] at move
        obtain ⟨⟨own, free⟩, s, hi, t, ht, rfl⟩ := move
        exact h.conn hi own free ht
    | awaitReady i =>
        simp only [Option.bind_eq_some_iff, Option.ite_none_right_eq_some,
          Option.map_eq_some_iff] at move
        obtain ⟨s, hi, ⟨run, free⟩, p, hp, rfl⟩ := move
        exact h.awaitReady hi run free hp
    | enqueue i =>
        simp only [Option.bind_eq_some_iff, Option.ite_none_right_eq_some,
          Option.map_eq_some_iff] at move
        obtain ⟨mem, s, hi, t, ht, p, hp, rfl⟩ := move
        exact h.enqueue hi mem ht hp
    | worker w =>
        simp only at move
        split at move
        case h_1 k place =>
          simp only [CoPool.resume, Option.bind_eq_some_iff] at move
          obtain ⟨i, handle, s, hi, t, ht, move⟩ := move
          split at move
          case isTrue failed =>
            cases move
            exact h.resume_faults hi (alive s (List.mem_of_getElem? hi)) ht
              (Option.isSome_iff_ne_none.mp failed)
          case isFalse ok =>
            simp only [Option.map_eq_some_iff] at move
            obtain ⟨p, hp, rfl⟩ := move
            exact h.resume hi handle place ht (by simpa using ok) hp
        case h_2 hnot =>
          refine hother move (by simp) ?_
          rintro w' k hw hplace
          cases hw
          exact hnot k hplace
    | spurious i => exact hother move (by simp) (by simp)
    | notifyOne i => exact hother move (by simp) (by simp)
    | stop => exact hother move (by simp) (by simp)
    | destroy => exact hother move (by simp) (by simp)

/-- **The coroutines share the pool.**  In every run of one thread pool and any number of
connections: each connection is in a state of a run of its own and the pool in a state of a run of
`ThreadPool`; the handle of a connection is in the queue or in the hands of a worker exactly when
its flag says so, and then once; a worker that has popped the handle of a coroutine that has not
been destroyed finds it suspended in `switchThread`; and a coroutine that has found the queue not
full still runs when it pushes. -/
theorem shared_thread_pool_refines {threadNum queueSize : ℕ}
    (run : Reach CoPool.step anyStep (create threadNum queueSize) c) :
    (∀ s ∈ c.conns, s.Reached) ∧
    Reach ThreadPool.step anyStep (.create threadNum queueSize) c.pool ∧
    (∀ i s, c.conns[i]? = some s → c.pending.count i = s.pool.toNat) ∧
    (∀ w k : ℕ, c.pool.workers[w]? = some (.took k) →
      ∃ (i : ℕ) (s : Session), c.handles[k]? = some i ∧ c.conns[i]? = some s ∧
        s.pool = true ∧ (s.task = true → s.co = .pooled)) ∧
    (∀ i ∈ c.switching, ∃ s, c.conns[i]? = some s ∧ s.active) := by
  have h : Sound threadNum queueSize c :=
    run.invariant sound_create fun _ _ _ hs _ move => hs.step move
  refine ⟨h.session, h.pool, fun i s hi => h.flag_eq hi, fun w k place => ?_, h.switching⟩
  obtain ⟨i, s, hk, hi, hpool, hco⟩ := h.popped place
  exact ⟨i, s, hk, hi, hpool, fun _ => hco⟩

/-- Two coroutines in the pool: a worker has the second in its hands while the first runs. -/
theorem shared_thread_pool_refines_two :
    ∃ c, Reach CoPool.step anyStep (create 2 4) c ∧ c.handles = [1, 0] ∧ c.pending = [0] ∧
      c.pool.workers[1]? = some (WorkerPc.took 1) ∧
      ∃ s, c.conns[0]? = some s ∧ s.pool = true ∧ s.task = true ∧ s.co = .pooled := by
  obtain ⟨c, run, hc⟩ := exists_reach CoPool.step anyStep (create 2 4)
    [.connect 64 8 64 8, .connect 64 8 64 8, .conn 0 .functor, .conn 1 .functor,
      .awaitReady 0, .awaitReady 1, .enqueue 1, .enqueue 0,
      .worker 0, .worker 0, .worker 0, .worker 1, .worker 1, .worker 1, .worker 0]
    (fun c : CoPool => decide (c.handles = [1, 0] ∧ c.pending = [0] ∧
      c.pool.workers[1]? = some (WorkerPc.took 1) ∧ (c.conns[0]?).any Session.task = true))
    (by decide +kernel)
  obtain ⟨hhandles, hpending, hplace, halive⟩ := of_decide_eq_true hc
  obtain ⟨i, s, hi, hs, hpool, hco⟩ := (shared_thread_pool_refines run).2.2.2.1 1 1 hplace
  rw [hhandles] at hi
  cases hi
  rw [hs, Option.any_some] at halive
  exact ⟨c, run, hhandles, hpending, hplace, s, hs, hpool, halive, hco halive⟩

end CoPool

end Proactor
