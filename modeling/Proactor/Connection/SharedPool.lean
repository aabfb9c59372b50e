import Proactor.Connection.BufferRefinement
import Proactor.Connection.Delivery
import Proactor.Connection.Holding
import Proactor.Input.View

/-!
# The connections of a loop and the pool they share

`Session` has a connection with its requests and its coroutine, and a list of byte strings for its
input buffer; `InputSide` has the chunk pool, the kernel's deliveries and the chains, and takes for
granted that a connection is not destroyed while a completion of it is pending.  `PoolLoop` is both
at once: any number of connections, with the chains of their buffers in one pool, and the
completions of their receives in one queue.  A connection goes when nobody holds it any more.

* `shared_pool_refines` — the pool of a run is a run of `InputSide`, every connection in it is a
  run of `Session`, and the list in a session is what the chain in the pool holds.
* `completions_find_connection` — what `InputSide` takes for granted: a completion in the queue
  finds its connection there, with `holder_` set.

Completions of writes, functors and the steps of the coroutines come in any order; one loop thread
has fewer of these.  A call that reads works on the chain and on the ring without any lock, so one
step stands for it only on the loop thread (`LoopReads`); so does a destructor, which returns its
chunks to the ring.
-/

namespace Proactor

open Transition

/-- A completion of a receive.  One with `res > 0` brings a chunk. -/
structure ReadCqe where
  conn : ℕ
  res : ℤ
  flags : ℕ
  payload : List UInt8

namespace ReadCqe

/-- `IORING_CQE_F_MORE` -/
def more (e : ReadCqe) : Bool := decide (e.flags &&& 2 ≠ 0)

/-- The chunk it brings, for the pool. -/
def completion? (e : ReadCqe) : Option Completion :=
  if 0 < e.res then some ⟨e.conn, e.flags, e.payload⟩ else none

end ReadCqe

/-- A connection and its chain in the pool. -/
structure PoolConn where
  session : Session
  endpoint : Endpoint

structure PoolLoop where
  maxString : ℕ
  manager : ChunkPoolManagerInput
  mem : ℕ → UInt8
  cq : List ReadCqe
  conns : List PoolConn

inductive PoolAct
  | connect (inputHwm inputHwmChunk outputHwm maxSlices : ℕ)
  /-- The kernel fills the next chunk for a receive. -/
  | deliver (conn : ℕ) (payload : List UInt8) (more : Bool)
  /-- The kernel posts a result without a chunk. -/
  | report (conn : ℕ) (res : ℤ) (more : Bool)
  /-- The loop handles the oldest completion. -/
  | handle
  /-- The coroutine consumes, and nothing else uses the pool meanwhile. -/
  | read (conn : ℕ) (call : ReadCall)
  /-- Anything else that happens to a connection. -/
  | act (conn : ℕ) (act : SessionAct)
  /-- The destructor of a connection, on the loop thread. -/
  | destroy (conn : ℕ)

/-- How many bytes a call asks for; one that throws gets none. -/
def ReadCall.asked (maxString : ℕ) (r : Reader) : ReadCall → ℕ
  | .remove len => len
  | .removeAsString size => if maxString < size then 0 else size
  | .removeAllAsString => if maxString < r.buf.totalLen then 0 else r.buf.totalLen
  | .peek => 0
  | .retrieve len => len

/-- The step handles a completion of a receive, or consumes. -/
def SessionAct.onInput : SessionAct → Bool
  | .readCqe .. | .co (.read _) => true
  | _ => false

namespace PoolLoop

def create (poolPtr chunkSize chunkNum maxString : ℕ) : PoolLoop where
  maxString := maxString
  manager := .create poolPtr chunkSize chunkNum
  mem := fun _ => 0
  cq := []
  conns := []

/-- The pool and the chains. -/
def input (s : PoolLoop) : InputSide :=
  ⟨s.maxString, s.manager, s.mem, s.cq.filterMap ReadCqe.completion?,
    s.conns.map PoolConn.endpoint⟩

def reader (s : PoolLoop) (c : PoolConn) : Reader := ⟨s.manager, c.endpoint.buf⟩

/-- The final completions of a connection that have not been handled. -/
def finals (s : PoolLoop) (conn : ℕ) : ℕ := s.cq.countP fun e => e.conn == conn && !e.more

/-- A receive of the connection is in the kernel and has not ended. -/
def armed (s : PoolLoop) (conn : ℕ) : Bool :=
  s.conns[conn]?.any fun c => decide (s.finals conn < c.session.kernelReads)

/-- An operation on a connection that has not been destroyed. -/
def onConn (s : PoolLoop) (conn : ℕ)
    (f : PoolConn → Option (ChunkPoolManagerInput × PoolConn)) : Option PoolLoop :=
  (s.conns[conn]?).bind fun c =>
    if c.endpoint.alive then
      (f c).map fun p => { s with manager := p.1, conns := s.conns.set conn p.2 }
    else none

/-- `on_completion` for one entry of the queue: the session's step, and the chain if a chunk has
come.  After a fault the process is gone, and the chunk stays where it is. -/
def handleCqe (s : PoolLoop) (e : ReadCqe) (cq : List ReadCqe) : Option PoolLoop :=
  (s.conns[e.conn]?).bind fun c =>
    if c.endpoint.alive then
      (c.session.step (.readCqe e.res e.payload e.more)).map fun t =>
        if t.fault.isSome then { s with conns := s.conns.set e.conn { c with session := t } }
        else match e.completion? with
          | none => { s with cq := cq, conns := s.conns.set e.conn { c with session := t } }
          | some x =>
              let r := (s.reader c).append x.bufId x.payload.length
              { s with
                manager := r.pool
                cq := cq
                conns := s.conns.set e.conn ⟨t, { c.endpoint with
                  buf := r.buf, received := c.endpoint.received ++ x.payload }⟩ }
    else none

def step (s : PoolLoop) : PoolAct → Option PoolLoop
  | .connect inputHwm inputHwmChunk outputHwm maxSlices =>
      some { s with conns := s.conns ++
        [⟨.create inputHwm inputHwmChunk outputHwm maxSlices, ⟨.empty, true, [], []⟩⟩] }
  | .deliver conn payload more =>
      let slot := s.manager.ring.bufs (s.manager.ring.slot s.manager.mask 0)
      if 0 < s.manager.ring.published ∧ 0 < payload.length ∧ payload.length ≤ slot.len ∧
          s.armed conn then
        some { s with
          manager := { s.manager with ring := s.manager.ring.consume }
          mem := writeMem s.mem slot.addr payload
          cq := s.cq ++ [⟨conn, payload.length,
            slot.bid * 2 ^ cqeBufferShift + (if more then 2 else 0) + 1, payload⟩] }
      else none
  | .report conn res more =>
      if res ≤ 0 ∧ s.armed conn then
        some { s with cq := s.cq ++ [⟨conn, res, if more then 2 else 0, []⟩] }
      else none
  | .handle =>
      match s.cq with
      | [] => none
      | e :: cq => s.handleCqe e cq
  | .read conn call => s.onConn conn fun c =>
      (c.session.step (.co (.read (call.asked s.maxString (s.reader c))))).map fun t =>
        let (bytes, r) := call.run s.maxString s.mem (s.reader c)
        (r.pool, ⟨t, { c.endpoint with
          buf := r.buf, consumed := c.endpoint.consumed ++ bytes }⟩)
  | .act conn act =>
      if act.onInput then none
      else s.onConn conn fun c => (c.session.step act).map fun t =>
        (s.manager, { c with session := t })
  | .destroy conn => s.onConn conn fun c =>
      if c.session.held || c.session.mapEntry then none
      else some ((s.reader c).destroy.pool, { c with endpoint := ⟨.empty, false, [], []⟩ })

end PoolLoop

/-! ## What the steps of a session do to its input -/

namespace Session

/-- Reached by a connection of `newConnection`, with any water marks. -/
def Reached (s : Session) : Prop :=
  ∃ inputHwm inputHwmChunk outputHwm maxSlices,
    Reach step anyStep (create inputHwm inputHwmChunk outputHwm maxSlices) s

variable {s s' : Session} {a : SessionAct}

theorem Reached.step (h : s.Reached) (move : s.step a = some s') : s'.Reached := by
  obtain ⟨_, _, _, _, run⟩ := h
  exact ⟨_, _, _, _, run.next trivial move⟩

theorem Reached.readProtocol (h : s.Reached) : s.ReadProtocol := by
  obtain ⟨_, _, _, _, run⟩ := h
  exact run.invariant (P := ReadProtocol) ⟨rfl, rfl⟩ fun _ _ _ hs _ move =>
    (step_move move).readProtocol hs

/-- At most one receive is in the kernel, and then `holder_` is set. -/
theorem Reached.holder (h : s.Reached) (out : 0 < s.kernelReads) :
    s.kernelReads = 1 ∧ s.read.holder = true ∧ s.read.status ≠ .stoped := by
  obtain ⟨hholder, hreads⟩ := h.readProtocol
  have hle := Bool.toNat_le s.read.active
  simp only [reads] at hreads
  have hactive : s.read.active = true := by
    by_contra hne
    rw [Bool.not_eq_true] at hne
    rw [hne, Bool.toNat_false] at hreads
    omega
  exact ⟨by omega, hholder.trans hactive, by simpa [ReadContext.active] using hactive⟩

/-- A connection that nobody holds has no receive in the kernel. -/
theorem Reached.kernelReads_of_unheld (h : s.Reached) (unheld : s.held = false) :
    s.kernelReads = 0 := by
  by_contra hne
  have hholder := (h.holder (Nat.pos_of_ne_zero hne)).2.1
  simp [held, hholder] at unheld

/-- Only completions end a receive. -/
theorem ReadEffect.kernelReads_le (h : ReadEffect s a s') (hin : a.onInput = false) :
    s.kernelReads ≤ s'.kernelReads := by
  cases h with
  | kept same => rw [same.kernel]
  | awaited prepares empty same =>
      rw [same.kernel, awaitRead_eq]
      exact Nat.le_add_right _ _
  | drained head same =>
      rw [same.kernel]
      exact Nat.le_succ _
  | unwound frame same => rw [same.kernel]; rfl
  | _ => simp [SessionAct.onInput] at hin

/-- A completion with more to come leaves the receive where it is. -/
theorem ReadEffect.kernelReads_more {res : ℤ} {data : List UInt8}
    (h : ReadEffect s (.readCqe res data true) s') : s'.kernelReads = s.kernelReads := by
  cases h with
  | kept same => exact same.kernel
  | awaited prepares => cases prepares
  | took out status stays same => exact same.kernel

/-- A fault leaves the receive where it is. -/
theorem Move.kernelReads_of_fault {res : ℤ} {data : List UInt8} {more : Bool}
    (h : Move s (.readCqe res data more) s') (sound : s.fault = none) (failed : s'.fault ≠ none) :
    s'.kernelReads = s.kernelReads := by
  cases h with
  | abort => rfl
  | readMore _ _ _ _ woke => exact absurd (by cases woke <;> simp [took, sound]) failed
  | readStopped _ _ _ _ _ woke =>
      exact absurd (by cases woke <;> simp [took, endRead, sound]) failed
  | readAgain _ _ _ _ _ woke =>
      exact absurd (by cases woke <;> simp [took, submitRead_eq, sound]) failed
  | readFatal => exact absurd (by simp [took, sound]) failed
  | readClose => exact absurd sound failed

/-- `read` leaves the requests alone. -/
theorem ReadEffect.kernelReads_read {size : ℕ} (h : ReadEffect s (.co (.read size)) s') :
    s'.kernelReads = s.kernelReads := by
  cases h with
  | kept same => exact same.kernel
  | consumed same => exact same.kernel
  | awaited prepares => cases prepares

/-- The buffer after a completion: one more chunk if it has brought one. -/
theorem Move.readCqe_buffer {res : ℤ} {data : List UInt8} {more : Bool}
    (h : Move s (.readCqe res data more) s') (alive : s'.fault = none) :
    s'.read.inputBuffer
      = if 0 < res then s.read.inputBuffer ++ [data] else s.read.inputBuffer := by
  have htook : (s.took res data more).read.inputBuffer
      = if 0 < res then s.read.inputBuffer ++ [data] else s.read.inputBuffer := by
    by_cases hres : 0 < res
    · simp only [took, ReadContext.takeResult, if_neg (Int.not_le.mpr hres), if_pos hres,
        ReadContext.receive]
      split <;> rfl
    · have hle := Int.not_lt.mp hres
      simp [took, ReadContext.takeResult, hle, hres, ReadContext.handleError_eq _ hle]
  cases h with
  | abort fails => simp at alive
  | readMore idle out holder status woke => rw [woke.sameReads.buffer, htook]
  | readStopped idle out holder fatal status woke => exact woke.sameReads.buffer ▸ htook
  | readAgain idle out holder fatal status woke =>
      rw [submitRead_eq] at woke
      exact woke.sameReads.buffer ▸ htook
  | readFatal => rw [woken_read, htook]
  | readClose => exact htook

theorem Move.read_buffer {size : ℕ} (h : Move s (.co (.read size)) s') (alive : s'.fault = none) :
    s'.read.inputBuffer = Chunked.dropFlat size s.read.inputBuffer := by
  cases h with
  | abort fails => simp at alive
  | read => rfl

/-- Nothing else changes the buffer. -/
theorem ReadEffect.buffer (h : ReadEffect s a s') (hin : a.onInput = false) :
    s'.read.inputBuffer = s.read.inputBuffer := by
  cases h with
  | kept same => exact same.buffer
  | awaited prepares empty same => rw [same.buffer, awaitRead_eq]
  | drained head same => exact same.buffer
  | unwound frame same => exact same.buffer
  | _ => simp [SessionAct.onInput] at hin

end Session

namespace PoolLoop

open InputSide (Apart)

section

variable {s s' : PoolLoop} {i j k : ℕ} {c c' d : PoolConn} {poolPtr chunkSize maxString : ℕ}

/-- **What holds in every state reached.** -/
structure Sound (poolPtr chunkSize maxString k : ℕ) (s : PoolLoop) : Prop where
  input : Reach InputSide.step anyStep (.create poolPtr chunkSize (2 ^ k) maxString) s.input
  session : ∀ c ∈ s.conns, c.session.Reached
  /-- Nothing comes after the last completion of a receive. -/
  order : s.cq.Pairwise fun e e' => e.more = false → e'.conn ≠ e.conn
  sizes : ∀ e ∈ s.cq, e.payload.length = e.res.toNat
  posted : ∀ e ∈ s.cq, ∃ c, s.conns[e.conn]? = some c ∧ 0 < c.session.kernelReads
  dead : ∀ c ∈ s.conns, c.endpoint.alive = false →
    c.session.kernelReads = 0 ∧ c.endpoint.buf = .empty
  same : ∀ c ∈ s.conns, c.endpoint.alive = true → c.session.fault = none →
    contents s.mem s.manager (s.reader c).chain = c.session.read.inputBuffer

theorem sound_create :
    Sound poolPtr chunkSize maxString k (create poolPtr chunkSize (2 ^ k) maxString) where
  input := .start
  session := by simp [create]
  order := .nil
  sizes := by simp [create]
  posted := by simp [create]
  dead := by simp [create]
  same := by simp [create]

theorem input_ends (h : s.conns[i]? = some c) : s.input.ends[i]? = some c.endpoint := by
  simp [input, h]

/-- The chunks of a connection that a step leaves alone hold what they held. -/
theorem contents_of_apart (h : Apart s.input s'.input c.endpoint) :
    contents s'.mem s'.manager (s'.reader c).chain
      = contents s.mem s.manager (s.reader c).chain := by
  have hchain : (s'.reader c).chain = (s.reader c).chain := h.chain
  rw [hchain]
  exact contents_congr h.bytes

theorem apart_refl (e : Endpoint) (hmem : s'.mem = s.mem := by rfl)
    (hmanager : s'.manager = s.manager := by rfl) : Apart s.input s'.input e := by
  constructor
  · simp [InputSide.reader, input, hmanager]
  · simp [input, hmanager]
  · simp [input, hmem, hmanager]

/-- **A step of one connection.**  The others keep their sessions and their chunks. -/
theorem Sound.put (hs : Sound poolPtr chunkSize maxString k s) (hi : s.conns[i]? = some c)
    (hconns : s'.conns = s.conns.set i c')
    (hinput : Reach InputSide.step anyStep s.input s'.input)
    (hcq : s'.cq.Sublist s.cq)
    (hsession : c'.session.Reached)
    (hposted : ∀ e ∈ s'.cq, e.conn = i → 0 < c'.session.kernelReads)
    (hdead : c'.endpoint.alive = false → c'.session.kernelReads = 0 ∧ c'.endpoint.buf = .empty)
    (hsame : c'.endpoint.alive = true → c'.session.fault = none →
      contents s'.mem s'.manager (s'.reader c').chain = c'.session.read.inputBuffer)
    (hothers : ∀ j d, j ≠ i → s.conns[j]? = some d → Apart s.input s'.input d.endpoint) :
    Sound poolPtr chunkSize maxString k s' := by
  have hlt : i < s.conns.length := (List.getElem?_eq_some_iff.mp hi).1
  -- a connection is the one that was stepped, or one of the others
  have hcases : ∀ d ∈ s'.conns, d = c' ∨ ∃ j, j ≠ i ∧ s.conns[j]? = some d := by
    intro d hd
    obtain ⟨j, hj⟩ := List.getElem?_of_mem hd
    rw [hconns, List.getElem?_set] at hj
    split at hj
    case isTrue => exact .inl (by simpa [hlt] using hj.symm)
    case isFalse hne => exact .inr ⟨j, Ne.symm hne, hj⟩
  refine ⟨hs.input.trans hinput, ?_, hs.order.sublist hcq,
    fun e he => hs.sizes e (hcq.subset he), ?_, ?_, ?_⟩
  · intro d hd
    rcases hcases d hd with rfl | ⟨j, -, hj⟩
    · exact hsession
    · exact hs.session d (List.mem_of_getElem? hj)
  · intro e he
    by_cases hconn : e.conn = i
    · refine ⟨c', ?_, hposted e he hconn⟩
      rw [hconns, hconn, List.getElem?_set_self hlt]
    · obtain ⟨d, hd, hout⟩ := hs.posted e (hcq.subset he)
      exact ⟨d, by rw [hconns, List.getElem?_set_ne (Ne.symm hconn), hd], hout⟩
  · intro d hd
    rcases hcases d hd with rfl | ⟨j, -, hj⟩
    · exact hdead
    · exact hs.dead d (List.mem_of_getElem? hj)
  · intro d hd halive hfault
    rcases hcases d hd with rfl | ⟨j, hne, hj⟩
    · exact hsame halive hfault
    · rw [contents_of_apart (hothers j d hne hj)]
      exact hs.same d (List.mem_of_getElem? hj) halive hfault

/-! ## The kernel -/

/-- While a receive is in the kernel no final completion of the connection is in the queue, and the
connection is there. -/
theorem Sound.armed (hs : Sound poolPtr chunkSize maxString k s) (h : s.armed i = true) :
    ∃ c, s.conns[i]? = some c ∧ 0 < c.session.kernelReads ∧ c.endpoint.alive = true ∧
      ∀ e ∈ s.cq, e.more = false → i ≠ e.conn := by
  obtain ⟨c, hc, hlt⟩ := (Option.any_eq_true _ _).mp h
  rw [decide_eq_true_eq] at hlt
  have hmem := List.mem_of_getElem? hc
  have hone := ((hs.session c hmem).holder (by omega)).1
  refine ⟨c, hc, by omega, ?_, ?_⟩
  · by_contra hdead
    have := (hs.dead c hmem (by simpa using hdead)).1
    omega
  · rintro e he hmore rfl
    have hnone : s.finals e.conn = 0 := by omega
    rw [finals, List.countP_eq_zero] at hnone
    exact hnone e he (by simp [hmore])

/-- The kernel posts a completion: the connections and their chunks stay as they are. -/
theorem Sound.post (hs : Sound poolPtr chunkSize maxString k s) {e : ReadCqe}
    (harmed : s.armed e.conn = true) (hconns : s'.conns = s.conns) (hcq : s'.cq = s.cq ++ [e])
    (hsize : e.payload.length = e.res.toNat)
    (hinput : Reach InputSide.step anyStep s.input s'.input)
    (hapart : ∀ c ∈ s.conns, Apart s.input s'.input c.endpoint) :
    Sound poolPtr chunkSize maxString k s' := by
  obtain ⟨c, hc, hout, -, hlast⟩ := hs.armed harmed
  refine ⟨hs.input.trans hinput, by rw [hconns]; exact hs.session, ?_, ?_, ?_,
    by rw [hconns]; exact hs.dead, ?_⟩
  · rw [hcq, List.pairwise_append]
    refine ⟨hs.order, List.pairwise_singleton _ _, ?_⟩
    intro x hx y hy
    obtain rfl := List.mem_singleton.mp hy
    exact hlast x hx
  · rw [hcq]
    intro x hx
    rcases List.mem_append.mp hx with hx | hx
    · exact hs.sizes x hx
    · exact List.mem_singleton.mp hx ▸ hsize
  · rw [hcq, hconns]
    intro x hx
    rcases List.mem_append.mp hx with hx | hx
    · exact hs.posted x hx
    · obtain rfl := List.mem_singleton.mp hx
      exact ⟨c, hc, hout⟩
  · rw [hconns]
    intro d hd halive hfault
    rw [contents_of_apart (hapart d hd)]
    exact hs.same d hd halive hfault

theorem Sound.deliver (hk : k ≤ 15) (hs : Sound poolPtr chunkSize maxString k s)
    {payload : List UInt8} {more : Bool} (move : s.step (.deliver i payload more) = some s') :
    Sound poolPtr chunkSize maxString k s' := by
  simp only [step, Option.ite_none_right_eq_some, Option.some.injEq] at move
  obtain ⟨⟨hpub, hpos, hlen, harmed⟩, rfl⟩ := move
  obtain ⟨c, hc, -, halive, -⟩ := hs.armed harmed
  have hmove : InputSide.step s.input (.deliver i payload more) = some (PoolLoop.input { s with
      manager := { s.manager with ring := s.manager.ring.consume }
      mem := writeMem s.mem
        (s.manager.ring.bufs (s.manager.ring.slot s.manager.mask 0)).addr payload
      cq := s.cq ++ [⟨i, payload.length,
        (s.manager.ring.bufs (s.manager.ring.slot s.manager.mask 0)).bid * 2 ^ cqeBufferShift
          + (if more then 2 else 0) + 1, payload⟩] }) := by
    have hany : (s.input.ends[i]?.any fun e => e.alive) = true := by
      rw [input_ends hc]
      exact halive
    simp only [InputSide.step]
    rw [if_pos ⟨hpub, hpos, hlen, hany⟩]
    simp [PoolLoop.input, ReadCqe.completion?, hpos]
  refine hs.post harmed rfl rfl rfl (.next .start trivial hmove) ?_
  intro d hd
  exact (InputSide.reach_inv hk hs.input).deliver_apart hmove (List.mem_map_of_mem hd)

theorem Sound.report (hs : Sound poolPtr chunkSize maxString k s) {res : ℤ} {more : Bool}
    (move : s.step (.report i res more) = some s') : Sound poolPtr chunkSize maxString k s' := by
  simp only [step, Option.ite_none_right_eq_some, Option.some.injEq] at move
  obtain ⟨⟨hres, harmed⟩, rfl⟩ := move
  refine hs.post harmed rfl rfl (Int.toNat_of_nonpos hres).symm ?_ fun _ _ => apart_refl _
  have hsame : PoolLoop.input { s with cq := s.cq ++ [⟨i, res, if more then 2 else 0, []⟩] }
      = s.input := by
    simp [PoolLoop.input, ReadCqe.completion?, Int.not_lt.mpr hres]
  rw [hsame]
  exact .start

theorem Sound.connect (hs : Sound poolPtr chunkSize maxString k s)
    {inputHwm inputHwmChunk outputHwm maxSlices : ℕ}
    (move : s.step (.connect inputHwm inputHwmChunk outputHwm maxSlices) = some s') :
    Sound poolPtr chunkSize maxString k s' := by
  obtain rfl := Option.some.inj move
  have hmove : InputSide.step s.input .connect = some (PoolLoop.input { s with conns := s.conns ++
      [⟨.create inputHwm inputHwmChunk outputHwm maxSlices, ⟨.empty, true, [], []⟩⟩] }) := by
    simp [InputSide.step, PoolLoop.input]
  refine ⟨hs.input.next trivial hmove, ?_, hs.order, hs.sizes, ?_, ?_, ?_⟩
  · intro c hc
    rcases List.mem_append.mp hc with hc | hc
    · exact hs.session c hc
    · rw [List.mem_singleton.mp hc]
      exact ⟨_, _, _, _, .start⟩
  · intro e he
    obtain ⟨c, hc, hout⟩ := hs.posted e he
    exact ⟨c, by rw [List.getElem?_append_left (List.getElem?_eq_some_iff.mp hc).1, hc], hout⟩
  · intro c hc
    rcases List.mem_append.mp hc with hc | hc
    · exact hs.dead c hc
    · rw [List.mem_singleton.mp hc]
      simp
  · intro c hc halive hfault
    rcases List.mem_append.mp hc with hc | hc
    · exact hs.same c hc halive hfault
    · rw [List.mem_singleton.mp hc]
      exact (holds_create s.manager inputHwm inputHwmChunk).contents

/-! ## The connections -/

theorem onConn_some {f : PoolConn → Option (ChunkPoolManagerInput × PoolConn)}
    (h : s.onConn i f = some s') :
    ∃ c p, s.conns[i]? = some c ∧ c.endpoint.alive = true ∧ f c = some p ∧
      s' = { s with manager := p.1, conns := s.conns.set i p.2 } := by
  obtain ⟨c, hc, h⟩ := Option.bind_eq_some_iff.mp h
  simp only [Option.ite_none_right_eq_some, Option.map_eq_some_iff] at h
  obtain ⟨halive, p, hp, rfl⟩ := h
  exact ⟨c, p, hc, halive, hp, rfl⟩

/-- The pool does not see a step of a session, nor a completion without a chunk. -/
theorem input_set_session (hi : s.conns[i]? = some c) (t : Session) (cq : List ReadCqe)
    (hcq : cq.filterMap ReadCqe.completion? = s.cq.filterMap ReadCqe.completion?) :
    PoolLoop.input { s with cq := cq, conns := s.conns.set i { c with session := t } }
      = s.input := by
  obtain ⟨hlt, rfl⟩ := List.getElem?_eq_some_iff.mp hi
  have hlt' : i < (s.conns.map PoolConn.endpoint).length := by simpa using hlt
  have hslot : s.conns[i].endpoint = (s.conns.map PoolConn.endpoint)[i] := by simp
  simp only [PoolLoop.input, hcq, List.map_set]
  rw [hslot, List.set_getElem_self]

/-- The receive that a completion in the queue belongs to is in the kernel. -/
theorem Sound.out (hs : Sound poolPtr chunkSize maxString k s) (hi : s.conns[i]? = some c)
    {e : ReadCqe} (he : e ∈ s.cq) (hconn : e.conn = i) : 0 < c.session.kernelReads := by
  obtain ⟨d, hd, hout⟩ := hs.posted e he
  obtain rfl := Option.some.inj ((hconn ▸ hd).symm.trans hi)
  exact hout

/-- The chain of a connection is the buffer of its read context. -/
theorem Sound.holds (hk : k ≤ 15) (hs : Sound poolPtr chunkSize maxString k s) (hc : c ∈ s.conns)
    (halive : c.endpoint.alive = true) (hfault : c.session.fault = none) :
    Holds s.mem (s.reader c) c.session.read :=
  ⟨(s.reader c).chain, (InputSide.reach_inv hk hs.input).rep _ (List.mem_map_of_mem hc),
    hs.same c hc halive hfault⟩

theorem Sound.act (hs : Sound poolPtr chunkSize maxString k s) {a : SessionAct}
    (move : s.step (.act i a) = some s') : Sound poolPtr chunkSize maxString k s' := by
  simp only [step, Option.ite_none_left_eq_some, Bool.not_eq_true] at move
  obtain ⟨hin, move⟩ := move
  obtain ⟨c, p, hi, halive, hp, rfl⟩ := onConn_some move
  obtain ⟨t, ht, rfl⟩ := Option.map_eq_some_iff.mp hp
  have hmem := List.mem_of_getElem? hi
  have heffect := (Session.step_move ht).readEffect
  refine hs.put hi rfl ?_ (List.Sublist.refl _) ((hs.session c hmem).step ht) ?_ ?_ ?_
    fun _ _ _ _ => apart_refl _
  · have hsame := input_set_session hi t s.cq rfl
    exact hsame ▸ .start
  · intro e he hconn
    exact Nat.lt_of_lt_of_le (hs.out hi he hconn) (heffect.kernelReads_le hin)
  · intro hdead
    simp [halive] at hdead
  · intro _ _
    rw [heffect.buffer hin]
    exact hs.same c hmem halive (Session.step_sound ht)

/-- **What a call leaves in the chain** is what the context has after a read of as many bytes. -/
theorem run_holds {maxString : ℕ} {mem : ℕ → UInt8} {r : Reader} {ctx : ReadContext}
    {ids : List ℕ} (h : Holds mem r ctx) (call : ReadCall) (hring : RingHolds r.pool k ids)
    (hroom : ids.length + r.chain.length ≤ 2 ^ k) :
    Holds mem (call.run maxString mem r).2
      (ctx.removeAsString (call.asked maxString r)).2 := by
  have hstring : ∀ size, Holds mem ((Reader.removeAsString maxString mem r size).getD ([], r)).2
      (ctx.removeAsString (if maxString < size then 0 else size)).2 := by
    intro size
    split
    case isTrue hmax =>
      rw [Reader.removeAsString, if_pos hmax]
      exact h.removeNothing
    case isFalse hmax =>
      obtain ⟨r', hr', hrest⟩ := h.removeAsString (Nat.not_lt.mp hmax) hring hroom
      rw [hr']
      exact hrest
  cases call with
  | remove len => exact (h.remove len hring hroom).2
  | removeAsString size => exact hstring size
  | removeAllAsString => exact hstring r.buf.totalLen
  | peek => exact h.removeNothing
  | retrieve len =>
      simp only [ReadCall.run, retrieve_eq_remove mem]
      exact (h.remove len hring hroom).2

theorem Sound.read (hk : k ≤ 15) (hs : Sound poolPtr chunkSize maxString k s) {call : ReadCall}
    (move : s.step (.read i call) = some s') : Sound poolPtr chunkSize maxString k s' := by
  obtain ⟨c, p, hi, halive, hp, rfl⟩ := onConn_some move
  obtain ⟨t, ht, rfl⟩ := Option.map_eq_some_iff.mp hp
  have hmem := List.mem_of_getElem? hi
  have hinv := InputSide.reach_inv hk hs.input
  have hend : c.endpoint ∈ s.input.ends := List.mem_map_of_mem hmem
  have hstep := Session.step_move ht
  have hmove : InputSide.step s.input (.read i call) = some (PoolLoop.input { s with
      manager := (call.run s.maxString s.mem (s.reader c)).2.pool
      conns := s.conns.set i ⟨t, { c.endpoint with
        buf := (call.run s.maxString s.mem (s.reader c)).2.buf
        consumed := c.endpoint.consumed ++ (call.run s.maxString s.mem (s.reader c)).1 }⟩ }) := by
    simp only [InputSide.step, InputSide.onEnd, input_ends hi]
    rw [if_pos halive]
    simp only [PoolLoop.input, List.map_set]
    rfl
  refine hs.put hi rfl (.next .start trivial hmove) (List.Sublist.refl _)
    ((hs.session c hmem).step ht) ?_ ?_ ?_ ?_
  · intro e he hconn
    have hsame : t.kernelReads = c.session.kernelReads := hstep.readEffect.kernelReads_read
    exact hsame ▸ hs.out hi he hconn
  · intro hdead
    simp [halive] at hdead
  · intro _ hfault
    have hold := hs.holds hk hmem halive (Session.step_sound ht)
    rw [hstep.read_buffer hfault]
    exact (run_holds hold call hinv.ring (hinv.room hend)).contents
  · intro j d hj hd
    exact (hinv.step_apart hmove (input_ends hd) (by simp [InputSide.actsOn, Ne.symm hj])).2

theorem Sound.destroy (hk : k ≤ 15) (hs : Sound poolPtr chunkSize maxString k s)
    (move : s.step (.destroy i) = some s') : Sound poolPtr chunkSize maxString k s' := by
  obtain ⟨c, p, hi, halive, hp, rfl⟩ := onConn_some move
  simp only [Option.ite_none_left_eq_some, Option.some.injEq, Bool.not_eq_true,
    Bool.or_eq_false_iff] at hp
  obtain ⟨⟨hheld, -⟩, rfl⟩ := hp
  have hmem := List.mem_of_getElem? hi
  have hnone : c.session.kernelReads = 0 := (hs.session c hmem).kernelReads_of_unheld hheld
  -- no completion of the connection is left in the queue
  have hquiet : ∀ e ∈ s.cq, e.conn ≠ i := by
    intro e he hconn
    have := hs.out hi he hconn
    omega
  have hmove : InputSide.step s.input (.destroy i) = some (PoolLoop.input { s with
      manager := (s.reader c).destroy.pool
      conns := s.conns.set i { c with endpoint := ⟨.empty, false, [], []⟩ } }) := by
    have hany : (s.input.cq.any fun e => e.conn == i) = false := by
      rw [Bool.eq_false_iff, Ne, List.any_eq_true]
      rintro ⟨x, hx, hxi⟩
      obtain ⟨e, he, hex⟩ := List.mem_filterMap.mp hx
      simp only [ReadCqe.completion?, Option.ite_none_right_eq_some, Option.some.injEq] at hex
      obtain ⟨-, rfl⟩ := hex
      exact hquiet e he (by simpa using hxi)
    simp only [InputSide.step, hany, InputSide.onEnd, input_ends hi]
    rw [if_neg (by decide), if_pos halive]
    simp only [PoolLoop.input, List.map_set]
    rfl
  refine hs.put hi rfl (.next .start trivial hmove) (List.Sublist.refl _) (hs.session c hmem) ?_
    (fun _ => ⟨hnone, rfl⟩) (by simp) ?_
  · intro e he hconn
    exact absurd hconn (hquiet e he)
  · intro j d hj hd
    exact ((InputSide.reach_inv hk hs.input).step_apart hmove (input_ends hd)
      (by simp [InputSide.actsOn, Ne.symm hj])).2

/-- The rest of the queue after its first completion has been handled. -/
theorem Sound.rest (hs : Sound poolPtr chunkSize maxString k s) {x : ReadCqe} {cq : List ReadCqe}
    (hcq : s.cq = x :: cq) (hi : s.conns[x.conn]? = some c) {t : Session}
    (ht : c.session.step (.readCqe x.res x.payload x.more) = some t) :
    ∀ e ∈ cq, e.conn = x.conn → 0 < t.kernelReads := by
  intro e he hconn
  have horder := hs.order
  rw [hcq, List.pairwise_cons] at horder
  cases hmore : x.more with
  | false => exact absurd hconn (horder.1 e he hmore)
  | true =>
      rw [hmore] at ht
      have hsame : t.kernelReads = c.session.kernelReads :=
        (Session.step_move ht).readEffect.kernelReads_more
      exact hsame ▸ hs.out hi (hcq ▸ List.mem_cons_of_mem _ he) hconn

theorem Sound.handle (hk : k ≤ 15) (hs : Sound poolPtr chunkSize maxString k s)
    (move : s.step .handle = some s') : Sound poolPtr chunkSize maxString k s' := by
  simp only [step] at move
  split at move
  case h_1 => exact absurd move (by simp)
  case h_2 x cq hcq =>
    obtain ⟨c, hi, move⟩ := Option.bind_eq_some_iff.mp move
    simp only [Option.ite_none_right_eq_some, Option.map_eq_some_iff] at move
    obtain ⟨halive, t, ht, rfl⟩ := move
    have hmem := List.mem_of_getElem? hi
    have hreached := (hs.session c hmem).step ht
    have hstep := Session.step_move ht
    have hsound := Session.step_sound ht
    split
    case isTrue hfault =>
      have hfailed : t.fault ≠ none := Option.isSome_iff_ne_none.mp hfault
      refine hs.put hi rfl ?_ (List.Sublist.refl _) hreached ?_ (by simp [halive])
        (fun _ hnone => absurd hnone hfailed) fun _ _ _ _ => apart_refl _
      · exact input_set_session hi t s.cq rfl ▸ .start
      · intro e he hconn
        have hsame : t.kernelReads = c.session.kernelReads :=
          hstep.kernelReads_of_fault hsound hfailed
        exact hsame ▸ hs.out hi he hconn
    case isFalse hfault =>
      have hnone : t.fault = none := by simpa using hfault
      have hbuffer := hstep.readCqe_buffer hnone
      have hold := hs.holds hk hmem halive hsound
      cases hx : x.completion? with
      | none =>
          have hres : ¬ 0 < x.res := by simpa [ReadCqe.completion?] using hx
          refine hs.put hi rfl ?_ (hcq ▸ List.sublist_cons_self _ _) hreached (hs.rest hcq hi ht)
            (by simp [halive]) (fun _ _ => ?_) fun _ _ _ _ => apart_refl _
          · exact input_set_session hi t cq (by rw [hcq, List.filterMap_cons_none hx]) ▸ .start
          · rw [hbuffer, if_neg hres]
            exact hold.contents
      | some y =>
          simp only [ReadCqe.completion?, Option.ite_none_right_eq_some, Option.some.injEq] at hx
          obtain ⟨hres, rfl⟩ := hx
          have hinv := InputSide.reach_inv hk hs.input
          have hqueue : s.input.cq
              = ⟨x.conn, x.flags, x.payload⟩ :: cq.filterMap ReadCqe.completion? := by
            simp [PoolLoop.input, hcq, ReadCqe.completion?, hres]
          have hend : c.endpoint ∈ s.input.ends := List.mem_map_of_mem hmem
          have hmove : InputSide.step s.input .complete = some (PoolLoop.input { s with
              manager := ((s.reader c).append (Completion.bufId ⟨x.conn, x.flags, x.payload⟩)
                x.payload.length).pool
              cq := cq
              conns := s.conns.set x.conn ⟨t, { c.endpoint with
                buf := ((s.reader c).append (Completion.bufId ⟨x.conn, x.flags, x.payload⟩)
                  x.payload.length).buf
                received := c.endpoint.received ++ x.payload }⟩ }) := by
            have hslot : s.input.ends[x.conn]? = some c.endpoint := input_ends hi
            simp only [InputSide.step, hqueue, InputSide.onEnd, hslot]
            rw [if_pos halive]
            simp only [PoolLoop.input, List.map_set]
            rfl
          refine hs.put hi rfl (.next .start trivial hmove) (hcq ▸ List.sublist_cons_self _ _)
            hreached (hs.rest hcq hi ht) (by simp [halive]) (fun _ _ => ?_) ?_
          · obtain ⟨hnum, hnew, hclean⟩ := hinv.incoming hqueue hend
            obtain ⟨hpos, hlen, hdata⟩ := hinv.payload _ (hqueue ▸ List.mem_cons_self)
            rw [hbuffer, if_pos hres]
            exact (hold.append hnum hnew hclean hpos hlen
              (hinv.ring.dataPtr _ ▸ hdata)).contents
          · intro j d hj hd
            exact (hinv.step_apart hmove (input_ends hd)
              (by simp [InputSide.actsOn, hqueue, Ne.symm hj])).2

theorem Sound.step (hk : k ≤ 15) (hs : Sound poolPtr chunkSize maxString k s) {a : PoolAct}
    (move : s.step a = some s') : Sound poolPtr chunkSize maxString k s' := by
  cases a with
  | connect => exact hs.connect move
  | deliver => exact hs.deliver hk move
  | report => exact hs.report move
  | handle => exact hs.handle hk move
  | read => exact hs.read hk move
  | act => exact hs.act move
  | destroy => exact hs.destroy hk move

theorem reach_sound {ok : PoolLoop → PoolAct → Prop} (hk : k ≤ 15)
    (run : Reach PoolLoop.step ok (create poolPtr chunkSize (2 ^ k) maxString) s) :
    Sound poolPtr chunkSize maxString k s :=
  run.invariant sound_create fun _ _ _ hs _ move => hs.step hk move

end

/-- The coroutines read on the loop thread only. -/
def LoopReads (s : PoolLoop) : PoolAct → Prop
  | .read conn call => ∀ c ∈ s.conns[conn]?,
      c.session.LoopReads (.co (.read (call.asked s.maxString (s.reader c))))
  | .act conn act => ∀ c ∈ s.conns[conn]?, c.session.LoopReads act
  | _ => True

/-- **The two levels agree.**  In every run of any number of connections on one pool whose
coroutines read on the loop thread, the pool and the chains make a run of their own, each connection
makes a run of its own, and what a session has in its list is, chunk by chunk, what its chain holds;
so the counters that decide about backpressure and waiting are the same, and so is what a read of
any size returns that a string can have. -/
theorem shared_pool_refines {s : PoolLoop} {k poolPtr chunkSize maxString : ℕ} (hk : k ≤ 15)
    (run : Reach step LoopReads (create poolPtr chunkSize (2 ^ k) maxString) s) :
    Reach InputSide.step anyStep (.create poolPtr chunkSize (2 ^ k) maxString) s.input ∧
    ∀ c ∈ s.conns, c.session.Reached ∧
      (c.endpoint.alive = true → c.session.fault = none →
        Holds s.mem (s.reader c) c.session.read ∧
        (s.reader c).buf.totalLen = c.session.read.totalLen ∧
        (s.reader c).buf.chunks = c.session.read.totalChunk ∧
        ∀ n ≤ s.maxString, (Reader.removeAsString s.maxString s.mem (s.reader c) n).map Prod.fst
          = some (c.session.read.removeAsString n).1) := by
  have hs := reach_sound hk run
  have hinv := InputSide.reach_inv hk hs.input
  refine ⟨hs.input, fun c hc => ⟨hs.session c hc, fun halive hfault => ?_⟩⟩
  have hend : c.endpoint ∈ s.input.ends := List.mem_map_of_mem hc
  have hholds := hs.holds hk hc halive hfault
  refine ⟨hholds, hholds.counters.1, hholds.counters.2, fun n hn => ?_⟩
  obtain ⟨r', hr', -⟩ := hholds.removeAsString hn hinv.ring (hinv.room hend)
  rw [hr', Option.map_some]

instance (s : PoolLoop) : (a : PoolAct) → Decidable (LoopReads s a)
  | .read conn call => inferInstanceAs (Decidable (∀ c ∈ s.conns[conn]?,
      c.session.LoopReads (.co (.read (call.asked s.maxString (s.reader c))))))
  | .act conn act =>
      inferInstanceAs (Decidable (∀ c ∈ s.conns[conn]?, c.session.LoopReads act))
  | .connect .. | .deliver .. | .report .. | .handle | .destroy _ =>
      inferInstanceAs (Decidable True)

/-- Both connections wait for data and get a chunk each; the first has been handled and the
coroutine has consumed a part of it, the second is still in the queue. -/
theorem shared_pool_refines_two :
    let run := exec (guarded step LoopReads) (create 4096 4 (2 ^ 1) (2 ^ 62 - 1))
      [.connect 64 8 1024 4, .connect 64 8 1024 4, .act 0 .functor, .act 0 (.co .prepareToRead),
        .act 1 .functor, .act 1 (.co .prepareToRead), .deliver 0 [1, 2, 3] true,
        .deliver 1 [9] true, .handle, .read 0 (.removeAsString 2)]
    run.map (fun s => s.conns.map fun c =>
        (c.endpoint.alive, c.session.fault, c.session.read.inputBuffer))
        = some [(true, none, [[3]]), (true, none, [])] ∧
      ∀ s ∈ run, ∀ c ∈ s.conns, c.endpoint.alive = true → c.session.fault = none →
        Holds s.mem (s.reader c) c.session.read := by
  intro run
  exact ⟨by decide +kernel, fun s hs c hc halive hfault =>
    (((shared_pool_refines (by decide) (reach_of_exec hs)).2 c hc).2 halive hfault).1⟩

/-- The oldest completion can be handled when the loop is at rest, and no assertion of
`ReadContext::on_completion` fails. -/
theorem Sound.handles {s : PoolLoop} {k poolPtr chunkSize maxString : ℕ}
    (hs : Sound poolPtr chunkSize maxString k s) {c : PoolConn} {e : ReadCqe} {cq : List ReadCqe}
    (hcq : s.cq = e :: cq) (hc : s.conns[e.conn]? = some c)
    (halive : c.endpoint.alive = true) (hidle : c.session.ctl = .idle)
    (hfault : c.session.fault = none) :
    ∃ s' c', s.step .handle = some s' ∧ s'.conns[e.conn]? = some c' ∧
      c'.session.fault ≠ some .readHolder ∧ c'.session.fault ≠ some .readStatus := by
  have hmem := List.mem_of_getElem? hc
  have hlt : e.conn < s.conns.length := (List.getElem?_eq_some_iff.mp hc).1
  have hin : e ∈ s.cq := hcq ▸ List.mem_cons_self
  obtain ⟨t, ht⟩ : ∃ t, c.session.step (.readCqe e.res e.payload e.more) = some t := by
    simp [Session.step, hfault, hidle, hs.out hc hin rfl, hs.sizes e hin]
  have hsound : ∀ g, c.session.fault ≠ some g := by simp [hfault]
  have hfine := (Session.step_move ht).no_read_fault (hs.session c hmem).readProtocol
    ⟨hsound _, hsound _⟩
  simp only [PoolLoop.step, hcq, handleCqe, hc, Option.bind_some, halive, ht, if_pos,
    Option.map_some]
  split
  case isTrue =>
    exact ⟨_, { c with session := t }, rfl, List.getElem?_set_self hlt, hfine⟩
  case isFalse =>
    cases e.completion? with
    | none => exact ⟨_, { c with session := t }, rfl, List.getElem?_set_self hlt, hfine⟩
    | some x => exact ⟨_, ⟨t, _⟩, rfl, List.getElem?_set_self hlt, hfine⟩

/-- **A completion finds its connection.**  In every run, the connection of a completion in the
queue has not been destroyed, its read context is held and waits for a completion, and the loop can
handle the oldest one as soon as it is idle, without a failed assertion.  A connection that has been
destroyed has no receive in the kernel and no chunk. -/
theorem completions_find_connection {s : PoolLoop} {k poolPtr chunkSize maxString : ℕ} (hk : k ≤ 15)
    (run : Reach step anyStep (create poolPtr chunkSize (2 ^ k) maxString) s) :
    (∀ e ∈ s.cq, ∃ c, s.conns[e.conn]? = some c ∧ c.endpoint.alive = true ∧
      c.session.read.holder = true ∧ c.session.read.status ≠ .stoped ∧ c.session.held = true ∧
      (s.cq.head? = some e → c.session.ctl = .idle → c.session.fault = none →
        ∃ s' c', s.step .handle = some s' ∧ s'.conns[e.conn]? = some c' ∧
          c'.session.fault ≠ some .readHolder ∧ c'.session.fault ≠ some .readStatus)) ∧
    (∀ c ∈ s.conns, c.endpoint.alive = false →
      c.session.kernelReads = 0 ∧ (s.reader c).chain = []) := by
  have hs := reach_sound hk run
  constructor
  · intro e he
    obtain ⟨c, hc, hout⟩ := hs.posted e he
    have hmem := List.mem_of_getElem? hc
    obtain ⟨-, hholder, hstatus⟩ := (hs.session c hmem).holder hout
    have halive : c.endpoint.alive = true := by
      by_contra hdead
      have := (hs.dead c hmem (by simpa using hdead)).1
      omega
    refine ⟨c, hc, halive, hholder, hstatus, by simp [Session.held, hholder], ?_⟩
    intro hfirst
    obtain ⟨cq, hcq⟩ := List.head?_eq_some_iff.mp hfirst
    exact hs.handles hcq hc halive
  · intro c hc hdead
    obtain ⟨hreads, hempty⟩ := hs.dead c hc hdead
    exact ⟨hreads, by rw [reader, hempty]; rfl⟩

/-- A completion waits for a connection that the server has already let go of. -/
theorem completions_find_connection_removed :
    let run := exec step (create 4096 4 (2 ^ 1) (2 ^ 62 - 1))
      [.connect 64 8 1024 4, .act 0 .functor, .act 0 (.co .prepareToRead), .act 0 .serverDestroy,
        .act 0 .functor, .deliver 0 [1, 2, 3] true]
    run.map (fun s => (s.cq.map ReadCqe.conn, s.conns.map fun c =>
        (c.session.mapEntry, c.session.closing))) = some ([0], [(false, true)]) ∧
      ∀ s ∈ run, ∀ e ∈ s.cq, ∃ c, s.conns[e.conn]? = some c ∧ c.endpoint.alive = true := by
  intro run
  refine ⟨by decide +kernel, fun s hs e he => ?_⟩
  obtain ⟨c, hc, halive, -⟩ :=
    (completions_find_connection (by decide) (reach_of_exec_any hs)).1 e he
  exact ⟨c, hc, halive⟩

end PoolLoop

end Proactor
