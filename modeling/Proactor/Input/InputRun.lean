import Proactor.Core.Transition
import Proactor.Input.InputChainSpec

/-!
# The connections of a loop and their shared chunk pool

The system made of one `ChunkPoolManagerInput`, the memory of its pool, the completion queue and
any number of connections' input buffers, under every interleaving of

* the kernel taking the next published chunk, storing a payload there and posting a completion;
* the loop handling the oldest completion (the data branch of `ReadContext::on_completion`);
* `remove`, `removeAsString`, `removeAllAsString`, `peek` and `retrieve` on any buffer;
* connections being opened, and destroyed.

The kernel is modelled as documented: it consumes ring entries in order, writes only into the
chunk it has taken, and gives the chunk's id to exactly one completion.  A receive that ends with
`res <= 0` hands its chunk back inside the kernel, so nothing changes here.

A call that asks for a string longer than `std::string::max_size()` throws before it has copied
anything, and leaves the buffer as it is.

A connection is destroyed only when no completion of it is pending: the pending request holds a
`shared_ptr` to it in `holder_`.
-/

namespace Proactor

open Chain Transition

/-- `IORING_CQE_BUFFER_SHIFT`. -/
def cqeBufferShift : ℕ := 16

/-- A completion of a multishot receive with `res > 0`; `res` is the length of the payload. -/
structure Completion where
  conn : ℕ
  flags : ℕ
  payload : List UInt8

/-- `buf_id` in `ReadContext::on_completion`: bit 0 of the flags is `IORING_CQE_F_BUFFER`. -/
def Completion.bufId (e : Completion) : ℕ :=
  if e.flags &&& 1 ≠ 0 then (e.flags >>> cqeBufferShift) % 2 ^ 16 else 0

/-- A connection's input buffer.  `received` and `consumed` record what the completions brought
and what the connection has read. -/
structure Endpoint where
  buf : InputChainBuffer
  alive : Bool
  received : List UInt8
  consumed : List UInt8

/-- `maxString` is `std::string::max_size()`. -/
structure InputSide where
  maxString : ℕ
  manager : ChunkPoolManagerInput
  mem : ℕ → UInt8
  cq : List Completion
  ends : List Endpoint

/-- The calls of a connection that read its buffer. -/
inductive ReadCall
  | remove (len : ℕ)
  | removeAsString (size : ℕ)
  | removeAllAsString
  | peek
  | retrieve (len : ℕ)

inductive InputLabel
  | connect
  /-- The kernel delivers a payload, with or without `IORING_CQE_F_MORE`. -/
  | deliver (conn : ℕ) (payload : List UInt8) (more : Bool)
  | complete
  | read (conn : ℕ) (call : ReadCall)
  | destroy (conn : ℕ)

/-- What a call consumes, and the state after it.  A call that throws has consumed nothing. -/
def ReadCall.run (maxString : ℕ) (mem : ℕ → UInt8) (r : Reader) : ReadCall → List UInt8 × Reader
  | .remove len => ((Reader.remove mem r len).1, (Reader.remove mem r len).2.2)
  | .removeAsString size => (Reader.removeAsString maxString mem r size).getD ([], r)
  | .removeAllAsString => (Reader.removeAllAsString maxString mem r).getD ([], r)
  | .peek => ([], r)
  | .retrieve len => ((r.unread mem).take len, r.retrieve len)

/-! ## The pool's memory -/

section Memory

theorem readMem_writeMem_self (mem : ℕ → UInt8) (addr : ℕ) (data : List UInt8) :
    readMem (writeMem mem addr data) addr data.length = data := by
  refine List.ext_getElem (by simp) ?_
  intro i hi hi'
  simp [readMem, writeMem, hi']

theorem readMem_writeMem_of_apart {mem : ℕ → UInt8} {addr a n : ℕ} {data : List UInt8}
    (h : a + n ≤ addr ∨ addr + data.length ≤ a) :
    readMem (writeMem mem addr data) a n = readMem mem a n := by
  refine List.map_congr_left ?_
  intro i hi
  have hi' := List.mem_range.mp hi
  simp only [writeMem]
  rw [if_neg (by omega)]

/-- Storing into one chunk leaves the bytes of the others alone. -/
theorem readMem_writeMem_of_ne {mem : ℕ → UInt8} {data : List UInt8} {base size c d i n : ℕ}
    (hcd : c ≠ d) (hdata : data.length ≤ size) (hn : i + n ≤ size) :
    readMem (writeMem mem (base + size * d) data) (base + size * c + i) n
      = readMem mem (base + size * c + i) n := by
  refine readMem_writeMem_of_apart ?_
  rcases Nat.lt_or_gt_of_ne hcd with hlt | hgt
  · have := Nat.mul_le_mul_left size (Nat.succ_le_of_lt hlt)
    rw [Nat.mul_succ] at this
    omega
  · have := Nat.mul_le_mul_left size (Nat.succ_le_of_lt hgt)
    rw [Nat.mul_succ] at this
    omega

/-- The id that the kernel puts into the flags comes out of them again. -/
theorem bufId_flags (conn : ℕ) (payload : List UInt8) (more : Bool) {bid : ℕ} (h : bid < 2 ^ 16) :
    Completion.bufId ⟨conn, bid * 2 ^ cqeBufferShift + (if more then 2 else 0) + 1, payload⟩
      = bid := by
  have hshift : ∀ x < 2 ^ 16, (bid * 2 ^ 16 + x) >>> 16 % 2 ^ 16 = bid := by
    intro x hx
    rw [Nat.shiftRight_eq_div_pow]
    omega
  have hbit : ∀ x, (bid * 2 ^ 16 + 2 * x + 1) &&& 1 ≠ 0 := by
    intro x
    rw [Nat.and_one_is_mod]
    omega
  cases more with
  | false =>
      have := hbit 0
      simp only [Completion.bufId, cqeBufferShift, Bool.false_eq_true, if_false]
      rw [if_pos this, Nat.add_assoc, hshift _ (by decide)]
  | true =>
      have := hbit 1
      simp only [Completion.bufId, cqeBufferShift, if_true]
      rw [if_pos this, Nat.add_assoc, hshift _ (by decide)]

end Memory

namespace InputSide

/-- A loop without connections. -/
def create (poolPtr chunkSize chunkNum maxString : ℕ) : InputSide where
  maxString := maxString
  manager := .create poolPtr chunkSize chunkNum
  mem := fun _ => 0
  cq := []
  ends := []

/-- An endpoint's view of the pool. -/
def reader (s : InputSide) (e : Endpoint) : Reader := ⟨s.manager, e.buf⟩

/-- An operation of one live connection on the pool and on its own buffer. -/
def onEnd (s : InputSide) (conn : ℕ) (f : Endpoint → ChunkPoolManagerInput × Endpoint) :
    Option InputSide :=
  match s.ends[conn]? with
  | none => none
  | some e =>
      if e.alive then some { s with manager := (f e).1, ends := s.ends.set conn (f e).2 }
      else none

def step (s : InputSide) : InputLabel → Option InputSide
  | .connect => some { s with ends := s.ends ++ [⟨.empty, true, [], []⟩] }
  | .deliver conn payload more =>
      let slot := s.manager.ring.bufs (s.manager.ring.slot s.manager.mask 0)
      if 0 < s.manager.ring.published ∧ 0 < payload.length ∧ payload.length ≤ slot.len ∧
          (s.ends[conn]?.any fun e => e.alive) then
        some { s with
          manager := { s.manager with ring := s.manager.ring.consume }
          mem := writeMem s.mem slot.addr payload
          cq := s.cq ++
            [⟨conn, slot.bid * 2 ^ cqeBufferShift + (if more then 2 else 0) + 1, payload⟩] }
      else none
  | .complete =>
      match s.cq with
      | [] => none
      | e :: cq => { s with cq := cq }.onEnd e.conn fun p =>
          let r := (s.reader p).append e.bufId e.payload.length
          (r.pool, { p with buf := r.buf, received := p.received ++ e.payload })
  | .read conn call => s.onEnd conn fun p =>
      let (bytes, r) := call.run s.maxString s.mem (s.reader p)
      (r.pool, { p with buf := r.buf, consumed := p.consumed ++ bytes })
  | .destroy conn =>
      if s.cq.any fun e => e.conn == conn then none
      else s.onEnd conn fun p => ((s.reader p).destroy.pool, ⟨.empty, false, [], []⟩)

/-! ## Where the chunks are -/

/-- Published in the ring. -/
def published (s : InputSide) : List ℕ := s.manager.ring.publishedIds s.manager.mask

/-- In a completion that the loop has not handled yet. -/
def inFlight (s : InputSide) : List ℕ := s.cq.map Completion.bufId

/-- In the chain of a connection. -/
def chained (s : InputSide) : List ℕ := (s.ends.map fun e => (s.reader e).chain).flatten

/-! ## The invariant -/

/-- **The invariant of the shared pool.**  `conserved` says that each chunk is in exactly one
place; the other fields are what keeps it and the streams of bytes that way. -/
structure Inv (k : ℕ) (s : InputSide) : Prop where
  ring : RingHolds s.manager k s.published
  rep : ∀ e ∈ s.ends, ChainRep s.manager e.buf (s.reader e).chain
  conserved : (s.published ++ s.inFlight ++ s.chained).Perm (List.range (2 ^ k))
  clean : ∀ c ∈ s.published ++ s.inFlight, s.manager.Clean c
  payload : ∀ x ∈ s.cq, 0 < x.payload.length ∧ x.payload.length ≤ s.manager.chunkSize ∧
    readMem s.mem (s.manager.poolPtr + s.manager.chunkSize * x.bufId) x.payload.length = x.payload
  stream : ∀ e ∈ s.ends, e.alive → e.consumed ++ (s.reader e).unread s.mem = e.received

section Invariant

variable {s s' : InputSide} {k : ℕ} {e e' : Endpoint} {A B : List Endpoint} {l : List ℕ}

theorem create_inv (poolPtr chunkSize maxString : ℕ) (hk : k ≤ 15) :
    Inv k (create poolPtr chunkSize (2 ^ k) maxString) := by
  have hring := create_ringHolds poolPtr chunkSize hk
  have hpub : (create poolPtr chunkSize (2 ^ k) maxString).published = List.range (2 ^ k) :=
    hring.publishedIds_eq
  refine ⟨hpub ▸ hring, by simp [create], ?_, fun c _ => ⟨rfl, rfl, rfl⟩, by simp [create],
    by simp [create]⟩
  rw [hpub]
  simp [inFlight, chained, create]

/-- The chunks of a buffer fit into the ring beside those that are published. -/
theorem Inv.room (h : Inv k s) (he : e ∈ s.ends) :
    s.published.length + (s.reader e).chain.length ≤ 2 ^ k := by
  have hlen := h.conserved.length_eq
  have hchain : (s.reader e).chain.length ≤ s.chained.length :=
    (List.sublist_flatten_of_mem
      (List.mem_map_of_mem (f := fun d => (s.reader d).chain) he)).length_le
  simp only [List.length_append, List.length_range] at hlen
  omega

/-- Every chunk that is somewhere is one of the pool's. -/
theorem Inv.lt_of_mem (h : Inv k s) {c : ℕ} (hc : c ∈ s.published ++ s.inFlight ++ s.chained) :
    c < s.manager.chunkNum := by
  rw [h.ring.num]
  exact List.mem_range.mp (h.conserved.mem_iff.mp hc)

/-- **One connection's operation.**  The chunks `l₁` go back to the ring and `l₂` are the new
chain of the connection; together they are the chunks it had and those it took from the
completion queue.  If no other chunk changes, the invariant stays. -/
theorem Inv.onChunks (h : Inv k s) (l₁ l₂ : List ℕ) (hends : s.ends = A ++ e :: B)
    (hends' : s'.ends = A ++ e' :: B) (hmem : s'.mem = s.mem)
    (hsize : s'.manager.chunkSize = s.manager.chunkSize)
    (hptr : s'.manager.poolPtr = s.manager.poolPtr)
    (hcq : ∀ x ∈ s'.cq, x ∈ s.cq)
    (hmoved : (l₁ ++ l₂ ++ s'.inFlight).Perm ((s.reader e).chain ++ s.inFlight))
    (hring : RingHolds s'.manager k (s.published ++ l₁))
    (hclean : ∀ c ∈ l₁, s'.manager.Clean c)
    (hrep : ChainRep s'.manager e'.buf l₂)
    (hframe : ∀ c, c ∉ l₁ ++ l₂ → s'.manager.chunksData c = s.manager.chunksData c)
    (hstream : e'.alive → e'.consumed ++ unreadAll s.mem s'.manager l₂ = e'.received) :
    Inv k s' := by
  -- the chunks of the other connections, and that they are apart from all the rest
  obtain ⟨others, hothers⟩ :
      ∃ others, others = ((A ++ B).map fun d => (s.reader d).chain).flatten := ⟨_, rfl⟩
  have hperm : (s.published ++ (l₁ ++ l₂ ++ s'.inFlight) ++ others).Perm (List.range (2 ^ k)) := by
    refine List.Perm.trans ?_ h.conserved
    rw [List.perm_iff_count] at hmoved ⊢
    intro c
    have := hmoved c
    simp only [hothers, chained, hends, List.map_append, List.map_cons, List.flatten_append,
      List.flatten_cons, List.count_append] at this ⊢
    omega
  have hnodup := hperm.nodup_iff.mpr List.nodup_range
  have hkeep : ∀ c ∈ s.published ++ s'.inFlight ++ others,
      s'.manager.chunksData c = s.manager.chunksData c := by
    intro c hc
    refine hframe c ?_
    intro hc'
    have hone := List.nodup_iff_count_le_one.mp hnodup c
    have h1 := List.count_pos_iff.mpr hc
    have h2 := List.count_pos_iff.mpr hc'
    simp only [List.count_append] at hone h1 h2
    omega
  have hchain : ∀ d ∈ A ++ B, ∀ c ∈ (s.reader d).chain,
      s'.manager.chunksData c = s.manager.chunksData c := fun d hd c hc =>
    hkeep c (by simp only [hothers, List.mem_append, List.mem_flatten, List.mem_map]
                exact .inr ⟨_, ⟨d, by simpa using hd, rfl⟩, hc⟩)
  have hold : ∀ d ∈ A ++ B, d ∈ s.ends := by
    intro d hd
    rw [hends]
    simp only [List.mem_append, List.mem_cons] at hd ⊢
    exact hd.imp_right .inr
  have hrep' : ∀ d ∈ A ++ B, ChainRep s'.manager d.buf (s.reader d).chain := fun d hd =>
    (h.rep d (hold d hd)).congr hsize (hchain d hd)
  have hsame : ∀ d ∈ A ++ B, (s'.reader d).chain = (s.reader d).chain := fun d hd =>
    (hrep' d hd).toChainShape.chain_eq (r := s'.reader d)
  have hself : (s'.reader e').chain = l₂ := hrep.toChainShape.chain_eq (r := s'.reader e')
  have hmem' : ∀ d ∈ s'.ends, d = e' ∨ d ∈ A ++ B := by
    intro d hd
    rw [hends'] at hd
    simp only [List.mem_append, List.mem_cons] at hd ⊢
    tauto
  have hpub : s'.published = s.published ++ l₁ := hring.publishedIds_eq
  refine ⟨by rwa [hpub], ?_, ?_, ?_, ?_, ?_⟩
  · intro d hd
    rcases hmem' d hd with rfl | hd
    · rwa [hself]
    · rw [hsame d hd]
      exact hrep' d hd
  · have hchained : s'.chained.Perm (l₂ ++ others) := by
      rw [chained, hends', hothers, List.map_append, List.map_cons, hself, List.map_append,
        List.map_congr_left fun d hd => hsame d (List.mem_append_left _ hd),
        List.map_congr_left fun d hd => hsame d (List.mem_append_right _ hd),
        List.perm_iff_count]
      intro c
      simp only [List.flatten_append, List.flatten_cons, List.count_append]
      omega
    refine List.Perm.trans ?_ hperm
    rw [List.perm_iff_count] at hchained ⊢
    intro c
    have := hchained c
    simp only [hpub, List.count_append] at this ⊢
    omega
  · intro c hc
    rw [hpub] at hc
    have hsplit : c ∈ l₁ ∨ c ∈ s.published ++ s'.inFlight := by
      simp only [List.mem_append] at hc ⊢
      tauto
    rcases hsplit with hc | hc
    · exact hclean c hc
    · have hc' : c ∈ s.published ++ s.inFlight := by
        simp only [List.mem_append, inFlight, List.mem_map] at hc ⊢
        exact hc.imp_right fun ⟨x, hx, hxc⟩ => ⟨x, hcq x hx, hxc⟩
      rw [ChunkPoolManagerInput.Clean, ChunkPoolManagerInput.next,
        hkeep c (List.mem_append_left _ hc)]
      exact h.clean c hc'
  · intro x hx
    rw [hmem, hsize, hptr]
    exact h.payload x (hcq x hx)
  · intro d hd halive
    rw [hmem]
    rcases hmem' d hd with rfl | hd
    · rw [Reader.unread, hself]
      exact hstream halive
    · rw [← h.stream d (hold d hd) halive, Reader.unread, Reader.unread, hsame d hd]
      congr 1
      refine unreadAll_congr ?_
      intro c hc
      rw [Reader.unreadOf, Reader.unreadOf]
      simp only [reader, hchain d hd c hc]

/-- What `onEnd` can do. -/
theorem onEnd_cases {conn : ℕ} {f : Endpoint → ChunkPoolManagerInput × Endpoint}
    (h : s.onEnd conn f = some s') :
    ∃ A e B, s.ends = A ++ e :: B ∧ e.alive = true ∧
      s' = { s with manager := (f e).1, ends := A ++ (f e).2 :: B } := by
  rw [onEnd] at h
  split at h
  case h_1 => exact absurd h (by simp)
  case h_2 e he =>
    obtain ⟨hlt, rfl⟩ := List.getElem?_eq_some_iff.mp he
    split at h
    case isFalse => exact absurd h (by simp)
    case isTrue halive =>
      refine ⟨s.ends.take conn, s.ends[conn], s.ends.drop (conn + 1), ?_, halive, ?_⟩
      · rw [← List.drop_eq_getElem_cons hlt, List.take_append_drop]
      · rw [List.set_eq_take_append_cons_drop, if_pos hlt] at h
        exact (Option.some.inj h).symm

theorem connect_inv (h : Inv k s) :
    Inv k { s with ends := s.ends ++ [⟨.empty, true, [], []⟩] } := by
  have hends : ∀ d ∈ s.ends ++ [⟨.empty, true, [], []⟩],
      d ∈ s.ends ∨ d = ⟨.empty, true, [], []⟩ := by simp
  refine ⟨h.ring, ?_, ?_, h.clean, h.payload, ?_⟩
  · intro d hd
    rcases hends d hd with hd | rfl
    · exact h.rep d hd
    · exact chainRep_empty _
  · have hempty : (s.reader ⟨.empty, true, [], []⟩).chain = [] := rfl
    have hchained : InputSide.chained { s with ends := s.ends ++ [⟨.empty, true, [], []⟩] }
        = s.chained := by
      rw [chained, chained, List.map_append, List.flatten_append]
      simp [reader, Reader.chain, walk, InputChainBuffer.empty]
    rw [hchained]
    exact h.conserved
  · intro d hd halive
    rcases hends d hd with hd | rfl
    · exact h.stream d hd halive
    · rfl

/-- Every call leaves the rest of the unread bytes in the chain. -/
theorem ReadCall.run_spec {maxString : ℕ} {mem : ℕ → UInt8} {r : Reader} {ids : List ℕ}
    (call : ReadCall) (hring : RingHolds r.pool k ids) (h : ChainRep r.pool r.buf l)
    (hroom : ids.length + l.length ≤ 2 ^ k) :
    ∃ l₁ l₂, l = l₁ ++ l₂ ∧ Returned r k ids l₁ l₂ (call.run maxString mem r).2 ∧
      ChainRep (call.run maxString mem r).2.pool (call.run maxString mem r).2.buf l₂ ∧
      (call.run maxString mem r).1 ++ unreadAll mem (call.run maxString mem r).2.pool l₂
        = unreadAll mem r.pool l := by
  have hnothing : ∃ l₁ l₂, l = l₁ ++ l₂ ∧ Returned r k ids l₁ l₂ r ∧
      ChainRep r.pool r.buf l₂ ∧ [] ++ unreadAll mem r.pool l₂ = unreadAll mem r.pool l :=
    ⟨[], l, rfl, Returned.start hring h.toChainShape, h, rfl⟩
  have hremove : ∀ len, ∃ l₁ l₂, l = l₁ ++ l₂ ∧
      Returned r k ids l₁ l₂ (Reader.remove mem r len).2.2 ∧
      ChainRep (Reader.remove mem r len).2.2.pool (Reader.remove mem r len).2.2.buf l₂ ∧
      (unreadAll mem r.pool l).take len ++ unreadAll mem (Reader.remove mem r len).2.2.pool l₂
        = unreadAll mem r.pool l := by
    intro len
    obtain ⟨-, -, l₁, l₂, hl, hret, hrep, hrest⟩ := remove_spec mem len hring h hroom
    refine ⟨l₁, l₂, hl, hret, hrep, ?_⟩
    rw [unreadAll, unreadAll, hrest, Chunked.flatten_dropFlat, List.take_append_drop]
  cases call with
  | remove len =>
      simp only [ReadCall.run, (remove_spec mem len hring h hroom).1]
      exact hremove len
  | removeAsString size =>
      simp only [ReadCall.run, removeAsString_eq maxString mem size hring h hroom]
      split
      case isTrue => exact hnothing
      case isFalse => exact hremove size
  | removeAllAsString =>
      simp only [ReadCall.run, Reader.removeAllAsString,
        removeAsString_eq maxString mem _ hring h hroom]
      split
      case isTrue => exact hnothing
      case isFalse => exact hremove _
  | peek => exact hnothing
  | retrieve len =>
      simp only [ReadCall.run, retrieve_eq_remove mem, h.toChainShape.unread_eq mem]
      exact hremove len

theorem read_inv {conn : ℕ} {call : ReadCall} (h : Inv k s)
    (move : s.step (.read conn call) = some s') : Inv k s' := by
  obtain ⟨A, e, B, hends, halive, rfl⟩ := onEnd_cases move
  have he : e ∈ s.ends := by simp [hends]
  obtain ⟨l₁, l₂, hl, hret, hrep, hrest⟩ :=
    ReadCall.run_spec (r := s.reader e) call h.ring (h.rep e he) (h.room he)
  refine h.onChunks l₁ l₂ hends rfl rfl hret.chunkSize hret.poolPtr
    (fun _ => id) ?_ hret.ring hret.clean hrep hret.frame ?_
  · rw [hl]; rfl
  · intro _
    simp only [List.append_assoc]
    rw [hrest, ← h.stream e he halive]
    rfl

theorem destroy_inv {conn : ℕ} (h : Inv k s)
    (move : s.step (.destroy conn) = some s') : Inv k s' := by
  rw [step] at move
  split at move
  case isTrue => exact absurd move (by simp)
  case isFalse =>
    obtain ⟨A, e, B, hends, -, rfl⟩ := onEnd_cases move
    have he : e ∈ s.ends := by simp [hends]
    have hret := destroy_spec (r := s.reader e) h.ring (h.rep e he).toChainShape (h.room he)
    refine h.onChunks (s.reader e).chain [] hends rfl rfl hret.chunkSize
      hret.poolPtr (fun _ => id) ?_ hret.ring hret.clean (chainRep_empty _) hret.frame (by simp)
    rw [List.append_nil]; rfl

theorem complete_inv (h : Inv k s) (move : s.step .complete = some s') : Inv k s' := by
  rw [step] at move
  split at move
  case h_1 => exact absurd move (by simp)
  case h_2 x cq hcq =>
    obtain ⟨A, e, B, hends, halive, rfl⟩ := onEnd_cases move
    have he : e ∈ s.ends := by
      have : s.ends = A ++ e :: B := hends
      simp [this]
    have hflight : s.inFlight = x.bufId :: cq.map Completion.bufId := by simp [inFlight, hcq]
    have hx : x.bufId ∈ s.published ++ s.inFlight := by simp [hflight]
    obtain ⟨hpos, hlen, hdata⟩ := h.payload x (by simp [hcq])
    have hnum : x.bufId < (s.reader e).pool.chunkNum :=
      h.lt_of_mem (List.mem_append_left _ hx)
    have hnew : x.bufId ∉ (s.reader e).chain := by
      intro hmem
      have hnodup := h.conserved.nodup_iff.mpr List.nodup_range
      refine List.disjoint_of_nodup_append hnodup hx ?_
      exact List.mem_flatten.mpr ⟨_, List.mem_map_of_mem he, hmem⟩
    have hclean : (s.reader e).pool.Clean x.bufId := h.clean _ hx
    have hshape : ChainShape (s.reader e).pool (s.reader e).buf (s.reader e).chain :=
      (h.rep e he).toChainShape
    obtain ⟨⟨hsize, hptr⟩, -⟩ := hshape.append_eq (n := x.payload.length) hnum hnew
    have hrep := (h.rep e he).append (r := s.reader e) hnum hnew hclean hpos hlen
    have hring := RingHolds.append (r := s.reader e) h.ring x.bufId x.payload.length
    refine h.onChunks [] ((s.reader e).chain ++ [x.bufId]) hends rfl rfl hsize hptr
      (fun y hy => by rw [hcq]; exact List.mem_cons_of_mem _ hy) ?_ ?_ (by simp) hrep
      (fun c hc => hshape.append_frame hnum hnew hc) ?_
    · rw [hflight, List.nil_append, List.append_assoc]
      exact List.Perm.refl _
    · rwa [List.append_nil]
    · intro _
      have hunread := hshape.append_unread s.mem (n := x.payload.length) hnum hnew hclean
      have hread : readMem s.mem ((s.reader e).pool.chunksData x.bufId).dataPtr x.payload.length
          = x.payload := by
        have hdp : ((s.reader e).pool.chunksData x.bufId).dataPtr
            = s.manager.poolPtr + s.manager.chunkSize * x.bufId := h.ring.dataPtr _
        rw [hdp, hdata]
      rw [hread] at hunread
      simp only
      rw [hunread, ← List.append_assoc, ← h.stream e he halive]
      rfl

/-- The first published chunk moves into a completion, with a payload in its memory.  It is in no
chain and in no other completion, so no other bytes change. -/
theorem Inv.deliver {id : ℕ} {ids : List ℕ} {x : Completion} (h : Inv k s)
    (hids : s.published = id :: ids) (hx : x.bufId = id) (hpos : 0 < x.payload.length)
    (hlen : x.payload.length ≤ s.manager.chunkSize) :
    Inv k { s with
      manager := { s.manager with ring := s.manager.ring.consume }
      mem := writeMem s.mem (s.manager.poolPtr + s.manager.chunkSize * id) x.payload
      cq := s.cq ++ [x] } := by
  have hring : RingHolds { s.manager with ring := s.manager.ring.consume } k ids := by
    have hring := h.ring
    rw [hids] at hring
    exact hring.consume
  have hpub : BufRing.publishedIds s.manager.ring.consume s.manager.mask = ids :=
    hring.publishedIds_eq
  have hnodup := h.conserved.nodup_iff.mpr List.nodup_range
  rw [hids, List.cons_append, List.cons_append, List.nodup_cons] at hnodup
  have hflight : ∀ y ∈ s.cq, y.bufId ≠ id := fun y hy heq =>
    hnodup.1 (by simp [inFlight]; exact .inr (.inl ⟨y, hy, heq⟩))
  have hchain : ∀ e ∈ s.ends, ∀ c ∈ (s.reader e).chain, c ≠ id := fun e he c hc heq =>
    hnodup.1 (by simp [chained]; exact .inr (.inr ⟨e, he, heq ▸ hc⟩))
  refine ⟨?_, fun e he => (h.rep e he).congr rfl fun _ _ => rfl, ?_, ?_, ?_,
    ?_⟩
  · simpa only [published, hpub] using hring
  · refine List.Perm.trans ?_ h.conserved
    simp only [published, hpub] at hids ⊢
    rw [hids]
    simp only [inFlight, List.map_append, List.map_cons, List.map_nil, hx, List.perm_iff_count,
      List.count_append, List.count_cons, List.count_nil]
    intro c
    have hsame : InputSide.chained { s with
        manager := { s.manager with ring := s.manager.ring.consume }
        mem := writeMem s.mem (s.manager.poolPtr + s.manager.chunkSize * id) x.payload
        cq := s.cq ++ [x] } = s.chained := rfl
    rw [hsame]
    omega
  · intro c hc
    refine h.clean c ?_
    simp only [published, hpub, inFlight, List.map_append, List.map_cons, List.map_nil, hx,
      List.mem_append, List.mem_singleton] at hc
    rw [hids]
    simp only [inFlight, List.cons_append, List.mem_cons, List.mem_append]
    tauto
  · intro y hy
    rcases List.mem_append.mp hy with hy | hy
    · obtain ⟨h1, h2, h3⟩ := h.payload y hy
      exact ⟨h1, h2, (readMem_writeMem_of_ne (i := 0) (hflight y hy) hlen (by omega)).trans h3⟩
    · obtain rfl := List.mem_singleton.mp hy
      exact ⟨hpos, hlen, by rw [hx]; exact readMem_writeMem_self ..⟩
  · intro e he halive
    refine Eq.trans ?_ (h.stream e he halive)
    congr 1
    refine unreadAll_congr ?_
    intro c hc
    have hlive := (h.rep e he).live c hc
    have hdp : (s.manager.chunksData c).dataPtr = s.manager.poolPtr + s.manager.chunkSize * c :=
      h.ring.dataPtr c
    have hin : (s.manager.chunksData c).head + (s.manager.chunksData c).readableBytes
        ≤ s.manager.chunkSize := by
      simp only [Chunk.readableBytes]
      omega
    simp only [Reader.unreadOf, reader, hdp]
    exact readMem_writeMem_of_ne (hchain e he c hc) hlen hin

theorem deliver_inv {conn : ℕ} {payload : List UInt8} {more : Bool} (h : Inv k s)
    (move : s.step (.deliver conn payload more) = some s') : Inv k s' := by
  simp only [step, Option.ite_none_right_eq_some, Option.some.injEq] at move
  obtain ⟨⟨hpub, hpos, hlen, -⟩, rfl⟩ := move
  rw [h.ring.published_eq] at hpub
  obtain ⟨id, ids, hids⟩ := List.exists_cons_of_length_pos hpub
  have hslot := h.ring.slots_bid 0 hpub
  have hfirst : s.published[0] = id := by simp [hids]
  rw [hslot, hfirst] at hlen ⊢
  have hid : id < 2 ^ 16 := by
    have hlt := h.lt_of_mem (c := id) (by simp [hids])
    have hk := ChunkPoolManagerInput.two_pow_le h.ring.small
    rw [h.ring.num] at hlt
    omega
  exact h.deliver hids (bufId_flags conn payload more hid) hpos hlen

theorem step_inv {a : InputLabel} (h : Inv k s) (move : s.step a = some s') : Inv k s' := by
  cases a with
  | connect =>
      obtain rfl := Option.some.inj move
      exact connect_inv h
  | deliver conn payload more => exact deliver_inv h move
  | complete => exact complete_inv h move
  | read conn call => exact read_inv h move
  | destroy conn => exact destroy_inv h move

theorem reach_inv {poolPtr chunkSize maxString : ℕ} (hk : k ≤ 15)
    (run : Reach step anyStep (create poolPtr chunkSize (2 ^ k) maxString) s) : Inv k s :=
  run.invariant (create_inv poolPtr chunkSize maxString hk) fun _ _ _ h _ move => step_inv h move

end Invariant

/-! ## Chunk conservation -/

/-- **Chunk conservation.**  In every run, each chunk id is in exactly one place: published, in an
undelivered completion, or once in one chain.  What is published is clean, fits into the ring,
and has never been overwritten there. -/
theorem chunk_conservation {s : InputSide} {k poolPtr chunkSize maxString : ℕ} (hk : k ≤ 15)
    (run : Reach step anyStep (create poolPtr chunkSize (2 ^ k) maxString) s) :
    (s.published ++ s.inFlight ++ s.chained).Perm (List.range (2 ^ k)) ∧
      (∀ c ∈ s.published, s.manager.Clean c) ∧
      s.manager.ring.published ≤ 2 ^ k ∧ s.manager.ring.overwrote = false := by
  have h := reach_inv hk run
  refine ⟨h.conserved, fun c hc => h.clean c (List.mem_append_left _ hc), ?_, h.ring.kept⟩
  rw [h.ring.published_eq]
  exact h.ring.fits

/-- Two chunks and two connections: one chunk is read to its end and published again, the other
is still in a completion. -/
theorem chunk_conservation_two :
    let run := exec step (create 4096 4 (2 ^ 1) (2 ^ 62 - 1))
      [.connect, .connect, .deliver 0 [1, 2, 3] true, .deliver 1 [4] false, .complete,
        .read 0 (.retrieve 3)]
    run.map (fun s => (s.published, s.inFlight, s.chained)) = some ([0], [1], []) ∧
      ∀ s ∈ run, (s.published ++ s.inFlight ++ s.chained).Perm (List.range (2 ^ 1)) := by
  intro run
  exact ⟨by decide +kernel, fun s hs =>
    (chunk_conservation (by decide) (reach_of_exec_any hs)).1⟩

/-! ## Input stream integrity -/

/-- A connection's buffer holds what was received and not yet consumed, its counters are right,
and every call reads from the front of it without taking more than `total_len_`. -/
structure StreamIntact (s : InputSide) (e : Endpoint) : Prop where
  stream : e.consumed ++ (s.reader e).unread s.mem = e.received
  total : e.buf.totalLen
    = ((s.reader e).chain.map fun c => (s.manager.chunksData c).readableBytes).sum
  chunks : e.buf.chunks = (s.reader e).chain.length
  readable : ∀ c ∈ (s.reader e).chain, 1 ≤ (s.manager.chunksData c).readableBytes
  remove : ∀ len, (Reader.remove s.mem (s.reader e) len).1
      = ((s.reader e).unread s.mem).take (min len e.buf.totalLen) ∧
    (Reader.remove s.mem (s.reader e) len).2.1 = min len e.buf.totalLen
  removeAsString : ∀ size, (Reader.removeAsString s.maxString s.mem (s.reader e) size).map Prod.fst
    = if size ≤ s.maxString then some (((s.reader e).unread s.mem).take (min size e.buf.totalLen))
      else none
  removeAllAsString : (Reader.removeAllAsString s.maxString s.mem (s.reader e)).map Prod.fst
    = if e.buf.totalLen ≤ s.maxString then some ((s.reader e).unread s.mem) else none
  peek : ∀ addr n, (s.reader e).peek = (some addr, n) →
    readMem s.mem addr n <+: (s.reader e).unread s.mem
  removeCovered : ∀ len, (Reader.removeLoop s.mem (s.reader e) len).1.2
    ≤ (Reader.removeLoop s.mem (s.reader e) len).1.1.buf.totalLen
  retrieveCovered : ∀ len, ((s.reader e).retrieveLoop len).2
    ≤ ((s.reader e).retrieveLoop len).1.buf.totalLen

section Stream

variable {s : InputSide} {k : ℕ} {e : Endpoint}

/-- `peek` shows the unread bytes of the first chunk. -/
theorem peek_prefix {r : Reader} {l : List ℕ} {mem : ℕ → UInt8} (h : ChainShape r.pool r.buf l)
    {addr n : ℕ} (hpeek : r.peek = (some addr, n)) : readMem mem addr n <+: r.unread mem := by
  rw [h.unread_eq]
  cases l with
  | nil =>
      have hhead : r.buf.head = none := h.linked
      simp [Reader.peek, hhead] at hpeek
  | cons x l =>
      have hhead : r.buf.head = some x := h.linked.1
      simp only [Reader.peek, hhead, Prod.mk.injEq, Option.some.injEq] at hpeek
      rw [unreadAll_cons, ← hpeek.1, ← hpeek.2]
      exact List.prefix_append _ _

theorem Inv.streamIntact (h : Inv k s) (he : e ∈ s.ends) (halive : e.alive = true) :
    StreamIntact s e := by
  have hring : RingHolds (s.reader e).pool k s.published := h.ring
  have hrep : ChainRep (s.reader e).pool (s.reader e).buf (s.reader e).chain := h.rep e he
  have hunread := ChainShape.unread_eq (r := s.reader e) s.mem hrep.toChainShape
  have hlen : ((s.reader e).unread s.mem).length = e.buf.totalLen := by
    rw [hunread]
    exact hrep.totalLen_eq.symm
  have hmin : ∀ n, ((s.reader e).unread s.mem).take (min n e.buf.totalLen)
      = ((s.reader e).unread s.mem).take n := by
    intro n
    rw [← hlen, List.take_eq_take_iff]
    omega
  have hloop := fun n => removeLoop_le_totalLen s.mem n hring hrep (h.room he)
  have hstring : ∀ size, (Reader.removeAsString s.maxString s.mem (s.reader e) size).map Prod.fst
      = if size ≤ s.maxString then some (((s.reader e).unread s.mem).take size) else none := by
    intro size
    rw [removeAsString_eq s.maxString s.mem size hring hrep (h.room he), hunread]
    by_cases hmax : size ≤ s.maxString
    · rw [if_neg (Nat.not_lt.mpr hmax), if_pos hmax, Option.map_some]
    · rw [if_pos (Nat.lt_of_not_le hmax), if_neg hmax, Option.map_none]
  refine
    { stream := h.stream e he halive
      total := hrep.total
      chunks := hrep.chunks
      readable := fun c hc => ?_
      remove := fun len => ?_
      removeAsString := fun size => ?_
      removeAllAsString := ?_
      peek := fun addr n => peek_prefix hrep.toChainShape
      removeCovered := fun len => ?_
      retrieveCovered := fun len => ?_ }
  · have hlive := hrep.live c hc
    simp only [reader] at hlive
    simp only [Chunk.readableBytes]
    omega
  · obtain ⟨hout, hcount, -⟩ := remove_spec s.mem len hring hrep (h.room he)
    rw [hmin, hunread]
    exact ⟨hout, hcount⟩
  · rw [hmin]
    exact hstring size
  · rw [Reader.removeAllAsString, hstring]
    exact if_congr Iff.rfl (congrArg some (List.take_of_length_le (Nat.le_of_eq hlen))) rfl
  · rw [(hloop len).1, (hloop len).2]
    exact Nat.min_le_right _ _
  · rw [retrieveLoop_eq_removeLoop s.mem, (hloop len).1, (hloop len).2]
    exact Nat.min_le_right _ _

end Stream

/-- **Input stream integrity.**  In every run, every live connection has consumed what it received
up to a point and holds the rest, whatever the other connections on the pool do.  A call returns the
bytes it asks for if a string can have that size, and throws otherwise. -/
theorem input_stream_integrity {s : InputSide} {k poolPtr chunkSize maxString : ℕ} (hk : k ≤ 15)
    (run : Reach step anyStep (create poolPtr chunkSize (2 ^ k) maxString) s) :
    ∀ e ∈ s.ends, e.alive = true → StreamIntact s e :=
  fun _ he halive => (reach_inv hk run).streamIntact he halive

/-- A read across a chunk boundary, with another connection on the same two chunks. -/
theorem input_stream_integrity_shared :
    let run := exec step (create 4096 4 (2 ^ 1) (2 ^ 62 - 1))
      [.connect, .connect, .deliver 0 [1, 2, 3] true, .complete, .deliver 0 [4, 5] true,
        .complete, .read 0 (.removeAsString 4), .deliver 1 [9] true, .complete]
    run.map (fun s => s.ends.map fun e => (e.alive, e.received, e.consumed))
        = some [(true, [1, 2, 3, 4, 5], [1, 2, 3, 4]), (true, [9], [])] ∧
      ∀ s ∈ run, ∀ e ∈ s.ends, e.alive = true →
        e.consumed ++ (s.reader e).unread s.mem = e.received := by
  intro run
  exact ⟨by decide +kernel, fun s hs e he halive =>
    (input_stream_integrity (by decide) (reach_of_exec_any hs) e he halive).stream⟩

/-- `removeAsString(2^63)` does not return the three bytes that are buffered: there is no string of
`2^63` zeros to start with. -/
theorem removeAsString_throws : ¬ ∀ s,
    Reach step anyStep (create 4096 4 (2 ^ 1) (2 ^ 62 - 1)) s → ∀ e ∈ s.ends, e.alive = true →
      ∀ size, (Reader.removeAsString s.maxString s.mem (s.reader e) size).map Prod.fst
        = some (((s.reader e).unread s.mem).take (min size e.buf.totalLen)) := by
  intro hclaim
  obtain ⟨s, run, hs⟩ := exists_reach step anyStep (create 4096 4 (2 ^ 1) (2 ^ 62 - 1))
    [.connect, .deliver 0 [1, 2, 3] true, .complete]
    (fun s => s.ends.any fun e => e.alive && decide (s.maxString < 2 ^ 63)) (by decide +kernel)
  obtain ⟨e, he, hlive⟩ := List.any_eq_true.mp hs
  rw [Bool.and_eq_true, decide_eq_true_eq] at hlive
  have hreturned := hclaim s run e he hlive.1 (2 ^ 63)
  rw [Reader.removeAsString, if_pos hlive.2] at hreturned
  exact absurd hreturned (by simp)

end InputSide

end Proactor
