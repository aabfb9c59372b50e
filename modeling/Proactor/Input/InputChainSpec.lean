import Proactor.Core.Chunked
import Proactor.Input.ChunkPoolSpec
import Proactor.Input.InputChainBuffer
import Mathlib.Algebra.BigOperators.Group.List.Basic

/-!
# What the input chain holds

`ChainRep m b l` says that the buffer `b` strings the chunks `l` together in the pool `m`, every
one of them with something left to read.  Each operation has one specification:

* `ChainRep.append` — one more chunk at the end;
* `remove_spec` — the first bytes are copied out, and the chunks read to their end go back to the
  ring, in order;
* `retrieve_eq_remove` — `retrieve` does to the buffer what `remove` does;
* `destroy_spec` — every chunk goes back.

Besides its own chunks an operation changes none (`Returned.frame`), which is what lets several
connections share a pool.
-/

namespace Proactor

open Chain Chunked Loop

/-- A chunk as the kernel may be given it. -/
def ChunkPoolManagerInput.Clean (m : ChunkPoolManagerInput) (c : ℕ) : Prop :=
  (m.chunksData c).head = 0 ∧ (m.chunksData c).tail = 0 ∧ m.next c = none

/-- The unread bytes of the chunks `l`, chunk by chunk. -/
def contents (mem : ℕ → UInt8) (m : ChunkPoolManagerInput) (l : List ℕ) : List (List UInt8) :=
  l.map (Reader.unreadOf mem m)

/-- The unread bytes of the chunks `l`. -/
def unreadAll (mem : ℕ → UInt8) (m : ChunkPoolManagerInput) (l : List ℕ) : List UInt8 :=
  (contents mem m l).flatten

/-- The buffer `b` strings the chunks `l` together. -/
structure Strung (m : ChunkPoolManagerInput) (b : InputChainBuffer) (l : List ℕ) : Prop where
  linked : Linked m.next b.head l
  tail : b.tail = l.getLast?
  chunks : b.chunks = l.length

/-- Every chunk of the chain has something left to read, within its bounds. -/
structure ChainShape (m : ChunkPoolManagerInput) (b : InputChainBuffer) (l : List ℕ) : Prop
    extends Strung m b l where
  live : ∀ c ∈ l, (m.chunksData c).head < (m.chunksData c).tail ∧
    (m.chunksData c).tail ≤ m.chunkSize

/-- The buffer `b` holds the chunks `l`. -/
structure ChainRep (m : ChunkPoolManagerInput) (b : InputChainBuffer) (l : List ℕ) : Prop
    extends ChainShape m b l where
  total : b.totalLen = (l.map fun c => (m.chunksData c).readableBytes).sum

section Frame

variable {mem mem' : ℕ → UInt8} {m m' : ChunkPoolManagerInput} {b : InputChainBuffer}
  {l l₁ l₂ : List ℕ}

@[simp] theorem readMem_length (mem : ℕ → UInt8) (addr n : ℕ) :
    (readMem mem addr n).length = n := by
  simp [readMem]

theorem readMem_take (mem : ℕ → UInt8) (addr i n : ℕ) :
    (readMem mem addr n).take i = readMem mem addr (min i n) := by
  simp only [readMem, ← List.map_take, List.take_range]

theorem readMem_add (mem : ℕ → UInt8) (addr i n : ℕ) :
    readMem mem addr (i + n) = readMem mem addr i ++ readMem mem (addr + i) n := by
  simp [readMem, List.range_add, Nat.add_assoc]

theorem contents_cons {c : ℕ} :
    contents mem m (c :: l) = Reader.unreadOf mem m c :: contents mem m l := rfl

theorem unreadAll_cons {c : ℕ} :
    unreadAll mem m (c :: l) = Reader.unreadOf mem m c ++ unreadAll mem m l := by
  simp [unreadAll, contents]

@[simp] theorem unreadOf_length (c : ℕ) :
    (Reader.unreadOf mem m c).length = (m.chunksData c).readableBytes := by
  simp [Reader.unreadOf]

theorem unreadAll_length : (unreadAll mem m l).length
    = (l.map fun c => (m.chunksData c).readableBytes).sum := by
  simp only [unreadAll, contents, List.length_flatten, List.map_map]
  congr 1
  exact List.map_congr_left fun c _ => unreadOf_length c

theorem contents_congr (h : ∀ c ∈ l, Reader.unreadOf mem' m' c = Reader.unreadOf mem m c) :
    contents mem' m' l = contents mem m l :=
  List.map_congr_left h

theorem unreadAll_congr (h : ∀ c ∈ l, Reader.unreadOf mem' m' c = Reader.unreadOf mem m c) :
    unreadAll mem' m' l = unreadAll mem m l := by
  rw [unreadAll, unreadAll, contents_congr h]

/-- Only the metadata of the chunks in the chain matters. -/
theorem Strung.congr (h : Strung m b l) (heq : ∀ c ∈ l, m'.next c = m.next c) : Strung m' b l :=
  ⟨h.linked.congr heq, h.tail, h.chunks⟩

theorem ChainShape.congr (h : ChainShape m b l) (hsize : m'.chunkSize = m.chunkSize)
    (heq : ∀ c ∈ l, m'.chunksData c = m.chunksData c) : ChainShape m' b l where
  toStrung := h.toStrung.congr fun c hc => by simp [ChunkPoolManagerInput.next, heq c hc]
  live c hc := by simpa [heq c hc, hsize] using h.live c hc

theorem ChainRep.congr (h : ChainRep m b l) (hsize : m'.chunkSize = m.chunkSize)
    (heq : ∀ c ∈ l, m'.chunksData c = m.chunksData c) : ChainRep m' b l where
  toChainShape := h.toChainShape.congr hsize heq
  total := by
    rw [h.total]
    congr 1
    exact List.map_congr_left fun c hc => by rw [heq c hc]

theorem ChainRep.totalLen_eq (h : ChainRep m b l) : b.totalLen = (unreadAll mem m l).length := by
  rw [h.total, unreadAll_length]

theorem ChainShape.chain_eq {r : Reader} (h : ChainShape r.pool r.buf l) : r.chain = l := by
  rw [Reader.chain, h.chunks, h.linked.walk_eq]

theorem ChainShape.unread_eq {r : Reader} (mem : ℕ → UInt8) (h : ChainShape r.pool r.buf l) :
    r.unread mem = unreadAll mem r.pool l := by
  rw [Reader.unread, h.chain_eq, unreadAll, contents]

/-- No chunk of a chain is empty. -/
theorem ChainShape.contents_ne_nil (mem : ℕ → UInt8) (h : ChainShape m b l) :
    ∀ c ∈ contents mem m l, c ≠ [] := by
  intro c hc
  obtain ⟨x, hx, rfl⟩ := List.mem_map.mp hc
  rw [← List.length_pos_iff, unreadOf_length, Chunk.readableBytes]
  have hlive := (h.live x hx).1
  omega

theorem chainRep_empty (m : ChunkPoolManagerInput) : ChainRep m .empty [] :=
  ⟨⟨⟨rfl, rfl, rfl⟩, by simp⟩, rfl⟩

end Frame

/-! ## Appending -/

section Append

variable {r : Reader} {l ids : List ℕ} {k c n : ℕ}

/-- The metadata after `append`: the new chunk has its bytes, the old last one its link. -/
theorem ChainShape.append_eq (h : ChainShape r.pool r.buf l) (hc : c < r.pool.chunkNum)
    (hnew : c ∉ l) :
    ((r.append c n).pool.chunkSize = r.pool.chunkSize ∧
      (r.append c n).pool.poolPtr = r.pool.poolPtr) ∧
    (r.append c n).buf = ⟨(l ++ [c]).head?, some c, r.buf.chunks + 1, r.buf.totalLen + n⟩ ∧
    (r.append c n).pool.chunksData c
      = { r.pool.chunksData c with tail := (r.pool.chunksData c).tail + n } ∧
    ∀ d, d ≠ c → (r.append c n).pool.chunksData d
      = { r.pool.chunksData d with
          next := if l.getLast? = some d then some c else r.pool.next d } := by
  have hget : r.pool.getChunkById c = some c := by
    simp [ChunkPoolManagerInput.getChunkById, hc]
  rcases List.eq_nil_or_concat' l with rfl | ⟨l', t, rfl⟩
  · have htail : r.buf.tail = none := h.tail
    refine ⟨?_, ?_, ?_, ?_⟩
    · simp [Reader.append, Reader.pushBack, htail, hget]
    · simp [Reader.append, Reader.pushBack, htail, hget]
    · simp [Reader.append, Reader.pushBack, htail, hget]
    · intro d hd
      simp [Reader.append, Reader.pushBack, htail, hget, hd, ChunkPoolManagerInput.next]
  · have htail : r.buf.tail = some t := by simp [h.tail]
    have hhead : r.buf.head = (l' ++ [t]).head? := h.linked.head_eq
    have hct : c ≠ t := fun h => hnew (by simp [h])
    refine ⟨?_, ?_, ?_, ?_⟩
    · simp [Reader.append, Reader.pushBack, htail, hget]
    · simp [Reader.append, Reader.pushBack, htail, hget, hhead]
    · simp [Reader.append, Reader.pushBack, htail, hget, hct]
    · intro d hd
      by_cases hdt : d = t
      · subst hdt; simp [Reader.append, Reader.pushBack, htail, hget, hd]
      · simp [Reader.append, Reader.pushBack, htail, hget, hd, hdt, Ne.symm hdt,
          ChunkPoolManagerInput.next]

/-- `append` changes no chunk of another chain. -/
theorem ChainShape.append_frame (h : ChainShape r.pool r.buf l) (hc : c < r.pool.chunkNum)
    (hnew : c ∉ l) {d : ℕ} (hd : d ∉ l ++ [c]) :
    (r.append c n).pool.chunksData d = r.pool.chunksData d := by
  simp only [List.mem_append, List.mem_singleton, not_or] at hd
  obtain ⟨-, -, -, hold⟩ := h.append_eq (n := n) hc hnew
  rw [hold d hd.2, if_neg fun hlast => hd.1 (List.mem_of_getLast? hlast)]
  rfl

/-- `append` leaves the ring alone. -/
theorem RingHolds.append (h : RingHolds r.pool k ids) (c n : ℕ) :
    RingHolds (r.append c n).pool k ids := by
  have hpush : RingHolds (r.pushBack c).pool k ids := by
    rw [Reader.pushBack]
    cases r.buf.tail with
    | none => exact h
    | some t => exact h.write rfl rfl
  rw [Reader.append]
  cases (r.pushBack c).buf.tail with
  | none => exact hpush
  | some t => exact hpush.write rfl rfl

theorem ChainShape.append_linked (h : ChainShape r.pool r.buf l) (hc : c < r.pool.chunkNum)
    (hnew : c ∉ l) (hclean : r.pool.Clean c) :
    Linked (r.append c n).pool.next (r.append c n).buf.head (l ++ [c]) := by
  obtain ⟨-, hbuf, hself, hold⟩ := h.append_eq (n := n) hc hnew
  have hend : (r.append c n).pool.next c = none := by
    rw [ChunkPoolManagerInput.next, hself]
    exact hclean.2.2
  have hnext : ∀ d ∈ l, (r.append c n).pool.next d
      = if l.getLast? = some d then some c else r.pool.next d := by
    intro d hd
    rw [ChunkPoolManagerInput.next, hold d fun h => hnew (h ▸ hd)]
  rw [hbuf]
  rcases List.eq_nil_or_concat' l with rfl | ⟨l', t, rfl⟩
  · exact ⟨rfl, hend⟩
  · have hhead : (l' ++ [t] ++ [c]).head? = r.buf.head := by
      rw [h.linked.head_eq]; cases l' <;> rfl
    rw [hhead]
    refine h.linked.snoc hnew ?_ hend ?_
    · rw [hnext t (by simp)]; simp
    · intro d hd
      have hdt : t ≠ d := by
        rintro rfl
        exact List.disjoint_of_nodup_append h.linked.nodup hd (List.mem_singleton_self t)
      rw [hnext d (by simp [hd])]
      simp [hdt]

/-- **`append` adds a clean chunk at the end.** -/
theorem ChainRep.append (h : ChainRep r.pool r.buf l) (hc : c < r.pool.chunkNum) (hnew : c ∉ l)
    (hclean : r.pool.Clean c) (hpos : 0 < n) (hsize : n ≤ r.pool.chunkSize) :
    ChainRep (r.append c n).pool (r.append c n).buf (l ++ [c]) := by
  obtain ⟨⟨hchunk, -⟩, hbuf, hself, hold⟩ := h.append_eq (n := n) hc hnew
  have hread : ∀ d ∈ l, ((r.append c n).pool.chunksData d).readableBytes
      = (r.pool.chunksData d).readableBytes := by
    intro d hd
    rw [hold d fun h => hnew (h ▸ hd)]
    rfl
  refine ⟨⟨⟨h.append_linked hc hnew hclean, by simp [hbuf], by simp [hbuf, h.chunks]⟩, ?_⟩, ?_⟩
  · intro d hd
    rw [hchunk]
    rcases List.mem_append.mp hd with hd | hd
    · rw [hold d fun h => hnew (h ▸ hd)]
      exact h.live d hd
    · rw [List.mem_singleton.mp hd, hself]
      simpa [hclean.1, hclean.2.1] using ⟨hpos, hsize⟩
  · rw [hbuf, List.map_append, List.map_congr_left hread, List.sum_append, ← h.total]
    simp [hself, Chunk.readableBytes, hclean.1, hclean.2.1]

/-- The unread bytes after `append`. -/
theorem ChainShape.append_contents (mem : ℕ → UInt8) (h : ChainShape r.pool r.buf l)
    (hc : c < r.pool.chunkNum) (hnew : c ∉ l) (hclean : r.pool.Clean c) :
    contents mem (r.append c n).pool (l ++ [c])
      = contents mem r.pool l ++ [readMem mem (r.pool.chunksData c).dataPtr n] := by
  obtain ⟨-, -, hself, hold⟩ := h.append_eq (n := n) hc hnew
  have hread : ∀ d ∈ l,
      Reader.unreadOf mem (r.append c n).pool d = Reader.unreadOf mem r.pool d := by
    intro d hd
    rw [Reader.unreadOf, hold d fun h => hnew (h ▸ hd)]
    rfl
  rw [contents, List.map_append, ← contents, contents_congr hread]
  simp [Reader.unreadOf, hself, Chunk.readableBytes, hclean.1, hclean.2.1]

theorem ChainShape.append_unread (mem : ℕ → UInt8) (h : ChainShape r.pool r.buf l)
    (hc : c < r.pool.chunkNum) (hnew : c ∉ l) (hclean : r.pool.Clean c) :
    unreadAll mem (r.append c n).pool (l ++ [c])
      = unreadAll mem r.pool l ++ readMem mem (r.pool.chunksData c).dataPtr n := by
  rw [unreadAll, h.append_contents mem hc hnew hclean, List.flatten_append, List.flatten_singleton,
    ← unreadAll]

end Append

/-! ## Returning chunks -/

section Return

variable {r r₀ : Reader} {l l₁ l₂ ids : List ℕ} {k x : ℕ} {chunk : Chunk}

/-- `pop_front` moves the head on and returns the first chunk. -/
theorem Strung.popFront_eq (h : Strung r.pool r.buf (x :: l)) :
    r.popFront = ⟨r.pool.returnOneChunk x, ⟨l.head?, l.getLast?, l.length, r.buf.totalLen⟩⟩ := by
  have hhead : r.buf.head = some x := h.linked.1
  have hnext : r.pool.next x = l.head? := h.linked.2.head_eq
  have hchunks : r.buf.chunks = l.length + 1 := h.chunks
  have htail := h.tail
  cases l with
  | nil => simp [Reader.popFront, hhead, hchunks, htail]
  | cons y l =>
      have hlast : some x ≠ (y :: l).getLast? := fun hx =>
        (List.nodup_cons.mp h.linked.nodup).1 (List.mem_of_getLast? hx.symm)
      rw [List.getLast?_cons_cons] at htail
      simp [Reader.popFront, hhead, hchunks, hnext, htail, hlast]

/-- Writing metadata that keeps the link leaves the chain strung. -/
theorem Strung.write (h : Strung r.pool r.buf l) (hnext : chunk.next = r.pool.next x) :
    Strung (r.pool.write x chunk) r.buf l := by
  refine h.congr ?_
  intro c _
  by_cases hc : c = x
  · subst hc; simpa [ChunkPoolManagerInput.next] using hnext
  · simp [ChunkPoolManagerInput.next, hc]

/-- **Between two turns of a loop that empties the buffer**: of the chunks it had in `r₀`, the
first ones `l₁` are back in the ring, behind the chunks `ids` that were there, and `l₂` remain.
No other chunk has changed. -/
structure Returned (r₀ : Reader) (k : ℕ) (ids l₁ l₂ : List ℕ) (r : Reader) : Prop where
  ring : RingHolds r.pool k (ids ++ l₁)
  shape : ChainShape r.pool r.buf l₂
  clean : ∀ c ∈ l₁, r.pool.Clean c
  nodup : (l₁ ++ l₂).Nodup
  frame : ∀ c, c ∉ l₁ ++ l₂ → r.pool.chunksData c = r₀.pool.chunksData c
  chunkSize : r.pool.chunkSize = r₀.pool.chunkSize
  poolPtr : r.pool.poolPtr = r₀.pool.poolPtr

theorem Returned.start (hring : RingHolds r.pool k ids) (h : ChainShape r.pool r.buf l) :
    Returned r k ids [] l r :=
  ⟨by simpa using hring, h, by simp, h.linked.nodup, fun _ _ => rfl, rfl, rfl⟩

/-- The pool after a chunk's metadata has been written and the chunk returned. -/
theorem RingHolds.write_returnOneChunk {m : ChunkPoolManagerInput} (h : RingHolds m k ids)
    (hd : chunk.dataPtr = (m.chunksData x).dataPtr) (hi : chunk.index = (m.chunksData x).index) :
    ((m.write x chunk).returnOneChunk x).chunksData
        = Function.update m.chunksData x chunk.reset ∧
      ((m.write x chunk).returnOneChunk x).chunkSize = m.chunkSize ∧
      ((m.write x chunk).returnOneChunk x).poolPtr = m.poolPtr := by
  have hw : RingHolds (m.write x chunk) k ids := h.write hd hi
  refine ⟨?_, ?_, ?_⟩
  · rw [hw.returnOneChunk_chunksData]; simp
  · rw [returnOneChunk_eq hw.count]; rfl
  · rw [returnOneChunk_eq hw.count]; rfl

/-- One more chunk goes back. -/
theorem Returned.pop (h : Returned r₀ k ids l₁ (x :: l₂) r) (chunk : Chunk)
    (hroom : ids.length + l₁.length < 2 ^ k)
    (hd : chunk.dataPtr = (r.pool.chunksData x).dataPtr)
    (hi : chunk.index = (r.pool.chunksData x).index) (hnext : chunk.next = r.pool.next x) :
    let r' := { r with pool := r.pool.write x chunk }.popFront
    Returned r₀ k ids (l₁ ++ [x]) l₂ r' ∧ r'.buf.totalLen = r.buf.totalLen ∧
      r'.pool.chunksData = Function.update r.pool.chunksData x chunk.reset := by
  have hstr : Strung { r with pool := r.pool.write x chunk }.pool r.buf (x :: l₂) :=
    h.shape.toStrung.write hnext
  obtain ⟨hdata, hsize, hbase⟩ := h.ring.write_returnOneChunk hd hi
  have hwring : RingHolds (r.pool.write x chunk) k (ids ++ l₁) := h.ring.write hd hi
  have hring := hwring.returnOneChunk (by simpa using hroom) x
  have hx : x ∉ l₂ := (List.nodup_cons.mp h.shape.linked.nodup).1
  have hx₁ : x ∉ l₁ := fun hm => List.disjoint_of_nodup_append h.nodup hm List.mem_cons_self
  have hl₂ : ∀ c ∈ l₂, ((r.pool.write x chunk).returnOneChunk x).chunksData c
      = r.pool.chunksData c := by
    intro c hc
    rw [hdata, Function.update_of_ne (ne_of_mem_of_not_mem hc hx)]
  have hstrung : Strung r.pool ⟨l₂.head?, l₂.getLast?, l₂.length, r.buf.totalLen⟩ l₂ :=
    ⟨h.shape.linked.tail, rfl, rfl⟩
  have hshape : ChainShape r.pool ⟨l₂.head?, l₂.getLast?, l₂.length, r.buf.totalLen⟩ l₂ :=
    ⟨hstrung, fun c hc => h.shape.live c (List.mem_cons_of_mem _ hc)⟩
  intro r'
  have hr' : r' = ⟨(r.pool.write x chunk).returnOneChunk x,
      ⟨l₂.head?, l₂.getLast?, l₂.length, r.buf.totalLen⟩⟩ := hstr.popFront_eq
  rw [hr']
  refine ⟨⟨?_, hshape.congr hsize hl₂, ?_, by simpa using h.nodup, ?_,
    hsize.trans h.chunkSize, hbase.trans h.poolPtr⟩, rfl, hdata⟩
  · rw [← List.append_assoc]; exact hring
  · intro c hc
    rw [ChunkPoolManagerInput.Clean, ChunkPoolManagerInput.next, hdata]
    rcases List.mem_append.mp hc with hc | hc
    · rw [Function.update_of_ne (ne_of_mem_of_not_mem hc hx₁)]
      exact h.clean c hc
    · rw [List.mem_singleton.mp hc, Function.update_self]
      exact ⟨rfl, rfl, rfl⟩
  · intro c hc
    have hc' : c ∉ l₁ ++ x :: l₂ := by simpa using hc
    rw [hdata, Function.update_of_ne fun hcx => hc' (by simp [hcx]), h.frame c hc']

/-- **The destructor returns every chunk.** -/
theorem destroy_spec (hring : RingHolds r.pool k ids) (h : ChainShape r.pool r.buf l)
    (hroom : ids.length + l.length ≤ 2 ^ k) : Returned r k ids l [] r.destroy := by
  have hloop := whileLoop_total (f := Reader.popFront)
    (c := fun r => decide (r.buf.chunks ≠ 0))
    (P := fun s => ∃ l₁ l₂, l = l₁ ++ l₂ ∧ Returned r k ids l₁ l₂ s) (fun s => s.buf.chunks)
    (by
      rintro s ⟨l₁, l₂, rfl, hs⟩ hc
      have hlen := hs.shape.chunks
      cases l₂ with
      | nil => simp [hlen] at hc
      | cons x l₂ =>
          have hwrite : s.pool.write x (s.pool.chunksData x) = s.pool := by
            simp [ChunkPoolManagerInput.write]
          obtain ⟨hs', -, -⟩ := hs.pop (s.pool.chunksData x)
            (by simp at hroom; omega) rfl rfl rfl
          rw [hwrite] at hs'
          refine ⟨⟨l₁ ++ [x], l₂, by simp, hs'⟩, ?_⟩
          rw [hs'.shape.chunks, hlen]
          simp)
    r.buf.chunks r ⟨[], l, rfl, Returned.start hring h⟩ (Nat.le_refl _)
  obtain ⟨⟨l₁, l₂, rfl, hs⟩, hc⟩ := hloop
  have hend : l₂.length = 0 := by
    rw [← hs.shape.chunks]
    simpa using hc
  obtain rfl : l₂ = [] := List.length_eq_zero_iff.mp hend
  rw [List.append_nil]
  exact hs

end Return

/-! ## Reading -/

section Read

variable {mem : ℕ → UInt8} {r r₀ : Reader} {l l₁ l₂ ids : List ℕ} {k x n len : ℕ}
  {st : (Reader × ℕ) × List UInt8}

/-- A chunk that is used up goes back to the ring. -/
theorem Returned.advanceHead_used (mem : ℕ → UInt8) (h : Returned r₀ k ids l₁ (x :: l₂) r)
    (hroom : ids.length + l₁.length < 2 ^ k)
    (hused : (r.pool.chunksData x).readableBytes ≤ n) :
    Returned r₀ k ids (l₁ ++ [x]) l₂ (r.advanceHead x n) ∧
      (r.advanceHead x n).buf.totalLen = r.buf.totalLen ∧
      contents mem (r.advanceHead x n).pool l₂ = contents mem r.pool l₂ := by
  have hzero : (r.pool.chunksData x).tail - ((r.pool.chunksData x).head + n) = 0 := by
    simp only [Chunk.readableBytes] at hused
    omega
  have hadv : r.advanceHead x n
      = Reader.popFront { r with pool := r.pool.write x ((r.pool.chunksData x).advance n) } := by
    simp [Reader.advanceHead, Chunk.advance, Chunk.readableBytes, hzero]
  obtain ⟨hret, htotal, hdata⟩ :=
    h.pop ((r.pool.chunksData x).advance n) hroom rfl rfl rfl
  have hx : x ∉ l₂ := (List.nodup_cons.mp h.shape.linked.nodup).1
  rw [hadv]
  refine ⟨hret, htotal, contents_congr ?_⟩
  intro c hc
  rw [Reader.unreadOf, Reader.unreadOf, hdata,
    Function.update_of_ne (ne_of_mem_of_not_mem hc hx)]

/-- A chunk that is read in part stays first. -/
theorem Returned.advanceHead_partial (mem : ℕ → UInt8) (h : Returned r₀ k ids l₁ (x :: l₂) r)
    (hleft : n < (r.pool.chunksData x).readableBytes) :
    Returned r₀ k ids l₁ (x :: l₂) (r.advanceHead x n) ∧
      (r.advanceHead x n).buf = r.buf ∧
      contents mem (r.advanceHead x n).pool (x :: l₂)
        = (Reader.unreadOf mem r.pool x).drop n :: contents mem r.pool l₂ := by
  have hpos : (r.pool.chunksData x).tail - ((r.pool.chunksData x).head + n) ≠ 0 := by
    simp only [Chunk.readableBytes] at hleft
    omega
  have hadv : r.advanceHead x n
      = { r with pool := r.pool.write x ((r.pool.chunksData x).advance n) } := by
    simp [Reader.advanceHead, Chunk.advance, Chunk.readableBytes, hpos]
  have hx : x ∉ l₂ := (List.nodup_cons.mp h.shape.linked.nodup).1
  have hx₁ : x ∉ l₁ := fun hm => List.disjoint_of_nodup_append h.nodup hm List.mem_cons_self
  rw [hadv]
  refine ⟨⟨h.ring.write rfl rfl, ⟨h.shape.toStrung.write rfl, ?_⟩, ?_,
    h.nodup, ?_, h.chunkSize, h.poolPtr⟩, rfl, ?_⟩
  · intro c hc
    have hlive := h.shape.live c hc
    by_cases hcx : c = x
    · subst hcx
      simp only [ChunkPoolManagerInput.write_chunksData, Function.update_self,
        ChunkPoolManagerInput.write_chunkSize, Chunk.advance]
      omega
    · simpa [hcx] using hlive
  · intro c hc
    have hcx : c ≠ x := ne_of_mem_of_not_mem hc hx₁
    simpa [ChunkPoolManagerInput.Clean, ChunkPoolManagerInput.next, hcx] using h.clean c hc
  · intro c hc
    have hcx : c ≠ x := fun hcx => hc (by simp [hcx])
    simpa [hcx] using h.frame c hc
  · have hrest : ∀ c ∈ l₂,
        Reader.unreadOf mem (r.pool.write x ((r.pool.chunksData x).advance n)) c
          = Reader.unreadOf mem r.pool c := by
      intro c hc
      simp [Reader.unreadOf, ne_of_mem_of_not_mem hc hx]
    have hsplit : (r.pool.chunksData x).readableBytes
        = n + ((r.pool.chunksData x).tail - ((r.pool.chunksData x).head + n)) := by
      simp only [Chunk.readableBytes] at hleft ⊢
      omega
    rw [contents_cons, contents_congr hrest]
    congr 1
    rw [Reader.unreadOf, Reader.unreadOf, hsplit, readMem_add,
      List.drop_left' (readMem_length ..)]
    simp [Chunk.advance, Chunk.readableBytes, Nat.add_assoc]

/-- **The invariant of the loop of `remove`**, with the bytes copied so far. -/
structure Copied (mem : ℕ → UInt8) (r₀ : Reader) (k : ℕ) (ids l : List ℕ) (len : ℕ)
    (st : (Reader × ℕ) × List UInt8) : Prop where
  split : ∃ l₁ l₂, l = l₁ ++ l₂ ∧ Returned r₀ k ids l₁ l₂ st.1.1 ∧
    contents mem st.1.1.pool l₂ = dropFlat st.1.2 (contents mem r₀.pool l)
  copied : st.2 = (unreadAll mem r₀.pool l).take st.1.2
  count : st.2.length = st.1.2
  bound : st.1.2 ≤ len
  total : st.1.1.buf.totalLen = r₀.buf.totalLen

/-- The bytes copied from the first chunk are the next ones of the stream. -/
theorem Copied.next (h : Copied mem r₀ k ids l len st)
    (hchunks : contents mem st.1.1.pool (x :: l₂) = dropFlat st.1.2 (contents mem r₀.pool l))
    (hn : n ≤ (st.1.1.pool.chunksData x).readableBytes) :
    st.2 ++ readMem mem ((st.1.1.pool.chunksData x).dataPtr + (st.1.1.pool.chunksData x).head) n
      = (unreadAll mem r₀.pool l).take (st.1.2 + n) := by
  have hrest : (unreadAll mem r₀.pool l).drop st.1.2 = unreadAll mem st.1.1.pool (x :: l₂) := by
    rw [unreadAll, ← flatten_dropFlat, ← hchunks, unreadAll]
  rw [List.take_add, hrest, unreadAll_cons, List.take_append_of_le_length (by simpa using hn),
    Reader.unreadOf, readMem_take, Nat.min_eq_left hn, ← h.copied]

/-- What is left to do: one turn for each chunk and one for the last, partial read. -/
def removeTurnsLeft (len : ℕ) (st : (Reader × ℕ) × List UInt8) : ℕ :=
  if st.1.2 < len then st.1.1.buf.chunks + 1 else 0

/-- Each turn either uses up a chunk or reaches the requested length. -/
theorem Copied.turn (h : Copied mem r₀ k ids l len st) (hroom : ids.length + l.length ≤ 2 ^ k)
    (hlt : st.1.2 < len) (hhead : st.1.1.buf.head.isSome) :
    Copied mem r₀ k ids l len (Reader.removeTurn mem len st) ∧
      removeTurnsLeft len (Reader.removeTurn mem len st) < removeTurnsLeft len st := by
  have hs := h
  obtain ⟨⟨l₁, l₂, rfl, hret, hchunks⟩, -, -, hbound, -⟩ := h
  cases l₂ with
  | nil =>
      have hnone : st.1.1.buf.head = none := hret.shape.linked
      simp [hnone] at hhead
  | cons x l₂ =>
      have hx : st.1.1.buf.head = some x := hret.shape.linked.1
      have hturn : Reader.removeTurn mem len st
          = ((st.1.1.advanceHead x (min (st.1.1.pool.chunksData x).readableBytes (len - st.1.2)),
                st.1.2 + min (st.1.1.pool.chunksData x).readableBytes (len - st.1.2)),
              st.2 ++ readMem mem
                ((st.1.1.pool.chunksData x).dataPtr + (st.1.1.pool.chunksData x).head)
                (min (st.1.1.pool.chunksData x).readableBytes (len - st.1.2))) := by
        simp [Reader.removeTurn, hx]
      have hleft : removeTurnsLeft len st = l₂.length + 1 + 1 := by
        rw [removeTurnsLeft, if_pos hlt, hret.shape.chunks, List.length_cons]
      rw [hturn, hleft]
      rcases Nat.lt_or_ge (len - st.1.2) (st.1.1.pool.chunksData x).readableBytes with hgt | hle
      · rw [Nat.min_eq_right (Nat.le_of_lt hgt)]
        obtain ⟨hret', hbuf, hunread⟩ := hret.advanceHead_partial mem hgt
        refine ⟨⟨⟨l₁, x :: l₂, rfl, hret', ?_⟩, hs.next hchunks (Nat.le_of_lt hgt),
          by simp [hs.count], by simp only; omega, by rw [hbuf]; exact hs.total⟩, ?_⟩
        · rw [hunread, dropFlat_add, ← hchunks, contents_cons,
            dropFlat_cons_of_lt _ (by simpa using hgt)]
        · simp only [removeTurnsLeft]
          split <;> omega
      · rw [Nat.min_eq_left hle]
        obtain ⟨hret', htotal', hunread⟩ := hret.advanceHead_used mem
          (by simp at hroom; omega) (Nat.le_refl _)
        refine ⟨⟨⟨l₁ ++ [x], l₂, by simp, hret', ?_⟩, hs.next hchunks (Nat.le_refl _),
          by simp [hs.count], by simp only; omega, htotal'.trans hs.total⟩, ?_⟩
        · have hne : ∀ c ∈ contents mem st.1.1.pool l₂, c ≠ [] := fun c hc =>
            hret.shape.contents_ne_nil mem c (by rw [contents_cons]; exact .tail _ hc)
          rw [hunread, dropFlat_add, ← hchunks, contents_cons, dropFlat_cons_of_le _ (by simp),
            unreadOf_length, Nat.sub_self, dropFlat_zero hne]
        · simp only [removeTurnsLeft, hret'.shape.chunks]
          split <;> omega

/-- When the loop ends, what was copied is the first `len` unread bytes. -/
theorem Copied.output (h : Copied mem r₀ k ids l len st)
    (hdone : ¬(st.1.2 < len ∧ st.1.1.buf.head.isSome)) :
    st.2 = (unreadAll mem r₀.pool l).take len ∧
      ∃ l₁ l₂, l = l₁ ++ l₂ ∧ Returned r₀ k ids l₁ l₂ st.1.1 ∧
        contents mem st.1.1.pool l₂ = dropFlat len (contents mem r₀.pool l) := by
  obtain ⟨⟨l₁, l₂, rfl, hret, hchunks⟩, hcopied, -, hbound, -⟩ := h
  by_cases hlt : st.1.2 < len
  · -- the chain ran out first
    have hnone : st.1.1.buf.head = none := by simpa [hlt] using hdone
    obtain rfl : l₂ = [] := by simpa [hret.shape.linked.head_eq] using hnone
    have hempty : dropFlat st.1.2 (contents mem r₀.pool (l₁ ++ [])) = [] := hchunks.symm
    have hall : (unreadAll mem r₀.pool (l₁ ++ [])).length ≤ st.1.2 := by
      rw [← List.drop_eq_nil_iff, unreadAll, ← flatten_dropFlat, hempty]
      rfl
    have hmore : len = st.1.2 + (len - st.1.2) := by omega
    refine ⟨?_, l₁, [], rfl, hret, ?_⟩
    · rw [hcopied, List.take_of_length_le hall, List.take_of_length_le (by omega)]
    · rw [hmore, dropFlat_add, hempty, dropFlat_nil]
      rfl
  · obtain rfl : st.1.2 = len := by omega
    exact ⟨hcopied, l₁, l₂, rfl, hret, hchunks⟩

/-- The loop of `remove` ends, with its invariant. -/
theorem removeLoop_spec (mem : ℕ → UInt8) (len : ℕ) (hring : RingHolds r.pool k ids)
    (h : ChainShape r.pool r.buf l) (hroom : ids.length + l.length ≤ 2 ^ k) :
    Copied mem r k ids l len (Reader.removeLoop mem r len) ∧
      ¬((Reader.removeLoop mem r len).1.2 < len ∧
        (Reader.removeLoop mem r len).1.1.buf.head.isSome) := by
  have hinit : Copied mem r k ids l len ((r, 0), []) :=
    ⟨⟨[], l, rfl, Returned.start hring h, (dropFlat_zero (h.contents_ne_nil mem)).symm⟩, rfl, rfl,
      Nat.zero_le _, rfl⟩
  have hbound : removeTurnsLeft len ((r, 0), []) ≤ r.buf.chunks + 1 := by
    simp only [removeTurnsLeft]
    split <;> omega
  obtain ⟨hend, htest⟩ := whileLoop_total (f := Reader.removeTurn mem len)
    (c := fun st => decide (st.1.2 < len) && st.1.1.buf.head.isSome)
    (P := Copied mem r k ids l len) (removeTurnsLeft len)
    (fun s hs hc => by
      simp only [Bool.and_eq_true, decide_eq_true_eq] at hc
      exact hs.turn hroom hc.1 hc.2)
    (r.buf.chunks + 1) ((r, 0), []) hinit hbound
  exact ⟨hend, by simpa [Reader.removeLoop] using htest⟩

/-- `total_len_` covers what the loop of `remove` has read, so the subtraction after it does not
underflow. -/
theorem removeLoop_le_totalLen (mem : ℕ → UInt8) (len : ℕ) (hring : RingHolds r.pool k ids)
    (h : ChainRep r.pool r.buf l) (hroom : ids.length + l.length ≤ 2 ^ k) :
    (Reader.removeLoop mem r len).1.2 = min len r.buf.totalLen ∧
      (Reader.removeLoop mem r len).1.1.buf.totalLen = r.buf.totalLen := by
  obtain ⟨hend, hdone⟩ := removeLoop_spec mem len hring h.toChainShape hroom
  refine ⟨?_, hend.total⟩
  rw [← hend.count, (hend.output hdone).1, List.length_take, ← h.totalLen_eq]

/-- **`remove` copies out the first `len` unread bytes**, as far as there are so many; what stays
in the chain is the rest, and the chunks that were used up are published again. -/
theorem remove_spec (mem : ℕ → UInt8) (len : ℕ) (hring : RingHolds r.pool k ids)
    (h : ChainRep r.pool r.buf l) (hroom : ids.length + l.length ≤ 2 ^ k) :
    (Reader.remove mem r len).1 = (unreadAll mem r.pool l).take len ∧
      (Reader.remove mem r len).2.1 = min len r.buf.totalLen ∧
      ∃ l₁ l₂, l = l₁ ++ l₂ ∧ Returned r k ids l₁ l₂ (Reader.remove mem r len).2.2 ∧
        ChainRep (Reader.remove mem r len).2.2.pool (Reader.remove mem r len).2.2.buf l₂ ∧
        contents mem (Reader.remove mem r len).2.2.pool l₂
          = dropFlat len (contents mem r.pool l) := by
  obtain ⟨hend, hdone⟩ := removeLoop_spec mem len hring h.toChainShape hroom
  obtain ⟨hcount, htotal⟩ := removeLoop_le_totalLen mem len hring h hroom
  rw [Reader.remove]
  generalize Reader.removeLoop mem r len = st at hend hdone hcount htotal
  obtain ⟨hout, l₁, l₂, hl, hret, hrest⟩ := hend.output hdone
  have hstr : Strung st.1.1.pool { st.1.1.buf with
      totalLen := st.1.1.buf.totalLen - st.1.2 } l₂ :=
    ⟨hret.shape.linked, hret.shape.tail, hret.shape.chunks⟩
  refine ⟨hout, hcount, l₁, l₂, hl,
    ⟨hret.ring, ⟨hstr, hret.shape.live⟩, hret.clean, hret.nodup, hret.frame, hret.chunkSize,
      hret.poolPtr⟩, ⟨⟨hstr, hret.shape.live⟩, ?_⟩, hrest⟩
  have hlen := congrArg (fun cs => cs.flatten.length) hrest
  simp only [flatten_dropFlat] at hlen
  rw [← unreadAll, ← unreadAll, unreadAll_length, List.length_drop, ← h.totalLen_eq] at hlen
  simp only [htotal]
  rw [hlen, hcount]
  omega

/-- The loop of `retrieve` is the loop of `remove` without the copying. -/
theorem retrieveLoop_eq_removeLoop (mem : ℕ → UInt8) (r : Reader) (len : ℕ) :
    r.retrieveLoop len = (Reader.removeLoop mem r len).1 := by
  have hturn : ∀ st, (Reader.removeTurn mem len st).1 = Reader.retrieveTurn len st.1 := by
    rintro ⟨⟨s, i⟩, out⟩
    cases hh : s.buf.head with
    | none => simp [Reader.removeTurn, Reader.retrieveTurn, hh]
    | some x => simp [Reader.removeTurn, Reader.retrieveTurn, hh]
  exact (whileLoop_map Prod.fst (c := fun st => decide (st.2 < len) && st.1.buf.head.isSome)
    (fun _ => rfl) hturn (r.buf.chunks + 1) ((r, 0), [])).symm

theorem retrieve_eq_remove (mem : ℕ → UInt8) (r : Reader) (len : ℕ) :
    r.retrieve len = (Reader.remove mem r len).2.2 := by
  simp only [Reader.retrieve, Reader.remove, retrieveLoop_eq_removeLoop mem]

/-- `removeAsString` gives the same bytes, if it can build the string it starts with: the zeros in
it are cut off again. -/
theorem removeAsString_eq (maxString : ℕ) (mem : ℕ → UInt8) (size : ℕ)
    (hring : RingHolds r.pool k ids) (h : ChainRep r.pool r.buf l)
    (hroom : ids.length + l.length ≤ 2 ^ k) :
    Reader.removeAsString maxString mem r size
      = if maxString < size then none
        else some ((unreadAll mem r.pool l).take size, (Reader.remove mem r size).2.2) := by
  obtain ⟨hout, hcount, -⟩ := remove_spec mem size hring h hroom
  have hlen : ((unreadAll mem r.pool l).take size).length = min size r.buf.totalLen := by
    rw [List.length_take, ← h.totalLen_eq]
  simp only [Reader.removeAsString, hout, hcount, ← hlen, List.take_left]

end Read

end Proactor
