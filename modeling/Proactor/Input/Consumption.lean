import Mathlib.Algebra.Order.BigOperators.Group.List
import Mathlib.Algebra.Order.Group.Nat
import Proactor.Input.InputRun

/-!
# Copying and zero-copy consumption

A connection's bytes can be consumed in two ways: `remove` and `removeAsString` copy them out, and
`peek` with `retrieve` shows the first chunk in place and then drops what was used of it.  The loop
of `retrieve` is the loop of `remove` without the copying, so both leave the same chain behind and
return the same chunks in the same order (`retrieve_eq_remove`).

What is shown here is that the bytes may be consumed in portions of any size: `a` bytes and then `b`
bytes are `a + b` bytes (`Fits.retrieve_retrieve`), for the chain, for the counters and for the
ring.  It follows that reading through views of the first chunk is reading (`Fits.peekAll`).
-/

namespace Proactor

open Chain Loop Chunked Transition

namespace Reader

/-- The test of the loop of `retrieve`. -/
def retrieveTest (len : ℕ) (st : Reader × ℕ) : Bool :=
  decide (st.2 < len) && st.1.buf.head.isSome

/-- Account for `n` bytes that were consumed. -/
def drop (r : Reader) (n : ℕ) : Reader :=
  { r with buf := { r.buf with totalLen := r.buf.totalLen - n } }

/-- For each `k` of the list: `peek`, take the first `k` bytes of the view, `retrieve(k)`.  `none`
says that a view was shorter than that. -/
def peekAll (mem : ℕ → UInt8) : Reader → List ℕ → Option (List UInt8 × Reader)
  | r, [] => some ([], r)
  | r, k :: ks =>
      if k ≤ r.peek.2 then
        (peekAll mem (r.retrieve k) ks).map fun p =>
          ((r.peek.1.elim [] fun addr => readMem mem addr k) ++ p.1, p.2)
      else none

theorem retrieveLoop_eq (r : Reader) (len : ℕ) :
    r.retrieveLoop len
      = whileLoop (retrieveTest len) (retrieveTurn len) (r.buf.chunks + 1) (r, 0) := rfl

theorem retrieve_eq_drop (r : Reader) (len : ℕ) :
    r.retrieve len = (r.retrieveLoop len).1.drop (r.retrieveLoop len).2 := rfl

theorem retrieve_zero (r : Reader) : r.retrieve 0 = r := by
  rw [retrieve_eq_drop, retrieveLoop_eq, whileLoop_of_false (by simp [retrieveTest])]
  rfl

/-! ## One turn -/

/-- A loop that has read `i` bytes already goes on like one that has to read `i` bytes less. -/
theorem whileLoop_retrieve_from (r : Reader) (len i n : ℕ) :
    whileLoop (retrieveTest len) (retrieveTurn len) n (r, i)
      = ((whileLoop (retrieveTest (len - i)) (retrieveTurn (len - i)) n (r, 0)).1,
        i + (whileLoop (retrieveTest (len - i)) (retrieveTurn (len - i)) n (r, 0)).2) := by
  refine whileLoop_counted (fun r => r.buf.head.isSome) retrieveTurn (fun r j => ?_) n r
  cases hh : r.buf.head with
  | none => simp [retrieveTurn, hh]
  | some h => simp [retrieveTurn, hh, Nat.sub_sub, Nat.add_assoc]

/-- A chunk that is not used up stays. -/
theorem advanceHead_of_lt (r : Reader) {x m : ℕ} (h : m < (r.pool.chunksData x).readableBytes) :
    r.advanceHead x m = { r with pool := r.pool.write x ((r.pool.chunksData x).advance m) } := by
  have hleft : ((r.pool.chunksData x).advance m).readableBytes ≠ 0 := by
    simp only [Chunk.readableBytes, Chunk.advance] at h ⊢
    omega
  simp [advanceHead, hleft]

/-- Reading on in such a chunk. -/
theorem advanceHead_advanceHead (r : Reader) {x m : ℕ} (n : ℕ)
    (h : m < (r.pool.chunksData x).readableBytes) :
    (r.advanceHead x m).advanceHead x n = r.advanceHead x (m + n) := by
  have hchunk : ((r.pool.chunksData x).advance m).advance n
      = (r.pool.chunksData x).advance (m + n) := by
    simp [Chunk.advance, Nat.add_assoc]
  have hpool : (r.pool.write x ((r.pool.chunksData x).advance m)).write x
      ((r.pool.chunksData x).advance (m + n))
      = r.pool.write x ((r.pool.chunksData x).advance (m + n)) := by
    simp [ChunkPoolManagerInput.write]
  rw [advanceHead_of_lt r h]
  simp only [advanceHead, ChunkPoolManagerInput.write_chunksData, Function.update_self, hchunk,
    hpool]

/-- `pop_front` does not look at `total_len_`. -/
theorem popFront_drop (r : Reader) (n : ℕ) : (r.drop n).popFront = r.popFront.drop n := by
  by_cases hchunks : r.buf.chunks = 0
  · simp [popFront, drop, hchunks]
  · cases hhead : r.buf.head with
    | none => simp [popFront, drop, hchunks, hhead]
    | some h =>
        by_cases htail : some h = r.buf.tail
        · simp [popFront, drop, hchunks, hhead, ← htail]
        · simp [popFront, drop, hchunks, hhead, htail]

theorem advanceHead_drop (r : Reader) (x m n : ℕ) :
    (r.drop n).advanceHead x m = (r.advanceHead x m).drop n := by
  by_cases hused : ((r.pool.chunksData x).advance m).readableBytes = 0
  · have hpop := popFront_drop { r with pool := r.pool.write x ((r.pool.chunksData x).advance m) } n
    simpa [advanceHead, drop, hused] using hpop
  · simp [advanceHead, drop, hused]

/-- So the loop does not either. -/
theorem retrieveLoop_drop (r : Reader) (len n : ℕ) :
    (r.drop n).retrieveLoop len
      = ((r.retrieveLoop len).1.drop n, (r.retrieveLoop len).2) := by
  have hbody : ∀ st : Reader × ℕ, ((retrieveTurn len st).1.drop n, (retrieveTurn len st).2)
      = retrieveTurn len (st.1.drop n, st.2) := by
    rintro ⟨r, j⟩
    cases hh : r.buf.head with
    | none => simp [retrieveTurn, drop, hh]
    | some h =>
        have hdrop : (r.drop n).buf.head = some h := hh
        simp only [retrieveTurn, hh, hdrop, advanceHead_drop]
        rfl
  exact (whileLoop_map (fun st : Reader × ℕ => (st.1.drop n, st.2)) (fun _ => rfl) hbody
    (r.buf.chunks + 1) (r, 0)).symm

end Reader

/-! ## Consuming a chain -/

/-- A chain of chunks that has room in the ring beside the chunks `ids` that are published. -/
structure Fits (r : Reader) (k : ℕ) (ids l : List ℕ) : Prop where
  ring : RingHolds r.pool k ids
  shape : ChainShape r.pool r.buf l
  room : ids.length + l.length ≤ 2 ^ k

namespace Fits

open Reader

variable {r : Reader} {k x a b n len : ℕ} {ids l : List ℕ} {mem : ℕ → UInt8}

theorem head_eq (h : Fits r k ids (x :: l)) : r.buf.head = some x := h.shape.linked.1

theorem readable_pos (h : Fits r k ids (x :: l)) : 0 < (r.pool.chunksData x).readableBytes := by
  have hlive := (h.shape.live x List.mem_cons_self).1
  simp only [Chunk.readableBytes]
  omega

/-- The first chunk is used up and goes back to the ring. -/
theorem used (h : Fits r k ids (x :: l)) (hused : (r.pool.chunksData x).readableBytes ≤ n) :
    Fits (r.advanceHead x n) k (ids ++ [x]) l := by
  have hroom := h.room
  rw [List.length_cons] at hroom
  obtain ⟨hret, -, -⟩ := (Returned.start h.ring h.shape).advanceHead_used (fun _ => 0)
    (by rw [List.length_nil]; omega) hused
  refine ⟨hret.ring, hret.shape, ?_⟩
  rw [List.length_append, List.length_singleton]
  omega

/-- The first chunk is read in part. -/
theorem cut (h : Fits r k ids (x :: l)) (hleft : n < (r.pool.chunksData x).readableBytes) :
    Fits (r.advanceHead x n) k ids (x :: l) ∧
      ((r.advanceHead x n).pool.chunksData x).readableBytes
        = (r.pool.chunksData x).readableBytes - n := by
  have hstart := Returned.start h.ring h.shape
  obtain ⟨hret, -, -⟩ := hstart.advanceHead_partial (fun _ => 0) hleft
  refine ⟨⟨by simpa using hret.ring, hret.shape, h.room⟩, ?_⟩
  simp [advanceHead_of_lt r hleft, Chunk.readableBytes, Chunk.advance, Nat.sub_sub]

theorem retrieveLoop_nil (h : Fits r k ids []) (len : ℕ) : r.retrieveLoop len = (r, 0) := by
  have hhead : r.buf.head = none := h.shape.linked
  exact whileLoop_of_false (by simp [hhead]) _

/-- Less than the first chunk is wanted. -/
theorem retrieveLoop_cut (h : Fits r k ids (x :: l))
    (hlen : len < (r.pool.chunksData x).readableBytes) :
    r.retrieveLoop len = (r.advanceHead x len, len) := by
  rcases Nat.eq_zero_or_pos len with rfl | hpos
  · have hsame : r.advanceHead x 0 = r := by
      simp [advanceHead_of_lt r hlen, ChunkPoolManagerInput.write, Chunk.advance]
    rw [hsame]
    exact whileLoop_of_false (by simp) _
  · have hturn : retrieveTurn len (r, 0) = (r.advanceHead x len, len) := by
      simp [retrieveTurn, h.head_eq, Nat.min_eq_right (Nat.le_of_lt hlen)]
    have htest : retrieveTest len (r, 0) = true := by
      simp [retrieveTest, h.head_eq, hpos]
    rw [retrieveLoop_eq, whileLoop, if_pos htest, hturn]
    exact whileLoop_of_false (by simp [retrieveTest]) _

/-- The first chunk is used up, and the loop goes on with the rest of the chain. -/
theorem retrieveLoop_used (h : Fits r k ids (x :: l))
    (hlen : (r.pool.chunksData x).readableBytes ≤ len) :
    r.retrieveLoop len
      = (((r.advanceHead x (r.pool.chunksData x).readableBytes).retrieveLoop
            (len - (r.pool.chunksData x).readableBytes)).1,
        (r.pool.chunksData x).readableBytes +
          ((r.advanceHead x (r.pool.chunksData x).readableBytes).retrieveLoop
            (len - (r.pool.chunksData x).readableBytes)).2) := by
  have hpos := h.readable_pos
  have hturn : retrieveTurn len (r, 0) = (r.advanceHead x (r.pool.chunksData x).readableBytes,
      (r.pool.chunksData x).readableBytes) := by
    simp [retrieveTurn, h.head_eq, Nat.min_eq_left hlen]
  have htest : retrieveTest len (r, 0) = true := by
    simp [retrieveTest, h.head_eq]
    omega
  have hchunks : r.buf.chunks
      = (r.advanceHead x (r.pool.chunksData x).readableBytes).buf.chunks + 1 := by
    rw [h.shape.chunks, (h.used (Nat.le_refl _)).shape.chunks, List.length_cons]
  rw [retrieveLoop_eq, whileLoop, if_pos htest, hturn, whileLoop_retrieve_from, hchunks]
  rfl

/-- **Reading in two portions** is reading once, in the loop. -/
theorem retrieveLoop_add (h : Fits r k ids l) (a b : ℕ) :
    r.retrieveLoop (a + b) = (((r.retrieveLoop a).1.retrieveLoop b).1,
      (r.retrieveLoop a).2 + ((r.retrieveLoop a).1.retrieveLoop b).2) := by
  induction l generalizing r ids a with
  | nil => simp only [h.retrieveLoop_nil]
  | cons x l ih =>
      rcases Nat.lt_or_ge a (r.pool.chunksData x).readableBytes with ha | ha
      · -- the first portion ends inside the first chunk
        obtain ⟨hcut, hleft⟩ := h.cut ha
        rw [h.retrieveLoop_cut ha]
        rcases Nat.lt_or_ge (a + b) (r.pool.chunksData x).readableBytes with hb | hb
        · rw [h.retrieveLoop_cut hb, hcut.retrieveLoop_cut (by omega),
            advanceHead_advanceHead r b ha]
        · have hwhole : a + (r.pool.chunksData x).readableBytes - a
              = (r.pool.chunksData x).readableBytes := Nat.add_sub_cancel_left ..
          rw [h.retrieveLoop_used hb, hcut.retrieveLoop_used (by omega), hleft,
            advanceHead_advanceHead r _ ha, ← Nat.add_sub_assoc (Nat.le_of_lt ha), hwhole]
          have hrest : b - ((r.pool.chunksData x).readableBytes - a)
              = a + b - (r.pool.chunksData x).readableBytes := by omega
          rw [hrest]
          refine Prod.ext rfl ?_
          simp only
          omega
      · -- it uses up the first chunk
        rw [h.retrieveLoop_used ha, h.retrieveLoop_used (by omega),
          show a + b - (r.pool.chunksData x).readableBytes
            = a - (r.pool.chunksData x).readableBytes + b by omega,
          ih (h.used (Nat.le_refl _)), Nat.add_assoc]

/-- **`retrieve(a)` and `retrieve(b)` are `retrieve(a + b)`**, with the chain, the counters and the
chunks in the ring. -/
theorem retrieve_retrieve (h : Fits r k ids l) (a b : ℕ) :
    (r.retrieve a).retrieve b = r.retrieve (a + b) := by
  rw [retrieve_eq_drop r a, retrieve_eq_drop _ b, retrieveLoop_drop, retrieve_eq_drop r (a + b),
    h.retrieveLoop_add]
  simp only [Reader.drop, Nat.sub_sub]

end Fits

/-! ## The two ways agree -/

section Agree

open Reader

variable {r : Reader} {k : ℕ} {ids l : List ℕ} {mem : ℕ → UInt8}

/-- The chain after `retrieve`. -/
theorem Fits.retrieve (h : Fits r k ids l) (hrep : ChainRep r.pool r.buf l) (mem : ℕ → UInt8)
    (n : ℕ) : ∃ ids' l', Fits (r.retrieve n) k ids' l' ∧
      ChainRep (r.retrieve n).pool (r.retrieve n).buf l' ∧
      unreadAll mem (r.retrieve n).pool l' = (unreadAll mem r.pool l).drop n := by
  obtain ⟨-, -, l₁, l₂, rfl, hret, hrep', hbytes⟩ := remove_spec mem n h.ring hrep h.room
  rw [← retrieve_eq_remove mem r n] at hret hrep' hbytes
  have hroom := h.room
  refine ⟨ids ++ l₁, l₂, ⟨hret.ring, hret.shape, ?_⟩, hrep', ?_⟩
  · rw [List.length_append] at hroom ⊢
    omega
  · rw [unreadAll, hbytes, flatten_dropFlat]
    rfl

theorem Fits.retrieve_totalLen (h : Fits r k ids l) (hrep : ChainRep r.pool r.buf l) (n : ℕ) :
    (r.retrieve n).buf.totalLen = r.buf.totalLen - n := by
  have mem : ℕ → UInt8 := fun _ => 0
  obtain ⟨ids', l', -, hrep', hrest⟩ := h.retrieve hrep mem n
  have hlen : (r.retrieve n).buf.totalLen = (unreadAll mem (r.retrieve n).pool l').length :=
    hrep'.totalLen_eq
  rw [hlen, hrest, List.length_drop, ← hrep.totalLen_eq]

/-- `remove(a)` and `remove(b)` are `remove(a + b)`. -/
theorem Fits.remove_remove (h : Fits r k ids l) (hrep : ChainRep r.pool r.buf l)
    (mem : ℕ → UInt8) (a b : ℕ) :
    Reader.remove mem r (a + b)
      = ((Reader.remove mem r a).1 ++ (Reader.remove mem (Reader.remove mem r a).2.2 b).1,
        (Reader.remove mem r a).2.1 + (Reader.remove mem (Reader.remove mem r a).2.2 b).2.1,
        (Reader.remove mem (Reader.remove mem r a).2.2 b).2.2) := by
  obtain ⟨hout, hcount, -⟩ := remove_spec mem a h.ring hrep h.room
  obtain ⟨hout', hcount', -⟩ := remove_spec mem (a + b) h.ring hrep h.room
  obtain ⟨ids', l', hfits, hrep', hrest⟩ := h.retrieve hrep mem a
  obtain ⟨hout₂, hcount₂, -⟩ := remove_spec mem b hfits.ring hrep' hfits.room
  have hstate := h.retrieve_retrieve a b
  have htotal := h.retrieve_totalLen hrep a
  rw [← retrieve_eq_remove mem r a]
  refine Prod.ext ?_ (Prod.ext ?_ ?_)
  · simp only
    rw [hout', hout, hout₂, hrest, List.take_add]
  · simp only
    rw [hcount', hcount, hcount₂, htotal]
    omega
  · simp only
    rw [← retrieve_eq_remove mem r (a + b), ← retrieve_eq_remove mem _ b, hstate]

/-- `peek` shows a part of the first chunk that is not empty, or there is nothing to read. -/
theorem Fits.peek_eq (h : Fits r k ids l) (hrep : ChainRep r.pool r.buf l) (mem : ℕ → UInt8) :
    (r.peek = (none, 0) ∧ r.buf.totalLen = 0) ∨
      ∃ addr, r.peek.1 = some addr ∧ 0 < r.peek.2 ∧
        ∀ n ≤ r.peek.2, readMem mem addr n = (unreadAll mem r.pool l).take n := by
  cases l with
  | nil =>
      have hhead : r.buf.head = none := h.shape.linked
      refine .inl ⟨by simp [peek, hhead], ?_⟩
      rw [hrep.total]
      rfl
  | cons x l =>
      refine .inr ⟨(r.pool.chunksData x).dataPtr + (r.pool.chunksData x).head, ?_, ?_, ?_⟩
      · simp [peek, h.head_eq]
      · simpa [peek, h.head_eq] using h.readable_pos
      · intro n hn
        simp only [peek, h.head_eq] at hn
        rw [unreadAll_cons, List.take_append_of_le_length (by simpa using hn), unreadOf,
          readMem_take, Nat.min_eq_left hn]

/-- The first chunk is a part of what is buffered. -/
theorem Fits.peek_le (h : Fits r k ids l) (hrep : ChainRep r.pool r.buf l) :
    r.peek.2 ≤ r.buf.totalLen := by
  cases l with
  | nil =>
      have hhead : r.buf.head = none := h.shape.linked
      simp [peek, hhead]
  | cons x l =>
      rw [hrep.total, List.map_cons, List.sum_cons]
      simp [peek, h.head_eq]

/-- **Reading through views of the first chunk is reading**, of no more than there is. -/
theorem Fits.peekAll (h : Fits r k ids l) (hrep : ChainRep r.pool r.buf l) {ks : List ℕ}
    {bytes : List UInt8} {r' : Reader} (hpeek : Reader.peekAll mem r ks = some (bytes, r')) :
    ks.sum ≤ r.buf.totalLen ∧ bytes = (unreadAll mem r.pool l).take ks.sum ∧
      r' = (Reader.remove mem r ks.sum).2.2 := by
  induction ks generalizing r ids l bytes with
  | nil =>
      simp only [Reader.peekAll, Option.some.injEq, Prod.mk.injEq] at hpeek
      obtain ⟨rfl, rfl⟩ := hpeek
      rw [List.sum_nil, ← retrieve_eq_remove mem, retrieve_zero, List.take_zero]
      exact ⟨Nat.zero_le _, rfl, rfl⟩
  | cons n ks ih =>
      simp only [Reader.peekAll, Option.ite_none_right_eq_some, Option.map_eq_some_iff,
        Prod.mk.injEq] at hpeek
      obtain ⟨hn, ⟨rest, r''⟩, hpeek, rfl, rfl⟩ := hpeek
      have hview : (r.peek.1.elim [] fun addr => readMem mem addr n)
          = (unreadAll mem r.pool l).take n := by
        rcases h.peek_eq hrep mem with ⟨hnone, -⟩ | ⟨addr, haddr, -, hview⟩
        · rw [hnone] at hn ⊢
          rw [Nat.le_zero.mp hn]
          rfl
        · rw [haddr]
          exact hview n hn
      obtain ⟨ids', l', hfits, hrep', hrest⟩ := h.retrieve hrep mem n
      obtain ⟨hsum, rfl, rfl⟩ := ih hfits hrep' hpeek
      refine ⟨?_, ?_, ?_⟩
      · have hview_le := h.peek_le hrep
        rw [h.retrieve_totalLen hrep n] at hsum
        rw [List.sum_cons]
        omega
      · rw [List.sum_cons, hview, hrest, List.take_add]
      · rw [List.sum_cons, ← retrieve_eq_remove mem, ← retrieve_eq_remove mem,
          h.retrieve_retrieve]

/-- No more is buffered than the pool has room for. -/
theorem Fits.totalLen_le (h : Fits r k ids l) (hrep : ChainRep r.pool r.buf l) :
    r.buf.totalLen ≤ 2 ^ k * r.pool.chunkSize := by
  have hchunk : ∀ n ∈ l.map fun c => (r.pool.chunksData c).readableBytes, n ≤ r.pool.chunkSize := by
    intro n hn
    obtain ⟨c, hc, rfl⟩ := List.mem_map.mp hn
    exact Nat.le_trans (Nat.sub_le _ _) (h.shape.live c hc).2
  have hroom := h.room
  calc r.buf.totalLen
      = (l.map fun c => (r.pool.chunksData c).readableBytes).sum := hrep.total
    _ ≤ l.length * r.pool.chunkSize := by simpa using List.sum_le_card_nsmul _ _ hchunk
    _ ≤ 2 ^ k * r.pool.chunkSize := Nat.mul_le_mul_right _ (by omega)

end Agree

namespace InputSide

/-- **Zero-copy and copying consumption agree.**  In every run of the connections of a loop, for
every live connection: `retrieve` does to the buffer and to the ring what `remove` does; reading
through views of the first chunk takes no more than there is, and gives the bytes and the state of
one `removeAsString`, unless no string is long enough for what the pool can hold; a view is empty
only when nothing is unread; and two calls of `remove` are one. -/
theorem consumption_agrees {s : InputSide} {k poolPtr chunkSize maxString : ℕ} (hk : k ≤ 15)
    (run : Reach step anyStep (create poolPtr chunkSize (2 ^ k) maxString) s) {e : Endpoint}
    {r : Reader} (he : e ∈ s.ends) (hr : r = s.reader e) :
    (∀ n, r.retrieve n = (Reader.remove s.mem r n).2.2) ∧
    (∀ ks bytes r', Reader.peekAll s.mem r ks = some (bytes, r') →
      ks.sum ≤ r.buf.totalLen ∧ Reader.removeAsString s.maxString s.mem r ks.sum
        = if s.maxString < ks.sum then none else some (bytes, r')) ∧
    r.buf.totalLen ≤ 2 ^ k * s.manager.chunkSize ∧
    (r.peek.2 = 0 → r.buf.totalLen = 0) ∧
    ∀ a b, Reader.remove s.mem r (a + b)
      = ((Reader.remove s.mem r a).1 ++ (Reader.remove s.mem (Reader.remove s.mem r a).2.2 b).1,
        (Reader.remove s.mem r a).2.1 + (Reader.remove s.mem (Reader.remove s.mem r a).2.2 b).2.1,
        (Reader.remove s.mem (Reader.remove s.mem r a).2.2 b).2.2) := by
  subst hr
  have hinv := reach_inv hk run
  have hrep : ChainRep (s.reader e).pool (s.reader e).buf (s.reader e).chain := hinv.rep e he
  have hfits : Fits (s.reader e) k s.published (s.reader e).chain :=
    ⟨hinv.ring, hrep.toChainShape, hinv.room he⟩
  refine ⟨retrieve_eq_remove s.mem _, fun ks bytes r' hpeek => ?_, hfits.totalLen_le hrep,
    fun hpeek => ?_, hfits.remove_remove hrep s.mem⟩
  · obtain ⟨hsum, rfl, rfl⟩ := hfits.peekAll hrep hpeek
    exact ⟨hsum, removeAsString_eq _ s.mem _ hinv.ring hrep (hinv.room he)⟩
  · rcases hfits.peek_eq hrep s.mem with ⟨-, htotal⟩ | ⟨addr, -, hpos, -⟩
    · exact htotal
    · omega

/-- Two chunks of three and two bytes, read as two, one and one. -/
theorem consumption_agrees_two :
    let run := exec step (create 4096 4 (2 ^ 1) (2 ^ 62 - 1))
      [.connect, .deliver 0 [1, 2, 3] true, .complete, .deliver 0 [4, 5] true, .complete]
    run.map (fun s => s.ends.map fun e =>
        (Reader.peekAll s.mem (s.reader e) [2, 1, 1]).map fun p => (p.1, p.2.buf.totalLen))
        = some [some ([1, 2, 3, 4], 1)] ∧
      ∀ s ∈ run, ∀ e ∈ s.ends, ∀ p, Reader.peekAll s.mem (s.reader e) [2, 1, 1] = some p →
        Reader.removeAsString s.maxString s.mem (s.reader e) 4
          = if s.maxString < 4 then none else some p := by
  intro run
  refine ⟨by decide +kernel, fun s hs e he p hp => ?_⟩
  exact ((consumption_agrees (by decide) (reach_of_exec_any hs) he rfl).2.1
    [2, 1, 1] p.1 p.2 hp).2

end InputSide

end Proactor
