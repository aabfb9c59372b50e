import Proactor.Core.RingIndex
import Proactor.Input.ChunkPool

/-!
# What the buffer ring holds

`RingHolds m k ids` says that a pool of `2 ^ k` chunks has exactly the chunks `ids` published, in
that order.  The pool's operations act on `ids` as on a queue:

* `create_ringHolds` — the constructor publishes every chunk;
* `RingHolds.returnOneChunk` — a return adds the chunk at the end;
* `RingHolds.consume` — the kernel takes the first one.

None of them overwrites a published slot, as long as fewer than `2 ^ k` chunks are published
when one is returned.  That this is always so is not a property of the pool alone: it follows
from the conservation of chunks over the whole system.
-/

namespace Proactor

open RingIndex

/-- The pool is cut into `2 ^ k` chunks, numbered in the order of their addresses. -/
structure PoolCut (m : ChunkPoolManagerInput) (k : ℕ) : Prop where
  num : m.chunkNum = 2 ^ k
  mask : m.mask = 2 ^ k - 1
  small : k ≤ 15
  dataPtr : ∀ c, (m.chunksData c).dataPtr = m.poolPtr + m.chunkSize * c
  index : ∀ c, (m.chunksData c).index = c

/-- The chunks `ids` are published, the kernel will take them in this order, and no published
slot has ever been overwritten. -/
structure RingHolds (m : ChunkPoolManagerInput) (k : ℕ) (ids : List ℕ) : Prop
    extends PoolCut m k where
  count : m.count = 0
  khead : m.ring.khead < 2 ^ 16
  tail : m.ring.tail = (m.ring.khead + ids.length) % 2 ^ 16
  fits : ids.length ≤ 2 ^ k
  slots : ∀ i (hi : i < ids.length),
    m.ring.bufs (slotOf 16 k m.ring.khead i) = m.descriptor ids[i]
  kept : m.ring.overwrote = false

namespace ChunkPoolManagerInput

variable {m : ChunkPoolManagerInput} {k c : ℕ} {ids : List ℕ}

@[simp] theorem write_ring (m : ChunkPoolManagerInput) (c : ℕ) (chunk : Chunk) :
    (m.write c chunk).ring = m.ring := rfl

@[simp] theorem write_chunksData (m : ChunkPoolManagerInput) (c : ℕ) (chunk : Chunk) :
    (m.write c chunk).chunksData = Function.update m.chunksData c chunk := rfl

@[simp] theorem write_poolPtr (m : ChunkPoolManagerInput) (c : ℕ) (chunk : Chunk) :
    (m.write c chunk).poolPtr = m.poolPtr := rfl

@[simp] theorem write_chunkSize (m : ChunkPoolManagerInput) (c : ℕ) (chunk : Chunk) :
    (m.write c chunk).chunkSize = m.chunkSize := rfl

theorem two_pow_le (h : k ≤ 15) : 2 ^ k ≤ 2 ^ 15 := Nat.pow_le_pow_right (by decide) h

end ChunkPoolManagerInput

namespace PoolCut

variable {m : ChunkPoolManagerInput} {k c : ℕ}

theorem le_sixteen (h : PoolCut m k) : k ≤ 16 := Nat.le_succ_of_le h.small

theorem descriptor_eq (h : PoolCut m k) (c : ℕ) :
    m.descriptor c = ⟨m.poolPtr + m.chunkSize * c, m.chunkSize, c⟩ := by
  simp only [ChunkPoolManagerInput.descriptor, h.dataPtr, h.index]

theorem write {chunk : Chunk} (h : PoolCut m k)
    (hd : chunk.dataPtr = (m.chunksData c).dataPtr) (hi : chunk.index = (m.chunksData c).index) :
    PoolCut (m.write c chunk) k := by
  refine ⟨h.num, h.mask, h.small, ?_, ?_⟩
  · intro d
    by_cases hc : d = c
    · subst hc; simpa [hd] using h.dataPtr d
    · simpa [hc] using h.dataPtr d
  · intro d
    by_cases hc : d = c
    · subst hc; simpa [hi] using h.index d
    · simpa [hc] using h.index d

end PoolCut

namespace RingHolds

variable {m : ChunkPoolManagerInput} {k c : ℕ} {ids : List ℕ}

theorem published_eq (h : RingHolds m k ids) : m.ring.published = ids.length := by
  have hk := ChunkPoolManagerInput.two_pow_le h.small
  have h1 := h.khead
  have h2 := h.fits
  rw [BufRing.published, h.tail]
  omega

theorem slot_eq (h : RingHolds m k ids) (i : ℕ) :
    m.ring.slot m.mask i = slotOf 16 k m.ring.khead i := by
  rw [h.mask]; rfl

/-- The first published slot is described by the first published chunk. -/
theorem slots_bid (h : RingHolds m k ids) (i : ℕ) (hi : i < ids.length) :
    m.ring.bufs (m.ring.slot m.mask i) = ⟨m.poolPtr + m.chunkSize * ids[i], m.chunkSize, ids[i]⟩ := by
  rw [h.slot_eq, h.slots i hi, h.toPoolCut.descriptor_eq]

theorem publishedIds_eq (h : RingHolds m k ids) : m.ring.publishedIds m.mask = ids := by
  rw [BufRing.publishedIds, h.published_eq]
  refine List.ext_getElem (by simp) ?_
  intro i hi hi'
  simp only [List.getElem_map, List.getElem_range, h.slots_bid i hi']

/-- Metadata that keeps address and number does not concern the ring. -/
theorem write {chunk : Chunk} (h : RingHolds m k ids)
    (hd : chunk.dataPtr = (m.chunksData c).dataPtr) (hi : chunk.index = (m.chunksData c).index) :
    RingHolds (m.write c chunk) k ids := by
  have hcut := h.toPoolCut.write hd hi
  refine ⟨hcut, h.count, h.khead, h.tail, h.fits, ?_, h.kept⟩
  intro i hi'
  rw [hcut.descriptor_eq]
  exact (h.slots i hi').trans (h.toPoolCut.descriptor_eq _)

/-- The kernel takes the first published chunk. -/
theorem consume {id : ℕ} (h : RingHolds m k (id :: ids)) :
    RingHolds { m with ring := m.ring.consume } k ids := by
  have hk := ChunkPoolManagerInput.two_pow_le h.small
  have h1 := h.fits
  have h2 := h.khead
  have h3 := h.tail
  simp only [List.length_cons] at h1 h3
  refine ⟨⟨h.num, h.mask, h.small, h.dataPtr, h.index⟩, h.count, ?_, ?_, by omega,
    ?_, h.kept⟩
  · exact Nat.mod_lt _ (by decide)
  · simp only [BufRing.consume, h3]
    omega
  · intro i hi
    have hslot := h.slots (i + 1) (by simpa using hi)
    rw [BufRing.consume, slotOf_succ h.toPoolCut.le_sixteen]
    exact hslot

/-- No published slot is the one that the next `add` writes. -/
theorem slot_ne (h : RingHolds m k ids) (hlt : ids.length < 2 ^ k) {i : ℕ} (hi : i < ids.length) :
    slotOf 16 k m.ring.khead i ≠ slotOf 16 k m.ring.khead ids.length := by
  intro heq
  have := slotOf_inj h.toPoolCut.le_sixteen (by omega) hlt heq
  omega

/-- `add` at the tail followed by `advance` publishes one more chunk, in a free slot. -/
theorem add (h : RingHolds m k ids) (hlt : ids.length < 2 ^ k) (c : ℕ) :
    RingHolds { m with ring := (m.ring.add (m.descriptor c) m.mask 0).advance 1 } k (ids ++ [c]) := by
  have htarget : (m.ring.tail + 0) &&& m.mask = slotOf 16 k m.ring.khead ids.length := by
    rw [Nat.add_zero, h.tail, h.mask]; rfl
  refine ⟨⟨h.num, h.mask, h.small, h.dataPtr, h.index⟩, h.count, h.khead, ?_, ?_, ?_, ?_⟩
  · simp only [BufRing.advance, BufRing.add, h.tail, List.length_append, List.length_singleton]
    omega
  · simpa using Nat.succ_le_of_lt hlt
  · intro i hi
    simp only [BufRing.advance, BufRing.add, htarget]
    rcases Nat.lt_or_ge i ids.length with hlt' | hge
    · rw [Function.update_of_ne (h.slot_ne hlt hlt'), List.getElem_append_left hlt']
      exact h.slots i hlt'
    · obtain rfl : i = ids.length := by simp at hi; omega
      simp [ChunkPoolManagerInput.descriptor]
  · simp only [BufRing.advance, BufRing.add, h.kept, Bool.false_or, List.any_eq_false,
      List.mem_range, h.published_eq, beq_iff_eq, htarget, h.slot_eq]
    exact fun i hi => h.slot_ne hlt hi

end RingHolds

/-! ## The operations of the pool -/

section Operations

variable {m : ChunkPoolManagerInput} {k c : ℕ} {ids : List ℕ}

theorem returnOneChunk_eq (hcount : m.count = 0) :
    m.returnOneChunk c =
      let m' := m.write c (m.chunksData c).reset
      { m' with ring := (m'.ring.add (m'.descriptor c) m'.mask 0).advance 1 } := by
  simp [ChunkPoolManagerInput.returnOneChunk, ChunkPoolManagerInput.write,
    ChunkPoolManagerInput.descriptor, hcount]

/-- A returned chunk is published last. -/
theorem RingHolds.returnOneChunk (h : RingHolds m k ids) (hlt : ids.length < 2 ^ k) (c : ℕ) :
    RingHolds (m.returnOneChunk c) k (ids ++ [c]) := by
  rw [returnOneChunk_eq h.count]
  have hreset : RingHolds (m.write c (m.chunksData c).reset) k ids := h.write rfl rfl
  exact hreset.add hlt c

/-- A returned chunk is clean, and the others are untouched. -/
theorem RingHolds.returnOneChunk_chunksData (h : RingHolds m k ids) (c : ℕ) :
    (m.returnOneChunk c).chunksData = Function.update m.chunksData c (m.chunksData c).reset := by
  rw [returnOneChunk_eq h.count]; rfl

/-- Each turn of the constructor's loop fills the slot with the chunk's own number. -/
theorem fill_spec (hcut : PoolCut m k) (hring : m.ring = ⟨fun _ => {}, 0, 0, false⟩)
    {n : ℕ} (hn : n ≤ 2 ^ k) :
    (m.fill n).tail = 0 ∧ (m.fill n).khead = 0 ∧ (m.fill n).overwrote = false ∧
      ∀ c < n, (m.fill n).bufs c = m.descriptor c := by
  induction n with
  | zero => simp [ChunkPoolManagerInput.fill, hring]
  | succ n ih =>
      obtain ⟨htail, hhead, hover, hbufs⟩ := ih (by omega)
      have hfill : m.fill (n + 1) = (m.fill n).add (m.descriptor n) m.mask n := by
        simp only [ChunkPoolManagerInput.fill, List.range_succ, List.foldl_append, List.foldl_cons,
          List.foldl_nil, hcut.index]
      have htarget : (0 + n) &&& m.mask = n := by
        rw [Nat.zero_add, hcut.mask, Nat.and_two_pow_sub_one_eq_mod, Nat.mod_eq_of_lt (by omega)]
      rw [hfill]
      refine ⟨htail, hhead, ?_, ?_⟩
      · -- nothing is published before the constructor's single `advance`
        simp [BufRing.add, BufRing.published, htail, hhead, hover]
      · intro c hc
        simp only [BufRing.add, htail, htarget]
        rcases Nat.lt_or_ge c n with hlt | hge
        · rw [Function.update_of_ne (by omega)]
          exact hbufs c hlt
        · obtain rfl : c = n := by omega
          simp

/-- The constructor publishes every chunk. -/
theorem create_ringHolds (poolPtr chunkSize : ℕ) (hk : k ≤ 15) :
    RingHolds (ChunkPoolManagerInput.create poolPtr chunkSize (2 ^ k)) k (List.range (2 ^ k)) := by
  have hpow := ChunkPoolManagerInput.two_pow_le hk
  let m : ChunkPoolManagerInput :=
    ⟨poolPtr, chunkSize, 2 ^ k, fun i => { dataPtr := poolPtr + chunkSize * i, index := i },
      ⟨fun _ => {}, 0, 0, false⟩, 2 ^ k - 1, 0⟩
  have hcut : PoolCut m k := ⟨rfl, rfl, hk, fun _ => rfl, fun _ => rfl⟩
  obtain ⟨htail, hhead, hover, hbufs⟩ := fill_spec hcut rfl (Nat.le_refl _)
  have hm : ChunkPoolManagerInput.create poolPtr chunkSize (2 ^ k) =
      { m with ring := (m.fill (2 ^ k)).advance (2 ^ k) } := rfl
  rw [hm]
  refine ⟨⟨rfl, rfl, hk, fun _ => rfl, fun _ => rfl⟩, rfl, ?_, ?_, by simp, ?_, hover⟩
  · simp only [BufRing.advance, hhead]; decide
  · simp only [BufRing.advance, htail, hhead, List.length_range]
  · intro i hi
    rw [List.length_range] at hi
    have hslot : slotOf 16 k (m.fill (2 ^ k)).khead i = i := by
      rw [slotOf_eq hcut.le_sixteen, hhead, Nat.zero_add, Nat.mod_eq_of_lt hi]
    simp only [BufRing.advance, hslot, List.getElem_range]
    exact hbufs i hi

end Operations

end Proactor
