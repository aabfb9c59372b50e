import Proactor.Core.Chain
import Proactor.Core.Loop
import Mathlib.Algebra.Group.Nat.Defs

/-!
# The chunk pool and its buffer ring

A loop owns one pool of equal chunks of memory (`include/ChunkPool.h`) and lends them to the
kernel through a provided-buffer ring (`src/ChunkPoolManagerInput.cc`).  The ring is an array of
buffer descriptors with a 16-bit tail written by the program and a 16-bit head kept by the
kernel; a chunk is *published* while its descriptor lies between the two.

`io_uring_buf_ring_add` and `io_uring_buf_ring_advance` are modelled as liburing documents them:
the first writes the slot `(tail + offset) & mask`, the second moves the tail.  `overwrote`
remembers whether an `add` has ever hit a slot that was still published.
-/

namespace Proactor

/-- `Chunk`: a pointer to a chunk is its number in `chunks_data_`. -/
structure Chunk where
  dataPtr : ℕ
  index : ℕ
  next : Option ℕ := none
  head : ℕ := 0
  tail : ℕ := 0

def Chunk.readableBytes (c : Chunk) : ℕ := c.tail - c.head

/-- `head_ += n`. -/
def Chunk.advance (c : Chunk) (n : ℕ) : Chunk := { c with head := c.head + n }

def Chunk.reset (c : Chunk) : Chunk := { c with head := 0, tail := 0, next := none }

/-- `struct io_uring_buf`. -/
structure IoUringBuf where
  addr : ℕ := 0
  len : ℕ := 0
  bid : ℕ := 0

/-- `struct io_uring_buf_ring`, with the kernel's head. -/
structure BufRing where
  bufs : ℕ → IoUringBuf
  tail : ℕ
  khead : ℕ
  overwrote : Bool

namespace BufRing

/-- Number of published entries: 16-bit tail minus kernel head. -/
def published (r : BufRing) : ℕ := (r.tail + 2 ^ 16 - r.khead) % 2 ^ 16

/-- The slot of the `i`-th published entry. -/
def slot (r : BufRing) (mask i : ℕ) : ℕ := (r.khead + i) % 2 ^ 16 &&& mask

/-- The ids of the published entries, in the order in which the kernel will take them. -/
def publishedIds (r : BufRing) (mask : ℕ) : List ℕ :=
  (List.range r.published).map fun i => (r.bufs (r.slot mask i)).bid

/-- `io_uring_buf_ring_add`. -/
def add (r : BufRing) (buf : IoUringBuf) (mask offset : ℕ) : BufRing :=
  let target := (r.tail + offset) &&& mask
  { r with
    bufs := Function.update r.bufs target buf
    overwrote := r.overwrote || (List.range r.published).any fun i => r.slot mask i == target }

/-- `io_uring_buf_ring_advance`. -/
def advance (r : BufRing) (count : ℕ) : BufRing :=
  { r with tail := (r.tail + count) % 2 ^ 16 }

/-- The kernel takes the first published entry. -/
def consume (r : BufRing) : BufRing := { r with khead := (r.khead + 1) % 2 ^ 16 }

end BufRing

/-- `ChunkPoolManagerInput` with the pool's base address and the loop's `CHUNK_SIZE`. -/
structure ChunkPoolManagerInput where
  poolPtr : ℕ
  chunkSize : ℕ
  chunkNum : ℕ
  chunksData : ℕ → Chunk
  ring : BufRing
  mask : ℕ
  count : ℕ

namespace ChunkPoolManagerInput

/-- `next_` of a chunk. -/
def next (m : ChunkPoolManagerInput) (c : ℕ) : Option ℕ := (m.chunksData c).next

/-- Overwrite one chunk's metadata. -/
def write (m : ChunkPoolManagerInput) (c : ℕ) (chunk : Chunk) : ChunkPoolManagerInput :=
  { m with chunksData := Function.update m.chunksData c chunk }

/-- The descriptor a chunk is published with. -/
def descriptor (m : ChunkPoolManagerInput) (c : ℕ) : IoUringBuf :=
  ⟨(m.chunksData c).dataPtr, m.chunkSize, (m.chunksData c).index⟩

/-- The first `n` turns of the loop that fills the ring. -/
def fill (m : ChunkPoolManagerInput) (n : ℕ) : BufRing :=
  (List.range n).foldl
    (fun r c => r.add (m.descriptor c) m.mask (m.chunksData c).index) m.ring

/-- The constructor: cut the pool into chunks and publish all of them. -/
def create (poolPtr chunkSize chunkNum : ℕ) : ChunkPoolManagerInput :=
  let m : ChunkPoolManagerInput :=
    { poolPtr := poolPtr
      chunkSize := chunkSize
      chunkNum := chunkNum
      chunksData := fun i => { dataPtr := poolPtr + chunkSize * i, index := i }
      ring := { bufs := fun _ => {}, tail := 0, khead := 0, overwrote := false }
      mask := chunkNum - 1
      count := 0 }
  { m with ring := (m.fill chunkNum).advance chunkNum }

def getChunkById (m : ChunkPoolManagerInput) (id : ℕ) : Option ℕ :=
  if id ≥ m.chunkNum then none else some id

/-- The batch size of the source is 1, so every return is published at once. -/
def returnOneChunk (m : ChunkPoolManagerInput) (c : ℕ) : ChunkPoolManagerInput :=
  let m := m.write c (m.chunksData c).reset
  let m := { m with ring := m.ring.add (m.descriptor c) m.mask m.count }
  let m := { m with count := (m.count + 1) % 2 ^ 16 }
  if m.count ≥ 1 then { m with ring := m.ring.advance m.count, count := 0 } else m

end ChunkPoolManagerInput

end Proactor
