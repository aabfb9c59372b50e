import Proactor.Input.ChunkPool

/-!
# The input chain

`InputChainBuffer` (`src/InputChainBuffer.cc`) strings the chunks that hold a connection's unread
bytes together through their `next_` links.  A chunk that has been read to its end goes back to
the ring at once, so every operation works on the buffer and the shared pool together.

The bytes are in the pool's memory, `mem : ℕ → UInt8`; copying reads them there.
-/

namespace Proactor

open Chain Loop

/-- `n` bytes of memory from `addr` on. -/
def readMem (mem : ℕ → UInt8) (addr n : ℕ) : List UInt8 := (List.range n).map fun i => mem (addr + i)

/-- Memory after `data` has been stored at `addr`. -/
def writeMem (mem : ℕ → UInt8) (addr : ℕ) (data : List UInt8) : ℕ → UInt8 :=
  fun a => if addr ≤ a ∧ a < addr + data.length then data.getD (a - addr) 0 else mem a

structure InputChainBuffer where
  head : Option ℕ
  tail : Option ℕ
  chunks : ℕ
  totalLen : ℕ

/-- A buffer together with the pool it returns its chunks to. -/
structure Reader where
  pool : ChunkPoolManagerInput
  buf : InputChainBuffer

namespace InputChainBuffer

/-- The constructor. -/
def empty : InputChainBuffer where
  head := none
  tail := none
  chunks := 0
  totalLen := 0

end InputChainBuffer

namespace Reader

def pushBack (r : Reader) (index : ℕ) : Reader :=
  let newChunk := r.pool.getChunkById index
  match r.buf.tail with
  | none => { r with buf := { r.buf with
      head := newChunk, tail := newChunk, chunks := r.buf.chunks + 1 } }
  | some t =>
      { pool := r.pool.write t { r.pool.chunksData t with next := newChunk }
        buf := { r.buf with tail := newChunk, chunks := r.buf.chunks + 1 } }

/-- `append`: link the chunk in, then account for the bytes the kernel put there. -/
def append (r : Reader) (index len : ℕ) : Reader :=
  let r := r.pushBack index
  match r.buf.tail with
  | none => r
  | some t =>
      { pool := r.pool.write t
          { r.pool.chunksData t with tail := (r.pool.chunksData t).tail + len }
        buf := { r.buf with totalLen := r.buf.totalLen + len } }

def popFront (r : Reader) : Reader :=
  if r.buf.chunks = 0 then r
  else
    match r.buf.head with
    | none => r
    | some h =>
        let buf :=
          if r.buf.head = r.buf.tail then { r.buf with head := none, tail := none }
          else { r.buf with head := r.pool.next h }
        { pool := r.pool.returnOneChunk h
          buf := { buf with chunks := buf.chunks - 1 } }

/-- The destructor returns every chunk. -/
def destroy (r : Reader) : Reader :=
  whileLoop (fun r => decide (r.buf.chunks ≠ 0)) popFront r.buf.chunks r

/-- Move the read offset of the first chunk by `n`, and return the chunk if it is used up. -/
def advanceHead (r : Reader) (h n : ℕ) : Reader :=
  let chunk := (r.pool.chunksData h).advance n
  let r := { r with pool := r.pool.write h chunk }
  if chunk.readableBytes = 0 then r.popFront else r

/-- One turn of the loop of `retrieve`, with `read_bytes`. -/
def retrieveTurn (len : ℕ) (st : Reader × ℕ) : Reader × ℕ :=
  match st.1.buf.head with
  | none => st
  | some h =>
      let offset := min (st.1.pool.chunksData h).readableBytes (len - st.2)
      (st.1.advanceHead h offset, st.2 + offset)

/-- `while (read_bytes < len && head_)`. -/
def retrieveLoop (r : Reader) (len : ℕ) : Reader × ℕ :=
  whileLoop (fun st => decide (st.2 < len) && st.1.buf.head.isSome)
    (retrieveTurn len) (r.buf.chunks + 1) (r, 0)

def retrieve (r : Reader) (len : ℕ) : Reader :=
  let (r, readBytes) := r.retrieveLoop len
  { r with buf := { r.buf with totalLen := r.buf.totalLen - readBytes } }

/-- One turn of the loop of `remove`, with `read_count` and the bytes copied so far. -/
def removeTurn (mem : ℕ → UInt8) (len : ℕ) (st : (Reader × ℕ) × List UInt8) :
    (Reader × ℕ) × List UInt8 :=
  match st.1.1.buf.head with
  | none => st
  | some h =>
      let chunk := st.1.1.pool.chunksData h
      let fillSize := min chunk.readableBytes (len - st.1.2)
      ((st.1.1.advanceHead h fillSize, st.1.2 + fillSize),
        st.2 ++ readMem mem (chunk.dataPtr + chunk.head) fillSize)

/-- `while (read_count < len && head_)`. -/
def removeLoop (mem : ℕ → UInt8) (r : Reader) (len : ℕ) : (Reader × ℕ) × List UInt8 :=
  whileLoop (fun st => decide (st.1.2 < len) && st.1.1.buf.head.isSome)
    (removeTurn mem len) (r.buf.chunks + 1) ((r, 0), [])

/-- `remove`: the bytes copied to the target, `read_count`, and the state after. -/
def remove (mem : ℕ → UInt8) (r : Reader) (len : ℕ) : List UInt8 × ℕ × Reader :=
  let ((r, readCount), target) := removeLoop mem r len
  (target, readCount, { r with buf := { r.buf with totalLen := r.buf.totalLen - readCount } })

/-- The string starts with `size` zero bytes and is cut to `read_count` after the copy.  One longer
than `std::string::max_size()`, here `maxString`, cannot be built: `none` is the exception. -/
def removeAsString (maxString : ℕ) (mem : ℕ → UInt8) (r : Reader) (size : ℕ) :
    Option (List UInt8 × Reader) :=
  if maxString < size then none
  else
    let (target, len, r) := remove mem r size
    some ((target ++ List.replicate (size - target.length) 0).take len, r)

def removeAllAsString (maxString : ℕ) (mem : ℕ → UInt8) (r : Reader) :
    Option (List UInt8 × Reader) :=
  removeAsString maxString mem r r.buf.totalLen

/-- `peek`: address and size of the first chunk's unread part. -/
def peek (r : Reader) : Option ℕ × ℕ :=
  match r.buf.head with
  | none => (none, 0)
  | some h =>
      (some ((r.pool.chunksData h).dataPtr + (r.pool.chunksData h).head),
        (r.pool.chunksData h).readableBytes)

/-! ## What the chain holds -/

/-- The chunks from `head_` on. -/
def chain (r : Reader) : List ℕ := walk r.pool.next r.buf.chunks r.buf.head

/-- The unread bytes of one chunk. -/
def unreadOf (mem : ℕ → UInt8) (m : ChunkPoolManagerInput) (c : ℕ) : List UInt8 :=
  readMem mem ((m.chunksData c).dataPtr + (m.chunksData c).head) (m.chunksData c).readableBytes

/-- The unread bytes. -/
def unread (mem : ℕ → UInt8) (r : Reader) : List UInt8 :=
  (r.chain.map (unreadOf mem r.pool)).flatten

end Reader

end Proactor
