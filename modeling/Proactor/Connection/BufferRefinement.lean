import Proactor.Input.InputChainSpec
import Proactor.Connection.ReadContext

/-!
# The chain of chunks is the buffer of the read context

The read context of a connection sees its input buffer as a list of chunks of unread bytes.  The
buffer is a chain of chunks in the shared pool, linked through their metadata and filled by the
kernel.  `Holds mem r ctx` says that the chain `r` over the memory `mem` is the buffer of `ctx`.
The operations that the context uses keep it, and the counters that decide about backpressure and
about waiting are the same on both sides.
-/

namespace Proactor

open Chunked

/-- The chain holds, chunk by chunk, what the read context has in its buffer. -/
def Holds (mem : ℕ → UInt8) (r : Reader) (ctx : ReadContext) : Prop :=
  ∃ l, ChainRep r.pool r.buf l ∧ contents mem r.pool l = ctx.inputBuffer

section

variable {mem : ℕ → UInt8} {r : Reader} {ctx : ReadContext}

/-- A new connection. -/
theorem holds_create (m : ChunkPoolManagerInput) (highWaterMark highWaterMarkChunk : ℕ) :
    Holds mem ⟨m, .empty⟩ (.create highWaterMark highWaterMarkChunk) :=
  ⟨[], chainRep_empty m, rfl⟩

/-- `getTotalLen` and `getTotalChunk`, on which `overLoad` and `isEmpty` rest. -/
theorem Holds.counters (h : Holds mem r ctx) :
    r.buf.totalLen = ctx.totalLen ∧ r.buf.chunks = ctx.totalChunk := by
  obtain ⟨l, hrep, hctx⟩ := h
  constructor
  · have hlen : r.buf.totalLen = (unreadAll mem r.pool l).length := hrep.totalLen_eq
    rw [hlen, unreadAll, hctx, ReadContext.totalLen]
  · rw [ReadContext.totalChunk, ← hctx, hrep.chunks, contents, List.length_map]

/-- What is in the chain itself. -/
theorem Holds.contents (h : Holds mem r ctx) : contents mem r.pool r.chain = ctx.inputBuffer := by
  obtain ⟨l, hrep, hctx⟩ := h
  rw [hrep.chain_eq, hctx]

/-- **A payload is one more chunk.**  The kernel has stored it in a clean chunk that is not in the
chain. -/
theorem Holds.append {c : ℕ} {data : List UInt8} (h : Holds mem r ctx)
    (hc : c < r.pool.chunkNum) (hnew : c ∉ r.chain) (hclean : r.pool.Clean c)
    (hpos : 0 < data.length) (hsize : data.length ≤ r.pool.chunkSize)
    (hdata : readMem mem (r.pool.chunksData c).dataPtr data.length = data) :
    Holds mem (r.append c data.length) { ctx with inputBuffer := ctx.inputBuffer ++ [data] } := by
  obtain ⟨l, hrep, hctx⟩ := h
  rw [hrep.chain_eq] at hnew
  refine ⟨l ++ [c], hrep.append hc hnew hclean hpos hsize, ?_⟩
  rw [hrep.append_contents mem hc hnew hclean, hctx, hdata]

/-- **Reading gives the same bytes and leaves the same chunks.** -/
theorem Holds.remove {k : ℕ} {ids : List ℕ} (h : Holds mem r ctx) (size : ℕ)
    (hring : RingHolds r.pool k ids) (hroom : ids.length + r.chain.length ≤ 2 ^ k) :
    (Reader.remove mem r size).1 = (ctx.removeAsString size).1 ∧
      Holds mem (Reader.remove mem r size).2.2 (ctx.removeAsString size).2 := by
  obtain ⟨l, hrep, hctx⟩ := h
  rw [hrep.chain_eq] at hroom
  obtain ⟨hout, -, l₁, l₂, -, -, hrep', hcontents⟩ := remove_spec mem size hring hrep hroom
  constructor
  · rw [hout, unreadAll, hctx]
    rfl
  · refine ⟨l₂, hrep', ?_⟩
    rw [hcontents, hctx]
    rfl

/-- `read`, of a size that a string can have. -/
theorem Holds.removeAsString {maxString k : ℕ} {ids : List ℕ} (h : Holds mem r ctx) {size : ℕ}
    (hmax : size ≤ maxString) (hring : RingHolds r.pool k ids)
    (hroom : ids.length + r.chain.length ≤ 2 ^ k) :
    ∃ r', Reader.removeAsString maxString mem r size = some ((ctx.removeAsString size).1, r') ∧
      Holds mem r' (ctx.removeAsString size).2 := by
  obtain ⟨hbytes, hrest⟩ := h.remove size hring hroom
  obtain ⟨l, hrep, hctx⟩ := h
  rw [hrep.chain_eq] at hroom
  refine ⟨_, ?_, hrest⟩
  rw [removeAsString_eq maxString mem size hring hrep hroom, if_neg (Nat.not_lt.mpr hmax), ← hbytes,
    (remove_spec mem size hring hrep hroom).1]

/-- A call that takes nothing. -/
theorem Holds.removeNothing (h : Holds mem r ctx) : Holds mem r (ctx.removeAsString 0).2 := by
  obtain ⟨l, hrep, hctx⟩ := h
  refine ⟨l, hrep, ?_⟩
  have hne := hrep.toChainShape.contents_ne_nil mem
  rw [hctx] at hne
  rw [hctx]
  exact (dropFlat_zero hne).symm

end

end Proactor
