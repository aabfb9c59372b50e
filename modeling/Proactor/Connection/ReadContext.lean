import Proactor.Core.Chunked
import Proactor.Output.WriteContext

/-!
# The read context

`ReadContext` (`src/ReadContext.cc`) owns the input buffer of a connection and its one multishot
receive.  `status_` says whether that request is out, and whether a cancel has been sent after
it; `holder_` keeps the connection alive for it.

Here the buffer is the list of its chunks' unread bytes, first chunk first; reading drops the
chunks that are used up.  That the chain of chunks in the shared pool is such a list and behaves so
is shown in `BufferRefinement`.
-/

namespace Proactor

inductive ReadStatus
  | stoped
  | reading
  | canceling
  deriving DecidableEq, Repr

/-- `ReadContext`; as in `WriteContext`, handles and owning pointers are null or not. -/
structure ReadContext where
  highWaterMark : ℕ
  highWaterMarkChunk : ℕ
  holder : Bool
  readHandle : Bool
  inputBuffer : List (List UInt8)
  isError : Bool
  status : ReadStatus

namespace ReadContext

open Chunked

/-- The constructor. -/
def create (highWaterMark highWaterMarkChunk : ℕ) : ReadContext where
  highWaterMark := highWaterMark
  highWaterMarkChunk := highWaterMarkChunk
  holder := false
  readHandle := false
  inputBuffer := []
  isError := false
  status := .stoped

def totalLen (r : ReadContext) : ℕ := r.inputBuffer.flatten.length

def totalChunk (r : ReadContext) : ℕ := r.inputBuffer.length

def overLoad (r : ReadContext) : Bool :=
  decide (r.highWaterMark < r.totalLen) || decide (r.highWaterMarkChunk < r.totalChunk)

def isEmpty (r : ReadContext) : Bool := decide (r.totalLen = 0)

/-- `need_close`, and the context with `is_error_` set as the code sets it. -/
def handleError (r : ReadContext) (res : ℤ) : Bool × ReadContext :=
  if res = 0 then (true, { r with isError := true })
  else if res < 0 then
    let err := -res
    if err = EPIPE ∨ err = ECONNRESET then (true, { r with isError := true })
    else if err = ENOBUFS then (false, r)
    else if err = EAGAIN then (false, r)
    else if err = ENOTCONN ∨ err = EBADF then (true, { r with isError := true })
    else if err = ECANCELED then (false, r)
    else (true, { r with isError := true })
  else (true, r)

/-- The results that close the connection. -/
def Fatal (res : ℤ) : Prop :=
  res ≤ 0 ∧ res ≠ -ENOBUFS ∧ res ≠ -EAGAIN ∧ res ≠ -ECANCELED

instance (res : ℤ) : Decidable (Fatal res) := inferInstanceAs (Decidable (_ ∧ _))

/-- The data branch of `on_completion`: append, and cancel the request above a high water mark.
The second result says whether a cancel SQE is sent. -/
def receive (r : ReadContext) (data : List UInt8) : ReadContext × Bool :=
  let r := { r with inputBuffer := r.inputBuffer ++ [data] }
  if r.overLoad ∧ r.status ≠ .canceling then ({ r with status := .canceling }, true)
  else (r, false)

/-- The first half of `on_completion`: `need_close`, the context, and whether a cancel is sent. -/
def takeResult (r : ReadContext) (res : ℤ) (data : List UInt8) : Bool × ReadContext × Bool :=
  if res ≤ 0 then
    let (needClose, r) := r.handleError res
    (needClose, r, false)
  else (false, r.receive data)

/-- `removeAsString` on the input buffer. -/
def removeAsString (r : ReadContext) (n : ℕ) : List UInt8 × ReadContext :=
  (r.inputBuffer.flatten.take n, { r with inputBuffer := dropFlat n r.inputBuffer })

/-- `handleError` gives up exactly on the fatal results. -/
theorem handleError_eq (r : ReadContext) {res : ℤ} (h : res ≤ 0) :
    r.handleError res
      = (decide (Fatal res), { r with isError := r.isError || decide (Fatal res) }) := by
  by_cases hf : Fatal res
  · obtain ⟨-, h₁, h₂, h₃⟩ := hf
    have h₁' : -res ≠ ENOBUFS := by omega
    have h₂' : -res ≠ EAGAIN := by omega
    have h₃' : -res ≠ ECANCELED := by omega
    have hf : Fatal res := ⟨h, h₁, h₂, h₃⟩
    rcases Int.lt_or_eq_of_le h with hneg | rfl
    · simp [handleError, hneg, Int.ne_of_lt hneg, h₁', h₂', h₃', hf]
    · simp [handleError, hf]
  · have hcases : res = -ENOBUFS ∨ res = -EAGAIN ∨ res = -ECANCELED := by
      simp only [Fatal, h, true_and, not_and, not_not] at hf
      tauto
    rw [decide_eq_false hf, Bool.or_false]
    rcases hcases with rfl | rfl | rfl <;>
      simp [handleError, ENOBUFS, EAGAIN, ECANCELED, EPIPE, ECONNRESET, ENOTCONN, EBADF]

/-- What the first half of `on_completion` does to the fields that the protocol rests on. -/
theorem takeResult_spec (r : ReadContext) (res : ℤ) (data : List UInt8) :
    (r.takeResult res data).1 = decide (Fatal res) ∧
      (r.takeResult res data).2.1.holder = r.holder ∧
      (r.takeResult res data).2.1.readHandle = r.readHandle ∧
      ((r.takeResult res data).2.1.status = r.status ∨
        (r.takeResult res data).2.1.status = .canceling) ∧
      (r.takeResult res data).2.1.isError = (r.isError || decide (Fatal res)) := by
  by_cases hres : res ≤ 0
  · simp [takeResult, hres, handleError_eq r hres]
  · have hf : ¬ Fatal res := fun h => hres h.1
    simp only [takeResult, if_neg hres, receive, hf, decide_false, Bool.or_false]
    split
    · simp
    · simp

@[simp] theorem takeResult_holder (r : ReadContext) (res : ℤ) (data : List UInt8) :
    (r.takeResult res data).2.1.holder = r.holder := (r.takeResult_spec res data).2.1

@[simp] theorem takeResult_readHandle (r : ReadContext) (res : ℤ) (data : List UInt8) :
    (r.takeResult res data).2.1.readHandle = r.readHandle := (r.takeResult_spec res data).2.2.1

end ReadContext

end Proactor
