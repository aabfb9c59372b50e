import Proactor.Output.SendQueueSpec
import Mathlib.Data.Int.Notation

/-!
# The write context

`WriteContext` (`src/WriteContext.cc`) owns the output queue of a connection and the one write
request the connection has in the kernel.  `temp_data_` is the iovec array of that request,
`is_sending_` says that there is one, `holder_` keeps the connection alive for it.

The functions here are the parts of the context that do not leave it: `flush`, `handleError`,
`sendInLoop` (`src/TcpConnection.cc`) and the end of `on_completion`.  Whether a write SQE is
prepared is their second result; where it goes is the loop's business.
-/

namespace Proactor

/-! ## Error numbers -/

def EINTR : ℤ := 4
def EBADF : ℤ := 9
def EAGAIN : ℤ := 11
def EPIPE : ℤ := 32
def ECONNRESET : ℤ := 104
def ENOBUFS : ℤ := 105
def ENOTCONN : ℤ := 107
def ECANCELED : ℤ := 125

/-- `WriteContext`.  A connection has one coroutine, so a coroutine handle or an owning pointer
is either null or the only value it can have, and is a `Bool`. -/
structure WriteContext where
  highWaterMark : ℕ
  maxSlices : ℕ
  holder : Bool
  writeHandle : Bool
  outputBuffer : SendQueue
  isSending : Bool
  isError : Bool
  tempData : List Iovec

namespace WriteContext

/-- The constructor. -/
def create (highWaterMark maxSlices : ℕ) : WriteContext where
  highWaterMark := highWaterMark
  maxSlices := maxSlices
  holder := false
  writeHandle := false
  outputBuffer := SendQueue.empty
  isSending := false
  isError := false
  tempData := []

def overLoad (w : WriteContext) : Bool := decide (w.highWaterMark < w.outputBuffer.totalLen)

/-- `none` is the failure of `assert(!temp_data_.empty())`; otherwise a write SQE for `tempData`
has been submitted. -/
def flush (w : WriteContext) : Option WriteContext :=
  let (tempData, outputBuffer) := w.outputBuffer.getBatchFragment [] w.maxSlices
  if tempData = [] then none
  else some { w with tempData := tempData, outputBuffer := outputBuffer, isSending := true }

/-- `need_close`, and the context with `is_error_` set as the code sets it. -/
def handleError (w : WriteContext) (res : ℤ) : Bool × WriteContext :=
  if res < 0 then
    let err := -res
    if err = EPIPE ∨ err = ECONNRESET then (true, { w with isError := true })
    else if err = EAGAIN ∨ err = ENOBUFS then (false, w)
    else if err = EINTR then (false, w)
    else if err = EBADF ∨ err = ENOTCONN then (true, { w with isError := true })
    else (true, { w with isError := true })
  else (true, w)

/-- `TcpConnection::sendInLoop`: append, and submit unless a request is already out. -/
def sendInLoop (w : WriteContext) (data : List UInt8) : Option (WriteContext × Bool) :=
  let w := { w with outputBuffer := w.outputBuffer.append data }
  if w.isSending then some (w, false)
  else ({ w with holder := true }).flush.map fun (w : WriteContext) =>
    ({ w with isSending := true }, true)

/-- The part of `on_completion` that deals with the result of the request: an error clears
`is_sending_`, a count moves the queue on. -/
def acknowledge (w : WriteContext) (res : ℤ) : WriteContext :=
  if res < 0 then { (w.handleError res).2 with isSending := false }
  else { w with outputBuffer := w.outputBuffer.retrieve res.toNat }

/-- The part after it, when the connection stays open: submit what is left, or let go of the
connection. -/
def proceed (w : WriteContext) : Option (WriteContext × Bool) :=
  if 0 < w.outputBuffer.totalLen then w.flush.map fun w => (w, true)
  else some ({ w with isSending := false, holder := false }, false)

/-- The results after which `on_completion` goes on as if nothing had been written. -/
def Transient (res : ℤ) : Prop := res = -EAGAIN ∨ res = -ENOBUFS ∨ res = -EINTR

instance (res : ℤ) : Decidable (Transient res) := inferInstanceAs (Decidable (_ ∨ _))

/-- The results that close the connection. -/
def Fatal (res : ℤ) : Prop := res < 0 ∧ ¬ Transient res

instance (res : ℤ) : Decidable (Fatal res) := inferInstanceAs (Decidable (_ ∧ _))

lemma Transient.neg {res : ℤ} (h : Transient res) : res < 0 := by
  simp only [Transient, EAGAIN, ENOBUFS, EINTR] at h
  omega

/-- `handleError` keeps the connection exactly on the transient errors. -/
lemma handleError_transient (w : WriteContext) {res : ℤ} (h : Transient res) :
    w.handleError res = (false, w) := by
  rcases h with rfl | rfl | rfl <;>
    simp [handleError, EAGAIN, ENOBUFS, EINTR, EPIPE, ECONNRESET]

lemma handleError_fatal (w : WriteContext) {res : ℤ} (h : Fatal res) :
    w.handleError res = (true, { w with isError := true }) := by
  obtain ⟨hneg, hnot⟩ := h
  simp only [Transient, not_or] at hnot
  have h₁ : -res ≠ EAGAIN := by omega
  have h₂ : -res ≠ ENOBUFS := by omega
  have h₃ : -res ≠ EINTR := by omega
  simp [handleError, hneg, h₁, h₂, h₃]

/-- A transient error changes nothing but `is_sending_`. -/
lemma acknowledge_transient (w : WriteContext) {res : ℤ} (h : Transient res) :
    w.acknowledge res = { w with isSending := false } := by
  simp [acknowledge, h.neg, handleError_transient w h]

lemma acknowledge_count (w : WriteContext) {res : ℤ} (h : 0 ≤ res) :
    w.acknowledge res = { w with outputBuffer := w.outputBuffer.retrieve res.toNat } := by
  simp [acknowledge, Int.not_lt.mpr h]

/-! ## What the functions leave alone -/

section Frame

variable {w w' : WriteContext} {flushed : Bool}

/-- `flush` changes the iovec array, the cursor and `is_sending_`. -/
lemma flush_frame (h : w.flush = some w') :
    w'.isSending = true ∧ w'.holder = w.holder ∧ w'.writeHandle = w.writeHandle ∧
      w'.isError = w.isError ∧ w'.overLoad = w.overLoad := by
  simp only [flush, Option.ite_none_left_eq_some, Option.some.injEq] at h
  obtain ⟨-, rfl⟩ := h
  simp [overLoad, SendQueue.getBatchFragment_totalLen]

/-- `sendInLoop` submits exactly when no request is out, and then there is one. -/
lemma sendInLoop_frame {data : List UInt8} (h : w.sendInLoop data = some (w', flushed)) :
    flushed = !w.isSending ∧ w'.isSending = true ∧ w'.holder = (w.holder || flushed) ∧
      w'.writeHandle = w.writeHandle ∧ w'.isError = w.isError ∧
      (w.isSending = true → w'.tempData = w.tempData) := by
  cases hs : w.isSending with
  | true =>
      simp only [sendInLoop, hs, if_true, Option.some.injEq, Prod.mk.injEq] at h
      obtain ⟨rfl, rfl⟩ := h
      simp
  | false =>
      simp only [sendInLoop, hs, Bool.false_eq_true, if_false, Option.map_eq_some_iff,
        Prod.mk.injEq] at h
      obtain ⟨v, hv, rfl, rfl⟩ := h
      obtain ⟨-, h₁, h₂, h₃, -⟩ := flush_frame hv
      simp [h₁, h₂, h₃]

/-- After a completion that leaves the connection open, a request is out exactly when there is
something left to send. -/
lemma proceed_frame (h : w.proceed = some (w', flushed)) :
    flushed = decide (0 < w.outputBuffer.totalLen) ∧ w'.isSending = flushed ∧
      w'.holder = (w.holder && flushed) ∧ w'.writeHandle = w.writeHandle ∧
      w'.isError = w.isError ∧ w'.overLoad = w.overLoad := by
  by_cases hlen : 0 < w.outputBuffer.totalLen
  · simp only [proceed, if_pos hlen, Option.map_eq_some_iff, Prod.mk.injEq] at h
    obtain ⟨v, hv, rfl, rfl⟩ := h
    obtain ⟨h₁, h₂, h₃, h₄, h₅⟩ := flush_frame hv
    simp [h₁, h₂, h₃, h₄, h₅, hlen]
  · simp only [proceed, if_neg hlen, Option.some.injEq, Prod.mk.injEq] at h
    obtain ⟨rfl, rfl⟩ := h
    simp [hlen, overLoad]

lemma acknowledge_frame (w : WriteContext) (res : ℤ) :
    (w.acknowledge res).holder = w.holder ∧ (w.acknowledge res).writeHandle = w.writeHandle ∧
      (w.acknowledge res).maxSlices = w.maxSlices ∧
      (w.acknowledge res).highWaterMark = w.highWaterMark := by
  have herr : (w.handleError res).2.holder = w.holder ∧
      (w.handleError res).2.writeHandle = w.writeHandle ∧
      (w.handleError res).2.maxSlices = w.maxSlices ∧
      (w.handleError res).2.highWaterMark = w.highWaterMark := by
    simp only [handleError]
    split_ifs <;> exact ⟨rfl, rfl, rfl, rfl⟩
  by_cases h : res < 0
  · simpa [acknowledge, h] using herr
  · simp [acknowledge, h]

@[simp] lemma acknowledge_holder (w : WriteContext) (res : ℤ) :
    (w.acknowledge res).holder = w.holder := (w.acknowledge_frame res).1

@[simp] lemma acknowledge_writeHandle (w : WriteContext) (res : ℤ) :
    (w.acknowledge res).writeHandle = w.writeHandle := (w.acknowledge_frame res).2.1

/-- Sending never takes the queue below the high water mark. -/
lemma sendInLoop_overLoad {data : List UInt8} (h : w.sendInLoop data = some (w', flushed))
    (hover : w.overLoad = true) : w'.overLoad = true := by
  have happ : ({ w with outputBuffer := w.outputBuffer.append data } : WriteContext).overLoad
      = true := by
    simp only [overLoad, SendQueue.append_totalLen, decide_eq_true_eq] at hover ⊢
    omega
  cases hs : w.isSending with
  | true =>
      simp only [sendInLoop, hs, if_true, Option.some.injEq, Prod.mk.injEq] at h
      obtain ⟨rfl, -⟩ := h
      exact happ
  | false =>
      simp only [sendInLoop, hs, Bool.false_eq_true, if_false, Option.map_eq_some_iff,
        Prod.mk.injEq] at h
      obtain ⟨v, hv, rfl, -⟩ := h
      obtain ⟨-, -, -, -, hkeep⟩ := flush_frame hv
      exact hkeep.trans happ

/-- `flush` takes nothing out of the queue. -/
lemma flush_totalLen (h : w.flush = some w') :
    w'.outputBuffer.totalLen = w.outputBuffer.totalLen ∧ w'.highWaterMark = w.highWaterMark := by
  simp only [flush, Option.ite_none_left_eq_some, Option.some.injEq] at h
  obtain ⟨-, rfl⟩ := h
  exact ⟨SendQueue.getBatchFragment_totalLen _ _, rfl⟩

lemma sendInLoop_totalLen {data : List UInt8} (h : w.sendInLoop data = some (w', flushed)) :
    w'.outputBuffer.totalLen = w.outputBuffer.totalLen + data.length ∧
      w'.highWaterMark = w.highWaterMark := by
  rw [← SendQueue.append_totalLen]
  simp only [sendInLoop] at h
  split at h
  case isTrue =>
    simp only [Option.some.injEq, Prod.mk.injEq] at h
    obtain ⟨rfl, -⟩ := h
    exact ⟨rfl, rfl⟩
  case isFalse =>
    simp only [Option.map_eq_some_iff, Prod.mk.injEq] at h
    obtain ⟨v, hv, rfl, -⟩ := h
    exact flush_totalLen hv

lemma proceed_totalLen (h : w.proceed = some (w', flushed)) :
    w'.outputBuffer.totalLen = w.outputBuffer.totalLen ∧ w'.highWaterMark = w.highWaterMark := by
  simp only [proceed] at h
  split at h
  case isTrue =>
    simp only [Option.map_eq_some_iff, Prod.mk.injEq] at h
    obtain ⟨v, hv, rfl, -⟩ := h
    exact flush_totalLen hv
  case isFalse =>
    simp only [Option.some.injEq, Prod.mk.injEq] at h
    obtain ⟨rfl, -⟩ := h
    exact ⟨rfl, rfl⟩

end Frame

/-! ## What a flush hands to the kernel -/

/-- The bytes of the iovec array of the current request. -/
def batch (w : WriteContext) : List UInt8 := (w.tempData.map w.outputBuffer.load).flatten

section Flush

open SendQueue

variable {w : WriteContext} {l : List ℕ} {k : ℕ}

/-- With the cursor at the end there is nothing to submit and the assertion fails. -/
lemma flush_none (h : Rep w.outputBuffer l l.length) : w.flush = none := by
  simp [flush, (h.getBatchFragment w.maxSlices).1]

/-- **`flush` from a cursor at position `k`** submits the next `max_slices_` fragments. -/
lemma flush_some (h : Rep w.outputBuffer l k) (hmax : 1 ≤ w.maxSlices) (hk : k < l.length) :
    w.flush = some { w with
      tempData := ((l.drop k).take w.maxSlices).map w.outputBuffer.iovecOf
      outputBuffer := { w.outputBuffer with curr := l[k + w.maxSlices]? }
      isSending := true } := by
  have hmax' : w.maxSlices ≠ 0 := by omega
  simp [flush, (h.getBatchFragment w.maxSlices).1, hmax', hk]

/-- The cursor after a flush. -/
lemma flush_rep (h : Rep w.outputBuffer l k) :
    Rep { w.outputBuffer with curr := l[k + w.maxSlices]? } l (min (k + w.maxSlices) l.length) :=
  (h.getBatchFragment w.maxSlices).2

end Flush

/-! ## The queue is a queue -/

section Queued

open SendQueue

/-- The output buffer is a well-formed queue, with its cursor anywhere in it. -/
def Queued (w : WriteContext) : Prop := ∃ l k, Rep w.outputBuffer l k

variable {w w' : WriteContext} {flushed : Bool}

lemma Queued.flush (h : w.Queued) (hflush : w.flush = some w') : w'.Queued := by
  obtain ⟨l, k, hrep⟩ := h
  obtain ⟨hbatch, hrep'⟩ := hrep.getBatchFragment w.maxSlices
  simp only [WriteContext.flush, Option.ite_none_left_eq_some, Option.some.injEq] at hflush
  obtain ⟨-, rfl⟩ := hflush
  rw [hbatch]
  exact ⟨l, _, hrep'⟩

lemma Queued.sendInLoop (h : w.Queued) {data : List UInt8}
    (hsend : w.sendInLoop data = some (w', flushed)) : w'.Queued := by
  obtain ⟨l, k, hrep⟩ := h
  have happ := hrep.append data
  cases hs : w.isSending with
  | true =>
      simp only [WriteContext.sendInLoop, hs, if_true, Option.some.injEq, Prod.mk.injEq] at hsend
      obtain ⟨rfl, -⟩ := hsend
      exact ⟨_, _, happ⟩
  | false =>
      simp only [WriteContext.sendInLoop, hs, Bool.false_eq_true, if_false, Option.map_eq_some_iff,
        Prod.mk.injEq] at hsend
      obtain ⟨v, hv, rfl, -⟩ := hsend
      obtain ⟨l', k', hrep'⟩ := Queued.flush ⟨_, _, happ⟩ hv
      exact ⟨l', k', hrep'⟩

/-- A count drops bytes at the front, an error leaves the queue as it is. -/
lemma Queued.acknowledge (h : w.Queued) (res : ℤ) : (w.acknowledge res).Queued := by
  obtain ⟨l, k, hrep⟩ := h
  by_cases hneg : res < 0
  · have hkeep : (w.handleError res).2.outputBuffer = w.outputBuffer := by
      simp only [handleError]
      split_ifs <;> rfl
    refine ⟨l, k, ?_⟩
    simpa [WriteContext.acknowledge, hneg, hkeep] using hrep
  · obtain ⟨l', hrep', -⟩ := hrep.retrieve res.toNat
    rw [w.acknowledge_count (Int.not_lt.mp hneg)]
    exact ⟨l', 0, hrep'⟩

/-- What is left to send after a completion. -/
lemma Queued.acknowledge_totalLen (h : w.Queued) {res : ℤ} (hres : ¬ Fatal res) :
    (w.acknowledge res).outputBuffer.totalLen = w.outputBuffer.totalLen - res.toNat := by
  by_cases hneg : res < 0
  · have ht : Transient res := by
      by_contra hnot
      exact hres ⟨hneg, hnot⟩
    rw [w.acknowledge_transient ht, Int.toNat_of_nonpos (by omega), Nat.sub_zero]
  · obtain ⟨l, k, hrep⟩ := h
    obtain ⟨l', hrep', -, hbytes, -⟩ := hrep.retrieve res.toNat
    rw [w.acknowledge_count (Int.not_lt.mp hneg), hrep'.getTotalLen, hbytes, List.length_drop,
      ← hrep.getTotalLen]

lemma Queued.proceed (h : w.Queued) (hproceed : w.proceed = some (w', flushed)) : w'.Queued := by
  simp only [WriteContext.proceed] at hproceed
  split at hproceed
  case isTrue =>
    simp only [Option.map_eq_some_iff, Prod.mk.injEq] at hproceed
    obtain ⟨v, hv, rfl, -⟩ := hproceed
    exact h.flush hv
  case isFalse =>
    simp only [Option.some.injEq, Prod.mk.injEq] at hproceed
    obtain ⟨rfl, -⟩ := hproceed
    exact h

/-- The counter that `overLoad` compares is the number of unsent bytes. -/
lemma Queued.overLoad_iff (h : w.Queued) :
    w.overLoad = true ↔ w.highWaterMark < w.outputBuffer.unsent.length := by
  obtain ⟨l, k, hrep⟩ := h
  rw [overLoad, decide_eq_true_eq, hrep.getTotalLen]

end Queued

end WriteContext

end Proactor
