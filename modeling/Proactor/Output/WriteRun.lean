import Proactor.Core.Transition
import Proactor.Output.WriteContext

/-!
# Sends and completions of one connection

The output side of an open connection as a transition system.  A step is one `sendInLoop`, from
the loop thread or from a queued functor, or one completion of the outstanding write request.
`sent` collects the strings in the order in which they were appended, `acked` the bytes the
kernel has accepted: a completion with result `r` accepts the first `r` bytes of the batch that
was submitted.

* `output_stream_integrity` — with completions that report a count, acknowledged and unsent
  bytes are the sent bytes, and every batch is the front of the queue.
* `retry_misses_head` — after a transient error the code submits the fragments *after* the ones
  that failed, because only `retrieve` rewinds the cursor.
-/

namespace Proactor

open Chain Chunked Transition SendQueue

structure WriteSide where
  ctx : WriteContext
  outstanding : ℕ
  submitted : ℕ
  acked : List UInt8
  sent : List (List UInt8)
  /-- `assert(!temp_data_.empty())` has failed and the process is gone. -/
  aborted : Bool

inductive WriteAct
  | send (data : List UInt8)
  | complete (res : ℤ)

namespace WriteSide

def start (highWaterMark maxSlices : ℕ) : WriteSide where
  ctx := WriteContext.create highWaterMark maxSlices
  outstanding := 0
  submitted := 0
  acked := []
  sent := []
  aborted := false

/-- Take over the result of a context function that may have submitted a write SQE. -/
def commit (s : WriteSide) : Option (WriteContext × Bool) → WriteSide
  | none => { s with aborted := true }
  | some (ctx, flushed) =>
      { s with
        ctx := ctx
        outstanding := s.outstanding + flushed.toNat
        submitted := s.submitted + flushed.toNat }

/-- Fatal results are no step here: they close the connection. -/
def step (s : WriteSide) : WriteAct → Option WriteSide
  | .send data =>
      if s.aborted then none
      else some ({ s with sent := s.sent ++ [data] }.commit (s.ctx.sendInLoop data))
  | .complete res =>
      if s.aborted = true ∨ s.outstanding = 0 ∨ (s.ctx.batch.length : ℤ) < res ∨
          WriteContext.Fatal res then none
      else
        some ({ s with
            outstanding := s.outstanding - 1
            acked := s.acked ++ s.ctx.batch.take res.toNat }.commit (s.ctx.acknowledge res).proceed)

/-- Completions that report a count. -/
def Successful (_ : WriteSide) : WriteAct → Prop
  | .send _ => True
  | .complete res => 0 ≤ res

instance (s : WriteSide) : (a : WriteAct) → Decidable (Successful s a)
  | .send _ => inferInstanceAs (Decidable True)
  | .complete res => inferInstanceAs (Decidable (0 ≤ res))

/-- The submitted batch is, byte for byte, the unsent part of the first `max_slices_` fragments,
and so a prefix of the unsent bytes. -/
def BatchAtFront (w : WriteContext) : Prop :=
  w.tempData.map w.outputBuffer.load
      = w.outputBuffer.fragments.take (min w.maxSlices w.outputBuffer.fragments.length) ∧
    w.batch <+: w.outputBuffer.unsent

variable {s s' : WriteSide}

/-- What a send does. -/
lemma step_send {data : List UInt8} (h : s.step (.send data) = some s') :
    s.aborted = false ∧
      s' = { s with sent := s.sent ++ [data] }.commit (s.ctx.sendInLoop data) := by
  simp only [step] at h
  split at h
  · cases h
  · rename_i halive
    exact ⟨by simpa using halive, (Option.some.inj h).symm⟩

/-- What a completion does, and when there can be one. -/
lemma step_complete {res : ℤ} (h : s.step (.complete res) = some s') :
    s.aborted = false ∧ s.outstanding ≠ 0 ∧ res ≤ s.ctx.batch.length ∧
      ¬ WriteContext.Fatal res ∧
      s' = { s with
          outstanding := s.outstanding - 1
          acked := s.acked ++ s.ctx.batch.take res.toNat }.commit
        (s.ctx.acknowledge res).proceed := by
  simp only [step] at h
  split at h
  · cases h
  · rename_i hguard
    simp only [not_or, Bool.not_eq_true, Int.not_lt] at hguard
    exact ⟨hguard.1, hguard.2.1, hguard.2.2.1, hguard.2.2.2, (Option.some.inj h).symm⟩

end WriteSide

namespace WriteContext

open WriteSide

/-- The outstanding batch is the front of the queue and the cursor stands right after it; with no
request out the cursor is at the front. -/
def Front (w : WriteContext) : Prop :=
  ∃ l k, Rep w.outputBuffer l k ∧
    (w.isSending = true → w.tempData = (l.take k).map w.outputBuffer.iovecOf) ∧
    (w.isSending = false → k = 0)

variable {w : WriteContext} {l : List ℕ}

/-- The batch of the first `k` nodes is a prefix of what the queue holds. -/
lemma batch_prefix {k : ℕ} (h : Rep w.outputBuffer l k)
    (hbatch : w.tempData = (l.take k).map w.outputBuffer.iovecOf) :
    w.batch <+: w.outputBuffer.unsent := by
  rw [batch, hbatch, h.load_iovecs fun p hp => List.mem_of_mem_take hp, h.unsent_eq]
  refine ⟨w.outputBuffer.unsentOf (l.drop k), ?_⟩
  rw [← unsentOf, ← unsentOf_append, List.take_append_drop]

/-- **A flush with the cursor at the front submits the front of the queue.** -/
lemma flush_front (h : Rep w.outputBuffer l 0) (hmax : 1 ≤ w.maxSlices) (hl : l ≠ []) :
    ∃ w', w.flush = some w' ∧ w'.Front ∧ w'.isSending = true ∧ BatchAtFront w' ∧
      w'.outputBuffer.fragments = w.outputBuffer.fragments ∧ w'.maxSlices = w.maxSlices := by
  have hpos : 0 < l.length := List.length_pos_iff.mpr hl
  have hrep := flush_rep h
  simp only [Nat.zero_add] at hrep
  have hflush := flush_some h hmax hpos
  simp only [Nat.zero_add, List.drop_zero] at hflush
  have htake : l.take w.maxSlices = l.take (min w.maxSlices l.length) := by
    rw [← List.take_take, List.take_length]
  refine ⟨_, hflush, ⟨l, _, hrep, ?_, by simp⟩, rfl, ⟨?_, ?_⟩, ?_, rfl⟩
  · intro _
    rw [← htake]
    rfl
  · simp only [fragments, hrep.nodes_eq, List.length_map]
    rw [← List.map_take, ← htake]
    exact hrep.load_iovecs fun p hp => List.mem_of_mem_take hp
  · refine batch_prefix hrep ?_
    rw [← htake]
    rfl
  · rw [hrep.fragments_eq, h.fragments_eq]
    rfl

lemma Front.sendInLoop (h : w.Front) (hmax : 1 ≤ w.maxSlices) (data : List UInt8) :
    ∃ w', w.sendInLoop data = some (w', !w.isSending) ∧ w'.Front ∧ w'.isSending = true ∧
      w'.outputBuffer.fragments = w.outputBuffer.fragments ++ [data] ∧
      w'.maxSlices = w.maxSlices ∧
      (w.isSending = false → BatchAtFront w') := by
  obtain ⟨l, k, hrep, hout, hidle⟩ := h
  have happ := hrep.append data
  cases hs : w.isSending with
  | true =>
      refine ⟨{ w with outputBuffer := w.outputBuffer.append data },
        by simp [WriteContext.sendInLoop, hs], ⟨_, k, happ, ?_, ?_⟩, hs,
        hrep.fragments_append data, rfl, by simp⟩
      · intro _
        rw [List.take_append_of_le_length hrep.cursor]
        rw [show w.tempData = _ from hout hs]
        exact List.map_congr_left fun p hp =>
          (hrep.append_iovecOf data (List.mem_of_mem_take hp)).symm
      · intro hfalse
        exact absurd (hs.symm.trans hfalse) (by simp)
  | false =>
      obtain rfl : k = 0 := hidle hs
      obtain ⟨w', hflush, hfront, hsend, hbatch, hsame, hmax'⟩ :=
        flush_front (w := { w with outputBuffer := w.outputBuffer.append data, holder := true })
          happ hmax (by simp)
      refine ⟨{ w' with isSending := true }, ?_, ?_, rfl, ?_, hmax', fun _ => hbatch⟩
      · simp only [WriteContext.sendInLoop]
        rw [if_neg (by simp [hs]), hflush]
        rfl
      · obtain ⟨l', k', hrep', hout', -⟩ := hfront
        exact ⟨l', k', hrep', fun _ => hout' hsend, by simp⟩
      · rw [hsame]
        exact hrep.fragments_append data

lemma Front.complete (h : w.Front) (hmax : 1 ≤ w.maxSlices) {res : ℤ} (hres : 0 ≤ res) :
    ∃ w' flushed, (w.acknowledge res).proceed = some (w', flushed) ∧ w'.Front ∧
      w'.isSending = flushed ∧ w'.maxSlices = w.maxSlices ∧
      w'.outputBuffer.fragments = skipFlat res.toNat w.outputBuffer.fragments ∧
      (flushed = true → BatchAtFront w') := by
  obtain ⟨l, k, hrep, -, -⟩ := h
  obtain ⟨l', hrep', -, -, hfragments⟩ := hrep.retrieve res.toNat
  rw [acknowledge_count w hres, proceed]
  by_cases hpos : 0 < (w.outputBuffer.retrieve res.toNat).totalLen
  · have hne : l' ≠ [] := by
      rintro rfl
      simp [hrep'.totalLen] at hpos
    obtain ⟨w', hflush, hfront, hsend, hbatch, hsame, hmax'⟩ :=
      flush_front (w := { w with outputBuffer := w.outputBuffer.retrieve res.toNat })
        hrep' hmax hne
    exact ⟨w', true, by simp [hpos, hflush], hfront, hsend, hmax', hsame.trans hfragments,
      fun _ => hbatch⟩
  · refine ⟨{ w with
        outputBuffer := w.outputBuffer.retrieve res.toNat, isSending := false, holder := false },
      false, by simp [hpos], ?_, rfl, rfl, hfragments, by simp⟩
    exact ⟨l', 0, hrep', by simp, fun _ => rfl⟩

end WriteContext

namespace WriteSide

/-- What every run of sends and successful completions keeps. -/
structure Inv (maxSlices : ℕ) (s : WriteSide) : Prop where
  alive : s.aborted = false
  slices : s.ctx.maxSlices = maxSlices
  front : s.ctx.Front
  outstanding : s.outstanding = s.ctx.isSending.toNat
  stream : s.acked ++ s.ctx.outputBuffer.unsent = s.sent.flatten

variable {s s' : WriteSide} {maxSlices : ℕ}

lemma inv_start (highWaterMark maxSlices : ℕ) : Inv maxSlices (start highWaterMark maxSlices) where
  alive := rfl
  slices := rfl
  front := ⟨[], 0, rep_empty, by simp [start, WriteContext.create], fun _ => rfl⟩
  outstanding := rfl
  stream := rfl

/-- The step lemma, with what is needed about a batch submitted in the step. -/
lemma Inv.step (h : Inv maxSlices s) (hmax : 1 ≤ maxSlices) {a : WriteAct}
    (hok : Successful s a) (hstep : s.step a = some s') :
    Inv maxSlices s' ∧ (s.submitted < s'.submitted → BatchAtFront s'.ctx) := by
  have hmax' : 1 ≤ s.ctx.maxSlices := h.slices ▸ hmax
  cases a with
  | send data =>
      obtain ⟨w', hw', hfront, hsend, hfragments, hslices, hbatch⟩ := h.front.sendInLoop hmax' data
      obtain ⟨-, rfl⟩ := step_send hstep
      rw [hw', commit]
      refine ⟨⟨h.alive, hslices.trans h.slices, hfront, ?_, ?_⟩, ?_⟩
      · have := h.outstanding
        cases hs : s.ctx.isSending <;> simp [hs, hsend, this]
      · simp only [unsent_of_append hfragments, List.flatten_append, List.flatten_singleton,
          ← h.stream, List.append_assoc]
      · intro hlt
        cases hs : s.ctx.isSending with
        | true => simp [hs] at hlt
        | false => exact hbatch hs
  | complete res =>
      obtain ⟨w', flushed, hw', hfront, hsend, hslices, hfragments, hbatch⟩ :=
        h.front.complete hmax' hok
      obtain ⟨-, hout, hlen, -, rfl⟩ := step_complete hstep
      have hone : s.outstanding = 1 ∧ s.ctx.isSending = true := by
        have := h.outstanding
        cases hs : s.ctx.isSending <;> simp_all
      rw [hw', commit]
      refine ⟨⟨h.alive, hslices.trans h.slices, hfront, ?_, ?_⟩, ?_⟩
      · simp [hone.1, hsend]
      · -- the accepted bytes are the first `res` unsent ones, because the batch is the front
        obtain ⟨l, k, hrep, hfrontBatch, -⟩ := h.front
        obtain ⟨rest, hrest⟩ := WriteContext.batch_prefix hrep (hfrontBatch hone.2)
        have htake : s.ctx.batch.take res.toNat = s.ctx.outputBuffer.unsent.take res.toNat := by
          rw [← hrest, List.take_append_of_le_length (by omega)]
        rw [unsent_of_skip hfragments, htake, List.append_assoc, List.take_append_drop]
        exact h.stream
      · intro hlt
        cases hf : flushed with
        | false => simp [hf] at hlt
        | true => exact hbatch hf

lemma inv_of_reach {highWaterMark : ℕ} (hmax : 1 ≤ maxSlices)
    (run : Reach step Successful (start highWaterMark maxSlices) s) : Inv maxSlices s :=
  run.invariant (inv_start highWaterMark maxSlices) fun _ _ _ h hok hstep =>
    (h.step hmax hok hstep).1

/-- **Output stream integrity.**  In every run of sends and successful completions, at every
step, the acknowledged bytes followed by the unsent ones are the strings in the order they were
appended; and every batch submitted is the unsent part of the first `max_slices_` fragments. -/
theorem output_stream_integrity {highWaterMark : ℕ} (hmax : 1 ≤ maxSlices)
    (run : Reach step Successful (start highWaterMark maxSlices) s) :
    s.aborted = false ∧ s.acked ++ s.ctx.outputBuffer.unsent = s.sent.flatten ∧
      ∀ a s', Successful s a → s.step a = some s' → s.submitted < s'.submitted →
        BatchAtFront s'.ctx := by
  have h := inv_of_reach hmax run
  exact ⟨h.alive, h.stream, fun a s' hok hstep => (h.step hmax hok hstep).2⟩

/-- Two sends and a partial write that ends inside the first fragment. -/
theorem output_stream_integrity_partial :
    ∃ s, exec step (start 8 1) [.send [1, 2, 3], .send [4], .complete 2] = some s ∧
      s.acked = [1, 2] ∧ s.acked ++ s.ctx.outputBuffer.unsent = [[1, 2, 3], [4]].flatten := by
  refine ⟨_, rfl, rfl, ?_⟩
  have run : Reach step Successful (start 8 1) _ := reach_of_exec
    (rfl : exec (guarded step Successful) (start 8 1) [.send [1, 2, 3], .send [4], .complete 2]
      = some _)
  exact (output_stream_integrity (by decide) run).2.1

/-! ## Transient errors -/

/-- After a transient completion the code submits a non-empty batch that is the first up to
`max_slices_` fragments of the queue from `head_`.  Iovecs carry addresses, so the fragments
themselves are meant and not others with the same bytes. -/
def RetriesFromHead (s : WriteSide) (res : ℤ) : Prop :=
  ∃ s', s.step (.complete res) = some s' ∧ s'.aborted = false ∧ s'.ctx.tempData ≠ [] ∧
    s'.ctx.tempData
      = (s'.ctx.outputBuffer.nodes.take s.ctx.maxSlices).map s'.ctx.outputBuffer.iovecOf

/-- The cursor of a queue with a request out: past at least one fragment.  This holds in every
run, with transient errors or without. -/
structure CursorInv (maxSlices : ℕ) (s : WriteSide) : Prop where
  slices : s.ctx.maxSlices = maxSlices
  outstanding : s.outstanding = s.ctx.isSending.toNat
  cursor : ∃ l k, Rep s.ctx.outputBuffer l k ∧ (s.ctx.isSending = true → 1 ≤ k)

lemma flush_cursor {w : WriteContext} {l : List ℕ} {k : ℕ} (h : Rep w.outputBuffer l k)
    (hmax : 1 ≤ w.maxSlices) (hk : k < l.length) :
    ∃ w', w.flush = some w' ∧ w'.isSending = true ∧ w'.maxSlices = w.maxSlices ∧
      ∃ k', Rep w'.outputBuffer l k' ∧ 1 ≤ k' :=
  ⟨_, WriteContext.flush_some h hmax hk, rfl, rfl, _, WriteContext.flush_rep h, by omega⟩

/-- `proceed` keeps the invariant or aborts. -/
lemma proceed_cursor {w : WriteContext} {l : List ℕ} {k : ℕ} (h : Rep w.outputBuffer l k)
    (hmax : 1 ≤ w.maxSlices) :
    w.proceed = none ∨ ∃ w', w.proceed = some (w', w'.isSending) ∧ w'.maxSlices = w.maxSlices ∧
      ∃ l k, Rep w'.outputBuffer l k ∧ (w'.isSending = true → 1 ≤ k) := by
  by_cases hpos : 0 < w.outputBuffer.totalLen
  · rcases Nat.lt_or_eq_of_le h.cursor with hk | rfl
    · obtain ⟨w', hflush, hsend, hslices, k', hrep, hk'⟩ := flush_cursor h hmax hk
      exact Or.inr ⟨w', by simp [WriteContext.proceed, hpos, hflush, hsend], hslices, l, k', hrep,
        fun _ => hk'⟩
    · exact Or.inl (by simp [WriteContext.proceed, hpos, WriteContext.flush_none h])
  · exact Or.inr ⟨{ w with isSending := false, holder := false },
      by simp [WriteContext.proceed, hpos], rfl, l, k, h, by simp⟩

lemma CursorInv.step (h : CursorInv maxSlices s) (hmax : 1 ≤ maxSlices) {a : WriteAct}
    (hstep : s.step a = some s') : s'.aborted = true ∨ CursorInv maxSlices s' := by
  have hmax' : 1 ≤ s.ctx.maxSlices := h.slices ▸ hmax
  obtain ⟨l, k, hrep, hk⟩ := h.cursor
  cases a with
  | send data =>
      obtain ⟨-, rfl⟩ := step_send hstep
      have happ := hrep.append data
      right
      cases hs : s.ctx.isSending with
      | true =>
          simp only [WriteContext.sendInLoop, hs, if_true, commit]
          exact ⟨h.slices, by simp [h.outstanding, hs], _, k, happ, fun _ => hk hs⟩
      | false =>
          obtain ⟨w', hflush, hsend, hslices, k', hrep', hk'⟩ :=
            flush_cursor
              (w := { s.ctx with outputBuffer := s.ctx.outputBuffer.append data, holder := true })
              happ hmax' (by simpa using Nat.lt_succ_of_le hrep.cursor)
          have hw : s.ctx.sendInLoop data = some ({ w' with isSending := true }, true) := by
            simp only [WriteContext.sendInLoop]
            rw [if_neg (by simp [hs]), hflush]
            rfl
          rw [hw, commit]
          exact ⟨hslices.trans h.slices, by simp [h.outstanding, hs], _, k', hrep', fun _ => hk'⟩
  | complete res =>
      obtain ⟨-, hout, -, -, rfl⟩ := step_complete hstep
      obtain ⟨l₁, k₁, hrep₁⟩ := WriteContext.Queued.acknowledge ⟨l, k, hrep⟩ res
      have hslices₁ := (s.ctx.acknowledge_frame res).2.2.1
      rcases proceed_cursor hrep₁ (hslices₁ ▸ hmax') with hnone | ⟨w', hw, hslices, hcur⟩
      · left
        rw [hnone, commit]
      · right
        rw [hw, commit]
        refine ⟨hslices.trans (hslices₁.trans h.slices), ?_, hcur⟩
        have := h.outstanding
        cases hs : s.ctx.isSending <;> simp_all

lemma cursorInv_of_reach {highWaterMark : ℕ} (hmax : 1 ≤ maxSlices)
    (run : Reach step anyStep (start highWaterMark maxSlices) s) :
    s.aborted = true ∨ CursorInv maxSlices s := by
  refine run.invariant (P := fun s => s.aborted = true ∨ CursorInv maxSlices s) ?_ ?_
  · exact Or.inr ⟨rfl, rfl, [], 0, rep_empty, by simp [start, WriteContext.create]⟩
  · rintro s a s' (habort | h) - hstep
    · cases a with
      | send data => simp [WriteSide.step, habort] at hstep
      | complete res => simp [WriteSide.step, habort] at hstep
    · exact h.step hmax hstep

/-- What a transient completion submits: the fragments from the cursor on. -/
lemma transient_batch {l : List ℕ} {k : ℕ} (h : Rep s.ctx.outputBuffer l k)
    (hmax : 1 ≤ s.ctx.maxSlices) (hbytes : s.ctx.outputBuffer.unsent ≠ []) {res : ℤ}
    (ht : WriteContext.Transient res) (hstep : s.step (.complete res) = some s') :
    (k = l.length → s'.aborted = true) ∧
      (k < l.length → s'.ctx.outputBuffer.nodes = l ∧
        s'.ctx.outputBuffer.iovecOf = s.ctx.outputBuffer.iovecOf ∧
        s'.ctx.tempData = ((l.drop k).take s.ctx.maxSlices).map s.ctx.outputBuffer.iovecOf) := by
  obtain ⟨-, -, -, -, rfl⟩ := step_complete hstep
  have hpos : 0 < s.ctx.outputBuffer.totalLen := by
    rw [h.getTotalLen]
    exact List.length_pos_iff.mpr hbytes
  have hproceed : (s.ctx.acknowledge res).proceed
      = ({ s.ctx with isSending := false }).flush.map fun w => (w, true) := by
    rw [s.ctx.acknowledge_transient ht, WriteContext.proceed, if_pos hpos]
  rw [hproceed]
  constructor
  · rintro rfl
    rw [WriteContext.flush_none (w := { s.ctx with isSending := false }) h]
    rfl
  · intro hk
    rw [WriteContext.flush_some (w := { s.ctx with isSending := false }) h hmax hk]
    exact ⟨(WriteContext.flush_rep h).nodes_eq, rfl, rfl⟩

/-- **A transient write error never retries the failed batch.**  In every reachable state with a
request out and bytes unsent, what the code submits next is not the front of the queue: it is
the fragments after those of the failed batch, or nothing, which fails the assertion. -/
theorem retry_misses_head {highWaterMark : ℕ} (hmax : 1 ≤ maxSlices)
    (run : Reach step anyStep (start highWaterMark maxSlices) s) (hout : s.outstanding ≠ 0)
    (hbytes : s.ctx.outputBuffer.unsent ≠ []) {res : ℤ} (ht : WriteContext.Transient res) :
    ¬ RetriesFromHead s res := by
  rintro ⟨s', hstep, halive, hne, hfront⟩
  rcases cursorInv_of_reach hmax run with habort | h
  · obtain ⟨hnot, -⟩ := step_complete hstep
    exact absurd (habort.symm.trans hnot) (by simp)
  · obtain ⟨l, k, hrep, hk⟩ := h.cursor
    have hk1 : 1 ≤ k := hk <| by
      have := h.outstanding
      cases hs : s.ctx.isSending <;> simp_all
    obtain ⟨hend, hmid⟩ := transient_batch hrep (h.slices ▸ hmax) hbytes ht hstep
    rcases Nat.lt_or_eq_of_le hrep.cursor with hlt | heq
    · obtain ⟨hnodes, hiov, htemp⟩ := hmid hlt
      have hpos : 0 < l.length := Nat.zero_lt_of_lt hlt
      obtain ⟨n, hn⟩ := Nat.exists_eq_succ_of_ne_zero (n := s.ctx.maxSlices)
        (by have := h.slices; omega)
      have hhead : l = l[0] :: l.drop 1 :=
        List.drop_zero.symm.trans (List.drop_eq_getElem_cons hpos)
      -- compare the first iovecs: they name the nodes at positions `k` and `0`
      have hfirst : s.ctx.outputBuffer.iovecOf l[k] = s.ctx.outputBuffer.iovecOf l[0] := by
        rw [htemp, hnodes, hiov, hn, List.drop_eq_getElem_cons hlt, List.take_succ_cons,
          List.map_cons] at hfront
        conv at hfront => rhs; rw [hhead, List.take_succ_cons, List.map_cons]
        exact (List.cons.inj hfront).1
      simp only [SendQueue.iovecOf, Iovec.mk.injEq, Option.some.injEq, Prod.mk.injEq] at hfirst
      have hzero : k = 0 := hrep.linked.nodup.getElem_inj_iff.mp hfirst.1.1
      omega
    · exact absurd ((hend heq).symm.trans halive) (by simp)

/-- Two fragments, one slice at a time: the failed first fragment is skipped. -/
theorem retry_misses_head_two :
    ∃ s, exec step (start 8 1) [.send [1], .send [2]] = some s ∧ s.outstanding ≠ 0 ∧
      s.ctx.outputBuffer.unsent ≠ [] ∧ ¬ RetriesFromHead s (-EAGAIN) := by
  refine ⟨_, rfl, by decide, by decide, ?_⟩
  have run : Reach step anyStep (start 8 1) _ :=
    reach_of_exec_any
      (rfl : exec step (start 8 1) [.send [1], .send [2]] = some _)
  exact retry_misses_head (by decide) run (by decide) (by decide) (Or.inl rfl)

/-- One string sent, its write answered by `-EAGAIN`: the cursor is null, so the next batch is
empty and the assertion in `flush` fails. -/
theorem retry_assertion_fails :
    ¬ ∀ s, Reach step anyStep (start 65536 256) s → s.outstanding ≠ 0 →
        s.ctx.outputBuffer.unsent ≠ [] → ∀ res, WriteContext.Transient res →
        RetriesFromHead s res := by
  intro h
  have run : Reach step anyStep (start 65536 256) _ :=
    reach_of_exec_any
      (rfl : exec step (start 65536 256) [.send [1, 2, 3]] = some _)
  obtain ⟨s', hstep, halive, -⟩ := h _ run (by decide) (by decide) (-EAGAIN) (Or.inl rfl)
  have habort : Option.map aborted (some s') = some true := hstep ▸ rfl
  simp [halive] at habort

end WriteSide

end Proactor
