import Proactor.Output.WriteRun

/-!
# Does every flush make progress?

A flush with bytes in the queue should submit some of them; then every completion that accepts its
whole batch shortens the queue, and the cycle of submitting and completing comes to an end.

An empty string is a fragment like any other.  `retrieve` stops as soon as the acknowledged bytes
are used up, so the empty fragments behind them stay at the front, and they count against
`max_slices_`.  When `max_slices_` of them stand before the next byte the batch has no byte in it,
its completion reports 0, `retrieve(0)` removes nothing and the same batch is submitted again.

* `Inv.step_fragments` — in every run the fragments in the queue are the strings sent, without the
  acknowledged bytes, with exactly these empty fragments left over.
* `flush_progress` — as long as no string with bytes is sent behind `max_slices_` empty ones in a
  row, every flush makes progress and the cycle ends with everything acknowledged.
* `flush_stalls` — with `max_slices_ = 1` an empty string before `abc` is enough to stall.
-/

namespace Proactor

open Chunked Transition SendQueue

namespace WriteSide

variable {s s' : WriteSide} {highWaterMark maxSlices : ℕ}

/-- Completions report a count, and a string with bytes follows fewer than `max_slices_` empty
ones. -/
def ShortGaps (s : WriteSide) : WriteAct → Prop
  | .send data => data = [] ∨ trailingEmpty s.sent < s.ctx.maxSlices
  | .complete res => 0 ≤ res

instance (s : WriteSide) : (a : WriteAct) → Decidable (ShortGaps s a)
  | .send data => inferInstanceAs (Decidable (data = [] ∨ trailingEmpty s.sent < s.ctx.maxSlices))
  | .complete res => inferInstanceAs (Decidable (0 ≤ res))

lemma ShortGaps.successful {a : WriteAct} (h : ShortGaps s a) : Successful s a := by
  cases a with
  | send data => trivial
  | complete res => exact h

/-! ## The fragments in the queue -/

/-- The fragments after a step. -/
lemma Inv.step_fragments (h : Inv maxSlices s) (hmax : 1 ≤ maxSlices) {a : WriteAct}
    (hok : Successful s a) (hstep : s.step a = some s')
    (hf : s.ctx.outputBuffer.fragments = skipFlat s.acked.length s.sent) :
    s'.ctx.outputBuffer.fragments = skipFlat s'.acked.length s'.sent := by
  have hmax' : 1 ≤ s.ctx.maxSlices := h.slices ▸ hmax
  cases a with
  | send data =>
      obtain ⟨w', hw', -, -, hfragments, -, -⟩ := h.front.sendInLoop hmax' data
      obtain ⟨-, rfl⟩ := step_send hstep
      rw [hw', commit]
      have hfits : s.acked.length ≤ s.sent.flatten.length := by
        rw [← h.stream, List.length_append]
        exact Nat.le_add_right _ _
      simp only [hfragments, hf, skipFlat_append hfits]
  | complete res =>
      obtain ⟨w', flushed, hw', -, -, -, hfragments, -⟩ := h.front.complete hmax' hok
      obtain ⟨-, -, hlen, -, rfl⟩ := step_complete hstep
      rw [hw', commit]
      have htaken : (s.ctx.batch.take res.toNat).length = res.toNat := by
        rw [List.length_take]
        omega
      simp only [hfragments, hf, List.length_append, htaken, skipFlat_add]

lemma Inv.totalLen_eq (h : Inv maxSlices s) :
    s.ctx.outputBuffer.totalLen = s.ctx.outputBuffer.unsent.length := by
  obtain ⟨l, k, hrep, -⟩ := h.front
  exact hrep.getTotalLen

/-- What a completion does: the queue is shorter by the count, and a request is out again exactly
when there is something left. -/
lemma Inv.step_count (h : Inv maxSlices s) (hmax : 1 ≤ maxSlices) {res : ℤ} (hres : 0 ≤ res)
    (hstep : s.step (.complete res) = some s') :
    s'.ctx.outputBuffer.totalLen + res.toNat = s.ctx.outputBuffer.totalLen ∧
      s'.outstanding = (decide (0 < s'.ctx.outputBuffer.totalLen)).toNat ∧
      s'.submitted = s.submitted + s'.outstanding := by
  have h' := (h.step hmax (a := .complete res) hres hstep).1
  have htotal := h.totalLen_eq
  have htotal' := h'.totalLen_eq
  have hstream' := h'.stream
  have houtstanding := h.outstanding
  obtain ⟨w', flushed, hw', -, -, -, hfragments, -⟩ := h.front.complete (h.slices ▸ hmax) hres
  obtain ⟨-, hout, hlen, -, rfl⟩ := step_complete hstep
  rw [hw', commit] at htotal' hstream' ⊢
  change w'.outputBuffer.totalLen = w'.outputBuffer.unsent.length at htotal'
  have hshort : w'.outputBuffer.totalLen + res.toNat = s.ctx.outputBuffer.totalLen := by
    have hbytes := congrArg List.length (hstream'.trans h.stream.symm)
    simp only [List.length_append, List.length_take] at hbytes
    omega
  have hflushed : flushed = decide (0 < w'.outputBuffer.totalLen) := by
    obtain ⟨l, k, hrep, -⟩ := h.front
    obtain ⟨l', hrep', -, hbytes, -⟩ := hrep.retrieve res.toNat
    rw [(WriteContext.proceed_frame hw').1, s.ctx.acknowledge_count hres, htotal',
      unsent_of_skip hfragments, hrep'.getTotalLen, hbytes]
  have hone : s.outstanding = 1 := by
    cases hs : s.ctx.isSending <;> simp_all
  simp [hshort, hone, hflushed]

/-- After a step, without a request out there is nothing to send. -/
lemma Inv.step_idle (h : Inv maxSlices s) (hmax : 1 ≤ maxSlices) {a : WriteAct}
    (hok : Successful s a) (hstep : s.step a = some s') (hidle : s'.outstanding = 0) :
    s'.ctx.outputBuffer.totalLen = 0 := by
  cases a with
  | send data =>
      -- a send leaves a request out, its own or an earlier one
      have houtstanding := (h.step hmax hok hstep).1.outstanding
      obtain ⟨w', hw', -, hsend, -⟩ := h.front.sendInLoop (h.slices ▸ hmax) data
      obtain ⟨-, rfl⟩ := step_send hstep
      rw [hw', commit] at houtstanding hidle
      have hnone : w'.isSending.toNat = 0 := houtstanding.symm.trans hidle
      simp [hsend] at hnone
  | complete res =>
      by_contra hpos
      have hmore := (h.step_count hmax hok hstep).2.1
      simp [hidle, Nat.pos_of_ne_zero hpos] at hmore

/-- What the runs without long gaps keep. -/
structure GapInv (maxSlices : ℕ) (s : WriteSide) : Prop extends Inv maxSlices s where
  fragments : s.ctx.outputBuffer.fragments = skipFlat s.acked.length s.sent
  dense : Dense maxSlices s.sent
  idle : s.outstanding = 0 → s.ctx.outputBuffer.totalLen = 0

lemma gapInv_start (highWaterMark maxSlices : ℕ) :
    GapInv maxSlices (start highWaterMark maxSlices) where
  toInv := inv_start highWaterMark maxSlices
  fragments := rfl
  dense := dense_nil maxSlices
  idle := fun _ => rfl

lemma GapInv.step (h : GapInv maxSlices s) (hmax : 1 ≤ maxSlices) {a : WriteAct}
    (hok : ShortGaps s a) (hstep : s.step a = some s') : GapInv maxSlices s' where
  toInv := (h.toInv.step hmax hok.successful hstep).1
  fragments := h.toInv.step_fragments hmax hok.successful hstep h.fragments
  dense := by
    cases a with
    | send data =>
        obtain ⟨-, rfl⟩ := step_send hstep
        have hdense : Dense maxSlices (s.sent ++ [data]) := h.dense.concat (h.slices ▸ hok)
        cases s.ctx.sendInLoop data <;> exact hdense
    | complete res =>
        obtain ⟨-, -, -, -, rfl⟩ := step_complete hstep
        cases (s.ctx.acknowledge res).proceed <;> exact h.dense
  idle := h.toInv.step_idle hmax hok.successful hstep

lemma gapInv_of_reach (hmax : 1 ≤ maxSlices)
    (run : Reach step ShortGaps (start highWaterMark maxSlices) s) : GapInv maxSlices s :=
  run.invariant (gapInv_start highWaterMark maxSlices) fun _ _ _ h hok hstep =>
    h.step hmax hok hstep

/-! ## Batches with bytes in them -/

/-- A batch from the front of a queue without long gaps has a byte in it if the queue has. -/
lemma GapInv.batch_ne_nil (h : GapInv maxSlices s) (hmax : 1 ≤ maxSlices)
    (hfront : BatchAtFront s.ctx) (hpos : 0 < s.ctx.outputBuffer.totalLen) :
    s.ctx.batch ≠ [] := by
  have hbatch : s.ctx.batch = (s.ctx.outputBuffer.fragments.take maxSlices).flatten := by
    rw [WriteContext.batch, hfront.1, ← List.take_take, List.take_length, h.slices]
  have hbytes : s.ctx.outputBuffer.fragments.flatten ≠ [] := by
    rw [h.totalLen_eq] at hpos
    exact List.length_pos_iff.mp hpos
  have hdense : Dense maxSlices s.ctx.outputBuffer.fragments :=
    h.fragments ▸ h.dense.skipFlat hmax _
  rw [hbatch]
  exact hdense _ (List.suffix_refl _) hbytes

/-! ## The cycle of submitting and completing -/

/-- Let the kernel accept whole batches until no request is out, `n` of them at most. -/
def acceptBatches : ℕ → WriteSide → Option WriteSide
  | 0, s => some s
  | n + 1, s =>
      if s.outstanding = 0 then some s
      else (s.step (.complete s.ctx.batch.length)).bind (acceptBatches n)

/-- A request that is out can be completed with its whole batch. -/
lemma Inv.can_accept (h : Inv maxSlices s) (hout : s.outstanding ≠ 0) :
    ∃ s', s.step (.complete s.ctx.batch.length) = some s' := by
  have hfatal : ¬ WriteContext.Fatal s.ctx.batch.length := fun hf => by
    have := hf.1
    omega
  refine ⟨_, if_neg ?_⟩
  simp [h.alive, hout, hfatal]

/-- Completions that can still come if each accepts its batch: one for every byte, and one more for
a request submitted without bytes. -/
def remaining (s : WriteSide) : ℕ :=
  if s.outstanding = 0 then 0
  else s.ctx.outputBuffer.totalLen + if s.ctx.batch = [] then 1 else 0

lemma GapInv.accept (h : GapInv maxSlices s) (hmax : 1 ≤ maxSlices) (hout : s.outstanding ≠ 0) :
    ∃ s', s.step (.complete s.ctx.batch.length) = some s' ∧ GapInv maxSlices s' ∧
      s'.remaining < s.remaining := by
  obtain ⟨s', hstep⟩ := h.can_accept hout
  have hok : ShortGaps s (.complete s.ctx.batch.length) := Int.natCast_nonneg _
  have h' := h.step hmax hok hstep
  obtain ⟨hlen, hmore, hsub⟩ := h.step_count hmax hok hstep
  refine ⟨s', hstep, h', ?_⟩
  have hbatch' : s'.outstanding ≠ 0 → s'.ctx.batch ≠ [] := by
    intro hout'
    have hpos : 0 < s'.ctx.outputBuffer.totalLen := by
      by_contra hzero
      exact hout' (by simp [hmore, hzero])
    exact h'.batch_ne_nil hmax
      ((h.toInv.step hmax hok.successful hstep).2 (by omega)) hpos
  have hlower : s'.ctx.outputBuffer.totalLen
      < s.ctx.outputBuffer.totalLen + if s.ctx.batch = [] then 1 else 0 := by
    split
    case isTrue hempty => omega
    case isFalse hne =>
      have := List.length_pos_iff.mpr hne
      omega
  simp only [remaining, if_neg hout]
  by_cases hout' : s'.outstanding = 0
  · rw [if_pos hout']
    omega
  · rw [if_neg hout', if_neg (hbatch' hout')]
    omega

lemma GapInv.acceptBatches (hmax : 1 ≤ maxSlices) (n : ℕ) (h : GapInv maxSlices s)
    (hn : s.remaining ≤ n) :
    ∃ s', acceptBatches n s = some s' ∧ s'.outstanding = 0 ∧
      s'.ctx.outputBuffer.totalLen = 0 := by
  induction n generalizing s with
  | zero =>
      have hout : s.outstanding = 0 := by
        by_contra hout
        obtain ⟨s', -, -, hlt⟩ := h.accept hmax hout
        omega
      exact ⟨s, rfl, hout, h.idle hout⟩
  | succ n ih =>
      by_cases hout : s.outstanding = 0
      · exact ⟨s, by simp [WriteSide.acceptBatches, hout], hout, h.idle hout⟩
      · obtain ⟨s', hstep, h', hlt⟩ := h.accept hmax hout
        obtain ⟨t, ht, hend⟩ := ih h' (by omega)
        exact ⟨t, by simp [WriteSide.acceptBatches, hout, hstep, ht], hend⟩

/-- **Every flush makes progress, unless the queue has a gap of `max_slices_` empty strings.**  In
every run in which a string with bytes follows fewer than `max_slices_` empty ones, a flush with
bytes in the queue submits at least one of them, a completion that accepts a batch with bytes
shortens the queue, and if the kernel accepts every batch the cycle ends, with the queue empty,
after at most one completion more than there are bytes. -/
theorem flush_progress (hmax : 1 ≤ maxSlices)
    (run : Reach step ShortGaps (start highWaterMark maxSlices) s) :
    (∀ a s', ShortGaps s a → s.step a = some s' → s.submitted < s'.submitted →
        0 < s'.ctx.outputBuffer.totalLen → s'.ctx.batch ≠ []) ∧
      (∀ s', s.ctx.batch ≠ [] → s.step (.complete s.ctx.batch.length) = some s' →
        s'.ctx.outputBuffer.totalLen < s.ctx.outputBuffer.totalLen) ∧
      ∃ s', acceptBatches (s.ctx.outputBuffer.totalLen + 1) s = some s' ∧ s'.outstanding = 0 ∧
        s'.ctx.outputBuffer.totalLen = 0 := by
  have h := gapInv_of_reach hmax run
  refine ⟨?_, ?_, ?_⟩
  · intro a s' hok hstep hsub hpos
    exact (h.step hmax hok hstep).batch_ne_nil hmax
      ((h.toInv.step hmax hok.successful hstep).2 hsub) hpos
  · intro s' hne hstep
    have hlen := (h.step_count hmax (Int.natCast_nonneg _) hstep).1
    have := List.length_pos_iff.mpr hne
    omega
  · have hremaining : s.remaining ≤ s.ctx.outputBuffer.totalLen + 1 := by
      simp only [remaining]
      split_ifs <;> omega
    exact h.acceptBatches hmax _ hremaining

/-- Two slices at a time, an empty string sent first and another between two strings with bytes, and
a short write in the middle. -/
theorem flush_progress_spaced :
    ∃ s, exec step (start 8 2)
        [.send [], .send [1, 2], .send [], .send [3], .complete 0, .complete 1] = some s ∧
      s.ctx.batch = [2] ∧
      ∃ s', acceptBatches 3 s = some s' ∧ s'.outstanding = 0 ∧
        s'.ctx.outputBuffer.totalLen = 0 := by
  refine ⟨_, rfl, by decide, ?_⟩
  have run : Reach step ShortGaps (start 8 2) _ := reach_of_exec
    (rfl : exec (guarded step ShortGaps) (start 8 2)
      [.send [], .send [1, 2], .send [], .send [3], .complete 0, .complete 1] = some _)
  exact (flush_progress (by decide) run).2.2

/-- One slice at a time, an empty string and then `abc`: the completion of the empty request submits
the empty fragment again, with three bytes in the queue. -/
theorem flush_stalls :
    ¬ ∀ highWaterMark maxSlices, 1 ≤ maxSlices → ∀ s,
      Reach step Successful (start highWaterMark maxSlices) s → ∀ a s', Successful s a →
        s.step a = some s' → s.submitted < s'.submitted → 0 < s'.ctx.outputBuffer.totalLen →
        s'.ctx.batch ≠ [] := by
  intro h
  have run : Reach step Successful (start 8 1) _ := reach_of_exec
    (rfl : exec (guarded step Successful) (start 8 1) [.send [], .send [97, 98, 99]] = some _)
  exact h 8 1 (by decide) _ run (.complete 0) _ (by decide) rfl (by decide) (by decide) rfl

end WriteSide

end Proactor
