import Proactor.Output.WriteRun

/-!
# A queue without empty fragments

`Progress` shows what empty strings do to the output queue: a batch may carry no byte.  As long as
no empty string is sent this cannot happen: no fragment is empty, a request that is out carries
bytes, and without a request there is nothing to send (`Full`).
-/

namespace Proactor

namespace WriteContext

open SendQueue

/-- No fragment is empty, a request that is out has something in it, and without one there is
nothing to send. -/
structure Full (w : WriteContext) : Prop where
  fragments : ∀ f ∈ w.outputBuffer.fragments, f ≠ []
  batch : w.isSending = true → w.tempData ≠ []
  empty : w.isSending = false → w.outputBuffer.unsent = []

variable {w w' : WriteContext} {flushed : Bool}

theorem Full.congr (h : w.Full) (hqueue : w'.outputBuffer = w.outputBuffer := by rfl)
    (hbatch : w'.tempData = w.tempData := by rfl)
    (hsend : w'.isSending = w.isSending := by rfl) : w'.Full where
  fragments := hqueue ▸ h.fragments
  batch := by
    rw [hsend, hbatch]
    exact h.batch
  empty := by
    rw [hsend, hqueue]
    exact h.empty

theorem flush_tempData (h : w.flush = some w') : w'.tempData ≠ [] := by
  simp only [flush, Option.ite_none_left_eq_some, Option.some.injEq] at h
  obtain ⟨hne, rfl⟩ := h
  exact hne

theorem Full.sendInLoop (h : w.Full) (hfront : w.Front) (hmax : 1 ≤ w.maxSlices)
    {data : List UInt8} (hdata : data ≠ []) (sends : w.sendInLoop data = some (w', flushed)) :
    w'.Full := by
  obtain ⟨v, hv, -, hsend, hfragments, -, -⟩ := hfront.sendInLoop hmax data
  obtain ⟨rfl, rfl⟩ : w' = v ∧ flushed = !w.isSending := by simpa using sends.symm.trans hv
  refine ⟨?_, ?_, by simp [hsend]⟩
  · intro f hf
    rw [hfragments, List.mem_append, List.mem_singleton] at hf
    rcases hf with hf | rfl
    · exact h.fragments f hf
    · exact hdata
  · intro _
    cases hs : w.isSending with
    | true =>
        rw [(sendInLoop_frame sends).2.2.2.2.2 hs]
        exact h.batch hs
    | false =>
        simp only [WriteContext.sendInLoop, hs, Bool.false_eq_true, if_false,
          Option.map_eq_some_iff, Prod.mk.injEq] at sends
        obtain ⟨u, hu, rfl, -⟩ := sends
        have hne := flush_tempData hu
        exact hne

theorem Full.complete (h : w.Full) (hfront : w.Front) (hmax : 1 ≤ w.maxSlices) {res : ℤ}
    (hres : 0 ≤ res) (proceeds : (w.acknowledge res).proceed = some (w', flushed)) : w'.Full := by
  obtain ⟨v, f, hv, hfront', hsend, -, hfragments, -⟩ := hfront.complete hmax hres
  obtain ⟨rfl, rfl⟩ : w' = v ∧ flushed = f := by simpa using proceeds.symm.trans hv
  refine ⟨?_, ?_, ?_⟩
  · intro f hf
    rw [hfragments] at hf
    rcases Chunked.skipFlat_cases res.toNat w.outputBuffer.fragments with
      hsuf | ⟨c, c', t, hsuf, hc', heq⟩
    · exact h.fragments f (hsuf.subset hf)
    · rw [heq, List.mem_cons] at hf
      rcases hf with rfl | hf
      · exact hc'
      · exact h.fragments f (hsuf.subset (List.mem_cons_of_mem c hf))
  · intro hs
    obtain rfl : flushed = true := hsend.symm.trans hs
    rw [proceed] at proceeds
    split at proceeds
    · obtain ⟨u, hu, heq⟩ := Option.map_eq_some_iff.mp proceeds
      obtain rfl : u = w' := by simpa using heq
      exact flush_tempData hu
    · simp at proceeds
  · intro hs
    obtain rfl : flushed = false := hsend.symm.trans hs
    obtain ⟨l, k, hrep, -⟩ := hfront'
    refine List.eq_nil_of_length_eq_zero ?_
    rw [← hrep.getTotalLen]
    rw [proceed] at proceeds
    split at proceeds
    · simp at proceeds
    · rename_i hnone
      simp only [Option.some.injEq, Prod.mk.injEq, and_true] at proceeds
      rw [← proceeds]
      simpa using hnone

end WriteContext

end Proactor
