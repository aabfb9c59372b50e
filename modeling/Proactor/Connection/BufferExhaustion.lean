import Proactor.Connection.ReadBackpressure

/-!
# An exhausted buffer ring

A receive that finds no free chunk in the buffer ring ends with `-ENOBUFS`.  `handleError` says in
a comment that this counts as a pause, like passing a high water mark, and the branch of
`on_completion` that stops reading says that it is also for `ENOBUFS`.  But that branch asks for
`status_ == CANCELING`, and nothing sets `status_` for `ENOBUFS`: an exhausted ring pauses reading
only if the receive was being cancelled anyway.  If it was not, the next branch submits it again at
once, and as long as no chunk comes back it fails again at once.

`exhaustion_pauses_iff` says that this is exactly the case that goes wrong.
-/

namespace Proactor

open Transition

namespace Session

variable {s s' : Session} {a : SessionAct}

/-- Reading is paused: nothing is out and nothing keeps the connection alive for it. -/
def Paused (s : Session) : Prop :=
  s.read.status = .stoped ∧ s.read.holder = false ∧ s.reads = 0

/-- A receive is submitted only by a `PrepareToRead` with the buffer empty or for a final completion
other than `-ENOBUFS`; and a final `-ENOBUFS` pauses reading until the next `PrepareToRead`. -/
def PausesOnExhaustion (s : Session) (a : SessionAct) (s' : Session) : Prop :=
  (s.submittedReads < s'.submittedReads →
      (Prepares s a ∧ s.read.isEmpty = true) ∨
        ∃ res data, a = .readCqe res data false ∧ res ≠ -ENOBUFS) ∧
    ∀ data, a = .readCqe (-ENOBUFS) data false →
      ∀ t, Reach step (fun u b => ¬ Prepares u b) s' t → t.Paused

/-- With `status_` `STOPED` the rest of the read side follows. -/
theorem ReadProtocol.paused (h : s.ReadProtocol) (hstop : s.read.status = .stoped) : s.Paused := by
  have hholder := h.holder_eq
  have hreads := h.reads_eq
  simp only [ReadContext.active, hstop] at hholder hreads
  refine ⟨hstop, by simpa using hholder, ?_⟩
  simp at hreads
  exact hreads.1

/-- Nothing but a `PrepareToRead` ends a pause. -/
theorem ReadEffect.stays_stoped (h : ReadEffect s a s') (hstop : s.read.status = .stoped)
    (hno : ¬ Prepares s a) : s'.read.status = .stoped := by
  cases h with
  | kept same => exact same.status.trans hstop
  | consumed same => exact same.status.trans hstop
  | awaited prepares empty same => exact absurd prepares hno
  | drained head same => exact same.status.trans hstop
  | took out status stays same => exact absurd hstop status
  | ended out ends same => exact same.status
  | again out fatal status same =>
      exact absurd ((reading_of_took status).symm.trans hstop) (by decide)
  | unwound frame same => exact same.status

theorem took_enobufs (s : Session) (data : List UInt8) :
    (s.took (-ENOBUFS) data false).read.status = s.read.status := by
  have hneg : -ENOBUFS ≤ 0 := by decide
  simp [took, ReadContext.takeResult, hneg, ReadContext.handleError_eq s.read hneg]

/-- What a final `-ENOBUFS` does: a receive that was being cancelled has ended, any other is
submitted again. -/
theorem Move.exhausted {data : List UInt8} (h : Move s (.readCqe (-ENOBUFS) data false) s')
    (alive : s'.fault = none) :
    (s.read.status = .canceling ∧ s'.read.status = .stoped) ∨
      (s.read.status = .reading ∧ s'.read.status = .reading) := by
  have hfatal : ¬ ReadContext.Fatal (-ENOBUFS) := fun h => h.2.1 rfl
  cases h with
  | abort => simp at alive
  | readStopped idle out holder fatal status woke =>
      exact .inl ⟨(took_enobufs s data).symm.trans status, woke.sameReads.status⟩
  | readAgain idle out holder fatal status woke =>
      refine .inr ⟨(took_enobufs s data).symm.trans status, ?_⟩
      rw [woke.sameReads.status, submitRead_eq]
  | readFatal idle out holder status fatal => exact absurd fatal hfatal
  | readClose idle out holder status fatal => exact absurd fatal hfatal

/-- **When an exhausted ring pauses reading.**  In every state of every run, a step that does not
end in a fault does what the comments on `ENOBUFS` say, unless it is a final `-ENOBUFS` that finds
`status_` `READING`. -/
theorem exhaustion_pauses_iff {inputHwm inputHwmChunk outputHwm maxSlices : ℕ}
    (run : Reach step anyStep (create inputHwm inputHwmChunk outputHwm maxSlices) s)
    (hstep : s.step a = some s') (alive : s'.fault = none) :
    PausesOnExhaustion s a s' ↔
      ¬ ∃ data, a = .readCqe (-ENOBUFS) data false ∧ s.read.status = .reading := by
  have hmove := step_move hstep
  have run' := Reach.next run trivial hstep
  constructor
  · rintro ⟨-, hpauses⟩ ⟨data, rfl, hreading⟩
    have hstop := (hpauses data rfl s' .start).1
    rcases hmove.exhausted alive with ⟨hcancel, -⟩ | ⟨-, hagain⟩
    · exact absurd (hcancel.symm.trans hreading) (by decide)
    · exact absurd (hagain.symm.trans hstop) (by decide)
  · intro hno
    refine ⟨?_, ?_⟩
    · intro hmore
      rcases hmove.readEffect.starts with ⟨hsame, -⟩ | ⟨-, -, hstarts⟩
      · omega
      · cases hstarts with
        | prepare prepares empty stopped => exact .inl ⟨prepares, empty⟩
        | @completion res data fatal reading =>
            refine .inr ⟨res, data, rfl, ?_⟩
            rintro rfl
            exact hno ⟨data, rfl, reading⟩
    · rintro data rfl t hrun
      have hstop : s'.read.status = .stoped := by
        rcases hmove.exhausted alive with ⟨-, hstop⟩ | ⟨hreading, -⟩
        · exact hstop
        · exact absurd ⟨data, rfl, hreading⟩ hno
      -- every state before the next `PrepareToRead` keeps the protocol and stays stopped
      have hkept := hrun.invariant (P := fun t => t.read.status = .stoped ∧ t.ReadProtocol)
        ⟨hstop, (readLoad_of_reach run').2⟩ fun u b u' hu hb hu' =>
          ⟨(step_move hu').readEffect.stays_stoped hu.1 hb, (step_move hu').readProtocol hu.2⟩
      exact hkept.2.paused hkept.1

/-- The receive has been cancelled above the mark when the ring runs out. -/
theorem exhaustion_pauses_iff_cancelled :
    ∃ s s', Reach step anyStep (create 2 16 8 256) s ∧ s.read.status = .canceling ∧
      s.step (.readCqe (-ENOBUFS) [] false) = some s' ∧
      PausesOnExhaustion s (.readCqe (-ENOBUFS) [] false) s' := by
  obtain ⟨s, run, h⟩ := exists_reach step anyStep (create 2 16 8 256)
    [.functor, .co .prepareToRead, .readCqe 3 [1, 2, 3] true, .co .prepareToRead, .co .ret]
    (fun s => decide (s.read.status = .canceling) &&
      (s.step (.readCqe (-ENOBUFS) [] false)).any fun s' : Session => decide (s'.fault = none))
    (by decide +kernel)
  simp only [Bool.and_eq_true, decide_eq_true_eq, Option.any_eq_true] at h
  obtain ⟨hcancel, s', hstep, halive⟩ := h
  refine ⟨s, s', run, hcancel, hstep, (exhaustion_pauses_iff run hstep halive).mpr ?_⟩
  rintro ⟨-, -, hreading⟩
  exact absurd (hcancel.symm.trans hreading) (by decide)

/-- The coroutine waits for data with nothing buffered, and the ring is empty: the receive is
submitted again at once. -/
theorem exhaustion_resubmits :
    ¬ ∀ inputHwm inputHwmChunk outputHwm maxSlices s a s',
      Reach step anyStep (create inputHwm inputHwmChunk outputHwm maxSlices) s →
      s.step a = some s' → s'.fault = none → PausesOnExhaustion s a s' := by
  intro h
  obtain ⟨s, run, hs⟩ := exists_reach step anyStep (create 2 16 8 256)
    [.functor, .co .prepareToRead]
    (fun s => (s.step (.readCqe (-ENOBUFS) [] false)).any fun s' : Session =>
      decide (s'.fault = none ∧ s'.read.status = .reading))
    (by decide +kernel)
  simp only [decide_eq_true_eq, Option.any_eq_true] at hs
  obtain ⟨s', hstep, halive, hreading⟩ := hs
  have hstop := ((h 2 16 8 256 s _ s' run hstep halive).2 [] rfl s' .start).1
  exact absurd (hreading.symm.trans hstop) (by decide)

end Session

end Proactor
