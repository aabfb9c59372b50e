import Proactor.IoUring.SubmitQueue

/-!
# How long a request waits for its SQE

`loop()` hands the ring to the kernel at the top of each turn, handles timers and completions, calls
`doingSubmitWaitingTask` and runs the functors.  The handlers take entries too, and they take them
before the requests that wait: below the mark they join the queue, but above it they overtake it.
So how long a request waits depends on what the handlers of each turn ask for.  What the functors
take is with the kernel before the next handler runs, so it costs no request a turn.

* `SubmitRing.turn` — one turn of the loop, with the calls its handlers and its functors make.
* `SubmitRing.Grows` — what such calls do to the ring, the queue and what is served.
* `waiting_served` — with a ring that has enough entries above the mark, a request waits for a
  bounded number of turns; with one that has none, a request that waits once waits forever.
-/

namespace Proactor

open Transition

namespace SubmitRing

/-- A call that timers, handlers of completions and functors make. -/
def Act.byHandler : Act → Bool
  | .ioUringSubmit | .doingSubmitWaitingTask => false
  | _ => true

/-- The calls of one turn of `loop()`. -/
structure Turn where
  /-- By timers and by handlers of completions. -/
  handlers : List Act
  /-- By `doingPendingFunctors`. -/
  functors : List Act

def Turn.ByHandlers (t : Turn) : Prop :=
  (∀ a ∈ t.handlers, a.byHandler = true) ∧ ∀ a ∈ t.functors, a.byHandler = true

instance (t : Turn) : Decidable t.ByHandlers := inferInstanceAs (Decidable (_ ∧ _))

/-- Calls, in order. -/
def handle (calls : List Act) (r : SubmitRing) : SubmitRing := calls.foldl (fun r a => r.act a) r

/-- One turn of `loop()`. -/
def turn (r : SubmitRing) (t : Turn) : SubmitRing :=
  (r.ioUringSubmit.handle t.handlers).doingSubmitWaitingTask.handle t.functors

/-- **What calls of handlers do**: they add to the queue, to the served requests and, at most `n`
entries, to the ring. -/
structure Grows (n : ℕ) (r r' : SubmitRing) : Prop where
  waiting : r.waitingSubmitQueue <+: r'.waitingSubmitQueue
  served : r.served <+: r'.served
  entries : r'.sq.length ≤ r.sq.length + n
  capacity : r'.capacity = r.capacity
  mark : r'.sqeLowWaterMark = r.sqeLowWaterMark

variable {r r' r'' : SubmitRing} {a : Act} {n m : ℕ}

theorem Grows.refl (r : SubmitRing) : Grows 0 r r :=
  ⟨List.prefix_rfl, List.prefix_rfl, Nat.le_refl _, rfl, rfl⟩

theorem Grows.trans (h : Grows n r r') (h' : Grows m r' r'') : Grows (n + m) r r'' where
  waiting := h.waiting.trans h'.waiting
  served := h.served.trans h'.served
  entries := by
    have h₁ := h.entries
    have h₂ := h'.entries
    omega
  capacity := h'.capacity.trans h.capacity
  mark := h'.mark.trans h.mark

theorem served_prep (sqe : Sqe) (r : SubmitRing) : r.served <+: (r.prep sqe).served := by
  have hmade : (r.prep sqe).made = r.made ++ [sqe] := by simp [made, prep]
  rw [served, served, hmade, List.filterMap_append]
  exact List.prefix_append _ _

theorem served_ioUringSubmit (r : SubmitRing) : r.ioUringSubmit.served = r.served := by
  simp [served, made, ioUringSubmit]

theorem forced_grows (sqe : Sqe) (r : SubmitRing) : Grows 1 r (r.forced sqe) := by
  unfold forced getIoUringSqe
  by_cases hroom : r.sq.length < r.capacity
  · rw [if_pos hroom]
    exact ⟨List.prefix_rfl, served_prep sqe r, by simp [prep], rfl, rfl⟩
  · rw [if_neg hroom, if_pos rfl]
    by_cases hcap : r.ioUringSubmit.sq.length < r.capacity
    · rw [if_pos hcap]
      refine ⟨List.prefix_rfl, ?_, by simp [prep, ioUringSubmit], rfl, rfl⟩
      rw [← served_ioUringSubmit r]
      exact served_prep sqe _
    · rw [if_neg hcap]
      refine ⟨List.prefix_rfl, ⟨[], ?_⟩, by simp [ioUringSubmit], rfl, rfl⟩
      exact (List.append_nil _).trans (served_ioUringSubmit r).symm

theorem submitCancel_grows (addr : ℕ) (r : SubmitRing) : Grows 1 r (r.submitCancel addr) := by
  have h := forced_grows (.cancel addr) r
  unfold submitCancel
  by_cases halt : (r.forced (.cancel addr)).halt = none
  · simp only [halt, if_true]
    refine ⟨h.waiting, ?_, by simp [ioUringSubmit], h.capacity, h.mark⟩
    rw [served_ioUringSubmit]
    exact h.served
  · simpa only [halt, if_false] using h

theorem submit_grows (hlow : 1 ≤ r.sqeLowWaterMark) (entry : Request → Sqe) (ctx : IoContext) :
    Grows 1 r (r.submit (submitNow entry) ctx) := by
  by_cases low : r.remainedSqe < r.sqeLowWaterMark
  · rw [submit_of_low low]
    exact ⟨List.prefix_append _ _, List.prefix_rfl, Nat.le_succ _, rfl, rfl⟩
  · rw [submit_of_room hlow low]
    exact ⟨List.prefix_rfl, served_prep (entry ⟨r.calls.length, ctx⟩) r, by simp [prep], rfl, rfl⟩

/-- **One call of a handler.** -/
theorem act_grows (hlow : 1 ≤ r.sqeLowWaterMark) (ha : a.byHandler = true) :
    Grows 1 r (r.act a) := by
  cases a with
  | submitReadMultishut addr => exact submit_grows hlow _ _
  | submitWriteMsg addr => exact submit_grows hlow _ _
  | submitAcceptMultishut addr => exact submit_grows hlow _ _
  | submitCancel addr => exact submitCancel_grows addr r
  | onCompletion => exact forced_grows _ r
  | ioUringSubmit => simp [Act.byHandler] at ha
  | doingSubmitWaitingTask => simp [Act.byHandler] at ha

/-- Calls, one after the other. -/
theorem handle_grows {calls : List Act} (hs : r.Conserved) (hlow : 1 ≤ r.sqeLowWaterMark)
    (hcalls : ∀ a ∈ calls, a.byHandler = true) :
    Grows calls.length r (r.handle calls) ∧ (r.handle calls).Conserved := by
  induction calls generalizing r with
  | nil => exact ⟨.refl r, hs⟩
  | cons a calls ih =>
      have hone := act_grows hlow (hcalls a List.mem_cons_self)
      obtain ⟨hrest, hconserved⟩ := ih (act_conserved a hlow hs) (hone.mark ▸ hlow)
        fun b hb => hcalls b (List.mem_cons_of_mem _ hb)
      refine ⟨?_, hconserved⟩
      have hall := hone.trans hrest
      rwa [Nat.add_comm] at hall

/-- **The turn up to the functors.**  What the handlers have left free above the mark goes to the
front of the queue. -/
theorem drain_serves {calls : List Act} (hs : r.Conserved) (hlow : 1 ≤ r.sqeLowWaterMark)
    (hcalls : ∀ a ∈ calls, a.byHandler = true) {rate : ℕ} (hrate : rate ≤ 100)
    (room : r.sqeLowWaterMark + calls.length + rate ≤ r.capacity)
    (hr' : r' = (r.ioUringSubmit.handle calls).doingSubmitWaitingTask) :
    ∃ k queue, (rate ≤ k ∨ queue.length ≤ k) ∧ r.waitingSubmitQueue <+: queue ∧
      r'.waitingSubmitQueue = queue.drop k ∧ r.served <+: r'.served ∧
      (∀ req ∈ queue.take k, req ∈ r'.served) ∧ r'.Conserved ∧
      r'.sqeLowWaterMark = r.sqeLowWaterMark ∧ r'.capacity = r.capacity := by
  subst hr'
  have hsubmit : r.ioUringSubmit.Conserved := ioUringSubmit_conserved hs
  obtain ⟨hgrows, hconserved⟩ := handle_grows hsubmit hlow hcalls
  set r' := r.ioUringSubmit.handle calls with hr'
  have hdrain : r'.doingSubmitWaitingTask = r'.afterServing r'.drained :=
    doingSubmitWaitingTask_eq hconserved.waitable
  have hserved := served_afterServing hconserved.waitable r'.drained
  have hentries : r'.sq.length ≤ calls.length := by
    simpa [ioUringSubmit] using hgrows.entries
  refine ⟨r'.drained, r'.waitingSubmitQueue, ?_, hgrows.waiting, by rw [hdrain]; rfl, ?_, ?_, ?_,
    ?_, ?_⟩
  · have hcap : r'.capacity = r.capacity := hgrows.capacity
    have hmark : r'.sqeLowWaterMark = r.sqeLowWaterMark := hgrows.mark
    unfold drained remainedSqe maxProcessPerLoop
    omega
  · rw [hdrain, hserved, ← served_ioUringSubmit r]
    exact hgrows.served.trans (List.prefix_append _ _)
  · intro req hreq
    rw [hdrain, hserved]
    exact List.mem_append_right _ hreq
  · rw [hdrain]
    exact afterServing_conserved hconserved _
  · rw [hdrain]
    exact hgrows.mark
  · rw [hdrain]
    exact hgrows.capacity

/-- **One turn.**  What the functors ask for comes behind the rest of the queue, or takes entries
that the next turn hands over before its handlers run. -/
theorem turn_serves {t : Turn} (hs : r.Conserved) (hlow : 1 ≤ r.sqeLowWaterMark)
    (hcalls : t.ByHandlers) {rate : ℕ} (hrate : rate ≤ 100)
    (room : r.sqeLowWaterMark + t.handlers.length + rate ≤ r.capacity) :
    ∃ k queue, (rate ≤ k ∨ queue.length ≤ k) ∧ r.waitingSubmitQueue <+: queue ∧
      queue.drop k <+: (r.turn t).waitingSubmitQueue ∧ r.served <+: (r.turn t).served ∧
      (∀ req ∈ queue.take k, req ∈ (r.turn t).served) ∧ (r.turn t).Conserved ∧
      (r.turn t).sqeLowWaterMark = r.sqeLowWaterMark ∧ (r.turn t).capacity = r.capacity := by
  obtain ⟨k, queue, hk, hprefix, hqueue, hserved, hfront, hconserved, hmark, hcap⟩ :=
    drain_serves hs hlow hcalls.1 hrate room rfl
  obtain ⟨hgrows, hturn⟩ := handle_grows hconserved (hmark ▸ hlow) hcalls.2
  exact ⟨k, queue, hk, hprefix, hqueue ▸ hgrows.waiting, hserved.trans hgrows.served,
    fun req hreq => hgrows.served.subset (hfront req hreq), hturn, hgrows.mark.trans hmark,
    hgrows.capacity.trans hcap⟩

/-- **Turn after turn** the front of the queue gets its entries. -/
theorem turns_serve {turns : List Turn} {j rate : ℕ} (hs : r.Conserved)
    (hlow : 1 ≤ r.sqeLowWaterMark) (hrate : rate ≤ 100)
    (room : r.sqeLowWaterMark + j + rate ≤ r.capacity)
    (hturns : ∀ t ∈ turns, t.handlers.length ≤ j ∧ t.ByHandlers) :
    r.served <+: (turns.foldl turn r).served ∧
      ∀ req ∈ r.waitingSubmitQueue.take (turns.length * rate),
        req ∈ (turns.foldl turn r).served := by
  induction turns generalizing r with
  | nil => simp
  | cons t turns ih =>
      obtain ⟨hlen, hcalls⟩ := hturns t List.mem_cons_self
      obtain ⟨k, queue, hk, hprefix, ⟨new, hqueue⟩, hserved, hfront, hconserved, hmark, hcap⟩ :=
        turn_serves hs hlow hcalls hrate (by omega)
      obtain ⟨hkeep, hrest⟩ := ih hconserved (hmark ▸ hlow) (by rw [hmark, hcap]; exact room)
        fun c hc => hturns c (List.mem_cons_of_mem _ hc)
      refine ⟨hserved.trans hkeep, fun req hreq => ?_⟩
      -- it is served in this turn, or it is that much nearer to the front afterwards
      obtain ⟨p, hp, hat⟩ := List.mem_take_iff_getElem.mp hreq
      have hqueueAt : queue[p]? = some req := by
        obtain ⟨new, rfl⟩ := hprefix
        rw [List.getElem?_append_left (by omega), List.getElem?_eq_getElem (by omega), hat]
      obtain ⟨hpq, hq⟩ := List.getElem?_eq_some_iff.mp hqueueAt
      by_cases hpk : p < k
      · exact hkeep.subset (hfront req (List.mem_take_iff_getElem.mpr ⟨p, by omega, hq⟩))
      · have hrate' : rate ≤ k := by omega
        have hdrop : (queue.drop k)[p - k]? = some req := by
          rw [List.getElem?_drop, Nat.add_sub_cancel' (Nat.not_lt.mp hpk), hqueueAt]
        have hleft : p - k < (queue.drop k).length := by
          rw [List.length_drop]
          omega
        rw [List.length_cons, Nat.succ_mul] at hp
        refine hrest req (List.mem_take_iff_getElem.mpr ⟨p - k, ?_, ?_⟩)
        · rw [← hqueue, List.length_append]
          omega
        · have hnext : (r.turn t).waitingSubmitQueue[p - k]? = some req := by
            rw [← hqueue, List.getElem?_append_left hleft, hdrop]
          exact (List.getElem?_eq_some_iff.mp hnext).2

/-- A call other than `doingSubmitWaitingTask` takes nothing from the queue. -/
theorem act_queued (hlow : 1 ≤ r.sqeLowWaterMark) (ha : a ≠ .doingSubmitWaitingTask)
    (h : r.waitingSubmitQueue = r.queued) :
    (r.act a).waitingSubmitQueue = (r.act a).queued := by
  have hforced : ∀ sqe, (r.forced sqe).waitingSubmitQueue = (r.forced sqe).queued := by
    intro sqe
    unfold forced getIoUringSqe
    split_ifs <;> exact h
  have hsubmit : ∀ entry ctx, (r.submit (submitNow entry) ctx).waitingSubmitQueue
      = (r.submit (submitNow entry) ctx).queued := by
    intro entry ctx
    by_cases low : r.remainedSqe < r.sqeLowWaterMark
    · rw [submit_of_low low, h]
    · rw [submit_of_room hlow low]
      exact h
  cases a with
  | submitReadMultishut => exact hsubmit _ _
  | submitWriteMsg => exact hsubmit _ _
  | submitAcceptMultishut => exact hsubmit _ _
  | submitCancel addr =>
      show (r.submitCancel addr).waitingSubmitQueue = (r.submitCancel addr).queued
      unfold submitCancel
      dsimp only
      split_ifs <;> exact hforced _
  | onCompletion => exact hforced _
  | ioUringSubmit => exact h
  | doingSubmitWaitingTask => exact absurd rfl ha

theorem act_capacity (hs : r.Conserved) (hlow : 1 ≤ r.sqeLowWaterMark) (a : Act) :
    (r.act a).capacity = r.capacity := by
  cases ha : a.byHandler with
  | true => exact (act_grows hlow ha).capacity
  | false =>
      cases a with
      | ioUringSubmit => rfl
      | doingSubmitWaitingTask =>
          show r.doingSubmitWaitingTask.capacity = _
          rw [doingSubmitWaitingTask_eq hs.waitable]
          rfl
      | _ => simp [Act.byHandler] at ha

theorem reach_capacity {capacity lowWaterMark : ℕ} (hlow : 1 ≤ lowWaterMark)
    (run : Reach step anyStep (create capacity lowWaterMark) r) :
    r.Conserved ∧ r.sqeLowWaterMark = lowWaterMark ∧ r.capacity = capacity ∧
      (capacity ≤ lowWaterMark → r.waitingSubmitQueue = r.queued) := by
  refine run.invariant (P := fun r => r.Conserved ∧ r.sqeLowWaterMark = lowWaterMark ∧
    r.capacity = capacity ∧ (capacity ≤ lowWaterMark → r.waitingSubmitQueue = r.queued))
    ⟨create_conserved _ _, rfl, rfl, fun _ => rfl⟩ ?_
  rintro r a r' ⟨hs, rfl, rfl, hqueued⟩ - move
  simp only [step, Option.ite_none_right_eq_some, Option.some.injEq] at move
  obtain ⟨-, rfl⟩ := move
  refine ⟨act_conserved a hlow hs, act_mark a hs.waitable, act_capacity hs hlow a, fun hsmall => ?_⟩
  by_cases ha : a = .doingSubmitWaitingTask
  · subst ha
    show r.doingSubmitWaitingTask.waitingSubmitQueue = r.doingSubmitWaitingTask.queued
    have hnone : r.drained = 0 := by
      unfold drained remainedSqe
      omega
    rw [doingSubmitWaitingTask_eq hs.waitable, hnone]
    exact hqueued hsmall
  · exact act_queued hlow ha (hqueued hsmall)

/-- **How long a request waits.**  In every run: if the handlers of a turn make at most `j` calls
and `rate` entries above the mark are left even then, `rate` being at most the limit of one turn,
then the first `n * rate` requests of the queue have their entries after `n` turns, whatever the
functors of these turns ask for.  If the ring is not larger than the mark, no request that was ever
queued is served. -/
theorem waiting_served {capacity lowWaterMark : ℕ} (hlow : 1 ≤ lowWaterMark)
    (run : Reach step anyStep (create capacity lowWaterMark) r) :
    (∀ (j rate : ℕ) (turns : List Turn), rate ≤ 100 → lowWaterMark + j + rate ≤ capacity →
      (∀ t ∈ turns, t.handlers.length ≤ j ∧ t.ByHandlers) →
      ∀ req ∈ r.waitingSubmitQueue.take (turns.length * rate),
        req ∈ (turns.foldl turn r).served) ∧
    (capacity ≤ lowWaterMark → r.waitingSubmitQueue = r.queued) := by
  obtain ⟨hs, rfl, rfl, hsmall⟩ := reach_capacity hlow run
  refine ⟨fun j rate turns hrate room hturns => ?_, hsmall⟩
  exact (turns_serve hs hlow hrate room hturns).2

/-- A receive waits behind another in a ring of four entries and gets its own in the second turn,
although a handler and a functor send in each of them.  In a ring of two entries it waits
forever. -/
theorem waiting_served_second :
    (∃ r, Reach step anyStep (create 4 2) r ∧
      r.waitingSubmitQueue = [⟨3, ⟨6, .read⟩⟩, ⟨4, ⟨8, .read⟩⟩] ∧
      (⟨4, ⟨8, .read⟩⟩ : Request) ∈
        ([⟨[.submitWriteMsg 3], [.submitWriteMsg 7]⟩,
          ⟨[.submitWriteMsg 5], [.submitWriteMsg 9]⟩].foldl turn r).served) ∧
    ∃ r, Reach step anyStep (create 2 2) r ∧ r.queued = [⟨1, ⟨6, .read⟩⟩] ∧
      r.waitingSubmitQueue = r.queued := by
  constructor
  · obtain ⟨r, run, hr⟩ := exists_reach step anyStep (create 4 2)
      [.submitReadMultishut 0, .submitReadMultishut 2, .submitReadMultishut 4,
        .submitReadMultishut 6, .submitReadMultishut 8]
      (fun r => r.waitingSubmitQueue = [⟨3, ⟨6, .read⟩⟩, ⟨4, ⟨8, .read⟩⟩]) (by decide +kernel)
    have hqueue := of_decide_eq_true hr
    refine ⟨r, run, hqueue, ?_⟩
    refine (waiting_served (by decide) run).1 1 1 _ (by decide) (by decide) (by decide) _ ?_
    rw [hqueue]
    decide
  · obtain ⟨r, run, hr⟩ := exists_reach step anyStep (create 2 2)
      [.submitReadMultishut 4, .submitReadMultishut 6, .ioUringSubmit, .doingSubmitWaitingTask]
      (fun r => r.queued = [⟨1, ⟨6, .read⟩⟩]) (by decide +kernel)
    exact ⟨r, run, of_decide_eq_true hr, (waiting_served (by decide) run).2 (by decide)⟩

end SubmitRing

end Proactor
