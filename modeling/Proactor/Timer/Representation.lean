import Proactor.Timer.Cancel
import Proactor.Timer.TimerStore

/-!
# The representation invariant of the timer queue

The timers of a loop by pointer, in any order of steps: `addTimer` and `cancelTimer` on the loop
thread, the same calls on other threads with their functors, and `handleRead` cut between any two
callbacks, each of which may call back into the queue.  A cancellation names any id, also one that
was never issued or whose timer is long gone; the allocator returns any address that is not in use.

In every state reached `timer_list_` and `active_timer_set_` are in bijection, each entry has the
key that its timer has now, and the timers of functors and batches are in neither container
(`representation`).  The invariant between two steps is `StoreRun.Sound`: every timer has one
owner, and no sequence is used twice.
-/

namespace Proactor

open Transition

/-- A functor that another thread has queued. -/
inductive StoreFunctor
  | add (p : ℕ)
  | cancel (timerId : ActiveTimer)

def StoreFunctor.add? : StoreFunctor → Option ℕ
  | .add p => some p
  | .cancel _ => none

/-- The vector `expired_timers`, with the pointers whose callback has been called in front. -/
structure StoreBatch where
  now : ℤ
  started : List ℕ
  waiting : List ℕ

structure StoreRun where
  queue : TimerStore
  nextSequence : ℕ
  functors : List StoreFunctor
  batch : Option StoreBatch

namespace StoreRun

def create : StoreRun := ⟨.create, 0, [], none⟩

def started (s : StoreRun) : List ℕ := (s.batch.map StoreBatch.started).getD []

def waiting (s : StoreRun) : List ℕ := (s.batch.map StoreBatch.waiting).getD []

/-- The loop thread runs code of the user: during a batch, that of a callback. -/
def onLoop (s : StoreRun) : Bool := s.batch.isNone || !s.started.isEmpty

def newTimer (s : StoreRun) (addr : ℕ) (expiration interval : ℤ) (repeats : Bool) : Timer :=
  ⟨addr, expiration, interval, repeats, s.nextSequence⟩

def runFunctor (s : StoreRun) : Option StoreRun :=
  match s.functors with
  | [] => none
  | .add p :: functors => some { s with queue := s.queue.insert p, functors := functors }
  | .cancel timerId :: functors =>
      some { s with queue := s.queue.cancelTimerInLoop timerId, functors := functors }

def runNext (s : StoreRun) : Option StoreRun :=
  match s.batch with
  | some ⟨now, started, p :: waiting⟩ =>
      some { s with
        queue := s.queue.check (s.queue.heap p).isSome
        batch := some ⟨now, started ++ [p], waiting⟩ }
  | _ => none

def endRead (s : StoreRun) : Option StoreRun :=
  match s.batch with
  | some ⟨now, started, []⟩ => some { s with queue := s.queue.endRead started now, batch := none }
  | _ => none

def step (s : StoreRun) : TimerRun.Act → Option StoreRun
  | .addTimer addr expiration interval repeats =>
      let t := s.newTimer addr expiration interval repeats
      if s.onLoop ∧ (s.queue.heap addr).isNone then
        some { s with queue := (s.queue.write t).insert addr, nextSequence := s.nextSequence + 1 }
      else none
  | .addTimerFrom addr expiration interval repeats =>
      let t := s.newTimer addr expiration interval repeats
      if (s.queue.heap addr).isNone then
        some { s with
          queue := s.queue.write t
          nextSequence := s.nextSequence + 1
          functors := s.functors ++ [.add addr] }
      else none
  | .cancelTimer timerId =>
      if s.onLoop then some { s with queue := s.queue.cancelTimerInLoop timerId } else none
  | .cancelTimerFrom timerId => some { s with functors := s.functors ++ [.cancel timerId] }
  | .elsewhere => some { s with nextSequence := s.nextSequence + 1 }
  | .runFunctor => if s.batch.isNone then s.runFunctor else none
  | .beginRead now =>
      if s.batch.isNone ∧ s.queue.nothingExpired now = false then
        some { s with
          queue := (s.queue.beginRead now).1
          batch := some ⟨now, [], (s.queue.beginRead now).2⟩ }
      else none
  | .runNext => s.runNext
  | .endRead => s.endRead

/-! ## One owner and one sequence for every timer -/

/-- The timers of the functors. -/
def queued (s : StoreRun) : List ℕ := s.functors.filterMap StoreFunctor.add?

/-- The pointers to timers outside the map. -/
def held (s : StoreRun) : List ℕ := s.queued ++ (s.started ++ s.waiting)

def toLoop (s : StoreRun) : TimerLoop :=
  ⟨s.queue.abs, s.nextSequence, s.queued.map s.queue.timerAt⟩

/-- The timers of the batch. -/
def batchTimers (s : StoreRun) : List Timer := (s.started ++ s.waiting).map s.queue.timerAt

/-- **Between two steps.** -/
structure Sound (s : StoreRun) : Prop where
  owns : s.queue.Owns s.held
  coherent : s.toLoop.Coherent s.batchTimers

section

variable {s s' : StoreRun} {t : Timer} {p : ℕ} {timerId : ActiveTimer} {now : ℤ}

theorem create_sound : create.Sound where
  owns := TimerStore.create_owns
  coherent := TimerLoop.create_coherent

theorem sound_of {l : TimerLoop} {batch : List Timer} (h : l.Coherent batch)
    (howns : s.queue.Owns s.held) (hqueue : s.queue.abs = l.queue)
    (hqueued : s.queued.map s.queue.timerAt = l.queued) (hbatch : s.batchTimers = batch)
    (hnext : s.nextSequence = l.nextSequence := by rfl) : s.Sound := by
  refine ⟨howns, ?_⟩
  rw [hbatch, toLoop, hqueue, hnext, hqueued]
  exact h

theorem queued_add (functors : List StoreFunctor) :
    (functors ++ [StoreFunctor.add p]).filterMap StoreFunctor.add?
      = functors.filterMap StoreFunctor.add? ++ [p] := by
  simp [StoreFunctor.add?]

theorem queued_cancel (functors : List StoreFunctor) :
    (functors ++ [StoreFunctor.cancel timerId]).filterMap StoreFunctor.add?
      = functors.filterMap StoreFunctor.add? := by
  simp [StoreFunctor.add?]

/-- The timers outside the map, in memory that has not changed there. -/
theorem map_held {q : TimerStore} (h : ∀ a ∈ s.held, q.heap a = s.queue.heap a) :
    s.queued.map q.timerAt = s.toLoop.queued ∧
      (s.started ++ s.waiting).map q.timerAt = s.batchTimers :=
  ⟨TimerStore.map_timerAt fun a ha => h a (List.mem_append_left _ ha),
    TimerStore.map_timerAt fun a ha => h a (List.mem_append_right _ ha)⟩

theorem Sound.addTimer (hs : s.Sound) (hfree : s.queue.heap t.addr = none)
    (ht : t.sequence = s.nextSequence) :
    ({ s with
      queue := (s.queue.write t).insert t.addr
      nextSequence := s.nextSequence + 1 } : StoreRun).Sound := by
  obtain ⟨howns, habs, hself, hother⟩ := hs.owns.new hfree
  have hrep : (s.queue.write t).abs.Rep := habs ▸ hs.coherent.rep
  have hnew : t.sequence ∉ (s.queue.write t).abs.timers.map Timer.sequence :=
    habs ▸ hs.coherent.fresh ht
  obtain ⟨-, hinsert, -⟩ := TimerStore.insert_spec hrep hself hnew
  obtain ⟨howns', hheap⟩ := howns.insert hrep hself hnew
  obtain ⟨hqueued, hbatch⟩ := map_held (s := s) (q := (s.queue.write t).insert t.addr)
    fun a ha => by rw [hheap, hother a ha]
  refine sound_of (TimerLoop.addTimer_coherent hs.coherent ht) howns' ?_ hqueued hbatch
  exact hinsert.trans (congrArg _ habs)

theorem Sound.addTimerFrom (hs : s.Sound) (hfree : s.queue.heap t.addr = none)
    (ht : t.sequence = s.nextSequence) :
    ({ s with
      queue := s.queue.write t
      nextSequence := s.nextSequence + 1
      functors := s.functors ++ [.add t.addr] } : StoreRun).Sound := by
  obtain ⟨howns, habs, hself, hother⟩ := hs.owns.new hfree
  obtain ⟨hqueued, hbatch⟩ := map_held hother
  refine sound_of (TimerLoop.createTimer_coherent hs.coherent ht) (howns.perm ?_) habs ?_ hbatch
  · simp only [held, queued, queued_add, List.append_assoc]
    exact List.perm_middle
  · simp only [queued, queued_add, List.map_append, List.map_singleton,
      TimerStore.timerAt_of_heap hself]
    exact congrArg (· ++ [t]) hqueued

theorem Sound.cancelTimer (hs : s.Sound) (timerId : ActiveTimer) :
    ({ s with queue := s.queue.cancelTimerInLoop timerId } : StoreRun).Sound := by
  obtain ⟨habs, howns, hheap⟩ := hs.owns.cancelTimerInLoop hs.coherent.rep timerId
  obtain ⟨hqueued, hbatch⟩ := map_held hheap
  exact sound_of (TimerLoop.cancelTimer_coherent hs.coherent timerId) howns habs hqueued hbatch

theorem Sound.cancelTimerFrom (hs : s.Sound) (timerId : ActiveTimer) :
    ({ s with functors := s.functors ++ [.cancel timerId] } : StoreRun).Sound := by
  refine sound_of hs.coherent ?_ rfl ?_ rfl
  · simp only [held, queued, queued_cancel]
    exact hs.owns
  · simp only [queued, queued_cancel]
    rfl

theorem Sound.elsewhere (hs : s.Sound) :
    ({ s with nextSequence := s.nextSequence + 1 } : StoreRun).Sound :=
  sound_of (TimerLoop.op_coherent hs.coherent .elsewhere) hs.owns rfl rfl rfl

variable {functors : List StoreFunctor}

theorem Sound.runAdd (hs : s.Sound) (hhead : s.functors = .add p :: functors) :
    ({ s with queue := s.queue.insert p, functors := functors } : StoreRun).Sound := by
  have hqueued : s.queued = p :: functors.filterMap StoreFunctor.add? := by
    simp [queued, hhead, StoreFunctor.add?]
  have howns := hs.owns
  simp only [held, hqueued, List.cons_append] at howns
  have hheap : s.queue.heap p = some (s.queue.timerAt p) := howns.heap (by simp)
  have hfirst : s.toLoop.queued[0]? = some (s.queue.timerAt p) := by
    simp [toLoop, hqueued]
  have hnew := hs.coherent.fresh_queued (List.mem_of_getElem? hfirst)
  obtain ⟨-, hinsert, -⟩ := TimerStore.insert_spec hs.coherent.rep hheap hnew
  obtain ⟨howns', hsame⟩ := howns.insert hs.coherent.rep hheap hnew
  refine sound_of (TimerLoop.addQueued_coherent hs.coherent hfirst) howns' hinsert ?_ ?_
  · refine (TimerStore.map_timerAt fun a _ => congrFun hsame a).trans ?_
    simp only [toLoop, hqueued, List.map_cons, List.eraseIdx_cons_zero]
    rfl
  · exact TimerStore.map_timerAt fun a _ => congrFun hsame a

theorem Sound.runCancel (hs : s.Sound) (hhead : s.functors = .cancel timerId :: functors) :
    ({ s with
      queue := s.queue.cancelTimerInLoop timerId
      functors := functors } : StoreRun).Sound := by
  have hqueued : s.queued = functors.filterMap StoreFunctor.add? := by
    rw [queued, hhead]
    rfl
  have hcancel := hs.cancelTimer timerId
  refine sound_of hcancel.coherent ?_ rfl ?_ rfl
  · have howns := hcancel.owns
    simp only [held] at howns ⊢
    rwa [show ({ s with queue := s.queue.cancelTimerInLoop timerId } : StoreRun).queued
      = functors.filterMap StoreFunctor.add? from hqueued] at howns
  · exact congrArg (List.map _) hqueued.symm

theorem Sound.beginRead (hs : s.Sound) (hidle : s.batch = none) (now : ℤ) :
    ({ s with
      queue := (s.queue.beginRead now).1
      batch := some ⟨now, [], (s.queue.beginRead now).2⟩ } : StoreRun).Sound := by
  have hnone : s.started ++ s.waiting = [] := by simp [started, waiting, hidle]
  obtain ⟨habs, hexpired, howns, hheap⟩ := TimerStore.beginRead_spec hs.owns hs.coherent.rep now
  have hcoherent : s.toLoop.Coherent [] := by
    have h := hs.coherent
    rwa [batchTimers, hnone] at h
  refine sound_of (TimerLoop.begin_coherent hcoherent now) (howns.perm ?_) habs ?_ ?_
  · simp only [held, hnone, List.append_nil]
    exact List.perm_append_comm
  · exact TimerStore.map_timerAt fun a _ => congrFun hheap a
  · exact (TimerStore.map_timerAt fun a _ => congrFun hheap a).trans hexpired

theorem Sound.runNext {started waiting : List ℕ} (hs : s.Sound)
    (hbatch : s.batch = some ⟨now, started, p :: waiting⟩) :
    ({ s with
      queue := s.queue.check (s.queue.heap p).isSome
      batch := some ⟨now, started ++ [p], waiting⟩ } : StoreRun).Sound := by
  have hlist : s.started ++ s.waiting = started ++ [p] ++ waiting := by
    simp [StoreRun.started, StoreRun.waiting, hbatch]
  have halive : (s.queue.heap p).isSome = true :=
    (hs.owns.alive p).mpr (by simp [held, hlist])
  rw [TimerStore.check_of_true halive]
  refine sound_of hs.coherent ?_ rfl rfl ?_
  · have howns := hs.owns
    rw [held, hlist] at howns
    exact howns
  · exact congrArg (List.map _) hlist.symm

theorem Sound.endRead {started : List ℕ} (hs : s.Sound)
    (hbatch : s.batch = some ⟨now, started, []⟩) :
    ({ s with queue := s.queue.endRead started now, batch := none } : StoreRun).Sound := by
  have hlist : s.started ++ s.waiting = started := by
    simp [StoreRun.started, StoreRun.waiting, hbatch]
  have hcoherent := hs.coherent
  rw [batchTimers, hlist] at hcoherent
  have howns := hs.owns
  rw [held, hlist] at howns
  obtain ⟨habs, howns', hheap⟩ := TimerStore.endRead_spec (howns.perm List.perm_append_comm)
    hcoherent.rep now hcoherent.detached fun p hp =>
      TimerLoop.sequence_new (hcoherent.batch_queue _ (List.mem_map_of_mem hp))
  refine sound_of (TimerLoop.end_coherent hcoherent now).1 ?_ habs ?_ rfl
  · have hheld : ({ s with queue := s.queue.endRead started now, batch := none } : StoreRun).held
        = s.queued := List.append_nil _
    rw [hheld]
    exact howns'
  · exact TimerStore.map_timerAt hheap

theorem runFunctor_sound (hs : s.Sound) (h : s.runFunctor = some s') : s'.Sound := by
  unfold runFunctor at h
  split at h
  case h_1 => cases h
  case h_2 head => exact Option.some.inj h ▸ hs.runAdd head
  case h_3 head => exact Option.some.inj h ▸ hs.runCancel head

theorem step_sound {a : TimerRun.Act} (hs : s.Sound) (h : s.step a = some s') : s'.Sound := by
  cases a with
  | addTimer addr expiration interval repeats =>
      simp only [step, Option.ite_none_right_eq_some, Option.some.injEq,
        Option.isNone_iff_eq_none] at h
      exact h.2 ▸ hs.addTimer (t := s.newTimer addr expiration interval repeats) h.1.2 rfl
  | addTimerFrom addr expiration interval repeats =>
      simp only [step, Option.ite_none_right_eq_some, Option.some.injEq,
        Option.isNone_iff_eq_none] at h
      exact h.2 ▸ hs.addTimerFrom (t := s.newTimer addr expiration interval repeats) h.1 rfl
  | cancelTimer timerId =>
      simp only [step, Option.ite_none_right_eq_some, Option.some.injEq] at h
      exact h.2 ▸ hs.cancelTimer timerId
  | cancelTimerFrom timerId =>
      simp only [step, Option.some.injEq] at h
      exact h ▸ hs.cancelTimerFrom timerId
  | elsewhere =>
      simp only [step, Option.some.injEq] at h
      exact h ▸ hs.elsewhere
  | runFunctor =>
      simp only [step, Option.ite_none_right_eq_some] at h
      exact runFunctor_sound hs h.2
  | beginRead now =>
      simp only [step, Option.ite_none_right_eq_some, Option.some.injEq,
        Option.isNone_iff_eq_none] at h
      exact h.2 ▸ hs.beginRead h.1.1 now
  | runNext =>
      simp only [step, StoreRun.runNext] at h
      split at h
      case h_1 batch => exact Option.some.inj h ▸ hs.runNext batch
      case h_2 => cases h
  | endRead =>
      simp only [step, StoreRun.endRead] at h
      split at h
      case h_1 batch => exact Option.some.inj h ▸ hs.endRead batch
      case h_2 => cases h

theorem reach_sound (run : Reach step anyStep create s) : s.Sound :=
  run.invariant (P := Sound) create_sound fun _ _ _ hs _ h => step_sound hs h

/-! ## The two containers -/

/-- **No two timers share a sequence.** -/
theorem Sound.sequences (hs : s.Sound) :
    ((s.queue.pointers ++ s.held).map fun p => (s.queue.timerAt p).sequence).Nodup := by
  have hqueue := hs.coherent.rep.distinct
  change (s.queue.abs.timers.map Timer.sequence).Nodup at hqueue
  rw [TimerStore.abs_timers, List.map_map] at hqueue
  have hqueued := hs.coherent.queued
  rw [toLoop, List.map_map] at hqueued
  have hbatch := hs.coherent.detached
  rw [batchTimers, List.map_map] at hbatch
  have hmem : ∀ p ∈ s.queue.pointers, s.queue.timerAt p ∈ s.toLoop.queue.timers := by
    intro p hp
    change _ ∈ s.queue.abs.timers
    rw [TimerStore.abs_timers]
    exact List.mem_map_of_mem hp
  rw [held, List.map_append, List.nodup_append, List.map_append, List.nodup_append]
  refine ⟨hqueue, ⟨hqueued, hbatch, ?_⟩, ?_⟩
  · intro a ha b hb
    obtain ⟨p, hp, rfl⟩ := List.mem_map.mp ha
    obtain ⟨p', hp', rfl⟩ := List.mem_map.mp hb
    exact (hs.coherent.batch_queued _ (List.mem_map_of_mem hp') _ (List.mem_map_of_mem hp)).symm
  · intro a ha b hb
    obtain ⟨p, hp, rfl⟩ := List.mem_map.mp ha
    rcases List.mem_append.mp hb with hb | hb
    · obtain ⟨p', hp', rfl⟩ := List.mem_map.mp hb
      exact (hs.coherent.queued_queue _ (List.mem_map_of_mem hp') _ (hmem p hp)).symm
    · obtain ⟨p', hp', rfl⟩ := List.mem_map.mp hb
      exact (hs.coherent.batch_queue _ (List.mem_map_of_mem hp') _ (hmem p hp)).symm

end

end StoreRun

namespace TimerStore

/-- **The bijection**: each entry of the map is keyed by the timer it holds, whose id is active, and
each active id is the id of the timer of exactly one entry. -/
structure Bijective (q : TimerStore) : Prop where
  keyed : ∀ e ∈ q.timerList, ∃ t, q.heap e.2 = some t ∧ t.addr = e.2 ∧ e.1 = t.entry ∧
    t.id ∈ q.activeTimerSet
  listed : ∀ id ∈ q.activeTimerSet, ∃! e, e ∈ q.timerList ∧ (q.heap e.2).map Timer.id = some id

theorem Owns.bijective {q : TimerStore} {held : List ℕ} (ho : q.Owns held) (hs : q.abs.Rep) :
    q.Bijective where
  keyed := by
    intro e he
    have hmem : e.2 ∈ q.pointers ++ held := List.mem_append_left _ (List.mem_map_of_mem he)
    refine ⟨_, ho.heap hmem, ho.timerAt_addr hmem, Rep_keyed hs he, ?_⟩
    exact hs.mem_active.mpr ⟨_, mem_abs_timers.mpr ⟨e, he, rfl⟩, rfl⟩
  listed := by
    intro id hid
    obtain ⟨t, ht, htid, -, hentry⟩ := ho.of_active hs hid
    refine ⟨_, ⟨hentry, by rw [ht, ← htid]; rfl⟩, ?_⟩
    rintro e ⟨he, hheap⟩
    -- the entry is the one of the pointer in the id
    have hptr : e.2 = id.timer := by
      obtain ⟨u, hu, rfl⟩ := Option.map_eq_some_iff.mp hheap
      exact (ho.addr _ _ hu).symm
    exact List.inj_on_of_nodup_map (List.nodup_append.mp ho.nodup).1 he hentry hptr

end TimerStore

namespace StoreRun

variable {s : StoreRun}

/-- **The representation invariant**, in every state reached. -/
theorem representation (run : Reach step anyStep create s) :
    s.queue.Bijective ∧
    -- the timers of functors and of the batch are in neither container, under no sequence
    (∀ p ∈ s.held, ∃ t, s.queue.heap p = some t ∧
      (∀ e ∈ s.queue.timerList, e.2 ≠ p ∧ (ofLex e.1).2 ≠ t.sequence) ∧
      ∀ id ∈ s.queue.activeTimerSet, id.timer ≠ p ∧ id.sequence ≠ t.sequence) ∧
    (∀ p p' t t', s.queue.heap p = some t → s.queue.heap p' = some t' →
      t.sequence = t'.sequence → p = p') ∧
    s.queue.overwrote = false ∧ s.queue.failed = false ∧
    (∀ p ∈ s.queued, ∃ t, s.queue.heap p = some t ∧ t.id ∉ s.queue.activeTimerSet ∧
      ((s.queue.insert p).timerList).Perm ((t.entry, p) :: s.queue.timerList) ∧
      (s.queue.insert p).activeTimerSet = Insert.insert t.id s.queue.activeTimerSet) ∧
    ∀ del, del ∉ s.queue.activeTimerSet ∧ s.queue.erase del = (s.queue, false) ∨
      del ∈ s.queue.activeTimerSet ∧ (s.queue.erase del).2 = true ∧
        ∃ e, e.2 = del.timer ∧ s.queue.timerList.Perm (e :: (s.queue.erase del).1.timerList) ∧
          (s.queue.erase del).1.activeTimerSet = s.queue.activeTimerSet.erase del := by
  have hs := reach_sound run
  have hrep : s.queue.abs.Rep := hs.coherent.rep
  have hbij := hs.owns.bijective hrep
  have hinj := fun p p' hp hp' => List.inj_on_of_nodup_map hs.sequences (x := p) (y := p') hp hp'
  refine ⟨hbij, ?_, ?_, hs.owns.kept, hrep.noAssert, ?_, ?_⟩
  · intro p hp
    have hother : ∀ a ∈ s.queue.pointers, a ≠ p ∧
        (s.queue.timerAt a).sequence ≠ (s.queue.timerAt p).sequence := by
      intro a ha
      have hne : a ≠ p := (List.nodup_append.mp hs.owns.nodup).2.2 a ha p hp
      exact ⟨hne, fun h =>
        hne (hinj a p (List.mem_append_left _ ha) (List.mem_append_right _ hp) h)⟩
    refine ⟨_, hs.owns.heap (List.mem_append_right _ hp), fun e he => ?_, fun id hid => ?_⟩
    · rw [TimerStore.Rep_keyed hrep he]
      exact hother e.2 (List.mem_map_of_mem he)
    · obtain ⟨t, ht, htid, -, hentry⟩ := hs.owns.of_active hrep hid
      have hseq : (s.queue.timerAt id.timer).sequence = id.sequence := by
        rw [TimerStore.timerAt_of_heap ht, ← htid]
        rfl
      have hptr : id.timer ∈ s.queue.pointers := List.mem_map_of_mem (f := Prod.snd) hentry
      rw [← hseq]
      exact hother id.timer hptr
  · intro p p' t t' ht ht' hseq
    have hp := (hs.owns.alive p).mp (by simp [ht])
    have hp' := (hs.owns.alive p').mp (by simp [ht'])
    refine hinj p p' hp hp' ?_
    simpa [TimerStore.timerAt_of_heap ht, TimerStore.timerAt_of_heap ht'] using hseq
  · intro p hp
    have hheap := hs.owns.heap (List.mem_append_right _ (List.mem_append_left _ hp))
    have hnew := hs.coherent.fresh_queued (List.mem_map_of_mem hp)
    obtain ⟨heq, -, hid, hperm⟩ := TimerStore.insert_spec hrep hheap hnew
    exact ⟨_, hheap, hid, hperm, by rw [heq]⟩
  · intro del
    rcases TimerStore.erase_spec hs.owns hrep del with h | ⟨t, -, -, -, hdel, hperm, heq⟩
    · exact .inl h
    · rw [heq]
      exact .inr ⟨hdel, rfl, _, rfl, hperm, rfl⟩

/-- Two timers expire; the callback of the first cancels a third that is still queued, adds a timer
at the address that this gives back, and cancels an id that nobody has. -/
theorem representation_in_batch : ∃ s, Reach step anyStep create s ∧ s.held = [1, 2] ∧
    s.queue.pointers = [4, 3] ∧ s.queue.Bijective := by
  obtain ⟨s, run, hs⟩ := exists_reach step anyStep create
    [.addTimer 1 5 3 true, .addTimer 2 6 0 false, .addTimer 3 20 0 false, .beginRead 10, .runNext,
      .addTimer 4 30 0 false, .cancelTimer ⟨3, 2⟩, .addTimer 3 40 0 false, .cancelTimer ⟨9, 9⟩]
    (fun s => decide (s.held = [1, 2] ∧ s.queue.pointers = [4, 3])) (by decide +kernel)
  obtain ⟨hheld, hpointers⟩ := of_decide_eq_true hs
  exact ⟨s, run, hheld, hpointers, (representation run).1⟩

-- at the end of the batch the first is put back and the second is destroyed
example : ((exec step create [.addTimer 1 5 3 true, .addTimer 2 6 0 false, .beginRead 10, .runNext,
    .runNext, .endRead]).map fun s => (s.queue.pointers, s.queue.heap 2)) = some ([1], none) := by
  decide +kernel

end StoreRun

end Proactor
