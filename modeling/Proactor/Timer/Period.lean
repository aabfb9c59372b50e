import Proactor.Core.Checked
import Proactor.Timer.Cancel

/-!
# When the callbacks of timers are called

`handleRead` reads the monotonic clock once, runs what has expired by then, and puts the repeating
timers back, each an interval after the time that was read.  `TimerHistory` is `TimerRun` with that
clock and a record of the calls.

* `TimerHistory.OnTime` — where every timer of the loop stands, compared with its earlier calls.
* `timers_on_time` — no callback is called before its time; the calls of a repeating timer are an
  interval apart, and a timer that does not repeat is called once.

The times of the source are 64-bit counts of microseconds.  `FitsInt64` keeps to the steps whose
times have one: what is given to `addTimer`, the clock, and the sums of `restart`.  An interval is
the count that `addTime` adds, which is the `double` of the source cut off at the microsecond.
-/

namespace Proactor

open Transition

structure TimerHistory where
  run : TimerRun
  /-- The time of the last `handleRead` that found something expired. -/
  clock : ℤ
  /-- The timers, as `addTimer` made them. -/
  created : List Timer
  /-- The timers that were run, as they were then, and the time that `handleRead` had read. -/
  ran : List (Timer × ℤ)

namespace TimerRun

/-- The timer a step makes. -/
def made (s : TimerRun) : Act → List Timer
  | .addTimer addr expiration interval repeats | .addTimerFrom addr expiration interval repeats =>
      [s.toLoop.newTimer addr expiration interval repeats]
  | _ => []

/-- The callback a step calls. -/
def called (s : TimerRun) : Act → List (Timer × ℤ)
  | .runNext =>
      match s.batch with
      | some ⟨now, _, t :: _⟩ => [(t, now)]
      | _ => []
  | _ => []

end TimerRun

namespace TimerHistory

def create : TimerHistory := ⟨.create, 0, [], []⟩

/-- The clock after a step. -/
def readClock (s : TimerHistory) : TimerRun.Act → ℤ
  | .beginRead now => now
  | _ => s.clock

/-- The clock is monotonic. -/
def step (s : TimerHistory) (a : TimerRun.Act) : Option TimerHistory :=
  if s.clock ≤ s.readClock a then
    (s.run.step a).map fun run =>
      ⟨run, s.readClock a, s.created ++ s.run.made a, s.ran ++ s.run.called a⟩
  else none

/-- The times of the step are 64-bit integers. -/
def FitsInt64 (s : TimerHistory) : TimerRun.Act → Prop
  | .addTimer _ expiration interval _ | .addTimerFrom _ expiration interval _ =>
      Checked.InRange 64 expiration ∧ Checked.InRange 64 interval
  | .beginRead now => Checked.InRange 64 now
  | .endRead => ∀ b ∈ s.run.batch, ∀ t ∈ b.started, t.repeats = true →
      t.id ∉ s.run.queue.cancelingTimerSet → Checked.InRange 64 (b.now + t.interval)
  | _ => True

instance (s : TimerHistory) : (a : TimerRun.Act) → Decidable (FitsInt64 s a)
  | .addTimer _ expiration interval _ | .addTimerFrom _ expiration interval _ =>
      inferInstanceAs (Decidable (Checked.InRange 64 expiration ∧ Checked.InRange 64 interval))
  | .beginRead now => inferInstanceAs (Decidable (Checked.InRange 64 now))
  | .endRead => inferInstanceAs (Decidable (∀ b ∈ s.run.batch, ∀ t ∈ b.started,
      t.repeats = true → t.id ∉ s.run.queue.cancelingTimerSet →
        Checked.InRange 64 (b.now + t.interval)))
  | .cancelTimer _ | .cancelTimerFrom _ | .elsewhere | .runFunctor | .runNext =>
      inferInstanceAs (Decidable True)

/-- The timer is one that `addTimer` made, and its time, or the present, is not before the one that
was asked for. -/
def Asked (s : TimerHistory) (u : Timer) : Prop :=
  ∃ t ∈ s.created, t.id = u.id ∧ t.interval = u.interval ∧ t.repeats = u.repeats ∧
    (t.expiration ≤ u.expiration ∨ t.expiration ≤ s.clock)

/-- The earlier calls of the timer were calls of this timer. -/
def Alike (s : TimerHistory) (u : Timer) : Prop :=
  ∀ p ∈ s.ran, p.1.sequence = u.sequence → p.1.repeats = u.repeats ∧ p.1.interval = u.interval

/-- The timer is due an interval after its earlier calls. -/
def Spaced (s : TimerHistory) (u : Timer) : Prop :=
  ∀ p ∈ s.ran, p.1.sequence = u.sequence → u.repeats = true ∧ p.2 + u.interval ≤ u.expiration

/-- The timers whose callback is still to be called. -/
def Pending (s : TimerRun) (u : Timer) : Prop :=
  u ∈ s.queue.timers ∨ .add u ∈ s.functors ∨ u ∈ s.waiting

/-- **Where every timer stands.** -/
structure OnTime (s : TimerHistory) : Prop where
  coherent : s.run.toLoop.Coherent (s.run.started ++ s.run.waiting)
  now : ∀ b ∈ s.run.batch, b.now = s.clock
  expired : ∀ u, u ∈ s.run.started ∨ u ∈ s.run.waiting → u.expiration ≤ s.clock
  asked : ∀ u, Pending s.run u ∨ u ∈ s.run.started → s.Asked u ∧ s.Alike u
  spaced : ∀ u, Pending s.run u → s.Spaced u
  ranged : ∀ u, Pending s.run u ∨ u ∈ s.run.started → Checked.InRange 64 u.expiration
  known : ∀ p ∈ s.ran, p.1.sequence < s.run.nextSequence ∧ p.2 ≤ s.clock
  issued : ∀ t ∈ s.created, t.sequence < s.run.nextSequence
  distinct : (s.created.map Timer.sequence).Nodup
  calls : ∀ p ∈ s.ran, p.1.expiration ≤ p.2 ∧ ∃ t ∈ s.created, t.id = p.1.id ∧
    t.interval = p.1.interval ∧ t.repeats = p.1.repeats ∧ t.expiration ≤ p.2
  apart : s.ran.Pairwise fun p q => p.2 ≤ q.2 ∧
    (p.1.sequence = q.1.sequence → p.1.repeats = true ∧ p.2 + p.1.interval ≤ q.2)

section

variable {s s' : TimerHistory} {r : TimerRun} {t u : Timer} {now : ℤ}

theorem Asked.later (h : s.Asked u) (hcreated : s.created ⊆ s'.created)
    (hclock : s.clock ≤ s'.clock) : s'.Asked u := by
  obtain ⟨t, ht, hid, hinterval, hrepeats, htime⟩ := h
  exact ⟨t, hcreated ht, hid, hinterval, hrepeats, htime.imp_right fun h => h.trans hclock⟩

/-- A timer that has just been made has not been called. -/
theorem OnTime.fresh (hs : s.OnTime) (ht : t.sequence = s.run.nextSequence) :
    ∀ p ∈ s.ran, p.1.sequence ≠ t.sequence := by
  intro p hp
  have := (hs.known p hp).1
  omega

/-- **A step that reads no clock and calls nobody**: the timers pending after it were pending
before, or have just been made. -/
theorem OnTime.quiet (hs : s.OnTime) {made : List Timer}
    (hcoherent : r.toLoop.Coherent (r.started ++ r.waiting)) (hbatch : r.batch = s.run.batch)
    (hmade : made = [] ∨ ∃ t, made = [t] ∧ t.sequence = s.run.nextSequence ∧
      Checked.InRange 64 t.expiration)
    (hnext : s.run.nextSequence + made.length ≤ r.nextSequence)
    (hpending : ∀ u, Pending r u → Pending s.run u ∨ u ∈ made) :
    OnTime ⟨r, s.clock, s.created ++ made, s.ran⟩ := by
  have hstarted : r.started = s.run.started := by simp [TimerRun.started, hbatch]
  have hwaiting : r.waiting = s.run.waiting := by simp [TimerRun.waiting, hbatch]
  have hnew : ∀ t ∈ made, t.sequence = s.run.nextSequence ∧ Checked.InRange 64 t.expiration := by
    rcases hmade with rfl | ⟨t, rfl, ht⟩
    · simp
    · simpa using ht
  -- a timer there is now was there before, or has just been made
  have hcases : ∀ u, Pending r u ∨ u ∈ r.started →
      (Pending s.run u ∨ u ∈ s.run.started) ∨ u ∈ made := by
    rintro u (hu | hu)
    · exact (hpending u hu).imp_left .inl
    · exact .inl (.inr (hstarted ▸ hu))
  have hkept : ∀ u, s.Asked u → Asked ⟨r, s.clock, s.created ++ made, s.ran⟩ u :=
    fun u h => h.later (List.subset_append_left _ _) le_rfl
  refine ⟨hcoherent, by rw [hbatch]; exact hs.now, by rw [hstarted, hwaiting]; exact hs.expired,
    ?_, ?_, ?_, ?_, ?_, ?_, ?_, hs.apart⟩
  · intro u hu
    rcases hcases u hu with hold | hu
    · exact ⟨hkept u (hs.asked u hold).1, (hs.asked u hold).2⟩
    · refine ⟨⟨u, List.mem_append_right _ hu, rfl, rfl, rfl, .inl le_rfl⟩, fun p hp heq => ?_⟩
      exact absurd heq (hs.fresh (hnew u hu).1 p hp)
  · intro u hu p hp heq
    rcases hpending u hu with hold | hu
    · exact hs.spaced u hold p hp heq
    · exact absurd heq (hs.fresh (hnew u hu).1 p hp)
  · intro u hu
    exact (hcases u hu).elim (hs.ranged u) fun hu => (hnew u hu).2
  · intro p hp
    obtain ⟨hlt, hle⟩ := hs.known p hp
    exact ⟨by show p.1.sequence < r.nextSequence; omega, hle⟩
  · intro t ht
    show t.sequence < r.nextSequence
    rcases List.mem_append.mp ht with ht | ht
    · have := hs.issued t ht
      omega
    · have := (hnew t ht).1
      have := List.length_pos_of_mem ht
      omega
  · rcases hmade with rfl | ⟨t, rfl, ht, -⟩
    · simpa using hs.distinct
    · show ((s.created ++ [t]).map Timer.sequence).Nodup
      rw [List.map_append, List.map_singleton, List.nodup_append]
      refine ⟨hs.distinct, List.nodup_singleton _, ?_⟩
      intro a ha b hb
      obtain ⟨v, hv, rfl⟩ := List.mem_map.mp ha
      have := hs.issued v hv
      rw [List.mem_singleton.mp hb]
      omega
  · intro p hp
    obtain ⟨hexp, t, ht, hrest⟩ := hs.calls p hp
    exact ⟨hexp, t, List.mem_append_left _ ht, hrest⟩

/-- A cancelled timer leaves the queue; nobody enters it. -/
theorem OnTime.cancelled (hs : s.OnTime) (timerId : ActiveTimer)
    (hu : Pending { s.run with queue := s.run.queue.cancelTimerInLoop timerId } u) :
    Pending s.run u := by
  obtain ⟨-, hmem, -, -⟩ := TimerQueue.cancelTimerInLoop_spec hs.coherent.rep timerId
  exact hu.imp_left fun h => ((hmem u).mp h).1

/-- The clock is read and a batch is detached. -/
theorem OnTime.beginRead (hs : s.OnTime) (hclock : s.clock ≤ now)
    (hcoherent : ({ s.run with
      queue := (s.run.queue.beginRead now).1
      batch := some ⟨now, [], (s.run.queue.beginRead now).2⟩ } : TimerRun).toLoop.Coherent
        ([] ++ (s.run.queue.beginRead now).2)) :
    OnTime ⟨{ s.run with
      queue := (s.run.queue.beginRead now).1
      batch := some ⟨now, [], (s.run.queue.beginRead now).2⟩ }, now, s.created, s.ran⟩ := by
  have hrep : s.run.queue.Rep := hs.coherent.rep
  obtain ⟨-, hsplit, hexpired, -, -, -⟩ := TimerQueue.beginRead_spec hrep now
  have hpending : ∀ u, Pending { s.run with
      queue := (s.run.queue.beginRead now).1
      batch := some ⟨now, [], (s.run.queue.beginRead now).2⟩ } u → Pending s.run u := by
    intro u hu
    rcases hu with hu | hu | hu
    · exact .inl (hsplit ▸ List.mem_append_right _ hu)
    · exact .inr (.inl hu)
    · exact .inl (hsplit ▸ List.mem_append_left _ hu)
  refine ⟨hcoherent, by simp, fun u hu => hexpired u (hu.resolve_left nofun), ?_,
    fun u hu => hs.spaced u (hpending u hu), ?_, ?_, hs.issued, hs.distinct, hs.calls, hs.apart⟩
  · rintro u (hu | hu)
    · obtain ⟨hasked, halike⟩ := hs.asked u (.inl (hpending u hu))
      exact ⟨hasked.later (List.Subset.refl _) hclock, halike⟩
    · cases hu
  · exact fun u hu => hs.ranged u (.inl (hu.elim (hpending u) nofun))
  · exact fun p hp => ⟨(hs.known p hp).1, (hs.known p hp).2.trans hclock⟩

/-- A timer of the batch that has been run is the only one with its sequence. -/
theorem sequence_of_started {started waiting : List Timer} {r : TimerRun}
    (h : r.toLoop.Coherent (started ++ waiting)) (ht : t ∈ started)
    (hu : u ∈ r.queue.timers ∨ .add u ∈ r.functors ∨ u ∈ waiting) : t.sequence ≠ u.sequence := by
  have hbatch : t ∈ started ++ waiting := List.mem_append_left _ ht
  rcases hu with hu | hu | hu
  · exact h.batch_queue t hbatch u hu
  · exact h.batch_queued t hbatch u (TimerRun.mem_queued.mpr hu)
  · have hnodup := h.detached
    rw [List.map_append, List.nodup_append] at hnodup
    exact hnodup.2.2 _ (List.mem_map_of_mem ht) _ (List.mem_map_of_mem hu)

/-- **A callback is called.** -/
theorem OnTime.runNext (hs : s.OnTime) {started waiting : List Timer} {late : List ActiveTimer}
    (batch : s.run.batch = some ⟨now, started, t :: waiting⟩)
    (hcoherent : ({ s.run with
      batch := some ⟨now, started ++ [t], waiting⟩, late := late } : TimerRun).toLoop.Coherent
        ((started ++ [t]) ++ waiting)) :
    OnTime ⟨{ s.run with batch := some ⟨now, started ++ [t], waiting⟩, late := late }, s.clock,
      s.created, s.ran ++ [(t, now)]⟩ := by
  obtain rfl : now = s.clock := hs.now _ batch
  have hwaiting : s.run.waiting = t :: waiting := by simp [TimerRun.waiting, batch]
  have hstarted : s.run.started = started := by simp [TimerRun.started, batch]
  have hnext : Pending s.run t := .inr (.inr (hwaiting ▸ List.mem_cons_self))
  have hexpired : t.expiration ≤ s.clock := hs.expired t (.inr (hwaiting ▸ List.mem_cons_self))
  obtain ⟨⟨t₀, ht₀, hid, hinterval, hrepeats, htime⟩, halike⟩ := hs.asked t (.inl hnext)
  have hold : ∀ u, u ∈ s.run.queue.timers ∨ .add u ∈ s.run.functors ∨ u ∈ waiting →
      Pending s.run u := fun u h =>
    h.imp_right (Or.imp_right fun h => hwaiting ▸ List.mem_cons_of_mem _ h)
  refine ⟨hcoherent, by simp, ?_, ?_, ?_, ?_, ?_, hs.issued, hs.distinct, ?_, ?_⟩
  · rintro u (hu | hu)
    · rcases List.mem_append.mp (show u ∈ started ++ [t] from hu) with hu | hu
      · exact hs.expired u (.inl (hstarted ▸ hu))
      · exact List.mem_singleton.mp hu ▸ hexpired
    · exact hs.expired u (.inr (hwaiting ▸ List.mem_cons_of_mem _ hu))
  · rintro u (hu | hu)
    · obtain ⟨hasked, halike⟩ := hs.asked u (.inl (hold u hu))
      refine ⟨hasked, fun p hp heq => ?_⟩
      rcases List.mem_append.mp hp with hp | hp
      · exact halike p hp heq
      · obtain rfl := List.mem_singleton.mp hp
        exact absurd heq (sequence_of_started hcoherent (by simp) hu)
    · have hnodup := hcoherent.detached
      rw [List.map_append, List.nodup_append, List.map_append, List.nodup_append] at hnodup
      rcases List.mem_append.mp (show u ∈ started ++ [t] from hu) with hu | hu
      · obtain ⟨hasked, halike⟩ := hs.asked u (.inr (hstarted ▸ hu))
        refine ⟨hasked, fun p hp heq => ?_⟩
        rcases List.mem_append.mp hp with hp | hp
        · exact halike p hp heq
        · obtain rfl := List.mem_singleton.mp hp
          exact absurd heq.symm (hnodup.1.2.2 _ (List.mem_map_of_mem hu) _ (by simp))
      · obtain rfl := List.mem_singleton.mp hu
        refine ⟨⟨t₀, ht₀, hid, hinterval, hrepeats, htime⟩, fun p hp heq => ?_⟩
        rcases List.mem_append.mp hp with hp | hp
        · exact halike p hp heq
        · rw [List.mem_singleton.mp hp]
          exact ⟨rfl, rfl⟩
  · intro u hu p hp heq
    rcases List.mem_append.mp hp with hp | hp
    · exact hs.spaced u (hold u hu) p hp heq
    · obtain rfl := List.mem_singleton.mp hp
      exact absurd heq (sequence_of_started hcoherent (by simp) hu)
  · rintro u (hu | hu)
    · exact hs.ranged u (.inl (hold u hu))
    · rcases List.mem_append.mp (show u ∈ started ++ [t] from hu) with hu | hu
      · exact hs.ranged u (.inr (hstarted ▸ hu))
      · exact List.mem_singleton.mp hu ▸ hs.ranged t (.inl hnext)
  · intro p hp
    rcases List.mem_append.mp hp with hp | hp
    · exact hs.known p hp
    · obtain rfl := List.mem_singleton.mp hp
      exact ⟨hcoherent.bound t (.inr (.inr (by simp))), le_rfl⟩
  · intro p hp
    rcases List.mem_append.mp hp with hp | hp
    · exact hs.calls p hp
    · obtain rfl := List.mem_singleton.mp hp
      exact ⟨hexpired, t₀, ht₀, hid, hinterval, hrepeats, htime.elim (·.trans hexpired) id⟩
  · refine List.pairwise_append.mpr ⟨hs.apart, List.pairwise_singleton _ _, ?_⟩
    intro p hp q hq
    obtain rfl := List.mem_singleton.mp hq
    refine ⟨(hs.known p hp).2, fun heq => ?_⟩
    obtain ⟨hagain, hle⟩ := hs.spaced t hnext p hp heq
    obtain ⟨hr, hi⟩ := halike p hp heq
    exact ⟨hr.trans hagain, by rw [hi]; exact hle.trans hexpired⟩

/-- The repeating timers of the batch are put back. -/
theorem OnTime.endRead (hs : s.OnTime) {started : List Timer}
    (batch : s.run.batch = some ⟨now, started, []⟩)
    (hcoherent : ({ s.run with
      queue := s.run.queue.endRead started now, batch := none } : TimerRun).toLoop.Coherent [])
    (hfits : ∀ t ∈ started, t.repeats = true → t.id ∉ s.run.queue.cancelingTimerSet →
      Checked.InRange 64 (now + t.interval)) :
    OnTime ⟨{ s.run with queue := s.run.queue.endRead started now, batch := none }, s.clock,
      s.created, s.ran⟩ := by
  obtain rfl : now = s.clock := hs.now _ batch
  have hstarted : s.run.started = started := by simp [TimerRun.started, batch]
  have hdetached : s.run.toLoop.Coherent started := by
    simpa [TimerRun.started, TimerRun.waiting, batch] using hs.coherent
  obtain ⟨-, -, hmem⟩ := TimerLoop.end_coherent hdetached s.clock
  -- a timer that is pending now was so before, or has been put back
  have hcases : ∀ u, Pending { s.run with
      queue := s.run.queue.endRead started s.clock, batch := none } u →
      Pending s.run u ∨ ∃ t ∈ started, t.repeats = true ∧
        t.id ∉ s.run.queue.cancelingTimerSet ∧ u = t.restart s.clock := by
    rintro u (hu | hu | hu)
    · rcases (hmem u).mp hu with hu | ⟨t, ht, hrepeats, hkept, rfl⟩
      · exact .inl (.inl hu)
      · exact .inr ⟨t, ht, hrepeats, hkept, rfl⟩
    · exact .inl (.inr (.inl hu))
    · cases hu
  refine ⟨hcoherent, by simp, by simp [TimerRun.started, TimerRun.waiting], ?_, ?_, ?_, hs.known,
    hs.issued, hs.distinct, hs.calls, hs.apart⟩
  · rintro u (hu | hu)
    · rcases hcases u hu with hu | ⟨t, ht, hrepeats, -, rfl⟩
      · exact hs.asked u (.inl hu)
      · obtain ⟨⟨t₀, ht₀, hid, hinterval, hrep, htime⟩, halike⟩ :=
          hs.asked t (.inr (hstarted ▸ ht))
        refine ⟨⟨t₀, ht₀, hid, hinterval, hrep, .inr ?_⟩, halike⟩
        exact htime.elim (·.trans (hs.expired t (.inl (hstarted ▸ ht)))) id
    · cases hu
  · intro u hu p hp heq
    rcases hcases u hu with hu | ⟨t, ht, hrepeats, -, rfl⟩
    · exact hs.spaced u hu p hp heq
    · have hle := (hs.known p hp).2
      refine ⟨hrepeats, ?_⟩
      simp only [Timer.restart, hrepeats, if_true]
      omega
  · rintro u (hu | hu)
    · rcases hcases u hu with hu | ⟨t, ht, hrepeats, hkept, rfl⟩
      · exact hs.ranged u (.inl hu)
      · simpa only [Timer.restart, hrepeats, if_true] using hfits t ht hrepeats hkept
    · cases hu

theorem OnTime.step (hs : s.OnTime) {a : TimerRun.Act} (fits : s.FitsInt64 a)
    (move : s.step a = some s') : s'.OnTime := by
  simp only [TimerHistory.step, Option.ite_none_right_eq_some, Option.map_eq_some_iff] at move
  obtain ⟨hclock, r, hr, rfl⟩ := move
  have hcoherent := (TimerRun.step_move hr).coherent [] hs.coherent
  cases a with
  | addTimer addr expiration interval repeats =>
      simp only [TimerRun.step, Option.ite_none_right_eq_some, Option.some.injEq] at hr
      obtain ⟨-, rfl⟩ := hr
      have hnew := hs.coherent.fresh
        (t := s.run.toLoop.newTimer addr expiration interval repeats) rfl
      obtain ⟨-, -, hmem⟩ := TimerQueue.insert_spec hs.coherent.rep hnew
      refine (List.append_nil s.ran).symm ▸ hs.quiet hcoherent rfl
        (.inr ⟨_, rfl, rfl, fits.1⟩) le_rfl ?_
      rintro u (hu | hu | hu)
      · rcases (hmem u).mp hu with rfl | hu
        · exact .inr List.mem_cons_self
        · exact .inl (.inl hu)
      · exact .inl (.inr (.inl hu))
      · exact .inl (.inr (.inr hu))
  | addTimerFrom addr expiration interval repeats =>
      obtain rfl := Option.some.inj hr
      refine (List.append_nil s.ran).symm ▸ hs.quiet hcoherent rfl
        (.inr ⟨_, rfl, rfl, fits.1⟩) le_rfl ?_
      rintro u (hu | hu | hu)
      · exact .inl (.inl hu)
      · rcases List.mem_append.mp hu with hu | hu
        · exact .inl (.inr (.inl hu))
        · cases List.mem_singleton.mp hu
          exact .inr List.mem_cons_self
      · exact .inl (.inr (.inr hu))
  | cancelTimer timerId =>
      simp only [TimerRun.step, Option.ite_none_right_eq_some, Option.some.injEq] at hr
      obtain ⟨-, rfl⟩ := hr
      refine (List.append_nil s.ran).symm ▸ hs.quiet hcoherent rfl (.inl rfl) le_rfl ?_
      exact fun u hu => .inl (hs.cancelled timerId hu)
  | cancelTimerFrom timerId =>
      simp only [TimerRun.step, Option.ite_none_right_eq_some, Option.some.injEq] at hr
      obtain ⟨-, rfl⟩ := hr
      refine (List.append_nil s.ran).symm ▸ hs.quiet hcoherent rfl (.inl rfl) le_rfl ?_
      rintro u (hu | hu | hu)
      · exact .inl (.inl hu)
      · exact .inl (.inr (.inl (by simpa using hu)))
      · exact .inl (.inr (.inr hu))
  | elsewhere =>
      obtain rfl := Option.some.inj hr
      refine (List.append_nil s.ran).symm ▸ hs.quiet hcoherent rfl (.inl rfl) (Nat.le_succ _) ?_
      exact fun u hu => .inl hu
  | runFunctor =>
      cases TimerRun.step_move hr with
      | @runAdd t functors idle head =>
          have hadd : .add t ∈ s.run.functors := head ▸ List.mem_cons_self
          obtain ⟨-, -, hmem⟩ := TimerQueue.insert_spec hs.coherent.rep
            (hs.coherent.fresh_queued (TimerRun.mem_queued.mpr hadd))
          refine (List.append_nil s.ran).symm ▸ hs.quiet hcoherent rfl (.inl rfl) le_rfl ?_
          rintro u (hu | hu | hu)
          · rcases (hmem u).mp hu with rfl | hu
            · exact .inl (.inr (.inl hadd))
            · exact .inl (.inl hu)
          · exact .inl (.inr (.inl (head ▸ List.mem_cons_of_mem _ hu)))
          · exact .inl (.inr (.inr hu))
      | @runCancel timerId functors idle head =>
          refine (List.append_nil s.ran).symm ▸ hs.quiet hcoherent rfl (.inl rfl) le_rfl ?_
          rintro u (hu | hu | hu)
          · exact .inl (hs.cancelled timerId (.inl hu))
          · exact .inl (.inr (.inl (head ▸ List.mem_cons_of_mem _ hu)))
          · exact .inl (.inr (.inr hu))
  | beginRead now =>
      cases TimerRun.step_move hr with
      | beginRead idle =>
          simpa [TimerRun.made, TimerRun.called, readClock] using hs.beginRead hclock hcoherent
  | runNext =>
      cases TimerRun.step_move hr with
      | runNext batch =>
          simpa [TimerRun.made, TimerRun.called, readClock, batch] using
            hs.runNext batch hcoherent
  | endRead =>
      cases TimerRun.step_move hr with
      | endRead batch =>
          have hsums := fits _ (Option.mem_def.mpr batch)
          simpa [TimerRun.made, TimerRun.called, readClock] using
            hs.endRead batch hcoherent hsums

end

end TimerHistory

end Proactor
