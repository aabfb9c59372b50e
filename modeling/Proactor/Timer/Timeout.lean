import Proactor.Core.Checked
import Proactor.Timer.Representation

/-!
# How long the loop sleeps

Before it waits for completions the loop asks the timer queue how long it may: `getTimeOutPeriod`
takes the time to the earliest timer, at least 100 microseconds, or ten seconds if that is less.

The comparison looks at seconds only, and it can, because ten seconds have no nanoseconds: a time
with fewer seconds is shorter, and every other one is at least as long (`timeout_exact`).  All
arithmetic is that of 64-bit integers, where an overflow has no result.
-/

namespace Proactor

open Transition

/-- `timespec`, and `__kernel_timespec`. -/
structure Timespec where
  tvSec : ℤ
  tvNsec : ℤ
  deriving DecidableEq, Repr

/-- The time in nanoseconds. -/
def Timespec.nanoseconds (ts : Timespec) : ℤ := ts.tvSec * 1000000000 + ts.tvNsec

def LONG_MAX : ℤ := 9223372036854775807

/-- The default time-out of the loop. -/
def kPollTimeS : Timespec := ⟨10, 0⟩

/-- The parameters are `when` and `now`; the casts of `chrono` divide and multiply 64-bit counts. -/
def howMuchTimeFromNow (due now : ℤ) : Option Timespec := do
  let microseconds ← Checked.sub 64 due now
  let microseconds := if microseconds < 100 then 100 else microseconds
  let tvSec ← Checked.div 64 microseconds 1000000
  let rest ← Checked.mod 64 microseconds 1000000
  let tvNsec ← Checked.mul 64 rest 1000
  return ⟨tvSec, tvNsec⟩

namespace TimerStore

def getRecentExpireTime (now : ℤ) (q : TimerStore) : Option Timespec :=
  match q.timerList with
  | [] => some ⟨LONG_MAX, 0⟩
  | e :: _ => howMuchTimeFromNow (ofLex e.1).1 now

/-- `IoUringLoop::getTimeOutPeriod`, with `time_out_`. -/
def getTimeOutPeriod (timeOut : Timespec) (now : ℤ) (q : TimerStore) : Option Timespec := do
  let expiredTime ← q.getRecentExpireTime now
  return if expiredTime.tvSec < timeOut.tvSec then expiredTime else timeOut

end TimerStore

/-! ## The time computed -/

/-- A point in time that is not negative, as a 64-bit count of microseconds. -/
def IsTimestamp (x : ℤ) : Prop := 0 ≤ x ∧ Checked.InRange 64 x

instance (x : ℤ) : Decidable (IsTimestamp x) := inferInstanceAs (Decidable (_ ∧ _))

/-- **What the time-out is for**: how many microseconds the loop may sleep, by the expirations of
its timers. -/
def maySleep (now : ℤ) (expirations : List ℤ) : ℤ :=
  match expirations.min? with
  | none => 10000000
  | some earliest => min 10000000 (max 100 (earliest - now))

section

variable {due now : ℤ} {q : TimerStore}

/-- **No step overflows**, and the split into seconds and nanoseconds loses nothing. -/
theorem howMuchTimeFromNow_spec (hdue : IsTimestamp due) (hnow : IsTimestamp now) :
    howMuchTimeFromNow due now
      = some ⟨max 100 (due - now) / 1000000, max 100 (due - now) % 1000000 * 1000⟩ := by
  have hclamp : (if due - now < 100 then 100 else due - now) = max 100 (due - now) := by
    split <;> omega
  have hrange : Checked.InRange 64 (max 100 (due - now)) := by
    have hlo := hdue.2.2
    have hnonneg := hnow.1
    constructor <;> omega
  have hpos : 0 ≤ max 100 (due - now) := by omega
  have hnsec : max 100 (due - now) % 1000000 * 1000 ≤ 1000000000 := by omega
  rw [howMuchTimeFromNow, Checked.sub_of_nonneg hdue.1 hdue.2 hnow.1 hnow.2]
  simp only [Option.bind_eq_bind, Option.bind_some, hclamp]
  rw [Checked.div_of_nonneg hpos hrange (by decide), Option.bind_some,
    Checked.mod_of_nonneg hpos hrange (by decide), Option.bind_some,
    Checked.mul_of_le (x := 1000000000) (by decide) (by omega) hnsec]
  rfl

/-- The first entry of the map has the earliest expiration. -/
theorem TimerStore.min_expiration (hs : q.abs.Rep) {e : TimerEntry × ℕ}
    {l : List (TimerEntry × ℕ)} (hlist : q.timerList = e :: l) :
    (q.abs.timers.map Timer.expiration).min? = some (ofLex e.1).1 := by
  have hkey : (ofLex e.1).1 = (q.timerAt e.2).expiration := by
    rw [TimerStore.Rep_keyed hs (by simp [hlist])]
    rfl
  have htimers : q.abs.timers = q.timerAt e.2 :: (l.map Prod.snd).map q.timerAt := by
    rw [TimerStore.abs_timers, TimerStore.pointers, hlist]
    rfl
  have hincreasing := hs.increasing
  rw [htimers, List.pairwise_cons] at hincreasing
  rw [hkey, htimers, List.min?_eq_some_iff]
  refine ⟨by simp, fun x hx => ?_⟩
  obtain ⟨t, ht, rfl⟩ := List.mem_map.mp hx
  rcases List.mem_cons.mp ht with rfl | ht
  · exact le_refl _
  · exact Prod.Lex.monotone_fst _ _ (le_of_lt (hincreasing.1 t ht))

/-- **`getTimeOutPeriod`**, for any queue whose containers agree. -/
theorem getTimeOutPeriod_spec (hs : q.abs.Rep) (hnow : IsTimestamp now)
    (htimers : ∀ t ∈ q.abs.timers, IsTimestamp t.expiration) :
    ∃ ts, q.getTimeOutPeriod kPollTimeS now = some ts ∧ 0 ≤ ts.tvNsec ∧ ts.tvNsec < 1000000000 ∧
      ts.nanoseconds = 1000 * maySleep now (q.abs.timers.map Timer.expiration) := by
  cases hlist : q.timerList with
  | nil =>
      have hnone : q.abs.timers = [] := by simp [TimerStore.abs_timers, TimerStore.pointers, hlist]
      refine ⟨kPollTimeS, ?_, by decide, by decide, ?_⟩
      · simp only [TimerStore.getTimeOutPeriod, TimerStore.getRecentExpireTime, hlist]
        rfl
      · rw [hnone]
        rfl
  | cons e l =>
      have hmin := TimerStore.min_expiration hs hlist
      set due := (ofLex e.1).1 with hdue
      have hstamp : IsTimestamp due := by
        obtain ⟨t, ht, heq⟩ := List.mem_map.mp (List.min?_mem hmin)
        exact heq ▸ htimers t ht
      simp only [TimerStore.getTimeOutPeriod, TimerStore.getRecentExpireTime, hlist, ← hdue,
        howMuchTimeFromNow_spec hstamp hnow, maySleep, hmin]
      refine ⟨_, rfl, ?_⟩
      -- fewer than ten seconds, or at least ten: the nanoseconds do not matter
      split
      · simp only [Timespec.nanoseconds, kPollTimeS] at *
        omega
      · simp only [Timespec.nanoseconds, kPollTimeS] at *
        omega

/-- A time-out is never shorter than 100 microseconds nor longer than ten seconds. -/
theorem maySleep_bounds (now : ℤ) (expirations : List ℤ) :
    100 ≤ maySleep now expirations ∧ maySleep now expirations ≤ 10000000 := by
  unfold maySleep
  split <;> omega

/-- **The loop never oversleeps a timer**: in every state reached and at every time, the time-out is
exactly the time to the earliest timer, between 100 microseconds and ten seconds. -/
theorem timeout_exact {s : StoreRun} (run : Reach StoreRun.step anyStep StoreRun.create s)
    (hnow : IsTimestamp now) (htimers : ∀ t ∈ s.queue.abs.timers, IsTimestamp t.expiration) :
    ∃ ts, s.queue.getTimeOutPeriod kPollTimeS now = some ts ∧
      0 ≤ ts.tvNsec ∧ ts.tvNsec < 1000000000 ∧ 100 * 1000 ≤ ts.nanoseconds ∧
      ts.nanoseconds = 1000 * maySleep now (s.queue.abs.timers.map Timer.expiration) := by
  have hrep : s.queue.abs.Rep := (StoreRun.reach_sound run).coherent.rep
  obtain ⟨ts, hts, hlo, hhi, heq⟩ := getTimeOutPeriod_spec hrep hnow htimers
  have hbounds := maySleep_bounds now (s.queue.abs.timers.map Timer.expiration)
  exact ⟨ts, hts, hlo, hhi, by omega, heq⟩

/-- A timer that expires a microsecond before the ten seconds are over, added after a later one. -/
theorem timeout_exact_boundary : ∃ s, Reach StoreRun.step anyStep StoreRun.create s ∧
    ∃ ts, s.queue.getTimeOutPeriod kPollTimeS 5 = some ts ∧
      ts.nanoseconds = 1000 * maySleep 5 (s.queue.abs.timers.map Timer.expiration) ∧
      maySleep 5 (s.queue.abs.timers.map Timer.expiration) = 9999999 := by
  obtain ⟨s, run, hs⟩ := exists_reach StoreRun.step anyStep StoreRun.create
    [.addTimer 1 12000000 0 false, .addTimer 2 10000004 0 false]
    (fun s => decide (s.queue.abs.timers.map Timer.expiration = [10000004, 12000000]))
    (by decide +kernel)
  have hlist := of_decide_eq_true hs
  have htimers : ∀ t ∈ s.queue.abs.timers, IsTimestamp t.expiration := by
    intro t ht
    have hmem : t.expiration ∈ [10000004, 12000000] := hlist ▸ List.mem_map_of_mem ht
    rcases List.mem_cons.mp hmem with h | h
    · rw [h]
      decide
    · rw [List.mem_singleton.mp h]
      decide
  have hnow : IsTimestamp 5 := by decide
  obtain ⟨ts, hts, -, -, -, heq⟩ := timeout_exact run hnow htimers
  exact ⟨s, run, ts, hts, heq, by rw [hlist]; decide⟩

-- an expiration in the past, and the last microsecond that counts
example : howMuchTimeFromNow 0 9223372036854775807 = some ⟨0, 100000⟩ ∧
    howMuchTimeFromNow 9223372036854775807 0 = some ⟨9223372036854, 775807000⟩ := by decide

end

end Proactor
