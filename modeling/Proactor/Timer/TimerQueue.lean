import Mathlib.Data.Finset.Card
import Mathlib.Data.Int.Order.Basic
import Mathlib.Data.Prod.Lex
import Proactor.Core.OrderedMap

/-!
# `TimerQueue`

The timers of a loop, in two containers that have to agree: `timer_list_`, a map from
(expiration, sequence) to the timer it owns, and `active_timer_set_`, the pairs (pointer, sequence)
by which a `TimerId` finds its timer.  A third set remembers the timers that were cancelled while
their batch was detached from both.

* `TimerQueue.insert`, `erase`, `addTimerInLoop`, `cancelTimerInLoop`, `getExpiredTimers`,
  `reset` — the functions of `src/TimerQueue.cc` that do not call back.
* `TimerQueue.Rep` — the two containers hold the same timers.

Times are microseconds.  `interval` is what `addTime` adds, the seconds of the source truncated to
microseconds, and `repeats` is `interval_ > 0.0`, which may hold of an interval that truncates to
zero.  A failed assertion, or an access through a pointer whose timer is gone, sets `failed`.
-/

namespace Proactor

/-- The pair (`Timer*`, sequence), which is also what a `TimerId` is. -/
structure ActiveTimer where
  timer : ℕ
  sequence : ℕ
  deriving DecidableEq, Repr

/-- The key of `timer_list_`. -/
abbrev TimerEntry := ℤ ×ₗ ℕ

structure Timer where
  /-- Its address. -/
  addr : ℕ
  expiration : ℤ
  interval : ℤ
  repeats : Bool
  sequence : ℕ
  deriving DecidableEq, Repr

namespace Timer

def entry (t : Timer) : TimerEntry := toLex (t.expiration, t.sequence)

def id (t : Timer) : ActiveTimer := ⟨t.addr, t.sequence⟩

/-- `restart`; `invaild()` is the time `0`.  The source adds 64-bit integers, and the sum is this
one as long as it has 64 bits. -/
def restart (now : ℤ) (t : Timer) : Timer :=
  { t with expiration := if t.repeats then now + t.interval else 0 }

end Timer

structure TimerQueue where
  timerList : List (TimerEntry × Timer)
  activeTimerSet : Finset ActiveTimer
  cancelingTimerSet : Finset ActiveTimer
  isRunningCallback : Bool
  failed : Bool
  deriving DecidableEq

namespace TimerQueue

/-- An empty queue. -/
def create : TimerQueue where
  timerList := []
  activeTimerSet := ∅
  cancelingTimerSet := ∅
  isRunningCallback := false
  failed := false

/-- An `assert`. -/
def check (p : Bool) (q : TimerQueue) : TimerQueue := { q with failed := q.failed || !p }

/-- The assertion on the sizes of the two containers. -/
def checkSizes (q : TimerQueue) : TimerQueue :=
  q.check (q.timerList.length = q.activeTimerSet.card)

/-- The timers in the queue, in the order of their keys. -/
def timers (q : TimerQueue) : List Timer := q.timerList.map Prod.snd

/-- `insert`.  Its result, whether the first timer has changed, is used by nobody. -/
def insert (t : Timer) (q : TimerQueue) : TimerQueue :=
  let q := q.checkSizes
  let success : Bool := t.id ∉ q.activeTimerSet
  let q := { q with
    timerList := OrderedMap.insert t.entry t q.timerList
    activeTimerSet := Insert.insert t.id q.activeTimerSet }
  (q.check success).checkSizes

/-- `erase`, with whether the timer was there.  The key is read through the pointer. -/
def erase (del : ActiveTimer) (q : TimerQueue) : TimerQueue × Bool :=
  if del ∈ q.activeTimerSet then
    match q.timers.find? fun t => t.id = del with
    | some t =>
        ({ q with
          activeTimerSet := q.activeTimerSet.erase del
          timerList := OrderedMap.erase t.entry q.timerList }, true)
    | none => ({ q with failed := true }, true)
  else (q, false)

def addTimerInLoop (t : Timer) (q : TimerQueue) : TimerQueue := q.insert t

def cancelTimerInLoop (timerId : ActiveTimer) (q : TimerQueue) : TimerQueue :=
  let q := q.checkSizes
  let (q', erased) := q.erase timerId
  let q' := if !erased && q'.isRunningCallback then
      { q' with cancelingTimerSet := Insert.insert timerId q'.cancelingTimerSet }
    else q'
  q'.checkSizes

/-- The keys within the edge `(now, LLONG_MAX)` of `getExpiredTimers`: no sequence is beyond it. -/
def within (now : ℤ) (k : TimerEntry) : Bool := (ofLex k).1 ≤ now

theorem within_entry {now : ℤ} {t : Timer} : within now t.entry = true ↔ t.expiration ≤ now :=
  decide_eq_true_iff

theorem within_mono {now : ℤ} (a b : TimerEntry) (hab : a ≤ b) (hb : within now b = true) :
    within now a = true := by
  simp only [within, decide_eq_true_eq] at *
  have := Prod.Lex.monotone_fst _ _ hab
  exact le_trans this hb

def getExpiredTimers (now : ℤ) (q : TimerQueue) : TimerQueue × List Timer :=
  let q := q.checkSizes
  let expired := OrderedMap.upTo (within now) q.timerList
  let rest := OrderedMap.above (within now) q.timerList
  let q := q.check (match rest with
    | [] => true
    | e :: _ => now < e.2.expiration)
  ({ q with
    timerList := rest
    activeTimerSet := q.activeTimerSet \ (expired.map fun e => e.2.id).toFinset },
    expired.map Prod.snd)

/-- One turn of the loop in `reset`. -/
def resetOne (now : ℤ) (q : TimerQueue) (t : Timer) : TimerQueue :=
  if t.repeats && t.id ∉ q.cancelingTimerSet then q.insert (t.restart now) else q

def reset (expired : List Timer) (now : ℤ) (q : TimerQueue) : TimerQueue :=
  expired.foldl (resetOne now) q

/-- The test of the early return of `handleRead`. -/
def nothingExpired (now : ℤ) (q : TimerQueue) : Bool :=
  match q.timerList with
  | [] => true
  | e :: _ => now < (ofLex e.1).1

/-- `handleRead` up to the first callback: the expired timers are detached. -/
def beginRead (now : ℤ) (q : TimerQueue) : TimerQueue × List Timer :=
  let (q, expired) := q.checkSizes.getExpiredTimers now
  ({ q with cancelingTimerSet := ∅, isRunningCallback := true }, expired)

/-- `handleRead` after the last callback. -/
def endRead (expired : List Timer) (now : ℤ) (q : TimerQueue) : TimerQueue :=
  (({ q with isRunningCallback := false } : TimerQueue).reset expired now).checkSizes

/-! ## The two containers -/

/-- **The representation invariant**: both containers hold the same timers, each under its own key,
and no two of them have the same sequence. -/
structure Rep (q : TimerQueue) : Prop where
  sorted : OrderedMap.Sorted q.timerList
  keyed : ∀ e ∈ q.timerList, e.1 = e.2.entry
  active : q.activeTimerSet = (q.timers.map Timer.id).toFinset
  distinct : (q.timers.map Timer.sequence).Nodup
  noAssert : q.failed = false

section

variable {q : TimerQueue} {t : Timer} {del : ActiveTimer} {now : ℤ}

theorem create_rep : create.Rep := ⟨List.Pairwise.nil, nofun, rfl, List.nodup_nil, rfl⟩

/-- Fields the invariant does not see. -/
theorem Rep.keep {r : TimerQueue} (hs : q.Rep) (hlist : r.timerList = q.timerList := by rfl)
    (hactive : r.activeTimerSet = q.activeTimerSet := by rfl)
    (hfailed : r.failed = q.failed := by rfl) : r.Rep where
  sorted := hlist ▸ hs.sorted
  keyed := hlist ▸ hs.keyed
  active := by
    rw [hactive, timers, hlist]
    exact hs.active
  distinct := by
    rw [timers, hlist]
    exact hs.distinct
  noAssert := hfailed.trans hs.noAssert

theorem check_of_true {p : Bool} (h : p = true) : q.check p = q := by
  simp [check, h]

theorem mem_timers : t ∈ q.timers ↔ ∃ e ∈ q.timerList, e.2 = t := by
  simp [timers, List.mem_map]

theorem Rep.mem_active (hs : q.Rep) : del ∈ q.activeTimerSet ↔ ∃ t ∈ q.timers, t.id = del := by
  simp [hs.active]

/-- A sequence names at most one timer of the queue. -/
theorem Rep.eq_of_sequence (hs : q.Rep) {u : Timer} (ht : t ∈ q.timers) (hu : u ∈ q.timers)
    (h : t.sequence = u.sequence) : t = u := List.inj_on_of_nodup_map hs.distinct ht hu h

theorem nodup_ids {l : List Timer} (h : (l.map Timer.sequence).Nodup) : (l.map Timer.id).Nodup := by
  refine List.Nodup.of_map ActiveTimer.sequence ?_
  rw [List.map_map]
  exact h

theorem Rep.card (hs : q.Rep) : q.timerList.length = q.activeTimerSet.card := by
  rw [hs.active, List.toFinset_card_of_nodup (nodup_ids hs.distinct)]
  simp [timers]

/-- The size assertions hold. -/
theorem Rep.sizes (hs : q.Rep) : q.checkSizes = q := by
  refine check_of_true ?_
  simp only [hs.card, decide_true]

/-- The timers after an insertion under a new sequence. -/
theorem Rep.perm_insert (hs : q.Rep) (hnew : t.sequence ∉ q.timers.map Timer.sequence) :
    ((OrderedMap.insert t.entry t q.timerList).map Prod.snd).Perm (t :: q.timers) := by
  refine (OrderedMap.perm_insert fun e he hk => hnew ?_).map Prod.snd
  have hseq : e.2.sequence = t.sequence := by
    have h := (hs.keyed e he).symm.trans hk
    exact (Prod.mk.inj (congrArg ofLex h)).2
  exact List.mem_map.mpr ⟨e.2, mem_timers.mpr ⟨e, he, rfl⟩, hseq⟩

/-- **`insert` adds the timer**, when its sequence is new: no assertion fails and no entry is
overwritten. -/
theorem insert_spec (hs : q.Rep) (hnew : t.sequence ∉ q.timers.map Timer.sequence) :
    q.insert t = { q with
      timerList := OrderedMap.insert t.entry t q.timerList
      activeTimerSet := Insert.insert t.id q.activeTimerSet } ∧
    (q.insert t).Rep ∧ ∀ u, u ∈ (q.insert t).timers ↔ u = t ∨ u ∈ q.timers := by
  have hperm := hs.perm_insert hnew
  have hrep : ({ q with
      timerList := OrderedMap.insert t.entry t q.timerList
      activeTimerSet := Insert.insert t.id q.activeTimerSet } : TimerQueue).Rep := by
    refine ⟨hs.sorted.insert, fun e he => ?_, ?_, ?_, hs.noAssert⟩
    · rcases OrderedMap.mem_of_mem_insert he with rfl | he
      · rfl
      · exact hs.keyed e he
    · show Insert.insert t.id q.activeTimerSet = _
      rw [timers, List.toFinset_eq_of_perm _ _ (hperm.map Timer.id), hs.active]
      simp
    · exact (hperm.map Timer.sequence).nodup_iff.mpr (List.nodup_cons.mpr ⟨hnew, hs.distinct⟩)
  have hfresh : (decide (t.id ∉ q.activeTimerSet)) = true := by
    simp only [hs.mem_active, decide_eq_true_eq, not_exists, not_and]
    intro u hu hid
    exact hnew (List.mem_map.mpr ⟨u, hu, congrArg ActiveTimer.sequence hid⟩)
  have heq : q.insert t = { q with
      timerList := OrderedMap.insert t.entry t q.timerList
      activeTimerSet := Insert.insert t.id q.activeTimerSet } := by
    simp only [insert, hs.sizes, check_of_true hfresh]
    exact hrep.sizes
  refine ⟨heq, heq ▸ hrep, fun u => ?_⟩
  rw [heq]
  exact hperm.mem_iff.trans List.mem_cons

/-- The pointer of an active timer leads to that timer. -/
theorem Rep.find (hs : q.Rep) (ht : t ∈ q.timers) :
    q.timers.find? (fun u => u.id = t.id) = some t := by
  cases hfind : q.timers.find? fun u => u.id = t.id with
  | none =>
      rw [List.find?_eq_none] at hfind
      exact absurd (hfind t ht) (by simp)
  | some u =>
      have hid : u.id = t.id := by simpa using List.find?_some hfind
      have hu := List.mem_of_find?_eq_some hfind
      rw [hs.eq_of_sequence hu ht (congrArg ActiveTimer.sequence hid)]

/-- Two timers of the queue have the same key only if they are the same. -/
theorem Rep.entry_eq (hs : q.Rep) {u : Timer} (ht : t ∈ q.timers) (hu : u ∈ q.timers)
    (h : u.entry = t.entry) : u = t :=
  hs.eq_of_sequence hu ht (Prod.mk.inj (congrArg ofLex h)).2

/-- **`erase` takes the timer out of both containers or of neither.** -/
theorem erase_spec (hs : q.Rep) (del : ActiveTimer) :
    (q.erase del).1.Rep ∧ (∀ u, u ∈ (q.erase del).1.timers ↔ u ∈ q.timers ∧ u.id ≠ del) ∧
      ((q.erase del).2 = true ↔ ∃ t ∈ q.timers, t.id = del) ∧
      (q.erase del).1.isRunningCallback = q.isRunningCallback ∧
      (q.erase del).1.cancelingTimerSet = q.cancelingTimerSet := by
  unfold erase
  by_cases hmem : del ∈ q.activeTimerSet
  · obtain ⟨t, ht, rfl⟩ := hs.mem_active.mp hmem
    rw [if_pos hmem, hs.find ht]
    -- the entry that goes is the one of `t`, and nobody else has its key or its id
    have hsub : (OrderedMap.erase t.entry q.timerList).Sublist q.timerList := List.filter_sublist
    have htimers : ∀ u, u ∈ (OrderedMap.erase t.entry q.timerList).map Prod.snd ↔
        u ∈ q.timers ∧ u.id ≠ t.id := by
      intro u
      rw [List.mem_map]
      constructor
      · rintro ⟨e, he, rfl⟩
        obtain ⟨he, hne⟩ := OrderedMap.mem_erase.mp he
        refine ⟨mem_timers.mpr ⟨e, he, rfl⟩, fun hid => hne ?_⟩
        rw [hs.keyed e he, hs.eq_of_sequence (mem_timers.mpr ⟨e, he, rfl⟩) ht
          (congrArg ActiveTimer.sequence hid)]
      · rintro ⟨hu, hne⟩
        obtain ⟨e, he, rfl⟩ := mem_timers.mp hu
        refine ⟨e, OrderedMap.mem_erase.mpr ⟨he, fun hk => hne ?_⟩, rfl⟩
        rw [hs.entry_eq ht hu ((hs.keyed e he).symm.trans hk)]
    refine ⟨⟨hs.sorted.erase, fun e he => hs.keyed e (hsub.subset he), ?_, ?_, hs.noAssert⟩,
      htimers, ⟨fun _ => ⟨t, ht, rfl⟩, fun _ => rfl⟩, rfl, rfl⟩
    · ext id
      simp only [hs.active, Finset.mem_erase, List.mem_toFinset, List.mem_map]
      constructor
      · rintro ⟨hne, u, hu, rfl⟩
        exact ⟨u, (htimers u).mpr ⟨hu, hne⟩, rfl⟩
      · rintro ⟨u, hu, rfl⟩
        obtain ⟨hu, hne⟩ := (htimers u).mp hu
        exact ⟨hne, u, hu, rfl⟩
    · exact hs.distinct.sublist ((hsub.map _).map _)
  · rw [if_neg hmem]
    have hnone : ¬∃ t ∈ q.timers, t.id = del := fun h => hmem (hs.mem_active.mpr h)
    refine ⟨hs, fun u => ?_, ⟨nofun, fun h => absurd h hnone⟩, rfl, rfl⟩
    exact ⟨fun hu => ⟨hu, fun hid => hnone ⟨u, hu, hid⟩⟩, fun h => h.1⟩

/-- **`cancelTimerInLoop`** takes the timer out of the queue; when it is not there and a batch is
being run, it is remembered as cancelled. -/
theorem cancelTimerInLoop_spec (hs : q.Rep) (del : ActiveTimer) :
    (q.cancelTimerInLoop del).Rep ∧
      (∀ u, u ∈ (q.cancelTimerInLoop del).timers ↔ u ∈ q.timers ∧ u.id ≠ del) ∧
      (q.cancelTimerInLoop del).isRunningCallback = q.isRunningCallback ∧
      ∀ id, id ∈ (q.cancelTimerInLoop del).cancelingTimerSet ↔ id ∈ q.cancelingTimerSet ∨
        id = del ∧ q.isRunningCallback = true ∧ ∀ t ∈ q.timers, t.id ≠ del := by
  obtain ⟨hrep, htimers, hfound, hrunning, hcanceling⟩ := erase_spec hs del
  have heq : q.cancelTimerInLoop del =
      if !(q.erase del).2 && (q.erase del).1.isRunningCallback then
        { (q.erase del).1 with
          cancelingTimerSet := Insert.insert del (q.erase del).1.cancelingTimerSet }
      else (q.erase del).1 := by
    simp only [cancelTimerInLoop, hs.sizes]
    split
    · exact (hrep.keep (r := { (q.erase del).1 with
        cancelingTimerSet := Insert.insert del (q.erase del).1.cancelingTimerSet })).sizes
    · exact hrep.sizes
  rw [heq]
  have hnone : (q.erase del).2 = false ↔ ∀ t ∈ q.timers, t.id ≠ del := by
    rw [← Bool.not_eq_true, hfound]
    simp
  split
  · rename_i hcond
    rw [Bool.and_eq_true, Bool.not_eq_true', hrunning, hnone] at hcond
    refine ⟨hrep.keep, htimers, hrunning, fun id => ?_⟩
    simp only [Finset.mem_insert, hcanceling]
    constructor
    · rintro (h | h)
      · exact .inr ⟨h, hcond.2, hcond.1⟩
      · exact .inl h
    · rintro (h | h)
      · exact .inr h
      · exact .inl h.1
  · rename_i hcond
    rw [Bool.and_eq_true, Bool.not_eq_true', hrunning, hnone] at hcond
    refine ⟨hrep, htimers, hrunning, fun id => ?_⟩
    rw [hcanceling]
    exact ⟨.inl, fun h => h.resolve_right fun h => hcond ⟨h.2.2, h.2.1⟩⟩

/-- The timers of the queue come in increasing order of (expiration, sequence). -/
theorem Rep.increasing (hs : q.Rep) : q.timers.Pairwise fun t u => t.entry < u.entry := by
  refine List.pairwise_map.mpr (hs.sorted.imp_of_mem fun ha hb h => ?_)
  rwa [hs.keyed _ ha, hs.keyed _ hb] at h

/-- What the search for the edge leaves behind it has expired. -/
theorem Rep.expired_of_mem (hs : q.Rep) {e : TimerEntry × Timer}
    (he : e ∈ OrderedMap.upTo (within now) q.timerList) : e.2.expiration ≤ now := by
  have hwithin := OrderedMap.of_mem_upTo he
  rwa [hs.keyed e ((List.takeWhile_prefix _).subset he), within_entry] at hwithin

/-- What it has before it has not. -/
theorem Rep.later_of_mem (hs : q.Rep) {e : TimerEntry × Timer}
    (he : e ∈ OrderedMap.above (within now) q.timerList) : now < e.2.expiration := by
  have hlate := hs.sorted.of_mem_above within_mono he
  rwa [hs.keyed e ((List.dropWhile_suffix _).subset he), ← Bool.not_eq_true, within_entry,
    not_le] at hlate

/-- The queue in the middle of `getExpiredTimers`, when the expired entries are gone. -/
theorem getExpiredTimers_eq (hs : q.Rep) :
    q.getExpiredTimers now =
      ({ q with
        timerList := OrderedMap.above (within now) q.timerList
        activeTimerSet := q.activeTimerSet \
          ((OrderedMap.upTo (within now) q.timerList).map fun e => e.2.id).toFinset },
        (OrderedMap.upTo (within now) q.timerList).map Prod.snd) := by
  have hedge : (match OrderedMap.above (within now) q.timerList with
      | [] => true
      | e :: _ => decide (now < e.2.expiration)) = true := by
    split
    · rfl
    · rename_i e l habove
      exact decide_eq_true (hs.later_of_mem (by simp [habove]))
  simp only [getExpiredTimers, hs.sizes, check_of_true hedge]

/-- **`handleRead` detaches what has expired**: the queue is cut into the timers up to `now` and
those after it, and no cancellation of an earlier batch is left. -/
theorem beginRead_spec (hs : q.Rep) (now : ℤ) :
    (q.beginRead now).1.Rep ∧ q.timers = (q.beginRead now).2 ++ (q.beginRead now).1.timers ∧
      (∀ t ∈ (q.beginRead now).2, t.expiration ≤ now) ∧
      (∀ t ∈ (q.beginRead now).1.timers, now < t.expiration) ∧
      (q.beginRead now).1.cancelingTimerSet = ∅ ∧
      (q.beginRead now).1.isRunningCallback = true := by
  have happend : q.timers = (OrderedMap.upTo (within now) q.timerList).map Prod.snd ++
      (OrderedMap.above (within now) q.timerList).map Prod.snd := by
    rw [← List.map_append, OrderedMap.upTo_append_above, timers]
  have hnodup := hs.distinct
  rw [happend, List.map_append] at hnodup
  have hsuffix : OrderedMap.above (within now) q.timerList ⊆ q.timerList :=
    (List.dropWhile_suffix _).subset
  simp only [beginRead, hs.sizes, getExpiredTimers_eq hs]
  refine ⟨⟨hs.sorted.sublist (List.dropWhile_suffix _).sublist,
    fun e he => hs.keyed e (hsuffix he), ?_, (List.nodup_append.mp hnodup).2.1, hs.noAssert⟩,
    happend, ?_, ?_, trivial, trivial⟩
  · -- what is left of the set are the ids of the later timers
    have hids : (q.timers.map Timer.id).toFinset = _ := congrArg
      (fun l : List Timer => (l.map Timer.id).toFinset) happend
    have hnodupIds := nodup_ids hs.distinct
    rw [happend, List.map_append] at hnodupIds
    rw [hs.active, hids]
    ext id
    simp only [timers, List.map_append, List.toFinset_append, Finset.mem_sdiff, Finset.mem_union,
      List.mem_toFinset, List.map_map]
    constructor
    · rintro ⟨h | h, hnot⟩
      · exact absurd h hnot
      · exact h
    · intro h
      refine ⟨.inr h, fun h' => ?_⟩
      rw [List.map_map, List.map_map] at hnodupIds
      exact (List.nodup_append.mp hnodupIds).2.2 id h' id h rfl
  · intro t ht
    obtain ⟨e, he, rfl⟩ := List.mem_map.mp ht
    exact hs.expired_of_mem he
  · intro t ht
    obtain ⟨e, he, rfl⟩ := List.mem_map.mp ht
    exact hs.later_of_mem he

/-- One turn of `reset`, for a timer whose sequence is not in the queue. -/
theorem resetOne_spec (hs : q.Rep) (now : ℤ) (hnew : t.sequence ∉ q.timers.map Timer.sequence) :
    (resetOne now q t).Rep ∧
      (resetOne now q t).isRunningCallback = q.isRunningCallback ∧
      (resetOne now q t).cancelingTimerSet = q.cancelingTimerSet ∧
      ∀ u, u ∈ (resetOne now q t).timers ↔ u ∈ q.timers ∨
        t.repeats = true ∧ t.id ∉ q.cancelingTimerSet ∧ u = t.restart now := by
  unfold resetOne
  by_cases hback : t.repeats = true ∧ t.id ∉ q.cancelingTimerSet
  · obtain ⟨heq, hrep, hmem⟩ := insert_spec (t := t.restart now) hs hnew
    rw [if_pos (by simpa using hback)]
    refine ⟨hrep, by rw [heq], by rw [heq], fun u => ?_⟩
    rw [hmem, or_comm]
    exact or_congr_right ⟨fun h => ⟨hback.1, hback.2, h⟩, fun h => h.2.2⟩
  · rw [if_neg (by simpa using hback)]
    refine ⟨hs, rfl, rfl, fun u => ?_⟩
    exact ⟨.inl, fun h => h.resolve_right fun h => hback ⟨h.1, h.2.1⟩⟩

/-- The sequence of a timer that was put back is not the one of a later timer. -/
theorem resetOne_later (hs : q.Rep) (hnew : t.sequence ∉ q.timers.map Timer.sequence) {u : Timer}
    (hu : u.sequence ∉ q.timers.map Timer.sequence) (hne : u.sequence ≠ t.sequence) :
    u.sequence ∉ (resetOne now q t).timers.map Timer.sequence := by
  obtain ⟨-, -, -, hmem⟩ := resetOne_spec hs now hnew
  intro hseq
  obtain ⟨v, hv, heq⟩ := List.mem_map.mp hseq
  rcases (hmem v).mp hv with hv | ⟨-, -, rfl⟩
  · exact hu (List.mem_map.mpr ⟨v, hv, heq⟩)
  · exact hne heq.symm

/-- **`reset` puts back the repeating timers that were not cancelled.** -/
theorem reset_spec {expired : List Timer} (hs : q.Rep) (now : ℤ)
    (hexpired : (expired.map Timer.sequence).Nodup)
    (hnew : ∀ t ∈ expired, t.sequence ∉ q.timers.map Timer.sequence) :
    (q.reset expired now).Rep ∧
      (q.reset expired now).isRunningCallback = q.isRunningCallback ∧
      (q.reset expired now).cancelingTimerSet = q.cancelingTimerSet ∧
      ∀ u, u ∈ (q.reset expired now).timers ↔ u ∈ q.timers ∨
        ∃ t ∈ expired, t.repeats = true ∧ t.id ∉ q.cancelingTimerSet ∧ u = t.restart now := by
  induction expired generalizing q with
  | nil => exact ⟨hs, rfl, rfl, fun u => by simp [reset]⟩
  | cons t expired ih =>
      rw [List.map_cons, List.nodup_cons] at hexpired
      obtain ⟨hrep, hrun, hcancel, hmem⟩ := resetOne_spec hs now (hnew t List.mem_cons_self)
      have hlater : ∀ u ∈ expired, u.sequence ∉ (resetOne now q t).timers.map Timer.sequence := by
        intro u hu
        refine resetOne_later hs (hnew t List.mem_cons_self)
          (hnew u (List.mem_cons_of_mem t hu)) fun heq => ?_
        exact hexpired.1 (List.mem_map.mpr ⟨u, hu, heq⟩)
      obtain ⟨hrep', hrun', hcancel', hmem'⟩ := ih hrep hexpired.2 hlater
      refine ⟨hrep', hrun'.trans hrun, hcancel'.trans hcancel, fun u => ?_⟩
      show u ∈ (reset expired now (resetOne now q t)).timers ↔ _
      rw [hmem', hmem, hcancel, or_assoc]
      simp only [List.mem_cons, exists_eq_or_imp]

/-- `endRead` is `reset`, with the flag cleared before. -/
theorem endRead_spec {expired : List Timer} (hs : q.Rep) (now : ℤ)
    (hexpired : (expired.map Timer.sequence).Nodup)
    (hnew : ∀ t ∈ expired, t.sequence ∉ q.timers.map Timer.sequence) :
    (q.endRead expired now).Rep ∧ (q.endRead expired now).isRunningCallback = false ∧
      ∀ u, u ∈ (q.endRead expired now).timers ↔ u ∈ q.timers ∨
        ∃ t ∈ expired, t.repeats = true ∧ t.id ∉ q.cancelingTimerSet ∧ u = t.restart now := by
  have hflag : ({ q with isRunningCallback := false } : TimerQueue).Rep := hs.keep
  obtain ⟨hrep, hrun, -, hmem⟩ := reset_spec hflag now hexpired hnew
  rw [endRead, hrep.sizes]
  exact ⟨hrep, hrun, hmem⟩

end

end TimerQueue

end Proactor
