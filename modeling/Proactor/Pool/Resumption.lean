import Proactor.Pool.ThreadPool

/-!
# Which coroutines the pool resumes

The lambda of a worker has no loop: it takes one coroutine, resumes it and returns.  So a pool of
`n` threads resumes `n` coroutines, whatever the interleaving, and what is enqueued beyond that
stays in `tasks_`.

* `ThreadPool.Accounts` — each coroutine is in the queue or has been taken by one worker.
-/

namespace Proactor

open Transition

namespace ThreadPool

/-- The guard: the owner leaves `stop` to the destructor. -/
def NoStop (_ : ThreadPool) (a : Act) : Prop := a ≠ .stop

instance (s : ThreadPool) (a : Act) : Decidable (NoStop s a) :=
  inferInstanceAs (Decidable (a ≠ .stop))

/-- The coroutines the workers have taken. -/
def taken (s : ThreadPool) : List ℕ := s.workers.filterMap WorkerPc.taken?

/-- What the destructor has joined has exited. -/
def Joined (s : ThreadPool) : Prop :=
  match s.dtor with
  | .joining k => ∀ i < k, ∃ task, s.workers[i]? = some (.exited task)
  | .returned => ∀ w ∈ s.workers, ∃ task, w = .exited task
  | _ => True

/-- **The books of the pool**, for `n` threads. -/
structure Accounts (n : ℕ) (s : ThreadPool) : Prop where
  size : s.workers.length = n
  /-- Each coroutine waits or has been taken by one worker. -/
  once : (s.taken ++ s.tasks).Perm (List.range s.enqueued)
  /-- The last ones wait, in order. -/
  fifo : ∃ m ≤ s.enqueued, s.tasks = List.range' m (s.enqueued - m)
  resumed : s.resumed.Perm (s.workers.filterMap WorkerPc.resumed?)
  started : s.started = true ↔ s.dtor = .notBegun
  early : s.dtor = .notBegun → s.early = s.enqueued
  early_le : s.early ≤ s.enqueued
  /-- A worker leaves without a coroutine only when those of before the destructor are taken. -/
  idle : .exited none ∈ s.workers → s.dtor ≠ .notBegun ∧ ∀ k ∈ s.tasks, s.early ≤ k
  joined : s.Joined

section

variable {n : ℕ} {s s' : ThreadPool} {a : Act}

theorem filterMap_replicate_start {f : WorkerPc → Option ℕ} (hf : f .start = none) :
    (List.replicate n WorkerPc.start).filterMap f = [] := by
  rw [List.filterMap_eq_nil_iff]
  intro w hw
  rw [List.eq_of_mem_replicate hw, hf]

theorem create_accounts (n queueSize : ℕ) : (create n queueSize).Accounts n where
  size := List.length_replicate
  once := by simp [taken, create, filterMap_replicate_start (f := WorkerPc.taken?) rfl]
  fifo := ⟨0, Nat.le_refl 0, rfl⟩
  resumed := by simp [create, filterMap_replicate_start (f := WorkerPc.resumed?) rfl]
  started := ⟨fun _ => rfl, fun _ => rfl⟩
  early := fun _ => rfl
  early_le := Nat.le_refl 0
  idle := by
    intro h
    cases List.eq_of_mem_replicate h
  joined := trivial

/-- Joined threads stay joined when a worker that has not exited goes on. -/
theorem Joined.move (hs : s.Joined) {i : ℕ} {pc pc' : WorkerPc} (place : s.workers[i]? = some pc)
    (hpc : pc.hasExited = false) : (s.move i pc').Joined := by
  unfold Joined at *
  show match s.dtor with
    | .joining k => ∀ j < k, ∃ task, (s.workers.set i pc')[j]? = some (.exited task)
    | .returned => ∀ w ∈ s.workers.set i pc', ∃ task, w = .exited task
    | _ => True
  cases hdtor : s.dtor with
  | notBegun => trivial
  | stopped => trivial
  | joining k =>
      simp only [hdtor] at hs
      intro j hj
      obtain ⟨task, hplace⟩ := hs j hj
      refine ⟨task, Slots.getElem?_set_of_ne place hplace ?_⟩
      rintro rfl
      cases hpc
  | returned =>
      simp only [hdtor] at hs
      obtain ⟨task, rfl⟩ := hs pc (List.mem_of_getElem? place)
      cases hpc

/-- A worker that goes on without touching the queue: it has taken and resumed what it had. -/
theorem Accounts.move (hs : s.Accounts n) {i : ℕ} {pc pc' : WorkerPc}
    (place : s.workers[i]? = some pc) (hpc : pc.hasExited = false := by rfl)
    (hidle : pc' ≠ .exited none := by exact nofun)
    (htaken : pc'.taken? = pc.taken? := by rfl) (hresumed : pc'.resumed? = pc.resumed? := by rfl) :
    (s.move i pc').Accounts n where
  size := (List.length_set ..).trans hs.size
  once := by
    have h := hs.once
    unfold taken at *
    rwa [ThreadPool.move, Slots.filterMap_set_of_eq place htaken]
  fifo := hs.fifo
  resumed := by
    have h := hs.resumed
    rwa [ThreadPool.move, Slots.filterMap_set_of_eq place hresumed]
  started := hs.started
  early := hs.early
  early_le := hs.early_le
  idle := by
    intro h
    rcases List.mem_or_eq_of_mem_set h with h | h
    · exact hs.idle h
    · exact absurd h.symm hidle
  joined := hs.joined.move place hpc

/-- Steps of the callers and of `notify_one` that only change the counters. -/
theorem Accounts.keep {t : ThreadPool} (hs : s.Accounts n)
    (hworkers : t.workers = s.workers := by rfl) (htasks : t.tasks = s.tasks := by rfl)
    (hstarted : t.started = s.started := by rfl) (hdtor : t.dtor = s.dtor := by rfl)
    (henqueued : t.enqueued = s.enqueued := by rfl) (hearly : t.early = s.early := by rfl)
    (hresumed : t.resumed = s.resumed := by rfl) : t.Accounts n := by
  obtain ⟨size, once, fifo, resumed, started, early, early_le, idle, joined⟩ := hs
  unfold taken at once
  unfold Joined at joined
  rw [← hworkers] at size once resumed idle joined
  rw [← htasks] at once fifo idle
  rw [← henqueued] at once fifo early early_le
  rw [← hresumed] at resumed
  rw [← hdtor] at started early idle joined
  rw [← hstarted] at started
  rw [← hearly] at early early_le idle
  exact ⟨size, once, fifo, resumed, started, early, early_le, idle, joined⟩

/-- Popping the front of the queue. -/
theorem Accounts.take (hs : s.Accounts n) {i k : ℕ} {tasks : List ℕ}
    (place : s.workers[i]? = some .passed) (head : s.tasks = k :: tasks) :
    ({ s.move i (.took k) with tasks := tasks } : ThreadPool).Accounts n where
  size := (List.length_set ..).trans hs.size
  once := by
    have h := hs.once
    rw [head] at h
    have htaken : ((s.workers.set i (.took k)).filterMap WorkerPc.taken?).Perm (k :: s.taken) :=
      Slots.filterMap_set_of_none place rfl rfl
    exact (htaken.append_right tasks).trans (List.perm_middle.symm.trans h)
  fifo := by
    obtain ⟨m, hm, htasks⟩ := hs.fifo
    rw [head] at htasks
    have hlt : s.enqueued - m = s.enqueued - (m + 1) + 1 := by
      have hlen := congrArg List.length htasks
      simp only [List.length_cons, List.length_range'] at hlen
      omega
    rw [hlt, List.range'_succ, List.cons.injEq] at htasks
    exact ⟨m + 1, by show m + 1 ≤ s.enqueued; omega, htasks.2⟩
  resumed := by
    have h := hs.resumed
    rwa [← Slots.filterMap_set_of_eq (b := .took k) place rfl] at h
  started := hs.started
  early := hs.early
  early_le := hs.early_le
  idle := by
    intro h
    rcases List.mem_or_eq_of_mem_set h with h | h
    · obtain ⟨hbegun, htasks⟩ := hs.idle h
      exact ⟨hbegun, fun j hj => htasks j (head ▸ List.mem_cons_of_mem k hj)⟩
    · cases h
  joined := Joined.move hs.joined place rfl

/-- Resuming what was taken. -/
theorem Accounts.resume (hs : s.Accounts n) {i k : ℕ}
    (place : s.workers[i]? = some (.took k)) :
    ({ s.move i (.inTask k) with resumed := s.resumed ++ [k] } : ThreadPool).Accounts n where
  size := (List.length_set ..).trans hs.size
  once := by
    have h := hs.once
    unfold taken at *
    rwa [← Slots.filterMap_set_of_eq (b := .inTask k) place rfl] at h
  fifo := hs.fifo
  resumed := by
    refine (List.perm_append_comm.trans (hs.resumed.cons k)).trans ?_
    exact (Slots.filterMap_set_of_none (f := WorkerPc.resumed?) place rfl rfl).symm
  started := hs.started
  early := hs.early
  early_le := hs.early_le
  idle := by
    intro h
    rcases List.mem_or_eq_of_mem_set h with h | h
    · exact hs.idle h
    · cases h
  joined := Joined.move hs.joined place rfl

/-- Leaving an empty queue of a stopped pool. -/
theorem Accounts.leave (hs : s.Accounts n) {i : ℕ} (place : s.workers[i]? = some .passed)
    (empty : s.tasks = []) (stopped : s.started = false) :
    (s.move i (.exited none)).Accounts n where
  size := (List.length_set ..).trans hs.size
  once := by
    have h := hs.once
    unfold taken at *
    rwa [← Slots.filterMap_set_of_eq (b := .exited none) place rfl] at h
  fifo := hs.fifo
  resumed := by
    have h := hs.resumed
    rwa [← Slots.filterMap_set_of_eq (b := .exited none) place rfl] at h
  started := hs.started
  early := hs.early
  early_le := hs.early_le
  idle := by
    intro _
    refine ⟨fun hdtor => ?_, fun k hk => ?_⟩
    · exact absurd (hs.started.mpr hdtor) (by simp [stopped])
    · replace hk : k ∈ s.tasks := hk
      simp [empty] at hk
  joined := hs.joined.move place rfl

/-- Enqueueing one more. -/
theorem Accounts.push (hs : s.Accounts n) : s.push.Accounts n where
  size := hs.size
  once := by
    show (s.taken ++ (s.tasks ++ [s.enqueued])).Perm (List.range (s.enqueued + 1))
    rw [← List.append_assoc, List.range_succ]
    exact hs.once.append_right _
  fifo := by
    obtain ⟨m, hm, htasks⟩ := hs.fifo
    refine ⟨m, Nat.le_succ_of_le hm, ?_⟩
    show s.tasks ++ [s.enqueued] = List.range' m (s.enqueued + 1 - m)
    rw [Nat.succ_sub hm, List.range'_1_concat, htasks, Nat.add_sub_cancel' hm]
  resumed := hs.resumed
  started := hs.started
  early := by
    intro hdtor
    replace hdtor : s.dtor = .notBegun := hdtor
    show (if s.dtor = .notBegun then s.early + 1 else s.early) = s.enqueued + 1
    rw [if_pos hdtor, hs.early hdtor]
  early_le := by
    have := hs.early_le
    show (if s.dtor = .notBegun then s.early + 1 else s.early) ≤ s.enqueued + 1
    split <;> omega
  idle := by
    intro h
    obtain ⟨hbegun, htasks⟩ := hs.idle h
    refine ⟨hbegun, fun k hk => ?_⟩
    show (if s.dtor = .notBegun then s.early + 1 else s.early) ≤ k
    rw [if_neg hbegun]
    rcases List.mem_append.mp hk with hk | hk
    · exact htasks k hk
    · rw [List.mem_singleton.mp hk]
      exact hs.early_le
  joined := hs.joined

/-- `notify_all` moves nobody who has taken a coroutine. -/
theorem filterMap_notify {f : WorkerPc → Option ℕ} (hs : f .sleeping = none)
    (hn : f .notified = none) (l : List WorkerPc) :
    (l.map WorkerPc.notify).filterMap f = l.filterMap f := by
  rw [List.filterMap_map]
  refine List.filterMap_congr fun w _ => ?_
  cases w with
  | sleeping => exact hn.trans hs.symm
  | _ => rfl

theorem Accounts.notifyAll (hs : s.Accounts n) (hdtor : s.dtor = .stopped) :
    ({ s with workers := s.workers.map WorkerPc.notify, dtor := .joining 0 } :
      ThreadPool).Accounts n where
  size := (List.length_map ..).trans hs.size
  once := by
    have h := hs.once
    unfold taken at *
    rwa [← filterMap_notify (f := WorkerPc.taken?) rfl rfl] at h
  fifo := hs.fifo
  resumed := by
    have h := hs.resumed
    rwa [← filterMap_notify (f := WorkerPc.resumed?) rfl rfl] at h
  started := by
    have h := hs.started
    rw [hdtor] at h
    exact ⟨fun hst => (by cases h.mp hst), fun h' => (by cases h')⟩
  early := nofun
  early_le := hs.early_le
  idle := by
    intro h
    exact ⟨nofun, (hs.idle (mem_map_notify nofun h)).2⟩
  joined := fun i hi => absurd hi (Nat.not_lt_zero i)

theorem Move.accounts (h : Move s a s') (guard : NoStop s a) (hs : s.Accounts n) :
    s'.Accounts n := by
  cases h with
  | lock place waits free =>
      rcases waits with rfl | rfl
      · exact hs.move place
      · exact hs.move place
  | pass place => exact hs.move place
  | wait place => exact hs.move place
  | sleep place => exact hs.move place
  | leave place empty stopped => exact hs.leave place empty stopped
  | undefined place => exact hs.move place
  | take place head => exact hs.take place head
  | resume place => exact hs.resume place
  | finish place => exact hs.move place
  | spurious place => exact hs.move place
  | full => exact hs
  | ready => exact hs.keep
  | enqueue => exact hs.push
  | notifyNobody => exact hs.keep
  | notifyOne due place => exact Accounts.keep (s := s.move _ .notified) (hs.move place)
  | stop => exact absurd rfl guard
  | begin dtor =>
      exact ⟨hs.size, hs.once, hs.fifo, hs.resumed, ⟨nofun, nofun⟩, nofun, hs.early_le,
        fun h => ⟨nofun, (hs.idle h).2⟩, trivial⟩
  | notifyAll dtor => exact hs.notifyAll dtor
  | @join k task dtor place =>
      have hstarted := hs.started
      have hjoined := hs.joined
      simp only [Joined, dtor] at hstarted hjoined
      refine ⟨hs.size, hs.once, hs.fifo, hs.resumed, ⟨fun h => (by cases hstarted.mp h), nofun⟩,
        nofun, hs.early_le, fun h => ⟨nofun, (hs.idle h).2⟩, fun i hi => ?_⟩
      rcases Nat.lt_succ_iff_lt_or_eq.mp hi with hi | rfl
      · exact hjoined i hi
      · exact ⟨task, place⟩
  | @joined k dtor all =>
      have hstarted := hs.started
      have hjoined := hs.joined
      simp only [Joined, dtor] at hstarted hjoined
      refine ⟨hs.size, hs.once, hs.fifo, hs.resumed, ⟨fun h => (by cases hstarted.mp h), nofun⟩,
        nofun, hs.early_le, fun h => ⟨nofun, (hs.idle h).2⟩, fun w hw => ?_⟩
      replace hw : w ∈ s.workers := hw
      obtain ⟨i, hi⟩ := List.mem_iff_getElem?.mp hw
      have hlt : i < k := by
        have hlen := (List.getElem?_eq_some_iff.mp hi).1
        have hall := List.getElem?_eq_none_iff.mp all
        omega
      obtain ⟨task, hplace⟩ := hjoined i hlt
      exact ⟨task, Option.some.inj (hi.symm.trans hplace)⟩

/-- When every worker has exited with a coroutine, as many are taken as there are workers. -/
theorem Accounts.length_taken (hs : s.Accounts n) (hall : ∀ w ∈ s.workers, ∃ task, w = .exited task)
    (hsome : .exited none ∉ s.workers) : s.taken.length = n := by
  rw [← hs.size]
  refine List.filterMap_length_eq_length.mpr fun w hw => ?_
  obtain ⟨task, rfl⟩ := hall w hw
  cases task with
  | none => exact absurd hw hsome
  | some k => rfl

/-- When every worker has exited, what was taken has been resumed. -/
theorem Accounts.resumed_perm_taken (hs : s.Accounts n)
    (hall : ∀ w ∈ s.workers, ∃ task, w = .exited task) : s.resumed.Perm s.taken := by
  have hsame : s.workers.filterMap WorkerPc.resumed? = s.taken := by
    refine List.filterMap_congr fun w hw => ?_
    obtain ⟨task, rfl⟩ := hall w hw
    rfl
  exact hsame ▸ hs.resumed

theorem Accounts.length_taken_le (hs : s.Accounts n) : s.taken.length ≤ n :=
  hs.size ▸ List.length_filterMap_le ..

theorem Accounts.nodup (hs : s.Accounts n) : (s.taken ++ s.tasks).Nodup :=
  hs.once.nodup_iff.mpr List.nodup_range

/-- The queue holds the coroutines from the number of taken ones on. -/
theorem Accounts.taken_le_of_mem (hs : s.Accounts n) {k : ℕ} (hk : k ∈ s.tasks) :
    s.taken.length ≤ k := by
  obtain ⟨m, hm, htasks⟩ := hs.fifo
  have hlen := hs.once.length_eq
  rw [List.length_append, List.length_range, htasks, List.length_range'] at hlen
  rw [htasks, List.mem_range'_1] at hk
  omega

/-- Behind the last join, with no more coroutines than workers, none of before is in the queue. -/
theorem Accounts.early_not_waiting (hs : s.Accounts n)
    (hall : ∀ w ∈ s.workers, ∃ task, w = .exited task) (hearly : s.early ≤ n) {k : ℕ}
    (hk : k < s.early) : k ∉ s.tasks := by
  intro hmem
  by_cases hnone : .exited none ∈ s.workers
  · have := (hs.idle hnone).2 k hmem
    omega
  · have := hs.taken_le_of_mem hmem
    have := hs.length_taken hall hnone
    omega

/-- **A pool of `n` threads runs `n` coroutines.**  When the destructor returns, those enqueued
before it began have all been resumed, each once, exactly if there were at most `n` of them; and
while there are at most `n`, a started pool with a coroutine in its queue has a worker left. -/
theorem early_resumed_iff {queueSize : ℕ} (run : Reach step NoStop (create n queueSize) s) :
    (s.dtor = .returned → ((∀ k < s.early, s.resumed.count k = 1) ↔ s.early ≤ n)) ∧
    (s.early ≤ n → s.started = true → s.tasks ≠ [] →
      ∃ w ∈ s.workers, w.hasExited = false ∧ w ≠ .undefined) := by
  obtain ⟨hs, hlock⟩ : s.Accounts n ∧ s.Exclusive := by
    refine run.invariant (P := fun s => s.Accounts n ∧ s.Exclusive)
      ⟨create_accounts _ _, create_exclusive _ _⟩ ?_
    rintro s a s' ⟨hs, hlock⟩ guard h
    exact ⟨(step_move h).accounts guard hs, (step_move h).exclusive hlock⟩
  refine ⟨fun hdtor => ?_, fun hearly hstarted htasks => ?_⟩
  · have hall : ∀ w ∈ s.workers, ∃ task, w = .exited task := by
      have hjoined := hs.joined
      simpa only [Joined, hdtor] using hjoined
    have hperm := hs.resumed_perm_taken hall
    constructor
    · intro hcount
      have hsub : List.range s.early ⊆ s.resumed := by
        intro k hk
        have := hcount k (List.mem_range.mp hk)
        exact List.count_pos_iff.mp (by omega)
      calc s.early = (List.range s.early).length := List.length_range.symm
        _ ≤ s.resumed.length := (List.subperm_of_subset List.nodup_range hsub).length_le
        _ = s.taken.length := hperm.length_eq
        _ ≤ n := hs.length_taken_le
    · intro hearly k hk
      have hnot := hs.early_not_waiting hall hearly hk
      have hmem : k ∈ s.taken ++ s.tasks := by
        rw [hs.once.mem_iff, List.mem_range]
        exact Nat.lt_of_lt_of_le hk hs.early_le
      have htaken := (List.mem_append.mp hmem).resolve_right hnot
      rw [hperm.count_eq]
      exact List.count_eq_one_of_mem (List.Nodup.of_append_left hs.nodup) htaken
  · by_contra hno
    have hdtor := hs.started.mp hstarted
    have hall : ∀ w ∈ s.workers, ∃ task, w = .exited task := by
      intro w hw
      cases w with
      | exited task => exact ⟨task, rfl⟩
      | undefined => exact absurd hw hlock.defined
      | _ => exact absurd ⟨_, hw, rfl, nofun⟩ hno
    have htaken := hs.length_taken hall fun h => (hs.idle h).1 hdtor
    have hlen := hs.once.length_eq
    rw [List.length_append, List.length_range, htaken, ← hs.early hdtor] at hlen
    exact htasks (List.length_eq_zero_iff.mp (by omega))

theorem early_resumed_iff_two : ∃ s : ThreadPool,
    Reach step NoStop (create 2 4) s ∧ s.dtor = .returned ∧ s.early = 2 ∧
      ∀ k < s.early, s.resumed.count k = 1 := by
  obtain ⟨s, run, hs⟩ := exists_reach step NoStop (create 2 4)
    [.awaitReady, .enqueue, .notifyOne none, .awaitReady, .enqueue, .worker 0, .worker 0,
      .worker 0, .worker 1, .worker 1, .worker 1, .worker 0, .worker 0, .worker 1, .worker 1,
      .destroy, .destroy, .destroy, .destroy, .destroy]
    (fun s => s.dtor = .returned ∧ s.early = 2) (by decide +kernel)
  simp only [decide_eq_true_eq] at hs
  obtain ⟨hdtor, hearly⟩ := hs
  exact ⟨s, run, hdtor, hearly, ((early_resumed_iff run).1 hdtor).mpr (by omega)⟩

/-- One thread and two coroutines: the worker resumes the first and exits, the second stays in the
queue of a started pool without workers, and the destructor returns. -/
theorem second_coroutine_stranded :
    ¬∀ s : ThreadPool, Reach step NoStop (create 1 4) s →
      (s.dtor = .returned → ∀ k < s.early, s.resumed.count k = 1) ∧
      (s.started = true → s.tasks ≠ [] → ∃ w ∈ s.workers, w.hasExited = false) := by
  intro hall
  obtain ⟨s, run, hs⟩ := exists_reach step NoStop (create 1 4)
    [.awaitReady, .enqueue, .awaitReady, .enqueue, .worker 0, .worker 0, .worker 0, .worker 0,
      .worker 0, .destroy, .destroy, .destroy, .destroy]
    (fun s => s.dtor = .returned ∧ s.early = 2 ∧ s.resumed = [0]) (by decide +kernel)
  simp only [decide_eq_true_eq] at hs
  obtain ⟨hdtor, hearly, hresumed⟩ := hs
  have hcount := (hall s run).1 hdtor 1 (by omega)
  simp [hresumed] at hcount

end

end ThreadPool

end Proactor
