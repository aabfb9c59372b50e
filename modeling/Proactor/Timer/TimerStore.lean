import Proactor.Timer.HandleRead

/-!
# `TimerQueue` by pointer

`timer_list_` owns its timers by pointer, `active_timer_set_` names them by pointer and sequence,
and the batch that `handleRead` detaches is a vector of pointers.  `erase` recomputes the key of an
entry from what the timer says at that moment, and `restart` writes to a timer: were one timer
reachable from two places, the two containers would drift apart.

`TimerStore` keeps the pointers and the memory behind them.  `TimerStore.Owns` says that every
timer has one owner, and from that each function here does to the timers that the pointers lead to
what the function of `TimerQueue` does (`insert_spec`, `Owns.erase`,
`beginRead_spec`, `endRead_spec`).
-/

namespace Proactor

/-- `TimerQueue` and the `Timer` objects in memory. -/
structure TimerStore where
  heap : ℕ → Option Timer
  timerList : List (TimerEntry × ℕ)
  activeTimerSet : Finset ActiveTimer
  cancelingTimerSet : Finset ActiveTimer
  isRunningCallback : Bool
  /-- An assertion has failed, or a destroyed timer was read. -/
  failed : Bool
  /-- `insert` has assigned to a key that was there. -/
  overwrote : Bool

namespace TimerStore

def create : TimerStore where
  heap := fun _ => none
  timerList := []
  activeTimerSet := ∅
  cancelingTimerSet := ∅
  isRunningCallback := false
  failed := false
  overwrote := false

def check (p : Bool) (q : TimerStore) : TimerStore := { q with failed := q.failed || !p }

def checkSizes (q : TimerStore) : TimerStore :=
  q.check (q.timerList.length = q.activeTimerSet.card)

/-- Write a timer at its address: `new Timer`, or `restart`. -/
def write (t : Timer) (q : TimerStore) : TimerStore :=
  { q with heap := Function.update q.heap t.addr (some t) }

/-- The destructors of the owning pointers in `ps`. -/
def destroy (ps : List ℕ) (q : TimerStore) : TimerStore :=
  { q with heap := fun p => if p ∈ ps then none else q.heap p }

/-- The pointers `timer_list_` holds under a key. -/
def under (k : TimerEntry) (q : TimerStore) : List ℕ :=
  (q.timerList.filter fun e => e.1 = k).map Prod.snd

/-- `insert`.  An assignment to a key that is there destroys the timer it has held. -/
def insert (p : ℕ) (q : TimerStore) : TimerStore :=
  let q := q.checkSizes
  match q.heap p with
  | none => q.check false
  | some t =>
      let success : Bool := t.id ∉ q.activeTimerSet
      let q := { q.destroy (q.under t.entry) with
        timerList := OrderedMap.insert t.entry p q.timerList
        activeTimerSet := Insert.insert t.id q.activeTimerSet
        overwrote := q.overwrote || !(q.under t.entry).isEmpty }
      (q.check success).checkSizes

/-- `erase`.  Both halves of the key are read through the pointer of the set. -/
def erase (del : ActiveTimer) (q : TimerStore) : TimerStore × Bool :=
  if del ∈ q.activeTimerSet then
    match q.heap del.timer with
    | some t =>
        ({ q.destroy (q.under t.entry) with
          activeTimerSet := q.activeTimerSet.erase del
          timerList := OrderedMap.erase t.entry q.timerList }, true)
    | none => (q.check false, true)
  else (q, false)

def cancelTimerInLoop (timerId : ActiveTimer) (q : TimerStore) : TimerStore :=
  let q := q.checkSizes
  let (q', erased) := q.erase timerId
  let q' := if !erased && q'.isRunningCallback then
      { q' with cancelingTimerSet := Insert.insert timerId q'.cancelingTimerSet }
    else q'
  q'.checkSizes

def getExpiredTimers (now : ℤ) (q : TimerStore) : TimerStore × List ℕ :=
  let q := q.checkSizes
  let expired := OrderedMap.upTo (TimerQueue.within now) q.timerList
  let rest := OrderedMap.above (TimerQueue.within now) q.timerList
  let q := q.check (match rest with
    | [] => true
    | e :: _ => (q.heap e.2).any fun t => now < t.expiration)
  let q := q.check (expired.all fun e => (q.heap e.2).isSome)
  ({ q with
    timerList := rest
    activeTimerSet := q.activeTimerSet \
      (expired.filterMap fun e => (q.heap e.2).map Timer.id).toFinset },
    expired.map Prod.snd)

/-- One turn of the loop in `reset`, with the pointers that the vector keeps. -/
def resetOne (now : ℤ) (st : TimerStore × List ℕ) (p : ℕ) : TimerStore × List ℕ :=
  match st.1.heap p with
  | none => (st.1.check false, st.2)
  | some t =>
      if t.repeats && t.id ∉ st.1.cancelingTimerSet then
        ((st.1.write (t.restart now)).insert p, st.2)
      else (st.1, st.2 ++ [p])

def reset (expired : List ℕ) (now : ℤ) (q : TimerStore) : TimerStore × List ℕ :=
  expired.foldl (resetOne now) (q, [])

def nothingExpired (now : ℤ) (q : TimerStore) : Bool :=
  match q.timerList with
  | [] => true
  | e :: _ => now < (ofLex e.1).1

def beginRead (now : ℤ) (q : TimerStore) : TimerStore × List ℕ :=
  let (q, expired) := q.checkSizes.getExpiredTimers now
  ({ q with cancelingTimerSet := ∅, isRunningCallback := true }, expired)

/-- The vector of the batch is destroyed at the end, with the timers that were not moved out. -/
def endRead (expired : List ℕ) (now : ℤ) (q : TimerStore) : TimerStore :=
  let (q, kept) := ({ q with isRunningCallback := false } : TimerStore).reset expired now
  q.checkSizes.destroy kept

/-! ## The timers behind the pointers -/

/-- The timer a pointer leads to. -/
def timerAt (q : TimerStore) (p : ℕ) : Timer := (q.heap p).getD ⟨p, 0, 0, false, 0⟩

/-- The queue with the timers in the place of the pointers. -/
def abs (q : TimerStore) : TimerQueue where
  timerList := OrderedMap.mapValues q.timerAt q.timerList
  activeTimerSet := q.activeTimerSet
  cancelingTimerSet := q.cancelingTimerSet
  isRunningCallback := q.isRunningCallback
  failed := q.failed

/-- The pointers that `timer_list_` holds. -/
def pointers (q : TimerStore) : List ℕ := q.timerList.map Prod.snd

/-- **Every timer in memory has exactly one owner**: the map, or one of the pointers in `held`. -/
structure Owns (q : TimerStore) (held : List ℕ) : Prop where
  nodup : (q.pointers ++ held).Nodup
  alive : ∀ p, (q.heap p).isSome = true ↔ p ∈ q.pointers ++ held
  addr : ∀ p t, q.heap p = some t → t.addr = p
  kept : q.overwrote = false

section

variable {q : TimerStore} {held : List ℕ} {p : ℕ} {t : Timer} {del : ActiveTimer} {now : ℤ}

theorem timerAt_of_heap (h : q.heap p = some t) : q.timerAt p = t := by simp [timerAt, h]

theorem Owns.heap (ho : q.Owns held) (hp : p ∈ q.pointers ++ held) :
    q.heap p = some (q.timerAt p) := by
  obtain ⟨t, ht⟩ := Option.isSome_iff_exists.mp ((ho.alive p).mpr hp)
  rw [timerAt_of_heap ht, ht]

theorem Owns.timerAt_addr (ho : q.Owns held) (hp : p ∈ q.pointers ++ held) :
    (q.timerAt p).addr = p := ho.addr p _ (ho.heap hp)

/-- The order of the pointers outside the map does not matter. -/
theorem Owns.perm {held' : List ℕ} (ho : q.Owns held) (h : held'.Perm held) : q.Owns held' where
  nodup := (h.append_left q.pointers).nodup_iff.mpr ho.nodup
  alive := fun p => (ho.alive p).trans (h.append_left q.pointers).mem_iff.symm
  addr := ho.addr
  kept := ho.kept

/-- Fields that ownership does not see. -/
theorem Owns.keep {r : TimerStore} (ho : q.Owns held) (hheap : r.heap = q.heap := by rfl)
    (hlist : r.timerList = q.timerList := by rfl) (hkept : r.overwrote = q.overwrote := by rfl) :
    r.Owns held where
  nodup := by
    rw [pointers, hlist]
    exact ho.nodup
  alive := by
    rw [hheap, pointers, hlist]
    exact ho.alive
  addr := hheap ▸ ho.addr
  kept := hkept.trans ho.kept

theorem create_owns : create.Owns [] := ⟨List.nodup_nil, by simp [create, pointers], nofun, rfl⟩

theorem abs_timers (q : TimerStore) : q.abs.timers = q.pointers.map q.timerAt := by
  simp only [TimerQueue.timers, abs, OrderedMap.mapValues, pointers, List.map_map]
  rfl

theorem mem_abs_timers : t ∈ q.abs.timers ↔ ∃ e ∈ q.timerList, q.timerAt e.2 = t := by
  simp [abs_timers, pointers]

theorem Rep_keyed (hs : q.abs.Rep) {e : TimerEntry × ℕ} (he : e ∈ q.timerList) :
    e.1 = (q.timerAt e.2).entry :=
  hs.keyed (e.1, q.timerAt e.2) (List.mem_map_of_mem he)

theorem Rep_sorted (hs : q.abs.Rep) : OrderedMap.Sorted q.timerList := by
  have hsorted : (q.timerList.map fun e => (e.1, q.timerAt e.2)).Pairwise fun a b => a.1 < b.1 :=
    hs.sorted
  rw [List.pairwise_map] at hsorted
  exact hsorted

theorem abs_checkSizes (q : TimerStore) : q.checkSizes.abs = q.abs.checkSizes := by
  simp only [checkSizes, TimerQueue.checkSizes, check, TimerQueue.check, abs,
    OrderedMap.length_mapValues]
  rfl

theorem check_of_true {b : Bool} (h : b = true) : q.check b = q := by simp [check, h]

theorem sizes (hs : q.abs.Rep) : q.checkSizes = q := by
  have hcard := hs.card
  simp only [abs, OrderedMap.length_mapValues] at hcard
  exact check_of_true (decide_eq_true hcard)

theorem timerAt_destroy {ps : List ℕ} (h : p ∉ ps) : (q.destroy ps).timerAt p = q.timerAt p := by
  simp only [timerAt, destroy, if_neg h]

theorem map_timerAt {r : TimerStore} {ps : List ℕ} (h : ∀ a ∈ ps, r.heap a = q.heap a) :
    ps.map r.timerAt = ps.map q.timerAt :=
  List.map_congr_left fun a ha => by rw [timerAt, h a ha, ← timerAt]

/-- The owners of some timers outside the map are destroyed, and these timers with them. -/
theorem Owns.destroy {ps : List ℕ} (ho : q.Owns (ps ++ held)) :
    (q.destroy ps).Owns held ∧ (q.destroy ps).abs = q.abs ∧
      ∀ a ∈ held, (q.destroy ps).heap a = q.heap a := by
  have hmoved : (q.pointers ++ (ps ++ held)).Perm (ps ++ (q.pointers ++ held)) := by
    simp only [← List.append_assoc]
    exact List.perm_append_comm.append_right held
  obtain ⟨-, hnodup, hdisjoint⟩ := List.nodup_append.mp (hmoved.nodup_iff.mp ho.nodup)
  have hother : ∀ a ∈ q.pointers ++ held, a ∉ ps := fun a ha h => hdisjoint a h a ha rfl
  have hheap : ∀ a ∈ held, (q.destroy ps).heap a = q.heap a := fun a ha =>
    if_neg (hother a (List.mem_append_right _ ha))
  refine ⟨⟨hnodup, fun a => ?_, fun a t h => ?_, ho.kept⟩, ?_, hheap⟩
  · change (if a ∈ ps then none else q.heap a).isSome = true ↔ a ∈ q.pointers ++ held
    by_cases ha : a ∈ ps
    · rw [if_pos ha]
      exact ⟨nofun, fun h => absurd ha (hother a h)⟩
    · rw [if_neg ha, ho.alive a, hmoved.mem_iff, List.mem_append]
      exact ⟨fun h => h.resolve_left ha, .inr⟩
  · replace h : (if a ∈ ps then none else q.heap a) = some t := h
    rw [Option.ite_none_left_eq_some] at h
    exact ho.addr a t h.2
  · have hsame := OrderedMap.mapValues_congr (l := q.timerList) (q.destroy ps).timerAt
      q.timerAt fun e he =>
        timerAt_destroy (hother _ (List.mem_append_left _ (List.mem_map_of_mem he)))
    exact congrArg (fun l => ({ q.abs with timerList := l } : TimerQueue)) hsame

/-! ## `insert` -/

/-- **`insert` overwrites nothing**, when the sequence of the timer is new. -/
theorem insert_spec (hs : q.abs.Rep) (ht : q.heap p = some t)
    (hnew : t.sequence ∉ q.abs.timers.map Timer.sequence) :
    q.insert p = { q with
      timerList := OrderedMap.insert t.entry p q.timerList
      activeTimerSet := Insert.insert t.id q.activeTimerSet } ∧
    (q.insert p).abs = q.abs.insert t ∧ t.id ∉ q.activeTimerSet ∧
    ((q.insert p).timerList).Perm ((t.entry, p) :: q.timerList) := by
  have hkey : ∀ e ∈ q.timerList, e.1 ≠ t.entry := by
    intro e he hk
    refine hnew (List.mem_map.mpr ⟨q.timerAt e.2, mem_abs_timers.mpr ⟨e, he, rfl⟩, ?_⟩)
    exact (Prod.mk.inj (congrArg ofLex ((Rep_keyed hs he).symm.trans hk))).2
  have hunder : q.under t.entry = [] := by
    rw [under, List.filter_eq_nil_iff.mpr (by simpa using hkey), List.map_nil]
  have hid : t.id ∉ q.activeTimerSet := by
    intro hmem
    obtain ⟨u, hu, heq⟩ := hs.mem_active.mp hmem
    exact hnew (List.mem_map.mpr ⟨u, hu, congrArg ActiveTimer.sequence heq⟩)
  set r : TimerStore := { q with
    timerList := OrderedMap.insert t.entry p q.timerList
    activeTimerSet := Insert.insert t.id q.activeTimerSet } with hr
  obtain ⟨hvalue, hrep, -⟩ := TimerQueue.insert_spec hs hnew
  have habs : r.abs = q.abs.insert t := by
    rw [hvalue]
    have hmap := OrderedMap.insert_mapValues (k := t.entry) (v := p) (l := q.timerList) q.timerAt
    rw [timerAt_of_heap ht] at hmap
    simp only [abs, hmap]
    rfl
  have heq : q.insert p = r := by
    have hdestroy : q.destroy [] = q := by simp [destroy]
    simp only [insert, sizes hs, ht, hunder, hdestroy, hid, not_false_eq_true, decide_true,
      List.isEmpty_nil, Bool.not_true, Bool.or_false]
    rw [check_of_true rfl]
    exact sizes (habs ▸ hrep)
  refine ⟨heq, heq ▸ habs, hid, ?_⟩
  rw [heq]
  exact OrderedMap.perm_insert hkey

/-- The pointer goes from its holder to the map. -/
theorem Owns.insert (ho : q.Owns (p :: held)) (hs : q.abs.Rep) (ht : q.heap p = some t)
    (hnew : t.sequence ∉ q.abs.timers.map Timer.sequence) :
    (q.insert p).Owns held ∧ (q.insert p).heap = q.heap := by
  obtain ⟨heq, -, -, hperm⟩ := insert_spec hs ht hnew
  have hheap : (q.insert p).heap = q.heap := by rw [heq]
  have hmoved : ((q.insert p).pointers ++ held).Perm (q.pointers ++ p :: held) :=
    ((hperm.map Prod.snd).append_right held).trans List.perm_middle.symm
  refine ⟨⟨hmoved.nodup_iff.mpr ho.nodup, fun a => ?_, ?_, ?_⟩, hheap⟩
  · rw [hheap, hmoved.mem_iff]
    exact ho.alive a
  · rw [hheap]
    exact ho.addr
  · rw [heq]
    exact ho.kept

/-! ## `erase` -/

/-- The timer that an active id names. -/
theorem Owns.of_active (ho : q.Owns held) (hs : q.abs.Rep) (h : del ∈ q.activeTimerSet) :
    ∃ t, q.heap del.timer = some t ∧ t.id = del ∧ t ∈ q.abs.timers ∧
      (t.entry, del.timer) ∈ q.timerList := by
  obtain ⟨t, ht, hid⟩ := hs.mem_active.mp h
  obtain ⟨e, he, rfl⟩ := mem_abs_timers.mp ht
  have hmem : e.2 ∈ q.pointers ++ held := List.mem_append_left _ (List.mem_map_of_mem he)
  have hptr : e.2 = del.timer :=
    (ho.timerAt_addr hmem).symm.trans (congrArg ActiveTimer.timer hid)
  rw [← hptr]
  refine ⟨_, ho.heap hmem, hid, ht, ?_⟩
  rwa [← Rep_keyed hs he]

/-- **`erase` takes one entry out of both containers, or finds nothing and changes nothing.** -/
theorem erase_spec (ho : q.Owns held) (hs : q.abs.Rep) (del : ActiveTimer) :
    (del ∉ q.activeTimerSet ∧ q.erase del = (q, false)) ∨
    ∃ t, q.heap del.timer = some t ∧ t.id = del ∧ t ∈ q.abs.timers ∧
      del ∈ q.activeTimerSet ∧
      q.timerList.Perm ((t.entry, del.timer) :: OrderedMap.erase t.entry q.timerList) ∧
      q.erase del = ({ q.destroy [del.timer] with
        activeTimerSet := q.activeTimerSet.erase del
        timerList := OrderedMap.erase t.entry q.timerList }, true) := by
  by_cases hdel : del ∈ q.activeTimerSet
  · obtain ⟨t, ht, hid, hmem, hentry⟩ := ho.of_active hs hdel
    have hperm := (Rep_sorted hs).perm_erase hentry
    have hunder : q.under t.entry = [del.timer] := by
      have hfilter := hperm.filter fun e => e.1 = t.entry
      have hrest : (OrderedMap.erase t.entry q.timerList).filter (fun e => e.1 = t.entry) = [] :=
        List.filter_eq_nil_iff.mpr fun e he => by simpa using (OrderedMap.mem_erase.mp he).2
      rw [List.filter_cons, if_pos (decide_eq_true rfl), hrest, List.perm_singleton] at hfilter
      rw [under, hfilter, List.map_singleton]
    refine .inr ⟨t, ht, hid, hmem, hdel, hperm, ?_⟩
    simp only [erase, if_pos hdel, ht, hunder]
  · exact .inl ⟨hdel, by rw [erase, if_neg hdel]⟩

/-- The entry of an active timer is taken out of both containers and its timer is destroyed. -/
theorem Owns.erase (ho : q.Owns held) (hs : q.abs.Rep) (del : ActiveTimer) :
    (q.erase del).1.abs = (q.abs.erase del).1 ∧ (q.erase del).2 = (q.abs.erase del).2 ∧
      (q.erase del).1.Owns held ∧ ∀ a ∈ held, (q.erase del).1.heap a = q.heap a := by
  rcases erase_spec ho hs del with ⟨hdel, heq⟩ | ⟨t, -, hid, hmem, hdel, hperm, heq⟩
  · have hvalue : q.abs.erase del = (q.abs, false) := if_neg hdel
    rw [heq, hvalue]
    exact ⟨rfl, rfl, ho, fun _ _ => rfl⟩
  · -- between the two, the pointer is outside the map
    have hmid : ({ q with
        activeTimerSet := q.activeTimerSet.erase del
        timerList := OrderedMap.erase t.entry q.timerList } : TimerStore).Owns
          ([del.timer] ++ held) := by
      have hmoved : (q.pointers ++ held).Perm
          ((OrderedMap.erase t.entry q.timerList).map Prod.snd ++ del.timer :: held) :=
        ((hperm.map Prod.snd).append_right held).trans List.perm_middle.symm
      refine ⟨hmoved.nodup_iff.mp ho.nodup, fun a => ?_, ho.addr, ho.kept⟩
      exact (ho.alive a).trans hmoved.mem_iff
    have hvalue : q.abs.erase del = ({ q.abs with
        activeTimerSet := q.activeTimerSet.erase del
        timerList := OrderedMap.erase t.entry q.abs.timerList }, true) := by
      have hfind := hs.find hmem
      rw [hid] at hfind
      have hactive : del ∈ q.abs.activeTimerSet := hdel
      rw [TimerQueue.erase, if_pos hactive, hfind]
      rfl
    obtain ⟨howns, habs, hheap⟩ := hmid.destroy
    rw [heq, hvalue]
    refine ⟨habs.trans ?_, rfl, howns, hheap⟩
    simp only [abs, OrderedMap.erase_mapValues]
    rfl

theorem Owns.cancelTimerInLoop (ho : q.Owns held) (hs : q.abs.Rep) (timerId : ActiveTimer) :
    (q.cancelTimerInLoop timerId).abs = q.abs.cancelTimerInLoop timerId ∧
      (q.cancelTimerInLoop timerId).Owns held ∧
      ∀ a ∈ held, (q.cancelTimerInLoop timerId).heap a = q.heap a := by
  obtain ⟨habs, hfound, howns, hheld⟩ := ho.erase hs timerId
  have hrunning : (q.erase timerId).1.isRunningCallback
      = (q.abs.erase timerId).1.isRunningCallback :=
    congrArg TimerQueue.isRunningCallback habs
  simp only [TimerStore.cancelTimerInLoop, TimerQueue.cancelTimerInLoop, sizes hs, hs.sizes,
    hfound, hrunning]
  split
  · refine ⟨?_, howns.keep, hheld⟩
    rw [abs_checkSizes, ← habs]
    rfl
  · refine ⟨?_, howns.keep, hheld⟩
    rw [abs_checkSizes, habs]

/-! ## `handleRead` -/

theorem getExpiredTimers_eq (ho : q.Owns held) (hs : q.abs.Rep) :
    q.getExpiredTimers now =
      ({ q with
        timerList := OrderedMap.above (TimerQueue.within now) q.timerList
        activeTimerSet := q.activeTimerSet \
          ((OrderedMap.upTo (TimerQueue.within now) q.timerList).map
            fun e => (q.timerAt e.2).id).toFinset },
        (OrderedMap.upTo (TimerQueue.within now) q.timerList).map Prod.snd) := by
  have hheap : ∀ e ∈ q.timerList, q.heap e.2 = some (q.timerAt e.2) := fun e he =>
    ho.heap (List.mem_append_left _ (List.mem_map_of_mem he))
  have hupTo : OrderedMap.upTo (TimerQueue.within now) q.timerList ⊆ q.timerList :=
    (List.takeWhile_prefix _).subset
  have habove : OrderedMap.above (TimerQueue.within now) q.timerList ⊆ q.timerList :=
    (List.dropWhile_suffix _).subset
  have hedge : (match OrderedMap.above (TimerQueue.within now) q.timerList with
      | [] => true
      | e :: _ => (q.heap e.2).any fun t => now < t.expiration) = true := by
    split
    · rfl
    · rename_i e l hrest
      have hmem : e ∈ OrderedMap.above (TimerQueue.within now) q.timerList := by simp [hrest]
      have hlater : now < (q.timerAt e.2).expiration := by
        refine hs.later_of_mem (e := (e.1, q.timerAt e.2)) ?_
        simp only [abs, OrderedMap.above_mapValues]
        exact List.mem_map_of_mem hmem
      simpa [hheap e (habove hmem)] using hlater
  have hall : ((OrderedMap.upTo (TimerQueue.within now) q.timerList).all
      fun e => (q.heap e.2).isSome) = true := by
    rw [List.all_eq_true]
    exact fun e he => by rw [hheap e (hupTo he)]; rfl
  have hids : (OrderedMap.upTo (TimerQueue.within now) q.timerList).filterMap
        (fun e => (q.heap e.2).map Timer.id)
      = (OrderedMap.upTo (TimerQueue.within now) q.timerList).map
        fun e => (q.timerAt e.2).id := by
    rw [← List.filterMap_eq_map]
    exact List.filterMap_congr fun e he => by rw [hheap e (hupTo he)]; rfl
  simp only [getExpiredTimers, sizes hs, check_of_true hedge, check_of_true hall, hids]

/-- **`handleRead` moves the expired timers from the map to the batch.** -/
theorem beginRead_spec (ho : q.Owns held) (hs : q.abs.Rep) (now : ℤ) :
    (q.beginRead now).1.abs = (q.abs.beginRead now).1 ∧
      (q.beginRead now).2.map q.timerAt = (q.abs.beginRead now).2 ∧
      (q.beginRead now).1.Owns ((q.beginRead now).2 ++ held) ∧
      (q.beginRead now).1.heap = q.heap := by
  have hsplit : q.pointers = (OrderedMap.upTo (TimerQueue.within now) q.timerList).map Prod.snd
      ++ (OrderedMap.above (TimerQueue.within now) q.timerList).map Prod.snd := by
    rw [← List.map_append, OrderedMap.upTo_append_above, pointers]
  simp only [beginRead, TimerQueue.beginRead, sizes hs, hs.sizes, getExpiredTimers_eq ho hs,
    TimerQueue.getExpiredTimers_eq hs]
  refine ⟨?_, ?_, ?_, trivial⟩
  · simp only [abs, OrderedMap.above_mapValues, OrderedMap.upTo_mapValues]
    simp only [OrderedMap.mapValues, List.map_map]
    rfl
  · simp only [abs, OrderedMap.upTo_mapValues]
    simp only [OrderedMap.mapValues, List.map_map]
    rfl
  · have hmoved : (q.pointers ++ held).Perm
        ((OrderedMap.above (TimerQueue.within now) q.timerList).map Prod.snd ++
          ((OrderedMap.upTo (TimerQueue.within now) q.timerList).map Prod.snd ++ held)) := by
      rw [hsplit, ← List.append_assoc]
      exact List.perm_append_comm.append_right held
    refine ⟨hmoved.nodup_iff.mp ho.nodup, fun a => ?_, ho.addr, ho.kept⟩
    exact (ho.alive a).trans hmoved.mem_iff

/-- A write to a timer that has one owner, outside the map. -/
theorem write_owns (hnodup : (q.pointers ++ t.addr :: held).Nodup)
    (halive : ∀ a, a ≠ t.addr → ((q.heap a).isSome = true ↔ a ∈ q.pointers ++ held))
    (haddr : ∀ p t, q.heap p = some t → t.addr = p) (hkept : q.overwrote = false) :
    (q.write t).Owns (t.addr :: held) ∧ (q.write t).abs = q.abs ∧
      (q.write t).heap t.addr = some t ∧ ∀ a ∈ held, (q.write t).heap a = q.heap a := by
  obtain ⟨hnot, -⟩ := List.nodup_cons.mp (List.perm_middle.nodup_iff.mp hnodup)
  have hother : ∀ a ∈ q.pointers ++ held, (q.write t).heap a = q.heap a := by
    intro a ha
    refine Function.update_of_ne ?_ _ _
    rintro rfl
    exact hnot ha
  refine ⟨⟨hnodup, fun a => ?_, fun a u h => ?_, hkept⟩, ?_, Function.update_self _ _ _,
    fun a ha => hother a (List.mem_append_right _ ha)⟩
  · change _ ↔ a ∈ q.pointers ++ t.addr :: held
    rw [List.perm_middle.mem_iff, List.mem_cons]
    by_cases ha : a = t.addr
    · simp [ha, write]
    · simp [ha, write, halive]
  · by_cases ha : a = t.addr
    · simp only [write, ha, Function.update_self, Option.some.injEq] at h
      rw [ha, h]
    · exact haddr a u (by simpa [write, ha] using h)
  · have hsame := OrderedMap.mapValues_congr (l := q.timerList) (q.write t).timerAt
      q.timerAt fun e he => by
        have hp : e.2 ∈ q.pointers ++ held := List.mem_append_left _ (List.mem_map_of_mem he)
        rw [timerAt, hother _ hp, ← timerAt]
    exact congrArg (fun l => ({ q.abs with timerList := l } : TimerQueue)) hsame

/-- The restart of a timer outside the map. -/
theorem Owns.restart (ho : q.Owns (t.addr :: held)) :
    (q.write t).Owns (t.addr :: held) ∧ (q.write t).abs = q.abs ∧
      (q.write t).heap t.addr = some t ∧ ∀ a ∈ held, (q.write t).heap a = q.heap a := by
  refine write_owns ho.nodup (fun a ha => ?_) ho.addr ho.kept
  rw [ho.alive, List.perm_middle.mem_iff, List.mem_cons]
  exact or_iff_right ha

/-- A new timer, at an address that is not in use. -/
theorem Owns.new (ho : q.Owns held) (hfree : q.heap t.addr = none) :
    (q.write t).Owns (t.addr :: held) ∧ (q.write t).abs = q.abs ∧
      (q.write t).heap t.addr = some t ∧ ∀ a ∈ held, (q.write t).heap a = q.heap a := by
  refine write_owns ?_ (fun a _ => ho.alive a) ho.addr ho.kept
  have hnot : t.addr ∉ q.pointers ++ held := by
    rw [← ho.alive, hfree]
    simp
  exact List.perm_middle.nodup_iff.mpr (List.nodup_cons.mpr ⟨hnot, ho.nodup⟩)

/-- One turn of `reset`: the pointer goes to the map, or stays in the vector. -/
theorem resetOne_spec (left : List ℕ) (ho : q.Owns (p :: held)) (hs : q.abs.Rep) (now : ℤ)
    (hnew : (q.timerAt p).sequence ∉ q.abs.timers.map Timer.sequence) :
    (resetOne now (q, left) p).1.abs = TimerQueue.resetOne now q.abs (q.timerAt p) ∧
      (∀ a ∈ held, (resetOne now (q, left) p).1.heap a = q.heap a) ∧
      ∃ back, (resetOne now (q, left) p).2 = left ++ back ∧
        (resetOne now (q, left) p).1.Owns (back ++ held) := by
  have hmem : p ∈ q.pointers ++ p :: held := by simp
  have hheap := ho.heap hmem
  simp only [resetOne, TimerQueue.resetOne, hheap]
  have hcanceling : q.abs.cancelingTimerSet = q.cancelingTimerSet := rfl
  rw [hcanceling]
  split
  · have haddr : ((q.timerAt p).restart now).addr = p := ho.timerAt_addr hmem
    obtain ⟨howns, habs, hself, hother⟩ := Owns.restart (haddr.symm ▸ ho)
    rw [haddr] at howns hself
    rw [← habs] at hs hnew ⊢
    obtain ⟨-, hinsert, -⟩ := insert_spec hs hself hnew
    obtain ⟨howns', hheap'⟩ := howns.insert hs hself hnew
    refine ⟨hinsert, fun a ha => ?_, [], (List.append_nil _).symm, howns'⟩
    rw [hheap', hother a ha]
  · exact ⟨rfl, fun _ _ => rfl, [p], rfl, ho⟩

/-- **`reset`**, by induction on the batch: `left` is what the vector has kept so far. -/
theorem reset_spec {expired left : List ℕ} (ho : q.Owns (expired ++ (left ++ held)))
    (hs : q.abs.Rep) (now : ℤ)
    (hexpired : ((expired.map q.timerAt).map Timer.sequence).Nodup)
    (hnew : ∀ p ∈ expired, (q.timerAt p).sequence ∉ q.abs.timers.map Timer.sequence) :
    (expired.foldl (resetOne now) (q, left)).1.abs
        = q.abs.reset (expired.map q.timerAt) now ∧
      (expired.foldl (resetOne now) (q, left)).1.Owns
        ((expired.foldl (resetOne now) (q, left)).2 ++ held) ∧
      ∀ a ∈ held, (expired.foldl (resetOne now) (q, left)).1.heap a = q.heap a := by
  induction expired generalizing q left with
  | nil => exact ⟨rfl, ho, fun _ _ => rfl⟩
  | cons p expired ih =>
      have hnewp := hnew p List.mem_cons_self
      obtain ⟨habs, hheap, back, hback, howns⟩ := resetOne_spec left ho hs now hnewp
      obtain ⟨hrep, -⟩ := TimerQueue.resetOne_spec hs now hnewp
      rw [List.map_cons, List.map_cons, List.nodup_cons] at hexpired
      rcases hstep : resetOne now (q, left) p with ⟨q₁, left₁⟩
      rw [hstep] at habs hheap hback howns
      dsimp only at habs hheap hback howns
      subst hback
      have hsame : ∀ a ∈ expired, q₁.timerAt a = q.timerAt a := fun a ha => by
        rw [timerAt, hheap a (List.mem_append_left _ ha), ← timerAt]
      have htimers : expired.map q₁.timerAt = expired.map q.timerAt := List.map_congr_left hsame
      have hheld : q₁.Owns (expired ++ ((left ++ back) ++ held)) := by
        have hback : (expired ++ left ++ back).Perm (back ++ (expired ++ left)) :=
          List.perm_append_comm
        refine howns.perm ?_
        simpa only [List.append_assoc, List.append_eq] using hback.append_right held
      obtain ⟨habs', howns', hheap'⟩ := ih hheld (habs ▸ hrep) (htimers ▸ hexpired.2) (by
        intro a ha
        rw [habs, hsame a ha]
        refine TimerQueue.resetOne_later hs hnewp (hnew a (List.mem_cons_of_mem p ha)) ?_
        intro heq
        exact hexpired.1 (List.mem_map.mpr ⟨_, List.mem_map_of_mem ha, heq⟩))
      rw [List.foldl_cons, hstep]
      refine ⟨?_, howns', fun a ha => ?_⟩
      · rw [habs', habs, htimers]
        rfl
      · rw [hheap' a ha, hheap a (by simp [ha])]

/-- **`handleRead` moves the repeating timers that were not cancelled back to the map** and
destroys the others. -/
theorem endRead_spec {expired : List ℕ} (ho : q.Owns (expired ++ held)) (hs : q.abs.Rep) (now : ℤ)
    (hexpired : ((expired.map q.timerAt).map Timer.sequence).Nodup)
    (hnew : ∀ p ∈ expired, (q.timerAt p).sequence ∉ q.abs.timers.map Timer.sequence) :
    (q.endRead expired now).abs = q.abs.endRead (expired.map q.timerAt) now ∧
      (q.endRead expired now).Owns held ∧
      ∀ a ∈ held, (q.endRead expired now).heap a = q.heap a := by
  set q₀ : TimerStore := { q with isRunningCallback := false } with hq₀
  have hflag : q₀.Owns (expired ++ ([] ++ held)) := ho.keep
  have hrep : q₀.abs.Rep := hs.keep
  obtain ⟨habs, howns, hheap⟩ := reset_spec hflag hrep now hexpired hnew
  have hvalue : (q₀.abs.reset (expired.map q₀.timerAt) now).Rep := by
    refine (TimerQueue.reset_spec hrep now hexpired ?_).1
    intro t ht
    obtain ⟨p, hp, rfl⟩ := List.mem_map.mp ht
    exact hnew p hp
  have hend : q.abs.endRead (expired.map q.timerAt) now
      = (q₀.abs.reset (expired.map q₀.timerAt) now).checkSizes := rfl
  rw [hend, hvalue.sizes, ← habs]
  rw [← habs] at hvalue
  obtain ⟨howns', habs', hheap'⟩ := howns.destroy
  simp only [endRead, reset, ← hq₀, sizes hvalue]
  exact ⟨habs', howns', fun a ha => (hheap' a ha).trans (hheap a ha)⟩

end

end TimerStore

end Proactor
