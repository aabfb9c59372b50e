import Proactor.Core.Transition
import Proactor.Output.SendQueueSpec
import Mathlib.Algebra.GroupWithZero.Nat

/-!
# The output queue as a byte queue with a hand-out cursor

Three pointers of `SendQueue` point into one list and are moved by different operations:
`push_back` revives a null cursor, `pop_front` clears it only when the list becomes empty,
`retrieve` puts it back to the front.  `HandOut` is the queue under any sequence of its
operations, with the iovecs it has returned since the last `retrieve`.

* `HandOut.Sound` — counters and pointers agree with the list, and what was handed out followed by
  what is still to hand out is every fragment once, in order.
* `Rep.retrieve_retrieve` — acknowledging `a` bytes and then `b` bytes is acknowledging `a + b`
  bytes, down to the last pointer.

A fragment of length zero is never partly sent: it is the next to go as soon as bytes after it are
acknowledged, and stays at the head when exactly the bytes before it are.
-/

namespace Proactor

open Chain Loop Transition

namespace SendQueue

/-- The test of the loop of `retrieve`. -/
def retrieveTest (len : ℕ) (st : SendQueue × ℕ) : Bool :=
  decide (st.2 < len) && st.1.head.isSome

/-- The nodes from `curr_` on, which are still to be handed out. -/
def pending (q : SendQueue) : List ℕ := walk q.next q.sliceSize q.curr

theorem retrieveLoop_eq (q : SendQueue) (len : ℕ) :
    q.retrieveLoop len
      = whileLoop (retrieveTest len) (retrieveTurn len) (q.sliceSize + 1) (q, 0) := rfl

/-! ## The loop of `retrieve`, fragment by fragment -/

section RetrieveLoop

variable {q : SendQueue} {h : ℕ} {l : List ℕ}

/-- Send all that is left of the head and free it. -/
def finishHead (q : SendQueue) (h : ℕ) : SendQueue :=
  (q.write h { q.heap h with written := (q.heap h).len }).popFront

/-- A loop that has dropped `i` bytes already goes on like one that has to drop `i` bytes less. -/
theorem whileLoop_retrieve_from (q : SendQueue) (len i n : ℕ) :
    whileLoop (retrieveTest len) (retrieveTurn len) n (q, i)
      = ((whileLoop (retrieveTest (len - i)) (retrieveTurn (len - i)) n (q, 0)).1,
        i + (whileLoop (retrieveTest (len - i)) (retrieveTurn (len - i)) n (q, 0)).2) := by
  refine whileLoop_counted (fun q => q.head.isSome) retrieveTurn (fun q j => ?_) n q
  cases hh : q.head with
  | none => simp [retrieveTurn, hh]
  | some h => simp [retrieveTurn, hh, Nat.sub_sub, Nat.add_assoc]

theorem retrieveLoop_zero (q : SendQueue) : q.retrieveLoop 0 = (q, 0) :=
  whileLoop_of_false (by simp) _

theorem retrieveLoop_of_head_none (hq : q.head = none) (len : ℕ) :
    q.retrieveLoop len = (q, 0) :=
  whileLoop_of_false (by simp [hq]) _

theorem Shape.finishHead (hs : Shape q (h :: l)) : Shape (q.finishHead h) l :=
  (hs.writeHead (Nat.le_refl _)).popFront.1

/-- The head is used up: it goes, and the loop has as many bytes less to drop. -/
theorem Shape.retrieveLoop_finish (hs : Shape q (h :: l)) {len : ℕ} (hpos : 0 < len)
    (hle : (q.heap h).remainData ≤ len) :
    q.retrieveLoop len
      = (((q.finishHead h).retrieveLoop (len - (q.heap h).remainData)).1,
        (q.heap h).remainData
          + ((q.finishHead h).retrieveLoop (len - (q.heap h).remainData)).2) := by
  have hhead : q.head = some h := hs.linked.1
  have hwritten := hs.written h List.mem_cons_self
  have hall : (q.heap h).written + (q.heap h).remainData = (q.heap h).len := by
    simp only [TxFragment.remainData]
    omega
  have htest : retrieveTest len (q, 0) = true := by simp [retrieveTest, hhead, hpos]
  have hturn : SendQueue.retrieveTurn len (q, 0) = (q.finishHead h, (q.heap h).remainData) := by
    simp [SendQueue.retrieveTurn, hhead, Nat.min_eq_left hle, hall, SendQueue.finishHead]
  have hsize : q.sliceSize = (q.finishHead h).sliceSize + 1 := by
    rw [hs.sliceSize, hs.finishHead.sliceSize, List.length_cons]
  rw [retrieveLoop_eq, whileLoop, if_pos htest, hturn, hsize, whileLoop_retrieve_from]
  rfl

/-- The head has more than is wanted: the loop ends there. -/
theorem Shape.retrieveLoop_stay (hs : Shape q (h :: l)) {len : ℕ} (hpos : 0 < len)
    (hlt : len < (q.heap h).remainData) :
    q.retrieveLoop len
      = (q.write h { q.heap h with written := (q.heap h).written + len }, len) := by
  have hhead : q.head = some h := hs.linked.1
  have hmore : (q.heap h).written + len ≠ (q.heap h).len := by
    simp only [TxFragment.remainData] at hlt
    omega
  have htest : retrieveTest len (q, 0) = true := by simp [retrieveTest, hhead, hpos]
  have hturn : SendQueue.retrieveTurn len (q, 0)
      = (q.write h { q.heap h with written := (q.heap h).written + len }, len) := by
    simp [SendQueue.retrieveTurn, hhead, Nat.min_eq_right (Nat.le_of_lt hlt), hmore]
  rw [retrieveLoop_eq, whileLoop, if_pos htest, hturn]
  exact whileLoop_of_false (by simp [retrieveTest]) _

/-- The loop ends because there is nothing more to drop or nothing left. -/
theorem Shape.retrieveLoop_ends (hs : Shape q l) (len : ℕ) :
    retrieveTest len (q.retrieveLoop len) = false := by
  induction l generalizing q len with
  | nil =>
      have hhead : q.head = none := hs.linked
      simp [retrieveLoop_of_head_none hhead, retrieveTest, hhead]
  | cons h l ih =>
      rcases Nat.eq_zero_or_pos len with rfl | hpos
      · simp [retrieveTest]
      · rcases Nat.lt_or_ge len (q.heap h).remainData with hlt | hle
        · simp [hs.retrieveLoop_stay hpos hlt, retrieveTest]
        · have hrest := ih hs.finishHead (len - (q.heap h).remainData)
          rw [hs.retrieveLoop_finish hpos hle]
          simp only [retrieveTest, Bool.and_eq_false_iff, decide_eq_false_iff_not] at hrest ⊢
          rcases hrest with hdone | hnone
          · exact Or.inl (by omega)
          · exact Or.inr hnone

/-- **The loop run for `a` bytes and then for `b` bytes is the loop run for `a + b` bytes.**  By
induction on the list; the first fragment is used up by `a`, or by `a + b` only, or not at all. -/
theorem Shape.retrieveLoop_add (hs : Shape q l) (a b : ℕ) :
    q.retrieveLoop (a + b)
      = (((q.retrieveLoop a).1.retrieveLoop b).1,
        (q.retrieveLoop a).2 + ((q.retrieveLoop a).1.retrieveLoop b).2) := by
  induction l generalizing q a b with
  | nil =>
      have hhead : q.head = none := hs.linked
      simp [retrieveLoop_of_head_none hhead]
  | cons h l ih =>
      rcases Nat.eq_zero_or_pos a with rfl | ha
      · simp [retrieveLoop_zero]
      · rcases Nat.lt_or_ge a (q.heap h).remainData with hlt | hle
        · -- `a` ends inside the first fragment
          rw [hs.retrieveLoop_stay ha hlt]
          set q₁ := q.write h { q.heap h with written := (q.heap h).written + a } with hq₁
          have hs₁ : Shape q₁ (h :: l) := by
            refine hs.writeHead ?_
            simp only [TxFragment.remainData] at hlt
            omega
          have hrest : (q₁.heap h).remainData = (q.heap h).remainData - a := by
            simp only [hq₁, write, Function.update_self, TxFragment.remainData]
            omega
          have hfinish : q₁.finishHead h = q.finishHead h := by
            simp [hq₁, SendQueue.finishHead, write]
          rcases Nat.eq_zero_or_pos b with rfl | hb
          · simp [retrieveLoop_zero, hs.retrieveLoop_stay ha hlt, hq₁]
          · rcases Nat.lt_or_ge (a + b) (q.heap h).remainData with hlt' | hle'
            · rw [hs.retrieveLoop_stay (by omega) hlt', hs₁.retrieveLoop_stay hb (by omega)]
              simp [hq₁, write, Nat.add_assoc]
            · rw [hs.retrieveLoop_finish (by omega) hle',
                hs₁.retrieveLoop_finish hb (by omega), hfinish, hrest,
                show b - ((q.heap h).remainData - a) = a + b - (q.heap h).remainData by omega]
              simp only [Prod.mk.injEq, true_and]
              omega
        · -- `a` uses it up
          rw [hs.retrieveLoop_finish ha hle, hs.retrieveLoop_finish (by omega) (by omega),
            show a + b - (q.heap h).remainData = a - (q.heap h).remainData + b by omega,
            ih hs.finishHead]
          simp only [Nat.add_assoc]

end RetrieveLoop

/-! ## What the loop does not look at -/

/-- Forget the cursor and the length counter. -/
def erase (q : SendQueue) : SendQueue := { q with curr := none, totalLen := 0 }

theorem Shape.erase {q : SendQueue} {l : List ℕ} (hs : Shape q l) : Shape q.erase l :=
  ⟨hs.linked, hs.tail, hs.sliceSize, hs.len, hs.written, hs.fresh⟩

theorem popFront_erase (q : SendQueue) : q.erase.popFront = q.popFront.erase := by
  cases hhead : q.head with
  | none => simp [popFront, erase, hhead]
  | some h => cases hnext : q.next h <;> simp_all [popFront, erase, write, next]

/-- The loop of `retrieve` looks at neither of the two. -/
theorem retrieveLoop_erase (q : SendQueue) (len : ℕ) :
    q.erase.retrieveLoop len = ((q.retrieveLoop len).1.erase, (q.retrieveLoop len).2) := by
  have hbody : ∀ st : SendQueue × ℕ, ((retrieveTurn len st).1.erase, (retrieveTurn len st).2)
      = retrieveTurn len (st.1.erase, st.2) := by
    rintro ⟨q, n⟩
    cases hhead : q.head with
    | none => simp [retrieveTurn, erase, hhead]
    | some h =>
        have hhead' : q.erase.head = some h := hhead
        simp only [retrieveTurn, hhead, hhead']
        split_ifs with hdone hdone' hdone'
        · rw [← popFront_erase]
          rfl
        · exact absurd hdone hdone'
        · exact absurd hdone' hdone
        · rfl
  exact (whileLoop_map (fun st : SendQueue × ℕ => (st.1.erase, st.2)) (fun _ => rfl) hbody
    (q.sliceSize + 1) (q, 0)).symm

section Retrieve

variable {q : SendQueue} {l : List ℕ} {k : ℕ}

/-- `retrieve` from what it looks at. -/
theorem Shape.retrieve_eq (hs : Shape q l) (len : ℕ) :
    q.retrieve len
      = { (q.erase.retrieveLoop len).1 with
          curr := (q.erase.retrieveLoop len).1.head
          totalLen := q.totalLen - (q.erase.retrieveLoop len).2 } := by
  obtain ⟨-, -, -, -, -, htotal, -⟩ := hs.retrieveLoop len
  rw [retrieveLoop_erase]
  simp only [SendQueue.retrieve, htotal]
  rfl

theorem Shape.erase_retrieve (hs : Shape q l) (len : ℕ) :
    (q.retrieve len).erase = (q.erase.retrieveLoop len).1 := by
  rw [hs.retrieve_eq, retrieveLoop_erase]
  rfl

/-- **Bytes may be acknowledged in portions.** -/
theorem Rep.retrieve_retrieve (hr : Rep q l k) (a b : ℕ) :
    (q.retrieve a).retrieve b = q.retrieve (a + b) := by
  obtain ⟨l', hr', -⟩ := hr.retrieve a
  rw [hr'.retrieve_eq, hr.erase_retrieve, hr.retrieve_eq (a + b),
    hr.toShape.erase.retrieveLoop_add, hr.retrieve_eq a]
  simp only [Nat.sub_sub]

/-- **`retrieve n` drops the first `min n total_len_` bytes and no others.** -/
theorem Rep.retrieve_drops (hr : Rep q l k) (n : ℕ) :
    (q.retrieve n).unsent = q.unsent.drop (min n q.totalLen) ∧
      (q.retrieveLoop n).2 = min n q.totalLen ∧
      (q.retrieve n).totalLen = q.totalLen - min n q.totalLen ∧
      (q.retrieve n).curr = (q.retrieve n).head := by
  obtain ⟨l', hr', -, hunsent, -⟩ := hr.retrieve n
  obtain ⟨-, -, -, -, hwritten, htotal, -⟩ := hr.toShape.retrieveLoop n
  have hdrop : q.unsent.drop (min n q.totalLen) = q.unsent.drop n := by
    rw [hr.getTotalLen]
    rcases Nat.le_total n q.unsent.length with hle | hle
    · rw [Nat.min_eq_left hle]
    · rw [Nat.min_eq_right hle, List.drop_length, List.drop_eq_nil_of_le hle]
  rw [← hr.totalLen] at hwritten
  refine ⟨hunsent.trans hdrop.symm, hwritten, ?_, rfl⟩
  simp only [SendQueue.retrieve, htotal, hwritten]

/-- The counter is the sum of what the fragments have left. -/
theorem Rep.totalLen_eq_sum (hr : Rep q l k) :
    q.totalLen = (l.map fun p => (q.heap p).remainData).sum := by
  rw [hr.totalLen, unsentOf, List.length_flatten, List.map_map]
  exact congrArg List.sum (List.map_congr_left fun p hp => hr.rest_length hp)

/-- The nodes from the cursor on. -/
theorem Rep.pending_eq (hr : Rep q l k) : q.pending = l.drop k := by
  have hlinked : Linked q.next q.curr (l.drop k) := by
    rw [hr.curr]
    exact hr.linked.drop k
  refine hlinked.walk_of_le ?_
  rw [hr.sliceSize, List.length_drop]
  exact Nat.sub_le _ _

end Retrieve

/-- Pointers and counters agree with a list of nodes. -/
structure Consistent (q : SendQueue) (l : List ℕ) : Prop where
  linked : Linked q.next q.head l
  totalLen : q.totalLen = (l.map fun p => (q.heap p).remainData).sum
  sliceSize : q.sliceSize = l.length
  tail : q.tail = l.getLast?
  written : ∀ p ∈ l, (q.heap p).written ≤ (q.heap p).len
  curr : ∀ c, q.curr = some c → c ∈ l

theorem Rep.consistent {q : SendQueue} {l : List ℕ} {k : ℕ} (hr : Rep q l k) :
    Consistent q l where
  linked := hr.linked
  totalLen := hr.totalLen_eq_sum
  sliceSize := hr.sliceSize
  tail := hr.tail
  written := hr.written
  curr := by
    intro c hc
    rw [hr.curr] at hc
    exact List.mem_of_getElem? hc

end SendQueue

/-! ## Any sequence of operations -/

/-- A call on the queue. -/
inductive QueueCall where
  | append (data : List UInt8)
  | getOneIovec
  | getBatchFragment (maxCount : ℕ)
  | retrieve (len : ℕ)

/-- The queue, and every iovec it has returned since the last `retrieve`. -/
structure HandOut where
  queue : SendQueue
  returned : List Iovec

namespace HandOut

open SendQueue

def init : HandOut := ⟨SendQueue.empty, []⟩

def call (s : HandOut) : QueueCall → Option HandOut
  | .append data => some { s with queue := s.queue.append data }
  | .getOneIovec =>
      let (iov, queue) := s.queue.getOneIovec
      some ⟨queue, s.returned ++ [iov]⟩
  | .getBatchFragment maxCount =>
      let (iovecs, queue) := s.queue.getBatchFragment [] maxCount
      some ⟨queue, s.returned ++ iovecs⟩
  | .retrieve len => some ⟨s.queue.retrieve len, []⟩

/-- The fragments among the iovecs returned; `getOneIovec` at a null cursor returns `iovec{}`. -/
def handedOut (s : HandOut) : List Iovec := s.returned.filter fun iov => iov.base.isSome

/-- The queue is well formed and the fragments before the cursor are those handed out. -/
structure Sound (s : HandOut) (l : List ℕ) (k : ℕ) : Prop where
  rep : Rep s.queue l k
  handedOut : s.handedOut = (l.take k).map s.queue.iovecOf

/-- The iovecs of nodes are fragments; the cursor that moved past them does not matter. -/
lemma handedOut_append (q q' : SendQueue) (iovecs : List Iovec) (l : List ℕ) :
    (HandOut.mk q' (iovecs ++ l.map q.iovecOf)).handedOut
      = (HandOut.mk q iovecs).handedOut ++ l.map q.iovecOf := by
  have hall : (l.map q.iovecOf).filter (fun iov => iov.base.isSome) = l.map q.iovecOf := by
    refine List.filter_eq_self.mpr ?_
    intro iov hiov
    obtain ⟨p, -, rfl⟩ := List.mem_map.mp hiov
    rfl
  simp only [HandOut.handedOut, List.filter_append, hall]

theorem Sound.call {s s' : HandOut} {l : List ℕ} {k : ℕ} {c : QueueCall} (hs : Sound s l k)
    (hc : s.call c = some s') : ∃ l' k', Sound s' l' k' := by
  obtain ⟨q, returned⟩ := s
  obtain ⟨hr, hout⟩ := hs
  cases c with
  | append data =>
      obtain rfl := Option.some.inj hc
      refine ⟨_, k, hr.append data, ?_⟩
      -- the nodes handed out keep their bytes
      have hold : ∀ p ∈ l.take k, (q.append data).iovecOf p = q.iovecOf p :=
        fun p hp => hr.append_iovecOf data (List.mem_of_mem_take hp)
      rw [List.take_append_of_le_length hr.cursor, List.map_congr_left hold]
      exact hout
  | getOneIovec =>
      rcases Nat.lt_or_eq_of_le hr.cursor with hk | rfl
      · simp only [HandOut.call, hr.getOneIovec hk, Option.some.injEq] at hc
        subst hc
        refine ⟨l, k + 1, hr.setCurr hk, ?_⟩
        rw [List.take_succ_eq_append_getElem hk, List.map_append]
        refine (handedOut_append q _ returned [l[k]]).trans ?_
        exact congrArg (· ++ _) hout
      · have hcurr : q.curr = none := hr.curr.trans (by simp)
        simp only [HandOut.call, SendQueue.getOneIovec, hcurr, Option.some.injEq] at hc
        subst hc
        refine ⟨l, l.length, hr, ?_⟩
        simpa [HandOut.handedOut] using hout
  | getBatchFragment maxCount =>
      obtain ⟨hbatch, hr'⟩ := hr.getBatchFragment maxCount
      simp only [HandOut.call, hbatch, Option.some.injEq] at hc
      subst hc
      refine ⟨l, _, hr', ?_⟩
      have htake : l.take (min (k + maxCount) l.length) = l.take k ++ (l.drop k).take maxCount := by
        rw [← List.take_add, ← List.take_take, List.take_length]
      rw [htake, List.map_append]
      refine (handedOut_append q _ returned _).trans ?_
      exact congrArg (· ++ _) hout
  | retrieve len =>
      obtain rfl := Option.some.inj hc
      obtain ⟨l', hr', -⟩ := hr.retrieve len
      exact ⟨l', 0, hr', rfl⟩

theorem sound_of_reach {s : HandOut} (run : Reach HandOut.call anyStep init s) :
    ∃ l k, Sound s l k := by
  refine run.invariant (P := fun s => ∃ l k, Sound s l k) ⟨[], 0, rep_empty, rfl⟩ ?_
  rintro s c s' ⟨l, k, hs⟩ - hc
  exact hs.call hc

/-- What was handed out and what is still to hand out are all fragments. -/
theorem Sound.handedOut_pending {s : HandOut} {l : List ℕ} {k : ℕ} (hs : Sound s l k) :
    s.handedOut ++ s.queue.pending.map s.queue.iovecOf = l.map s.queue.iovecOf := by
  rw [hs.handedOut, hs.rep.pending_eq, ← List.map_append, List.take_append_drop]

/-- Iovecs of different nodes are different. -/
theorem iovecOf_injective (q : SendQueue) : Function.Injective q.iovecOf := by
  intro p p' h
  simp only [iovecOf, Iovec.mk.injEq, Option.some.injEq, Prod.mk.injEq] at h
  exact h.1.1

/-- **The queue is a byte queue with a hand-out cursor**, after every sequence of calls. -/
theorem byte_queue {s : HandOut} (run : Reach HandOut.call anyStep init s) :
    (∃ l, Consistent s.queue l ∧
      s.handedOut ++ s.queue.pending.map s.queue.iovecOf = l.map s.queue.iovecOf ∧
      (s.handedOut ++ s.queue.pending.map s.queue.iovecOf).Nodup ∧
      (l.map s.queue.iovecOf).map s.queue.load = s.queue.fragments) ∧
    (∀ n, (s.queue.retrieve n).unsent = s.queue.unsent.drop (min n s.queue.totalLen) ∧
      (s.queue.retrieve n).totalLen = s.queue.totalLen - min n s.queue.totalLen ∧
      (s.queue.retrieveLoop n).2 = min n s.queue.totalLen ∧
      retrieveTest n (s.queue.retrieveLoop n) = false ∧
      (s.queue.retrieve n).curr = (s.queue.retrieve n).head) ∧
    ∀ a b, (s.queue.retrieve a).retrieve b = s.queue.retrieve (a + b) := by
  obtain ⟨l, k, hs⟩ := sound_of_reach run
  refine ⟨⟨l, hs.rep.consistent, hs.handedOut_pending, ?_, ?_⟩, ?_, hs.rep.retrieve_retrieve⟩
  · rw [hs.handedOut_pending]
    exact hs.rep.linked.nodup.map (iovecOf_injective _)
  · rw [hs.rep.load_iovecs fun p hp => hp, hs.rep.fragments_eq, restsOf]
  · intro n
    obtain ⟨hunsent, hwritten, htotal, hcurr⟩ := hs.rep.retrieve_drops n
    exact ⟨hunsent, htotal, hwritten, hs.rep.retrieveLoop_ends n, hcurr⟩

/-- An empty fragment at the end, a batch that ends between the fragments, an `append` after it and
two portions of which the first ends inside a fragment. -/
theorem byte_queue_partial : ∃ s, Reach HandOut.call anyStep init s ∧
    s.handedOut = [⟨some (0, 0), 2⟩, ⟨some (1, 0), 0⟩] ∧ s.queue.totalLen = 5 ∧
    (s.queue.retrieve 1).retrieve 3 = s.queue.retrieve (1 + 3) := by
  obtain ⟨s, run, h⟩ := exists_reach HandOut.call anyStep init
    [.append [1, 2], .append [], .append [3], .retrieve 0, .getBatchFragment 1, .getOneIovec,
      .append [4, 5]]
    (fun s => decide (s.handedOut = [⟨some (0, 0), 2⟩, ⟨some (1, 0), 0⟩] ∧ s.queue.totalLen = 5))
    (by decide)
  obtain ⟨hout, htotal⟩ := of_decide_eq_true h
  exact ⟨s, run, hout, htotal, (byte_queue run).2.2 1 3⟩

end HandOut

end Proactor
