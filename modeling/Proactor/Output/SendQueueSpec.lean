import Proactor.Core.Chunked
import Proactor.Output.SendQueue
import Mathlib.Tactic.SplitIfs

/-!
# What the output queue's operations do

`Rep q l k` says that the pointers of `q` are those of a proper list: the nodes are `l`, in this
order, and the cursor stands at the `k`-th of them (`k = l.length` is the null cursor).  Each
operation has one lemma here that says what it does to `l`, to `k` and to the bytes; nothing
later unfolds an operation.

`Shape` is the part of `Rep` that also holds inside the loop of `retrieve`, where the cursor may
dangle and `total_len_` has not been adjusted yet.
-/

namespace Proactor

open Chain Chunked Loop

namespace SendQueue

/-- The unsent part of each node of `l`. -/
def restsOf (q : SendQueue) (l : List ℕ) : List (List UInt8) := l.map fun p => (q.heap p).rest

/-- The bytes the nodes of `l` have still to send. -/
def unsentOf (q : SendQueue) (l : List ℕ) : List UInt8 := (l.map fun p => (q.heap p).rest).flatten

/-- The list structure, without cursor and length counter. -/
structure Shape (q : SendQueue) (l : List ℕ) : Prop where
  linked : Linked q.next q.head l
  tail : q.tail = l.getLast?
  sliceSize : q.sliceSize = l.length
  len : ∀ p ∈ l, (q.heap p).len = (q.heap p).ptr.length
  written : ∀ p ∈ l, (q.heap p).written ≤ (q.heap p).len
  fresh : ∀ p ∈ l, p < q.fresh

/-- A well-formed queue with nodes `l` and its cursor at position `k`. -/
structure Rep (q : SendQueue) (l : List ℕ) (k : ℕ) : Prop extends Shape q l where
  cursor : k ≤ l.length
  curr : q.curr = l[k]?
  totalLen : q.totalLen = (q.unsentOf l).length

lemma flatten_restsOf (q : SendQueue) (l : List ℕ) : (q.restsOf l).flatten = q.unsentOf l := rfl

lemma restsOf_cons (q : SendQueue) (p : ℕ) (l : List ℕ) :
    q.restsOf (p :: l) = (q.heap p).rest :: q.restsOf l := rfl

lemma restsOf_congr {q q' : SendQueue} {l : List ℕ}
    (h : ∀ p ∈ l, (q'.heap p).rest = (q.heap p).rest) : q'.restsOf l = q.restsOf l := by
  simp only [restsOf, List.map_congr_left h]

@[simp] lemma unsentOf_nil (q : SendQueue) : q.unsentOf [] = [] := rfl

@[simp] lemma unsentOf_cons (q : SendQueue) (p : ℕ) (l : List ℕ) :
    q.unsentOf (p :: l) = (q.heap p).rest ++ q.unsentOf l := by
  simp [unsentOf]

@[simp] lemma unsentOf_append (q : SendQueue) (l l' : List ℕ) :
    q.unsentOf (l ++ l') = q.unsentOf l ++ q.unsentOf l' := by
  simp [unsentOf]

lemma unsentOf_congr {q q' : SendQueue} {l : List ℕ}
    (h : ∀ p ∈ l, (q'.heap p).rest = (q.heap p).rest) : q'.unsentOf l = q.unsentOf l := by
  rw [← flatten_restsOf, ← flatten_restsOf, restsOf_congr h]

lemma Shape.nodes_eq {q : SendQueue} {l : List ℕ} (h : Shape q l) : q.nodes = l := by
  rw [nodes, h.sliceSize]
  exact h.linked.walk_eq

lemma Shape.fragments_eq {q : SendQueue} {l : List ℕ} (h : Shape q l) :
    q.fragments = q.restsOf l := by
  simp only [fragments, h.nodes_eq, restsOf]

lemma Shape.unsent_eq {q : SendQueue} {l : List ℕ} (h : Shape q l) : q.unsent = q.unsentOf l := by
  simp only [unsent, fragments, h.nodes_eq, unsentOf]

/-- A fragment added at the end adds its bytes. -/
lemma unsent_of_append {q q' : SendQueue} {data : List UInt8}
    (h : q'.fragments = q.fragments ++ [data]) : q'.unsent = q.unsent ++ data := by
  rw [unsent, h, List.flatten_append, List.flatten_singleton, ← unsent]

/-- Fragments skipped at the front take their bytes along. -/
lemma unsent_of_skip {q q' : SendQueue} {n : ℕ} (h : q'.fragments = skipFlat n q.fragments) :
    q'.unsent = q.unsent.drop n := by
  rw [unsent, h, flatten_skipFlat, ← unsent]

lemma Shape.rest_length {q : SendQueue} {l : List ℕ} (h : Shape q l) {p : ℕ} (hp : p ∈ l) :
    (q.heap p).rest.length = (q.heap p).remainData := by
  simp only [TxFragment.rest, TxFragment.remainData, List.length_drop, h.len p hp]

/-- The counter kept by the code is the number of unsent bytes. -/
lemma Rep.getTotalLen {q : SendQueue} {l : List ℕ} {k : ℕ} (h : Rep q l k) :
    q.totalLen = q.unsent.length := by
  rw [h.totalLen, h.toShape.unsent_eq]

/-- An iovec taken from a node of the list loads the unsent part of that node. -/
lemma Shape.load_iovecOf {q : SendQueue} {l : List ℕ} (h : Shape q l) {p : ℕ} (hp : p ∈ l) :
    q.load (q.iovecOf p) = (q.heap p).rest := by
  simp only [load, iovecOf]
  rw [← h.rest_length hp, TxFragment.rest, List.take_length]

lemma Shape.load_iovecs {q : SendQueue} {l : List ℕ} (h : Shape q l) {l' : List ℕ}
    (hl' : ∀ p ∈ l', p ∈ l) :
    (l'.map q.iovecOf).map q.load = l'.map fun p => (q.heap p).rest := by
  rw [List.map_map]
  exact List.map_congr_left fun p hp => h.load_iovecOf (hl' p hp)

lemma rep_empty : Rep empty [] 0 where
  linked := rfl
  tail := rfl
  sliceSize := rfl
  len := by simp
  written := by simp
  fresh := by simp
  cursor := Nat.le_refl _
  curr := rfl
  totalLen := rfl

/-! ## Appending -/

lemma append_of_tail_none {q : SendQueue} (h : q.tail = none) (data : List UInt8) :
    q.append data =
      { heap := Function.update q.heap q.fresh { ptr := data, len := data.length }
        fresh := q.fresh + 1
        head := some q.fresh
        tail := some q.fresh
        curr := some q.fresh
        sliceSize := q.sliceSize + 1
        totalLen := q.totalLen + data.length } := by
  simp [append, pushBack, write, h]

lemma append_of_tail_some {q : SendQueue} {t : ℕ} (h : q.tail = some t) (ht : t ≠ q.fresh)
    (data : List UInt8) :
    q.append data =
      { heap := Function.update (Function.update q.heap t { q.heap t with next := some q.fresh })
          q.fresh { ptr := data, len := data.length }
        fresh := q.fresh + 1
        head := q.head
        tail := some q.fresh
        curr := q.curr.or (some q.fresh)
        sliceSize := q.sliceSize + 1
        totalLen := q.totalLen + data.length } := by
  cases hc : q.curr with
  | none => simp [append, pushBack, write, h, hc, ht, ht.symm, Function.update_comm ht]
  | some c => simp [append, pushBack, write, h, hc, ht, ht.symm, Function.update_comm ht]

section Append

variable {q : SendQueue} {l : List ℕ} {k : ℕ}

lemma append_totalLen (q : SendQueue) (data : List UInt8) :
    (q.append data).totalLen = q.totalLen + data.length := by
  cases ht : q.tail <;> cases hc : q.curr <;> simp [append, pushBack, write, ht, hc]

lemma Shape.tail_ne_fresh (h : Shape q l) {t : ℕ} (ht : q.tail = some t) : t ≠ q.fresh :=
  Nat.ne_of_lt (h.fresh t (List.mem_of_getLast? (h.tail.symm.trans ht)))

/-- `append` changes no old node except for the link of the last one. -/
lemma Shape.append_old (h : Shape q l) (data : List UInt8) {p : ℕ} (hp : p ∈ l) :
    (q.append data).heap p
      = { q.heap p with next := if q.tail = some p then some q.fresh else q.next p } := by
  have hpf : p ≠ q.fresh := Nat.ne_of_lt (h.fresh p hp)
  cases ht : q.tail with
  | none => simp [append_of_tail_none ht, hpf, next]
  | some t =>
      rw [append_of_tail_some ht (h.tail_ne_fresh ht)]
      by_cases htp : t = p
      · subst htp; simp [hpf]
      · simp [hpf, htp, Ne.symm htp, next]

/-- The new node holds the data. -/
lemma Shape.append_new (h : Shape q l) (data : List UInt8) :
    (q.append data).heap q.fresh = { ptr := data, len := data.length } := by
  cases ht : q.tail with
  | none => simp [append_of_tail_none ht]
  | some t => simp [append_of_tail_some ht (h.tail_ne_fresh ht)]

lemma Shape.append_rest (h : Shape q l) (data : List UInt8) {p : ℕ} (hp : p ∈ l) :
    ((q.append data).heap p).rest = (q.heap p).rest := by
  rw [h.append_old data hp, TxFragment.rest, TxFragment.rest]

lemma Shape.append_iovecOf (h : Shape q l) (data : List UInt8) {p : ℕ} (hp : p ∈ l) :
    (q.append data).iovecOf p = q.iovecOf p := by
  simp only [iovecOf, h.append_old data hp, TxFragment.remainData]

lemma Shape.append_linked (h : Shape q l) (data : List UInt8) :
    Linked (q.append data).next (q.append data).head (l ++ [q.fresh]) := by
  have hnew : q.fresh ∉ l := fun hm => Nat.lt_irrefl _ (h.fresh _ hm)
  have hend : (q.append data).next q.fresh = none := by simp [next, h.append_new data]
  rcases List.eq_nil_or_concat' l with rfl | ⟨l', t, rfl⟩
  · exact ⟨by simp [append_of_tail_none h.tail], hend⟩
  · have htail : q.tail = some t := by simp [h.tail]
    have hhead : (q.append data).head = q.head := by
      simp [append_of_tail_some htail (h.tail_ne_fresh htail)]
    have hnext : (q.append data).next t = some q.fresh := by
      simp [next, h.append_old data (p := t), htail]
    rw [hhead]
    refine h.linked.snoc hnew hnext hend ?_
    intro p hp
    have hpt : t ≠ p := by
      rintro rfl
      exact List.disjoint_of_nodup_append h.linked.nodup hp (List.mem_singleton_self t)
    simp [next, h.append_old data (List.mem_append_left _ hp), htail, hpt]

lemma Shape.append (h : Shape q l) (data : List UInt8) :
    Shape (q.append data) (l ++ [q.fresh]) where
  linked := h.append_linked data
  tail := by
    cases ht : q.tail with
    | none => simp [append_of_tail_none ht]
    | some t => simp [append_of_tail_some ht (h.tail_ne_fresh ht)]
  sliceSize := by
    cases ht : q.tail with
    | none => simp [append_of_tail_none ht, h.sliceSize]
    | some t => simp [append_of_tail_some ht (h.tail_ne_fresh ht), h.sliceSize]
  len := by
    intro p hp
    rcases List.mem_append.mp hp with hp | hp
    · simpa [h.append_old data hp] using h.len p hp
    · simp [List.mem_singleton.mp hp, h.append_new data]
  written := by
    intro p hp
    rcases List.mem_append.mp hp with hp | hp
    · simpa [h.append_old data hp] using h.written p hp
    · simp [List.mem_singleton.mp hp, h.append_new data]
  fresh := by
    have hfresh : (q.append data).fresh = q.fresh + 1 := by
      cases ht : q.tail with
      | none => simp [append_of_tail_none ht]
      | some t => simp [append_of_tail_some ht (h.tail_ne_fresh ht)]
    intro p hp
    rcases List.mem_append.mp hp with hp | hp
    · have := h.fresh p hp
      omega
    · have := List.mem_singleton.mp hp
      omega

/-- **`append` adds one node at the end.**  The cursor stays where it is; if it was null it now
points at the new node. -/
theorem Rep.append (h : Rep q l k) (data : List UInt8) :
    Rep (q.append data) (l ++ [q.fresh]) k where
  toShape := h.toShape.append data
  cursor := by
    have := h.cursor
    simp only [List.length_append, List.length_singleton]
    omega
  curr := by
    have hcurr : (q.append data).curr = q.curr.or (some q.fresh) := by
      cases ht : q.tail with
      | none =>
          obtain rfl : l = [] := by simpa [h.tail] using ht
          simp [append_of_tail_none ht, h.curr]
      | some t => simp [append_of_tail_some ht (h.tail_ne_fresh ht)]
    rw [hcurr, h.curr]
    rcases Nat.lt_or_eq_of_le h.cursor with hk | rfl
    · simp [List.getElem?_append_left hk, List.getElem?_eq_getElem hk]
    · simp
  totalLen := by
    rw [append_totalLen, unsentOf_append, unsentOf_congr fun p hp => h.append_rest data hp]
    simp [h.append_new data, h.totalLen, TxFragment.rest]

/-- The fragments after `append`. -/
theorem Rep.fragments_append (h : Rep q l k) (data : List UInt8) :
    (q.append data).fragments = q.fragments ++ [data] := by
  rw [(h.append data).fragments_eq, h.fragments_eq, restsOf, List.map_append, ← restsOf,
    restsOf_congr fun p hp => h.append_rest data hp]
  simp [h.append_new data, TxFragment.rest]

end Append

/-! ## Handing out -/

section HandOut

variable {q : SendQueue} {l : List ℕ} {k : ℕ}

/-- Handing out moves the cursor and nothing else. -/
lemma takeFragments_totalLen (n : ℕ) (q : SendQueue) :
    (takeFragments n q).2.totalLen = q.totalLen := by
  induction n generalizing q with
  | zero => rfl
  | succ n ih =>
      rw [SendQueue.takeFragments]
      split
      · rw [ih]
        simp only [getOneIovec]
        split <;> rfl
      · rfl

lemma getBatchFragment_totalLen (q : SendQueue) (n : ℕ) :
    (q.getBatchFragment [] n).2.totalLen = q.totalLen :=
  takeFragments_totalLen n q

lemma Shape.setCurr (h : Shape q l) (c : Option ℕ) : Shape { q with curr := c } l :=
  ⟨h.linked, h.tail, h.sliceSize, h.len, h.written, h.fresh⟩

/-- Moving the cursor to position `j` changes nothing else. -/
lemma Rep.setCurr (h : Rep q l k) {j : ℕ} (hj : j ≤ l.length) :
    Rep { q with curr := l[j]? } l j where
  toShape := h.toShape.setCurr _
  cursor := hj
  curr := rfl
  totalLen := h.totalLen

/-- At a node, `getOneIovec` takes it and moves on to the next. -/
lemma Rep.getOneIovec (h : Rep q l k) (hk : k < l.length) :
    q.getOneIovec = (q.iovecOf l[k], { q with curr := l[k + 1]? }) := by
  have hcurr : q.curr = some l[k] := by rw [h.curr, List.getElem?_eq_getElem hk]
  have hnext : q.next l[k] = l[k + 1]? := h.linked.next_getElem hk
  simp [SendQueue.getOneIovec, hcurr, hnext]

/-- Taking `n` iovecs gives those of the next `n` nodes, as far as there are so many. -/
lemma Rep.takeFragments (h : Rep q l k) (n : ℕ) :
    takeFragments n q = (((l.drop k).take n).map q.iovecOf, { q with curr := l[k + n]? }) := by
  induction n generalizing q k with
  | zero => simp [SendQueue.takeFragments, ← h.curr]
  | succ n ih =>
      rcases Nat.lt_or_eq_of_le h.cursor with hk | rfl
      · have hcurr : q.curr = some l[k] := by rw [h.curr, List.getElem?_eq_getElem hk]
        rw [SendQueue.takeFragments, if_pos (by simp [hcurr]), h.getOneIovec hk]
        simp only [ih (h.setCurr hk), List.drop_eq_getElem_cons hk, List.take_succ_cons,
          List.map_cons]
        rw [show k + 1 + n = k + (n + 1) by omega]
        rfl
      · have hcurr : q.curr = none := by simp [h.curr]
        have hend : l[l.length + (n + 1)]? = q.curr := by simp [hcurr]
        rw [SendQueue.takeFragments, if_neg (by simp [hcurr]), hend]
        simp

/-- **A batch is the next run of fragments after the cursor**, and the cursor moves past it. -/
theorem Rep.getBatchFragment (h : Rep q l k) (n : ℕ) :
    q.getBatchFragment [] n = (((l.drop k).take n).map q.iovecOf, { q with curr := l[k + n]? }) ∧
      Rep { q with curr := l[k + n]? } l (min (k + n) l.length) := by
  constructor
  · simp only [SendQueue.getBatchFragment, h.takeFragments n, List.nil_append, List.take_length]
  · have hpos : l[k + n]? = l[min (k + n) l.length]? := by
      rcases Nat.le_total (k + n) l.length with hle | hle
      · rw [Nat.min_eq_left hle]
      · rw [Nat.min_eq_right hle]
        simp [hle]
    rw [hpos]
    exact h.setCurr (Nat.min_le_right _ _)

end HandOut

/-! ## Acknowledging -/

section Retrieve

variable {q : SendQueue} {l : List ℕ} {k : ℕ}

/-- Overwriting the head node with more of it written keeps the list. -/
lemma Shape.writeHead {h : ℕ} (hs : Shape q (h :: l)) {n : ℕ}
    (hn : n ≤ (q.heap h).len) :
    Shape (q.write h { q.heap h with written := n }) (h :: l) := by
  have hnd := hs.linked.nodup
  have hl : ∀ p ∈ l, p ≠ h := by
    rintro p hp rfl
    exact (List.nodup_cons.mp hnd).1 hp
  constructor
  · refine hs.linked.congr ?_
    intro p hp
    rcases List.mem_cons.mp hp with rfl | hp
    · simp [next, write]
    · simp [next, write, hl p hp]
  · exact hs.tail
  · exact hs.sliceSize
  · intro p hp
    rcases List.mem_cons.mp hp with rfl | hp'
    · simpa [write] using hs.len p hp
    · simpa [write, hl p hp'] using hs.len p hp
  · intro p hp
    rcases List.mem_cons.mp hp with rfl | hp'
    · simpa [write] using hn
    · simpa [write, hl p hp'] using hs.written p hp
  · exact hs.fresh

/-- `pop_front` removes the first node. -/
lemma Shape.popFront {h : ℕ} (hs : Shape q (h :: l)) :
    Shape q.popFront l ∧ q.popFront.totalLen = q.totalLen ∧
      ∀ p ∈ l, q.popFront.heap p = q.heap p := by
  have hnd := hs.linked.nodup
  have hl : ∀ p ∈ l, p ≠ h := by
    rintro p hp rfl
    exact (List.nodup_cons.mp hnd).1 hp
  have hhead : q.head = some h := hs.linked.1
  have hnext : q.next h = l.head? := hs.linked.2.head_eq
  have hheap : ∀ p ∈ l, q.popFront.heap p = q.heap p := by
    intro p hp
    cases hl0 : l.head? <;>
      simp [SendQueue.popFront, hhead, hnext, hl0, write, hl p hp]
  refine ⟨?_, ?_, hheap⟩
  · constructor
    · have hpop : q.popFront.head = l.head? := by
        cases hl0 : l.head? <;> simp [SendQueue.popFront, hhead, hnext, hl0, write]
      rw [hpop, ← hs.linked.2.head_eq]
      exact hs.linked.2.congr fun p hp => by simp only [next, hheap p hp]
    · cases l with
      | nil => simp [SendQueue.popFront, hhead, hnext, write]
      | cons x l => simp [SendQueue.popFront, hhead, hnext, write, hs.tail]
    · have := hs.sliceSize
      cases hl0 : l.head? <;> simp [SendQueue.popFront, hhead, hnext, hl0, write, this]
    · intro p hp
      simpa [hheap p hp] using hs.len p (List.mem_cons_of_mem _ hp)
    · intro p hp
      simpa [hheap p hp] using hs.written p (List.mem_cons_of_mem _ hp)
    · intro p hp
      have := hs.fresh p (List.mem_cons_of_mem _ hp)
      cases hl0 : l.head? <;> simpa [SendQueue.popFront, hhead, hnext, hl0, write] using this
  · cases hl0 : l.head? <;> simp [SendQueue.popFront, hhead, hnext, hl0, write]

/-- One turn of the loop drops bytes at the front: all of the first fragment, which is then
gone, or as many as are still wanted. -/
lemma Shape.retrieveTurn {h n len : ℕ} (hs : Shape q (h :: l)) (hn : n < len) :
    ∃ q' l' m, SendQueue.retrieveTurn len (q, n) = (q', n + m) ∧ Shape q' l' ∧
      q'.unsentOf l' = (q.unsentOf (h :: l)).drop m ∧ m ≤ (q.unsentOf (h :: l)).length ∧
      n + m ≤ len ∧ q'.totalLen = q.totalLen ∧ l' <:+ h :: l ∧ (l' = l ∨ n + m = len) ∧
      skipFlat (len - (n + m)) (q'.restsOf l') = skipFlat (len - n) (q.restsOf (h :: l)) := by
  have hmem : h ∈ h :: l := List.mem_cons_self
  have hlen := hs.rest_length hmem
  have hwritten := hs.written h hmem
  have hhead : q.head = some h := hs.linked.1
  set f := q.heap h with hf
  set m := min f.remainData (len - n) with hm
  have hle : m ≤ f.rest.length := by omega
  have hin : f.written + m ≤ f.len := by
    simp only [TxFragment.remainData] at hm
    omega
  have hs' : Shape (q.write h { f with written := f.written + m }) (h :: l) := hs.writeHead hin
  have hl : ∀ p ∈ l, p ≠ h := by
    rintro p hp rfl
    exact (List.nodup_cons.mp hs.linked.nodup).1 hp
  have hrests : (q.write h { f with written := f.written + m }).restsOf l = q.restsOf l :=
    restsOf_congr fun p hp => by simp [write, hl p hp]
  have hkeep : (q.write h { f with written := f.written + m }).unsentOf l = q.unsentOf l :=
    congrArg List.flatten hrests
  have hbound : m ≤ (q.unsentOf (h :: l)).length := by
    rw [unsentOf_cons, List.length_append, ← hf]
    omega
  have hcut : (q.unsentOf (h :: l)).drop m = f.rest.drop m ++ q.unsentOf l := by
    rw [unsentOf_cons, List.drop_append_of_le_length hle]
  by_cases hdone : f.written + m = f.len
  · -- the fragment is used up and its node is freed
    obtain ⟨hpop, htotal, hheap⟩ := hs'.popFront
    refine ⟨_, l, m, by simp [SendQueue.retrieveTurn, hhead, ← hf, ← hm, hdone], hpop, ?_, hbound,
      by omega, htotal, List.suffix_cons h l, Or.inl rfl, ?_⟩
    · have hempty : f.rest.drop m = [] := by
        simp only [TxFragment.remainData] at hlen
        exact List.drop_eq_nil_of_le (by omega)
      rw [hcut, hempty, List.nil_append, ← hkeep]
      exact unsentOf_congr fun p hp => by rw [hheap p hp]
    · have hall : m = f.rest.length := by
        simp only [TxFragment.remainData] at hlen
        omega
      rw [restsOf_cons, ← hf, skipFlat_cons_of_le _ (by omega) (by omega), ← hrests,
        show len - n - f.rest.length = len - (n + m) by omega]
      exact congrArg _ (restsOf_congr fun p hp => by rw [hheap p hp])
  · refine ⟨_, h :: l, m, by simp [SendQueue.retrieveTurn, hhead, ← hf, ← hm, hdone], hs', ?_,
      hbound, by omega, rfl, List.suffix_refl _, Or.inr ?_, ?_⟩
    · rw [hcut, unsentOf_cons, hkeep]
      simp [write, TxFragment.rest]
    · simp only [TxFragment.remainData] at hm
      omega
    · have hlast : m = len - n ∧ len - n < f.rest.length := by
        simp only [TxFragment.remainData] at hm hlen
        omega
      rw [restsOf_cons, restsOf_cons, hrests, skipFlat_cons_of_lt _ hlast.2, ← hlast.1,
        show len - (n + m) = 0 by omega, skipFlat_zero]
      simp [write, TxFragment.rest]

/-- The loop of `retrieve` ends, with the first `min len total` bytes gone. -/
lemma Shape.retrieveLoop (hs : Shape q l) (len : ℕ) :
    ∃ l', Shape (q.retrieveLoop len).1 l' ∧ l' <:+ l ∧
      (q.retrieveLoop len).1.unsentOf l' = (q.unsentOf l).drop len ∧
      (q.retrieveLoop len).2 = min len (q.unsentOf l).length ∧
      (q.retrieveLoop len).1.totalLen = q.totalLen ∧
      (q.retrieveLoop len).1.restsOf l' = skipFlat len (q.restsOf l) := by
  -- the invariant: what is left is what was there without its first `written` bytes, and skipping
  -- the bytes still wanted there is skipping all of them at the start
  let Inv : SendQueue × ℕ → Prop := fun st => ∃ l', Shape st.1 l' ∧ l' <:+ l ∧
    st.1.unsentOf l' = (q.unsentOf l).drop st.2 ∧ st.2 ≤ len ∧
    st.2 ≤ (q.unsentOf l).length ∧ st.1.totalLen = q.totalLen ∧
    skipFlat (len - st.2) (st.1.restsOf l') = skipFlat len (q.restsOf l)
  -- the variant: every turn frees a node or is the last one
  let μ : SendQueue × ℕ → ℕ := fun st => st.1.sliceSize + if st.2 < len then 1 else 0
  have hkeep : ∀ st, Inv st → (decide (st.2 < len) && st.1.head.isSome) = true →
      Inv (SendQueue.retrieveTurn len st) ∧ μ (SendQueue.retrieveTurn len st) < μ st := by
    rintro ⟨q₁, n⟩ ⟨l₁, hs₁, hsuf, hbytes, hnlen, hntot, htotal, hskip⟩ hc
    simp only [Bool.and_eq_true, decide_eq_true_eq] at hc
    obtain ⟨hlt, hhead⟩ := hc
    cases l₁ with
    | nil => rw [hs₁.linked] at hhead; simp at hhead
    | cons h l₁ =>
        obtain ⟨q₂, l₂, m, hturn, hs₂, hbytes₂, hm, hle, htotal₂, hsuf₂, hend, hskip₂⟩ :=
          hs₁.retrieveTurn hlt
        have hmtot : n + m ≤ (q.unsentOf l).length := by
          rw [hbytes, List.length_drop] at hm
          omega
        rw [hturn]
        refine ⟨⟨l₂, hs₂, hsuf₂.trans hsuf, ?_, hle, hmtot, htotal₂.trans htotal,
          hskip₂.trans hskip⟩, ?_⟩
        · rw [hbytes₂, hbytes, List.drop_drop]
        · have hslice := hs₁.sliceSize
          have hslice₂ := hs₂.sliceSize
          simp only [List.length_cons] at hslice
          have hshort := hsuf₂.length_le
          simp only [List.length_cons] at hshort
          simp only [μ]
          rcases hend with rfl | hend
          · split_ifs <;> omega
          · split_ifs <;> omega
  have hstart : Inv (q, 0) :=
    ⟨l, hs, List.suffix_refl l, by simp, Nat.zero_le _, Nat.zero_le _, rfl, rfl⟩
  have hfuel : μ (q, 0) ≤ q.sliceSize + 1 := by
    simp only [μ]
    split_ifs <;> omega
  obtain ⟨⟨l', hs', hsuf, hbytes, hnlen, hntot, htotal, hskip⟩, hexit⟩ :=
    whileLoop_total μ hkeep (q.sliceSize + 1) (q, 0) hstart hfuel
  change Shape (q.retrieveLoop len).1 l' at hs'
  change (q.retrieveLoop len).1.unsentOf l' = (q.unsentOf l).drop (q.retrieveLoop len).2 at hbytes
  change skipFlat (len - (q.retrieveLoop len).2) ((q.retrieveLoop len).1.restsOf l')
    = skipFlat len (q.restsOf l) at hskip
  change (q.retrieveLoop len).2 ≤ len at hnlen
  change (q.retrieveLoop len).2 ≤ (q.unsentOf l).length at hntot
  change (decide ((q.retrieveLoop len).2 < len) && (q.retrieveLoop len).1.head.isSome) = false
    at hexit
  refine ⟨l', hs', hsuf, ?_⟩
  rcases Nat.lt_or_eq_of_le hnlen with hlt | heq
  · -- the list ran out first
    have hnone : (q.retrieveLoop len).1.head = none := by simpa [hlt] using hexit
    obtain rfl : l' = [] := by
      have := hs'.linked.head_eq
      rw [hnone] at this
      exact List.head?_eq_none_iff.mp this.symm
    have hall : (q.unsentOf l).length ≤ (q.retrieveLoop len).2 := by
      rw [unsentOf_nil] at hbytes
      exact List.drop_eq_nil_iff.mp hbytes.symm
    refine ⟨?_, by omega, htotal, ?_⟩
    · rw [unsentOf_nil]
      exact (List.drop_eq_nil_of_le (by omega)).symm
    · rw [← hskip]
      simp [restsOf]
  · rw [heq] at hbytes hntot hskip ⊢
    rw [Nat.sub_self, skipFlat_zero] at hskip
    exact ⟨hbytes, by omega, htotal, hskip⟩

/-- **`retrieve` drops bytes at the front and rewinds the cursor**, whatever the cursor was. -/
theorem Rep.retrieve (h : Rep q l k) (len : ℕ) :
    ∃ l', Rep (q.retrieve len) l' 0 ∧ l' <:+ l ∧ (q.retrieve len).unsent = q.unsent.drop len ∧
      (q.retrieve len).fragments = skipFlat len q.fragments := by
  obtain ⟨l', hs, hsuf, hbytes, hwritten, htotal, hrests⟩ := h.toShape.retrieveLoop len
  have hrep : Rep (q.retrieve len) l' 0 := by
    refine { toShape := ?_, cursor := Nat.zero_le _, curr := ?_, totalLen := ?_ }
    · exact ⟨hs.linked, hs.tail, hs.sliceSize, hs.len, hs.written, hs.fresh⟩
    · rw [← List.head?_eq_getElem?]
      exact hs.linked.head_eq
    · have hunsent : (q.retrieve len).unsentOf l' = (q.unsentOf l).drop len := hbytes
      rw [hunsent, List.length_drop]
      simp only [SendQueue.retrieve, hwritten, htotal, h.totalLen]
      omega
  refine ⟨l', hrep, hsuf, ?_, ?_⟩
  · rw [hrep.unsent_eq, h.unsent_eq]
    exact hbytes
  · rw [hrep.fragments_eq, h.fragments_eq]
    exact hrests

end Retrieve

end SendQueue

end Proactor
