import Proactor.Core.Chain
import Proactor.Core.Loop

/-!
# The output queue

`SendQueue` (`include/SendQueue.hpp`) keeps the strings a connection has still to send as a
singly linked list of `TxFragment` nodes.  Besides `head_` and `tail_` it has a hand-out cursor
`curr_`: taking a batch for the kernel moves the cursor, acknowledging bytes moves the head and
puts the cursor back to the front.

The model keeps the pointers.  A node is named by its address, `heap` is the memory the nodes
live in, `fresh` is the next address `new` returns, and `none` is the null pointer.  An iovec is
a node address with an offset and a length, so two iovecs are equal exactly when they point at
the same bytes of the same fragment, and not merely at equal bytes.
-/

namespace Proactor

open Chain Loop

/-- `TxFragment`.  `ptr` holds the bytes behind `ptr_`; `guard_`, which only keeps that memory
alive as long as the node, is not modelled. -/
structure TxFragment where
  ptr : List UInt8 := []
  len : ℕ := 0
  written : ℕ := 0
  next : Option ℕ := none

/-- `struct iovec`: node address and offset for `iov_base`, and `iov_len`. -/
structure Iovec where
  base : Option (ℕ × ℕ)
  len : ℕ
  deriving DecidableEq

def TxFragment.remainData (f : TxFragment) : ℕ := f.len - f.written

/-- The bytes from `beginRead` to the end of the fragment. -/
def TxFragment.rest (f : TxFragment) : List UInt8 := f.ptr.drop f.written

structure SendQueue where
  heap : ℕ → TxFragment
  fresh : ℕ
  head : Option ℕ
  tail : Option ℕ
  curr : Option ℕ
  sliceSize : ℕ
  totalLen : ℕ

namespace SendQueue

/-- The constructor. -/
def empty : SendQueue where
  heap := fun _ => {}
  fresh := 0
  head := none
  tail := none
  curr := none
  sliceSize := 0
  totalLen := 0

/-- Overwrite one node. -/
def write (q : SendQueue) (p : ℕ) (f : TxFragment) : SendQueue :=
  { q with heap := Function.update q.heap p f }

/-- `next_` of the node at an address. -/
def next (q : SendQueue) (p : ℕ) : Option ℕ := (q.heap p).next

def pushBack (q : SendQueue) : SendQueue :=
  let fragment := q.fresh
  let q := { q.write fragment {} with fresh := fragment + 1 }
  let q : SendQueue := match q.tail with
    | none => { q with head := some fragment, curr := some fragment, tail := some fragment }
    | some t => { q.write t { q.heap t with next := some fragment } with tail := some fragment }
  -- everything was handed out but not yet acknowledged: the cursor moves to the new node
  let q : SendQueue := if q.curr = none then { q with curr := q.tail } else q
  { q with sliceSize := q.sliceSize + 1 }

def popFront (q : SendQueue) : SendQueue :=
  match q.head with
  | none => q
  | some h =>
      let q := { q with head := q.next h }
      let q : SendQueue := if q.head = none then { q with curr := none, tail := none } else q
      { q.write h {} with sliceSize := q.sliceSize - 1 }

def append (q : SendQueue) (data : List UInt8) : SendQueue :=
  let q := q.pushBack
  match q.tail with
  | none => q
  | some t =>
      { q.write t { q.heap t with ptr := data, len := data.length } with
        totalLen := q.totalLen + data.length }

/-- The iovec of the unsent part of a node. -/
def iovecOf (q : SendQueue) (p : ℕ) : Iovec :=
  ⟨some (p, (q.heap p).written), (q.heap p).remainData⟩

def getOneIovec (q : SendQueue) : Iovec × SendQueue :=
  match q.curr with
  | none => (⟨none, 0⟩, q)
  | some c => (q.iovecOf c, { q with curr := q.next c })

/-- The loop of `getBatchFragment`, by the number of iovecs still allowed. -/
def takeFragments : ℕ → SendQueue → List Iovec × SendQueue
  | 0, q => ([], q)
  | n + 1, q =>
      if q.curr.isSome then
        let (iov, q) := q.getOneIovec
        let (iovs, q) := takeFragments n q
        (iov :: iovs, q)
      else ([], q)

/-- The final `resize` cuts off what a non-empty argument brought along at the end. -/
def getBatchFragment (q : SendQueue) (iovecs : List Iovec) (maxCount : ℕ) :
    List Iovec × SendQueue :=
  let (iovs, q) := takeFragments maxCount q
  ((iovecs ++ iovs).take iovs.length, q)

/-- One turn of the loop of `retrieve`, on the queue and `written`. -/
def retrieveTurn (len : ℕ) (st : SendQueue × ℕ) : SendQueue × ℕ :=
  match st.1.head with
  | none => st
  | some h =>
      let f := st.1.heap h
      let offset := min f.remainData (len - st.2)
      let q := st.1.write h { f with written := f.written + offset }
      (if f.written + offset = f.len then q.popFront else q, st.2 + offset)

def retrieveLoop (q : SendQueue) (len : ℕ) : SendQueue × ℕ :=
  whileLoop (fun st => decide (st.2 < len) && st.1.head.isSome) (retrieveTurn len)
    (q.sliceSize + 1) (q, 0)

def retrieve (q : SendQueue) (len : ℕ) : SendQueue :=
  let (q, written) := q.retrieveLoop len
  { q with curr := q.head, totalLen := q.totalLen - written }

/-! ## What the queue holds -/

/-- The nodes from `head_` on. -/
def nodes (q : SendQueue) : List ℕ := walk q.next q.sliceSize q.head

/-- The unsent part of each fragment. -/
def fragments (q : SendQueue) : List (List UInt8) := q.nodes.map fun p => (q.heap p).rest

/-- The unsent bytes. -/
def unsent (q : SendQueue) : List UInt8 := q.fragments.flatten

/-- The bytes an iovec points at. -/
def load (q : SendQueue) (iov : Iovec) : List UInt8 :=
  match iov.base with
  | none => []
  | some (p, off) => ((q.heap p).ptr.drop off).take iov.len

end SendQueue

end Proactor
