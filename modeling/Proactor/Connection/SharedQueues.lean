import Proactor.Connection.SharedLoop
import Proactor.Core.Slots
import Proactor.Core.Tagged
import Mathlib.Data.Finset.Prod
import Mathlib.Data.Finset.Card

/-!
# The shared queues of a loop, connection by connection

* `Shares` — the queues of each connection are its entries in the shared ones, in order.
* `Sound` — this, and that every connection is in a state of a run of `Session` and the ring in
  one of `SubmitRing`, in every state reached.
* `shared_queues_refine` — so what is proved of a single connection holds of all that share a loop.
* `requests_wait_once` — no context of a connection is twice in `waiting_submit_queue_`, nor in it
  while a request for it is in the kernel, so that the queue is bounded by the connections.
-/

namespace Proactor

open Transition Tagged

namespace SharedLoop

variable {l l' : SharedLoop} {i : ℕ} {s t : Session} {capacity lowWaterMark : ℕ}

/-- **The queues of the connections are the shared ones.** -/
structure Shares (l : SharedLoop) : Prop where
  waiting : Split l.ring.waiters l.conns Session.waiting
  sqes : Split l.ring.entries l.conns fun s => s.sqes.map Sqe.kind
  functors : Split l.pendingFunctors l.conns Session.functors

/-- The loop thread is at work on one connection at most. -/
def Alone (l : SharedLoop) : Prop :=
  ∀ (i j : ℕ) (s t : Session), l.conns[i]? = some s → l.conns[j]? = some t →
    s.ctl ≠ .idle → t.ctl ≠ .idle → i = j

/-- **What holds in every state reached.** -/
structure Sound (capacity lowWaterMark : ℕ) (l : SharedLoop) : Prop where
  session : ∀ s ∈ l.conns, s.Reached
  ring : Reach SubmitRing.step anyStep (.create capacity lowWaterMark) l.ring
  alone : l.Alone
  shares : l.ring.halt = none → l.Shares

theorem sound_create : Sound capacity lowWaterMark (create capacity lowWaterMark) where
  session := by simp [create]
  ring := .start
  alone := by simp [Alone, create]
  shares := fun _ => ⟨fun i => by simp [create, SubmitRing.waiters, SubmitRing.create],
    fun i => by simp [create, SubmitRing.entries, SubmitRing.made, SubmitRing.create],
    fun i => by simp [create]⟩

/-! ## The calls of a connection -/

section

variable {r : SubmitRing}

/-- A submit function called by connection `i`. -/
theorem act_callOf (hmark : 1 ≤ r.sqeLowWaterMark) (i : ℕ) (c : ContextType) :
    (r.act (callOf i c.kind)).entries
        = r.entries ++ (if r.remainedSqe < r.sqeLowWaterMark then [] else [(i, c.kind)]) ∧
      (r.act (callOf i c.kind)).waiters
        = r.waiters ++ (if r.remainedSqe < r.sqeLowWaterMark then [(i, c)] else []) := by
  have heven : 2 * i / 2 = i := by omega
  have hodd : (2 * i + 1) / 2 = i := by omega
  by_cases low : r.remainedSqe < r.sqeLowWaterMark
  · rw [if_pos low, if_pos low, List.append_nil]
    cases c with
    | read =>
        have h := SubmitRing.submit_low_shares .recvMultishot ⟨2 * i, .read⟩ low
        simp only [SubmitRing.IoContext.owner?, heven] at h
        exact h
    | write =>
        have h := SubmitRing.submit_low_shares .writev ⟨2 * i + 1, .write⟩ low
        simp only [SubmitRing.IoContext.owner?, hodd] at h
        exact h
  · rw [if_neg low, if_neg low, List.append_nil]
    cases c with
    | read =>
        have h := SubmitRing.submit_room_shares .recvMultishot ⟨2 * i, .read⟩ hmark low
        simp only [SubmitRing.Sqe.owner?, heven] at h
        exact h
    | write =>
        have h := SubmitRing.submit_room_shares .writev ⟨2 * i + 1, .write⟩ hmark low
        simp only [SubmitRing.Sqe.owner?, hodd] at h
        exact h

/-- A submit function called by the acceptor. -/
theorem accept_shares (hmark : 1 ≤ r.sqeLowWaterMark) (addr : ℕ) :
    (r.submitAcceptMultishut addr).waiters = r.waiters ∧
      (r.submitAcceptMultishut addr).entries = r.entries := by
  by_cases low : r.remainedSqe < r.sqeLowWaterMark
  · have h := SubmitRing.submit_low_shares .acceptMultishot ⟨addr, .accept⟩ low
    simp only [SubmitRing.IoContext.owner?, Option.toList_none, List.append_nil] at h
    exact h.symm
  · have h := SubmitRing.submit_room_shares .acceptMultishot ⟨addr, .accept⟩ hmark low
    simp only [SubmitRing.Sqe.owner?, Option.toList_none, List.append_nil] at h
    exact h.symm

end

/-- **A step makes no call, or one.** -/
theorem calls_cases (asks : Session.Asks s t) :
    calls i s t = [] ∨ ∃ k, calls i s t = [callOf i k] := by
  cases asks with
  | nothing hs hw => exact .inl (by simp [calls, hs, hw])
  | prepared c _ hs hw => exact .inr ⟨c.kind, by simp [calls, hs, hw]⟩
  | queued c _ hs hw => exact .inr ⟨c.kind, by simp [calls, hs, hw]⟩
  | cancelled hs hw => exact .inr ⟨.cancel, by simp [calls, hs, hw]⟩

theorem put_ring_reach {r₀ : SubmitRing} (asks : Session.Asks s t)
    (run : Reach SubmitRing.step anyStep r₀ l.ring) (running : l.ring.halt = none) :
    Reach SubmitRing.step anyStep r₀ (l.put i s t).ring := by
  rcases calls_cases (i := i) asks with hcalls | ⟨k, hcalls⟩
  · simpa only [put, hcalls, List.foldl_nil] using run
  · simp only [put, hcalls, List.foldl_cons, List.foldl_nil]
    exact run.next (a := callOf i k) trivial (by simp only [SubmitRing.step, running, if_true])

/-- **The ring decides as the connection did**: the connection's new entries and its new waiting
requests are those of the shared queues. -/
theorem put_ring_shares (hmark : 1 ≤ l.ring.sqeLowWaterMark) (facing : s.sqeLow = l.low)
    (asks : Session.Asks s t) (ok : (l.put i s t).ring.halt = none) :
    (l.put i s t).ring.waiters
        = l.ring.waiters ++ (t.waiting.drop s.waiting.length).map (Prod.mk i) ∧
      (l.put i s t).ring.entries = l.ring.entries ++
        ((t.sqes.map Sqe.kind).drop (s.sqes.map Sqe.kind).length).map (Prod.mk i) := by
  cases asks with
  | nothing hs hw => simp [put, calls, hs, hw]
  | prepared c room hs hw =>
      have hroom : ¬ l.ring.remainedSqe < l.ring.sqeLowWaterMark := by
        simpa [low] using facing.symm.trans room
      obtain ⟨hentries, hwaiters⟩ := act_callOf hmark i c
      rw [if_neg hroom] at hentries hwaiters
      simp [put, calls, hs, hw, hentries, hwaiters]
  | queued c hlow hs hw =>
      have hlow : l.ring.remainedSqe < l.ring.sqeLowWaterMark := by
        simpa [low] using facing.symm.trans hlow
      obtain ⟨hentries, hwaiters⟩ := act_callOf hmark i c
      rw [if_pos hlow] at hentries hwaiters
      simp [put, calls, hs, hw, hentries, hwaiters]
  | cancelled hs hw =>
      have hput : (l.put i s t).ring = l.ring.submitCancel (2 * i) := by
        simp [put, calls, hs, hw, callOf, SubmitRing.act]
      rw [hput] at ok ⊢
      obtain ⟨hentries, hwaiters⟩ := SubmitRing.submitCancel_shares _ ok
      simp [hs, hw, hentries, hwaiters]

theorem Shares.put (hs : l.Shares) (hmark : 1 ≤ l.ring.sqeLowWaterMark)
    (hi : l.conns[i]? = some s) (facing : s.sqeLow = l.low) (asks : Session.Asks s t)
    (functors : s.functors <+: t.functors) (ok : (l.put i s t).ring.halt = none) :
    (l.put i s t).Shares := by
  obtain ⟨hwaiters, hentries⟩ := put_ring_shares hmark facing asks ok
  have hgrows : s.waiting <+: t.waiting ∧ s.sqes <+: t.sqes := by
    cases asks <;> simp [*]
  refine ⟨?_, ?_, ?_⟩
  · rw [hwaiters]
    exact hs.waiting.push hi (List.prefix_iff_eq_append.mp hgrows.1).symm
  · rw [hentries]
    exact hs.sqes.push hi (List.prefix_iff_eq_append.mp (hgrows.2.map Sqe.kind)).symm
  · exact hs.functors.push hi (List.prefix_iff_eq_append.mp functors).symm

/-! ## Steps -/

theorem not_ended (h : l.ended = false) :
    l.ring.halt = none ∧ ∀ s ∈ l.conns, s.fault = none := by
  simp only [ended, Bool.or_eq_false_iff, decide_eq_false_iff_not, not_not, List.any_eq_false] at h
  exact ⟨h.1, fun s hs => by simpa using h.2 s hs⟩

theorem idle_iff : l.idle = true ↔ ∀ s ∈ l.conns, s.ctl = .idle := by
  simp [idle]

/-- The loop thread is at work on nobody, or `i` is not one it has begun to work on. -/
theorem Alone.set (h : l.Alone) (hi : l.conns[i]? = some s)
    (hctl : l.idle = true ∨ (s.ctl = .idle → t.ctl = .idle)) :
    ∀ r q, Alone ⟨r, q, l.conns.set i t⟩ := by
  intro r q j k u v hj hk hu hv
  obtain ⟨hlt, -⟩ := List.getElem?_eq_some_iff.mp hi
  -- whoever is at work now was so before, or is `i`
  have hbefore : ∀ (n : ℕ) (w : Session), (l.conns.set i t)[n]? = some w → w.ctl ≠ .idle →
      n = i ∧ w = t ∨ n ≠ i ∧ l.conns[n]? = some w := by
    intro n w hn _
    by_cases h : i = n
    · subst h
      rw [List.getElem?_set_self hlt] at hn
      exact .inl ⟨rfl, (Option.some.inj hn).symm⟩
    · rw [List.getElem?_set_ne h] at hn
      exact .inr ⟨Ne.symm h, hn⟩
  have hother : ∀ (n : ℕ) (w : Session), n ≠ i → l.conns[n]? = some w → w.ctl ≠ .idle →
      t.ctl = .idle := by
    intro n w hn hw hbusy
    rcases hctl with hctl | hctl
    · exact absurd (idle_iff.mp hctl w (List.mem_of_getElem? hw)) hbusy
    · refine hctl ?_
      by_contra hs
      exact hn (h n i w s hw hi hbusy hs)
  rcases hbefore j u hj hu with ⟨rfl, rfl⟩ | ⟨hji, hj'⟩
  · rcases hbefore k v hk hv with ⟨rfl, -⟩ | ⟨hki, hk'⟩
    · rfl
    · exact absurd (hother k v hki hk' hv) hu
  · rcases hbefore k v hk hv with ⟨rfl, rfl⟩ | ⟨hki, hk'⟩
    · exact absurd (hother j u hji hj' hu) hv
    · exact h j k u v hj' hk' hu hv

theorem Alone.snoc (h : l.Alone) (hctl : l.idle = true ∨ t.ctl = .idle) :
    ∀ r q, Alone ⟨r, q, l.conns ++ [t]⟩ := by
  intro r q j k u v hj hk hu hv
  rcases Slots.getElem?_snoc hj with ⟨-, hju⟩ | ⟨rfl, rfl⟩
  · rcases Slots.getElem?_snoc hk with ⟨-, hkv⟩ | ⟨rfl, rfl⟩
    · exact h j k u v hju hkv hu hv
    · rcases hctl with hctl | hctl
      · exact absurd (idle_iff.mp hctl u (List.mem_of_getElem? hju)) hu
      · exact absurd hctl hv
  · rcases Slots.getElem?_snoc hk with ⟨-, hkv⟩ | ⟨rfl, -⟩
    · rcases hctl with hctl | hctl
      · exact absurd (idle_iff.mp hctl v (List.mem_of_getElem? hkv)) hv
      · exact absurd hctl hu
    · rfl

section

variable (hlow : 1 ≤ lowWaterMark) (h : Sound capacity lowWaterMark l)
  (running : l.ring.halt = none) (alive : ∀ s ∈ l.conns, s.fault = none)

include hlow h in
theorem Sound.mark : 1 ≤ l.ring.sqeLowWaterMark ∧ l.ring.Conserved := by
  obtain ⟨hconserved, hmark⟩ := SubmitRing.reach_conserved hlow h.ring
  exact ⟨hmark ▸ hlow, hconserved⟩

include h in
theorem Sound.set_session (reached : t.Reached) : ∀ u ∈ l.conns.set i t, u.Reached := by
  intro u hu
  rcases List.mem_or_eq_of_mem_set hu with hu | rfl
  · exact h.session u hu
  · exact reached

include h alive in
theorem Sound.facing (hi : l.conns[i]? = some s) : (l.facing s).Reached :=
  have hs := List.mem_of_getElem? hi
  (h.session s hs).pressure (alive s hs) l.low

include h running in
theorem Sound.connect (a b c d : ℕ) : Sound capacity lowWaterMark { l with
    pendingFunctors := l.pendingFunctors ++ [(l.conns.length, .established)]
    conns := l.conns ++ [.create a b c d] } where
  session := by
    intro u hu
    rcases List.mem_append.mp hu with hu | hu
    · exact h.session u hu
    · rw [List.mem_singleton.mp hu]
      exact ⟨a, b, c, d, .start⟩
  ring := h.ring
  alone := h.alone.snoc (.inr rfl) _ _
  shares := fun _ => by
    obtain ⟨hwaiting, hsqes, hfunctors⟩ := h.shares running
    exact ⟨hwaiting.snoc_nil rfl, hsqes.snoc_nil rfl, hfunctors.snoc (.create a b c d)⟩

include h running in
theorem Sound.connectInLoop {a b c d : ℕ} (idle : l.idle = true)
    (move : (Session.create a b c d).step .functor = some t) :
    Sound capacity lowWaterMark { l with conns := l.conns ++ [t] } where
  session := by
    intro u hu
    rcases List.mem_append.mp hu with hu | hu
    · exact h.session u hu
    · rw [List.mem_singleton.mp hu]
      exact Session.Reached.step ⟨a, b, c, d, .start⟩ move
  ring := h.ring
  alone := h.alone.snoc (.inl idle) _ _
  shares := fun _ => by
    obtain ⟨hwaiting, hsqes, hfunctors⟩ := h.shares running
    cases move
    exact ⟨hwaiting.snoc_nil rfl, hsqes.snoc_nil rfl, hfunctors.snoc_nil rfl⟩

include hlow h running in
/-- Connection `i` goes to `t`, from a state `s` that differs from the one in the list in that the
functor it runs has been taken. -/
theorem Sound.put {s₀ : Session} {q : List (ℕ × QueuedFunctor)} (hi : l.conns[i]? = some s₀)
    (reached : t.Reached) (facing : s.sqeLow = l.low) (asks : Session.Asks s t)
    (functors : s.functors <+: t.functors)
    (hctl : l.idle = true ∨ (s₀.ctl = .idle → t.ctl = .idle))
    (base : Shares { l with pendingFunctors := q, conns := l.conns.set i s }) :
    Sound capacity lowWaterMark ({ l with pendingFunctors := q }.put i s t) where
  session := h.set_session reached
  ring := put_ring_reach (l := { l with pendingFunctors := q }) asks h.ring running
  alone := h.alone.set hi hctl _ _
  shares := fun ok => by
    obtain ⟨hlt, -⟩ := List.getElem?_eq_some_iff.mp hi
    have hput := base.put (h.mark hlow).1 (List.getElem?_set_self hlt) facing asks functors ok
    simpa only [SharedLoop.put, List.set_set] using hput

include hlow h running alive in
theorem Sound.conn {act : SessionAct} (hi : l.conns[i]? = some s) (own : act.ofLoop = false)
    (turn : act.onLoopThread = true → l.idle = true)
    (move : (l.facing s).step act = some t) :
    Sound capacity lowWaterMark (l.put i (l.facing s) t) := by
  have hmove := Session.step_move move
  have hbase : Shares { l with conns := l.conns.set i (l.facing s) } := by
    obtain ⟨hwaiting, hsqes, hfunctors⟩ := h.shares running
    exact ⟨hwaiting.keep hi rfl, hsqes.keep hi rfl, hfunctors.keep hi rfl⟩
  have hfunctors : (l.facing s).functors <+: t.functors := by
    cases act with
    | functor => simp [SessionAct.ofLoop] at own
    | _ => exact hmove.functors (by simp)
  refine h.put hlow running hi ((h.facing alive hi).step move) rfl
    (hmove.asks fun hdrain => by simp [hdrain, SessionAct.ofLoop] at own) hfunctors ?_ hbase
  cases hturn : act.onLoopThread with
  | true => exact .inl (turn hturn)
  | false => exact .inr fun hidle => hmove.idle hidle hturn

include hlow h running alive in
/-- The first functor of the shared queue is the first of its connection. -/
theorem Sound.functor {f : QueuedFunctor} {rest : List (ℕ × QueuedFunctor)}
    (head : l.pendingFunctors = (i, f) :: rest) (idle : l.idle = true)
    (hi : l.conns[i]? = some s)
    (ht : t = (l.facing s).commit
      ({ l.facing s with functors := s.functors.tail }.runFunctor f)) :
    Sound capacity lowWaterMark (if t.fault.isSome then { l with conns := l.conns.set i t }
      else { l with pendingFunctors := rest }.put i
        { l.facing s with functors := s.functors.tail } t) := by
  have hs := List.mem_of_getElem? hi
  obtain ⟨hwaiting, hsqes, hqueue⟩ := h.shares running
  rw [head] at hqueue
  have hfirst : s.functors = f :: part i rest := hqueue.head hi
  have move : (l.facing s).step .functor = some t := by
    have hidle : s.ctl = .idle := idle_iff.mp idle s hs
    simp [Session.step, SharedLoop.facing, alive s hs, hfirst, hidle, ht]
  have hmove := Session.step_move move
  have hreached := (h.facing alive hi).step move
  by_cases hf : t.fault.isSome
  · rw [if_pos hf]
    -- a functor that fails is still in both queues
    have hsame := hmove.faulted (alive s hs) (by simpa [Option.isSome_iff_ne_none] using hf)
    refine ⟨h.set_session hreached, h.ring, h.alone.set hi (.inl idle) _ _, fun _ => ?_⟩
    rw [hsame, head]
    exact ⟨hwaiting.keep hi rfl, hsqes.keep hi rfl, hqueue.keep hi rfl⟩
  · rw [if_neg hf]
    have hok : t.fault = none := by simpa using hf
    refine h.put hlow running hi hreached rfl ((hmove.asks (by simp)).since) ?_ (.inl idle) ?_
    · exact hmove.functors fun _ => hok
    · exact ⟨hwaiting.keep hi rfl, hsqes.keep hi rfl, hqueue.pop hi rfl⟩

include hlow h in
/-- `doingSubmitWaitingTask` takes the front of the queue and makes entries of it. -/
theorem Sound.front_shares :
    l.ring.waiters = l.front ++ l.ring.doingSubmitWaitingTask.waiters ∧
      l.ring.doingSubmitWaitingTask.entries
        = l.ring.entries ++ l.front.map fun p => (p.1, p.2.kind) := by
  obtain ⟨k, hserved, hqueue, hentries⟩ :=
    SubmitRing.doingSubmitWaitingTask_shares (h.mark hlow).2.waitable
  refine ⟨?_, ?_⟩
  · rw [front, hserved, SubmitRing.waiters, SubmitRing.waiters, hqueue, ← List.filterMap_append,
      List.take_append_drop]
  · rw [hentries, front, hserved]

include hlow h running alive in
/-- What has become of each connection. -/
theorem Sound.served_conn (idle : l.idle = true) (hi : l.conns[i]? = some s) :
    ∃ t, l.served[i]? = some t ∧ t.Reached ∧
      t.waiting = part i l.ring.doingSubmitWaitingTask.waiters ∧
      t.sqes.map Sqe.kind = s.sqes.map Sqe.kind ++ (part i l.front).map ContextType.kind ∧
      t.functors = s.functors ∧ t.ctl = .idle := by
  have hs := List.mem_of_getElem? hi
  refine ⟨_, by rw [served, getElem?_foldl_modify, hi, Option.map_some], ?_⟩
  refine (h.session s hs).serve_all (alive s hs) (idle_iff.mp idle s hs) ?_ rfl
  rw [← part_append, ← (h.front_shares hlow).1, (h.shares running).waiting.part_eq hi]

theorem served_none (hi : l.conns[i]? = none) : l.served[i]? = none := by
  rw [served, getElem?_foldl_modify, hi, Option.map_none]

include hlow h running alive in
theorem Sound.of_served (idle : l.idle = true) (ht : l.served[i]? = some t) :
    t.Reached ∧ t.ctl = .idle := by
  cases hi : l.conns[i]? with
  | none =>
      rw [served_none hi] at ht
      cases ht
  | some s =>
      obtain ⟨t', ht', hreached, -, -, -, hidle⟩ := h.served_conn hlow running alive idle hi
      cases ht'.symm.trans ht
      exact ⟨hreached, hidle⟩

include hlow h running alive in
theorem Sound.served_shares (idle : l.idle = true) :
    Shares { l with ring := l.ring.doingSubmitWaitingTask, conns := l.served } := by
  obtain ⟨hwaiting, hsqes, hfunctors⟩ := h.shares running
  obtain ⟨hwaiters, hentries⟩ := h.front_shares hlow
  -- nobody else has requests in the queue
  have hnobody : ∀ i, l.conns[i]? = none →
      part i l.front = [] ∧ part i l.ring.doingSubmitWaitingTask.waiters = [] := by
    intro i hi
    have hnone := hwaiting i
    rw [hi, hwaiters, part_append] at hnone
    exact List.append_eq_nil_iff.mp hnone
  refine ⟨fun i => ?_, fun i => ?_, fun i => ?_⟩
  · cases hi : l.conns[i]? with
    | none => rw [served_none hi, (hnobody i hi).2, Option.elim_none]
    | some s =>
        obtain ⟨t, ht, -, hrest, -⟩ := h.served_conn hlow running alive idle hi
        rw [ht, Option.elim_some, hrest]
  · rw [hentries, part_append, part_map_snd, hsqes i]
    cases hi : l.conns[i]? with
    | none => simp [served_none hi, (hnobody i hi).1]
    | some s =>
        obtain ⟨t, ht, -, -, hmade, -⟩ := h.served_conn hlow running alive idle hi
        rw [ht, Option.elim_some, Option.elim_some, hmade]
  · rw [hfunctors i]
    cases hi : l.conns[i]? with
    | none => rw [served_none hi]
    | some s =>
        obtain ⟨t, ht, -, -, -, hsame, -⟩ := h.served_conn hlow running alive idle hi
        rw [ht, Option.elim_some, Option.elim_some, hsame]

include hlow h running alive in
/-- `doingSubmitWaitingTask` serves every connection from the front of its own queue. -/
theorem Sound.doingSubmitWaitingTask (idle : l.idle = true) : Sound capacity lowWaterMark
    { l with ring := l.ring.doingSubmitWaitingTask, conns := l.served } where
  session := by
    intro t ht
    obtain ⟨i, hi⟩ := List.mem_iff_getElem?.mp ht
    exact (h.of_served hlow running alive idle hi).1
  ring := h.ring.next (a := .doingSubmitWaitingTask) trivial
    (by simp only [SubmitRing.step, running, if_true, SubmitRing.act])
  alone := by
    intro i j s t hi _ hs
    exact absurd (h.of_served hlow running alive idle hi).2 hs
  shares := fun _ => h.served_shares hlow running alive idle

include h running in
/-- A call that is not a connection's. -/
theorem Sound.own_call {r : SubmitRing}
    (hring : Reach SubmitRing.step anyStep (.create capacity lowWaterMark) r)
    (hwaiters : r.waiters = l.ring.waiters) (hentries : r.entries = l.ring.entries) :
    Sound capacity lowWaterMark { l with ring := r } where
  session := h.session
  ring := hring
  alone := h.alone
  shares := fun _ => by
    obtain ⟨hwaiting, hsqes, hfunctors⟩ := h.shares running
    refine ⟨?_, ?_, hfunctors⟩
    · rw [hwaiters]
      exact hwaiting
    · rw [hentries]
      exact hsqes

end

/-- **One step.** -/
theorem Sound.step {a : SharedAct} (hlow : 1 ≤ lowWaterMark) (h : Sound capacity lowWaterMark l)
    (move : l.step a = some l') : Sound capacity lowWaterMark l' := by
  unfold SharedLoop.step at move
  split at move
  case isTrue => cases move
  case isFalse hended =>
    obtain ⟨running, alive⟩ := not_ended (by simpa using hended)
    have hcall : ∀ a, Reach SubmitRing.step anyStep (.create capacity lowWaterMark)
        (l.ring.act a) := fun a =>
      h.ring.next (a := a) trivial (by simp only [SubmitRing.step, running, if_true])
    cases a with
    | connect a b c d =>
        cases move
        exact h.connect running a b c d
    | connectInLoop a b c d =>
        simp only [Option.ite_none_right_eq_some, Option.map_eq_some_iff] at move
        obtain ⟨idle, t, ht, rfl⟩ := move
        exact h.connectInLoop running idle ht
    | conn i act =>
        simp only [Option.ite_none_left_eq_some, Option.bind_eq_some_iff, Option.map_eq_some_iff,
          Bool.or_eq_true, Bool.and_eq_true, Bool.not_eq_true', not_or, not_and,
          Bool.not_eq_true, Bool.not_eq_false] at move
        obtain ⟨⟨own, turn⟩, s, hi, t, ht, rfl⟩ := move
        exact h.conn hlow running alive hi own turn ht
    | functor =>
        simp only at move
        split at move
        case h_1 => cases move
        case h_2 i f rest head =>
          simp only [Option.ite_none_right_eq_some, Option.map_eq_some_iff] at move
          obtain ⟨idle, s, hi, rfl⟩ := move
          exact h.functor hlow running alive head idle hi rfl
    | doingSubmitWaitingTask =>
        simp only [Option.ite_none_right_eq_some, Option.some.injEq] at move
        obtain ⟨idle, rfl⟩ := move
        exact h.doingSubmitWaitingTask hlow running alive idle
    | submitAcceptMultishut addr =>
        simp only [Option.ite_none_right_eq_some, Option.some.injEq] at move
        obtain ⟨-, rfl⟩ := move
        obtain ⟨hwaiters, hentries⟩ := accept_shares (h.mark hlow).1 addr
        exact h.own_call running (hcall (.submitAcceptMultishut addr)) hwaiters hentries
    | onCompletion =>
        simp only [Option.ite_none_right_eq_some, Option.some.injEq] at move
        obtain ⟨-, rfl⟩ := move
        obtain ⟨-, hwaiters, hentries⟩ := SubmitRing.forced_shares .readEventfd l.ring
        exact h.own_call running (hcall .onCompletion) hwaiters (hentries rfl)
    | ioUringSubmit =>
        simp only [Option.ite_none_right_eq_some, Option.some.injEq] at move
        obtain ⟨-, rfl⟩ := move
        exact h.own_call running (hcall .ioUringSubmit) rfl (SubmitRing.entries_ioUringSubmit _)

theorem reach_sound {capacity lowWaterMark : ℕ} (hlow : 1 ≤ lowWaterMark)
    (run : Reach SharedLoop.step anyStep (create capacity lowWaterMark) l) :
    Sound capacity lowWaterMark l :=
  run.invariant sound_create fun _ _ _ hs _ move => hs.step hlow move

/-- **A connection does not notice that it shares its loop.**  In every run of a loop with any
number of connections, whatever comes to them and whatever their coroutines do: each connection is
in a state of a run of its own; the ring is in a state of a run of `SubmitRing`; the connection's
functors, its waiting requests and the entries prepared for it are its entries in the shared queues,
in the same order; and the loop thread is at work on at most one connection. -/
theorem shared_queues_refine {capacity lowWaterMark : ℕ} (hlow : 1 ≤ lowWaterMark)
    (run : Reach SharedLoop.step anyStep (create capacity lowWaterMark) l) :
    (∀ s ∈ l.conns, s.Reached) ∧
    Reach SubmitRing.step anyStep (.create capacity lowWaterMark) l.ring ∧
    (l.ring.halt = none → ∀ i s, l.conns[i]? = some s →
      s.functors = part i l.pendingFunctors ∧ s.waiting = part i l.ring.waiters ∧
        s.sqes.map Sqe.kind = part i l.ring.entries) ∧
    l.Alone := by
  have h := reach_sound hlow run
  refine ⟨h.session, h.ring, fun running i s hi => ?_, h.alone⟩
  obtain ⟨hwaiting, hsqes, hfunctors⟩ := h.shares running
  exact ⟨(hfunctors.part_eq hi).symm, (hwaiting.part_eq hi).symm, (hsqes.part_eq hi).symm⟩

/-- Three connections and a ring of four entries: the receive of the third and the write of the
first wait, in this order, and are served together. -/
theorem shared_queues_refine_three :
    ∃ l, Reach SharedLoop.step anyStep (create 4 2) l ∧
      l.ring.entries = [(0, .recv), (1, .recv), (2, .recv), (0, .writev)] ∧
      ∀ s, l.conns[0]? = some s → s.Reached ∧ s.sqes.map Sqe.kind = [.recv, .writev] := by
  obtain ⟨l, run, hl⟩ := exists_reach SharedLoop.step anyStep (create 4 2)
    [.onCompletion, .connect 64 16 2 8, .connect 64 16 2 8, .connect 64 16 2 8,
      .functor, .conn 0 (.co .prepareToRead), .functor, .conn 1 (.co .prepareToRead),
      .functor, .conn 2 (.co .prepareToRead), .conn 0 (.readCqe 1 [7] true),
      .conn 0 (.co (.send [1, 2, 3])), .ioUringSubmit, .doingSubmitWaitingTask]
    (fun l => decide (l.ring.halt = none ∧
      l.ring.entries = [(0, .recv), (1, .recv), (2, .recv), (0, .writev)])) (by decide +kernel)
  obtain ⟨running, hentries⟩ := of_decide_eq_true hl
  obtain ⟨hreached, -, hshares, -⟩ := shared_queues_refine (by decide) run
  refine ⟨l, run, hentries, fun s hs => ⟨hreached s (List.mem_of_getElem? hs), ?_⟩⟩
  rw [(hshares running 0 s hs).2.2, hentries]
  decide

/-- A request that waits is a connection's, or the acceptor's. -/
theorem length_waitingSubmitQueue {r : SubmitRing} (hw : r.Waitable) :
    r.waitingSubmitQueue.length
      = r.waiters.length + r.waitingSubmitQueue.countP fun req => req.ctx.type = .accept := by
  rw [SubmitRing.waiters, List.length_filterMap_eq_countP,
    List.length_eq_countP_add_countP fun req => req.ctx.owner?.isSome]
  congr 1
  refine List.countP_congr fun req hmem => ?_
  have hkind := hw req hmem
  unfold SubmitRing.Request.sqe? at hkind
  unfold SubmitRing.IoContext.owner?
  cases htype : req.ctx.type <;> simp_all

/-- **One request for each context.**  In every run, as long as the process goes on: a context of a
connection is not in `waiting_submit_queue_` while a request for it is in the kernel, and never
twice; so the queue holds at most two requests for each connection, besides those of the
acceptor. -/
theorem requests_wait_once {capacity lowWaterMark : ℕ} (hlow : 1 ≤ lowWaterMark)
    (run : Reach SharedLoop.step anyStep (create capacity lowWaterMark) l)
    (running : l.ring.halt = none) :
    (∀ i s c, l.conns[i]? = some s → s.inKernel c + l.ring.waiters.count (i, c) ≤ 1) ∧
    l.ring.waiters.Nodup ∧
    l.ring.waitingSubmitQueue.length ≤ 2 * l.conns.length +
      l.ring.waitingSubmitQueue.countP fun req => req.ctx.type = .accept := by
  have h := reach_sound hlow run
  obtain ⟨hwaiting, -, -⟩ := h.shares running
  have hone : ∀ i s c, l.conns[i]? = some s →
      s.inKernel c + l.ring.waiters.count (i, c) ≤ 1 := by
    intro i s c hi
    rw [← count_part, hwaiting.part_eq hi]
    exact (h.session s (List.mem_of_getElem? hi)).outstanding_le c
  have hnodup : l.ring.waiters.Nodup := by
    refine nodup_of_part fun i c => ?_
    cases hi : l.conns[i]? with
    | none => simp [hwaiting i, hi]
    | some s =>
        have := hone i s c hi
        rw [count_part]
        omega
  refine ⟨hone, hnodup, ?_⟩
  rw [length_waitingSubmitQueue (h.mark hlow).2.waitable]
  refine Nat.add_le_add_right ?_ _
  -- the waiting contexts are different ones of the connections there are
  have hsub : l.ring.waiters.toFinset
      ⊆ Finset.range l.conns.length ×ˢ {ContextType.read, ContextType.write} := by
    intro p hp
    have howner := hwaiting.owner (List.mem_toFinset.mp hp)
    rw [Finset.mem_product, Finset.mem_range]
    refine ⟨howner, ?_⟩
    cases p.2 <;> decide
  have hcard := Finset.card_le_card hsub
  rw [List.toFinset_card_of_nodup hnodup, Finset.card_product, Finset.card_range] at hcard
  have htwo : ({ContextType.read, ContextType.write} : Finset ContextType).card = 2 := by decide
  rw [htwo] at hcard
  omega

/-- The same connections before their requests are served. -/
theorem requests_wait_once_two :
    ∃ l, Reach SharedLoop.step anyStep (create 4 2) l ∧
      l.ring.waiters = [(2, .read), (0, .write)] ∧ l.conns.length = 3 ∧
      l.ring.waitingSubmitQueue.length ≤ 2 * 3 +
        l.ring.waitingSubmitQueue.countP fun req => req.ctx.type = .accept := by
  obtain ⟨l, run, hl⟩ := exists_reach SharedLoop.step anyStep (create 4 2)
    [.onCompletion, .connect 64 16 2 8, .connect 64 16 2 8, .connect 64 16 2 8,
      .functor, .conn 0 (.co .prepareToRead), .functor, .conn 1 (.co .prepareToRead),
      .functor, .conn 2 (.co .prepareToRead), .conn 0 (.readCqe 1 [7] true),
      .conn 0 (.co (.send [1, 2, 3]))]
    (fun l => decide (l.ring.halt = none ∧ l.ring.waiters = [(2, .read), (0, .write)] ∧
      l.conns.length = 3)) (by decide +kernel)
  obtain ⟨running, hwaiters, hthree⟩ := of_decide_eq_true hl
  refine ⟨l, run, hwaiters, hthree, ?_⟩
  rw [← hthree]
  exact (requests_wait_once (by decide) run running).2.2

end SharedLoop

end Proactor
