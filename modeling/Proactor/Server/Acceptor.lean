import Proactor.Core.Slots
import Proactor.Core.Transition
import Proactor.Output.WriteContext

/-!
# Accepting connections

`Acceptor::listen` submits one multishot accept (`src/Acceptor.cc`).  The kernel completes it once
for every connection and once more, without `IORING_CQE_F_MORE`, when the request has ended;
`AcceptContext::on_completion` (`src/AcceptContext.cc`) then submits it again unless the completion
was an error.

A descriptor the kernel has accepted belongs to the process from then on.  `on_completion` takes
every `res ≥ 0` for one, but `handleRead`, which hands it to the connection callback or closes it,
only a positive one: a connection that got descriptor 0 is kept open and forgotten
(`descriptor_zero_leaks`).  No other is (`accept_protocol`).
-/

namespace Proactor

open Transition

def ENFILE : ℤ := 23

def EMFILE : ℤ := 24

structure AcceptContext where
  isError : Bool
  isAccepting : Bool

/-- `handleError`: whether the acceptor has to stop. -/
def AcceptContext.handleError (c : AcceptContext) (res : ℤ) : Bool × AcceptContext :=
  if res < 0 then
    let err := -res
    if err = ECANCELED then (true, c)
    else if err = EMFILE ∨ err = ENFILE then (true, { c with isError := true })
    else (true, { c with isError := true })
  else (false, c)

/-- What was done with a descriptor. -/
inductive Disposal
  /-- `connection_callback_(connfd, peer_addr)` -/
  | passed
  /-- `::close(connfd)` -/
  | closed
  deriving DecidableEq

structure Handover where
  /-- The number of the completion, counted over those with `res ≥ 0`. -/
  completion : ℕ
  fd : ℤ
  how : Disposal
  deriving DecidableEq

structure Acceptor where
  listening : Bool
  /-- `connection_callback_` is set. -/
  connectionCallback : Bool
  context : AcceptContext
  /-- The loop has fewer free SQEs than its low water mark. -/
  sqeLow : Bool
  /-- Entries of the context in `waiting_submit_queue_`. -/
  waiting : ℕ
  /-- Accept requests in the kernel. -/
  kernel : ℕ
  /-- `res` of the completions with `res ≥ 0`. -/
  accepted : List ℤ
  handovers : List Handover
  /-- The assertion of `on_completion` has failed. -/
  aborted : Bool

inductive AcceptorAct
  | completion (res : ℤ) (more : Bool)
  /-- `doingSubmitWaitingTask` takes the context's entry. -/
  | drain
  | setConnetionCallback (set : Bool)
  /-- The number of free SQEs passes the low water mark. -/
  | pressure (low : Bool)

namespace Acceptor

def create (connectionCallback sqeLow : Bool) : Acceptor where
  listening := false
  connectionCallback := connectionCallback
  context := ⟨false, false⟩
  sqeLow := sqeLow
  waiting := 0
  kernel := 0
  accepted := []
  handovers := []
  aborted := false

/-- Accept requests handed to the loop that have not ended. -/
def outstanding (s : Acceptor) : ℕ := s.waiting + s.kernel

/-- `submitAccept`, through `submitAcceptMultishut` of the loop. -/
def submitAccept (s : Acceptor) : Acceptor :=
  if s.sqeLow then { s with waiting := s.waiting + 1 } else { s with kernel := s.kernel + 1 }

def listen (s : Acceptor) : Acceptor :=
  submitAccept { s with listening := true, context := { s.context with isAccepting := true } }

def handleRead (s : Acceptor) (connfd : ℤ) : Acceptor :=
  if 0 < connfd then
    if s.connectionCallback then
      { s with handovers := s.handovers ++ [⟨s.accepted.length, connfd, .passed⟩] }
    else { s with handovers := s.handovers ++ [⟨s.accepted.length, connfd, .closed⟩] }
  else s

/-- The first half of `on_completion`, and `need_close` after it. -/
def take (s : Acceptor) (res : ℤ) : Bool × Acceptor :=
  if res < 0 then
    ((s.context.handleError res).1, { s with context := (s.context.handleError res).2 })
  else (false, { s.handleRead res with accepted := s.accepted ++ [res] })

/-- The second half, when the request has ended. -/
def resubmit (s : Acceptor) (needClose : Bool) : Acceptor :=
  if needClose = false then s.submitAccept
  else { s with context := { s.context with isAccepting := false } }

def onCompletion (s : Acceptor) (res : ℤ) (more : Bool) : Acceptor :=
  if s.context.isAccepting = false then { s with aborted := true }
  else if more = false then (s.take res).2.resubmit (s.take res).1
  else (s.take res).2

/-- A completion without `IORING_CQE_F_MORE` is the last one of its request. -/
def step (s : Acceptor) (a : AcceptorAct) : Option Acceptor :=
  if s.aborted then none
  else match a with
    | .completion res more =>
        if 0 < s.kernel then
          some ({ s with kernel := if more then s.kernel else s.kernel - 1 }.onCompletion res more)
        else none
    | .drain =>
        if 0 < s.waiting then some { s with waiting := s.waiting - 1, kernel := s.kernel + 1 }
        else none
    | .setConnetionCallback set => some { s with connectionCallback := set }
    | .pressure low => some { s with sqeLow := low }

/-- What was done with the descriptor of a completion. -/
def handoversOf (s : Acceptor) (n : ℕ) : List Handover :=
  s.handovers.filter fun h => h.completion = n

/-- **The accept protocol.** -/
structure Protocol (s : Acceptor) : Prop where
  /-- Every descriptor is passed on once or closed once. -/
  handled : ∀ n fd, s.accepted[n]? = some fd → ∃ how, s.handoversOf n = [⟨n, fd, how⟩]
  outstanding : s.outstanding = s.context.isAccepting.toNat
  asserted : s.aborted = false

/-! ## What becomes of a descriptor -/

variable {s t : Acceptor} {res fd : ℤ} {more : Bool}

/-- Every positive descriptor has been handed over once, and a zero not at all. -/
structure Tally (accepted : List ℤ) (handovers : List Handover) : Prop where
  known : ∀ h ∈ handovers, h.completion < accepted.length
  nonneg : ∀ fd ∈ accepted, 0 ≤ fd
  positive : ∀ n fd, accepted[n]? = some fd → 0 < fd →
    ∃ how, (handovers.filter fun h => h.completion = n) = [⟨n, fd, how⟩]
  zero : ∀ n, accepted[n]? = some 0 → (handovers.filter fun h => h.completion = n) = []

namespace Tally

variable {accepted : List ℤ} {handovers : List Handover}

/-- No completion to come has been handled. -/
theorem fresh (h : Tally accepted handovers) :
    (handovers.filter fun h => h.completion = accepted.length) = [] := by
  rw [List.filter_eq_nil_iff]
  intro e he
  have := h.known e he
  simp only [decide_eq_true_eq]
  omega

theorem known_append (h : Tally accepted handovers) (fd : ℤ) :
    ∀ e ∈ handovers, e.completion < (accepted ++ [fd]).length := by
  intro e he
  have := h.known e he
  simp only [List.length_append, List.length_singleton]
  omega

theorem nonneg_append (h : Tally accepted handovers) (hfd : 0 ≤ fd) :
    ∀ e ∈ accepted ++ [fd], 0 ≤ e := by
  intro e he
  rcases List.mem_append.mp he with he | he
  · exact h.nonneg e he
  · rwa [List.mem_singleton.mp he]

/-- A descriptor that `handleRead` does not take. -/
theorem dropped (h : Tally accepted handovers) : Tally (accepted ++ [0]) handovers where
  known := h.known_append 0
  nonneg := h.nonneg_append (Int.le_refl 0)
  positive n fd hn hfd := by
    rcases Slots.getElem?_snoc hn with ⟨-, hn⟩ | ⟨-, rfl⟩
    · exact h.positive n fd hn hfd
    · exact absurd hfd (Int.lt_irrefl 0)
  zero n hn := by
    rcases Slots.getElem?_snoc hn with ⟨-, hn⟩ | ⟨rfl, -⟩
    · exact h.zero n hn
    · exact h.fresh

/-- One that it passes on or closes. -/
theorem handed (h : Tally accepted handovers) (hfd : 0 < fd) (how : Disposal) :
    Tally (accepted ++ [fd]) (handovers ++ [⟨accepted.length, fd, how⟩]) := by
  -- The new entry is of none of the completions before.
  have hold : ∀ n < accepted.length,
      ((handovers ++ [⟨accepted.length, fd, how⟩] : List Handover).filter fun h =>
        h.completion = n) = handovers.filter fun h => h.completion = n := by
    intro n hn
    simp [List.filter_append, Nat.ne_of_gt hn]
  refine ⟨?_, h.nonneg_append (Int.le_of_lt hfd), ?_, ?_⟩
  · intro e he
    rcases List.mem_append.mp he with he | he
    · exact h.known_append fd e he
    · simp [List.mem_singleton.mp he]
  · intro n fd' hn hfd'
    rcases Slots.getElem?_snoc hn with ⟨hlt, hn⟩ | ⟨rfl, rfl⟩
    · rw [hold n hlt]
      exact h.positive n fd' hn hfd'
    · exact ⟨how, by simp [List.filter_append, h.fresh]⟩
  · intro n hn
    rcases Slots.getElem?_snoc hn with ⟨hlt, hn⟩ | ⟨-, hzero⟩
    · rw [hold n hlt]
      exact h.zero n hn
    · omega

/-- Every descriptor is accounted for exactly when none was zero. -/
theorem handled_iff (h : Tally accepted handovers) :
    (∀ n fd, accepted[n]? = some fd →
      ∃ how, (handovers.filter fun h => h.completion = n) = [⟨n, fd, how⟩]) ↔ 0 ∉ accepted := by
  constructor
  · intro hall hzero
    obtain ⟨n, hn⟩ := List.mem_iff_getElem?.mp hzero
    obtain ⟨how, hhow⟩ := hall n 0 hn
    simp [h.zero n hn] at hhow
  · intro hzero n fd hn
    have hmem := List.mem_of_getElem? hn
    refine h.positive n fd hn ?_
    have := h.nonneg fd hmem
    have hne : fd ≠ 0 := fun he => hzero (he ▸ hmem)
    omega

end Tally

theorem handleRead_pos (s : Acceptor) (hfd : 0 < fd) : ∃ how,
    s.handleRead fd = { s with handovers := s.handovers ++ [⟨s.accepted.length, fd, how⟩] } := by
  rw [handleRead, if_pos hfd]
  cases s.connectionCallback with
  | true => exact ⟨.passed, rfl⟩
  | false => exact ⟨.closed, rfl⟩

/-- The first half of `on_completion` leaves the requests alone. -/
theorem take_spec (s : Acceptor) (res : ℤ) :
    (s.take res).2.outstanding = s.outstanding ∧
      (s.take res).2.context.isAccepting = s.context.isAccepting ∧
      (s.take res).2.aborted = s.aborted := by
  unfold take
  split
  case isTrue hneg =>
    unfold AcceptContext.handleError
    grind [outstanding]
  case isFalse hneg =>
    unfold handleRead
    grind [outstanding]

theorem Tally.take (h : Tally s.accepted s.handovers) (res : ℤ) :
    Tally (s.take res).2.accepted (s.take res).2.handovers := by
  unfold Acceptor.take
  split
  case isTrue => exact h
  case isFalse hres =>
    by_cases hpos : 0 < res
    · obtain ⟨how, hread⟩ := s.handleRead_pos hpos
      rw [hread]
      exact h.handed hpos how
    · obtain rfl : res = 0 := by omega
      rw [handleRead, if_neg hpos]
      exact h.dropped

/-! ## Requests -/

@[simp] theorem submitAccept_accepted (s : Acceptor) : s.submitAccept.accepted = s.accepted := by
  unfold submitAccept
  split <;> rfl

@[simp] theorem submitAccept_handovers (s : Acceptor) :
    s.submitAccept.handovers = s.handovers := by
  unfold submitAccept
  split <;> rfl

@[simp] theorem submitAccept_context (s : Acceptor) : s.submitAccept.context = s.context := by
  unfold submitAccept
  split <;> rfl

@[simp] theorem submitAccept_aborted (s : Acceptor) : s.submitAccept.aborted = s.aborted := by
  unfold submitAccept
  split <;> rfl

theorem submitAccept_outstanding (s : Acceptor) :
    s.submitAccept.outstanding = s.outstanding + 1 := by
  unfold submitAccept
  split <;> simp only [outstanding] <;> omega

/-- What holds between the steps of a run. -/
structure Sound (s : Acceptor) : Prop where
  tally : Tally s.accepted s.handovers
  outstanding : s.outstanding = s.context.isAccepting.toNat
  asserted : s.aborted = false

theorem Sound.listen (connectionCallback sqeLow : Bool) :
    Sound (create connectionCallback sqeLow).listen := by
  cases sqeLow with
  | true => exact ⟨⟨nofun, nofun, nofun, nofun⟩, rfl, rfl⟩
  | false => exact ⟨⟨nofun, nofun, nofun, nofun⟩, rfl, rfl⟩

/-- A request in the kernel is the only one. -/
theorem Sound.pending (h : Sound s) (hpending : 0 < s.kernel) :
    s.context.isAccepting = true ∧ s.outstanding = 1 := by
  have hout := h.outstanding
  cases haccepting : s.context.isAccepting with
  | true => exact ⟨rfl, by rw [hout, haccepting]; rfl⟩
  | false =>
      simp only [haccepting, Bool.toNat_false, Acceptor.outstanding] at hout
      omega

/-- A completion after which the request goes on. -/
theorem Sound.completion_more (h : Sound s) (accepting : s.context.isAccepting = true) (res : ℤ) :
    Sound (s.onCompletion res true) := by
  obtain ⟨hout, hacc, hasserted⟩ := s.take_spec res
  rw [onCompletion, if_neg (by simp [accepting]), if_neg (by simp)]
  refine ⟨h.tally.take res, ?_, hasserted.trans h.asserted⟩
  rw [hout, hacc, h.outstanding]

/-- The last completion of a request: the acceptor stops, or submits the next one. -/
theorem Sound.completion_last (tally : Tally s.accepted s.handovers) (ended : s.outstanding = 0)
    (accepting : s.context.isAccepting = true) (asserted : s.aborted = false) (res : ℤ) :
    Sound (s.onCompletion res false) := by
  obtain ⟨hout, hacc, hasserted⟩ := s.take_spec res
  rw [onCompletion, if_neg (by simp [accepting]), if_pos rfl, resubmit]
  split
  case isTrue =>
    refine ⟨?_, ?_, ?_⟩
    · rw [submitAccept_accepted, submitAccept_handovers]
      exact tally.take res
    · rw [submitAccept_outstanding, submitAccept_context, hout, hacc, ended, accepting]
      rfl
    · rw [submitAccept_aborted, hasserted, asserted]
  case isFalse => exact ⟨tally.take res, hout.trans ended, hasserted.trans asserted⟩

theorem Sound.step {a : AcceptorAct} (h : Sound s) (hstep : s.step a = some t) : Sound t := by
  unfold Acceptor.step at hstep
  rw [if_neg (by simp [h.asserted])] at hstep
  cases a with
  | completion res more =>
      simp only [Option.ite_none_right_eq_some, Option.some.injEq] at hstep
      obtain ⟨hpending, rfl⟩ := hstep
      obtain ⟨haccepting, hone⟩ := h.pending hpending
      cases more with
      | true => exact h.completion_more haccepting res
      | false =>
          have hended : ({ s with kernel := s.kernel - 1 } : Acceptor).outstanding = 0 := by
            simp only [Acceptor.outstanding] at hone ⊢
            omega
          exact Sound.completion_last (s := { s with kernel := s.kernel - 1 }) h.tally hended
            haccepting h.asserted res
  | drain =>
      simp only [Option.ite_none_right_eq_some, Option.some.injEq] at hstep
      obtain ⟨hwaiting, rfl⟩ := hstep
      refine ⟨h.tally, ?_, h.asserted⟩
      have hout := h.outstanding
      simp only [Acceptor.outstanding] at hout ⊢
      omega
  | setConnetionCallback set =>
      obtain rfl := Option.some.inj hstep
      exact ⟨h.tally, h.outstanding, h.asserted⟩
  | pressure low =>
      obtain rfl := Option.some.inj hstep
      exact ⟨h.tally, h.outstanding, h.asserted⟩

theorem Sound.protocol_iff (h : Sound s) : Protocol s ↔ 0 ∉ s.accepted :=
  ⟨fun hp => h.tally.handled_iff.mp hp.handled,
    fun hzero => ⟨h.tally.handled_iff.mpr hzero, h.outstanding, h.asserted⟩⟩

/-- **In every state of every run the protocol holds exactly when the kernel has never accepted a
connection as descriptor 0.** -/
theorem accept_protocol (connectionCallback sqeLow : Bool)
    (run : Reach step anyStep (create connectionCallback sqeLow).listen s) :
    Protocol s ↔ 0 ∉ s.accepted := by
  have hsound : Sound s :=
    run.invariant (Sound.listen connectionCallback sqeLow) fun _ _ _ h _ hstep => h.step hstep
  exact hsound.protocol_iff

/-- Two connections are accepted, the second without a callback, and then no descriptor is left. -/
theorem accept_protocol_two : ∃ s,
    Reach step anyStep (create true true).listen s ∧ s.accepted = [7, 8] ∧
      s.context.isAccepting = false ∧ Protocol s := by
  obtain ⟨s, run, hs⟩ := exists_reach step anyStep (create true true).listen
    [.drain, .completion 7 true, .setConnetionCallback false, .completion 8 false, .drain,
      .completion (-EMFILE) false]
    (fun s => decide (s.accepted = [7, 8]) && !s.context.isAccepting) (by decide)
  simp only [Bool.and_eq_true, decide_eq_true_eq, Bool.not_eq_true'] at hs
  refine ⟨s, run, hs.1, hs.2, (accept_protocol _ _ run).mpr ?_⟩
  rw [hs.1]
  decide

/-- **Descriptor 0 is neither passed on nor closed.** -/
theorem descriptor_zero_leaks : ¬ ∀ (connectionCallback sqeLow : Bool) (s : Acceptor),
    Reach step anyStep (create connectionCallback sqeLow).listen s → Protocol s := by
  intro h
  obtain ⟨s, run, hs⟩ := exists_reach step anyStep (create true false).listen
    [.completion 0 true] (fun s => decide (s.accepted = [0] ∧ s.handovers = [])) (by decide)
  obtain ⟨haccepted, hnone⟩ := of_decide_eq_true hs
  obtain ⟨how, hhow⟩ := (h _ _ s run).handled 0 0 (by rw [haccepted]; rfl)
  simp [handoversOf, hnone] at hhow

end Acceptor

end Proactor
