import Proactor.Server.ConnectionTable

/-!
# The owners of a connection

The end of an `on_completion` that is done with its request reads

    holder_->handleClose();  holder_.reset();  status_ = ReadStatus::STOPED;

and the others are like it: the holder goes first, and a field of the context is used after it.  So
another owner has to be there.  On the way to the last line the close callback has taken the
connection out of the table, at once if its loop is the base loop, and `handleClose` has destroyed
the frame of a coroutine that was waiting.  What is left may be nothing
(`context_touched_after_last_owner`).

`safe` tells the steps before which somebody else is seen to be there: a functor, the request of the
other context, a coroutine that stays, the table, or, with sub-loops, the removal that waits for the
base loop, provided that it goes on waiting until the handler is done.  In runs of such steps no
`on_completion` uses a connection after its last owner has gone (`contexts_touched_while_owned`).
-/

namespace Proactor

open Transition

namespace TcpServer

/-- Somebody owns the connection apart from the `on_completion` that is about to let go of it. -/
def anchored (s : TcpServer) (i : ℕ) (c : Conn) : Bool :=
  decide (s.connectionMap.lookup c.name = some i) || decide (i ∈ s.removals) || c.session.held

/-- Somebody else will own the connection when a completion that ends its request gives up the
holder. -/
def anchors (s : TcpServer) (i : ℕ) (c : Conn) (act : SessionAct) : Bool :=
  c.session.keeps act || decide (i ∈ s.removals) ||
    decide (s.connectionMap.lookup c.name = some i) &&
      !(c.session.callsClose act && !c.session.closing && decide (c.loop = 0))

/-- **The steps that leave an owner where one is needed.** -/
def safe (s : TcpServer) : ServerAct → Bool
  | .conn i act => (s.conns[i]?).all fun c =>
      !c.session.sendsInFatal act &&
        (!(c.session.endsRead act || c.session.endsWrite act) || s.anchors i c act)
  | .removal => s.removals.head?.all fun i => (s.conns[i]?).all fun c =>
      decide (c.rest = none) || c.session.held
  | _ => true

def Safe (s : TcpServer) (a : ServerAct) : Prop := s.safe a = true

instance (s : TcpServer) (a : ServerAct) : Decidable (Safe s a) :=
  inferInstanceAs (Decidable (_ = _))

/-- **What is known of a connection in a run of safe steps.** -/
structure Kept (s : TcpServer) (i : ℕ) (c : Conn) : Prop where
  awaited : c.session.Awaited
  writing : c.session.WriteProtocol
  runs : c.session.Runs
  anchored : c.rest ≠ none → s.anchored i c = true
  freed : c.freed = true → s.owned i c = false
  touched : c.touched = false

section

variable {s s' t : TcpServer} {i : ℕ} {c : Conn} {a : ServerAct}

theorem owned_of_anchored (h : s.anchored i c = true) : s.owned i c = true := by
  show (s.anchored i c || decide (c.rest = some .reset)) = true
  rw [h, Bool.true_or]

theorem anchored_of_held (h : c.session.held = true) : s.anchored i c = true := by
  rw [anchored, h, Bool.or_true]

/-- A connection with an owner has not been freed. -/
theorem Kept.not_freed (h : Kept s i c) (owned : s.owned i c = true) : c.freed = false := by
  rw [Bool.eq_false_iff]
  exact fun hf => absurd ((h.freed hf).symm.trans owned) (by decide)

/-- Steps of the others do not matter. -/
theorem Kept.frame (h : Kept s i c)
    (hmap : t.connectionMap.lookup c.name = s.connectionMap.lookup c.name)
    (hremovals : i ∈ t.removals ↔ i ∈ s.removals) : Kept t i c where
  awaited := h.awaited
  writing := h.writing
  runs := h.runs
  anchored hrest := by
    have := h.anchored hrest
    simpa [TcpServer.anchored, hmap, hremovals] using this
  freed hf := by
    have := h.freed hf
    simpa [owned, hmap, hremovals] using this
  touched := h.touched

/-- Recording it after its own step. -/
theorem Kept.put (h : Kept t i c) :
    Kept (t.put i c) i { c with freed := c.freed || !t.owned i c } where
  awaited := h.awaited
  writing := h.writing
  runs := h.runs
  anchored := h.anchored
  freed hf := by
    show t.owned i c = false
    cases howned : t.owned i c with
    | false => rfl
    | true =>
        simp [h.not_freed howned, howned] at hf
  touched := h.touched

/-- Every connection is. -/
def AllKept (s : TcpServer) : Prop := ∀ (i : ℕ) (c : Conn), s.conns[i]? = some c → Kept s i c

theorem AllKept.put (hs : s.AllKept) (hconns : t.conns = s.conns)
    (others : ∀ (j : ℕ) (d : Conn), j ≠ i → s.conns[j]? = some d →
      t.connectionMap.lookup d.name = s.connectionMap.lookup d.name ∧
        (j ∈ t.removals ↔ j ∈ s.removals))
    (self : Kept t i c) : (t.put i c).AllKept := by
  intro j d hd
  rcases put_conns hd with ⟨rfl, rfl⟩ | ⟨hj, hd⟩
  · exact self.put
  · rw [hconns] at hd
    obtain ⟨hmap, hremovals⟩ := others j d hj hd
    exact (hs j d hd).frame hmap hremovals

/-! ## Steps of a connection -/

/-- What a step of the session does to a connection that is kept, whatever becomes of its entry. -/
theorem Kept.after (h : Kept s i c) {act : SessionAct} {u : Session}
    (move : c.session.step act = some u) (own : act ≠ .serverDestroy)
    (quiet : c.session.sendsInFatal act = false) :
    (c.after act u).session.Awaited ∧ (c.after act u).session.WriteProtocol ∧
      (c.after act u).session.Runs ∧ (c.after act u).touched = false ∧
      (c.freed = true → u.held = false ∧ u.closing = c.session.closing ∧
        (c.after act u).rest = c.rest) := by
  have hmove := Session.step_move move
  have hunheld : c.freed = true → c.session.held = false := by
    intro hf
    have := h.freed hf
    simp only [owned, Bool.or_eq_false_iff] at this
    exact this.1.2
  have hout : c.freed = true → act.inCompletion = false := by
    intro hf
    rw [Bool.eq_false_iff]
    intro hin
    have := Session.step_inCompletion move hin h.awaited.protocol h.writing
    exact absurd (this.symm.trans (hunheld hf)) (by decide)
  refine ⟨hmove.awaited h.awaited, hmove.writeProtocol quiet h.writing, hmove.runs h.runs, ?_, ?_⟩
  · show (c.touched || c.freed && act.inCompletion) = false
    rw [h.touched, Bool.false_or]
    cases hf : c.freed with
    | false => rfl
    | true => rw [hout hf, Bool.and_false]
  · intro hf
    obtain ⟨hheld, hclosing⟩ := hmove.unheld (hunheld hf) h.runs (hout hf) own
    refine ⟨hheld, hclosing, ?_⟩
    have hnone := hunheld hf
    simp only [Session.held, Bool.or_eq_false_iff] at hnone
    simp [Conn.after, hnone.1.1.2, hnone.1.2]

/-- Whether the step of a session has given up a holder. -/
theorem after_rest (c : Conn) (act : SessionAct) (u : Session) :
    ((c.session.read.holder && !u.read.holder || c.session.write.holder && !u.write.holder) = true ∧
        (c.after act u).rest = some .reset) ∨ (c.after act u).rest = c.rest := by
  unfold Conn.after
  split
  case isTrue h => exact .inl ⟨h, rfl⟩
  case isFalse => exact .inr rfl

/-- A guarded step that gives up a holder leaves another owner of the connection's own, a removal
that is queued already, or an entry of the table that it does not take out itself. -/
theorem Kept.ended (h : Kept s i c) {act : SessionAct} {u : Session}
    (move : c.session.step act = some u)
    (guard : (c.session.endsRead act || c.session.endsWrite act) = true → s.anchors i c act = true)
    (flip : (c.session.read.holder && !u.read.holder ||
      c.session.write.holder && !u.write.holder) = true) :
    u.held = true ∨ i ∈ s.removals ∨
      s.connectionMap.lookup c.name = some i ∧
        ¬ (c.session.closing = false ∧ u.closing = true ∧ c.loop = 0) := by
  have hhold := (Session.step_move move).hold h.awaited.writer.queued
  obtain ⟨hends, hclosing, hkeeps⟩ := hhold.ends flip
  have hanchors := guard hends
  simp only [anchors, Bool.or_eq_true, Bool.and_eq_true, decide_eq_true_eq] at hanchors
  rcases hanchors with (hk | hr) | ⟨hmap, hnot⟩
  · exact .inl (hkeeps hk)
  · exact .inr (.inl hr)
  · refine .inr (.inr ⟨hmap, ?_⟩)
    rintro ⟨hopen, hclosed, hbase⟩
    rw [hopen, hclosed, Bool.false_or] at hclosing
    simp [← hclosing, hopen, hbase] at hnot

/-- While a handler waits to let go, the steps of the session are those of other threads, which
neither close the connection nor take an owner away. -/
theorem Kept.waiting (h : Kept s i c) {act : SessionAct} {u : Session}
    (move : c.session.step act = some u) (loop : c.session.byLoop act = true → c.rest = none)
    (hrest : c.rest ≠ none) :
    u.closing = c.session.closing ∧ (c.session.held = true → u.held = true) := by
  have off : c.session.byLoop act = false := by
    rw [Bool.eq_false_iff]
    exact fun hby => hrest (loop hby)
  have hhold := (Session.step_move move).hold h.awaited.writer.queued
  exact hhold.offLoop off

/-- A step that takes no entry out. -/
theorem Kept.conn (h : Kept s i c) {act : SessionAct} {u : Session}
    (move : c.session.step act = some u) (own : act ≠ .serverDestroy)
    (loop : c.session.byLoop act = true → c.rest = none)
    (quiet : c.session.sendsInFatal act = false)
    (guard : (c.session.endsRead act || c.session.endsWrite act) = true → s.anchors i c act = true) :
    Kept s i (c.after act u) := by
  obtain ⟨hawaited, hwriting, hruns, htouched, hfreed⟩ := h.after move own quiet
  refine ⟨hawaited, hwriting, hruns, ?_, ?_, htouched⟩
  · intro hrest
    rcases after_rest c act u with ⟨flip, -⟩ | hsame
    · rcases h.ended move guard flip with hheld | hr | ⟨hmap, -⟩
      · exact anchored_of_held hheld
      · simp [TcpServer.anchored, hr]
      · show (decide (s.connectionMap.lookup c.name = some i) || _ || _) = true
        simp [hmap]
    · rw [hsame] at hrest
      obtain ⟨-, hheld⟩ := h.waiting move loop hrest
      have hanchored := h.anchored hrest
      simp only [TcpServer.anchored, Bool.or_eq_true] at hanchored ⊢
      exact hanchored.imp_right hheld
  · intro hf
    obtain ⟨hheld, -, hrest⟩ := hfreed hf
    have howned := h.freed hf
    simp only [owned, Bool.or_eq_false_iff] at howned ⊢
    obtain ⟨⟨hout, -⟩, hreset⟩ := howned
    refine ⟨⟨hout, hheld⟩, ?_⟩
    rwa [hrest]

/-- A step that closes it: the close callback is about to run. -/
theorem Kept.close (h : Kept s i c) {act : SessionAct} {u : Session}
    (move : c.session.step act = some u) (own : act ≠ .serverDestroy)
    (loop : c.session.byLoop act = true → c.rest = none)
    (quiet : c.session.sendsInFatal act = false)
    (guard : (c.session.endsRead act || c.session.endsWrite act) = true → s.anchors i c act = true)
    (opened : c.session.closing = false) (closed : u.closing = true) {d : Conn}
    (hd : d.session = u ∧ d.rest = (c.after act u).rest ∧ d.freed = c.freed ∧
      d.touched = (c.after act u).touched)
    (hanchored : u.held = true ∨ i ∈ s.removals ∨ c.loop ≠ 0 → t.anchored i d = true) :
    Kept t i d := by
  obtain ⟨hawaited, hwriting, hruns, htouched, hfreed⟩ := h.after move own quiet
  obtain ⟨rfl, hrest, hf, ht⟩ := hd
  refine ⟨hawaited, hwriting, hruns, ?_, ?_, ht.trans htouched⟩
  · intro hne
    rw [hrest] at hne
    rcases after_rest c act d.session with ⟨flip, -⟩ | hsame
    · rcases h.ended move guard flip with hheld | hr | ⟨-, hnot⟩
      · exact hanchored (.inl hheld)
      · exact hanchored (.inr (.inl hr))
      · exact hanchored (.inr (.inr fun hbase => hnot ⟨opened, closed, hbase⟩))
    · -- only the loop thread closes, and it is not inside a handler of this connection
      rw [hsame] at hne
      obtain ⟨hclosing, -⟩ := h.waiting move loop hne
      exact absurd (closed.symm.trans (hclosing.trans opened)) (by decide)
  · intro hfree
    rw [hf] at hfree
    obtain ⟨-, hclosing, -⟩ := hfreed hfree
    exact absurd (closed.symm.trans (hclosing.trans opened)) (by decide)

/-! ## Steps of the server -/

/-- `Destroyed` is queued on the connection's loop. -/
theorem Kept.queueDestroyed (h : Kept s i c) (owned : s.owned i c = true) :
    Kept t i { c with session := c.session.queueDestroyed } where
  awaited :=
    { born := h.awaited.born.keep (by simp [Session.queueDestroyed])
      placed := h.awaited.placed.keep [.destroyed] rfl
      handles := h.awaited.handles.keep
        (by simp [Session.awaits, Session.queueDestroyed, QueuedFunctor.isAwait])
      waits := h.awaited.waits.keep (by simp [Session.queueDestroyed])
      reader := h.awaited.reader
      writer := h.awaited.writer.keep
      protocol := h.awaited.protocol.keep }
  writing := h.writing.keep
  runs := h.runs
  anchored _ := anchored_of_held (by
    simp [Session.held, Session.queueDestroyed, QueuedFunctor.owns])
  freed hf := absurd (hf.symm.trans (h.not_freed owned)) (by decide)
  touched := h.touched

theorem AllKept.accept (hs : s.AllKept) (hn : s.Named) (room : s.nextConnId < maxConnId) :
    s.newConnection.AllKept := by
  intro j d hd
  rcases newConnection_conns hd with ⟨rfl, rfl⟩ | hold
  · exact ⟨Session.awaited_create _ _ _ _, ⟨rfl, rfl, fun _ => rfl⟩,
      fun h => absurd h (by simp [Conn.create, Session.create, Session.start, Session.running]),
      fun h => absurd rfl h, by simp [Conn.create], rfl⟩
  · refine (hs j d hold).frame ?_ Iff.rfl
    have hj : j < s.conns.length := (List.getElem?_eq_some_iff.mp hold).1
    have hnew : s.newConnection.conns[s.conns.length]? =
        some (.create s.connName s.getNextLoop.1) := by
      simp [newConnection]
    have hne : d.name ≠ s.connName := by
      intro hname
      have := (hn.accept room).inj hd hnew hname
      omega
    exact AList.lookup_insert_ne hne

/-- The entry of one connection is taken out; those of the others stay. -/
theorem lookup_erase_others (hn : s.Named) (found : s.conns[i]? = some c) {j : ℕ} {d : Conn}
    (hj : j ≠ i) (hd : s.conns[j]? = some d) :
    (s.connectionMap.erase c.name).lookup d.name = s.connectionMap.lookup d.name :=
  AList.lookup_erase_ne fun hname => hj (hn.inj hd found hname)

theorem Safe.conn {act : SessionAct} (ok : Safe s (.conn i act)) (found : s.conns[i]? = some c) :
    c.session.sendsInFatal act = false ∧
      ((c.session.endsRead act || c.session.endsWrite act) = true → s.anchors i c act = true) := by
  simp only [Safe, safe, found, Option.all_some, Bool.and_eq_true, Bool.not_eq_true'] at ok
  refine ⟨ok.1, ?_⟩
  intro hends
  simpa [hends] using ok.2

theorem Safe.removal {is : List ℕ} (ok : Safe s .removal) (head : s.removals = i :: is)
    (found : s.conns[i]? = some c) : c.rest = none ∨ c.session.held = true := by
  simpa [Safe, safe, head, found] using ok

theorem Turn.allKept (h : Turn s a s') (ok : Safe s a) (hn : s.Named) (hs : s.AllKept) :
    s'.AllKept := by
  cases h with
  | accept room => exact hs.accept hn room
  | @conn i c act u found own loop move still =>
      obtain ⟨quiet, guard⟩ := ok.conn found
      exact hs.put rfl (fun _ _ _ _ => ⟨rfl, Iff.rfl⟩)
        ((hs i c found).conn move own loop quiet guard)
  | @close i c act u found own loop move opened closed alive =>
      obtain ⟨quiet, guard⟩ := ok.conn found
      unfold removeConnection
      split
      case isTrue hbase =>
        refine hs.put rfl (fun _ _ hj hd => ⟨lookup_erase_others hn found hj hd, Iff.rfl⟩) ?_
        refine (hs i c found).close move own loop quiet guard opened closed ⟨rfl, rfl, rfl, rfl⟩ ?_
        rintro (hheld | hr | hloop)
        · exact anchored_of_held hheld
        · simp [anchored, hr]
        · exact absurd hbase hloop
      case isFalse =>
        refine hs.put rfl (fun j d hj hd => ⟨rfl, by simp [hj]⟩) ?_
        refine (hs i c found).close move own loop quiet guard opened closed ⟨rfl, rfl, rfl, rfl⟩ ?_
        intro _
        simp [anchored]
  | @reset i c found rest =>
      have hkept := hs i c found
      have hanchored := hkept.anchored (by simp [rest])
      refine hs.put rfl (fun _ _ _ _ => ⟨rfl, Iff.rfl⟩) ⟨hkept.awaited, hkept.writing, hkept.runs,
        fun _ => hanchored, ?_, hkept.touched⟩
      intro hf
      exact absurd (hf.symm.trans (hkept.not_freed (owned_of_anchored hanchored))) (by decide)
  | @touch i c found rest =>
      have hkept := hs i c found
      have hfree := hkept.not_freed (owned_of_anchored (hkept.anchored (by simp [rest])))
      refine hs.put rfl (fun _ _ _ _ => ⟨rfl, Iff.rfl⟩) ⟨hkept.awaited, hkept.writing, hkept.runs,
        fun h => absurd rfl h, fun hf => absurd (hf.symm.trans hfree) (by decide), ?_⟩
      show (c.touched || c.freed) = false
      rw [hkept.touched, hfree, Bool.or_false]
  | @destroyed i c found owned =>
      exact hs.put rfl (fun _ _ _ _ => ⟨rfl, Iff.rfl⟩) ((hs i c found).queueDestroyed owned)
  | @removal i is c head found alive =>
      have hkept := hs i c found
      have hfree := hkept.not_freed (by simp [owned, head])
      refine hs.put rfl (fun j d hj hd => ⟨lookup_erase_others hn found hj hd, by simp [head, hj]⟩)
        ⟨hkept.awaited, hkept.writing, hkept.runs, ?_,
          fun hf => absurd (hf.symm.trans hfree) (by decide), hkept.touched⟩
      intro hrest
      rcases ok.removal head found with hnone | hheld
      · exact absurd hnone hrest
      · exact anchored_of_held hheld
  | @destroy i c found entry =>
      have howned : s.owned i c = true := by simp [owned, entry]
      exact hs.put rfl (fun _ _ hj hd => ⟨lookup_erase_others hn found hj hd, Iff.rfl⟩)
        ((hs i c found).queueDestroyed howned)
  | @closeLate i c act u found own loop move =>
      obtain ⟨quiet, guard⟩ := ok.conn found
      have hput : (s.put i (c.after act u)).AllKept := hs.put rfl (fun _ _ _ _ => ⟨rfl, Iff.rfl⟩)
        ((hs i c found).conn move own loop quiet guard)
      exact fun j d hd => (hput j d hd).frame rfl Iff.rfl
  | acceptLate => exact fun i c found => (hs i c found).frame rfl Iff.rfl
  | removalLate => exact fun i c found => (hs i c found).frame rfl Iff.rfl

end

/-- **Contexts are touched while they are owned.**  Take a run of a server, with any number of
sub-loops, in which

* a completion that ends its request finds another owner that will be left: a functor that captured
  the connection, the request of the other context, a coroutine that `handleClose` is not going to
  destroy, a queued removal, or an entry of the table that its own close callback does not take out
  at once;
* the base loop runs the removal of a connection between the end of the request and the end of the
  `on_completion` only if one of the owners of the connection's own is left;
* no coroutine sends from inside the fatal branch of a write completion of an open connection.

Then no `on_completion` has used a connection after its last owner had gone. -/
theorem contexts_touched_while_owned {s : TcpServer} {name : List Char} {addr : InetAddress}
    {numThreads : ℕ} (run : Reach step Safe (create name addr numThreads) s) :
    ∀ c ∈ s.conns, c.touched = false := by
  have h := run.invariant (P := fun s => s.Named ∧ s.AllKept)
    ⟨named_create name addr numThreads, by simp [AllKept, create]⟩
    fun _ _ _ hs ok move =>
      ⟨(step_turn move).named hs.1, (step_turn move).allKept ok hs.1 hs.2⟩
  intro c hc
  obtain ⟨i, hi, rfl⟩ := List.getElem_of_mem hc
  exact (h.2 i _ (List.getElem?_eq_getElem hi)).touched

/-- The peer of a connection on a sub-loop goes away.  The base loop runs the removal when the
`on_completion` is done, and the connection goes. -/
theorem contexts_touched_while_owned_subloop :
    ∃ s, Reach step Safe (create ['s'] ⟨(127, 0, 0, 1), 8080⟩ 1) s ∧
      s.conns.map Conn.freed = [true] ∧ (s.conns.map fun c => c.session.callbacks) = [1] ∧
      ∀ c ∈ s.conns, c.touched = false := by
  obtain ⟨s, run, h⟩ := exists_reach step Safe (create ['s'] ⟨(127, 0, 0, 1), 8080⟩ 1)
    [.accept, .conn 0 .functor, .conn 0 (.co .prepareToRead), .conn 0 (.readCqe 0 [] false),
      .conn 0 (.co .ret), .conn 0 .unwind, .reset 0, .touch 0, .removal]
    (fun s => decide (s.conns.map Conn.freed = [true] ∧
      (s.conns.map fun c => c.session.callbacks) = [1]))
    (by decide +kernel)
  obtain ⟨hfreed, hcallbacks⟩ := of_decide_eq_true h
  exact ⟨s, run, hfreed, hcallbacks, contexts_touched_while_owned run⟩

/-- The same on a server without sub-loops.  The coroutine waits in `PrepareToRead`, the receive
ends with 0, the coroutine returns and is destroyed, the entry is erased, and `holder_.reset()` lets
go of the last owner; then `status_` is written. -/
theorem context_touched_after_last_owner :
    ¬ ∀ s, Reach step anyStep (create ['s'] ⟨(127, 0, 0, 1), 8080⟩ 0) s →
      ∀ c ∈ s.conns, c.touched = false := by
  intro h
  obtain ⟨s, run, hbad⟩ := exists_reach step anyStep (create ['s'] ⟨(127, 0, 0, 1), 8080⟩ 0)
    [.accept, .conn 0 .functor, .conn 0 (.co .prepareToRead), .conn 0 (.readCqe 0 [] false),
      .conn 0 (.co .ret), .conn 0 .unwind, .reset 0, .touch 0]
    (fun s => s.conns.any Conn.touched) (by decide +kernel)
  obtain ⟨c, hc, htouched⟩ := List.any_eq_true.mp hbad
  exact absurd ((h s run c hc).symm.trans htouched) (by decide)

/-- With a sub-loop it takes a base loop that runs the removal before the handler is done. -/
example : ∃ s, Reach step anyStep (create ['s'] ⟨(127, 0, 0, 1), 8080⟩ 1) s ∧
    s.conns.any Conn.touched = true :=
  exists_reach step anyStep (create ['s'] ⟨(127, 0, 0, 1), 8080⟩ 1)
    [.accept, .conn 0 .functor, .conn 0 (.co .prepareToRead), .conn 0 (.readCqe 0 [] false),
      .conn 0 (.co .ret), .conn 0 .unwind, .removal, .reset 0, .touch 0]
    (fun s => s.conns.any Conn.touched) (by decide +kernel)

end TcpServer

end Proactor
