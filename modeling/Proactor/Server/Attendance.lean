import Proactor.Server.ConnectionTable

/-!
# What the steps of a server leave of an open connection

A connection that is open has an owner that is not its own request or coroutine: the table has its
entry, or a `Destroyed` is in the queue of its loop, which will close it (`Attended`).  So no
connection goes before `handleClose` has closed its socket.

A step of the server is about one connection (`Turn.changes`), and the requests it submits carry
the value of `closing_` that the connection has before and after the step (`Session.Submits`).
-/

namespace Proactor

/-! ## What a step of a session submits -/

namespace Session

variable {s t : Session} {a : SessionAct}

/-- The SQEs of a step come after those before, and those of requests carry the value that
`closing_` has before and after the step. -/
def Submits (s t : Session) : Prop :=
  ∃ new, t.sqes = s.sqes ++ new ∧
    ∀ q ∈ new, q.kind ≠ .cancel → q.closed = s.closing ∧ t.closing = s.closing

theorem Submits.none (h : t.sqes = s.sqes) : Submits s t := ⟨[], by simp [h], by simp⟩

theorem Submits.of_eq {u : Session} (h : Submits s t) (hsqes : u.sqes = t.sqes)
    (hclosing : u.closing = t.closing) : Submits s u := by
  obtain ⟨new, hnew, hall⟩ := h
  exact ⟨new, hsqes.trans hnew, fun q hq hk => hclosing ▸ hall q hq hk⟩

theorem submits_took (res : ℤ) (data : List UInt8) (more : Bool) :
    ∃ new, (s.took res data more).sqes = s.sqes ++ new ∧ ∀ q ∈ new, q.kind = .cancel := by
  refine ⟨_, rfl, ?_⟩
  split <;> simp

theorem submits_submitRead : Submits s s.submitRead := by
  rw [submitRead_eq]
  refine ⟨_, rfl, ?_⟩
  split <;> simp

theorem submits_awaitRead : Submits s s.awaitRead := by
  rw [awaitRead_eq]
  refine ⟨_, rfl, ?_⟩
  split <;> simp

theorem submits_wrote (w : WriteContext) (flushed : Bool) : Submits s (s.wrote w flushed) := by
  refine ⟨_, rfl, ?_⟩
  split <;> simp [wrote]

theorem WokeReader.sqes_eq (h : WokeReader s t) : t.sqes = s.sqes ∧ t.closing = s.closing := by
  cases h <;> simp

theorem WokeWriter.sqes_eq (h : WokeWriter s t) : t.sqes = s.sqes ∧ t.closing = s.closing := by
  cases h <;> simp

/-- A cancel that came with the payload is no request. -/
theorem Submits.took {res : ℤ} {data : List UInt8} {more : Bool}
    (h : Submits (s.took res data more) t) : Submits s t := by
  obtain ⟨new, hnew, hall⟩ := h
  obtain ⟨cancels, hcancels, honly⟩ := submits_took (s := s) res data more
  refine ⟨cancels ++ new, by rw [hnew, hcancels, List.append_assoc], ?_⟩
  intro q hq hk
  rcases List.mem_append.mp hq with hq | hq
  · exact absurd (honly q hq) hk
  · exact hall q hq hk

theorem Move.submits (h : Move s a t) : Submits s t := by
  cases h with
  | readMore idle out holder status woke =>
      exact Submits.took (.none woke.sqes_eq.1)
  | @readStopped res data _ idle out holder fatal status woke =>
      have hnone : Submits (s.took res data false) t := .none woke.sqes_eq.1
      exact hnone.took
  | readAgain idle out holder fatal status woke =>
      exact Submits.took (submits_submitRead.of_eq woke.sqes_eq.1 woke.sqes_eq.2)
  | @readFatal res data =>
      have hnone : Submits (s.took res data false) ((s.took res data false).woken .readFatal) :=
        .none (woken_sqes _ _)
      exact hnone.took
  | @readClose res data =>
      have hnone : Submits (s.took res data false) (s.took res data false).shut.endRead :=
        .none rfl
      exact hnone.took
  | @writeMore res w flushed _ idle out holder fatal proceeds woke =>
      obtain ⟨hsqes, hclosing⟩ := woke.sqes_eq
      have hwrote := submits_wrote (s := { s with kernelWrites := s.kernelWrites - 1 }) w flushed
      exact hwrote.of_eq hsqes hclosing
  | recvRegister => exact submits_awaitRead
  | sendRegister => exact submits_wrote _ _
  | @sendResume data fs w flushed =>
      have hwrote := submits_wrote (s := { s with functors := fs }) w flushed
      exact hwrote.of_eq (woken_sqes _ _) (woken_closing _ _)
  | drainRead => exact ⟨_, rfl, by simp [prepareRead]⟩
  | drainWrite => exact ⟨_, rfl, by simp [prepareWrite]⟩
  | recvSuspend => exact submits_awaitRead
  | @sendThrough _ _ w flushed =>
      rw [sendAwaitResume_eq]
      exact submits_wrote w flushed
  | @sendSuspend _ _ w flushed => exact submits_wrote { w with writeHandle := true } flushed
  | writeFatal => exact .none (by simp)
  | recvResume => exact .none (by simp)
  | recvReady => exact .none (by rw [recvAwaitResume_eq])
  | recvLate => exact .none (by rw [recvAwaitResume_eq])
  | sendLate => exact .none (by rw [sendAwaitResume_eq])
  | sendLateWorker => exact .none (by rw [sendAwaitResume_eq])
  | _ => exact .none rfl

/-- A queued `Destroyed` stays queued until it runs, and running it closes the connection. -/
theorem Move.destroyed_queued (h : Move s a t) (hs : .destroyed ∈ s.functors) :
    .destroyed ∈ t.functors ∨ t.closing = true := by
  have hmore : ∀ more, .destroyed ∈ s.functors ++ more := fun _ => List.mem_append_left _ hs
  -- the functor at the head was another one
  have hrest : ∀ f fs, s.functors = f :: fs → f ≠ .destroyed → .destroyed ∈ fs := by
    intro f fs head hne
    rw [head] at hs
    exact (List.mem_cons.mp hs).resolve_left hne.symm
  cases h with
  | readMore _ _ _ _ woke => cases woke <;> simp [took, hs]
  | readStopped _ _ _ _ _ woke => cases woke <;> simp [took, endRead, hs]
  | readAgain _ _ _ _ _ woke => cases woke <;> simp [took, submitRead_eq, hs]
  | readFatal => simp [took, hs]
  | writeMore _ _ _ _ _ woke => cases woke <;> simp [wrote, hs]
  | writeFatal => simp [hs]
  | established _ head => exact .inl (hrest _ _ head (by simp))
  | recvRegister _ head =>
      rw [awaitRead_eq]
      exact .inl (hrest _ _ head (by simp))
  | recvResume _ head => simp [hrest _ _ head (by simp)]
  | sendRegister _ head => exact .inl (hrest _ _ head (by simp))
  | sendResume _ head => simp [wrote, hrest _ _ head (by simp)]
  | destroyed => exact .inr rfl
  | recvSuspend =>
      rw [awaitRead_eq]
      exact .inl hs
  | recvReady =>
      rw [recvAwaitResume_eq]
      exact .inl (hmore _)
  | recvLate =>
      rw [recvAwaitResume_eq]
      exact .inl (hmore _)
  | sendLate =>
      rw [sendAwaitResume_eq]
      exact .inl (hmore _)
  | sendLateWorker =>
      rw [sendAwaitResume_eq]
      exact .inl (hmore _)
  | sendThrough =>
      rw [sendAwaitResume_eq]
      exact .inl (hmore _)
  | enqueue => exact .inl (hmore _)
  | serverDestroy => exact .inl (hmore _)
  | _ => exact .inl hs

end Session

/-- A connection after a step about it. -/
structure Conn.Evolves (c d : Conn) : Prop where
  submits : c.session.Submits d.session
  closing : c.session.closing = true → d.session.closing = true

theorem Conn.Evolves.quiet {c d : Conn} (hsqes : d.session.sqes = c.session.sqes)
    (hclosing : d.session.closing = c.session.closing) : c.Evolves d where
  submits := .none hsqes
  closing := hclosing.trans

/-! ## An open connection has an owner -/

namespace TcpServer

/-- The connection that a step of the server is about. -/
def subject (s : TcpServer) : ServerAct → Option ℕ
  | .accept => none
  | .conn i _ | .reset i | .touch i | .destroyed i | .destroy i => some i
  | .removal => s.removals.head?

/-- **Open connections are attended to.**  One that is open is in the table, or its `Destroyed` is
queued; one that is to be removed, or has been let go of, is closed. -/
structure Attended (s : TcpServer) : Prop where
  opened : ∀ (i : ℕ) (c : Conn), s.conns[i]? = some c → c.session.closing = false →
    s.connectionMap.lookup c.name = some i ∨ .destroyed ∈ c.session.functors
  removing : ∀ i ∈ s.removals, ∃ c, s.conns[i]? = some c ∧ c.session.closing = true
  freed : ∀ (i : ℕ) (c : Conn), s.conns[i]? = some c → c.freed = true → c.session.closing = true

section

variable {s s' t : TcpServer} {i : ℕ} {c d : Conn} {a : ServerAct}

theorem owned_of_destroyed (h : .destroyed ∈ d.session.functors) : s.owned i d = true := by
  have hheld : d.session.held = true := by
    simp only [Session.held, Bool.or_eq_true, List.any_eq_true]
    exact .inr ⟨_, h, rfl⟩
  simp [owned, hheld]

theorem Attended.closing_of_removing (hs : s.Attended) (found : s.conns[i]? = some c)
    (mem : i ∈ s.removals) : c.session.closing = true := by
  obtain ⟨d, hd, hclosed⟩ := hs.removing i mem
  rwa [Option.some.inj (found.symm.trans hd)]

/-- Recording a connection that is still attended to, while nothing changes for the others. -/
theorem Attended.put (hs : s.Attended) (found : s.conns[i]? = some c) (hconns : t.conns = s.conns)
    (lookups : ∀ (j : ℕ) (e : Conn), j ≠ i → s.conns[j]? = some e →
      t.connectionMap.lookup e.name = s.connectionMap.lookup e.name)
    (removals : ∀ j ∈ t.removals, j ≠ i → j ∈ s.removals)
    (opened : d.session.closing = false → t.connectionMap.lookup d.name = some i ∨
      .destroyed ∈ d.session.functors)
    (removing : i ∈ t.removals → d.session.closing = true)
    (freed : d.freed = true → d.session.closing = true) : (t.put i d).Attended where
  opened j e he hopen := by
    rcases put_conns he with ⟨rfl, rfl⟩ | ⟨hj, he⟩
    · exact opened hopen
    · rw [hconns] at he
      have := hs.opened j e he hopen
      rwa [← lookups j e hj he] at this
  removing j hmem := by
    by_cases hj : j = i
    · subst hj
      exact ⟨_, put_conns_self (hconns ▸ found), removing hmem⟩
    · obtain ⟨e, he, hclosed⟩ := hs.removing j (removals j hmem hj)
      exact ⟨e, by rw [put_conns_ne hj, hconns, he], hclosed⟩
  freed j e he hfreed := by
    rcases put_conns he with ⟨rfl, rfl⟩ | ⟨-, he⟩
    · -- it goes only if nobody owned it, and an open connection has an owner
      cases hopen : d.session.closing with
      | true => rfl
      | false =>
          have howned : t.owned j d = true := by
            rcases opened hopen with hmap | hqueued
            · simp [owned, hmap]
            · exact owned_of_destroyed hqueued
          simp only [howned, Bool.not_true, Bool.or_false] at hfreed
          exact absurd ((freed hfreed).symm.trans hopen) (by decide)
    · rw [hconns] at he
      exact hs.freed j e he hfreed

theorem Attended.accept (hs : s.Attended) (hn : s.Named) (room : s.nextConnId < maxConnId) :
    s.newConnection.Attended := by
  have hn' := hn.accept room
  have hnew : s.newConnection.conns[s.conns.length]? =
      some (.create s.connName s.getNextLoop.1) := by
    simp [newConnection]
  refine ⟨?_, ?_, ?_⟩
  · intro j e he hopen
    rcases newConnection_conns he with ⟨rfl, rfl⟩ | hold
    · exact .inl (AList.lookup_insert _)
    · have hj : j < s.conns.length := (List.getElem?_eq_some_iff.mp hold).1
      have hne : e.name ≠ s.connName := by
        intro hname
        have := hn'.inj he hnew hname
        omega
      refine (hs.opened j e hold hopen).imp_left ?_
      exact (AList.lookup_insert_ne hne).trans
  · intro j hmem
    obtain ⟨e, he, hclosed⟩ := hs.removing j hmem
    have hj : j < s.conns.length := (List.getElem?_eq_some_iff.mp he).1
    exact ⟨e, by rw [newConnection, List.getElem?_append_left hj, he], hclosed⟩
  · intro j e he hfreed
    rcases newConnection_conns he with ⟨-, rfl⟩ | hold
    · exact absurd hfreed (by simp [Conn.create])
    · exact hs.freed j e hold hfreed

theorem Turn.attended (h : Turn s a s') (hn : s.Named) (hs : s.Attended) : s'.Attended := by
  cases h with
  | accept room => exact hs.accept hn room
  | @conn i c act u found own loop move still =>
      have hmove := Session.step_move move
      refine hs.put found rfl (fun _ _ _ _ => rfl) (fun _ hj _ => hj) ?_ ?_ ?_
      · intro (hopen : u.closing = false)
        have hbefore : c.session.closing = false := by
          rw [Bool.eq_false_iff]
          exact fun hclosed => absurd ((hmove.closing_mono hclosed).symm.trans hopen) (by decide)
        rcases hs.opened i c found hbefore with hmap | hqueued
        · exact .inl hmap
        · exact .inr ((hmove.destroyed_queued hqueued).resolve_right (by simp [hopen]))
      · exact fun hmem => hmove.closing_mono (hs.closing_of_removing found hmem)
      · exact fun hfreed => hmove.closing_mono (hs.freed i c found hfreed)
  | @close i c act u found own loop move opened closed alive =>
      have hopen : (c.after act u).session.closing = false → False :=
        fun h => absurd (closed.symm.trans h) (by decide)
      unfold removeConnection
      split
      case isTrue =>
        exact hs.put found rfl
          (fun j e hj he => AList.lookup_erase_ne fun hname => hj (hn.inj he found hname))
          (fun _ hj _ => hj) (fun h => (hopen h).elim) (fun _ => closed) (fun _ => closed)
      case isFalse =>
        refine hs.put found rfl (fun _ _ _ _ => rfl) ?_ (fun h => (hopen h).elim)
          (fun _ => closed) (fun _ => closed)
        intro j hj hne
        exact (List.mem_append.mp hj).resolve_right (by simpa using hne)
  | @reset i c found rest =>
      have hremoving := hs.closing_of_removing found
      exact hs.put found rfl (fun _ _ _ _ => rfl) (fun _ hj _ => hj) (hs.opened i c found)
        hremoving (hs.freed i c found)
  | @touch i c found rest =>
      have hremoving := hs.closing_of_removing found
      exact hs.put found rfl (fun _ _ _ _ => rfl) (fun _ hj _ => hj) (hs.opened i c found)
        hremoving (hs.freed i c found)
  | @destroyed i c found owned =>
      have hremoving := hs.closing_of_removing found
      exact hs.put found rfl (fun _ _ _ _ => rfl) (fun _ hj _ => hj)
        (fun _ => .inr (by simp [Session.queueDestroyed])) hremoving
        (hs.freed i c found)
  | @removal i is c head found alive =>
      have hclosed : c.session.closing = true := hs.closing_of_removing found (by simp [head])
      exact hs.put found rfl
        (fun j e hj he => AList.lookup_erase_ne fun hname => hj (hn.inj he found hname))
        (fun j hj _ => by rw [head]; exact List.mem_cons_of_mem _ hj)
        (fun h => absurd (hclosed.symm.trans h) (by decide)) (fun _ => hclosed) (fun _ => hclosed)
  | @destroy i c found entry =>
      have hremoving := hs.closing_of_removing found
      exact hs.put found rfl
        (fun j e hj he => AList.lookup_erase_ne fun hname => hj (hn.inj he found hname))
        (fun _ hj _ => hj) (fun _ => .inr (by simp [Session.queueDestroyed]))
        hremoving (hs.freed i c found)
  | @closeLate i c act u found own loop move opened closed =>
      have hput : (s.put i (c.after act u)).Attended := hs.put found rfl (fun _ _ _ _ => rfl)
        (fun _ hj _ => hj) (fun h => absurd (closed.symm.trans h) (by decide)) (fun _ => closed)
        (fun _ => closed)
      exact ⟨hput.opened, hput.removing, hput.freed⟩
  | acceptLate => exact ⟨hs.opened, hs.removing, hs.freed⟩
  | removalLate => exact ⟨hs.opened, hs.removing, hs.freed⟩

theorem step_accept (h : s.step .accept = some s') :
    s' = if s.gone then { s with fault := true } else s.newConnection := by
  simp only [step, Option.ite_none_left_eq_some, Option.ite_none_right_eq_some,
    Option.some.injEq] at h
  exact h.2.2.symm

/-- **A step is about one connection**, if about any. -/
theorem Turn.changes (h : Turn s a s') (hno : a ≠ .accept) :
    s'.conns = s.conns ∨ ∃ i c d, subject s a = some i ∧ s.conns[i]? = some c ∧
      s'.conns = s.conns.set i d ∧ c.Evolves d := by
  cases h with
  | accept => exact absurd rfl hno
  | acceptLate => exact absurd rfl hno
  | @conn i c act u found own loop move still =>
      have hmove := Session.step_move move
      exact .inr ⟨i, c, _, rfl, found, rfl, ⟨hmove.submits, hmove.closing_mono⟩⟩
  | @close i c act u found own loop move opened closed alive =>
      have hmove := Session.step_move move
      refine .inr ⟨i, c, ?_⟩
      unfold removeConnection
      split
      case isTrue => exact ⟨_, rfl, found, rfl, ⟨hmove.submits, hmove.closing_mono⟩⟩
      case isFalse => exact ⟨_, rfl, found, rfl, ⟨hmove.submits, hmove.closing_mono⟩⟩
  | @reset i c found rest => exact .inr ⟨i, c, _, rfl, found, rfl, .quiet rfl rfl⟩
  | @touch i c found rest => exact .inr ⟨i, c, _, rfl, found, rfl, .quiet rfl rfl⟩
  | @destroyed i c found owned => exact .inr ⟨i, c, _, rfl, found, rfl, .quiet rfl rfl⟩
  | @removal i is c head found alive =>
      exact .inr ⟨i, c, _, by simp [subject, head], found, rfl, .quiet rfl rfl⟩
  | @destroy i c found entry => exact .inr ⟨i, c, _, rfl, found, rfl, .quiet rfl rfl⟩
  | @closeLate i c act u found own loop move =>
      have hmove := Session.step_move move
      exact .inr ⟨i, c, _, rfl, found, rfl, ⟨hmove.submits, hmove.closing_mono⟩⟩
  | removalLate => exact .inl rfl

end

end TcpServer

end Proactor
