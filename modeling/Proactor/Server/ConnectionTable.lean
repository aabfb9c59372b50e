import Proactor.Server.TcpServer
import Mathlib.Data.List.Nodup

/-!
# The table of connections

The names that `newConnection` gives are different: the number in the name is, and neither of the
two 64 byte buffers cuts it off (`connName_eq`).  `handleClose` closes the socket and calls the
close callback only when it sets `closing_`, so at most once for a connection (`Named.counts`).
Since the key of an entry is the name of its connection, a removal takes out that connection's entry
and no other, and the table holds the connections whose removal has not run yet
(`connection_table`).
-/

namespace Proactor

open Transition

/-! ## Names -/

theorem decimal_injective : Function.Injective decimal := by
  intro m n h
  have hparsed := congrArg (fun digits => Nat.ofDigitChars 10 digits 0) h
  simpa [decimal] using hparsed

theorem length_decimal_le {n k : ℕ} (hk : 0 < k) (hn : n < 10 ^ k) : (decimal n).length ≤ k :=
  (Nat.length_toDigits_le_iff (by decide) hk).mpr hn

namespace InetAddress

variable (a : InetAddress)

theorem length_toIp_le : a.toIp.length ≤ 15 := by
  have hbyte : ∀ b : UInt8, (decimal b.toNat).length ≤ 3 := fun b =>
    length_decimal_le (by decide) (Nat.lt_of_lt_of_le b.toNat_lt (by decide))
  have h₁ := hbyte a.ip.1
  have h₂ := hbyte a.ip.2.1
  have h₃ := hbyte a.ip.2.2.1
  have h₄ := hbyte a.ip.2.2.2
  simp only [toIp, List.length_append, List.length_cons]
  omega

theorem length_toIpPort_le : a.toIpPort.length ≤ 21 := by
  have hip := a.length_toIp_le
  have hport : (decimal a.port.toNat).length ≤ 5 :=
    length_decimal_le (by decide) (Nat.lt_of_lt_of_le a.port.toNat_lt (by decide))
  simp only [toIpPort, snprintf, List.length_append, List.length_take, List.length_cons]
  omega

end InetAddress

namespace TcpServer

/-- The name of the connection with a given number. -/
def nameOf (s : TcpServer) (id : ℕ) : List Char :=
  s.name ++ snprintf 64 ('-' :: s.ipPort ++ '#' :: decimal id)

/-- **The buffer of `newConnection` is large enough.** -/
theorem nameOf_eq {s : TcpServer} {id : ℕ} (short : s.ipPort.length ≤ 21) (hid : id ≤ maxConnId) :
    s.nameOf id = s.name ++ ('-' :: s.ipPort ++ '#' :: decimal id) := by
  have hdigits : (decimal id).length ≤ 10 :=
    length_decimal_le (by decide) (Nat.lt_of_le_of_lt hid (by decide))
  rw [nameOf, snprintf, List.take_of_length_le]
  simp only [List.length_append, List.length_cons]
  omega

theorem nameOf_injective {s : TcpServer} {i j : ℕ} (short : s.ipPort.length ≤ 21)
    (hi : i ≤ maxConnId) (hj : j ≤ maxConnId) (h : s.nameOf i = s.nameOf j) : i = j := by
  rw [nameOf_eq short hi, nameOf_eq short hj] at h
  have htail := List.append_cancel_left h
  simp only [List.cons_append, List.cons.injEq, true_and] at htail
  have hdigits := List.append_cancel_left htail
  exact decimal_injective (List.cons.inj hdigits).2

/-- **Names and counters of the connections.** -/
structure Named (s : TcpServer) : Prop where
  short : s.ipPort.length ≤ 21
  nextId : s.nextConnId = s.conns.length + 1
  room : s.nextConnId ≤ maxConnId
  names : ∀ (i : ℕ) (c : Conn), s.conns[i]? = some c → c.name = s.nameOf (i + 1)
  counts : ∀ (i : ℕ) (c : Conn), s.conns[i]? = some c →
    c.session.closes = c.session.closing.toNat ∧ c.session.callbacks = c.session.closing.toNat

section

variable {s s' : TcpServer} {a : ServerAct}

theorem Named.inj (hs : s.Named) {i j : ℕ} {c d : Conn} (hc : s.conns[i]? = some c)
    (hd : s.conns[j]? = some d) (h : c.name = d.name) : i = j := by
  have hi : i < s.conns.length := (List.getElem?_eq_some_iff.mp hc).1
  have hj : j < s.conns.length := (List.getElem?_eq_some_iff.mp hd).1
  have hnext := hs.nextId
  have hroom := hs.room
  rw [hs.names i c hc, hs.names j d hd] at h
  have := nameOf_injective hs.short (by omega) (by omega) h
  omega

/-- A step that records one connection, under its name and with its counters right. -/
theorem Named.put (hs : s.Named) {i : ℕ} {c c' : Conn} (found : s.conns[i]? = some c)
    (hname : c'.name = c.name)
    (hcounts : c'.session.closes = c'.session.closing.toNat ∧
      c'.session.callbacks = c'.session.closing.toNat) :
    (s.put i c').Named where
  short := hs.short
  nextId := by
    rw [put_length]
    exact hs.nextId
  room := hs.room
  names j d h := by
    rcases put_conns h with ⟨rfl, rfl⟩ | ⟨-, h⟩
    · exact hname.trans (hs.names _ c found)
    · exact hs.names j d h
  counts j d h := by
    rcases put_conns h with ⟨-, rfl⟩ | ⟨-, h⟩
    · exact hcounts
    · exact hs.counts j d h

/-- What the table and the queue of removals hold does not matter. -/
theorem Named.congr {t : TcpServer} (hs : s.Named) (hconns : t.conns = s.conns := by rfl)
    (hip : t.ipPort = s.ipPort := by rfl) (hname : t.name = s.name := by rfl)
    (hnext : t.nextConnId = s.nextConnId := by rfl) : t.Named where
  short := hip ▸ hs.short
  nextId := by rw [hnext, hconns, hs.nextId]
  room := hnext ▸ hs.room
  names i c h := by
    rw [nameOf, hname, hip]
    exact hs.names i c (hconns ▸ h)
  counts i c h := hs.counts i c (hconns ▸ h)

theorem Named.accept (hs : s.Named) (room : s.nextConnId < maxConnId) : s.newConnection.Named where
  short := hs.short
  nextId := by simp [newConnection, hs.nextId]
  room := room
  names i c h := by
    rcases newConnection_conns h with ⟨rfl, rfl⟩ | h
    · show s.nameOf s.nextConnId = s.nameOf (s.conns.length + 1)
      rw [hs.nextId]
    · exact hs.names i c h
  counts i c h := by
    rcases newConnection_conns h with ⟨rfl, rfl⟩ | h
    · exact ⟨rfl, rfl⟩
    · exact hs.counts i c h

/-- A step of the connection's session keeps its counters right. -/
theorem Named.counts_step (hs : s.Named) {i : ℕ} {c : Conn} {act : SessionAct} {t : Session}
    (found : s.conns[i]? = some c) (move : c.session.step act = some t) :
    t.closes = t.closing.toNat ∧ t.callbacks = t.closing.toNat := by
  obtain ⟨hcloses, hcallbacks⟩ := (Session.step_move move).counts
  obtain ⟨hcloses', hcallbacks'⟩ := hs.counts i c found
  omega

theorem Turn.named (h : Turn s a s') (hs : s.Named) : s'.Named := by
  cases h with
  | accept room => exact hs.accept room
  | conn found own loop move still => exact hs.put found rfl (hs.counts_step found move)
  | @closeLate i c act t found own loop move =>
      have hput : (s.put i (c.after act t)).Named := hs.put found rfl (hs.counts_step found move)
      exact hput.congr
  | close found own loop move =>
      have hcounts := hs.counts_step found move
      unfold removeConnection
      split
      case isTrue => exact hs.congr.put found rfl hcounts
      case isFalse => exact hs.congr.put found rfl hcounts
  | @reset i c found rest =>
      have hcounts := hs.counts i c found
      exact hs.put found rfl hcounts
  | @touch i c found rest =>
      have hcounts := hs.counts i c found
      exact hs.put found rfl hcounts
  | @destroyed i c found owned =>
      have hcounts := hs.counts i c found
      exact hs.put found rfl hcounts
  | @removal i is c head found alive =>
      have hcounts := hs.counts i c found
      exact hs.congr.put found rfl hcounts
  | @destroy i c found entry =>
      have hcounts := hs.counts i c found
      exact hs.congr.put found rfl hcounts
  | acceptLate => exact hs.congr
  | removalLate => exact hs.congr

/-! ## The table -/

/-- The connection with this name and number has been created, and its removal has not run. -/
def Listed (s : TcpServer) (n : List Char) (i : ℕ) : Prop :=
  ∃ c, s.conns[i]? = some c ∧ c.name = n ∧ c.removed = false

/-- **The table holds the connections that have not been removed.** -/
def Tabled (s : TcpServer) : Prop :=
  s.gone = false → ∀ n i, s.connectionMap.lookup n = some i ↔ s.Listed n i

/-- Recording a connection changes nothing here unless it has been removed. -/
theorem listed_put {i j : ℕ} {c c' : Conn} {n : List Char} (found : s.conns[i]? = some c)
    (hname : c'.name = c.name) (hremoved : c'.removed = c.removed) :
    (s.put i c').Listed n j ↔ s.Listed n j := by
  constructor
  · rintro ⟨d, hd, hn, hr⟩
    rcases put_conns hd with ⟨rfl, rfl⟩ | ⟨-, hd⟩
    · exact ⟨c, found, hname.symm.trans hn, hremoved.symm.trans hr⟩
    · exact ⟨d, hd, hn, hr⟩
  · rintro ⟨d, hd, hn, hr⟩
    by_cases hj : j = i
    · subst hj
      obtain rfl := Option.some.inj (found.symm.trans hd)
      exact ⟨_, put_conns_self found, hname.trans hn, hremoved.trans hr⟩
    · exact ⟨d, (put_conns_ne hj).trans hd, hn, hr⟩

theorem Tabled.put (hs : s.Tabled) {i : ℕ} {c c' : Conn} (found : s.conns[i]? = some c)
    (hname : c'.name = c.name) (hremoved : c'.removed = c.removed) : (s.put i c').Tabled := by
  intro alive n j
  rw [listed_put found hname hremoved]
  exact hs alive n j

/-- **A removal takes out its own entry.** -/
theorem Tabled.remove (hs : s.Tabled) (hn : s.Named) {i : ℕ} {c c' : Conn}
    (found : s.conns[i]? = some c) (hname : c'.name = c.name) :
    (s.removeConnectionInLoop i c').Tabled := by
  intro alive n j
  show (s.connectionMap.erase c'.name).lookup n = some j ↔ _
  rw [hname]
  constructor
  · intro hlookup
    have hne : n ≠ c.name := by
      rintro rfl
      simp at hlookup
    rw [AList.lookup_erase_ne hne] at hlookup
    obtain ⟨d, hd, hdn, hdr⟩ := (hs alive n j).mp hlookup
    have hj : j ≠ i := by
      rintro rfl
      obtain rfl := Option.some.inj (found.symm.trans hd)
      exact hne hdn.symm
    exact ⟨d, (put_conns_ne hj).trans hd, hdn, hdr⟩
  · rintro ⟨d, hd, hdn, hdr⟩
    rcases put_conns hd with ⟨-, rfl⟩ | ⟨hj, hd⟩
    · exact absurd hdr (by simp)
    · have hne : n ≠ c.name := by
        rintro rfl
        exact hj (hn.inj hd found hdn)
      rw [AList.lookup_erase_ne hne]
      exact (hs alive n j).mpr ⟨d, hd, hdn, hdr⟩

theorem Tabled.accept (hs : s.Tabled) (hn : s.Named) (room : s.nextConnId < maxConnId) :
    s.newConnection.Tabled := by
  intro alive n j
  have hnew : s.newConnection.conns[s.conns.length]? =
      some (.create s.connName s.getNextLoop.1) := by
    simp [newConnection]
  show (s.connectionMap.insert s.connName s.conns.length).lookup n = some j ↔ _
  by_cases hname : n = s.connName
  · subst hname
    rw [AList.lookup_insert, Option.some.injEq]
    constructor
    · rintro rfl
      exact ⟨_, hnew, rfl, rfl⟩
    · rintro ⟨d, hd, hdn, -⟩
      exact (hn.accept room).inj hnew hd hdn.symm
  · rw [AList.lookup_insert_ne hname, hs alive n j]
    constructor
    · rintro ⟨d, hd, hdn, hdr⟩
      have hj : j < s.conns.length := (List.getElem?_eq_some_iff.mp hd).1
      exact ⟨d, by rw [newConnection, List.getElem?_append_left hj, hd], hdn, hdr⟩
    · rintro ⟨d, hd, hdn, hdr⟩
      rcases newConnection_conns hd with ⟨rfl, rfl⟩ | hd
      · exact absurd hdn.symm hname
      · exact ⟨d, hd, hdn, hdr⟩

theorem Turn.tabled (h : Turn s a s') (hn : s.Named) (hs : s.Tabled) : s'.Tabled := by
  cases h with
  | accept room => exact hs.accept hn room
  | conn found own loop move still => exact hs.put found rfl rfl
  | @close i c act t found own loop move opened closed alive =>
      unfold removeConnection
      split
      case isTrue => exact hs.remove hn found rfl
      case isFalse =>
        have ht : Tabled { s with removals := s.removals ++ [i] } := hs
        exact ht.put found rfl rfl
  | reset found rest => exact hs.put found rfl rfl
  | touch found rest => exact hs.put found rfl rfl
  | destroyed found owned => exact hs.put found rfl rfl
  | @removal i is c head found alive =>
      have ht : Tabled { s with removals := is } := hs
      exact ht.remove hn.congr found rfl
  | destroy found entry => exact fun alive => absurd alive (by simp [put])
  | closeLate found own loop move opened closed gone =>
      exact fun alive => absurd (alive.symm.trans gone) (by decide)
  | acceptLate => exact hs
  | removalLate => exact hs

/-- A server that has not begun to be destroyed had not begun before. -/
theorem Turn.gone (h : Turn s a s') (alive : s'.gone = false) : s.gone = false := by
  cases h with
  | destroy => exact absurd alive (by simp [put])
  | close found own loop move opened closed before => exact before
  | _ => exact alive

/-- The name and the address of a server do not change. -/
theorem Turn.nameOf_eq (h : Turn s a s') (id : ℕ) : s'.nameOf id = s.nameOf id := by
  cases h with
  | close found =>
      unfold removeConnection
      split <;> rfl
  | _ => rfl

theorem named_create (name : List Char) (addr : InetAddress) (numThreads : ℕ) :
    (create name addr numThreads).Named where
  short := addr.length_toIpPort_le
  nextId := rfl
  room := by simp [create, maxConnId]
  names := by simp [create]
  counts := by simp [create]

theorem reach_table {name : List Char} {addr : InetAddress} {numThreads : ℕ}
    (run : Reach step anyStep (create name addr numThreads) s) : s.Named ∧ s.Tabled :=
  run.invariant (P := fun s => s.Named ∧ s.Tabled)
    ⟨named_create name addr numThreads, fun _ n i => by simp [create, Listed]⟩
    fun _ _ _ hs _ move => ⟨(step_turn move).named hs.1, (step_turn move).tabled hs.1 hs.2⟩

/-- Between a connection that has not been removed and one that has, the table knows. -/
theorem lookup_name (hn : s.Named) (hs : s.Tabled) (alive : s.gone = false) {i : ℕ} {c : Conn}
    (found : s.conns[i]? = some c) :
    s.connectionMap.lookup c.name = if c.removed then none else some i := by
  cases hr : c.removed with
  | false => exact (hs alive c.name i).mpr ⟨c, found, rfl, hr⟩
  | true =>
      rw [if_pos rfl, Option.eq_none_iff_forall_ne_some]
      intro j hj
      obtain ⟨d, hd, hdn, hdr⟩ := (hs alive c.name j).mp hj
      obtain rfl := hn.inj hd found hdn
      obtain rfl := Option.some.inj (found.symm.trans hd)
      exact absurd (hr.symm.trans hdr) (by decide)

end

/-- **The table of connections.**  In every run of a server, whatever closes its connections and in
whatever order their loops and the base loop take their turns: the names of the connections are
different; the close callback of a connection is called at most once, and `handleClose` closes its
socket at most once; while there is a server, its table holds the connections that have been created
and whose removal has not run, each under its own name; and an entry changes only in the step that
runs the removal of its own connection. -/
theorem connection_table {s : TcpServer} {name : List Char} {addr : InetAddress} {numThreads : ℕ}
    (run : Reach step anyStep (create name addr numThreads) s) :
    (s.conns.map Conn.name).Nodup ∧
      (∀ c ∈ s.conns, c.session.callbacks ≤ 1 ∧ c.session.closes ≤ 1) ∧
      (s.gone = false → ∀ n i, s.connectionMap.lookup n = some i ↔
        ∃ c, s.conns[i]? = some c ∧ c.name = n ∧ c.removed = false) ∧
      ∀ a s', s.step a = some s' → s'.gone = false → ∀ (j : ℕ) (c c' : Conn),
        s.conns[j]? = some c → s'.conns[j]? = some c' → c'.removed = c.removed →
        s'.connectionMap.lookup c.name = s.connectionMap.lookup c.name := by
  obtain ⟨hn, ht⟩ := reach_table run
  refine ⟨?_, ?_, ht, ?_⟩
  · rw [List.Nodup, List.pairwise_map, List.pairwise_iff_getElem]
    intro i j hi hj hlt hname
    have := hn.inj (List.getElem?_eq_getElem hi) (List.getElem?_eq_getElem hj) hname
    omega
  · intro c hc
    obtain ⟨i, hi, rfl⟩ := List.getElem_of_mem hc
    obtain ⟨hcloses, hcallbacks⟩ := hn.counts i _ (List.getElem?_eq_getElem hi)
    rw [hcloses, hcallbacks]
    exact ⟨Bool.toNat_le _, Bool.toNat_le _⟩
  · intro a s' move alive j c c' found found' hsame
    have hturn := step_turn move
    have hn' := hturn.named hn
    have hname : c'.name = c.name := by
      rw [hn'.names j c' found', hn.names j c found, hturn.nameOf_eq]
    rw [lookup_name hn ht (hturn.gone alive) found, ← hname,
      lookup_name hn' (hturn.tabled hn ht) alive found', hsame]

/-- Two connections on two sub-loops.  The peer of the first goes away while its coroutine waits for
data, and the base loop has run the removal. -/
theorem connection_table_removed :
    ∃ s, Reach step anyStep (create ['s'] ⟨(127, 0, 0, 1), 8080⟩ 2) s ∧
      s.conns.map Conn.removed = [true, false] ∧
      (s.conns.map fun c => c.session.callbacks) = [1, 0] ∧
      (s.conns.map Conn.name).Nodup ∧
      ∀ n i, s.connectionMap.lookup n = some i ↔
        ∃ c, s.conns[i]? = some c ∧ c.name = n ∧ c.removed = false := by
  obtain ⟨s, run, h⟩ := exists_reach step anyStep (create ['s'] ⟨(127, 0, 0, 1), 8080⟩ 2)
    [.accept, .accept, .conn 0 .functor, .conn 0 (.co .prepareToRead),
      .conn 0 (.readCqe 0 [] false), .conn 0 (.co .ret), .conn 0 .unwind, .reset 0, .touch 0,
      .removal]
    (fun s => decide (s.gone = false ∧ s.conns.map Conn.removed = [true, false] ∧
      (s.conns.map fun c => c.session.callbacks) = [1, 0])) (by decide +kernel)
  obtain ⟨alive, hremoved, hcallbacks⟩ := of_decide_eq_true h
  obtain ⟨hnames, -, htable, -⟩ := connection_table run
  exact ⟨s, run, hremoved, hcallbacks, hnames, htable alive⟩

end TcpServer

end Proactor
