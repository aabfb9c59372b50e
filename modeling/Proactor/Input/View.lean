import Proactor.Input.InputRun

/-!
# The view of a connection on its chunks

`peek` hands out the address of bytes in the pool, and `retrieve` is called later.  In between the
loop goes on: the kernel stores payloads into other chunks, other connections are read and
destroyed, and more chunks are strung behind the one that is looked at.

* `Inv.step_apart` — a step that does not act on a connection leaves its chunks alone: the same
  chunks in the same order, with the same metadata and the same bytes.
* `Inv.complete_own` — a completion of the connection itself adds one chunk behind the others.
* `view_stable` — a view stays what it was until the connection itself consumes.
-/

namespace Proactor

open Chain Transition

namespace InputSide

/-- The connection whose buffer a step works on. -/
def actsOn (s : InputSide) : InputLabel → Option ℕ
  | .connect => none
  | .deliver _ _ _ => none
  | .complete => s.cq.head?.map Completion.conn
  | .read conn _ => some conn
  | .destroy conn => some conn

/-- The chunks of a buffer, with their metadata and their bytes, are the same in both states. -/
structure Apart (s s' : InputSide) (e : Endpoint) : Prop where
  chain : (s'.reader e).chain = (s.reader e).chain
  data : ∀ c ∈ (s.reader e).chain, s'.manager.chunksData c = s.manager.chunksData c
  bytes : ∀ c ∈ (s.reader e).chain,
    Reader.unreadOf s'.mem s'.manager c = Reader.unreadOf s.mem s.manager c

section

variable {s s' : InputSide} {k i j : ℕ} {d e : Endpoint}

/-- What `onEnd` can do, by the number of the connection. -/
theorem onEnd_some {conn : ℕ} {f : Endpoint → ChunkPoolManagerInput × Endpoint}
    (h : s.onEnd conn f = some s') :
    ∃ e, s.ends[conn]? = some e ∧ e.alive = true ∧
      s' = { s with manager := (f e).1, ends := s.ends.set conn (f e).2 } := by
  rw [onEnd] at h
  split at h
  case h_1 => exact absurd h (by simp)
  case h_2 e he =>
    split at h
    case isFalse => exact absurd h (by simp)
    case isTrue halive => exact ⟨e, he, halive, (Option.some.inj h).symm⟩

/-! ## Whose chunks are whose -/

theorem Inv.nodup (h : Inv k s) : (s.published ++ s.inFlight ++ s.chained).Nodup :=
  h.conserved.nodup_iff.mpr List.nodup_range

/-- Two connections share no chunk. -/
theorem Inv.apart (h : Inv k s) (hi : s.ends[i]? = some d) (hj : s.ends[j]? = some e)
    (hij : i ≠ j) {c : ℕ} (hc : c ∈ (s.reader d).chain) : c ∉ (s.reader e).chain := by
  have hchains := (List.nodup_append.mp h.nodup).2.1
  rw [chained, List.nodup_flatten] at hchains
  obtain ⟨hilt, rfl⟩ := List.getElem?_eq_some_iff.mp hi
  obtain ⟨hjlt, rfl⟩ := List.getElem?_eq_some_iff.mp hj
  have hpair := List.pairwise_iff_getElem.mp hchains.2
  intro hc'
  rcases Nat.lt_or_gt_of_ne hij with hlt | hgt
  · exact hpair i j (by simpa using hilt) (by simpa using hjlt) hlt (by simpa using hc)
      (by simpa using hc')
  · exact hpair j i (by simpa using hjlt) (by simpa using hilt) hgt (by simpa using hc')
      (by simpa using hc)

/-- A chunk that is published or in a completion is in no chain. -/
theorem Inv.apart_free (h : Inv k s) (he : e ∈ s.ends) {c : ℕ}
    (hc : c ∈ s.published ++ s.inFlight) : c ∉ (s.reader e).chain := fun hmem =>
  List.disjoint_of_nodup_append h.nodup hc (List.mem_flatten.mpr ⟨_, List.mem_map_of_mem he, hmem⟩)

/-- Nothing a buffer consists of has changed. -/
theorem Inv.apart_of (h : Inv k s) (he : e ∈ s.ends)
    (hsize : s'.manager.chunkSize = s.manager.chunkSize)
    (hdata : ∀ c ∈ (s.reader e).chain, s'.manager.chunksData c = s.manager.chunksData c)
    (hbytes : ∀ c ∈ (s.reader e).chain,
      Reader.unreadOf s'.mem s.manager c = Reader.unreadOf s.mem s.manager c) :
    Apart s s' e where
  chain := ((h.rep e he).congr hsize hdata).toChainShape.chain_eq (r := s'.reader e)
  data := hdata
  bytes c hc := by
    rw [← hbytes c hc, Reader.unreadOf, Reader.unreadOf, hdata c hc]

/-- An operation on another buffer, which changes chunks of that buffer and of completions only. -/
theorem Inv.apart_onEnd (h : Inv k s) (hi : s.ends[i]? = some d) (hj : s.ends[j]? = some e)
    (hij : i ≠ j) (hmem : s'.mem = s.mem)
    (hsize : s'.manager.chunkSize = s.manager.chunkSize)
    (hframe : ∀ c, c ∉ (s.reader d).chain → c ∉ s.inFlight →
      s'.manager.chunksData c = s.manager.chunksData c) : Apart s s' e := by
  have he : e ∈ s.ends := List.mem_of_getElem? hj
  refine h.apart_of he hsize (fun c hc => ?_) (fun c _ => by rw [hmem])
  refine hframe c (h.apart hj hi (Ne.symm hij) hc) fun hflight => ?_
  exact h.apart_free he (List.mem_append_right _ hflight) hc

/-! ## Steps -/

/-- The slot of a buffer after an operation on another one. -/
theorem set_getElem?_ne {d' : Endpoint} (hij : i ≠ j) (hj : s.ends[j]? = some e) :
    (s.ends.set i d')[j]? = some e := by
  rw [List.getElem?_set_ne hij, hj]

/-- The kernel stores into a published chunk. -/
theorem Inv.deliver_apart (h : Inv k s) {conn : ℕ} {payload : List UInt8} {more : Bool}
    (move : s.step (.deliver conn payload more) = some s') (he : e ∈ s.ends) : Apart s s' e := by
  simp only [step, Option.ite_none_right_eq_some, Option.some.injEq] at move
  obtain ⟨⟨hpub, -, hlen, -⟩, rfl⟩ := move
  rw [h.ring.published_eq] at hpub
  rw [h.ring.slots_bid 0 hpub] at hlen ⊢
  refine h.apart_of he rfl (fun _ _ => rfl) ?_
  intro c hc
  have hne : c ≠ s.published[0] := by
    rintro rfl
    exact h.apart_free he (List.mem_append_left _ (List.getElem_mem hpub)) hc
  have hlive := (h.rep e he).live c hc
  have hin : (s.manager.chunksData c).head + (s.manager.chunksData c).readableBytes
      ≤ s.manager.chunkSize := by
    simp only [Chunk.readableBytes]
    omega
  have hptr : (s.manager.chunksData c).dataPtr = s.manager.poolPtr + s.manager.chunkSize * c :=
    h.ring.dataPtr c
  simp only [Reader.unreadOf, hptr]
  exact readMem_writeMem_of_ne hne hlen hin

/-- What `append` may use of the chunk of a completion. -/
theorem Inv.incoming (h : Inv k s) {x : Completion} {cq : List Completion} (hcq : s.cq = x :: cq)
    (he : e ∈ s.ends) :
    x.bufId < s.manager.chunkNum ∧ x.bufId ∉ (s.reader e).chain ∧ s.manager.Clean x.bufId := by
  have hx : x.bufId ∈ s.published ++ s.inFlight := by simp [inFlight, hcq]
  exact ⟨h.lt_of_mem (List.mem_append_left _ hx), h.apart_free he hx, h.clean _ hx⟩

/-- **A step that does not act on a connection leaves its chunks alone.** -/
theorem Inv.step_apart (h : Inv k s) {a : InputLabel} (move : s.step a = some s')
    (hj : s.ends[j]? = some e) (hne : s.actsOn a ≠ some j) :
    s'.ends[j]? = some e ∧ Apart s s' e := by
  have he : e ∈ s.ends := List.mem_of_getElem? hj
  cases a with
  | connect =>
      obtain rfl := Option.some.inj move
      refine ⟨?_, h.apart_of he rfl (fun _ _ => rfl) fun _ _ => rfl⟩
      rw [List.getElem?_append_left (List.getElem?_eq_some_iff.mp hj).1, hj]
  | deliver conn payload more =>
      refine ⟨?_, h.deliver_apart move he⟩
      simp only [step, Option.ite_none_right_eq_some, Option.some.injEq] at move
      obtain ⟨-, rfl⟩ := move
      exact hj
  | complete =>
      rw [step] at move
      split at move
      case h_1 => exact absurd move (by simp)
      case h_2 x cq hcq =>
        obtain ⟨d, hd, -, rfl⟩ := onEnd_some move
        have hij : x.conn ≠ j := fun heq => hne (by simp [actsOn, hcq, heq])
        obtain ⟨hnum, hnew, -⟩ := h.incoming hcq (List.mem_of_getElem? hd)
        have hshape := (h.rep d (List.mem_of_getElem? hd)).toChainShape
        refine ⟨set_getElem?_ne hij hj, h.apart_onEnd hd hj hij rfl
          (hshape.append_eq (r := s.reader d) hnum hnew).1.1 fun c hc hflight => ?_⟩
        refine hshape.append_frame (r := s.reader d) hnum hnew ?_
        have hx : c ≠ x.bufId := fun heq => hflight (by simp [inFlight, hcq, heq])
        simp [hc, hx]
  | read conn call =>
      obtain ⟨d, hd, -, rfl⟩ := onEnd_some move
      have hij : conn ≠ j := fun heq => hne (by simp [actsOn, heq])
      have hd' := List.mem_of_getElem? hd
      obtain ⟨l₁, l₂, hl, hret, -, -⟩ :=
        @ReadCall.run_spec _ _ s.maxString s.mem (s.reader d) _ call h.ring (h.rep d hd')
          (h.room hd')
      exact ⟨set_getElem?_ne hij hj, h.apart_onEnd hd hj hij rfl hret.chunkSize
        fun c hc _ => hret.frame c (hl ▸ hc)⟩
  | destroy conn =>
      rw [step] at move
      split at move
      case isTrue => exact absurd move (by simp)
      case isFalse =>
        obtain ⟨d, hd, -, rfl⟩ := onEnd_some move
        have hij : conn ≠ j := fun heq => hne (by simp [actsOn, heq])
        have hd' := List.mem_of_getElem? hd
        have hret := destroy_spec (r := s.reader d) h.ring (h.rep d hd').toChainShape (h.room hd')
        exact ⟨set_getElem?_ne hij hj, h.apart_onEnd hd hj hij rfl hret.chunkSize
          fun c hc _ => hret.frame c (by simpa using hc)⟩

/-- **A completion of the connection adds a chunk** behind the others, whose metadata but for the
link it leaves alone. -/
theorem Inv.complete_own (h : Inv k s) {x : Completion} {cq : List Completion}
    (hcq : s.cq = x :: cq) (he : e ∈ s.ends) :
    let r := (s.reader e).append x.bufId x.payload.length
    r.chain = (s.reader e).chain ++ [x.bufId] ∧
      ∀ c ∈ (s.reader e).chain, (r.pool.chunksData c).dataPtr = (s.manager.chunksData c).dataPtr ∧
        (r.pool.chunksData c).head = (s.manager.chunksData c).head ∧
        (r.pool.chunksData c).tail = (s.manager.chunksData c).tail := by
  obtain ⟨hnum, hnew, hclean⟩ := h.incoming hcq he
  obtain ⟨hpos, hlen, -⟩ := h.payload x (by simp [hcq])
  have hshape : ChainShape (s.reader e).pool (s.reader e).buf (s.reader e).chain :=
    (h.rep e he).toChainShape
  have hrep := (h.rep e he).append (r := s.reader e) hnum hnew hclean hpos hlen
  intro r
  refine ⟨hrep.toChainShape.chain_eq, ?_⟩
  intro c hc
  obtain ⟨-, -, -, hold⟩ := hshape.append_eq (n := x.payload.length) hnum hnew
  have hcx : c ≠ x.bufId := fun heq => hnew (heq ▸ hc)
  have heq := hold c hcx
  exact ⟨by rw [heq]; rfl, by rw [heq]; rfl, by rw [heq]; rfl⟩

/-! ## Views -/

/-- The steps in which connection `j` consumes nothing and is not destroyed. -/
def Leaves (j : ℕ) (_ : InputSide) : InputLabel → Prop
  | .read conn call => conn = j → call = .peek
  | .destroy conn => conn ≠ j
  | _ => True

/-- **What a view of connection `j` rests on**: its first chunk is `x`, whose unread part is at
`addr` and consists of `bytes`. -/
structure Shows (s : InputSide) (j x addr : ℕ) (bytes : List UInt8) : Prop where
  first : ∃ e, s.ends[j]? = some e ∧ (s.reader e).chain.head? = some x
  addr : (s.manager.chunksData x).dataPtr + (s.manager.chunksData x).head = addr
  bytes : Reader.unreadOf s.mem s.manager x = bytes

variable {x addr : ℕ} {bytes : List UInt8}

/-- `peek` shows the first chunk. -/
theorem Inv.shows_iff (h : Inv k s) (hj : s.ends[j]? = some e) {n : ℕ} :
    (s.reader e).peek = (some addr, n) ↔
      ∃ x, Shows s j x addr (readMem s.mem addr n) := by
  have hshape : ChainShape (s.reader e).pool (s.reader e).buf (s.reader e).chain :=
    (h.rep e (List.mem_of_getElem? hj)).toChainShape
  have hhead : (s.reader e).buf.head = (s.reader e).chain.head? := hshape.linked.head_eq
  rw [Reader.peek, hhead]
  cases hx : (s.reader e).chain.head? with
  | none =>
      refine ⟨by simp, ?_⟩
      rintro ⟨x, ⟨e', hj', hx'⟩, -⟩
      obtain rfl := Option.some.inj (hj.symm.trans hj')
      simp [hx] at hx'
  | some x =>
      simp only [Prod.mk.injEq, Option.some.injEq]
      constructor
      · rintro ⟨rfl, rfl⟩
        exact ⟨x, ⟨e, hj, hx⟩, rfl, rfl⟩
      · rintro ⟨y, ⟨e', hj', hy⟩, haddr, hbytes⟩
        obtain rfl := Option.some.inj (hj.symm.trans hj')
        obtain rfl := Option.some.inj (hx.symm.trans hy)
        have hlen := congrArg List.length hbytes
        rw [unreadOf_length, readMem_length] at hlen
        exact ⟨haddr, hlen⟩

/-- The step lemma. -/
theorem Shows.step (h : Inv k s) (hs : Shows s j x addr bytes) {a : InputLabel}
    (leaves : Leaves j s a) (move : s.step a = some s') : Shows s' j x addr bytes := by
  obtain ⟨⟨e, hj, hx⟩, haddr, hbytes⟩ := hs
  have he : e ∈ s.ends := List.mem_of_getElem? hj
  have hmem : x ∈ (s.reader e).chain := List.mem_of_head? hx
  by_cases hacts : s.actsOn a = some j
  · cases a with
    | connect => simp [actsOn] at hacts
    | deliver => simp [actsOn] at hacts
    | complete =>
        rw [InputSide.step] at move
        split at move
        case h_1 => exact absurd move (by simp)
        case h_2 c cq hcq =>
          have hconn : c.conn = j := by simpa [actsOn, hcq] using hacts
          obtain ⟨e', he', -, rfl⟩ := onEnd_some move
          obtain rfl := Option.some.inj (hj.symm.trans (hconn ▸ he'))
          obtain ⟨hchain, hkept⟩ := h.complete_own hcq he
          obtain ⟨hptr, hhead, htail⟩ := hkept x hmem
          have hlt : j < s.ends.length := (List.getElem?_eq_some_iff.mp hj).1
          refine ⟨⟨_, by rw [hconn]; exact List.getElem?_set_self hlt, ?_⟩, ?_, ?_⟩
          · refine (congrArg List.head? hchain).trans ?_
            rw [List.head?_append, hx]
            rfl
          · exact (congrArg₂ _ hptr hhead).trans haddr
          · rw [← hbytes]
            simp only [Reader.unreadOf, Chunk.readableBytes]
            exact congrArg₂ _ (congrArg₂ _ hptr hhead) (congrArg₂ _ htail hhead)
    | read conn call =>
        have hconn : conn = j := by simpa [actsOn] using hacts
        obtain rfl := leaves hconn
        obtain ⟨e', he', -, rfl⟩ := onEnd_some move
        obtain rfl := Option.some.inj (hj.symm.trans (hconn ▸ he'))
        have hlt : j < s.ends.length := (List.getElem?_eq_some_iff.mp hj).1
        exact ⟨⟨{ e with consumed := e.consumed ++ [] },
          by rw [hconn]; exact List.getElem?_set_self hlt, hx⟩, haddr, hbytes⟩
    | destroy conn => exact absurd (by simpa [actsOn] using hacts) leaves
  · obtain ⟨hj', hapart⟩ := h.step_apart move hj hacts
    exact ⟨⟨e, hj', by rw [hapart.chain, hx]⟩, by rw [hapart.data x hmem, haddr],
      by rw [hapart.bytes x hmem, hbytes]⟩

end

/-- **A view stays valid.**  What `peek` has shown a connection is at the same address, with the
same length and the same bytes, for as long as the connection itself does not consume: whatever is
delivered to it and to others, and whatever others read or give back. -/
theorem view_stable {s s' : InputSide} {k poolPtr chunkSize maxString j addr n : ℕ} {e : Endpoint}
    (hk : k ≤ 15) (run : Reach step anyStep (create poolPtr chunkSize (2 ^ k) maxString) s)
    (hj : s.ends[j]? = some e) (hpeek : (s.reader e).peek = (some addr, n))
    (later : Reach step (Leaves j) s s') :
    ∃ e', s'.ends[j]? = some e' ∧ (s'.reader e').peek = (some addr, n) ∧
      readMem s'.mem addr n = readMem s.mem addr n := by
  have hinv := reach_inv hk run
  obtain ⟨x, hshows⟩ := (hinv.shows_iff hj).mp hpeek
  have hlater := later.invariant (P := fun t => Inv k t ∧ Shows t j x addr (readMem s.mem addr n))
    ⟨hinv, hshows⟩ fun _ _ _ h leaves move => ⟨step_inv h.1 move, h.2.step h.1 leaves move⟩
  obtain ⟨hinv', hshows'⟩ := hlater
  obtain ⟨e', hj', hx⟩ := hshows'.first
  have hlen : (s'.manager.chunksData x).readableBytes = n := by
    have := congrArg List.length hshows'.bytes
    rwa [unreadOf_length, readMem_length] at this
  have hbytes : readMem s'.mem addr n = readMem s.mem addr n := by
    rw [← hshows'.bytes, Reader.unreadOf, hshows'.addr, hlen]
  exact ⟨e', hj', (hinv'.shows_iff hj').mpr ⟨x, hbytes ▸ hshows'⟩, hbytes⟩

instance (j : ℕ) (s : InputSide) : ∀ a, Decidable (Leaves j s a)
  | .connect => .isTrue trivial
  | .deliver _ _ _ => .isTrue trivial
  | .complete => .isTrue trivial
  | .read _ .peek => .isTrue fun _ => rfl
  | .read conn (.remove _) => decidable_of_iff (conn ≠ j) (by simp [Leaves])
  | .read conn (.removeAsString _) => decidable_of_iff (conn ≠ j) (by simp [Leaves])
  | .read conn .removeAllAsString => decidable_of_iff (conn ≠ j) (by simp [Leaves])
  | .read conn (.retrieve _) => decidable_of_iff (conn ≠ j) (by simp [Leaves])
  | .destroy conn => inferInstanceAs (Decidable (conn ≠ j))

/-- The other chunk of the pool goes to a second connection, back to the ring, and behind the chunk
that the first one looks at. -/
theorem view_stable_shared :
    let run := exec step (create 4096 4 (2 ^ 1) (2 ^ 62 - 1))
      [.connect, .connect, .deliver 0 [1, 2, 3] true, .complete]
    let later := fun s => exec (guarded step (Leaves 0)) s
      [.deliver 1 [9] true, .complete, .read 1 (.retrieve 1), .deliver 0 [7] true, .complete]
    (run.bind later).map (fun s => s.chained) = some [0, 1] ∧
      ∀ s ∈ run, ∀ s' ∈ later s, ∃ e', s'.ends[0]? = some e' ∧
        (s'.reader e').peek = (some 4096, 3) ∧ readMem s'.mem 4096 3 = readMem s.mem 4096 3 := by
  intro run later
  refine ⟨by decide +kernel, ?_⟩
  intro s hs s' hs'
  have hview : run.all (fun s => s.ends[0]?.any fun e =>
      decide ((s.reader e).peek = (some 4096, 3))) = true := by decide +kernel
  have hshown : (s.ends[0]?.any fun e => decide ((s.reader e).peek = (some 4096, 3))) = true := by
    rw [Option.mem_def.mp hs] at hview
    exact hview
  obtain ⟨e, hj, hpeek⟩ := (Option.any_eq_true _ _).mp hshown
  exact view_stable (by decide) (reach_of_exec_any hs) hj (of_decide_eq_true hpeek)
    (reach_of_exec hs')

end InputSide

end Proactor
