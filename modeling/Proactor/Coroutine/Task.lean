import Mathlib.Data.List.Perm.Basic
import Mathlib.Data.List.Nodup
import Mathlib.Data.List.Count
import Proactor.Core.Slots
import Proactor.Core.Transition

/-!
# `Task`

A `Task` (`include/Task.hpp`) owns the frame of a coroutine: it cannot be copied, its move
constructor leaves the other `Task` empty, and its destructor destroys the frame.  Both
`final_suspend`s suspend, so a frame is destroyed by its owner or not at all.

The move assignment overwrites `handle_` without destroying what it held.  Assigning to a `Task`
that owns a frame loses that frame: no `Task` owns it any more and nobody will destroy it.  A self
move does the same, because the second write clears the handle that the first has just stored.

* `Tasks.Linear` — what ownership promises at one point of a program.
* `Tasks.Effect` — what an operation can do to the frames.
* `Tasks.linear_ownership` — the programs that keep the promise at every point are exactly those
  that only assign to empty `Task`s.
-/

namespace Proactor

open Transition

/-- `Task<T>` and `Task<void>`: the frame behind `handle_`. -/
structure Task where
  handle : Option ℕ
  deriving DecidableEq

/-- A program with its `Task` objects by the order in which they were made, `none` being one that
has been destructed, and with the frames in the order of their creation. -/
structure Tasks where
  tasks : List (Option Task)
  frames : ℕ
  /-- The calls of `handle_.destroy()`. -/
  destroyed : List ℕ
  deriving DecidableEq

inductive TaskOp
  /-- A coroutine is called: `get_return_object`. -/
  | create
  /-- A `Task` made of a null handle. -/
  | empty
  | moveConstruct (other : ℕ)
  | moveAssign (this other : ℕ)
  | destroy (this : ℕ)
  | destruct (this : ℕ)
  deriving DecidableEq, Repr

namespace Tasks

def init : Tasks := ⟨[], 0, []⟩

/-- The `Task` at an index, if it is alive. -/
def task (s : Tasks) (i : ℕ) : Option Task := (s.tasks[i]?).join

/-- Write `handle_`. -/
def setHandle (s : Tasks) (i : ℕ) (handle : Option ℕ) : Tasks :=
  { s with tasks := s.tasks.set i (some ⟨handle⟩) }

/-- `Task::destroy`. -/
def destroy (s : Tasks) (i : ℕ) (this : Task) : Tasks :=
  match this.handle with
  | none => s
  | some f => { s.setHandle i none with destroyed := s.destroyed ++ [f] }

/-- An operation on `Task`s that are alive. -/
def step (s : Tasks) : TaskOp → Option Tasks
  | .create =>
      some { s with tasks := s.tasks ++ [some ⟨some s.frames⟩], frames := s.frames + 1 }
  | .empty => some { s with tasks := s.tasks ++ [some ⟨none⟩] }
  | .moveConstruct j => (s.task j).map fun other =>
      ({ s with tasks := s.tasks ++ [some ⟨other.handle⟩] } : Tasks).setHandle j none
  | .moveAssign i j => (s.task i).bind fun _ => (s.task j).map fun other =>
      (s.setHandle i other.handle).setHandle j none
  | .destroy i => (s.task i).map fun this => s.destroy i this
  | .destruct i => (s.task i).map fun this =>
      { s.destroy i this with tasks := (s.destroy i this).tasks.set i none }

/-- The frame a slot owns. -/
def owned : Option Task → Option ℕ
  | none => none
  | some t => t.handle

/-- The frames owned by a live `Task`, once for each owner. -/
def held (s : Tasks) : List ℕ := s.tasks.filterMap owned

/-- **Linear ownership**, at one point of a program. -/
structure Linear (s : Tasks) : Prop where
  owner : ∀ f < s.frames, f ∉ s.destroyed → s.held.count f = 1
  once : s.destroyed.Nodup
  /-- When all have been destructed every frame has been destroyed. -/
  atEnd : (∀ t ∈ s.tasks, t = none) → ∀ f < s.frames, s.destroyed.count f = 1

/-- The condition: an assignment is to a `Task` that owns no frame. -/
def OntoEmpty (s : Tasks) : TaskOp → Prop
  | .moveAssign i _ => (s.task i).bind Task.handle = none
  | _ => True

instance (s : Tasks) : ∀ op, Decidable (OntoEmpty s op)
  | .moveAssign i _ => inferInstanceAs (Decidable ((s.task i).bind Task.handle = none))
  | .create => .isTrue trivial
  | .empty => .isTrue trivial
  | .moveConstruct _ => .isTrue trivial
  | .destroy _ => .isTrue trivial
  | .destruct _ => .isTrue trivial

/-! ## What an operation does to the frames -/

/-- The ways in which an operation can end well. -/
inductive Effect (s s' : Tasks) : Prop
  | created (held : s'.held.Perm (s.frames :: s.held)) (frames : s'.frames = s.frames + 1)
      (destroyed : s'.destroyed = s.destroyed)
  | kept (held : s'.held.Perm s.held) (frames : s'.frames = s.frames)
      (destroyed : s'.destroyed = s.destroyed)
  | destroyed (f : ℕ) (held : s.held.Perm (f :: s'.held)) (frames : s'.frames = s.frames)
      (destroyed : s'.destroyed = s.destroyed ++ [f])

/-- The owner of a frame lets go of it and does not destroy it. -/
structure Loses (s s' : Tasks) (f : ℕ) : Prop where
  held : s.held.Perm (f :: s'.held)
  frames : s'.frames = s.frames
  destroyed : s'.destroyed = s.destroyed

section

variable {s s' : Tasks} {op : TaskOp} {i j f : ℕ} {this other : Task} {handle : Option ℕ}

theorem getElem?_of_task (h : s.task i = some this) : s.tasks[i]? = some (some this) := by
  simpa [task, Option.join_eq_some_iff] using h

theorem task_setHandle (h : s.task i = some this) :
    (s.setHandle i handle).task i = some ⟨handle⟩ := by
  obtain ⟨hlt, -⟩ := List.getElem?_eq_some_iff.mp (getElem?_of_task h)
  simp [task, setHandle, hlt]

/-- A handle replaced by an equal one. -/
theorem held_same (h : s.task i = some this) (heq : this.handle = handle) :
    (s.setHandle i handle).held = s.held :=
  Slots.filterMap_set_of_eq (getElem?_of_task h) heq.symm

theorem held_gain (h : s.task i = some this) (hnone : this.handle = none) :
    (s.setHandle i (some f)).held.Perm (f :: s.held) :=
  Slots.filterMap_set_of_none (getElem?_of_task h) hnone rfl

theorem held_drop (h : s.task i = some this) (hsome : this.handle = some f) :
    s.held.Perm (f :: (s.setHandle i none).held) :=
  Slots.filterMap_set_to_none (getElem?_of_task h) hsome rfl

/-- The frames held when a handle has been copied to an empty `Task` and its origin cleared: the
same as before, wherever the origin was. -/
theorem held_moved (hi : s.task i = some ⟨none⟩) (hj : (s.setHandle i handle).task j
    = some ⟨handle⟩) : ((s.setHandle i handle).setHandle j none).held.Perm s.held := by
  cases handle with
  | none => rw [held_same hj rfl, held_same hi rfl]
  | some f => exact (((held_drop hj rfl).symm).trans (held_gain hi rfl)).cons_inv

theorem held_snoc (handle : Option ℕ) :
    ({ s with tasks := s.tasks ++ [some ⟨handle⟩] } : Tasks).held = s.held ++ handle.toList := by
  cases handle <;> simp [held, owned]

/-- The move assignment leaves the frames of the other `Task`s where they are, and takes the one of
its target away. -/
theorem held_moveAssign (hi : s.task i = some this) (hj : s.task j = some other) :
    ((s.setHandle i other.handle).setHandle j none).held.Perm (s.setHandle i none).held := by
  have hset : (s.setHandle i none).setHandle i other.handle = s.setHandle i other.handle := by
    simp [setHandle]
  have hsource : (s.setHandle i other.handle).task j = some ⟨other.handle⟩ := by
    by_cases hij : i = j
    · subst hij
      exact task_setHandle hi
    · simpa [task, setHandle, List.getElem?_set_ne hij] using hj
  rw [← hset] at hsource ⊢
  exact held_moved (task_setHandle hi) hsource

theorem task_destroy (h : s.task i = some this) : (s.destroy i this).task i = some ⟨none⟩ := by
  unfold destroy
  cases hhandle : this.handle with
  | none =>
      rw [h, ← hhandle]
  | some f => exact task_setHandle h

theorem destroy_effect (h : s.task i = some this) : Effect s (s.destroy i this) := by
  unfold destroy
  cases hhandle : this.handle with
  | none => exact .kept (.refl _) rfl rfl
  | some f => exact .destroyed f (held_drop h hhandle) rfl rfl

/-- A `Task` that owns nothing any more can go. -/
theorem held_destruct (h : s.task i = some ⟨none⟩) :
    ({ s with tasks := s.tasks.set i none } : Tasks).held = s.held :=
  Slots.filterMap_set_of_eq (getElem?_of_task h) rfl

/-- **What one operation can do**: only an assignment to a `Task` that owns a frame loses one. -/
theorem step_effect (h : s.step op = some s') :
    (OntoEmpty s op ∧ Effect s s') ∨ (¬ OntoEmpty s op ∧ ∃ f, Loses s s' f) := by
  cases op with
  | create =>
      obtain rfl := Option.some.inj h
      refine .inl ⟨trivial, .created ?_ rfl rfl⟩
      exact (List.Perm.of_eq (held_snoc (some s.frames))).trans (List.perm_append_singleton _ _)
  | empty =>
      obtain rfl := Option.some.inj h
      refine .inl ⟨trivial, .kept (.of_eq ?_) rfl rfl⟩
      exact (held_snoc none).trans (List.append_nil _)
  | moveConstruct j =>
      obtain ⟨other, hj, rfl⟩ := Option.map_eq_some_iff.mp h
      refine .inl ⟨trivial, .kept ?_ rfl rfl⟩
      have hj' : ({ s with tasks := s.tasks ++ [some ⟨other.handle⟩] } : Tasks).task j
          = some other := by
        have hget := getElem?_of_task hj
        obtain ⟨hlt, -⟩ := List.getElem?_eq_some_iff.mp hget
        simp [task, List.getElem?_append_left hlt, hget]
      cases hhandle : other.handle with
      | none =>
          rw [hhandle] at hj'
          rw [held_same hj' hhandle, held_snoc]
          simp
      | some f =>
          rw [hhandle] at hj'
          have hsnoc := held_snoc (s := s) (some f)
          have hdrop := held_drop hj' hhandle
          rw [hsnoc] at hdrop
          exact ((List.perm_append_singleton f s.held).symm.trans hdrop).cons_inv.symm
  | moveAssign i j =>
      simp only [step, Option.bind_eq_some_iff, Option.map_eq_some_iff] at h
      obtain ⟨this, hi, other, hj, rfl⟩ := h
      have hmoved := held_moveAssign hi hj
      have hguard : OntoEmpty s (.moveAssign i j) ↔ this.handle = none := by
        simp [OntoEmpty, hi]
      rw [hguard]
      cases hhandle : this.handle with
      | none => exact .inl ⟨rfl, .kept (hmoved.trans (.of_eq (held_same hi hhandle))) rfl rfl⟩
      | some f =>
          refine .inr ⟨nofun, f, ?_, rfl, rfl⟩
          exact (held_drop hi hhandle).trans (hmoved.symm.cons f)
  | destroy i =>
      obtain ⟨this, hi, rfl⟩ := Option.map_eq_some_iff.mp h
      exact .inl ⟨trivial, destroy_effect hi⟩
  | destruct i =>
      obtain ⟨this, hi, rfl⟩ := Option.map_eq_some_iff.mp h
      have hheld := held_destruct (task_destroy hi)
      refine .inl ⟨trivial, ?_⟩
      cases destroy_effect hi with
      | created held frames destroyed => exact .created (hheld ▸ held) frames destroyed
      | kept held frames destroyed => exact .kept (hheld ▸ held) frames destroyed
      | destroyed f held frames destroyed => exact .destroyed f (hheld ▸ held) frames destroyed

/-! ## Programs -/

/-- **The frames held and the frames destroyed are the frames created**, each of them once. -/
def Balanced (s : Tasks) : Prop := (s.held ++ s.destroyed).Perm (List.range s.frames)

/-- A frame that is owned by nobody and has not been destroyed. -/
structure Lost (s : Tasks) (f : ℕ) : Prop where
  created : f < s.frames
  unowned : f ∉ s.held
  alive : f ∉ s.destroyed

theorem Effect.balanced (h : Effect s s') (hs : s.Balanced) : s'.Balanced := by
  unfold Balanced at *
  cases h with
  | created held frames destroyed =>
      rw [frames, destroyed, List.range_succ]
      refine (held.append_right _).trans ?_
      exact (hs.cons s.frames).trans (List.perm_append_singleton _ _).symm
  | kept held frames destroyed =>
      rw [frames, destroyed]
      exact (held.append_right _).trans hs
  | destroyed f held frames destroyed =>
      rw [frames, destroyed]
      have hmoved : (s'.held ++ (s.destroyed ++ [f])).Perm (f :: s'.held ++ s.destroyed) := by
        rw [← List.append_assoc]
        exact List.perm_append_singleton f _
      exact hmoved.trans ((held.symm.append_right _).trans hs)

theorem Balanced.nodup (hs : s.Balanced) : (s.held ++ s.destroyed).Nodup :=
  hs.nodup_iff.mpr List.nodup_range

theorem Balanced.mem (hs : s.Balanced) : f ∈ s.held ∨ f ∈ s.destroyed ↔ f < s.frames := by
  rw [← List.mem_append, hs.mem_iff, List.mem_range]

theorem Balanced.linear (hs : s.Balanced) : s.Linear := by
  obtain ⟨hheld, hdestroyed, -⟩ := List.nodup_append.mp hs.nodup
  refine ⟨fun f hf halive => ?_, hdestroyed, fun hend f hf => ?_⟩
  · have hmem := (hs.mem.mpr hf).resolve_right halive
    exact List.count_eq_one_of_mem hheld hmem
  · have hnone : s.held = [] := by
      refine List.filterMap_eq_nil_iff.mpr fun t ht => ?_
      rw [hend t ht]
      rfl
    have hmem := (hs.mem.mpr hf).resolve_left (by simp [hnone])
    exact List.count_eq_one_of_mem hdestroyed hmem

theorem Lost.not_linear (h : s.Lost f) : ¬ s.Linear := by
  intro hs
  have hone := hs.owner f h.created h.alive
  rw [List.count_eq_zero_of_not_mem h.unowned] at hone
  exact absurd hone (by decide)

theorem Loses.lost (h : Loses s s' f) (hs : s.Balanced) : s'.Lost f := by
  have hheld : f ∈ s.held := h.held.mem_iff.mpr List.mem_cons_self
  obtain ⟨hnodup, -, hdisjoint⟩ := List.nodup_append.mp hs.nodup
  refine ⟨?_, (List.nodup_cons.mp (h.held.nodup_iff.mp hnodup)).1, fun hd => ?_⟩
  · rw [h.frames]
    exact hs.mem.mp (.inl hheld)
  · rw [h.destroyed] at hd
    exact hdisjoint f hheld f hd rfl

/-- **A lost frame stays lost.** -/
theorem Lost.stays (hf : s.Lost f) (h : s.step op = some s') : s'.Lost f := by
  obtain ⟨hcreated, hunowned, halive⟩ := hf
  rcases step_effect h with ⟨-, heffect⟩ | ⟨-, g, hheld, hframes, hdestroyed⟩
  · cases heffect with
    | created held frames destroyed =>
        refine ⟨by omega, fun hmem => ?_, destroyed ▸ halive⟩
        rcases List.mem_cons.mp (held.mem_iff.mp hmem) with rfl | hmem
        · exact absurd hcreated (Nat.lt_irrefl _)
        · exact hunowned hmem
    | kept held frames destroyed =>
        exact ⟨by omega, fun hmem => hunowned (held.mem_iff.mp hmem), destroyed ▸ halive⟩
    | destroyed g held frames destroyed =>
        refine ⟨by omega, fun hmem => ?_, fun hmem => ?_⟩
        · exact hunowned (held.mem_iff.mpr (List.mem_cons_of_mem g hmem))
        · rw [destroyed, List.mem_append, List.mem_singleton] at hmem
          rcases hmem with hmem | rfl
          · exact halive hmem
          · exact hunowned (held.mem_iff.mpr List.mem_cons_self)
  · refine ⟨by omega, fun hmem => ?_, hdestroyed ▸ halive⟩
    exact hunowned (hheld.mem_iff.mpr (List.mem_cons_of_mem g hmem))

theorem Lost.exec {ops : List TaskOp} (hf : s.Lost f) (h : exec step s ops = some s') :
    s'.Lost f := by
  induction ops generalizing s with
  | nil => exact Option.some.inj h ▸ hf
  | cons op ops ih =>
      obtain ⟨t, hstep, hrest⟩ := Option.bind_eq_some_iff.mp h
      exact ih (hf.stays hstep) hrest

/-- A program only assigns to empty `Task`s, or it loses a frame. -/
theorem Balanced.exec {ops : List TaskOp} (hs : s.Balanced) (h : exec step s ops = some s') :
    (exec (guarded step OntoEmpty) s ops = some s' ∧ s'.Balanced) ∨
      (exec (guarded step OntoEmpty) s ops = none ∧ ∃ f, s'.Lost f) := by
  induction ops generalizing s with
  | nil => exact .inl ⟨h, Option.some.inj h ▸ hs⟩
  | cons op ops ih =>
      obtain ⟨t, hstep, hrest⟩ := Option.bind_eq_some_iff.mp h
      rcases step_effect hstep with ⟨hguard, heffect⟩ | ⟨hguard, f, hloses⟩
      · have hgo : exec (guarded step OntoEmpty) s (op :: ops)
            = exec (guarded step OntoEmpty) t ops := by
          simp [Transition.exec, guarded, hguard, hstep]
        rw [hgo]
        exact ih (heffect.balanced hs) hrest
      · refine .inr ⟨?_, f, (hloses.lost hs).exec hrest⟩
        simp [Transition.exec, guarded, hguard]

theorem init_balanced : init.Balanced := List.Perm.refl _

/-- **Ownership is linear at every point of a program if and only if every move assignment in it is
to a `Task` that owns no frame.** -/
theorem linear_ownership {ops : List TaskOp} (h : exec step init ops = some s) :
    (∀ pre s', pre <+: ops → exec step init pre = some s' → s'.Linear) ↔
      exec (guarded step OntoEmpty) init ops = some s := by
  constructor
  · intro hlinear
    rcases init_balanced.exec h with ⟨hgood, -⟩ | ⟨-, f, hf⟩
    · exact hgood
    · exact absurd (hlinear ops s (List.prefix_refl _) h) hf.not_linear
  · rintro hgood pre s' ⟨rest, rfl⟩ hpre
    rcases init_balanced.exec hpre with ⟨-, hs⟩ | ⟨hnone, -⟩
    · exact hs.linear
    · rw [exec_append, hnone] at hgood
      cases hgood

/-- `TcpConnection::Established`: the empty `task_handle_` of a connection, the `Task` of its
handler, the parameter made of it, the assignment, and the destructors. -/
def established : List TaskOp :=
  [.empty, .create, .moveConstruct 1, .moveAssign 0 2, .destruct 2, .destruct 1, .destruct 0]

theorem linear_ownership_established :
    exec step init established = some ⟨[none, none, none], 1, [0]⟩ ∧
    ∀ pre s', pre <+: established → exec step init pre = some s' → s'.Linear := by
  have hrun : exec step init established = some ⟨[none, none, none], 1, [0]⟩ := by decide
  exact ⟨hrun, (linear_ownership hrun).mpr (by decide)⟩

/-- **A `Task` that owns a frame loses it when another is assigned to it.** -/
theorem assignment_loses_frame : ¬ ∀ (ops : List TaskOp) (s : Tasks),
    exec step init ops = some s → s.Linear := by
  intro hall
  have hlinear := hall [.create, .create, .moveAssign 0 1] ⟨[some ⟨some 1⟩, some ⟨none⟩], 2, []⟩
    (by decide)
  exact absurd (hlinear.owner 0 (by decide) (by decide)) (by decide)

-- a self move, after which the destructor finds nothing to destroy
example : exec step init [.create, .moveAssign 0 0, .destruct 0] = some ⟨[none], 1, []⟩ := by
  decide

end

end Tasks

end Proactor
