import ManagedModel.Model.Locks
import ManagedModel.Proofs.Hierarchy

/-! # Serializability

    Sessions share one committed model. Each takes a lock, makes a working copy
    of the tree that is committed by then, calls for changes of the copy,
    publishes or drops it, and gives the lock back. The steps of different
    sessions come in any order.

    * A session's copy grows stale as others publish, but not near its scope:
      what others publish lies in scopes that do not overlap its own.
    * So at any time the calls of a session, made once more on a copy of the
      tree committed by then, have the same answers and come to the same near
      the scope (`Work.Repeats`). This is the invariant of a session.
    * At the moment of publication the work is thus as if done all at once, and
      the committed model is that of the published work done one after the
      other (`Sharing.serializable`). -/

namespace ManagedModel

/-! ### Sessions -/

/-- Calls made on a copy of the model, with their answers. -/
structure Work where
  /-- The tops of the subtrees that may be changed. -/
  scope : List Address
  calls : List ModelCall := []
  answers : List (Except Fault Attributes) := []

/-- A holder of a lock. -/
structure Session where
  lock : Lock
  /-- The work under way, with the copy it is done on. -/
  work? : Option (Work × WorkingCopy) := none

/-- A model shared by sessions. -/
structure Sharing where
  store : CommittedModel
  locks : HeldLocks := {}
  /-- The sessions, by the owners of their locks. -/
  session? : Nat → Option Session := fun _ => none
  /-- The work that was published, in order. -/
  published : List Work := []

namespace Work

/-- The work with one more call. -/
def add (x : Work) (call : ModelCall) (answer : Except Fault Attributes) : Work :=
  { x with calls := x.calls ++ [call], answers := x.answers ++ [answer] }

/-- Does the work once more: makes the same calls in the same scope on a copy of the committed
    tree, and publishes the copy. -/
def redo (x : Work) (s : CommittedModel) : Work × CommittedModel :=
  let (answers, copy) := ModelCall.runAll x.calls (.ofTree s.tree x.scope)
  ({ x with answers }, s.publish copy)

/-- Does one piece of work after the other once more. -/
def redoAll : List Work → CommittedModel → List Work × CommittedModel
  | [], s => ([], s)
  | x :: xs, s =>
    let (x, s) := x.redo s
    let (xs, s) := redoAll xs s
    (x :: xs, s)

end Work

namespace Sharing

variable {seed : Tree} {t t' : Sharing}

/-- A model that no session uses yet. -/
def start (seed : Tree) : Sharing := { store := { tree := seed } }

/-- The state with another session of an owner. -/
def set (t : Sharing) (owner : Nat) (session? : Option Session) : Sharing :=
  { t with session? := fun o => if o = owner then session? else t.session? o }

@[simp] theorem session?_set_self (t : Sharing) (owner : Nat) (session? : Option Session) :
    (t.set owner session?).session? owner = session? :=
  if_pos rfl

theorem session?_set_of_ne (t : Sharing) {o owner : Nat} (h : o ≠ owner)
    (session? : Option Session) : (t.set owner session?).session? o = t.session? o :=
  if_neg h

/-- One step of one session. -/
inductive Step (t : Sharing) : Sharing → Prop where
  /-- A lock is granted. -/
  | acquire {wanted : List Address} {lock : Lock} {locks : HeldLocks}
      (h : t.locks.acquire? wanted = some (lock, locks)) :
      Step t { t.set lock.owner (some ⟨lock, none⟩) with locks }
  /-- The holder of a lock makes a copy of what is committed. -/
  | begin {owner : Nat} {lock : Lock} (h : t.session? owner = some ⟨lock, none⟩) :
      Step t (t.set owner (some ⟨lock, some
        ({ scope := lock.addresses }, .ofTree t.store.tree lock.addresses)⟩))
  /-- A call is made on the copy. -/
  | call {owner : Nat} {lock : Lock} {x : Work} {copy : WorkingCopy}
      (h : t.session? owner = some ⟨lock, some (x, copy)⟩) (call : ModelCall) :
      Step t (t.set owner (some ⟨lock, some
        (x.add call (call.run copy).1, (call.run copy).2)⟩))
  /-- The copy is published. -/
  | publish {owner : Nat} {lock : Lock} {x : Work} {copy : WorkingCopy}
      (h : t.session? owner = some ⟨lock, some (x, copy)⟩) :
      Step t { t.set owner (some ⟨lock, none⟩) with
        store := t.store.publish copy, published := t.published ++ [x] }
  /-- The copy is dropped. -/
  | discard {owner : Nat} {lock : Lock} {x : Work} {copy : WorkingCopy}
      (h : t.session? owner = some ⟨lock, some (x, copy)⟩) :
      Step t (t.set owner (some ⟨lock, none⟩))
  /-- The lock is given back. -/
  | release {owner : Nat} {lock : Lock} (h : t.session? owner = some ⟨lock, none⟩) :
      Step t { t.set owner none with locks := t.locks.release lock.owner }

/-- The states that steps of sessions lead to. -/
inductive Reachable (seed : Tree) : Sharing → Prop where
  | start : Reachable seed (start seed)
  | step {t t' : Sharing} : Reachable seed t → Step t t' → Reachable seed t'

end Sharing

/-! ### Calls on copies that are alike -/

namespace ModelCall

/-- Within the scope the resources near it decide. -/
theorem verdict_eq {scope : List Address} {t u : Tree} (h : t.AlikeNear scope u) (call : ModelCall)
    (ha : call.address.LiesIn scope) : call.verdict u = call.verdict t := by
  cases call with
  | create a => exact h.create_map ha _
  | edit a change =>
    have hrequire : u.require a = t.require a := h.require_eq ha.isNear
    rw [verdict, hrequire]
    rfl
  | remove a => exact h.remove_map ha fun attributes => (attributes, none)

/-- Calls keep the tree a hierarchy. -/
theorem hierarchical_run (call : ModelCall) (w : WorkingCopy) (hw : w.tree.Hierarchical) :
    (call.run w).2.tree.Hierarchical := by
  rcases call.run_cases w with hsame | ⟨r, -, hverdict, hrun⟩
  · rw [hsame]
    exact hw
  · rw [hrun]
    show (w.tree.store call.address r.2).Hierarchical
    cases call with
    | create a =>
      obtain ⟨t, hcreate, rfl⟩ := map_eq_ok.1 hverdict
      have ht := hw.create hcreate
      obtain ⟨-, rfl⟩ := Tree.create_eq_ok hcreate
      exact ht
    | edit a change =>
      obtain ⟨old, hold, rfl⟩ := map_eq_ok.1 hverdict
      exact hw.put_self (Tree.require_eq_ok.1 hold) _
    | remove a =>
      obtain ⟨⟨attributes, t⟩, hremove, rfl⟩ := map_eq_ok.1 hverdict
      have ht := hw.remove hremove
      obtain ⟨-, rfl⟩ := Tree.remove_eq_ok hremove
      exact ht

end ModelCall

/-- The copies have one scope and one record, and the same near the scope. -/
structure WorkingCopy.AlikeNear (w v : WorkingCopy) : Prop where
  scope_eq : v.scope = w.scope
  touched_eq : v.touched = w.touched
  tree : w.tree.AlikeNear w.scope v.tree

namespace WorkingCopy.AlikeNear

variable {u v w : WorkingCopy}

theorem symm (h : w.AlikeNear v) : v.AlikeNear w where
  scope_eq := h.scope_eq.symm
  touched_eq := h.touched_eq.symm
  tree a ha := (h.tree a (h.scope_eq ▸ ha)).symm

theorem trans (h₁ : w.AlikeNear v) (h₂ : v.AlikeNear u) : w.AlikeNear u where
  scope_eq := h₂.scope_eq.trans h₁.scope_eq
  touched_eq := h₂.touched_eq.trans h₁.touched_eq
  tree a ha := (h₂.tree a (h₁.scope_eq ▸ ha)).trans (h₁.tree a ha)

theorem changed (h : w.AlikeNear v) (a : Address) (attributes? : Option Attributes) :
    (w.changed a (w.tree.store a attributes?)).AlikeNear
      (v.changed a (v.tree.store a attributes?)) where
  scope_eq := h.scope_eq
  touched_eq := congrArg (SortedSet.add · a) h.touched_eq
  tree b hb := by
    show (v.tree.store a attributes?).get? b = (w.tree.store a attributes?).get? b
    by_cases hne : b = a
    · rw [hne, Tree.get?_store_self, Tree.get?_store_self]
    · rw [Tree.get?_store_of_ne _ hne, Tree.get?_store_of_ne _ hne, h.tree b hb]

/-- A call has the same answer on both copies, and leaves them alike. -/
theorem run (h : w.AlikeNear v) (call : ModelCall) :
    (call.run v).1 = (call.run w).1 ∧ (call.run w).2.AlikeNear (call.run v).2 := by
  have hin : v.inScope call.address = w.inScope call.address := by
    unfold inScope
    rw [h.scope_eq]
  unfold ModelCall.run
  by_cases hscope : w.inScope call.address = true
  · rw [call.attempt_of_inScope hscope, call.attempt_of_inScope (hin.trans hscope),
      call.verdict_eq h.tree hscope]
    cases call.verdict w.tree with
    | error fault => exact ⟨rfl, h⟩
    | ok r => exact ⟨rfl, h.changed call.address r.2⟩
  · have hscope := Bool.eq_false_iff.2 hscope
    rw [call.attempt_of_not_inScope hscope, call.attempt_of_not_inScope (hin.trans hscope)]
    exact ⟨rfl, h⟩

theorem runAll (h : w.AlikeNear v) (calls : List ModelCall) :
    (ModelCall.runAll calls v).1 = (ModelCall.runAll calls w).1 ∧
      (ModelCall.runAll calls w).2.AlikeNear (ModelCall.runAll calls v).2 := by
  induction calls generalizing w v with
  | nil => exact ⟨rfl, h⟩
  | cons call calls ih =>
    obtain ⟨hanswer, hcopy⟩ := h.run call
    obtain ⟨hanswers, hcopies⟩ := ih hcopy
    refine ⟨?_, hcopies⟩
    show (call.run v).1 :: (ModelCall.runAll calls (call.run v).2).1 = _
    rw [hanswer, hanswers]
    rfl

end WorkingCopy.AlikeNear

/-! ### The work of a session -/

namespace Work

variable {x : Work} {copy : WorkingCopy} {tree tree' : Tree}

/-- Done once more on a copy of the tree, the work has the same answers and comes to the same near
    its scope. -/
structure Repeats (x : Work) (copy : WorkingCopy) (tree : Tree) : Prop where
  answers : (ModelCall.runAll x.calls (.ofTree tree x.scope)).1 = x.answers
  copy : (ModelCall.runAll x.calls (.ofTree tree x.scope)).2.AlikeNear copy

theorem repeats_fresh (tree : Tree) (scope : List Address) :
    Repeats { scope } (.ofTree tree scope) tree where
  answers := rfl
  copy := ⟨rfl, rfl, .refl scope tree⟩

theorem Repeats.add (h : x.Repeats copy tree) (call : ModelCall) :
    (x.add call (call.run copy).1).Repeats (call.run copy).2 tree := by
  obtain ⟨hanswer, hcopy⟩ := h.copy.run call
  constructor
  · show (ModelCall.runAll (x.calls ++ [call]) (.ofTree tree x.scope)).1 =
      x.answers ++ [(call.run copy).1]
    rw [ModelCall.runAll_concat, h.answers, hanswer]
  · show (ModelCall.runAll (x.calls ++ [call]) (.ofTree tree x.scope)).2.AlikeNear _
    rw [ModelCall.runAll_concat]
    exact hcopy

/-- Changes of the tree that are not near the scope do not matter. -/
theorem Repeats.of_alikeNear (h : x.Repeats copy tree) (htree : tree.AlikeNear x.scope tree') :
    x.Repeats copy tree' := by
  have hbase : (WorkingCopy.ofTree tree x.scope).AlikeNear (.ofTree tree' x.scope) :=
    ⟨rfl, rfl, htree⟩
  obtain ⟨hanswers, hcopy⟩ := hbase.runAll x.calls
  exact ⟨hanswers.trans h.answers, hcopy.symm.trans h.copy⟩

/-- The copy has nothing on record but addresses in the scope. -/
theorem Repeats.liesIn (h : x.Repeats copy tree) {a : Address}
    (ha : (copy.touched.get? a).isSome) : a.LiesIn x.scope := by
  rw [h.copy.touched_eq] at ha
  exact ModelCall.liesIn_of_runAll x.calls ha

theorem scope_runAll (x : Work) (tree : Tree) :
    (ModelCall.runAll x.calls (.ofTree tree x.scope)).2.scope = x.scope := by
  refine ModelCall.runAll_keeps (I := fun w => w.scope = x.scope) (fun call w hw => ?_) rfl x.calls
  rcases call.run_cases w with hsame | ⟨r, -, -, hrun⟩
  · rw [hsame]
    exact hw
  · rw [hrun]
    exact hw

/-- Publishing the copy is doing the work once more on the committed tree. -/
theorem Repeats.redo_eq {s : CommittedModel} (h : x.Repeats copy s.tree) :
    x.redo s = (x, s.publish copy) := by
  have hpublish : s.publish copy =
      s.publish (ModelCall.runAll x.calls (.ofTree s.tree x.scope)).2 := by
    refine CommittedModel.publish_congr h.copy.touched_eq fun a ha => h.copy.tree a ?_
    rw [scope_runAll]
    exact (ModelCall.liesIn_of_runAll x.calls ha).isNear
  show ({ x with answers := (ModelCall.runAll x.calls (.ofTree s.tree x.scope)).1 }, _) = _
  rw [h.answers, hpublish]

theorem redoAll_concat (xs : List Work) (x : Work) (s : CommittedModel) :
    redoAll (xs ++ [x]) s =
      ((redoAll xs s).1 ++ [(x.redo (redoAll xs s).2).1], (x.redo (redoAll xs s).2).2) := by
  induction xs generalizing s with
  | nil => rfl
  | cons first xs ih =>
    show (_ :: (redoAll (xs ++ [x]) _).1, (redoAll (xs ++ [x]) _).2) = _
    rw [ih]
    rfl

/-- Work done on a hierarchy leaves one. -/
theorem hierarchical_redo (x : Work) {s : CommittedModel} (hs : s.tree.Hierarchical) :
    (x.redo s).2.tree.Hierarchical := by
  show (s.publish (ModelCall.runAll x.calls (.ofTree s.tree x.scope)).2).tree.Hierarchical
  rw [CommittedModel.publish_tree (ModelCall.extends_of_runAll s.tree x.scope x.calls)]
  exact ModelCall.runAll_keeps (I := fun w => w.tree.Hierarchical) ModelCall.hierarchical_run hs
    x.calls

theorem hierarchical_redoAll (xs : List Work) {s : CommittedModel} (hs : s.tree.Hierarchical) :
    (redoAll xs s).2.tree.Hierarchical := by
  induction xs generalizing s with
  | nil => exact hs
  | cons x xs ih => exact ih (x.hierarchical_redo hs)

end Work

/-! ### Exclusion -/

/-- The locks that owners hold are apart, and the table knows of them. -/
structure Exclusive (locks : HeldLocks) (lock? : Nat → Option Lock) : Prop where
  owner : ∀ {o : Nat} {l : Lock}, lock? o = some l → l.owner = o
  fresh : ∀ {o : Nat} {l : Lock}, lock? o = some l → o < locks.freshOwner
  held : ∀ {o : Nat} {l : Lock}, lock? o = some l → ∀ a ∈ l.addresses, (o, a) ∈ locks.held
  apart : ∀ {o o' : Nat} {l l' : Lock}, lock? o = some l → lock? o' = some l' → o ≠ o' →
    ∀ a ∈ l.addresses, ∀ b ∈ l'.addresses, a.overlaps b = false

namespace Exclusive

variable {locks locks' : HeldLocks} {lock? : Nat → Option Lock} {lock : Lock}

/-- A lock is granted only apart from all others. -/
theorem acquire (h : Exclusive locks lock?) {wanted : List Address}
    (hacquire : locks.acquire? wanted = some (lock, locks')) :
    Exclusive locks' fun o => if o = lock.owner then some lock else lock? o := by
  unfold HeldLocks.acquire? at hacquire
  split at hacquire
  · cases hacquire
  · rename_i hconflicts
    cases hacquire
    -- a subtree that is held overlaps none of the wanted
    have hfree : ∀ {o l}, lock? o = some l → ∀ b ∈ l.addresses, ∀ a ∈ wanted,
        a.overlaps b = false := by
      intro o l hl b hb a ha
      refine Bool.eq_false_iff.2 fun hoverlaps => hconflicts ?_
      exact List.any_eq_true.2 ⟨(o, b), h.held hl b hb, List.any_eq_true.2 ⟨a, ha, hoverlaps⟩⟩
    refine ⟨?_, ?_, ?_, ?_⟩
    · intro o l hl
      dsimp only at hl
      split at hl
      · rename_i ho
        cases hl
        exact ho.symm
      · exact h.owner hl
    · intro o l hl
      show o < locks.freshOwner + 1
      dsimp only at hl
      split at hl
      · rename_i ho
        exact ho ▸ Nat.lt_succ_self _
      · exact Nat.lt_succ_of_lt (h.fresh hl)
    · intro o l hl a ha
      dsimp only at hl
      split at hl
      · rename_i ho
        cases hl
        exact List.mem_append_right _ (List.mem_map.2 ⟨a, ha, by rw [ho]⟩)
      · exact List.mem_append_left _ (h.held hl a ha)
    · intro o o' l l' hl hl' hne a ha b hb
      dsimp only at hl hl'
      split at hl
      · rename_i ho
        cases hl
        rw [if_neg fun ho' => hne (ho.trans ho'.symm)] at hl'
        exact hfree hl' b hb a ha
      · split at hl'
        · cases hl'
          rw [Address.overlaps_comm]
          exact hfree hl a ha b hb
        · exact h.apart hl hl' hne a ha b hb

/-- Giving back a lock leaves those of the other owners. -/
theorem release (h : Exclusive locks lock?) {owner : Nat} (hlock : lock? owner = some lock) :
    Exclusive (locks.release lock.owner) fun o => if o = owner then none else lock? o := by
  have hother : ∀ {o l}, (if o = owner then none else lock? o) = some l →
      lock? o = some l ∧ o ≠ owner := by
    intro o l hl
    split at hl
    · cases hl
    · rename_i ho
      exact ⟨hl, ho⟩
  refine ⟨fun hl => h.owner (hother hl).1, fun hl => h.fresh (hother hl).1, ?_, ?_⟩
  · intro o l hl a ha
    obtain ⟨hl, ho⟩ := hother hl
    refine List.mem_filter.2 ⟨h.held hl a ha, ?_⟩
    rw [h.owner hlock]
    exact bne_iff_ne.2 ho
  · intro o o' l l' hl hl'
    exact h.apart (hother hl).1 (hother hl').1

end Exclusive

/-! ### Shared models -/

namespace Sharing

/-- The lock that an owner holds. -/
def lock? (t : Sharing) (owner : Nat) : Option Lock := (t.session? owner).map Session.lock

variable {seed : Tree} {t t' : Sharing} {owner : Nat} {lock : Lock}

theorem lock?_of_session? {session : Session} (h : t.session? owner = some session) :
    t.lock? owner = some session.lock := by
  rw [lock?, h]
  rfl

theorem lock?_set (t : Sharing) (owner : Nat) (session? : Option Session) :
    (t.set owner session?).lock? =
      fun o => if o = owner then session?.map Session.lock else t.lock? o := by
  funext o
  unfold lock?
  by_cases ho : o = owner
  · rw [ho, session?_set_self, if_pos rfl]
  · rw [session?_set_of_ne t ho, if_neg ho]

/-- What a session does with its copy leaves its lock alone. -/
theorem lock?_set_of_session? {work? work?' : Option (Work × WorkingCopy)}
    (h : t.session? owner = some ⟨lock, work?⟩) :
    (t.set owner (some ⟨lock, work?'⟩)).lock? = t.lock? := by
  rw [lock?_set]
  funext o
  by_cases ho : o = owner
  · rw [ho, if_pos rfl, lock?_of_session? h]
    rfl
  · rw [if_neg ho]

/-- Locks are apart, the work under way repeats on what is committed by now, and what is committed
    is the published work done one after the other. -/
structure Sound (seed : Tree) (t : Sharing) : Prop where
  exclusive : Exclusive t.locks t.lock?
  repeats : ∀ {o : Nat} {l : Lock} {x : Work} {copy : WorkingCopy},
    t.session? o = some ⟨l, some (x, copy)⟩ → x.scope = l.addresses ∧ x.Repeats copy t.store.tree
  serial : Work.redoAll t.published { tree := seed } = (t.published, t.store)

theorem sound_start (seed : Tree) : Sound seed (start seed) where
  exclusive := ⟨nofun, nofun, nofun, nofun⟩
  repeats := nofun
  serial := rfl

/-- The invariant of the sessions, where one of them is replaced. -/
theorem Sound.repeats_set (h : Sound seed t) {session? : Option Session} {tree : Tree}
    (hother : ∀ {o : Nat} {l : Lock} {x : Work} {copy : WorkingCopy}, o ≠ owner →
      t.session? o = some ⟨l, some (x, copy)⟩ → t.store.tree.AlikeNear x.scope tree)
    (hself : ∀ {l : Lock} {x : Work} {copy : WorkingCopy},
      session? = some ⟨l, some (x, copy)⟩ → x.scope = l.addresses ∧ x.Repeats copy tree)
    {o : Nat} {l : Lock} {x : Work} {copy : WorkingCopy}
    (ho : (t.set owner session?).session? o = some ⟨l, some (x, copy)⟩) :
    x.scope = l.addresses ∧ x.Repeats copy tree := by
  by_cases hne : o = owner
  · rw [hne, session?_set_self] at ho
    exact hself ho
  · rw [session?_set_of_ne t hne] at ho
    obtain ⟨hscope, hrepeats⟩ := h.repeats ho
    exact ⟨hscope, hrepeats.of_alikeNear (hother hne ho)⟩

theorem Sound.step (h : Sound seed t) (hstep : Step t t') : Sound seed t' := by
  cases hstep with
  | @acquire wanted lock locks hacquire =>
    refine ⟨?_, h.repeats_set (fun _ _ => .refl _ _) ?_, h.serial⟩
    · show Exclusive locks (t.set lock.owner (some ⟨lock, none⟩)).lock?
      rw [lock?_set]
      exact h.exclusive.acquire hacquire
    · rintro l x copy ⟨⟩
  | begin hidle =>
    refine ⟨?_, h.repeats_set (fun _ _ => .refl _ _) ?_, h.serial⟩
    · rw [lock?_set_of_session? hidle]
      exact h.exclusive
    · rintro l x copy ⟨⟩
      exact ⟨rfl, Work.repeats_fresh _ _⟩
  | call hworking call =>
    refine ⟨?_, h.repeats_set (fun _ _ => .refl _ _) ?_, h.serial⟩
    · rw [lock?_set_of_session? hworking]
      exact h.exclusive
    · rintro l x copy ⟨⟩
      obtain ⟨hscope, hrepeats⟩ := h.repeats hworking
      exact ⟨hscope, hrepeats.add call⟩
  | @publish owner lock x copy hworking =>
    obtain ⟨hscope, hrepeats⟩ := h.repeats hworking
    refine ⟨?_, h.repeats_set ?_ ?_, ?_⟩
    · show Exclusive t.locks (t.set owner (some ⟨lock, none⟩)).lock?
      rw [lock?_set_of_session? hworking]
      exact h.exclusive
    · -- what is published lies in the scope, and so not near that of another session
      intro o l x' copy' hne ho a hnear
      show (t.store.publish copy).tree.get? a = t.store.tree.get? a
      rw [CommittedModel.get?_publish, if_neg]
      intro htouched
      refine (hrepeats.liesIn htouched).not_isNear ?_ hnear
      rw [hscope, (h.repeats ho).1]
      exact h.exclusive.apart (lock?_of_session? hworking) (lock?_of_session? ho) hne.symm
    · rintro l x copy ⟨⟩
    · show Work.redoAll (t.published ++ [x]) _ = (t.published ++ [x], t.store.publish copy)
      rw [Work.redoAll_concat, h.serial, hrepeats.redo_eq]
  | discard hworking =>
    refine ⟨?_, h.repeats_set (fun _ _ => .refl _ _) ?_, h.serial⟩
    · rw [lock?_set_of_session? hworking]
      exact h.exclusive
    · rintro l x copy ⟨⟩
  | @release owner lock hidle =>
    refine ⟨?_, h.repeats_set (fun _ _ => .refl _ _) ?_, h.serial⟩
    · show Exclusive (t.locks.release lock.owner) (t.set owner none).lock?
      rw [lock?_set]
      exact h.exclusive.release (lock?_of_session? hidle)
    · rintro l x copy ⟨⟩

theorem Reachable.sound (h : Reachable seed t) : Sound seed t := by
  induction h with
  | start => exact sound_start seed
  | step _ hstep ih => exact ih.step hstep

/-- **Concurrent sessions are serializable**: however their steps interleave, what is committed is
    a hierarchy, and it is what the published work comes to when it is done one piece after the
    other, each from what the one before left, where every call has the answer it had. -/
theorem serializable (hseed : seed.Hierarchical) (h : Reachable seed t) :
    t.store.tree.Hierarchical ∧
      Work.redoAll t.published { tree := seed } = (t.published, t.store) := by
  have hserial := h.sound.serial
  refine ⟨?_, hserial⟩
  have htree := Work.hierarchical_redoAll t.published (s := { tree := seed }) hseed
  rw [hserial] at htree
  exact htree

/-- Two sessions begin on one tree; the second publishes first, and a call of the first has failed
    for the scope. -/
theorem serializable_pair :
    ∃ t, Reachable .initial t ∧
      (t.published.map fun x => (x.scope, x.answers)) =
        [([⟨[⟨"b", "1"⟩]⟩], [.ok ∅]),
          ([⟨[⟨"a", "1"⟩]⟩], [.ok ∅, .error (.internal (.notLocked ⟨[⟨"b", "1"⟩]⟩))])] ∧
      t.store.tree.Hierarchical ∧
      Work.redoAll t.published { tree := .initial } = (t.published, t.store) := by
  have h₁ := Reachable.step (Reachable.start : Reachable .initial _)
    (@Step.acquire _ [⟨[⟨"a", "1"⟩]⟩] _ _ rfl)
  have h₂ := h₁.step (@Step.acquire _ [⟨[⟨"b", "1"⟩]⟩] _ _ rfl)
  have h₃ := (h₂.step (@Step.begin _ 0 _ rfl)).step (@Step.begin _ 1 _ rfl)
  have h₄ := h₃.step (@Step.call _ 0 _ _ _ rfl (.create ⟨[⟨"a", "1"⟩]⟩))
  have h₅ := h₄.step (@Step.call _ 0 _ _ _ rfl (.create ⟨[⟨"b", "1"⟩]⟩))
  have h₆ := h₅.step (@Step.call _ 1 _ _ _ rfl (.create ⟨[⟨"b", "1"⟩]⟩))
  have h₇ := (h₆.step (@Step.publish _ 1 _ _ _ rfl)).step (@Step.publish _ 0 _ _ _ rfl)
  exact ⟨_, h₇, rfl, serializable Tree.hierarchical_initial h₇⟩

end Sharing

end ManagedModel
