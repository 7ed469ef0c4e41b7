import Mathlib.Data.List.Induction
import ManagedModel.Proofs.WorkingCopy

/-! # Publication by many writers

    Any number of working copies are made of snapshots of the committed model,
    old ones as well as new, with scopes that may overlap, and each of them is
    changed by calls and published, perhaps more than once.

    * `Publishing` is what there is at one time: the committed model, the
      snapshots taken, the writers, and a log of all publications.
    * What a single call adds to the record of its copy
      (`ModelCall.contains_touched_run`) tells what all calls of a writer put
      there (`Writer.contains_touched_iff`).
    * The committed model is what the publications on the log make of the seed
      (`Publishing.Sound`). At each address the last one with the address on
      its record decides (`commitAll_get?`).
    * A copy that is behind the committed model loses nothing by that where
      nobody else has published since its snapshot was taken
      (`Publishing.Sound.extends_store`). That nobody has since the copy was
      made is not enough (`Publishing.stale_copy_is_merged`). -/

namespace ManagedModel

/-! ### Records of calls -/

theorem WorkingCopy.isDirty_of_contains {w : WorkingCopy} {a : Address}
    (h : w.touched.contains a = true) : w.isDirty = true := by
  unfold isDirty
  rw [SortedMap.isEmpty_eq_false_iff.2 ⟨a, h⟩]
  rfl

theorem WorkingCopy.contains_changed {w : WorkingCopy} {a b : Address} {t : Tree} :
    (w.changed b t).touched.contains a = true ↔ a = b ∨ w.touched.contains a = true := by
  rw [SortedMap.contains_eq_isSome, SortedMap.contains_eq_isSome]
  show ((w.touched.insert b ()).get? a).isSome = true ↔ _
  rw [SortedMap.get?_insert]
  by_cases h : a = b <;> simp [h]

namespace ModelCall

/-- A call puts its address on the record just if it goes through, and takes none off. -/
theorem contains_touched_run (call : ModelCall) (w : WorkingCopy) (a : Address) :
    (call.run w).2.touched.contains a = true ↔
      w.touched.contains a = true ∨
        call.address = a ∧ ∃ attributes, (call.run w).1 = .ok attributes := by
  unfold run
  cases hattempt : call.attempt w with
  | error fault => simp
  | ok r =>
    obtain ⟨attributes, w'⟩ := r
    obtain ⟨-, attributes?, rfl⟩ := attempt_eq_ok hattempt
    rw [WorkingCopy.contains_changed, or_comm, eq_comm]
    exact or_congr_right ⟨fun h => ⟨h.symm, attributes, rfl⟩, fun h => h.1.symm⟩

theorem length_runAll (calls : List ModelCall) (w : WorkingCopy) :
    (runAll calls w).1.length = calls.length := by
  induction calls generalizing w with
  | nil => rfl
  | cons call calls ih => exact congrArg (· + 1) (ih _)

end ModelCall

/-! ### Writers -/

/-- A snapshot of the committed model. -/
structure Snapshot where
  tree : Tree
  /-- How often was published before it was taken. -/
  taken : Nat

/-- A writer, with the snapshot that its working copy was made of. -/
structure Writer where
  base : Snapshot
  /-- How often was published before the copy was made. -/
  begun : Nat
  scope : List Address
  /-- The calls made so far. -/
  calls : List ModelCall

namespace Writer

/-- The answers of the calls and the copy they lead to. -/
def made (w : Writer) : List (Except Fault Attributes) × WorkingCopy :=
  ModelCall.runAll w.calls (.ofTree w.base.tree w.scope)

/-- The working copy as it is by now. -/
def copy (w : Writer) : WorkingCopy := w.made.2

/-- Whether a call for a change at the address went through. -/
def Changed (w : Writer) (a : Address) : Prop :=
  ∃ call attributes, (call, .ok attributes) ∈ w.calls.zip w.made.1 ∧ call.address = a

/-- Makes one more call. -/
def make (w : Writer) (call : ModelCall) : Writer := { w with calls := w.calls ++ [call] }

variable {w : Writer} {a : Address}

theorem made_make (w : Writer) (call : ModelCall) :
    (w.make call).made = (w.made.1 ++ [(call.run w.copy).1], (call.run w.copy).2) :=
  ModelCall.runAll_concat w.calls call _

theorem changed_make (w : Writer) (call : ModelCall) :
    (w.make call).Changed a ↔
      w.Changed a ∨ call.address = a ∧ ∃ attributes, (call.run w.copy).1 = .ok attributes := by
  have hzip : (w.make call).calls.zip (w.make call).made.1 =
      w.calls.zip w.made.1 ++ [(call, (call.run w.copy).1)] := by
    rw [made_make]
    exact List.zip_append (ModelCall.length_runAll w.calls _).symm
  unfold Changed
  rw [hzip]
  constructor
  · rintro ⟨call', attributes, hmem, haddress⟩
    rcases List.mem_append.1 hmem with hmem | hmem
    · exact .inl ⟨call', attributes, hmem, haddress⟩
    · obtain ⟨rfl, hanswer⟩ := Prod.mk.inj (List.mem_singleton.1 hmem)
      exact .inr ⟨haddress, attributes, hanswer.symm⟩
  · rintro (⟨call', attributes, hmem, haddress⟩ | ⟨haddress, attributes, hanswer⟩)
    · exact ⟨call', attributes, List.mem_append.2 (.inl hmem), haddress⟩
    · refine ⟨call, attributes, List.mem_append.2 (.inr ?_), haddress⟩
      rw [hanswer]
      exact List.mem_singleton_self _

/-- On record are just the addresses at which a call went through. -/
theorem contains_touched_iff : w.copy.touched.contains a = true ↔ w.Changed a := by
  obtain ⟨base, begun, scope, calls⟩ := w
  -- from the back: the last call is made on what the others lead to
  induction calls using List.reverseRecOn with
  | nil =>
    constructor
    · intro h
      cases h
    · rintro ⟨call, attributes, hmem, -⟩
      cases hmem
  | append_singleton calls call ih =>
    show (make ⟨base, begun, scope, calls⟩ call).copy.touched.contains a = true ↔ _
    unfold copy
    rw [made_make, ModelCall.contains_touched_run]
    exact (or_congr_left ih).trans (changed_make _ call).symm

theorem liesIn_of_contains_touched (h : w.copy.touched.contains a = true) : a.LiesIn w.scope :=
  ModelCall.liesIn_of_runAll w.calls h

theorem extends_base (w : Writer) : w.copy.Extends w.base.tree :=
  ModelCall.extends_of_runAll w.base.tree w.scope w.calls

/-- A call takes nothing off the record. -/
theorem contains_touched_make (call : ModelCall) (h : w.copy.touched.contains a = true) :
    (w.make call).copy.touched.contains a = true := by
  unfold copy
  rw [made_make]
  exact (call.contains_touched_run w.copy a).2 (.inl h)

end Writer

/-! ### Publications -/

/-- A publication. -/
structure Publication where
  /-- The number of the writer that published. -/
  writer : Nat
  /-- The writer's copy as it was. -/
  copy : WorkingCopy

/-- What publications make of a seed. -/
def commitAll (seed : Tree) (published : List Publication) : CommittedModel :=
  published.foldl (fun s p => s.publish p.copy) { tree := seed }

/-- The last publication with the address on its record. -/
def lastAt? (published : List Publication) (a : Address) : Option Publication :=
  (published.filter fun p => p.copy.touched.contains a).getLast?

section

variable {seed : Tree} {published : List Publication} {a : Address}

theorem commitAll_concat (seed : Tree) (published : List Publication) (p : Publication) :
    commitAll seed (published ++ [p]) = (commitAll seed published).publish p.copy := by
  unfold commitAll
  rw [List.foldl_append]
  rfl

/-- At each address stands what the last publication there left. -/
theorem commitAll_get? (seed : Tree) (published : List Publication) (a : Address) :
    (commitAll seed published).tree.get? a =
      match lastAt? published a with
      | some p => p.copy.tree.get? a
      | none => seed.get? a := by
  induction published using List.reverseRecOn with
  | nil => rfl
  | append_singleton published p ih =>
    rw [commitAll_concat, CommittedModel.get?_publish, ← SortedMap.contains_eq_isSome]
    unfold lastAt? at ih ⊢
    rw [List.filter_append]
    by_cases hp : p.copy.touched.contains a = true
    · rw [if_pos hp, show [p].filter _ = [p] from List.filter_cons_of_pos hp, List.getLast?_concat]
    · rw [if_neg hp, show [p].filter _ = [] from List.filter_cons_of_neg hp, List.append_nil]
      exact ih

/-- The version counts the publications that have anything on their record. -/
theorem commitAll_version (seed : Tree) (published : List Publication) :
    (commitAll seed published).version = published.countP fun p => p.copy.isDirty := by
  induction published using List.reverseRecOn with
  | nil => rfl
  | append_singleton published p ih =>
    rw [commitAll_concat, List.countP_append, List.countP_singleton]
    unfold CommittedModel.publish
    by_cases hp : p.copy.isDirty = true
    · rw [if_pos hp, if_pos hp]
      exact congrArg (· + 1) ih
    · rw [if_neg hp, if_neg hp]
      exact ih

/-- Where none of the later publications has an address on its record, the earlier ones decide. -/
theorem commitAll_get?_take (n : Nat)
    (h : ∀ p ∈ published.drop n, p.copy.touched.contains a = false) :
    (commitAll seed published).tree.get? a = (commitAll seed (published.take n)).tree.get? a := by
  have hnone : (published.drop n).filter (fun p => p.copy.touched.contains a) = [] := by
    refine List.filter_eq_nil_iff.2 fun p hp => ?_
    rw [h p hp]
    exact Bool.false_ne_true
  have hlast : lastAt? published a = lastAt? (published.take n) a := by
    unfold lastAt?
    rw [← List.take_append_drop n published, List.filter_append, hnone, List.append_nil,
      List.take_append_drop]
  rw [commitAll_get?, commitAll_get?, hlast]

end

/-! ### Publishing -/

/-- The committed model with its snapshots and writers, and a log of all publications. -/
structure Publishing where
  store : CommittedModel
  snapshots : List Snapshot := []
  writers : List Writer := []
  published : List Publication := []

namespace Publishing

/-- What may be done next. -/
inductive Action where
  /-- A snapshot is taken. -/
  | snapshot
  /-- A working copy is made of the `k`-th snapshot. -/
  | begin (k : Nat) (scope : List Address)
  /-- The `i`-th writer makes a call. -/
  | call (i : Nat) (call : ModelCall)
  /-- The `i`-th writer publishes its copy. -/
  | publish (i : Nat)

/-- What an action leads to. There is nothing done for a snapshot or a writer that is not there. -/
def act (s : Publishing) : Action → Publishing
  | .snapshot => { s with snapshots := s.snapshots ++ [⟨s.store.tree, s.published.length⟩] }
  | .begin k scope =>
    match s.snapshots[k]? with
    | some base => { s with writers := s.writers ++ [⟨base, s.published.length, scope, []⟩] }
    | none => s
  | .call i call => { s with writers := s.writers.modify i (·.make call) }
  | .publish i =>
    match s.writers[i]? with
    | some w =>
      { s with store := s.store.publish w.copy, published := s.published ++ [⟨i, w.copy⟩] }
    | none => s

/-- Takes one action after the other, from a seed. -/
def run (seed : Tree) (actions : List Action) : Publishing :=
  actions.foldl act { store := { tree := seed } }

/-- The committed model and the snapshots are what the log says, and nothing has left the record of
    a copy that it was published with. -/
structure Sound (seed : Tree) (s : Publishing) : Prop where
  store : s.store = commitAll seed s.published
  snapshot : ∀ x ∈ s.snapshots,
    x.taken ≤ s.published.length ∧ x.tree = (commitAll seed (s.published.take x.taken)).tree
  base : ∀ w ∈ s.writers, w.base ∈ s.snapshots
  grown : ∀ p ∈ s.published, ∃ w, s.writers[p.writer]? = some w ∧
    ∀ a, p.copy.touched.contains a = true → w.copy.touched.contains a = true

variable {seed : Tree} {s : Publishing}

theorem sound_init (seed : Tree) : Sound seed { store := { tree := seed } } where
  store := rfl
  snapshot _ h := absurd h List.not_mem_nil
  base _ h := absurd h List.not_mem_nil
  grown _ h := absurd h List.not_mem_nil

theorem Sound.takeSnapshot (hs : s.Sound seed) : (s.act .snapshot).Sound seed where
  store := hs.store
  snapshot := by
    intro x hx
    rcases List.mem_append.1 hx with hx | hx
    · exact hs.snapshot x hx
    · obtain rfl := List.mem_singleton.1 hx
      refine ⟨Nat.le_refl _, ?_⟩
      show s.store.tree = (commitAll seed (s.published.take s.published.length)).tree
      rw [List.take_length, hs.store]
  base w hw := List.mem_append.2 (.inl (hs.base w hw))
  grown := hs.grown

theorem Sound.begin (hs : s.Sound seed) (k : Nat) (scope : List Address) :
    (s.act (.begin k scope)).Sound seed := by
  simp only [Publishing.act]
  cases hbase : s.snapshots[k]? with
  | none => exact hs
  | some base =>
    refine ⟨hs.store, hs.snapshot, fun w hw => ?_, fun p hp => ?_⟩
    · rcases List.mem_append.1 hw with hw | hw
      · exact hs.base w hw
      · obtain rfl := List.mem_singleton.1 hw
        exact List.mem_of_getElem? hbase
    · obtain ⟨w, hw, hgrown⟩ := hs.grown p hp
      -- writers keep their numbers
      have hlt : p.writer < s.writers.length := (List.getElem?_eq_some_iff.1 hw).1
      exact ⟨w, (List.getElem?_append_left hlt).trans hw, hgrown⟩

/-- A call concerns the one writer that makes it. -/
theorem writers_act_call (s : Publishing) (i : Nat) (call : ModelCall) (j : Nat) :
    (s.act (.call i call)).writers[j]? =
      (s.writers[j]?).map fun w => if i = j then w.make call else w :=
  List.getElem?_modify _ _ _ _

theorem Sound.call (hs : s.Sound seed) (i : Nat) (call : ModelCall) :
    (s.act (.call i call)).Sound seed where
  store := hs.store
  snapshot := hs.snapshot
  base := by
    intro w' hw'
    obtain ⟨j, hj⟩ := List.mem_iff_getElem?.1 hw'
    rw [writers_act_call] at hj
    obtain ⟨w, hw, rfl⟩ := Option.map_eq_some_iff.1 hj
    have hbase := hs.base w (List.mem_of_getElem? hw)
    split
    · exact hbase
    · exact hbase
  grown := by
    intro p hp
    obtain ⟨w, hw, hgrown⟩ := hs.grown p hp
    refine ⟨if i = p.writer then w.make call else w, ?_, fun a ha => ?_⟩
    · rw [writers_act_call, hw]
      rfl
    · split
      · exact Writer.contains_touched_make call (hgrown a ha)
      · exact hgrown a ha

theorem Sound.publish (hs : s.Sound seed) (i : Nat) : (s.act (.publish i)).Sound seed := by
  simp only [Publishing.act]
  cases hw : s.writers[i]? with
  | none => exact hs
  | some w =>
    refine ⟨?_, fun x hx => ?_, hs.base, fun p hp => ?_⟩
    · rw [commitAll_concat, ← hs.store]
    · obtain ⟨hle, htree⟩ := hs.snapshot x hx
      refine ⟨?_, ?_⟩
      · rw [List.length_append]
        omega
      · -- what was published before the snapshot was taken is all still on the log
        rw [List.take_append_of_le_length hle]
        exact htree
    · rcases List.mem_append.1 hp with hp | hp
      · exact hs.grown p hp
      · obtain rfl := List.mem_singleton.1 hp
        exact ⟨w, hw, fun a ha => ha⟩

theorem Sound.act (hs : s.Sound seed) (action : Action) : (s.act action).Sound seed := by
  cases action with
  | snapshot => exact hs.takeSnapshot
  | begin k scope => exact hs.begin k scope
  | call i call => exact hs.call i call
  | publish i => exact hs.publish i

theorem run_append (seed : Tree) (actions later : List Action) :
    run seed (actions ++ later) = later.foldl Publishing.act (run seed actions) :=
  List.foldl_append

theorem sound_run (seed : Tree) (actions : List Action) : (run seed actions).Sound seed := by
  induction actions using List.reverseRecOn with
  | nil => exact sound_init seed
  | append_singleton actions action ih =>
    rw [run_append]
    exact ih.act action

/-- No action changes a snapshot. -/
theorem snapshots_prefix_act (s : Publishing) (action : Action) :
    s.snapshots <+: (s.act action).snapshots := by
  cases action with
  | snapshot => exact List.prefix_append _ _
  | begin k scope =>
    simp only [Publishing.act]
    cases s.snapshots[k]? with
    | none => exact List.prefix_rfl
    | some base => exact List.prefix_rfl
  | call i call => exact List.prefix_rfl
  | publish i =>
    simp only [Publishing.act]
    cases s.writers[i]? with
    | none => exact List.prefix_rfl
    | some w => exact List.prefix_rfl

theorem snapshots_prefix_foldl (later : List Action) (s : Publishing) :
    s.snapshots <+: (later.foldl Publishing.act s).snapshots := by
  induction later generalizing s with
  | nil => exact List.prefix_rfl
  | cons action later ih => exact (s.snapshots_prefix_act action).trans (ih (s.act action))

/-- Where nobody else has published since its snapshot was taken, a copy has what is committed but
    for the addresses on its record. -/
theorem Sound.extends_store (hs : s.Sound seed) {i : Nat} {w : Writer}
    (hw : s.writers[i]? = some w)
    (hown : ∀ p ∈ s.published.drop w.base.taken, p.copy.isDirty = true → p.writer = i) :
    w.copy.Extends s.store.tree := by
  intro a ha
  have hclean : ∀ p ∈ s.published.drop w.base.taken, p.copy.touched.contains a = false := by
    intro p hp
    refine Bool.eq_false_iff.2 fun htouched => ?_
    -- then it is a publication of the writer itself, which has the address on its record still
    obtain ⟨w', hw', hgrown⟩ := hs.grown p (List.mem_of_mem_drop hp)
    rw [hown p hp (WorkingCopy.isDirty_of_contains htouched), hw] at hw'
    cases hw'
    have hthere := hgrown a htouched
    rw [SortedMap.contains_eq_isSome, ha] at hthere
    cases hthere
  obtain ⟨-, htree⟩ := hs.snapshot w.base (hs.base w (List.mem_of_getElem? hw))
  rw [w.extends_base a ha, htree, hs.store, commitAll_get?_take _ hclean]

theorem store_act_publish {i : Nat} {w : Writer} (hw : s.writers[i]? = some w) :
    (s.act (.publish i)).store = s.store.publish w.copy := by
  simp only [Publishing.act]
  rw [hw]

/-- Whatever is done: a copy has on its record just the addresses at which one of its calls went
    through, all of them within its scope, and elsewhere has what its snapshot has. Publishing it
    commits what it has at the addresses on its record and leaves all others as they are committed
    by then, so that at each address stands what the last publication there left. The version counts
    the publications with anything on their record. A snapshot shows what was published before it
    and is never changed. And where nobody else has published since its snapshot was taken, a copy
    is committed as it is. -/
theorem merges_what_was_changed (seed : Tree) (actions : List Action) :
    let s := run seed actions
    (∀ w ∈ s.writers,
      w.base ∈ s.snapshots ∧
      (∀ a, w.copy.touched.contains a = true ↔ w.Changed a) ∧
      (∀ a, w.copy.touched.contains a = true → a.LiesIn w.scope) ∧
      ∀ a, w.copy.touched.contains a = false → w.copy.tree.get? a = w.base.tree.get? a) ∧
    (∀ i w, s.writers[i]? = some w → ∀ a,
      (s.act (.publish i)).store.tree.get? a =
        if w.copy.touched.contains a then w.copy.tree.get? a else s.store.tree.get? a) ∧
    (∀ a, s.store.tree.get? a =
      match lastAt? s.published a with
      | some p => p.copy.tree.get? a
      | none => seed.get? a) ∧
    s.store.version = s.published.countP (fun p => !p.copy.touched.isEmpty) ∧
    (∀ x ∈ s.snapshots, x.tree = (commitAll seed (s.published.take x.taken)).tree) ∧
    (∀ later, s.snapshots <+: (run seed (actions ++ later)).snapshots) ∧
    ∀ i w, s.writers[i]? = some w →
      (∀ p ∈ s.published.drop w.base.taken, p.copy.isDirty = true → p.writer = i) →
      (s.act (.publish i)).store.tree = w.copy.tree := by
  intro s
  have hs : s.Sound seed := sound_run seed actions
  refine ⟨fun w hw => ⟨hs.base w hw, fun a => ?_, fun a => ?_, fun a ha => ?_⟩,
    ?_, ?_, ?_, ?_, ?_, ?_⟩
  · exact Writer.contains_touched_iff
  · exact Writer.liesIn_of_contains_touched
  · exact w.extends_base a (Option.not_isSome_iff_eq_none.1 (Bool.eq_false_iff.1 ha))
  · intro i w hw a
    rw [store_act_publish hw]
    exact CommittedModel.get?_publish s.store w.copy a
  · intro a
    rw [hs.store]
    exact commitAll_get? seed s.published a
  · rw [hs.store]
    exact commitAll_version seed s.published
  · exact fun x hx => (hs.snapshot x hx).2
  · intro later
    rw [run_append]
    exact snapshots_prefix_foldl later s
  · intro i w hw hown
    rw [store_act_publish hw]
    exact CommittedModel.publish_tree (hs.extends_store hw hown)

/-- Two copies are made of one snapshot, the second when the first has been published already. -/
def lateBeginning : List Action :=
  let first : Address := ⟨[⟨"queue", "first"⟩]⟩
  let second : Address := ⟨[⟨"queue", "second"⟩]⟩
  [.snapshot,
    .begin 0 [first], .call 0 (.create first), .publish 0,
    .begin 0 [second], .call 1 (.create second)]

/-- That nobody else has published since a copy was made does not have it committed as it is: what
    was published before, but after its snapshot was taken, stays. -/
theorem stale_copy_is_merged :
    ¬ ∀ i w, (run .initial lateBeginning).writers[i]? = some w →
      (∀ p ∈ (run .initial lateBeginning).published.drop w.begun, p.writer = i) →
      ((run .initial lateBeginning).act (.publish i)).store.tree = w.copy.tree := by
  intro h
  have htree := h 1 _ rfl (fun p hp => by cases hp)
  revert htree
  decide +kernel

end Publishing

end ManagedModel
