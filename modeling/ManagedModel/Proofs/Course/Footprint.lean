import ManagedModel.Proofs.Course.Transaction

/-! # Where MODEL steps change the model

    The step of a built-in operation changes its working copy at the address
    of the operation, if at all.

    * All drafts consist of answers, reading, adding, removing and writing an
      attribute (`ModelHandler.draft_of_changes`), or, looked at more closely, of
      answers, reading and changes at the address of the operation
      (`ModelHandler.draft_of_closedAt`).
    * `ModelHandler.draft_keeps` is the way to show that drafts keep a property
      of working copies: it has to be kept by a change at the operation's
      address.
    * `ModelHandler.draft_respects` says that nothing else about the working
      copy matters for a draft but its tree and whether the operation's address
      may be changed. For reading, the tree alone matters.
    * `published_tree` says that a transaction commits the tree it drafted. -/

namespace ManagedModel

/-! ### What drafts are made of -/

namespace Drafting

/-- A property of changes that answers and reading have, and sequences of changes that have it. -/
structure Closed (Q : (α : Type) → Drafting α → Prop) : Prop where
  answer : ∀ {α : Type} (r : Except Fault α), Q α (answer r)
  reading : ∀ {α : Type} (read : Tree → Except Fault α), Q α (reading read)
  bind : ∀ {α β : Type} {m : Drafting α} {k : α → Drafting β},
    Q α m → (∀ a, Q β (k a)) → Q β (m.bind k)

/-- The changes of the model at the address have the property, too. -/
structure ClosedAt (Q : (α : Type) → Drafting α → Prop) (a : Address) : Prop extends Closed Q where
  create : Q Unit fun w => (w.create a).map fun w => ((), w)
  edit : ∀ f, Q Attributes fun w => w.edit a f
  remove : Q Attributes fun w => w.remove a

end Drafting

section

variable {C : Type} {schema? : Address → Option ResourceSchema} {effect : String → LiveEffect}
  {Q : (α : Type) → Drafting α → Prop} {op : Operation}

theorem Resource.createDraft_of_closedAt (hQ : Drafting.ClosedAt Q op.address) :
    Q Attributes (createDraft schema? op) := by
  apply hQ.bind (hQ.answer _)
  intro schema
  apply hQ.bind hQ.create
  intro _
  apply hQ.bind (hQ.answer _)
  intro attributes
  apply hQ.bind (hQ.edit _)
  intro _
  exact hQ.answer _

theorem Resource.writeDraft_of_closedAt (hQ : Drafting.ClosedAt Q op.address) :
    Q AttributeUpdate (writeDraft schema? op) := by
  apply hQ.bind (hQ.answer _)
  intro name
  apply hQ.bind (hQ.answer _)
  intro d
  apply hQ.bind (hQ.answer _)
  intro new
  apply hQ.bind (hQ.edit _)
  intro before
  exact hQ.answer _

/-- Drafts of reading consist of answers and reading. -/
theorem ModelHandler.draft_of_closed (hQ : Drafting.Closed Q) {h : ResourceHandler}
    (hread : h.IsRead) : Q Delivery ((resource h : ModelHandler C).draft schema? effect op) := by
  cases h with
  | add => exact absurd hread id
  | remove => exact absurd hread id
  | writeAttribute => exact absurd hread id
  | readAttribute | readResource | readChildrenNames =>
    apply hQ.bind (hQ.reading _)
    intro v
    exact hQ.answer _

/-- All drafts consist of answers, reading, adding, removing and writing an attribute. -/
theorem ModelHandler.draft_of_changes (hQ : Drafting.Closed Q)
    (hcreate : Q Attributes (Resource.createDraft schema? op))
    (hremove : Q Attributes fun w => w.remove op.address)
    (hwrite : Q Resource.AttributeUpdate (Resource.writeDraft schema? op))
    (h : ModelHandler C) : Q Delivery (h.draft schema? effect op) := by
  cases h with
  | resource h =>
    cases h with
    | add =>
      apply hQ.bind hcreate
      intro _
      exact hQ.answer _
    | remove =>
      apply hQ.bind hremove
      intro _
      exact hQ.answer _
    | writeAttribute =>
      apply hQ.bind hwrite
      intro _
      exact hQ.answer _
    | readAttribute => exact draft_of_closed hQ trivial
    | readResource => exact draft_of_closed hQ trivial
    | readChildrenNames => exact draft_of_closed hQ trivial
  | property h =>
    cases h with
    | add =>
      apply hQ.bind hcreate
      intro model
      apply hQ.bind (hQ.answer _)
      intro name
      exact hQ.answer _
    | remove =>
      apply hQ.bind hremove
      intro _
      apply hQ.bind (hQ.answer _)
      intro name
      exact hQ.answer _
    | writeAttribute =>
      apply hQ.bind hwrite
      intro change
      -- an update is left only where the value was changed
      by_cases hc : change.name = propertyValueAttribute ∧ change.old ≠ change.new
      · rw [if_pos hc]
        apply hQ.bind (hQ.answer _)
        intro name
        apply hQ.bind (hQ.reading _)
        intro model
        exact hQ.answer _
      · rw [if_neg hc]
        exact hQ.answer _
    | update name model action => exact hQ.answer _
    | verify name => exact hQ.answer _
    | applyParked => exact hQ.answer _
  | custom code => exact hQ.answer _

/-- All drafts consist of answers, reading and changes at the address of the operation. -/
theorem ModelHandler.draft_of_closedAt (hQ : Drafting.ClosedAt Q op.address)
    (h : ModelHandler C) : Q Delivery (h.draft schema? effect op) :=
  draft_of_changes hQ.toClosed (Resource.createDraft_of_closedAt hQ) hQ.remove
    (Resource.writeDraft_of_closedAt hQ) h

end

/-! ### What changes keep -/

namespace Drafting

variable {α : Type} {I : WorkingCopy → Prop}

/-- Where the change goes through, the property still holds. -/
def Keeps (I : WorkingCopy → Prop) (m : Drafting α) : Prop :=
  ∀ ⦃w w' : WorkingCopy⦄ ⦃a : α⦄, I w → m w = .ok (a, w') → I w'

theorem closed_keeps (I : WorkingCopy → Prop) : Closed fun _ => Keeps I := by
  have hanswer : ∀ {α : Type} (r : Except Fault α), Keeps I (answer r) := by
    intro α r w w' a hw h
    obtain ⟨-, rfl⟩ := answer_eq_ok.1 h
    exact hw
  refine ⟨hanswer, ?_, ?_⟩
  · intro α read w w' a hw h
    exact hanswer (read w.tree) hw h
  · intro α β m k hm hk w w' b hw h
    obtain ⟨a, v, h₁, h₂⟩ := bind_eq_ok.1 h
    exact hk a (hm hw h₁) h₂

variable {a : Address}

/-- The property is kept by every change at the address. -/
def KeptAt (I : WorkingCopy → Prop) (a : Address) : Prop :=
  ∀ ⦃w : WorkingCopy⦄ ⦃t : Tree⦄, I w → (∀ b, b ≠ a → t.get? b = w.tree.get? b) → I (w.changed a t)

theorem closedAt_keeps (hI : KeptAt I a) : ClosedAt (fun _ => Keeps I) a := by
  refine ⟨closed_keeps I, ?_, ?_, ?_⟩
  · intro w w' u hw h
    obtain ⟨v, hcreate, hv⟩ := map_eq_ok.1 h
    cases hv
    obtain ⟨-, t, ht, rfl⟩ := WorkingCopy.create_eq_ok.1 hcreate
    obtain ⟨-, rfl⟩ := Tree.create_eq_ok ht
    exact hI hw fun b hb => w.tree.get?_put_of_ne hb ∅
  · intro f w w' old hw h
    obtain ⟨-, -, rfl⟩ := WorkingCopy.edit_eq_ok.1 h
    exact hI hw fun b hb => w.tree.get?_put_of_ne hb (f old)
  · intro w w' attributes hw h
    obtain ⟨-, t, ht, rfl⟩ := WorkingCopy.remove_eq_ok.1 h
    obtain ⟨-, rfl⟩ := Tree.remove_eq_ok ht
    exact hI hw fun b hb => w.tree.get?_discard_of_ne hb

end Drafting

section

variable {C : Type} {schema? : Address → Option ResourceSchema} {effect : String → LiveEffect}
  {op : Operation} {w w' : WorkingCopy} {o : Delivery}

/-- The draft of an operation keeps what a change at the operation's address keeps. -/
theorem ModelHandler.draft_keeps {I : WorkingCopy → Prop} (hI : Drafting.KeptAt I op.address)
    (h : ModelHandler C) : (h.draft schema? effect op).Keeps I :=
  draft_of_closedAt (Drafting.closedAt_keeps hI) h

/-- Reading leaves the working copy alone. -/
theorem ModelHandler.working_of_isRead {h : ResourceHandler} (hread : h.IsRead)
    (hdraft : (resource h : ModelHandler C).draft schema? effect op w = .ok (o, w')) : w' = w :=
  draft_of_closed (Drafting.closed_keeps (· = w)) hread rfl hdraft

/-- An operation leaves alone what the model holds at other addresses. -/
theorem ModelHandler.get?_of_draft {h : ModelHandler C}
    (hdraft : h.draft schema? effect op w = .ok (o, w')) {a : Address} (ha : a ≠ op.address) :
    w'.tree.get? a = w.tree.get? a := by
  have hkept : Drafting.KeptAt (fun v => v.tree.get? a = w.tree.get? a) op.address :=
    fun v t hv ht => (ht a ha).trans hv
  exact ModelHandler.draft_keeps hkept h rfl hdraft

end

/-! ### What changes depend on -/

/-- The copies have the same tree, and what may be changed in the first may be changed in the
    second. -/
structure WorkingCopy.Alike (P : List Address → Prop) (w v : WorkingCopy) : Prop where
  tree_eq : v.tree = w.tree
  scope : P w.scope → P v.scope

namespace Drafting

variable {α : Type} {P : List Address → Prop}

/-- Where the change goes through on one copy, it does so on every copy that is alike. -/
def Respects (P : List Address → Prop) (m : Drafting α) : Prop :=
  ∀ ⦃w v w' : WorkingCopy⦄ ⦃a : α⦄, w.Alike P v → m w = .ok (a, w') →
    ∃ v', m v = .ok (a, v') ∧ w'.Alike P v'

theorem closed_respects (P : List Address → Prop) : Closed fun _ => Respects P := by
  have hanswer : ∀ {α : Type} (r : Except Fault α), Respects P (answer r) := by
    intro α r w v w' a halike h
    obtain ⟨hr, rfl⟩ := answer_eq_ok.1 h
    exact ⟨v, answer_eq_ok.2 ⟨hr, rfl⟩, halike⟩
  refine ⟨hanswer, ?_, ?_⟩
  · intro α read w v w' a halike h
    unfold Drafting.reading at h ⊢
    rw [halike.tree_eq]
    exact hanswer (read w.tree) halike h
  · intro α β m k hm hk w v w' b halike h
    obtain ⟨a, w₁, h₁, h₂⟩ := bind_eq_ok.1 h
    obtain ⟨v₁, hv₁, halike₁⟩ := hm halike h₁
    obtain ⟨v', hv', halike'⟩ := hk a halike₁ h₂
    exact ⟨v', bind_eq_ok.2 ⟨a, v₁, hv₁, hv'⟩, halike'⟩

theorem closedAt_respects (a : Address) : ClosedAt (fun _ => Respects a.LiesIn) a := by
  refine ⟨closed_respects a.LiesIn, ?_, ?_, ?_⟩
  · intro w v w' u halike h
    obtain ⟨w₁, hcreate, hw₁⟩ := map_eq_ok.1 h
    cases hw₁
    obtain ⟨hscope, t, ht, rfl⟩ := WorkingCopy.create_eq_ok.1 hcreate
    have hv : v.create a = .ok (v.changed a t) :=
      WorkingCopy.create_eq_ok.2 ⟨halike.scope hscope, t, by rw [halike.tree_eq, ht], rfl⟩
    exact ⟨v.changed a t, map_eq_ok.2 ⟨_, hv, rfl⟩, rfl, halike.scope⟩
  · intro f w v w' old halike h
    obtain ⟨hscope, hget, rfl⟩ := WorkingCopy.edit_eq_ok.1 h
    rw [← halike.tree_eq] at hget ⊢
    exact ⟨v.changed a (v.tree.put a (f old)),
      WorkingCopy.edit_eq_ok.2 ⟨halike.scope hscope, hget, rfl⟩, rfl, halike.scope⟩
  · intro w v w' attributes halike h
    obtain ⟨hscope, t, ht, rfl⟩ := WorkingCopy.remove_eq_ok.1 h
    rw [← halike.tree_eq] at ht
    exact ⟨v.changed a t, WorkingCopy.remove_eq_ok.2 ⟨halike.scope hscope, t, ht, rfl⟩, rfl,
      halike.scope⟩

end Drafting

section

variable {C : Type} {schema? : Address → Option ResourceSchema} {effect : String → LiveEffect}
  {op : Operation}

/-- The draft of an operation depends on the tree and on whether the operation's address may be
    changed. -/
theorem ModelHandler.draft_respects (h : ModelHandler C) :
    (h.draft schema? effect op).Respects op.address.LiesIn :=
  draft_of_closedAt (Drafting.closedAt_respects op.address) h

/-- For reading, the tree alone counts. -/
theorem ModelHandler.draft_respects_of_isRead {P : List Address → Prop} {h : ResourceHandler}
    (hread : h.IsRead) : ((resource h : ModelHandler C).draft schema? effect op).Respects P :=
  draft_of_closed (Drafting.closed_respects P) hread

/-- Resource handlers leave nothing for RUNTIME. -/
theorem ModelHandler.update?_of_resource {h : ResourceHandler} {w w' : WorkingCopy}
    {o : Delivery} (hdraft : (resource h : ModelHandler C).draft schema? effect op w = .ok (o, w')) :
    o.update? = none := by
  -- each of the drafts ends by telling its delivery, and none of these has an update
  have hlast : ∀ {α : Type} (m : Drafting α) (k : α → Delivery), (∀ a, (k a).update? = none) →
      (m.bind fun a => .answer (.ok (k a))) w = .ok (o, w') → o.update? = none := by
    intro α m k hk h
    obtain ⟨a, v, -, hanswer⟩ := Drafting.bind_eq_ok.1 h
    obtain ⟨ho, -⟩ := Drafting.answer_eq_ok.1 hanswer
    cases ho
    exact hk a
  cases h with
  | add => exact hlast _ _ (fun _ => rfl) hdraft
  | remove => exact hlast (fun w => w.remove op.address) _ (fun _ => rfl) hdraft
  | writeAttribute => exact hlast _ _ (fun _ => rfl) hdraft
  | readAttribute => exact hlast _ _ (fun _ => rfl) hdraft
  | readResource => exact hlast _ _ (fun _ => rfl) hdraft
  | readChildrenNames => exact hlast _ _ (fun _ => rfl) hdraft

end

/-! ### What is committed -/

namespace WorkingCopy

theorem keptAt_extends (base : Tree) (a : Address) : Drafting.KeptAt (Extends base) a :=
  fun _ _ hw ht => hw.changed ht

theorem keptAt_scope (scope : List Address) (a : Address) :
    Drafting.KeptAt (fun w => w.scope = scope) a :=
  fun _ _ hw _ => hw

end WorkingCopy

namespace Draft

variable {C : Type} {schema? : Address → Option ResourceSchema} {effect : String → LiveEffect}
  {tasks : List (Operation × ModelHandler C)} {d d' : Draft}

theorem step_scope {task : Operation × ModelHandler C} (h : step schema? effect d task = .ok d') :
    d'.working.scope = d.working.scope := by
  obtain ⟨o, working, hdraft, rfl⟩ := step_eq_ok.1 h
  exact ModelHandler.draft_keeps (WorkingCopy.keptAt_scope d.working.scope task.1.address) task.2 rfl
    hdraft

/-- A sequence of operations keeps what changes at their addresses keep. -/
theorem run_working_keeps {I : WorkingCopy → Prop}
    (hI : ∀ task ∈ tasks, Drafting.KeptAt I task.1.address)
    (h : run schema? effect tasks d = .ok d') (hd : I d.working) : I d'.working := by
  refine run_keeps (I := fun d => I d.working) ?_ h hd
  intro d d' task htask hd hstep
  obtain ⟨o, working, hdraft, rfl⟩ := step_eq_ok.1 hstep
  exact ModelHandler.draft_keeps (hI task htask) task.2 hd hdraft

end Draft

namespace Controller

variable {X : Signature} {c : Controller X.withProperties} {cfg : PropertyConfig} {booting : Bool}
  {accepted : List (Operation × RegisteredOperation (ModelHandler X.Handler))}
  {s : ControllerState X.withProperties}

/-- A transaction commits the tree that it drafted. -/
theorem published_tree {d : Draft} (m : Alignment)
    (h : (draftOf accepted s).run c.registry.resource? (c.effect cfg booting)
      (tasksOf accepted) = .ok d) :
    (published d m s).store.tree = d.working.tree :=
  CommittedModel.publish_tree (Draft.run_working_keeps
    (fun _ _ => WorkingCopy.keptAt_extends _ _) h (WorkingCopy.extends_ofTree _ _))

end Controller

end ManagedModel
