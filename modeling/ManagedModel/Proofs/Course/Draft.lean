import ManagedModel.Proofs.Execution
import ManagedModel.Property.Handlers

/-! # What MODEL steps do

    The handlers of resource operations and of system properties, read as
    changes of a working copy.

    * `Drafting` is a change of a working copy that gives an answer or a fault,
      and `Carries` says that a program is such a change: it does to the
      transaction what the change does to the working copy, and nothing else.
    * `ModelHandler.draft` is the change that a built-in handler stands for. Its
      answer is what the step hands on: the result of its operation, and the
      update it leaves for RUNTIME.
    * `Draft.run` carries out a list of operations.

    `run_program` ties the handlers' programs to their drafts. -/

namespace ManagedModel

/-- A change of a working copy that gives an answer or a fault. -/
abbrev Drafting (α : Type) := WorkingCopy → Except Fault (α × WorkingCopy)

namespace Drafting

variable {α β : Type}

/-- Answers and leaves the working copy alone. -/
def answer (r : Except Fault α) : Drafting α := fun w => r.map fun a => (a, w)

/-- Answers from the tree and leaves the working copy alone. -/
def reading (read : Tree → Except Fault α) : Drafting α := fun w => answer (read w.tree) w

/-- Goes on with the answer to a change. -/
def bind (m : Drafting α) (k : α → Drafting β) : Drafting β := fun w =>
  match m w with
  | .ok (a, w) => k a w
  | .error fault => .error fault

theorem bind_eq_ok {m : Drafting α} {k : α → Drafting β} {w w' : WorkingCopy} {b : β} :
    m.bind k w = .ok (b, w') ↔ ∃ a v, m w = .ok (a, v) ∧ k a v = .ok (b, w') := by
  unfold bind
  constructor
  · intro h
    split at h
    · rename_i a v hm
      exact ⟨a, v, hm, h⟩
    · cases h
  · rintro ⟨a, v, hm, hk⟩
    rw [hm]
    exact hk

theorem answer_eq_ok {r : Except Fault α} {w w' : WorkingCopy} {a : α} :
    answer r w = .ok (a, w') ↔ r = .ok a ∧ w' = w := by
  unfold answer
  cases r with
  | error fault => simp [Except.map]
  | ok b =>
    simp only [Except.map, Except.ok.injEq, Prod.mk.injEq]
    exact ⟨fun h => ⟨h.1, h.2.symm⟩, fun h => ⟨h.1, h.2.symm⟩⟩

end Drafting

/-! ### Programs that change the working copy alone -/

section Carries

variable {S : Signature} {c : Controller S} {α β : Type}

/-- In MODEL, the program does what the change does; where it fails, it may leave a part of its
    changes behind. -/
def Carries (c : Controller S) (p : Program S α) (m : Drafting α) : Prop :=
  ∀ f : InFlight S, f.transaction.stage = .model →
    match m f.transaction.working with
    | .ok (a, w) => p.run c f = (.ok a, f.withWorking w)
    | .error fault => ∃ w, p.run c f = (.error fault, f.withWorking w)

namespace Carries

theorem answer {p : Program S α} {r : Except Fault α} (h : ∀ f, p.run c f = (r, f)) :
    Carries c p (Drafting.answer r) := by
  intro f _
  cases r with
  | error fault => exact ⟨f.transaction.working, h f⟩
  | ok a => exact h f

theorem bind {p : Program S α} {g : α → Program S β} {m : Drafting α} {k : α → Drafting β}
    (hp : Carries c p m) (hg : ∀ a, Carries c (g a) (k a)) : Carries c (p.bind g) (m.bind k) := by
  intro f hstage
  have h := hp f hstage
  unfold Drafting.bind
  cases hm : m f.transaction.working with
  | error fault =>
    rw [hm] at h
    obtain ⟨w, h⟩ := h
    exact ⟨w, Program.run_bind_of_error h⟩
  | ok p' =>
    obtain ⟨a, w⟩ := p'
    rw [hm] at h
    -- the second part starts from what the first part made of the working copy
    have hk := hg a (f.withWorking w) hstage
    simp only [Program.run_bind_of_ok h]
    exact hk

theorem reading {p : Program S α} {read : Tree → Except Fault α}
    (h : ∀ f, p.run c f = (read f.transaction.working.tree, f)) :
    Carries c p (.reading read) := by
  intro f _
  rw [h f]
  unfold Drafting.reading Drafting.answer
  cases read f.transaction.working.tree with
  | error fault => exact ⟨f.transaction.working, rfl⟩
  | ok a => rfl

theorem of_write {p : Program S α} {m : Drafting α}
    (h : ∀ f, p.run c f = f.answerOr (f.transaction.write (m f.transaction.working))) :
    Carries c p m := by
  intro f hstage
  rw [h f]
  cases m f.transaction.working with
  | error fault => exact ⟨f.transaction.working, InFlight.answerOr_write_error hstage fault⟩
  | ok r => exact InFlight.answerOr_write_ok hstage r.1 r.2

theorem createAt (a : Address) :
    Carries c (Program.createAt a) fun w => (w.create a).map fun w => ((), w) :=
  of_write (Program.run_createAt a)

theorem editAt (a : Address) (change : Attributes → Attributes) :
    Carries c (Program.editAt a change) fun w => w.edit a change :=
  of_write (Program.run_editAt a change)

theorem removeAt (a : Address) : Carries c (Program.removeAt a) fun w => w.remove a :=
  of_write (Program.run_removeAt a)

end Carries

end Carries

/-! ### Resource operations -/

namespace Resource

/-- The schema that governs an address. -/
def schemaAt (schema? : Address → Option ResourceSchema) (a : Address) :
    Except Fault ResourceSchema :=
  match schema? a with
  | some d => .ok d
  | none => .error (.validation (.noSchema a))

/-- The schema of an attribute of the resource type that governs an address. -/
def attributeSchemaAt (schema? : Address → Option ResourceSchema) (a : Address) (name : String) :
    Except Fault AttributeSchema := do
  let schema ← schemaAt schema? a
  match schema.attribute? name with
  | some d => return d
  | none => throw (.validation (.unknownAttribute name a))

/-- Adds a resource and stores its validated attributes. -/
def createDraft (schema? : Address → Option ResourceSchema) (op : Operation) :
    Drafting Attributes :=
  (Drafting.answer (schemaAt schema? op.address)).bind fun schema =>
    Drafting.bind (fun w => (w.create op.address).map fun w => ((), w)) fun _ =>
      (Drafting.answer (AttributeSchema.validateAll schema.attributes op.params)).bind
        fun attributes =>
          Drafting.bind (fun w => w.edit op.address fun _ => attributes) fun _ =>
            .answer (.ok attributes)

/-- Writes one attribute. -/
def writeDraft (schema? : Address → Option ResourceSchema) (op : Operation) :
    Drafting AttributeUpdate :=
  (Drafting.answer (namedAttribute op)).bind fun name =>
    (Drafting.answer (attributeSchemaAt schema? op.address name)).bind fun d =>
      (Drafting.answer (d.validate (op.param? valueParameter))).bind fun new =>
        Drafting.bind (fun w => w.edit op.address (withAttribute name new)) fun before =>
          .answer (.ok { name, old := (before.get? name).getD .undefined, new })

/-- The value of the attribute that an operation names. -/
def readAttributeIn (schema? : Address → Option ResourceSchema) (op : Operation) (t : Tree) :
    Except Fault Value := do
  let name ← namedAttribute op
  let d ← attributeSchemaAt schema? op.address name
  let attributes ← t.require op.address
  return (attributes.get? name <|> d.default?).getD .undefined

/-- The description of a resource alone. -/
def describeOwnIn (schema? : Address → Option ResourceSchema) (t : Tree) (includeDefaults : Bool)
    (a : Address) : Attributes :=
  let stored := (t.get? a).getD ∅
  match schema? a with
  | some schema => if includeDefaults then withDefaults schema.attributes stored else stored
  | none => stored

/-- The description of the resource at an operation's address. -/
def readAllIn (schema? : Address → Option ResourceSchema) (op : Operation) (t : Tree) :
    Except Fault Value := do
  let _ ← t.require op.address
  let own := describeOwnIn schema? t (flag op includeDefaultsParameter true)
  return .ofAttributes
    (if flag op recursiveParameter false then t.describe own op.address else own op.address)

/-- The names of the children of the type that an operation names. -/
def readChildrenNamesIn (op : Operation) (t : Tree) : Except Fault Value :=
  match (op.param? childTypeParameter).bind Value.asString with
  | none => .error (.validation (.missingParameter childTypeParameter))
  | some key => do
    let _ ← t.require op.address
    return .list ((childrenNames t op.address key).map Value.string)

section

variable {S : Signature} {c : Controller S}

theorem run_schema (a : Address) (f : InFlight S) :
    (Program.schema a).run c f = (schemaAt c.registry.resource? a, f) := by
  show (match c.registry.resource? a with
    | some d => Program.pure d
    | none => Program.fail (.validation (.noSchema a))).run c f = _
  unfold schemaAt
  cases c.registry.resource? a <;> rfl

theorem run_attributeSchema (a : Address) (name : String) (f : InFlight S) :
    (attributeSchema a name).run c f = (attributeSchemaAt c.registry.resource? a name, f) := by
  unfold attributeSchema attributeSchemaAt
  rw [Program.bind_eq_bind, Program.run_bind, run_schema]
  cases schemaAt c.registry.resource? a with
  | error fault => rfl
  | ok schema =>
    show (match schema.attribute? name with
      | some d => Pure.pure d
      | none => Program.fail (.validation (.unknownAttribute name a))).run c f = _
    cases h : schema.attribute? name <;> simp only [h, bind, Except.bind] <;> rfl

theorem carries_create (op : Operation) :
    Carries c (create op) (createDraft c.registry.resource? op) := by
  apply Carries.bind (Carries.answer (run_schema op.address))
  intro schema
  apply Carries.bind (Carries.createAt op.address)
  intro _
  apply Carries.bind (Carries.answer (Program.run_ofExcept _))
  intro attributes
  apply Carries.bind (Carries.editAt op.address fun _ => attributes)
  intro _
  apply Carries.answer
  intro f
  rfl

theorem carries_write (op : Operation) :
    Carries c (write op) (writeDraft c.registry.resource? op) := by
  apply Carries.bind (Carries.answer (Program.run_ofExcept _))
  intro name
  apply Carries.bind (Carries.answer (run_attributeSchema op.address name))
  intro d
  apply Carries.bind (Carries.answer (Program.run_ofExcept _))
  intro new
  apply Carries.bind (Carries.editAt op.address (withAttribute name new))
  intro before
  apply Carries.answer
  intro f
  rfl

theorem run_readAttribute (op : Operation) (f : InFlight S) :
    (readAttribute op).run c f =
      (readAttributeIn c.registry.resource? op f.transaction.working.tree, f) := by
  unfold readAttribute readAttributeIn
  simp only [Program.bind_eq_bind, Program.run_bind, Program.run_ofExcept, run_attributeSchema,
    Program.run_readAt]
  cases namedAttribute op with
  | error fault => rfl
  | ok name =>
    cases ha : attributeSchemaAt c.registry.resource? op.address name with
    | error fault => simp only [ha, bind, Except.bind]
    | ok d =>
      simp only [ha, bind, Except.bind]
      cases f.transaction.working.tree.require op.address <;> rfl

theorem run_readAll (op : Operation) (f : InFlight S) :
    (readAll op).run c f =
      (readAllIn c.registry.resource? op f.transaction.working.tree, f) := by
  unfold readAll readAllIn
  simp only [Program.bind_eq_bind, Program.run_bind, Program.run_readAt, Program.run_view]
  cases f.transaction.working.tree.require op.address <;> rfl

theorem run_readChildrenNames (op : Operation) (f : InFlight S) :
    (readChildrenNames op).run c f = (readChildrenNamesIn op f.transaction.working.tree, f) := by
  unfold readChildrenNames readChildrenNamesIn
  cases (op.param? childTypeParameter).bind Value.asString with
  | none => rfl
  | some key =>
    simp only [Program.bind_eq_bind, Program.run_bind, Program.run_readAt, Program.run_view]
    cases f.transaction.working.tree.require op.address <;> rfl

end

end Resource

/-! ### What a MODEL step hands on -/

/-- An update of the running process that waits for RUNTIME. -/
structure PendingUpdate where
  name : String
  model : Attributes
  effect : LiveEffect

/-- The result of the step's operation and the update that the step queues. -/
structure Delivery where
  result? : Option Value := none
  update? : Option PendingUpdate := none

namespace PendingUpdate

variable {C : Type}

/-- The handler that carries out the update. -/
def handler (u : PendingUpdate) : ModelHandler C := .property (.update u.name u.model u.effect)

/-- The request to queue the update. -/
def request {X : Signature} (u : PendingUpdate) : StepRequest X.withProperties :=
  { stage := .runtime, handler := u.handler }

end PendingUpdate

/-- The operations that leave the model alone. -/
def ResourceHandler.IsRead : ResourceHandler → Prop
  | add | remove | writeAttribute => False
  | readAttribute | readResource | readChildrenNames => True

namespace ModelHandler

variable {C : Type}

/-- The handlers that carry out submitted operations on resources and system properties. -/
def IsBuiltIn : ModelHandler C → Prop
  | resource _ | property .add | property .remove | property .writeAttribute => True
  | property _ | custom _ => False

/-- The change of the working copy that a built-in handler stands for; `effect` tells how a
    change of a property reaches the process. -/
def draft (schema? : Address → Option ResourceSchema) (effect : String → LiveEffect)
    (h : ModelHandler C) (op : Operation) : Drafting Delivery :=
  let update (name : String) (model : Attributes) : Delivery :=
    { update? := some { name, model, effect := effect name } }
  match h with
  | resource .add => (Resource.createDraft schema? op).bind fun _ => .answer (.ok {})
  | resource .remove => Drafting.bind (fun w => w.remove op.address) fun _ => .answer (.ok {})
  | resource .writeAttribute => (Resource.writeDraft schema? op).bind fun _ => .answer (.ok {})
  | resource .readAttribute =>
    (Drafting.reading (Resource.readAttributeIn schema? op)).bind fun v =>
      .answer (.ok { result? := some v })
  | resource .readResource =>
    (Drafting.reading (Resource.readAllIn schema? op)).bind fun v =>
      .answer (.ok { result? := some v })
  | resource .readChildrenNames =>
    (Drafting.reading (Resource.readChildrenNamesIn op)).bind fun v =>
      .answer (.ok { result? := some v })
  | property .add =>
    (Resource.createDraft schema? op).bind fun model =>
      (Drafting.answer (Property.nameOf op)).bind fun name => .answer (.ok (update name model))
  | property .remove =>
    Drafting.bind (fun w => w.remove op.address) fun _ =>
      (Drafting.answer (Property.nameOf op)).bind fun name => .answer (.ok (update name ∅))
  | property .writeAttribute =>
    (Resource.writeDraft schema? op).bind fun change =>
      if change.name = propertyValueAttribute ∧ change.old ≠ change.new then
        (Drafting.answer (Property.nameOf op)).bind fun name =>
          (Drafting.reading (·.require op.address)).bind fun model =>
            .answer (.ok (update name model))
      else .answer (.ok {})
  | property _ | custom _ => .answer (.ok {})

end ModelHandler

/-! ### Operations in sequence -/

/-- What the MODEL steps of a transaction have come to. -/
structure Draft where
  working : WorkingCopy
  results : List Value := []
  /-- The updates queued for RUNTIME, in order. -/
  updates : List PendingUpdate := []

namespace Draft

variable {C : Type} {schema? : Address → Option ResourceSchema} {effect : String → LiveEffect}

/-- Carries out one more operation. -/
def step (schema? : Address → Option ResourceSchema) (effect : String → LiveEffect) (d : Draft)
    (task : Operation × ModelHandler C) : Except Fault Draft :=
  match task.2.draft schema? effect task.1 d.working with
  | .ok (o, working) =>
    .ok
      { working
        results := d.results ++ [o.result?.getD .undefined]
        updates := d.updates ++ o.update?.toList }
  | .error fault => .error fault

/-- Carries out operations one after the other. -/
def run (schema? : Address → Option ResourceSchema) (effect : String → LiveEffect)
    (tasks : List (Operation × ModelHandler C)) (d : Draft) : Except Fault Draft :=
  tasks.foldlM (step schema? effect) d

theorem run_cons (task : Operation × ModelHandler C) (tasks : List (Operation × ModelHandler C))
    (d : Draft) :
    run schema? effect (task :: tasks) d =
      match step schema? effect d task with
      | .ok d => run schema? effect tasks d
      | .error fault => .error fault := by
  unfold run
  rw [List.foldlM_cons]
  cases step schema? effect d task <;> rfl

theorem step_eq_ok {d d' : Draft} {task : Operation × ModelHandler C} :
    step schema? effect d task = .ok d' ↔
      ∃ o working, task.2.draft schema? effect task.1 d.working = .ok (o, working) ∧
        d' = { working
               results := d.results ++ [o.result?.getD .undefined]
               updates := d.updates ++ o.update?.toList } := by
  unfold step
  constructor
  · intro h
    split at h
    · rename_i o working hdraft
      cases h
      exact ⟨o, working, hdraft, rfl⟩
    · cases h
  · rintro ⟨o, working, hdraft, rfl⟩
    rw [hdraft]

/-- What every operation keeps, a sequence of operations keeps. -/
theorem run_keeps {I : Draft → Prop} {tasks : List (Operation × ModelHandler C)}
    (hstep : ∀ {d d' : Draft} {task : Operation × ModelHandler C}, task ∈ tasks → I d →
      step schema? effect d task = .ok d' → I d')
    {d d' : Draft} (h : run schema? effect tasks d = .ok d') (hd : I d) : I d' := by
  induction tasks generalizing d with
  | nil =>
    cases h
    exact hd
  | cons task tasks ih =>
    rw [run_cons] at h
    split at h
    · rename_i d₁ h₁
      refine ih ?_ h (hstep List.mem_cons_self hd h₁)
      intro d d' t ht
      exact hstep (List.mem_cons_of_mem task ht)
    · cases h

/-- Every operation leaves one update at most. -/
theorem length_updates_step {d d' : Draft} {task : Operation × ModelHandler C}
    (h : step schema? effect d task = .ok d') : d'.updates.length ≤ d.updates.length + 1 := by
  obtain ⟨o, working, -, rfl⟩ := step_eq_ok.1 h
  have hone : o.update?.toList.length ≤ 1 := by
    cases o.update? <;> simp
  rw [List.length_append]
  omega

theorem length_updates {tasks : List (Operation × ModelHandler C)} {d d' : Draft}
    (h : run schema? effect tasks d = .ok d') :
    d'.updates.length ≤ d.updates.length + tasks.length := by
  -- on the operations, from any draft, as each one starts from that of the one before
  induction tasks generalizing d with
  | nil =>
    cases h
    exact Nat.le_refl _
  | cons task tasks ih =>
    rw [run_cons] at h
    split at h
    · rename_i d₁ h₁
      have hone := length_updates_step h₁
      have hrest := ih h
      rw [List.length_cons]
      omega
    · cases h

end Draft

/-! ### Programs that change the working copy and hand something on -/

section Delivers

variable {X : Signature} {c : Controller X.withProperties} {α : Type}

/-- The transaction after a step handed something on. -/
def InFlight.deliver (d : Delivery) (f : InFlight X.withProperties) :
    InFlight X.withProperties :=
  let f := d.result?.elim f fun v => f.onTransaction (·.setResult v)
  d.update?.elim f fun u => f.onTransaction fun t => (t.queue u.request).2

/-- A submitted operation's step is executing. -/
structure InFlight.InModelStep (booting : Bool) (f : InFlight X.withProperties) : Prop where
  stage_eq : f.transaction.stage = .model
  booting_eq : f.transaction.booting = booting
  executing_isSome : f.transaction.executing.isSome
  accepts_runtime : f.transaction.agenda.accepts .runtime

/-- In a submitted operation's step, the program does what the change does and hands on what the
    change answers; where it fails, it may leave a part of its changes behind. -/
def Delivers (c : Controller X.withProperties) (booting : Bool) (p : Program X.withProperties Unit)
    (m : Drafting Delivery) : Prop :=
  ∀ f : InFlight X.withProperties, f.InModelStep booting →
    match m f.transaction.working with
    | .ok (d, w) => p.run c f = (.ok (), (f.withWorking w).deliver d)
    | .error fault => ∃ w, p.run c f = (.error fault, f.withWorking w)

namespace Delivers

variable {booting : Bool}

theorem bind {p : Program X.withProperties α} {g : α → Program X.withProperties Unit}
    {m : Drafting α} {k : α → Drafting Delivery} (hp : Carries c p m)
    (hg : ∀ a, Delivers c booting (g a) (k a)) : Delivers c booting (p.bind g) (m.bind k) := by
  intro f hf
  have h := hp f hf.stage_eq
  unfold Drafting.bind
  cases hm : m f.transaction.working with
  | error fault =>
    rw [hm] at h
    obtain ⟨w, h⟩ := h
    exact ⟨w, Program.run_bind_of_error h⟩
  | ok r =>
    obtain ⟨a, w⟩ := r
    rw [hm] at h
    have hk := hg a (f.withWorking w)
      ⟨hf.stage_eq, hf.booting_eq, hf.executing_isSome, hf.accepts_runtime⟩
    simp only [Program.run_bind_of_ok h]
    exact hk

theorem nothing : Delivers c booting (.pure ()) (.answer (.ok {})) :=
  fun _ _ => rfl

theorem result (v : Value) :
    Delivers c booting (.result v) (.answer (.ok { result? := some v })) :=
  fun _ _ => rfl

/-- While a submitted operation's step executes, updates are accepted. -/
theorem queueUpdate {cfg : PropertyConfig} (name : String) (model : Attributes) :
    Delivers c booting (Property.queueUpdate cfg name model)
      (.answer (.ok { update? := some ⟨name, model, cfg.effectFor c.processKind name booting⟩ })) := by
  intro f hf
  -- the queue of RUNTIME is still to come, so that the step is taken in
  obtain ⟨step, hstep⟩ := Option.isSome_iff_exists.1 hf.executing_isSome
  have hb : (f.view c).booting = booting := hf.booting_eq
  have hok : ∀ u : PendingUpdate, (f.transaction.queue u.request).1 = .ok () := by
    intro u
    have ha : f.transaction.agenda.accepts (u.request (X := X)).stage := hf.accepts_runtime
    rw [Transaction.queue_of_accepts hstep ha rfl]
  show (Program.bind Program.view fun v => Program.addStep
    (PendingUpdate.request ⟨name, model, cfg.effectFor v.processKind name v.booting⟩)).run c f = _
  rw [Program.run_bind_of_ok (Program.run_view f), Program.run_addStep, hb, hok]
  rfl

end Delivers

/-- The controller carries out the handlers of resource operations and of system properties; what
    its other handlers do is left open. -/
structure Controller.RunsModel (c : Controller X.withProperties) (cfg : PropertyConfig) : Prop where
  resource_eq : ∀ h op, c.handle (.resource h) op = h.program op
  property_eq : ∀ h op, c.handle (.property h) op = h.program cfg op

/-- How a change of a property reaches the process. -/
def Controller.effect (c : Controller X.withProperties) (cfg : PropertyConfig) (booting : Bool)
    (name : String) : LiveEffect :=
  cfg.effectFor c.processKind name booting

/-- The program of a built-in handler is its draft. -/
theorem run_program {cfg : PropertyConfig} (hc : c.RunsModel cfg) {booting : Bool}
    {h : ModelHandler X.Handler} (hh : h.IsBuiltIn) (op : Operation) :
    Delivers c booting (c.handle h op)
      (h.draft c.registry.resource? (c.effect cfg booting) op) := by
  cases h with
  | resource h =>
    rw [hc.resource_eq]
    cases h with
    | add =>
      apply Delivers.bind (Resource.carries_create op)
      intro _
      exact Delivers.nothing
    | remove =>
      apply Delivers.bind (Carries.removeAt op.address)
      intro _
      exact Delivers.nothing
    | writeAttribute =>
      apply Delivers.bind (Resource.carries_write op)
      intro _
      exact Delivers.nothing
    | readAttribute =>
      apply Delivers.bind (Carries.reading (Resource.run_readAttribute op))
      exact Delivers.result
    | readResource =>
      apply Delivers.bind (Carries.reading (Resource.run_readAll op))
      exact Delivers.result
    | readChildrenNames =>
      apply Delivers.bind (Carries.reading (Resource.run_readChildrenNames op))
      exact Delivers.result
  | property h =>
    rw [hc.property_eq]
    cases h with
    | add =>
      apply Delivers.bind (Resource.carries_create op)
      intro model
      apply Delivers.bind (Carries.answer (Program.run_ofExcept _))
      intro name
      exact Delivers.queueUpdate name model
    | remove =>
      apply Delivers.bind (Carries.removeAt op.address)
      intro _
      apply Delivers.bind (Carries.answer (Program.run_ofExcept _))
      intro name
      exact Delivers.queueUpdate name ∅
    | writeAttribute =>
      apply Delivers.bind (Resource.carries_write op)
      intro change
      -- only a write that changes the value leaves an update
      by_cases hc : change.name = propertyValueAttribute ∧ change.old ≠ change.new
      · simp only [if_pos hc]
        apply Delivers.bind (Carries.answer (Program.run_ofExcept _))
        intro name
        apply Delivers.bind (Carries.reading (Program.run_readAt op.address))
        intro model
        exact Delivers.queueUpdate name model
      · simp only [if_neg hc]
        exact Delivers.nothing
    | update name model action => exact absurd hh id
    | verify name => exact absurd hh id
    | applyParked => exact absurd hh id
  | custom code => exact absurd hh id

end Delivers

end ManagedModel
