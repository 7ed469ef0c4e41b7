import ManagedModel.Proofs.Conformity
import ManagedModel.Proofs.Hierarchy

/-! # Kinds of faults

    Built-in operations fail by their requests alone. Whatever a submission of
    them is answered with, no step broke a rule of the transaction, no pattern
    turned out to be malformed, and no rollback handler failed.

    * `Fault.IsOfRequest` are the kinds of fault that a request can give rise to.
      Validation has no others where all patterns are well formed
      (`AttributeSchema.Readable`), as they are in registries that were built.
    * A draft has no others either, where the address of the operation may be
      changed or the operation only reads (`ModelHandler.draft_failsByRequest`).
      This is so in transactions, if operations that write are not declared
      read-only (`ModelHandler.Truthful`).
    * What fails after MODEL is a value that has not been resolved
      (`Alignment.kind_of_settle_eq_error`). -/

namespace ManagedModel

/-! ### Faults of requests -/

/-- The fault is one of the request, and not one of the operation's handler. -/
def Fault.IsOfRequest (fault : Fault) : Prop :=
  fault.kind ∈ [.validation, .resolution, .duplicateResource, .resourceNotFound]

theorem Fault.isOfRequest_validation (cause : ValidationFault) :
    (Fault.validation cause).IsOfRequest := by
  show FaultKind.validation ∈ _
  decide

theorem Fault.isOfRequest_duplicateResource (a : Address) :
    (Fault.duplicateResource a).IsOfRequest := by
  show FaultKind.duplicateResource ∈ _
  decide

theorem Fault.isOfRequest_resourceNotFound (a : Address) :
    (Fault.resourceNotFound a).IsOfRequest := by
  show FaultKind.resourceNotFound ∈ _
  decide

theorem Fault.isOfRequest_of_resolution {fault : Fault} (h : fault.kind = .resolution) :
    fault.IsOfRequest := by
  unfold IsOfRequest
  rw [h]
  decide

/-- If there is no answer, then the request is to blame. -/
def FailsByRequest {α : Type} (r : Except Fault α) : Prop :=
  ∀ ⦃fault : Fault⦄, r = .error fault → fault.IsOfRequest

namespace FailsByRequest

variable {α β : Type}

theorem ok (a : α) : FailsByRequest (.ok a) := nofun

theorem error {fault : Fault} (h : fault.IsOfRequest) :
    FailsByRequest (.error fault : Except Fault α) := by
  rintro _ ⟨⟩
  exact h

theorem invalid (cause : ValidationFault) :
    FailsByRequest (.error (.validation cause) : Except Fault α) :=
  .error (Fault.isOfRequest_validation cause)

theorem notFound (a : Address) :
    FailsByRequest (.error (.resourceNotFound a) : Except Fault α) :=
  .error (Fault.isOfRequest_resourceNotFound a)

theorem bind {r : Except Fault α} {k : α → Except Fault β} (hr : FailsByRequest r)
    (hk : ∀ a, r = .ok a → FailsByRequest (k a)) : FailsByRequest (r >>= k) := by
  cases r with
  | error fault => exact .error (hr rfl)
  | ok a => exact hk a rfl

theorem map {r : Except Fault α} (hr : FailsByRequest r) (k : α → β) :
    FailsByRequest (r.map k) := by
  cases r with
  | error fault => exact .error (hr rfl)
  | ok a => exact .ok (k a)

end FailsByRequest

/-! ### Validation -/

namespace AttributeSchema

variable {d : AttributeSchema} {defs : List AttributeSchema}

/-- The match pattern is well formed, if there is one. -/
def Readable (d : AttributeSchema) : Prop :=
  ∀ source, d.pattern? = some source → ∃ isMatch, d.engine.compile source = .ok isMatch

theorem checkLiteral_failsByRequest (hd : d.Readable) (v : Value) :
    FailsByRequest (d.checkLiteral v) := by
  have hrange : FailsByRequest (d.checkRange v) := by
    unfold checkRange
    split
    · exact .ok ()
    · split
      · exact .invalid _
      · exact .ok ()
  have hallowed : FailsByRequest (d.checkAllowed v) := by
    unfold checkAllowed
    split
    · exact .ok ()
    · split
      · exact .ok ()
      · exact .invalid _
  have hlength : FailsByRequest (d.checkLength v) := by
    unfold checkLength
    split
    · exact .ok ()
    · split
      · exact .invalid _
      · exact .ok ()
  have hpattern : FailsByRequest (d.checkPattern v) := by
    unfold checkPattern
    split
    · -- the only fault that is not the request's would be a pattern that cannot be read
      rename_i source s hsource _
      obtain ⟨isMatch, hcompile⟩ := hd source hsource
      rw [hcompile]
      dsimp only
      split
      · exact .ok ()
      · exact .invalid _
    · exact .ok ()
  apply hrange.bind
  intro _ _
  apply hallowed.bind
  intro _ _
  apply hlength.bind
  intro _ _
  exact hpattern

theorem validate_failsByRequest (hd : d.Readable) (v? : Option Value) :
    FailsByRequest (d.validate v?) := by
  have hsupplied : FailsByRequest (d.supplied v?) := by
    unfold supplied
    split
    · exact .ok _
    · split
      · exact .ok _
      · split
        · exact .invalid _
        · split
          · exact .invalid _
          · exact .ok none
  have hnormalize : ∀ v, FailsByRequest (d.normalize v) := by
    intro v
    unfold normalize
    split
    · split <;> exact .ok _
    · split
      · exact .ok _
      · exact .invalid _
    · exact .ok _
  refine hsupplied.bind fun w? _ => ?_
  cases w? with
  | none => exact .ok _
  | some w =>
    refine (hnormalize w).bind fun v _ => ?_
    split
    · split
      · exact .ok v
      · exact (checkLiteral_failsByRequest hd v).bind fun _ _ => .ok v
    · exact .invalid _

theorem checkUnknown_failsByRequest (defs : List AttributeSchema) (params : Attributes) :
    FailsByRequest (checkUnknown defs params) := by
  unfold checkUnknown
  split
  · exact .invalid _
  · exact .ok ()

theorem validateAll_failsByRequest (hdefs : ∀ d ∈ defs, d.Readable) (params : Attributes) :
    FailsByRequest (validateAll defs params) := by
  have hinto : ∀ {rest : List AttributeSchema}, (∀ d ∈ rest, d.Readable) →
      ∀ validated, FailsByRequest (validateInto params rest validated) := by
    intro rest
    induction rest with
    | nil => exact fun _ validated => .ok validated
    | cons d rest ih =>
      intro hrest validated
      obtain ⟨hd, hrest⟩ := List.forall_mem_cons.1 hrest
      exact (validate_failsByRequest hd _).bind fun v _ => ih hrest _
  exact (checkUnknown_failsByRequest defs params).bind fun _ _ => hinto hdefs ∅

theorem checkRequest_failsByRequest (defs : List AttributeSchema) (params : Attributes) :
    FailsByRequest (checkRequest defs params) := by
  refine (checkUnknown_failsByRequest defs params).bind fun _ _ => ?_
  split
  · exact .invalid _
  · exact .ok ()

end AttributeSchema

namespace Registry

variable {H : Type} {r : Registry H}

theorem readable_of_checkPatterns {defs : List AttributeSchema} (h : checkPatterns defs = .ok ()) :
    ∀ d ∈ defs, d.Readable := by
  induction defs with
  | nil => exact fun _ hnone => (nomatch hnone)
  | cons d defs ih =>
    unfold checkPatterns at h
    refine List.forall_mem_cons.2 ⟨fun source hsource => ?_, ?_⟩
    · rw [hsource] at h
      dsimp only at h
      split at h
      · rename_i isMatch hcompile
        exact ⟨isMatch, hcompile⟩
      · cases h
    · split at h
      · exact ih h
      · split at h
        · exact ih h
        · cases h

/-- The patterns of attributes were read when their resource type was added. -/
theorem Built.readable (h : r.Built) :
    ∀ t ∈ r.resources, ∀ d ∈ t.schema.attributes, d.Readable := by
  induction h with
  | empty => exact fun _ hnone => (nomatch hnone)
  | addGlobal before h ih =>
    rw [(addGlobal_eq_ok h).1]
    exact ih
  | addResource before h ih =>
    obtain ⟨-, hpatterns, operations, -, rfl⟩ := addResource_eq_ok h
    intro t ht
    rcases List.mem_append.1 ht with ht | ht
    · exact ih t ht
    · cases List.mem_singleton.1 ht
      exact readable_of_checkPatterns hpatterns

theorem Built.readable_of_resource? (h : r.Built) {a : Address} {schema : ResourceSchema}
    (hschema : r.resource? a = some schema) : ∀ d ∈ schema.attributes, d.Readable := by
  obtain ⟨t, ht, rfl⟩ := Option.map_eq_some_iff.1 hschema
  exact h.readable t (resourceType?_mem ht).1

/-- What is offered has been added. -/
theorem BuiltFrom.offered {P : OperationSchema → H → Prop} (h : r.BuiltFrom P) {a : Address}
    {name : String} {entry : RegisteredOperation H} (hentry : r.operation? a name = some entry) :
    P entry.schema entry.handler := by
  have hall : (∀ name entry, r.globals.get? name = some entry → P entry.schema entry.handler) ∧
      ∀ t ∈ r.resources, ∀ name entry, t.operations.get? name = some entry →
        P entry.schema entry.handler := by
    clear hentry
    induction h with
    | empty => exact ⟨fun _ _ hnone => (nomatch hnone), fun _ hnone => (nomatch hnone)⟩
    | addGlobal before own h ih =>
      obtain ⟨hresources, hglobals⟩ := addGlobal_eq_ok h
      rw [hresources, hglobals]
      exact ⟨SortedMap.forall_insert ih.1 own, ih.2⟩
    | addResource before own h ih =>
      obtain ⟨-, -, operations, hops, rfl⟩ := addResource_eq_ok h
      refine ⟨ih.1, List.forall_mem_append.2 ⟨ih.2, List.forall_mem_singleton.2 ?_⟩⟩
      intro name entry hentry
      rcases addOperations_eq_ok hops hentry with hnone | ⟨hmem, -⟩
      · cases hnone
      · exact own _ hmem
  rcases operation?_eq_some hentry with ⟨t, ht, hown⟩ | hglobal
  · exact hall.2 t (resourceType?_mem ht).1 name entry hown
  · exact hall.1 name entry hglobal

end Registry

/-! ### Drafts -/

namespace Drafting

variable {α β : Type} {w : WorkingCopy}

theorem bind_failsByRequest {m : Drafting α} {k : α → Drafting β} (hm : FailsByRequest (m w))
    (hk : ∀ a v, m w = .ok (a, v) → FailsByRequest (k a v)) : FailsByRequest (m.bind k w) := by
  unfold Drafting.bind
  cases h : m w with
  | error fault => exact .error (hm h)
  | ok p => exact hk p.1 p.2 h

theorem answer_failsByRequest {r : Except Fault α} (hr : FailsByRequest r) :
    FailsByRequest (answer r w) :=
  hr.map _

/-- An answer leaves the working copy alone, so that the rest starts from the same one. -/
theorem answer_bind_failsByRequest {r : Except Fault α} {k : α → Drafting β} (hr : FailsByRequest r)
    (hk : ∀ a, r = .ok a → FailsByRequest (k a w)) : FailsByRequest ((answer r).bind k w) := by
  refine bind_failsByRequest (answer_failsByRequest hr) fun a v h => ?_
  obtain ⟨ha, rfl⟩ := answer_eq_ok.1 h
  exact hk a ha

end Drafting

namespace Tree

variable {t : Tree} {a : Address}

theorem require_failsByRequest : FailsByRequest (t.require a) := by
  unfold require
  split
  · exact .ok _
  · exact .notFound a

theorem create_failsByRequest : FailsByRequest (t.create a) := by
  unfold create
  split
  · exact .error (Fault.isOfRequest_duplicateResource a)
  · split
    · split
      · exact .ok _
      · exact .notFound _
    · exact .ok _

theorem remove_failsByRequest : FailsByRequest (t.remove a) := by
  unfold remove
  split
  · exact .invalid _
  · split
    · exact .notFound a
    · split
      · exact .ok _
      · exact .invalid _

end Tree

namespace WorkingCopy

variable {w : WorkingCopy} {a : Address} (hw : w.inScope a = true)

include hw

theorem requireScope_failsByRequest : FailsByRequest (w.requireScope a) := by
  rw [requireScope_eq_ok.2 hw]
  exact .ok ()

theorem create_failsByRequest : FailsByRequest (w.create a) := by
  apply (requireScope_failsByRequest hw).bind
  intro _ hscope
  apply Tree.create_failsByRequest.bind
  intro t ht
  exact .ok (w.changed a t)

theorem edit_failsByRequest (f : Attributes → Attributes) : FailsByRequest (w.edit a f) := by
  have hedit : FailsByRequest (w.tree.edit a f) := by
    apply Tree.require_failsByRequest.bind
    intro before hbefore
    exact .ok _
  apply (requireScope_failsByRequest hw).bind
  intro _ hscope
  apply Tree.require_failsByRequest.bind
  intro old hold
  apply hedit.bind
  intro t ht
  exact .ok (old, w.changed a t)

theorem remove_failsByRequest : FailsByRequest (w.remove a) := by
  apply (requireScope_failsByRequest hw).bind
  intro _ hscope
  apply Tree.remove_failsByRequest.bind
  intro (attributes, t) ht
  exact .ok (attributes, w.changed a t)

end WorkingCopy

section

variable {schema? : Address → Option ResourceSchema} {op : Operation} {w : WorkingCopy} {t : Tree}

namespace Resource

theorem namedAttribute_failsByRequest : FailsByRequest (namedAttribute op) := by
  unfold namedAttribute
  split
  · exact .ok _
  · exact .invalid _

theorem schemaAt_failsByRequest {a : Address} : FailsByRequest (schemaAt schema? a) := by
  unfold schemaAt
  split
  · exact .ok _
  · exact .invalid _

theorem attributeSchemaAt_failsByRequest {a : Address} {name : String} :
    FailsByRequest (attributeSchemaAt schema? a name) := by
  apply schemaAt_failsByRequest.bind
  intro schema hschema
  split
  · exact .ok _
  · exact .invalid _

theorem readAttributeIn_failsByRequest : FailsByRequest (readAttributeIn schema? op t) := by
  apply namedAttribute_failsByRequest.bind
  intro name hname
  apply attributeSchemaAt_failsByRequest.bind
  intro d hd
  apply Tree.require_failsByRequest.bind
  intro attributes hattributes
  exact .ok _

theorem readAllIn_failsByRequest : FailsByRequest (readAllIn schema? op t) := by
  apply Tree.require_failsByRequest.bind
  intro attributes hattributes
  exact .ok _

theorem readChildrenNamesIn_failsByRequest : FailsByRequest (readChildrenNamesIn op t) := by
  unfold readChildrenNamesIn
  split
  · exact .invalid _
  · apply Tree.require_failsByRequest.bind
    intro attributes hattributes
    exact .ok _

variable (hreadable : ∀ {a : Address} {schema : ResourceSchema}, schema? a = some schema →
  ∀ d ∈ schema.attributes, d.Readable) (hw : w.inScope op.address = true)

include hreadable hw

theorem createDraft_failsByRequest : FailsByRequest (createDraft schema? op w) := by
  refine Drafting.answer_bind_failsByRequest schemaAt_failsByRequest fun schema hschema => ?_
  refine Drafting.bind_failsByRequest ((WorkingCopy.create_failsByRequest hw).map _) ?_
  intro u v h
  -- the scope is the same after the resource was added
  obtain ⟨v', hcreate, hv⟩ := map_eq_ok.1 h
  cases hv
  obtain ⟨-, t, -, rfl⟩ := WorkingCopy.create_eq_ok.1 hcreate
  have hv : (w.changed op.address t).inScope op.address = true := hw
  have hdefs := hreadable (schemaAt_eq_ok.1 hschema)
  have hvalid := AttributeSchema.validateAll_failsByRequest hdefs op.params
  apply Drafting.answer_bind_failsByRequest hvalid
  intro attributes _
  apply Drafting.bind_failsByRequest (WorkingCopy.edit_failsByRequest hv _)
  intro before v' _
  exact Drafting.answer_failsByRequest (.ok attributes)

theorem writeDraft_failsByRequest : FailsByRequest (writeDraft schema? op w) := by
  apply Drafting.answer_bind_failsByRequest namedAttribute_failsByRequest
  intro name _
  apply Drafting.answer_bind_failsByRequest attributeSchemaAt_failsByRequest
  intro d hd
  obtain ⟨schema, hschema, hattribute⟩ := attributeSchemaAt_eq_ok.1 hd
  have hd : d.Readable := hreadable hschema d (List.mem_of_find?_eq_some hattribute)
  apply Drafting.answer_bind_failsByRequest (AttributeSchema.validate_failsByRequest hd _)
  intro new _
  apply Drafting.bind_failsByRequest (WorkingCopy.edit_failsByRequest hw _)
  intro before v _
  exact Drafting.answer_failsByRequest (.ok _)

end Resource

namespace Property

theorem nameOf_failsByRequest : FailsByRequest (nameOf op) := by
  unfold nameOf
  split
  · exact .ok _
  · exact .invalid _

end Property

namespace ModelHandler

variable {C : Type} {effect : String → LiveEffect}

/-- Reading fails by its request wherever it is done. -/
theorem draft_failsByRequest_of_isRead {h : ResourceHandler} (hread : h.IsRead) :
    FailsByRequest ((resource h : ModelHandler C).draft schema? effect op w) := by
  have hlast : ∀ {read : Tree → Except Fault Value}, FailsByRequest (read w.tree) →
      FailsByRequest ((Drafting.reading read).bind
        (fun v => .answer (.ok { result? := some v : Delivery })) w) := by
    intro read hr
    apply Drafting.bind_failsByRequest (Drafting.answer_failsByRequest hr)
    intro v w' _
    exact Drafting.answer_failsByRequest (.ok _)
  -- the operations that write do not count as reading
  cases h with
  | add => exact absurd hread id
  | remove => exact absurd hread id
  | writeAttribute => exact absurd hread id
  | readAttribute => exact hlast Resource.readAttributeIn_failsByRequest
  | readResource => exact hlast Resource.readAllIn_failsByRequest
  | readChildrenNames => exact hlast Resource.readChildrenNamesIn_failsByRequest

/-- The other operations fail by their requests where their address may be changed. -/
theorem draft_failsByRequest (hreadable : ∀ {a : Address} {schema : ResourceSchema},
      schema? a = some schema → ∀ d ∈ schema.attributes, d.Readable)
    (hw : w.inScope op.address = true) (h : ModelHandler C) :
    FailsByRequest (h.draft schema? effect op w) := by
  have hcreate : FailsByRequest (Resource.createDraft schema? op w) :=
    Resource.createDraft_failsByRequest hreadable hw
  have hremove : FailsByRequest (w.remove op.address) := WorkingCopy.remove_failsByRequest hw
  have hwrite : FailsByRequest (Resource.writeDraft schema? op w) :=
    Resource.writeDraft_failsByRequest hreadable hw
  have hdone : ∀ {d : Delivery} {v : WorkingCopy}, FailsByRequest (Drafting.answer (.ok d) v) := by
    intro d v
    exact Drafting.answer_failsByRequest (.ok d)
  cases h with
  | resource h =>
    cases h with
    | add =>
      apply Drafting.bind_failsByRequest hcreate
      intro attributes v _
      exact hdone
    | remove =>
      apply Drafting.bind_failsByRequest (m := fun w => w.remove op.address) hremove
      intro attributes v _
      exact hdone
    | writeAttribute =>
      apply Drafting.bind_failsByRequest hwrite
      intro change v _
      exact hdone
    | readAttribute => exact draft_failsByRequest_of_isRead trivial
    | readResource => exact draft_failsByRequest_of_isRead trivial
    | readChildrenNames => exact draft_failsByRequest_of_isRead trivial
  | property h =>
    cases h with
    | add =>
      apply Drafting.bind_failsByRequest hcreate
      intro model v _
      apply Drafting.answer_bind_failsByRequest Property.nameOf_failsByRequest
      intro name _
      exact hdone
    | remove =>
      apply Drafting.bind_failsByRequest (m := fun w => w.remove op.address) hremove
      intro attributes v _
      apply Drafting.answer_bind_failsByRequest Property.nameOf_failsByRequest
      intro name _
      exact hdone
    | writeAttribute =>
      apply Drafting.bind_failsByRequest hwrite
      intro change v _
      split
      · apply Drafting.answer_bind_failsByRequest Property.nameOf_failsByRequest
        intro name _
        apply Drafting.bind_failsByRequest
          (Drafting.answer_failsByRequest Tree.require_failsByRequest)
        intro model v' _
        exact hdone
      · exact hdone
    | update name model action => exact hdone
    | verify name => exact hdone
    | applyParked => exact hdone
  | custom code => exact hdone

/-- The handler carries out an operation on resources or system properties, and is not declared
    read-only unless it is. -/
def Truthful (schema : OperationSchema) (h : ModelHandler C) : Prop :=
  h.IsBuiltIn ∧ (schema.isReadOnly = true → ∃ r, h = resource r ∧ r.IsRead)

/-- What the library registers is declared as what it is. -/
theorem OwnSchema.truthful {schema : OperationSchema} {h : ModelHandler C}
    (hown : h.OwnSchema schema) : Truthful schema h := by
  cases hown with
  | add attributes => exact ⟨trivial, fun hfalse => (nomatch hfalse)⟩
  | remove => exact ⟨trivial, fun hfalse => (nomatch hfalse)⟩
  | writeAttribute => exact ⟨trivial, fun hfalse => (nomatch hfalse)⟩
  | readAttribute => exact ⟨trivial, fun _ => ⟨_, rfl, trivial⟩⟩
  | readResource => exact ⟨trivial, fun _ => ⟨_, rfl, trivial⟩⟩
  | readChildrenNames => exact ⟨trivial, fun _ => ⟨_, rfl, trivial⟩⟩
  | addProperty attributes => exact ⟨trivial, fun hfalse => (nomatch hfalse)⟩
  | removeProperty => exact ⟨trivial, fun hfalse => (nomatch hfalse)⟩
  | writeProperty => exact ⟨trivial, fun hfalse => (nomatch hfalse)⟩

end ModelHandler

namespace Draft

variable {C : Type} {effect : String → LiveEffect} {d : Draft}

/-- A sequence of operations fails by its requests, if each reads or its address may be changed. -/
theorem run_failsByRequest (hreadable : ∀ {a : Address} {schema : ResourceSchema},
      schema? a = some schema → ∀ d ∈ schema.attributes, d.Readable)
    {tasks : List (Operation × ModelHandler C)}
    (htasks : ∀ task ∈ tasks, (∃ h, task.2 = .resource h ∧ h.IsRead) ∨
      d.working.inScope task.1.address = true) :
    FailsByRequest (run schema? effect tasks d) := by
  induction tasks generalizing d with
  | nil => exact .ok d
  | cons task tasks ih =>
    obtain ⟨hfirst, hrest⟩ := List.forall_mem_cons.1 htasks
    have hstep : FailsByRequest (step schema? effect d task) := by
      have hdraft : FailsByRequest (task.2.draft schema? effect task.1 d.working) := by
        rcases hfirst with ⟨h, hread, his⟩ | hscope
        · rw [hread]
          exact ModelHandler.draft_failsByRequest_of_isRead his
        · exact ModelHandler.draft_failsByRequest hreadable hscope task.2
      unfold step
      split
      · exact .ok _
      · rename_i fault hfault
        exact .error (hdraft hfault)
    refine hstep.bind fun d' h => ih fun task' htask' => ?_
    -- what may be changed stays the same
    unfold WorkingCopy.inScope at hrest ⊢
    rw [step_scope h]
    exact hrest task' htask'

end Draft

end

/-! ### RUNTIME and VERIFY -/

namespace ParkedValues

/-- The pass over parked values fails with the fault that one of them gives. -/
theorem applyNamed_eq_error {cfg : PropertyConfig} {names : List String} {p : ParkedValues}
    {live : LiveProperties} {fault : Fault} (h : (p.applyNamed cfg names live).1 = .error fault) :
    ∃ live' model, intendedValue live' model = .error fault := by
  -- the cases: no name is left, nothing is parked for it, its value does not resolve, or it does
  fun_induction applyNamed cfg names p live with
  | case1 => cases h
  | case2 _ _ _ _ _ ih => exact ih h
  | case3 live' _ _ _ v _ fault' hfault =>
    cases h
    exact ⟨_, _, hfault⟩
  | case4 _ _ _ _ _ _ _ _ ih => exact ih h

end ParkedValues

namespace Alignment

variable {cfg : PropertyConfig} {booting : Bool} {m m' : Alignment}

/-- Every parked value bears the fault that it gave when it was tried. -/
def Tried (m : Alignment) : Prop :=
  ∀ ⦃name : String⦄ ⦃v : ParkedValue⦄, m.parkedAt name = some v →
    ∃ live, intendedValue live v.model = .error v.fault

/-- Applying parked values parks none, and leaves those that stay parked as they are. -/
theorem keptWhenApplied_tried : KeptWhenApplied fun v? _ => ∀ ⦃v : ParkedValue⦄, v? = some v →
    ∃ live, intendedValue live v.model = .error v.fault :=
  fun _ _ _ _ _ _ _ hnone => (nomatch hnone)

theorem Tried.update (h : m.Tried) (u : PendingUpdate) : (m.update cfg booting u).Tried := by
  intro name
  by_cases hname : name = u.name
  · subst hname
    by_cases heffect : u.effect = .apply
    · refine update_keeps_at_self keptWhenApplied_tried heffect (fun _ => nofun) ?_
      rintro fault hfault _ ⟨⟩
      exact ⟨m.live, hfault⟩
    · rw [parkedAt_update_of_ne_apply heffect]
      exact @h u.name
  · exact update_keeps_at_of_ne keptWhenApplied_tried hname (@h name)

theorem Tried.updateAll (h : m.Tried) (us : List PendingUpdate) :
    (m.updateAll cfg booting us).Tried := by
  induction us generalizing m with
  | nil => exact h
  | cons u us ih => exact ih (h.update u)

/-- What follows the updates fails because of a value that has not been resolved. -/
theorem kind_of_settle_eq_error (hm : m.Tried) {fault : Fault}
    (h : m.settle cfg = (.error fault, m')) : fault.kind = .resolution := by
  have hpass : (m.pass cfg).2.Tried := fun name =>
    pass_keeps_at keptWhenApplied_tried (@hm name)
  unfold settle at h
  split at h
  · rename_i m₁ heq
    rw [heq] at hpass
    obtain ⟨hverify, -⟩ := Prod.mk.inj h
    obtain ⟨-, name, -, v, -, -, hv, rfl⟩ := verify_eq_error.1 hverify
    obtain ⟨live, htried⟩ := hpass hv
    exact kind_of_intendedValue_eq_error htried
  · rename_i fault' m₁ heq
    cases h
    -- the strict pass fails where one of the values does not resolve
    have hstrict : (m.pass cfg).1 = .error fault := by rw [heq]
    unfold pass at hstrict
    split at hstrict
    · cases hstrict
    · split at hstrict
      · obtain ⟨live, model, htried⟩ := ParkedValues.applyNamed_eq_error hstrict
        exact kind_of_intendedValue_eq_error htried
      · cases hstrict

end Alignment

/-! ### Submissions -/

namespace Controller

section

variable {S : Signature} {c : Controller S}

theorem accept_failsByRequest (c : Controller S) (booting : Bool) (op : Operation) :
    FailsByRequest (c.accept booting op) := by
  unfold accept
  split
  · exact .invalid _
  · split
    · exact .invalid _
    · apply (AttributeSchema.checkRequest_failsByRequest _ _).bind
      intro _ _
      exact .ok _

theorem acceptAll_failsByRequest (c : Controller S) (booting : Bool) (ops : List Operation) :
    FailsByRequest (c.acceptAll booting ops) := by
  induction ops with
  | nil => exact .ok []
  | cons op ops ih =>
    apply (c.accept_failsByRequest booting op).bind
    intro entry _
    apply ih.bind
    intro rest _
    exact .ok _

end

variable {X : Signature} {c : Controller X.withProperties} {cfg : PropertyConfig} {booting : Bool}
  {accepted : List (Operation × RegisteredOperation (ModelHandler X.Handler))}
  {s s' : ControllerState X.withProperties}

/-- The course of a transaction fails by its requests, and nothing fails while it is unwound. -/
theorem failsByRequest_of_course (hr : c.registry.Built)
    (haccepted : ∀ a ∈ accepted, ModelHandler.Truthful a.2.schema a.2.handler) {failure : Failure}
    (h : (c.course cfg booting accepted s).1 = .error failure) :
    failure.cause.IsOfRequest ∧ failure.rollbackFaults = [] := by
  have hdraft : FailsByRequest ((draftOf accepted s).run c.registry.resource?
      (c.effect cfg booting) (tasksOf accepted)) := by
    refine Draft.run_failsByRequest hr.readable_of_resource? ?_
    rintro _ htask
    obtain ⟨a, ha, rfl⟩ := List.mem_map.1 htask
    by_cases hread : a.2.schema.isReadOnly = true
    · exact .inl ((haccepted a ha).2 hread)
    · -- the scope was collected from the addresses of these operations
      have hmem : a.1.address ∈ writeScope (S := X.withProperties) accepted :=
        mem_writeScope.2 ⟨a, ha, Bool.eq_false_iff.2 hread, rfl⟩
      exact .inr (List.any_eq_true.2 ⟨_, hmem, Address.isUnder_refl _⟩)
  cases hd : (draftOf accepted s).run c.registry.resource? (c.effect cfg booting)
      (tasksOf accepted) with
  | error cause =>
    rw [course_of_draft_error hd] at h
    cases h
    exact ⟨hdraft hd, rfl⟩
  | ok d =>
    rcases hs : (({ live := s.environment.live } : Alignment).updateAll cfg booting
      d.updates).settle cfg with ⟨outcome, m⟩
    cases outcome with
    | error cause =>
      rw [course_of_settle_error hd hs] at h
      cases h
      have htried : ({ live := s.environment.live } : Alignment).Tried :=
        fun _ _ hnone => (nomatch hnone)
      exact ⟨Fault.isOfRequest_of_resolution
        (Alignment.kind_of_settle_eq_error (htried.updateAll d.updates) hs), rfl⟩
    | ok u =>
      rw [course_of_settle_ok hd hs] at h
      cases h

/-- Built-in operations fail by their requests alone. Whatever registry was built from operations
    on resources and system properties, each declared read-only only if it is: where a submission
    fails, its cause is an invalid request, a value that cannot be resolved, a resource that is
    there already or one that is not, and every rollback handler has gone through. -/
theorem fails_by_request (hr : c.registry.BuiltFrom ModelHandler.Truthful) (hc : c.RunsModel cfg)
    (hs : s.Tidy) {sub : Submission} {failure : Failure}
    (h : c.perform sub s = .ok (.error failure, s')) :
    failure.kind ∈ [.validation, .resolution, .duplicateResource, .resourceNotFound] ∧
      failure.rollbackFaults = [] := by
  have hops : ∀ op ∈ sub.operations, c.IsBuiltIn op := fun op _ entry hentry =>
    (hr.offered hentry).1
  obtain ⟨r, s₁, hsubmit, houtcome, -⟩ := perform_eq_ok.1 h
  rcases settles_of_submit hc hs hops hsubmit with ⟨-, rfl, -⟩ | ⟨cause, hacc, rfl, -⟩ |
    ⟨accepted, hacc, -, hsettles⟩
  · cases houtcome
  · cases houtcome
    exact ⟨c.acceptAll_failsByRequest _ _ hacc, rfl⟩
  · cases r with
    | ok p => cases houtcome
    | error failure' =>
      cases houtcome
      refine failsByRequest_of_course hr.built (fun a ha => ?_) hsettles.course_eq_error
      exact hr.offered (operation?_of_acceptAll hacc a ha)

end Controller

/-- A model with pools, which can be given another label by an operation of their own. -/
def ModelSpec.pools : ModelSpec Empty where
  resources :=
    [{ pattern := ⟨[.wildcard "pool"]⟩
       attributes := [(AttributeSchema.new "label" .string).withPattern "^[a-z]+$"]
       operations :=
        [({ name := "relabel", parameters := Resource.writeAttributeSchema.parameters },
          .resource .writeAttribute)] }]

/-- The controller of that model, where live properties may change. -/
def Controller.pooling : Controller Signature.bare.withProperties where
  registry := ModelSpec.pools.registry.toOption.getD {}
  handle := ModelHandler.program { updater? := some {} } fun code => code.elim
  interlude := fun code => code.elim
  stepLimit := 10

namespace Controller

theorem builtFrom_pooling : pooling.registry.BuiltFrom ModelHandler.Truthful := by
  show (ModelSpec.pools.registry.toOption.getD {}).BuiltFrom _
  cases h : ModelSpec.pools.registry with
  | error fault => exact .empty
  | ok r =>
    refine ModelSpec.builtFrom (fun hown => hown.truthful)
      (fun _ hnone => absurd hnone List.not_mem_nil) ?_ h
    refine List.forall_mem_singleton.2 (List.forall_mem_singleton.2 ?_)
    exact ⟨trivial, fun hfalse => (nomatch hfalse)⟩

/-- A property that refers to one that is not there makes a submission fail that has added and
    relabelled a pool and set another property, and the live properties are as before. -/
theorem fails_by_request_pooling :
    ∃ failure s', pooling.perform (.executeAll
        [({ name := "add", address := ⟨[⟨"pool", "a"⟩]⟩ } : Operation).withParam "label"
            (.string "old"),
          (({ name := "relabel", address := ⟨[⟨"pool", "a"⟩]⟩ } : Operation).withParam "name"
            (.string "label")).withParam "value" (.string "new"),
          Property.addRequest "p" (some "v") none,
          Property.addRequest "q" (some "$\x7bx\x7d") none]) .bare = .ok (.error failure, s') ∧
      failure.kind = .resolution ∧ s'.environment.live.get? "p" = none ∧
      failure.kind ∈ [.validation, .resolution, .duplicateResource, .resourceNotFound] ∧
      failure.rollbackFaults = [] := by
  let ops : List Operation :=
    [({ name := "add", address := ⟨[⟨"pool", "a"⟩]⟩ } : Operation).withParam "label"
        (.string "old"),
      (({ name := "relabel", address := ⟨[⟨"pool", "a"⟩]⟩ } : Operation).withParam "name"
        (.string "label")).withParam "value" (.string "new"),
      Property.addRequest "p" (some "v") none,
      Property.addRequest "q" (some "$\x7bx\x7d") none]
  have hrun : pooling.answers (.executeAll ops) .bare (fun outcome s' => match outcome with
      | .error failure => decide (failure.kind = .resolution) &&
          decide (s'.environment.live.get? "p" = none)
      | .ok _ => false) = true := by
    decide +kernel
  obtain ⟨outcome, s', h, htest⟩ := exists_of_answers hrun
  cases outcome with
  | ok response => cases htest
  | error failure =>
    obtain ⟨hkind, hlive⟩ := Bool.and_eq_true_iff.1 htest
    have hc : pooling.RunsModel { updater? := some {} } := ⟨fun _ _ => rfl, fun _ _ => rfl⟩
    exact ⟨failure, s', h, of_decide_eq_true hkind, of_decide_eq_true hlive,
      fails_by_request builtFrom_pooling hc ControllerState.tidy_bare h⟩

end Controller

end ManagedModel
