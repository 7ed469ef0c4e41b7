import ManagedModel.Proofs.Coherence
import ManagedModel.Proofs.Confinement
import ManagedModel.Proofs.Validation

/-! # Conformity of what is stored

    In a model that is changed by the built-in operations alone, whatever is
    stored conforms to the schema that governs it.

    * A registry that was built from additions gives the attributes of every
      resource type distinct names (`Registry.Built`).
    * The draft of a built-in operation keeps a tree conforming
      (`ModelHandler.draft_conforms`), so that a step of its handler does, too.
      All other handlers leave the model as it is (`Program.SparesModel`).
    * Thus the working copy conforms along a transaction
      (`InFlight.conforms_of_granted`), and the committed tree along a run. -/

namespace ManagedModel

/-! ### Registries -/

namespace Registry

section

variable {H : Type} {r r' : Registry H}

theorem nodup_of_repeated? {seen names : List String} (h : repeated? seen names = none) :
    names.Nodup ∧ ∀ name ∈ names, name ∉ seen := by
  induction names generalizing seen with
  | nil => exact ⟨List.nodup_nil, nofun⟩
  | cons first names ih =>
    unfold repeated? at h
    split at h
    · cases h
    · rename_i hfirst
      obtain ⟨hnodup, hfresh⟩ := ih h
      refine ⟨List.nodup_cons.2 ⟨fun hmem => hfresh first hmem List.mem_cons_self, hnodup⟩, ?_⟩
      intro name hname
      rcases List.mem_cons.1 hname with rfl | hname
      · simpa using hfirst
      · exact fun hseen => hfresh name hname (List.mem_cons_of_mem _ hseen)

/-- The registry is what additions made of the empty one. -/
inductive Built : Registry H → Prop where
  | empty : Built {}
  | addGlobal {r r' : Registry H} {schema : OperationSchema} {handler : H} (before : Built r)
      (h : r.addGlobal schema handler = .ok r') : Built r'
  | addResource {r r' : Registry H} {pattern : Address} {attributes : List AttributeSchema}
      {ops : List (OperationSchema × H)} (before : Built r)
      (h : r.addResource pattern attributes ops = .ok r') : Built r'

/-- The attributes of one resource type have distinct names. -/
theorem Built.nodup (h : r.Built) :
    ∀ t ∈ r.resources, (t.schema.attributes.map (·.name)).Nodup := by
  induction h with
  | empty => exact nofun
  | addGlobal before h ih =>
    rw [(addGlobal_eq_ok h).1]
    exact ih
  | addResource before h ih =>
    obtain ⟨hnames, -, operations, -, rfl⟩ := addResource_eq_ok h
    intro t ht
    rcases List.mem_append.1 ht with ht | ht
    · exact ih t ht
    · cases List.mem_singleton.1 ht
      exact (nodup_of_repeated? hnames).1

theorem Built.nodup_of_resource? (h : r.Built) {a : Address} {schema : ResourceSchema}
    (hschema : r.resource? a = some schema) : (schema.attributes.map (·.name)).Nodup := by
  obtain ⟨t, ht, rfl⟩ := Option.map_eq_some_iff.1 hschema
  exact h.nodup t (resourceType?_mem ht).1

/-- The registry is what additions made of the empty one, and every operation that was added has
    the property together with its handler. -/
inductive BuiltFrom (P : OperationSchema → H → Prop) : Registry H → Prop where
  | empty : BuiltFrom P {}
  | addGlobal {r r' : Registry H} {schema : OperationSchema} {handler : H}
      (before : BuiltFrom P r) (own : P schema handler)
      (h : r.addGlobal schema handler = .ok r') : BuiltFrom P r'
  | addResource {r r' : Registry H} {pattern : Address} {attributes : List AttributeSchema}
      {ops : List (OperationSchema × H)} (before : BuiltFrom P r) (own : ∀ o ∈ ops, P o.1 o.2)
      (h : r.addResource pattern attributes ops = .ok r') : BuiltFrom P r'

theorem BuiltFrom.built {P : OperationSchema → H → Prop} (h : r.BuiltFrom P) : r.Built := by
  induction h with
  | empty => exact .empty
  | addGlobal before own h ih => exact ih.addGlobal h
  | addResource before own h ih => exact ih.addResource h

end

end Registry

/-- The schemas that the handlers of resource operations and of system properties are registered
    with. -/
inductive ModelHandler.OwnSchema {C : Type} : OperationSchema → ModelHandler C → Prop where
  | add (attributes : List AttributeSchema) :
      OwnSchema (Resource.addSchema attributes) (.resource .add)
  | remove : OwnSchema Resource.removeSchema (.resource .remove)
  | writeAttribute : OwnSchema Resource.writeAttributeSchema (.resource .writeAttribute)
  | readAttribute : OwnSchema Resource.readAttributeSchema (.resource .readAttribute)
  | readResource : OwnSchema Resource.readResourceSchema (.resource .readResource)
  | readChildrenNames : OwnSchema Resource.readChildrenNamesSchema (.resource .readChildrenNames)
  | addProperty (attributes : List AttributeSchema) :
      OwnSchema (Resource.addSchema attributes) (.property .add)
  | removeProperty : OwnSchema Resource.removeSchema (.property .remove)
  | writeProperty : OwnSchema Resource.writeAttributeSchema (.property .writeAttribute)

namespace ModelSpec

variable {C : Type} {P : OperationSchema → ModelHandler C → Prop}

theorem builtFrom_addGlobals {r r' : Registry (ModelHandler C)} (hr : r.BuiltFrom P)
    {globals : List (OperationSchema × ModelHandler C)} (hP : ∀ o ∈ globals, P o.1 o.2)
    (h : addGlobals r globals = .ok r') : r'.BuiltFrom P := by
  induction globals generalizing r with
  | nil =>
    cases h
    exact hr
  | cons first globals ih =>
    obtain ⟨r₁, h₁, h⟩ := bind_eq_ok.1 h
    obtain ⟨hfirst, hrest⟩ := List.forall_mem_cons.1 hP
    exact ih (hr.addGlobal hfirst h₁) hrest h

section

variable (hown : ∀ {schema : OperationSchema} {h : ModelHandler C}, h.OwnSchema schema → P schema h)

include hown

theorem builtFrom_addResources {r r' : Registry (ModelHandler C)} (hr : r.BuiltFrom P)
    {specs : List (ResourceSpec (ModelHandler C))}
    (hP : ∀ t ∈ specs, ∀ o ∈ t.operations, P o.1 o.2) (h : addResources r specs = .ok r') :
    r'.BuiltFrom P := by
  induction specs generalizing r with
  | nil =>
    cases h
    exact hr
  | cons first specs ih =>
    obtain ⟨r₁, h₁, h⟩ := bind_eq_ok.1 h
    obtain ⟨hfirst, hrest⟩ := List.forall_mem_cons.1 hP
    refine ih (hr.addResource ?_ h₁) hrest h
    -- the operation that creates such a resource comes before those of the description
    refine List.forall_mem_append.2 ⟨?_, hfirst⟩
    split
    · exact List.forall_mem_singleton.2 (hown (.add first.attributes))
    · exact fun _ hnone => (nomatch hnone)

theorem builtFrom_registerGlobals {r r' : Registry (ModelHandler C)} (hr : r.BuiltFrom P)
    (h : ResourceHandler.registerGlobals .resource r = .ok r') : r'.BuiltFrom P := by
  obtain ⟨r₁, h₁, h⟩ := bind_eq_ok.1 h
  obtain ⟨r₂, h₂, h⟩ := bind_eq_ok.1 h
  obtain ⟨r₃, h₃, h⟩ := bind_eq_ok.1 h
  obtain ⟨r₄, h₄, h⟩ := bind_eq_ok.1 h
  have hr₂ : r₂.BuiltFrom P := (hr.addGlobal (hown .readResource) h₁).addGlobal
    (hown .readAttribute) h₂
  have hr₄ : r₄.BuiltFrom P := (hr₂.addGlobal (hown .readChildrenNames) h₃).addGlobal
    (hown .writeAttribute) h₄
  exact hr₄.addGlobal (hown .remove) h

theorem builtFrom_register {cfg : PropertyConfig} {r r' : Registry (ModelHandler C)}
    (hr : r.BuiltFrom P) (h : PropertyHandler.register .property cfg r = .ok r') :
    r'.BuiltFrom P := by
  refine hr.addResource ?_ h
  refine List.forall_mem_cons.2 ⟨hown (.addProperty _), List.forall_mem_cons.2 ⟨?_, ?_⟩⟩
  · exact hown .removeProperty
  · exact List.forall_mem_singleton.2 (hown .writeProperty)

/-- The registry of a model was built from the operations that the library offers and those of the
    description. -/
theorem builtFrom {spec : ModelSpec C} {r : Registry (ModelHandler C)}
    (hglobals : ∀ o ∈ spec.globals, P o.1 o.2)
    (hresources : ∀ t ∈ spec.resources, ∀ o ∈ t.operations, P o.1 o.2)
    (h : spec.registry = .ok r) : r.BuiltFrom P := by
  have hlast : ∀ {r₀ : Registry (ModelHandler C)}, r₀.BuiltFrom P →
      (addGlobals r₀ spec.globals >>= fun r => addResources r spec.resources) = .ok r →
        r.BuiltFrom P := by
    intro r₀ hr₀ h
    obtain ⟨r₁, h₁, h⟩ := bind_eq_ok.1 h
    exact builtFrom_addResources hown (builtFrom_addGlobals hr₀ hglobals h₁) hresources h
  have hproperties : ∀ {r₀ : Registry (ModelHandler C)}, r₀.BuiltFrom P →
      (if spec.offersProperties = true then
        PropertyHandler.register .property spec.properties r₀ >>= fun r =>
          addGlobals r spec.globals >>= fun r => addResources r spec.resources
      else addGlobals r₀ spec.globals >>= fun r => addResources r spec.resources) = .ok r →
        r.BuiltFrom P := by
    intro r₀ hr₀ h
    split at h
    · obtain ⟨r₁, h₁, h⟩ := bind_eq_ok.1 h
      exact hlast (builtFrom_register hown hr₀ h₁) h
    · exact hlast hr₀ h
  unfold registry at h
  dsimp only at h
  split at h
  · obtain ⟨r₁, h₁, h⟩ := bind_eq_ok.1 h
    exact hproperties (builtFrom_registerGlobals hown .empty h₁) h
  · exact hproperties .empty h

end

/-- What a description of a model offers is a registry that was built. -/
theorem built {spec : ModelSpec C} {r : Registry (ModelHandler C)} (h : spec.registry = .ok r) :
    r.Built :=
  (builtFrom (P := fun _ _ => True) (fun _ => trivial) (fun _ _ => trivial)
    (fun _ _ _ _ => trivial) h).built

/-- A model that breaks a rule is given the empty registry. -/
theorem built_getD (spec : ModelSpec C) : (spec.registry.toOption.getD {}).Built := by
  cases h : spec.registry with
  | error fault => exact .empty
  | ok r => exact built h

end ModelSpec

/-! ### Trees -/

/-- Every resource but the root is governed by a schema, and validation leaves its attributes as they
    are. -/
def Tree.Conforms (schema? : Address → Option ResourceSchema) (t : Tree) : Prop :=
  ∀ a, a ≠ .root → ∀ m, t.get? a = some m → ∃ schema, schema? a = some schema ∧
    AttributeSchema.validateAll schema.attributes m = .ok m

section

variable {schema? : Address → Option ResourceSchema} {op : Operation}

theorem Tree.conforms_initial : Tree.initial.Conforms schema? := by
  intro a ha m hm
  have hnone : Tree.initial.get? a = none :=
    SortedMap.get?_insert_of_ne (∅ : SortedMap Address Attributes) ha ∅
  rw [hnone] at hm
  cases hm

/-- A tree still conforms when one resource was changed, if what is there now does. -/
theorem Tree.Conforms.change {t t' : Tree} (h : t.Conforms schema?) {a : Address}
    (hothers : ∀ b, b ≠ a → t'.get? b = t.get? b)
    (ha : a ≠ .root → ∀ m, t'.get? a = some m → ∃ schema, schema? a = some schema ∧
      AttributeSchema.validateAll schema.attributes m = .ok m) : t'.Conforms schema? := by
  intro b hb m hm
  by_cases hsame : b = a
  · subst hsame
    exact ha hb m hm
  · rw [hothers b hsame] at hm
    exact h b hb m hm

variable (hnames : ∀ {a : Address} {schema : ResourceSchema}, schema? a = some schema →
  (schema.attributes.map (·.name)).Nodup)

include hnames

theorem Resource.createDraft_conforms :
    (createDraft schema? op).Keeps fun w => w.tree.Conforms schema? := by
  intro w w' attributes hw h
  obtain ⟨schema, t, hschema, -, ht, hvalid, rfl⟩ := createDraft_eq_ok.1 h
  obtain ⟨-, rfl⟩ := Tree.create_eq_ok ht
  refine hw.change (a := op.address) ?_ fun _ m hm => ⟨schema, hschema, ?_⟩
  · intro b hb
    exact (Tree.get?_put_of_ne _ hb _).trans (Tree.get?_put_of_ne _ hb _)
  · -- what was stored came out of validation
    have hstored := (Tree.get?_put_self (w.tree.put op.address ∅) op.address attributes).symm.trans hm
    cases hstored
    have hfits := AttributeSchema.fits_of_validateAll (hnames hschema) hvalid
    exact (AttributeSchema.validateAll_eq_self (hnames hschema)).2 hfits

theorem Resource.writeDraft_conforms :
    (writeDraft schema? op).Keeps fun w => w.tree.Conforms schema? := by
  intro w w' change hw h
  obtain ⟨schema, d, before, hschema, hd, hvalid, hbefore, -, rfl⟩ := writeDraft_eq_ok h
  refine hw.change (a := op.address) (fun b hb => Tree.get?_put_of_ne _ hb _)
    fun hroot m hm => ⟨schema, hschema, ?_⟩
  have hstored := (Tree.get?_put_self w.tree op.address _).symm.trans hm
  cases hstored
  -- the resource conformed before, and its schema is still the same
  obtain ⟨schema', hschema', hfixed⟩ := hw op.address hroot before hbefore
  rw [hschema] at hschema'
  cases hschema'
  have hfits := (AttributeSchema.validateAll_eq_self (hnames hschema)).1 hfixed
  obtain ⟨hname, hmem⟩ : d.name = change.name ∧ d ∈ schema.attributes :=
    ⟨by simpa using List.find?_some hd, List.mem_of_find?_eq_some hd⟩
  have hafter := hfits.withAttribute (hnames hschema) hmem hvalid
  rw [hname] at hafter
  exact (AttributeSchema.validateAll_eq_self (hnames hschema)).2 hafter

/-- The draft of a built-in operation keeps the tree conforming. -/
theorem ModelHandler.draft_conforms {C : Type} {effect : String → LiveEffect}
    (h : ModelHandler C) :
    (h.draft schema? effect op).Keeps fun w => w.tree.Conforms schema? := by
  refine draft_of_changes (Drafting.closed_keeps _) (Resource.createDraft_conforms hnames) ?_
    (Resource.writeDraft_conforms hnames) h
  intro w w' attributes hw h
  obtain ⟨-, t, ht, rfl⟩ := WorkingCopy.remove_eq_ok.1 h
  obtain ⟨-, rfl⟩ := Tree.remove_eq_ok ht
  refine hw.change (a := op.address) (fun b hb => Tree.get?_discard_of_ne _ hb) fun _ m hm => ?_
  have hgone := (Tree.get?_discard_self w.tree op.address).symm.trans hm
  cases hgone

end

/-! ### Built-in programs -/

namespace Program

namespace Uninterrupted

variable {S : Signature} {X : Signature} {cfg : PropertyConfig} {op : Operation}

theorem view : (Program.view : Program S (View S)).Uninterrupted := by
  intro v
  trivial

theorem schema (a : Address) : (Program.schema a : Program S ResourceSchema).Uninterrupted := by
  unfold Program.schema
  apply bind view
  intro v
  cases v.schema? a with
  | some d => trivial
  | none => trivial

theorem readAt (a : Address) : (Program.readAt a : Program S Attributes).Uninterrupted := by
  intro v
  exact ofExcept (v.working.tree.require a)

theorem createAt (a : Address) : (Program.createAt a : Program S Unit).Uninterrupted := by
  intro r
  exact ofExcept r

theorem editAt (a : Address) (change : Attributes → Attributes) :
    (Program.editAt a change : Program S Attributes).Uninterrupted := by
  intro r
  exact ofExcept r

theorem removeAt (a : Address) : (Program.removeAt a : Program S Attributes).Uninterrupted := by
  intro r
  exact ofExcept r

theorem result (v : Value) : (Program.result v : Program S Unit).Uninterrupted := trivial

theorem attributeSchema (a : Address) (name : String) :
    (Resource.attributeSchema a name : Program S AttributeSchema).Uninterrupted := by
  apply bind (schema a)
  intro schema
  cases schema.attribute? name with
  | some d => trivial
  | none => trivial

theorem create : (Resource.create op : Program S Attributes).Uninterrupted := by
  apply bind (schema op.address)
  intro schema
  apply bind (createAt op.address)
  intro _
  apply bind (ofExcept (AttributeSchema.validateAll schema.attributes op.params))
  intro attributes
  apply bind (editAt op.address fun _ => attributes)
  intro _
  trivial

theorem write : (Resource.write op : Program S Resource.AttributeUpdate).Uninterrupted := by
  apply bind (ofExcept (Resource.namedAttribute op))
  intro name
  apply bind (attributeSchema op.address name)
  intro d
  apply bind (ofExcept (d.validate (op.param? Resource.valueParameter)))
  intro new
  apply bind (editAt op.address (Resource.withAttribute name new))
  intro before
  trivial

theorem readAttribute : (Resource.readAttribute op : Program S Value).Uninterrupted := by
  apply bind (ofExcept (Resource.namedAttribute op))
  intro name
  apply bind (attributeSchema op.address name)
  intro d
  apply bind (readAt op.address)
  intro attributes
  trivial

theorem readAll : (Resource.readAll op : Program S Value).Uninterrupted := by
  apply bind (readAt op.address)
  intro attributes
  apply bind view
  intro v
  trivial

theorem readChildrenNames : (Resource.readChildrenNames op : Program S Value).Uninterrupted := by
  unfold Resource.readChildrenNames
  cases (op.param? Resource.childTypeParameter).bind Value.asString with
  | none => trivial
  | some key =>
    apply bind (readAt op.address)
    intro attributes
    apply bind view
    intro v
    trivial

theorem queueUpdate (name : String) (model : Attributes) :
    (Property.queueUpdate (X := X) cfg name model).Uninterrupted := by
  apply bind view
  intro v r
  exact ofExcept r

theorem writeAttribute : (Property.writeAttribute (X := X) cfg op).Uninterrupted := by
  apply bind write
  intro change
  split
  · apply bind (ofExcept (Property.nameOf op))
    intro name
    apply bind (readAt op.address)
    intro model
    exact queueUpdate name model
  · -- the process is not concerned
    trivial

end Uninterrupted

/-- The program leaves the model as it is, and nothing happens on the controller beside it. -/
structure SparesModel {S : Signature} {α : Type} (c : Controller S) (p : Program S α) : Prop where
  uninterrupted : p.Uninterrupted
  working_eq : ∀ f : InFlight S, (p.run c f).2.transaction.working = f.transaction.working

namespace SparesModel

section

variable {S : Signature} {c : Controller S} {α β : Type}

theorem bind {p : Program S α} {g : α → Program S β} (hp : p.SparesModel c)
    (hg : ∀ a, (g a).SparesModel c) : (p.bind g).SparesModel c where
  uninterrupted := hp.uninterrupted.bind fun a => (hg a).uninterrupted
  working_eq f := by
    have hfirst := hp.working_eq f
    rcases hrun : p.run c f with ⟨r, f'⟩
    rw [hrun] at hfirst
    cases r with
    | error fault =>
      rw [run_bind_of_error hrun]
      exact hfirst
    | ok a =>
      rw [run_bind_of_ok hrun]
      exact ((hg a).working_eq f').trans hfirst

theorem pure (a : α) : (Program.pure a : Program S α).SparesModel c where
  uninterrupted := trivial
  working_eq _ := rfl

theorem view : (Program.view : Program S (View S)).SparesModel c where
  uninterrupted := Uninterrupted.view
  working_eq _ := rfl

theorem addStep (request : StepRequest S) : (Program.addStep request).SparesModel c where
  uninterrupted := .ofExcept
  working_eq f := by
    rw [run_addStep]
    exact (Transaction.sameCourse_queue f.transaction request).working_eq

theorem addRollback (handler : Operation → RollbackProgram S Unit) :
    (Program.addRollback handler).SparesModel c where
  uninterrupted := .ofExcept
  working_eq f := by
    rw [run_addRollback]
    exact (Transaction.sameCourse_onRollback f.transaction handler).working_eq

/-- To change the attachments does not touch the model. -/
theorem attach (change : Attachments S.slots → Attachments S.slots) :
    (Program.attach change fun _ => .pure ()).SparesModel c where
  uninterrupted _ := trivial
  working_eq _ := rfl

/-- Nor does a failure that marks the transaction. -/
theorem markedFailure (fault : Fault) :
    (Program.markRollbackOnly (.fail fault) : Program S α).SparesModel c where
  uninterrupted := trivial
  working_eq _ := rfl

end

variable {X : Signature} {c : Controller X.withProperties} {cfg : PropertyConfig} {name : String}

theorem readLive : (Property.readLive (X := X)).SparesModel c where
  uninterrupted _ := trivial
  working_eq _ := rfl

theorem changeLive (change : LiveProperties → LiveProperties) :
    (Property.changeLive (X := X) change).SparesModel c where
  uninterrupted _ := trivial
  working_eq _ := rfl

theorem readParked? : (Property.readParked? (X := X)).SparesModel c where
  uninterrupted _ := trivial
  working_eq _ := rfl

theorem changeParked (change : ParkedValues → ParkedValues) :
    (Property.changeParked (X := X) change).SparesModel c :=
  attach fun a => (a.modify Property.parkedKey change).2

theorem forgetParked : (Property.forgetParked (X := X) name).SparesModel c := by
  apply bind readParked?
  intro parked?
  apply bind (changeParked (·.forget name))
  intro _
  exact pure (parked?.bind (·.get? name))

theorem retryParked : (Property.retryParked (X := X) cfg).SparesModel c := by
  apply bind readParked?
  intro parked?
  cases parked? with
  | none => exact pure 0
  | some parked =>
    apply bind readLive
    intro live
    apply bind (changeParked _)
    intro _
    apply bind (changeLive _)
    intro _
    exact pure (parked.retry cfg live).1

theorem defer (model : Attributes) (fault : Fault) :
    (Property.defer (X := X) name model fault).SparesModel c := by
  apply bind view
  intro v
  apply bind (attach _)
  intro _
  apply bind (addStep _)
  intro _
  split
  · exact addStep _
  · -- the pass at the end of RUNTIME is not queued, or not once more
    exact pure ()

theorem restoreOnRollback : (Property.restoreOnRollback (X := X) cfg name).SparesModel c := by
  apply bind readLive
  intro live
  exact addRollback _

theorem update (model : Attributes) (effect : LiveEffect) :
    (Property.update (X := X) cfg name model effect).SparesModel c := by
  cases effect with
  | apply =>
    apply bind restoreOnRollback
    intro _
    apply bind forgetParked
    intro parked?
    apply bind readLive
    intro live
    cases intendedValue live model with
    | ok value? =>
      apply bind (changeLive (cfg.apply name value?))
      intro _
      apply bind retryParked
      intro count
      exact pure ()
    | error fault => exact defer model fault
  | reload =>
    have hask : (Program.askReload (.pure ()) : Program X.withProperties Unit).SparesModel c :=
      { uninterrupted := trivial, working_eq := fun _ => rfl }
    apply bind hask
    intro _
    exact addRollback _
  | none => exact pure ()

theorem verify : (Property.verify (X := X) name).SparesModel c := by
  apply bind readParked?
  intro parked?
  cases parked?.bind (·.get? name) with
  | none => exact pure ()
  | some v => exact markedFailure v.fault

theorem applyParked : (Property.applyParked (X := X) cfg).SparesModel c := by
  apply bind readParked?
  intro parked?
  cases parked? with
  | none => exact pure ()
  | some parked =>
    apply bind readLive
    intro live
    apply bind (changeParked _)
    intro _
    apply bind (changeLive _)
    intro _
    split
    · exact pure ()
    · rename_i fault _
      exact markedFailure fault

end SparesModel

end Program

/-! ### Steps -/

section

variable {X : Signature} {c : Controller X.withProperties} {cfg : PropertyConfig}

/-- Handlers that do not carry out built-in operations leave the model alone. -/
theorem ModelHandler.sparesModel (hc : c.RunsModel cfg)
    (hcustom : ∀ code op, (c.handle (.custom code) op).SparesModel c)
    {h : ModelHandler X.Handler} (hh : ¬ h.IsBuiltIn) (op : Operation) :
    (c.handle h op).SparesModel c := by
  cases h with
  | resource h => exact absurd trivial hh
  | property h =>
    rw [hc.property_eq]
    cases h with
    | add => exact absurd trivial hh
    | remove => exact absurd trivial hh
    | writeAttribute => exact absurd trivial hh
    | update name model action => exact .update model action
    | verify name => exact .verify
    | applyParked => exact .applyParked
  | custom code => exact hcustom code op

open Program.Uninterrupted in
/-- Nothing happens on the controller beside a built-in operation. -/
theorem ModelHandler.uninterrupted (hc : c.RunsModel cfg) {h : ModelHandler X.Handler}
    (hh : h.IsBuiltIn) (op : Operation) : (c.handle h op).Uninterrupted := by
  cases h with
  | resource h =>
    rw [hc.resource_eq]
    cases h with
    | add =>
      apply bind create
      intro attributes
      trivial
    | remove =>
      apply bind (removeAt op.address)
      intro attributes
      trivial
    | writeAttribute =>
      apply bind write
      intro change
      trivial
    | readAttribute =>
      apply bind readAttribute
      intro v
      exact result v
    | readResource =>
      apply bind readAll
      intro v
      exact result v
    | readChildrenNames =>
      apply bind readChildrenNames
      intro v
      exact result v
  | property h =>
    rw [hc.property_eq]
    cases h with
    | add =>
      apply bind create
      intro model
      apply bind (ofExcept (Property.nameOf op))
      intro name
      exact queueUpdate name model
    | remove =>
      apply bind (removeAt op.address)
      intro attributes
      apply bind (ofExcept (Property.nameOf op))
      intro name
      exact queueUpdate name ∅
    | writeAttribute => exact writeAttribute
    | update name model action => exact absurd hh id
    | verify name => exact absurd hh id
    | applyParked => exact absurd hh id
  | custom code => exact absurd hh id

/-- Nothing happens on the controller beside any step. -/
theorem Controller.uninterrupted (hc : c.RunsModel cfg)
    (hcustom : ∀ code op, (c.handle (.custom code) op).SparesModel c)
    (h : ModelHandler X.Handler) (op : Operation) : (c.handle h op).Uninterrupted := by
  by_cases hh : h.IsBuiltIn
  · exact ModelHandler.uninterrupted hc hh op
  · exact (ModelHandler.sparesModel hc hcustom hh op).uninterrupted

namespace InFlight

variable {f₀ f f' : InFlight X.withProperties} {log : List (StepGrant X.withProperties)}
  {step : Step X.withProperties} {agenda : Agenda (Step X.withProperties)}

theorem working_deliver (o : Delivery) (f : InFlight X.withProperties) :
    (f.deliver o).transaction.working = f.transaction.working := by
  have hresult : ∀ (r? : Option Value), (r?.elim f fun v =>
      f.onTransaction (·.setResult v)).transaction.working = f.transaction.working := by
    intro r?
    cases r? with
    | none => rfl
    | some v => exact (Transaction.sameCourse_setResult f.transaction v).working_eq
  unfold deliver
  cases o.update? with
  | none => exact hresult o.result?
  | some u => exact (Transaction.sameCourse_queue _ _).working_eq.trans (hresult o.result?)

theorem inModelStep_taken (hf : Steady f.transaction)
    (hpop : f.transaction.agenda.pop? = some (step, agenda))
    (hstage : f.transaction.stage = .model) :
    (f.taken step agenda).InModelStep f.transaction.booting := by
  obtain ⟨stage, rest, hcurrent, -, rfl⟩ := Agenda.pop?_eq_some hpop
  refine ⟨hstage, rfl, rfl, ?_⟩
  have hmodel : stage = .model := (hf.stage_eq hcurrent).symm.trans hstage
  show (f.transaction.agenda.set stage rest).accepts .runtime = true
  unfold Agenda.accepts
  rw [Agenda.closed_set, Agenda.current_set, hf.isOpen, hcurrent, hmodel]
  rfl

/-- A step that does not fail the transaction has drafted its change of the working copy if it is the
    step of a built-in operation in MODEL, and otherwise has left the working copy alone. -/
theorem draft_of_execute (hc : c.RunsModel cfg)
    (hcustom : ∀ code op, (c.handle (.custom code) op).SparesModel c)
    (hf : Steady f.transaction) (hpop : f.transaction.agenda.pop? = some (step, agenda))
    (hexecute : execute c step (f.onTransaction fun t => { t with agenda }) = (.ok (), f')) :
    (f.transaction.stage = .model ∧ step.handler.IsBuiltIn ∧
      ∃ o, step.handler.draft c.registry.resource? (c.effect cfg f.transaction.booting)
        step.operation f.transaction.working = .ok (o, f'.transaction.working)) ∨
    (¬ (f.transaction.stage = .model ∧ step.handler.IsBuiltIn) ∧
      f'.transaction.working = f.transaction.working) := by
  by_cases hstage : f.transaction.stage = .model
  · obtain ⟨outcome, g, hrun, -, hverdict, rfl⟩ := hf.of_execute hexecute
    obtain ⟨-, rfl, -⟩ := verdict_eq_ok.1 hverdict.symm
    by_cases hh : step.handler.IsBuiltIn
    · -- the handler went through, so that its draft did
      have hdraft := run_program hc hh step.operation (f.taken step agenda)
        (inModelStep_taken hf hpop hstage)
      rw [hrun] at hdraft
      split at hdraft
      · rename_i o w hgone
        have hworking : g.transaction.working = w := by
          rw [(Prod.mk.inj hdraft).2, working_deliver]
          rfl
        exact .inl ⟨hstage, hh, o, hworking ▸ hgone⟩
      · obtain ⟨w, hfailed⟩ := hdraft
        cases hfailed
    · have hkept := (ModelHandler.sparesModel hc hcustom hh step.operation).working_eq
        (f.taken step agenda)
      rw [hrun] at hkept
      exact .inr ⟨fun h => hh h.2, hkept⟩
  · exact .inr ⟨fun h => hstage h.1, hf.working_of_execute hexecute hstage⟩

/-- A step that does not fail the transaction keeps the working copy conforming. -/
theorem conforms_of_execute (hr : c.registry.Built) (hc : c.RunsModel cfg)
    (hcustom : ∀ code op, (c.handle (.custom code) op).SparesModel c)
    (hf : Steady f.transaction) (hpop : f.transaction.agenda.pop? = some (step, agenda))
    (hexecute : execute c step (f.onTransaction fun t => { t with agenda }) = (.ok (), f'))
    (h : f.transaction.working.tree.Conforms c.registry.resource?) :
    f'.transaction.working.tree.Conforms c.registry.resource? := by
  rcases draft_of_execute hc hcustom hf hpop hexecute with ⟨-, -, o, hdraft⟩ | ⟨-, hkept⟩
  · exact ModelHandler.draft_conforms hr.nodup_of_resource? step.handler h hdraft
  · rw [hkept]
    exact h

/-- The working copy conforms all along a transaction. -/
theorem conforms_of_granted (hr : c.registry.Built) (hc : c.RunsModel cfg)
    (hcustom : ∀ code op, (c.handle (.custom code) op).SparesModel c)
    (hsteady : Steady f₀.transaction)
    (h₀ : f₀.transaction.working.tree.Conforms c.registry.resource?) (h : Granted c f₀ log f) :
    f.transaction.working.tree.Conforms c.registry.resource? := by
  induction h with
  | start => exact h₀
  | enter h hpop hnext ih => exact ih
  | step h hpop hexecute ih =>
    exact conforms_of_execute hr hc hcustom (hsteady.underway h.underway) hpop hexecute ih

end InFlight

/-! ### Submissions -/

namespace Controller

open InFlight

variable {s s' t : ControllerState X.withProperties}

/-- A submission keeps the committed tree conforming, whether it commits or fails. -/
theorem conforms_of_perform (hr : c.registry.Built) (hc : c.RunsModel cfg)
    (hcustom : ∀ code op, (c.handle (.custom code) op).SparesModel c) {sub : Submission}
    {outcome : Outcome} (h : c.perform sub s = .ok (outcome, s'))
    (hs : s.store.tree.Conforms c.registry.resource?) :
    s'.store.tree.Conforms c.registry.resource? := by
  rcases perform_cases h with ⟨-, rfl⟩ | ⟨accepted, f₀, ended, hbegins, hended, hreports⟩
  · rw [sub.store_after]
    exact hs
  · obtain ⟨log, -, ⟨-, hstore⟩ | ⟨f, hf, -, hconfined, hpublished⟩⟩ :=
      hbegins.store_cases (uninterrupted hc hcustom) hended hreports
    · rw [hstore]
      exact hs
    · -- the working copy began with the committed tree
      have hworking : WorkingCopy.ofTree s.store.tree (writeScope accepted) =
        f₀.transaction.working := Except.ok.inj hbegins.confined.2
      rw [hpublished, hconfined.tree_publish]
      refine conforms_of_granted hr hc hcustom hbegins.steady.1 ?_ hf
      rw [← hworking]
      exact hs

/-- Every stored resource conforms to its schema. If nothing but the built-in operations changes the
    model, then after any sequence of submissions to an empty model, committing or failing, every
    resource but the root is governed by a schema, and validating its attributes gives just these
    attributes. -/
theorem stored_conforms (hr : c.registry.Built) (hc : c.RunsModel cfg)
    (hcustom : ∀ code op, (c.handle (.custom code) op).SparesModel c)
    (hs : s.store.tree = .initial) {log : List (Submission × Outcome)} (hrun : Run c s log t)
    {a : Address} (ha : a ≠ .root) {m : Attributes} (hm : t.store.tree.get? a = some m) :
    ∃ schema, c.registry.resource? a = some schema ∧
      AttributeSchema.validateAll schema.attributes m = .ok m := by
  suffices hconforms : t.store.tree.Conforms c.registry.resource? from hconforms a ha m hm
  clear hm
  induction hrun with
  | start =>
    rw [hs]
    exact Tree.conforms_initial
  | next before answer ih => exact conforms_of_perform hr hc hcustom answer ih

end Controller

end

/-- A model with queues, of which the size has a default and a range, the label may hold references,
    and an operation of their own can be asked for. -/
def ModelSpec.queues : ModelSpec Unit where
  resources :=
    [{ pattern := ⟨[.wildcard "queue"]⟩
       attributes :=
        [((AttributeSchema.new "size" .int).withDefault (.int 5)).withRange (some 1) (some 9),
          (AttributeSchema.new "label" .string).allowExpression]
       operations := [({ name := "probe" }, .custom ())] }]

namespace Controller

/-- The controller of the model with queues. -/
def queueing : Controller ({ Signature.bare with Handler := Unit } : Signature).withProperties where
  registry := ModelSpec.queues.registry.toOption.getD {}
  handle := ModelHandler.program {} fun _ op => .result (.string op.name)
  interlude := fun code => code.elim
  stepLimit := 10

theorem built_queueing : queueing.registry.Built := ModelSpec.queues.built_getD

/-- A queue is added with a reference in its label, a transaction that widens it fails, and its size
    is then written and reset. -/
theorem stored_conforms_queueing :
    ∃ log t m, Run queueing { environment := { other := () } } log t ∧
      t.store.tree.get? ⟨[⟨"queue", "q"⟩]⟩ = some m ∧
      m.get? "size" = some (.int 5) ∧ m.get? "label" = some (.expression "$\x7bx\x7d") ∧
      ∃ schema, queueing.registry.resource? ⟨[⟨"queue", "q"⟩]⟩ = some schema ∧
        AttributeSchema.validateAll schema.attributes m = .ok m := by
  let add : Operation :=
    ({ name := "add", address := ⟨[⟨"queue", "q"⟩]⟩ } : Operation).withParam "label"
      (.string "$\x7bx\x7d")
  let probe : Operation := { name := "probe", address := ⟨[⟨"queue", "q"⟩]⟩ }
  let write (value : Value) : Operation :=
    (({ name := "write-attribute", address := ⟨[⟨"queue", "q"⟩]⟩ } : Operation).withParam "name"
      (.string "size")).withParam "value" value
  have hrun : queueing.answers (.executeAll [add, probe]) { environment := { other := () } }
      (fun _ s₁ => queueing.answers (.executeAll [write (.int 7), write (.int 10)]) s₁
        fun second s₂ => !second.isOk && queueing.answers
          (.executeAll [write (.int 7), write .undefined]) s₂ fun third s₃ => third.isOk &&
            (s₃.store.tree.get? ⟨[⟨"queue", "q"⟩]⟩).any fun m => m.get? "size" == some (.int 5) &&
              m.get? "label" == some (.expression "$\x7bx\x7d")) = true := by
    decide +kernel
  obtain ⟨first, s₁, h₁, hrun⟩ := exists_of_answers hrun
  obtain ⟨second, s₂, h₂, hrun⟩ := exists_of_answers hrun
  obtain ⟨third, s₃, h₃, hstored⟩ := exists_of_answers (Bool.and_eq_true_iff.1 hrun).2
  have hreached := ((Run.start.next h₁).next h₂).next h₃
  obtain ⟨hsome, hvalues⟩ :=
    (Option.any_eq_true_iff_get _ _).1 (Bool.and_eq_true_iff.1 hstored).2
  obtain ⟨hsize, hlabel⟩ := Bool.and_eq_true_iff.1 hvalues
  have hm := (Option.some_get hsome).symm
  have hc : queueing.RunsModel {} := ⟨fun _ _ => rfl, fun _ _ => rfl⟩
  have hcustom : ∀ code op, (queueing.handle (.custom code) op).SparesModel queueing := fun _ op =>
    ⟨trivial, fun f => (Transaction.sameCourse_setResult f.transaction _).working_eq⟩
  exact ⟨_, s₃, _, hreached, hm, eq_of_beq hsize, eq_of_beq hlabel,
    stored_conforms built_queueing hc hcustom rfl hreached (by decide) hm⟩

end Controller

end ManagedModel
