import ManagedModel.Proofs.Course.Footprint

/-! # MODEL steps of system properties

    What the drafts of the operations on a system property come to, each told
    by one lemma: the attributes that the resource has afterwards, and the
    update that is left for RUNTIME. -/

namespace ManagedModel

/-! ### Resources -/

namespace Resource

variable {schema? : Address → Option ResourceSchema} {op : Operation} {w w' : WorkingCopy}

theorem schemaAt_eq_ok {a : Address} {schema : ResourceSchema} :
    schemaAt schema? a = .ok schema ↔ schema? a = some schema := by
  unfold schemaAt
  cases schema? a <;> simp

theorem createDraft_eq_ok {attributes : Attributes} :
    createDraft schema? op w = .ok (attributes, w') ↔
      ∃ schema t, schema? op.address = some schema ∧ w.inScope op.address = true ∧
        w.tree.create op.address = .ok t ∧
        AttributeSchema.validateAll schema.attributes op.params = .ok attributes ∧
        w' = (w.changed op.address t).changed op.address (t.put op.address attributes) := by
  unfold createDraft
  rw [Drafting.bind_eq_ok]
  constructor
  · rintro ⟨schema, w₁, hanswer, h₁⟩
    obtain ⟨hschema, rfl⟩ := Drafting.answer_eq_ok.1 hanswer
    obtain ⟨u, w₂, hcreate, h₂⟩ := Drafting.bind_eq_ok.1 h₁
    obtain ⟨attributes', w₃, hanswer', h₃⟩ := Drafting.bind_eq_ok.1 h₂
    obtain ⟨hvalid, rfl⟩ := Drafting.answer_eq_ok.1 hanswer'
    obtain ⟨old, w₄, hedit, h₄⟩ := Drafting.bind_eq_ok.1 h₃
    obtain ⟨heq, rfl⟩ := Drafting.answer_eq_ok.1 h₄
    cases heq
    obtain ⟨w₅, hc, hw₅⟩ := map_eq_ok.1 hcreate
    cases hw₅
    obtain ⟨hscope, t, ht, rfl⟩ := WorkingCopy.create_eq_ok.1 hc
    obtain ⟨-, -, rfl⟩ := WorkingCopy.edit_eq_ok.1 hedit
    exact ⟨schema, t, schemaAt_eq_ok.1 hschema, hscope, ht, hvalid, rfl⟩
  · rintro ⟨schema, t, hschema, hscope, ht, hvalid, rfl⟩
    have hcreate : w.create op.address = .ok (w.changed op.address t) :=
      WorkingCopy.create_eq_ok.2 ⟨hscope, t, ht, rfl⟩
    -- the resource is created without attributes, and then given those that were validated
    have hfresh : t.get? op.address = some ∅ := by
      rw [(Tree.create_eq_ok ht).2]
      exact Tree.get?_put_self w.tree op.address ∅
    refine ⟨schema, w, Drafting.answer_eq_ok.2 ⟨schemaAt_eq_ok.2 hschema, rfl⟩, ?_⟩
    refine Drafting.bind_eq_ok.2 ⟨(), w.changed op.address t, ?_, ?_⟩
    · rw [hcreate]
      rfl
    · refine Drafting.bind_eq_ok.2 ⟨attributes, _, Drafting.answer_eq_ok.2 ⟨hvalid, rfl⟩, ?_⟩
      refine Drafting.bind_eq_ok.2 ⟨∅, _, WorkingCopy.edit_eq_ok.2 ⟨hscope, hfresh, rfl⟩, ?_⟩
      exact Drafting.answer_eq_ok.2 ⟨rfl, rfl⟩

theorem attributeSchemaAt_eq_ok {a : Address} {name : String} {d : AttributeSchema} :
    attributeSchemaAt schema? a name = .ok d ↔
      ∃ schema, schema? a = some schema ∧ schema.attribute? name = some d := by
  unfold attributeSchemaAt
  rw [bind_eq_ok]
  refine exists_congr fun schema => and_congr schemaAt_eq_ok ?_
  cases schema.attribute? name with
  | none => exact iff_of_false nofun nofun
  | some d' =>
    exact ⟨fun h => congrArg some (Except.ok.inj h),
      fun h => congrArg Except.ok (Option.some.inj h)⟩

theorem writeDraft_eq_ok {change : AttributeUpdate}
    (h : writeDraft schema? op w = .ok (change, w')) :
    ∃ schema d before, schema? op.address = some schema ∧
      schema.attribute? change.name = some d ∧
      d.validate (op.param? valueParameter) = .ok change.new ∧
      w.tree.get? op.address = some before ∧
      change.old = (before.get? change.name).getD .undefined ∧
      w' = w.changed op.address
        (w.tree.put op.address (withAttribute change.name change.new before)) := by
  obtain ⟨name, w₁, hname, h₁⟩ := Drafting.bind_eq_ok.1 h
  obtain ⟨-, rfl⟩ := Drafting.answer_eq_ok.1 hname
  obtain ⟨d, w₂, hd, h₂⟩ := Drafting.bind_eq_ok.1 h₁
  obtain ⟨hattribute, rfl⟩ := Drafting.answer_eq_ok.1 hd
  obtain ⟨new, w₃, hnew, h₃⟩ := Drafting.bind_eq_ok.1 h₂
  obtain ⟨hvalid, rfl⟩ := Drafting.answer_eq_ok.1 hnew
  obtain ⟨before, w₄, hedit, h₄⟩ := Drafting.bind_eq_ok.1 h₃
  obtain ⟨hchange, rfl⟩ := Drafting.answer_eq_ok.1 h₄
  cases hchange
  obtain ⟨schema, hschema, hdeclared⟩ := attributeSchemaAt_eq_ok.1 hattribute
  obtain ⟨-, hbefore, rfl⟩ := WorkingCopy.edit_eq_ok.1 hedit
  exact ⟨schema, d, before, hschema, hdeclared, hvalid, hbefore, rfl, rfl⟩

end Resource

/-! ### Properties -/

namespace ModelHandler

variable {C : Type} {schema? : Address → Option ResourceSchema} {effect : String → LiveEffect}
  {op : Operation} {w w' : WorkingCopy} {o : Delivery}

/-- Adding a property stores its validated attributes and leaves an update with them. -/
theorem draft_add_eq_ok :
    (property .add : ModelHandler C).draft schema? effect op w = .ok (o, w') ↔
      ∃ model name, Resource.createDraft schema? op w = .ok (model, w') ∧
        Property.nameOf op = .ok name ∧
        o = { update? := some { name, model, effect := effect name } } := by
  show Drafting.bind _ _ w = _ ↔ _
  rw [Drafting.bind_eq_ok]
  constructor
  · rintro ⟨model, w₁, hcreate, h₁⟩
    obtain ⟨name, w₂, hanswer, h₂⟩ := Drafting.bind_eq_ok.1 h₁
    obtain ⟨hname, rfl⟩ := Drafting.answer_eq_ok.1 hanswer
    obtain ⟨ho, rfl⟩ := Drafting.answer_eq_ok.1 h₂
    cases ho
    exact ⟨model, name, hcreate, hname, rfl⟩
  · rintro ⟨model, name, hcreate, hname, rfl⟩
    refine ⟨model, w', hcreate, Drafting.bind_eq_ok.2 ⟨name, w', ?_, ?_⟩⟩
    · exact Drafting.answer_eq_ok.2 ⟨hname, rfl⟩
    · exact Drafting.answer_eq_ok.2 ⟨rfl, rfl⟩

/-- Removing a property leaves an update without attributes. -/
theorem draft_remove_eq_ok
    (h : (property .remove : ModelHandler C).draft schema? effect op w = .ok (o, w')) :
    w'.tree = w.tree.discard op.address ∧ ∃ name, Property.nameOf op = .ok name ∧
      o.update? = some { name, model := ∅, effect := effect name } := by
  change Drafting.bind (fun w => w.remove op.address) _ w = _ at h
  obtain ⟨attributes, w₁, hremove, h₁⟩ := Drafting.bind_eq_ok.1 h
  obtain ⟨name, w₂, hanswer, h₂⟩ := Drafting.bind_eq_ok.1 h₁
  obtain ⟨hname, rfl⟩ := Drafting.answer_eq_ok.1 hanswer
  obtain ⟨ho, rfl⟩ := Drafting.answer_eq_ok.1 h₂
  cases ho
  obtain ⟨-, t, ht, rfl⟩ := WorkingCopy.remove_eq_ok.1 hremove
  exact ⟨(Tree.remove_eq_ok ht).2, name, hname, rfl⟩

/-- Writing an attribute of a property leaves an update with the attributes after the write, if
    the value was changed, and no update otherwise. -/
theorem draft_write_eq_ok
    (h : (property .writeAttribute : ModelHandler C).draft schema? effect op w = .ok (o, w')) :
    ∃ change, Resource.writeDraft schema? op w = .ok (change, w') ∧
      (¬ (change.name = propertyValueAttribute ∧ change.old ≠ change.new) ∧ o.update? = none ∨
        (change.name = propertyValueAttribute ∧ change.old ≠ change.new) ∧
          ∃ name model, Property.nameOf op = .ok name ∧ w'.tree.get? op.address = some model ∧
            o.update? = some { name, model, effect := effect name }) := by
  change Drafting.bind (Resource.writeDraft schema? op) _ w = _ at h
  obtain ⟨change, w₁, hwrite, h₁⟩ := Drafting.bind_eq_ok.1 h
  by_cases hchanged : change.name = propertyValueAttribute ∧ change.old ≠ change.new
  · rw [if_pos hchanged] at h₁
    obtain ⟨name, w₂, hanswer, h₂⟩ := Drafting.bind_eq_ok.1 h₁
    obtain ⟨hname, rfl⟩ := Drafting.answer_eq_ok.1 hanswer
    -- the update carries the attributes as the write leaves them, read back from the working copy
    obtain ⟨model, w₃, hreading, h₃⟩ := Drafting.bind_eq_ok.1 h₂
    obtain ⟨hmodel, rfl⟩ := Drafting.answer_eq_ok.1 hreading
    obtain ⟨ho, rfl⟩ := Drafting.answer_eq_ok.1 h₃
    cases ho
    exact ⟨change, hwrite, .inr ⟨hchanged, name, model, hname, Tree.require_eq_ok.1 hmodel, rfl⟩⟩
  · rw [if_neg hchanged] at h₁
    obtain ⟨ho, rfl⟩ := Drafting.answer_eq_ok.1 h₁
    cases ho
    exact ⟨change, hwrite, .inl ⟨hchanged, rfl⟩⟩

end ModelHandler

end ManagedModel
