import ManagedModel.Proofs.AddAndWrite
import ManagedModel.Proofs.Descent

/-! # Attributes that need a value

    A schema asks for a value if the attribute is required or may not be
    undefined.

    * Validation lets such an attribute pass without a value in one case: nothing
      is given for it, and its default is undefined itself
      (`AttributeSchema.NeedsValue.isDefined_iff`). With a default, it is not asked
      any more whether the attribute may be undefined.
    * Such defaults apart, an operation that adds the resource or writes the
      attribute leaves it with a value (`ModelHandler.draft_provides`), and no
      operation takes the value away (`ModelHandler.draft_holds`).
    * The first step of an operation waits until it is executed
      (`InFlight.Steady.waiting_of_execute`), so that MODEL does not end before
      (`InFlight.supplied_of_granted`). -/

namespace ManagedModel

/-! ### Validation -/

theorem Value.eq_undefined_of_isDefined {v : Value} (h : v.isDefined = false) : v = .undefined := by
  cases v with
  | undefined => rfl
  | _ => cases h

/-- There is a value under the name, and it is defined. -/
def HasValue (m : Attributes) (name : String) : Prop :=
  ∃ v, m.get? name = some v ∧ v.isDefined = true

theorem hasValue_of_stored? {m : Attributes} {name : String} {v : Value}
    (h : m.get? name = v.stored?) : HasValue m name ↔ v.isDefined = true := by
  unfold HasValue
  rw [h]
  unfold Value.stored?
  by_cases hv : v.isDefined = true
  · rw [if_pos hv]
    exact iff_of_true ⟨v, rfl, hv⟩ hv
  · rw [if_neg hv]
    exact iff_of_false (by rintro ⟨w, hw, -⟩; cases hw) hv

namespace AttributeSchema

/-- The attribute is required, or may not be undefined. -/
def NeedsValue (d : AttributeSchema) : Prop := d.isRequired = true ∨ d.isNullable = false

/-- Nothing is given for the attribute, and its default is undefined. -/
def FallsThrough (d : AttributeSchema) (v? : Option Value) : Prop :=
  v?.filter Value.isDefined = none ∧ d.default? = some .undefined

variable {d : AttributeSchema} {v? : Option Value} {v w : Value}

/-- What is supplied is given and defined, or else the default. -/
theorem supplied_eq_some (h : d.supplied v? = .ok (some v)) :
    v?.filter Value.isDefined = some v ∨
      v?.filter Value.isDefined = none ∧ d.default? = some v := by
  unfold supplied at h
  cases hgiven : v?.filter Value.isDefined with
  | some given =>
    rw [hgiven] at h
    exact .inl (Except.ok.inj h)
  | none =>
    rw [hgiven] at h
    cases hdefault : d.default? with
    | some dflt =>
      rw [hdefault] at h
      exact .inr ⟨rfl, Except.ok.inj h⟩
    | none =>
      rw [hdefault] at h
      dsimp only at h
      split at h
      · cases h
      · split at h <;> cases h

/-- Something is supplied where a value is needed. -/
theorem NeedsValue.supplied_ne_none (hneeds : d.NeedsValue) : d.supplied v? ≠ .ok none := by
  unfold supplied
  cases v?.filter Value.isDefined with
  | some given => exact nofun
  | none =>
    cases d.default? with
    | some dflt => exact nofun
    | none =>
      dsimp only
      rcases hneeds with hrequired | hnullable
      · rw [if_pos hrequired]
        exact nofun
      · split
        · exact nofun
        · rw [hnullable]
          exact nofun

/-- What comes out of validation is defined, unless an undefined default is all there is. -/
theorem NeedsValue.isDefined_iff (hneeds : d.NeedsValue) (h : d.validate v? = .ok w) :
    w.isDefined = true ↔ ¬ d.FallsThrough v? := by
  rcases validate_eq_ok.1 h with ⟨hnone, -⟩ | ⟨v, hsupplied, htaken⟩
  · exact absurd hnone hneeds.supplied_ne_none
  · rw [isDefined_of_normalize htaken.normalize_eq]
    rcases supplied_eq_some hsupplied with hgiven | ⟨hnothing, hdefault⟩
    · have hv : v.isDefined = true := (Option.filter_eq_some_iff.1 hgiven).2
      refine iff_of_true hv ?_
      rintro ⟨hnothing, -⟩
      rw [hgiven] at hnothing
      cases hnothing
    · cases hv : v.isDefined with
      | false =>
        have hfalls : d.FallsThrough v? :=
          ⟨hnothing, hdefault.trans (congrArg some (Value.eq_undefined_of_isDefined hv))⟩
        exact iff_of_false Bool.false_ne_true (not_not_intro hfalls)
      | true =>
        refine iff_of_true rfl ?_
        rintro ⟨-, hundefined⟩
        cases hdefault.symm.trans hundefined
        cases hv

/-- Validated attributes have the value, unless an undefined default is all there is. -/
theorem NeedsValue.hasValue_iff {defs : List AttributeSchema} {params m : Attributes}
    (hneeds : d.NeedsValue) (hnames : (defs.map (·.name)).Nodup) (hd : d ∈ defs)
    (h : validateAll defs params = .ok m) :
    HasValue m d.name ↔ ¬ d.FallsThrough (params.get? d.name) := by
  obtain ⟨-, -, hinto⟩ := bind_eq_ok.1 h
  obtain ⟨v, hvalid, hstored⟩ := get?_of_validateInto_of_mem hnames hinto hd rfl
  exact (hasValue_of_stored? hstored).trans (hneeds.isDefined_iff hvalid)

/-- A value is needed, and no undefined default takes its place. -/
structure Insists (d : AttributeSchema) : Prop where
  needsValue : d.NeedsValue
  default_ne : d.default? ≠ some .undefined

theorem Insists.not_fallsThrough (h : d.Insists) : ¬ d.FallsThrough v? :=
  fun hfalls => h.default_ne hfalls.2

end AttributeSchema

/-! ### Drafts -/

/-- If there is a resource at the address, it has a value for the attribute. -/
def Tree.Holds (t : Tree) (a : Address) (name : String) : Prop :=
  ∀ m, t.get? a = some m → HasValue m name

theorem Tree.Holds.congr {t t' : Tree} {a : Address} {name : String} (h : t.Holds a name)
    (hsame : t'.get? a = t.get? a) : t'.Holds a name := by
  intro m hm
  rw [hsame] at hm
  exact h m hm

/-- The handlers of operations that give the resource at their address a value for the attribute:
    those that add the resource, and those that write the attribute. -/
def ModelHandler.Provides {C : Type} (h : ModelHandler C) (op : Operation) (name : String) : Prop :=
  match h with
  | resource .add | property .add => True
  | resource .writeAttribute | property .writeAttribute => Resource.namedAttribute op = .ok name
  | resource _ | property _ | custom _ => False

theorem ModelHandler.Provides.isBuiltIn {C : Type} {h : ModelHandler C} {op : Operation}
    {name : String} (hprovides : h.Provides op name) : h.IsBuiltIn := by
  cases h with
  | resource h => trivial
  | property h => cases h <;> trivial
  | custom code => exact hprovides

/-- Where the change goes through, the property holds afterwards. -/
def Drafting.Brings {α : Type} (I : WorkingCopy → Prop) (m : Drafting α) : Prop :=
  ∀ ⦃w w' : WorkingCopy⦄ ⦃a : α⦄, m w = .ok (a, w') → I w'

theorem Drafting.Brings.bind {α β : Type} {I : WorkingCopy → Prop} {m : Drafting α}
    {k : α → Drafting β} (hm : m.Brings I) (hk : ∀ a, (k a).Keeps I) : (m.bind k).Brings I := by
  intro w w' b h
  obtain ⟨a, v, h₁, h₂⟩ := bind_eq_ok.1 h
  exact hk a (hm h₁) h₂

section

variable {schema? : Address → Option ResourceSchema} {op : Operation} {a : Address}
  {schema : ResourceSchema} {d : AttributeSchema}
  (hnames : (schema.attributes.map (·.name)).Nodup) (hschema : schema? a = some schema)
  (hd : d ∈ schema.attributes) (hinsists : d.Insists)

include hnames hschema hd hinsists

/-- A resource that is added has the value. -/
theorem Resource.createDraft_brings (ha : op.address = a) :
    (createDraft schema? op).Brings fun w => w.tree.Holds a d.name := by
  subst ha
  intro w w' attributes h m hm
  obtain ⟨schema', t, hschema', -, -, hvalid, rfl⟩ := createDraft_eq_ok.1 h
  cases hschema.symm.trans hschema'
  cases (Tree.get?_put_self t op.address attributes).symm.trans hm
  exact (hinsists.needsValue.hasValue_iff hnames hd hvalid).2 hinsists.not_fallsThrough

/-- An attribute that is written has a value. -/
theorem Resource.writeDraft_brings (ha : op.address = a) (hname : namedAttribute op = .ok d.name) :
    (writeDraft schema? op).Brings fun w => w.tree.Holds a d.name := by
  subst ha
  intro w w' change h m hm
  obtain ⟨schema', d', before, hschema', hd', hvalid, -, -, rfl⟩ := writeDraft_eq_ok h
  cases hschema.symm.trans hschema'
  -- the attribute that is written is the one with this schema
  have hsame : d.name = change.name :=
    Except.ok.inj (hname.symm.trans (namedAttribute_of_writeDraft h))
  rw [← hsame, ResourceSchema.attribute?_of_mem hnames hd] at hd'
  cases hd'
  cases (Tree.get?_put_self w.tree op.address _).symm.trans hm
  rw [← hsame, hasValue_of_stored? (AttributeSchema.get?_withAttribute_self _ _ _)]
  exact (hinsists.needsValue.isDefined_iff hvalid).2 hinsists.not_fallsThrough

/-- No write takes the value away. -/
theorem Resource.writeDraft_holds :
    (writeDraft schema? op).Keeps fun w => w.tree.Holds a d.name := by
  intro w w' change hw h
  by_cases ha : op.address = a
  · by_cases hname : namedAttribute op = .ok d.name
    · exact writeDraft_brings hnames hschema hd hinsists ha hname h
    · subst ha
      -- another attribute is written
      have hother : d.name ≠ change.name := by
        intro hsame
        rw [hsame] at hname
        exact hname (namedAttribute_of_writeDraft h)
      obtain ⟨-, -, before, -, -, -, hbefore, -, rfl⟩ := writeDraft_eq_ok h
      intro m hm
      cases (Tree.get?_put_self w.tree op.address _).symm.trans hm
      obtain ⟨v, hv, hdefined⟩ := hw before hbefore
      exact ⟨v, (AttributeSchema.get?_withAttribute_of_ne hother _ _).trans hv, hdefined⟩
  · obtain ⟨-, -, before, -, -, -, -, -, rfl⟩ := writeDraft_eq_ok h
    exact hw.congr (Tree.get?_put_of_ne _ (Ne.symm ha) _)

/-- The draft of an operation that provides the value leaves the resource with it. -/
theorem ModelHandler.draft_provides {C : Type} {effect : String → LiveEffect}
    {h : ModelHandler C} (ha : op.address = a) (hprovides : h.Provides op d.name) :
    (h.draft schema? effect op).Brings fun w => w.tree.Holds a d.name := by
  have hcreate := Resource.createDraft_brings hnames hschema hd hinsists ha
  have hclosed := Drafting.closed_keeps fun w => w.tree.Holds a d.name
  cases h with
  | resource h =>
    cases h with
    | add =>
      apply hcreate.bind
      intro _
      exact hclosed.answer _
    | writeAttribute =>
      have hwrite := Resource.writeDraft_brings hnames hschema hd hinsists ha hprovides
      apply hwrite.bind
      intro _
      exact hclosed.answer _
    | _ => exact absurd hprovides id
  | property h =>
    cases h with
    | add =>
      apply hcreate.bind
      intro model
      apply hclosed.bind (hclosed.answer _)
      intro name
      exact hclosed.answer _
    | writeAttribute =>
      have hwrite := Resource.writeDraft_brings hnames hschema hd hinsists ha hprovides
      apply hwrite.bind
      intro change
      split
      · apply hclosed.bind (hclosed.answer _)
        intro name
        apply hclosed.bind (hclosed.reading _)
        intro model
        exact hclosed.answer _
      · exact hclosed.answer _
    | _ => exact absurd hprovides id
  | custom code => exact absurd hprovides id

/-- The draft of a built-in operation takes the value away from no resource. -/
theorem ModelHandler.draft_holds {C : Type} {effect : String → LiveEffect} (h : ModelHandler C) :
    (h.draft schema? effect op).Keeps fun w => w.tree.Holds a d.name := by
  refine draft_of_changes (Drafting.closed_keeps _) ?_ ?_
    (Resource.writeDraft_holds hnames hschema hd hinsists) h
  · intro w w' attributes hw hcreate
    by_cases ha : op.address = a
    · exact Resource.createDraft_brings hnames hschema hd hinsists ha hcreate
    · obtain ⟨-, t, -, -, ht, -, rfl⟩ := Resource.createDraft_eq_ok.1 hcreate
      obtain ⟨-, rfl⟩ := Tree.create_eq_ok ht
      have hothers := Tree.get?_put_of_ne w.tree (Ne.symm ha) ∅
      exact hw.congr ((Tree.get?_put_of_ne _ (Ne.symm ha) _).trans hothers)
  · intro w w' attributes hw hremove
    obtain ⟨-, t, ht, rfl⟩ := WorkingCopy.remove_eq_ok.1 hremove
    obtain ⟨-, rfl⟩ := Tree.remove_eq_ok ht
    by_cases ha : op.address = a
    · subst ha
      intro m hm
      cases (Tree.get?_discard_self w.tree op.address).symm.trans hm
    · exact hw.congr (Tree.get?_discard_of_ne _ (Ne.symm ha))

end

/-! ### Steps that wait -/

namespace Agenda

variable {σ : Type} {q q' : Agenda σ} {stage stage' : Stage} {step other : σ}

/-- What waits is still there when a step is put to a queue. -/
theorem mem_waiting_of_mem {queueEnd : QueueEnd} (hmem : other ∈ q.waiting stage') :
    other ∈ (q.set stage (match queueEnd with
      | .front => step :: q.waiting stage
      | .back => q.waiting stage ++ [step])).waiting stage' := by
  by_cases hstage : stage' = stage
  · subst hstage
    rw [q.waiting_set_self]
    cases queueEnd with
    | front => exact List.mem_cons_of_mem _ hmem
    | back => exact List.mem_append_left _ hmem
  · rwa [q.waiting_set_of_ne hstage]

/-- What waits is still there when another step is taken. -/
theorem mem_waiting_of_pop? (hpop : q.pop? = some (step, q')) (hmem : other ∈ q.waiting stage) :
    other ∈ q'.waiting stage ∨ other = step ∧ q.current = some stage := by
  obtain ⟨current, rest, hcurrent, hwaiting, rfl⟩ := pop?_eq_some hpop
  by_cases hstage : stage = current
  · subst hstage
    rw [hwaiting] at hmem
    rw [q.waiting_set_self]
    rcases List.mem_cons.1 hmem with hfirst | hrest
    · exact .inr ⟨hfirst, hcurrent⟩
    · exact .inl hrest
  · rw [q.waiting_set_of_ne hstage]
    exact .inl hmem

end Agenda

namespace InFlight

section

variable {S : Signature} {c : Controller S} {f f' : InFlight S} {step other : Step S}
  {agenda : Agenda (Step S)} {stage : Stage}

/-- While a step executes, another one waits for a stage. -/
structure Waiting (other : Step S) (stage : Stage) (step : Step S) (t u : Transaction S) : Prop
    extends Running step t u where
  waits : other ∈ u.agenda.waiting stage

/-- Whatever a handler calls for, the steps that wait go on waiting. -/
theorem waiting_keptByCalls {t : Transaction S} (step : Step S)
    (ht : t.rollback.phase = .collecting) :
    KeptByCalls fun f : InFlight S => Waiting other stage step t f.transaction where
  queue {f} request h := by
    refine ⟨(running_keptByCalls step ht).queue request h.toRunning, ?_⟩
    rcases Transaction.queue_cases h.executing_eq request with ⟨-, hq⟩ | ⟨-, hq⟩
    · show other ∈ (f.transaction.queue request).2.agenda.waiting stage
      rw [hq]
      exact Agenda.mem_waiting_of_mem h.waits
    · show other ∈ (f.transaction.queue request).2.agenda.waiting stage
      rw [hq]
      exact h.waits
  onRollback {f} handler h := by
    refine ⟨(running_keptByCalls step ht).onRollback handler h.toRunning, ?_⟩
    show other ∈ (f.transaction.onRollback handler).2.agenda.waiting stage
    rw [Transaction.onRollback_of_collecting h.executing_eq (h.phase_eq.trans ht)]
    exact h.waits
  markRollbackOnly h := ⟨(running_keptByCalls step ht).markRollbackOnly h.toRunning, h.waits⟩
  askReload h := ⟨(running_keptByCalls step ht).askReload h.toRunning, h.waits⟩
  withdrawReload h := ⟨(running_keptByCalls step ht).withdrawReload h.toRunning, h.waits⟩
  attach change h := ⟨(running_keptByCalls step ht).attach change h.toRunning, h.waits⟩
  write w hstage h := ⟨(running_keptByCalls step ht).write w hstage h.toRunning, h.waits⟩
  setResult {f} value h := by
    refine ⟨(running_keptByCalls step ht).setResult value h.toRunning, ?_⟩
    show other ∈ (f.transaction.setResult value).agenda.waiting stage
    rw [Transaction.setResult_of_executing h.executing_eq]
    exact h.waits
  environment change h := h

/-- A step that waits is still there when another one has been executed. -/
theorem Steady.waiting_of_execute (hf : Steady f.transaction)
    (hpop : f.transaction.agenda.pop? = some (step, agenda)) {r : Except Fault Unit}
    (hexecute : execute c step (f.onTransaction fun t => { t with agenda }) = (r, f'))
    (hmem : other ∈ f.transaction.agenda.waiting stage) :
    other ∈ f'.transaction.agenda.waiting stage ∨
      other = step ∧ f.transaction.agenda.current = some stage := by
  refine (Agenda.mem_waiting_of_pop? hpop hmem).imp_left fun hleft => ?_
  obtain ⟨outcome, g, hrun, -, -, rfl⟩ := hf.of_execute hexecute
  have hcollecting : (f.taken step agenda).transaction.rollback.phase = .collecting :=
    hf.collecting
  have hbegun : Waiting other stage step (f.taken step agenda).transaction
      (f.taken step agenda).transaction := ⟨hf.running_taken, hleft⟩
  have hkept := KeptByCalls.run_transaction (c := c) (waiting_keptByCalls step hcollecting)
    (c.handle step.handler step.operation) hbegun
  rw [hrun] at hkept
  exact hkept.waits

theorem waiting_entered (f : InFlight S) (next : Stage) :
    (f.entered next).transaction.agenda.waiting stage = f.transaction.agenda.waiting stage := by
  cases stage <;> rfl

end

/-! ### Transactions -/

section

variable {X : Signature} {c : Controller X.withProperties} {cfg : PropertyConfig}
  {a : Address} {schema : ResourceSchema} {d : AttributeSchema}
  {f₀ f f' : InFlight X.withProperties} {step : Step X.withProperties}
  {agenda : Agenda (Step X.withProperties)} {log : List (StepGrant X.withProperties)}

/-- The resource has the value, or it gets it by a step that waits for MODEL. -/
def Supplied (f : InFlight X.withProperties) (a : Address) (name : String) : Prop :=
  f.transaction.working.tree.Holds a name ∨
    ∃ step ∈ f.transaction.agenda.waiting .model,
      step.operation.address = a ∧ step.handler.Provides step.operation name

variable (hr : c.registry.Built) (hc : c.RunsModel cfg)
  (hcustom : ∀ code op, (c.handle (.custom code) op).SparesModel c)
  (hschema : c.registry.resource? a = some schema) (hd : d ∈ schema.attributes)
  (hinsists : d.Insists)

include hr hc hcustom hschema hd hinsists

/-- The step that is executed provides the value if it was the one to do so, and otherwise the value
    stays, or the step that provides it waits still. -/
theorem supplied_of_execute (hf : Steady f.transaction)
    (hpop : f.transaction.agenda.pop? = some (step, agenda))
    (hexecute : execute c step (f.onTransaction fun t => { t with agenda }) = (.ok (), f'))
    (h : f.Supplied a d.name) : f'.Supplied a d.name := by
  have hnames := hr.nodup_of_resource? hschema
  have hdraft := draft_of_execute hc hcustom hf hpop hexecute
  rcases h with hholds | ⟨provider, hwaiting, ha, hprovides⟩
  · left
    rcases hdraft with ⟨-, -, o, hdraft⟩ | ⟨-, hkept⟩
    · exact ModelHandler.draft_holds hnames hschema hd hinsists step.handler hholds hdraft
    · rw [hkept]
      exact hholds
  · rcases hf.waiting_of_execute hpop hexecute hwaiting with hstill | ⟨rfl, hcurrent⟩
    · exact .inr ⟨provider, hstill, ha, hprovides⟩
    · left
      rcases hdraft with ⟨-, -, o, hdraft⟩ | ⟨hnot, -⟩
      · exact ModelHandler.draft_provides hnames hschema hd hinsists ha hprovides hdraft
      · exact absurd ⟨hf.stage_eq hcurrent, hprovides.isBuiltIn⟩ hnot

theorem supplied_of_granted (hsteady : Steady f₀.transaction) (h₀ : f₀.Supplied a d.name)
    (h : Granted c f₀ log f) : f.Supplied a d.name := by
  induction h with
  | start => exact h₀
  | @enter log f stage h hpop hnext ih =>
    refine ih.imp_right ?_
    rintro ⟨step, hwaiting, hprovides⟩
    exact ⟨step, (f.waiting_entered stage).symm ▸ hwaiting, hprovides⟩
  | step h hpop hexecute ih =>
    exact supplied_of_execute hr hc hcustom hschema hd hinsists (hsteady.underway h.underway) hpop
      hexecute ih

/-- A transaction that comes to its end has carried out what it was to provide. -/
theorem holds_of_atEnd (hsteady : Steady f₀.transaction)
    (hcurrent : f₀.transaction.agenda.current = none) (h₀ : f₀.Supplied a d.name)
    (h : Granted c f₀ log f) (hend : AtEnd f) : f.transaction.working.tree.Holds a d.name := by
  obtain ⟨log', -, g, -, hg, hgend, hworking, -⟩ :=
    h.exists_endOfModel hsteady hcurrent hend.current_eq nofun
  rw [hworking]
  rcases supplied_of_granted hr hc hcustom hschema hd hinsists hsteady h₀ hg with
    hholds | ⟨step, hwaiting, -⟩
  · exact hholds
  · -- no step waits for MODEL any more
    rw [Agenda.pop?_eq_none hgend.empty hgend.current_eq] at hwaiting
    cases hwaiting

end

end InFlight

/-! ### Submissions -/

namespace Controller

open InFlight

section

variable {X : Signature} {c : Controller X.withProperties} {cfg : PropertyConfig}
  {a : Address} {schema : ResourceSchema} {d : AttributeSchema}
  {s s' t : ControllerState X.withProperties} {sub : Submission} {outcome : Outcome}

/-- The submission commits, and one of its operations provides the value. -/
def Provides (c : Controller X.withProperties) (a : Address) (name : String) (sub : Submission)
    (outcome : Outcome) : Prop :=
  (∃ response, outcome = .ok response) ∧ ∃ op ∈ sub.operations, op.address = a ∧
    ∃ entry, c.registry.operation? op.address op.name = some entry ∧ entry.handler.Provides op name

/-- The step of the operation waits when the transaction begins. -/
theorem supplied_of_begins
    {accepted : List (Operation × RegisteredOperation X.withProperties.Handler)}
    {f₀ : InFlight X.withProperties} (hbegins : Begins c sub s accepted f₀) {name : String}
    (h : s.store.tree.Holds a name ∨ Provides c a name sub outcome) : f₀.Supplied a name := by
  rcases h with hholds | ⟨-, op, hop, ha, entry, hentry, hprovides⟩
  · left
    have hworking : WorkingCopy.ofTree s.store.tree (writeScope accepted) =
      f₀.transaction.working := Except.ok.inj hbegins.confined.2
    rw [← hworking]
    exact hholds
  · right
    rw [← (acceptAll_eq_ok.1 hbegins.accepted_eq).1] at hop
    obtain ⟨x, hx, rfl⟩ := List.mem_map.1 hop
    have hsame := operation?_of_acceptAll hbegins.accepted_eq x hx
    cases hentry.symm.trans hsame
    obtain ⟨i, hlt, rfl⟩ := List.mem_iff_getElem.1 hx
    obtain ⟨lock, locked, -, rfl⟩ := hbegins.locked
    refine ⟨{ ticket := i, origin := i, operation := accepted[i].1,
              handler := accepted[i].2.handler }, ?_, ha, hprovides⟩
    rw [(agenda_begin _ _ _ _).1]
    exact List.mem_mapIdx.2 ⟨i, hlt, rfl⟩

variable (hr : c.registry.Built) (hc : c.RunsModel cfg)
  (hcustom : ∀ code op, (c.handle (.custom code) op).SparesModel c)
  (hschema : c.registry.resource? a = some schema) (hd : d ∈ schema.attributes)
  (hinsists : d.Insists)

include hr hc hcustom hschema hd hinsists

theorem hasValue_of_perform (h : c.perform sub s = .ok (outcome, s'))
    (hbefore : s.store.tree.Holds a d.name ∨ Provides c a d.name sub outcome) :
    s'.store.tree.Holds a d.name := by
  rcases perform_cases h with ⟨hunbegun, rfl⟩ | ⟨accepted, f₀, ended, hbegins, hended, hreports⟩
  · -- no operation was carried out
    rw [sub.store_after]
    refine hbefore.resolve_right ?_
    rintro ⟨⟨response, rfl⟩, op, hop, -⟩
    cases hunbegun with
    | empty hempty =>
      rw [hempty] at hop
      cases hop
  · obtain ⟨log, -, ⟨⟨failure, rfl⟩, hstore⟩ | ⟨f, hf, hend, hconfined, hpublished⟩⟩ :=
      hbegins.store_cases (uninterrupted hc hcustom) hended hreports
    · rw [hstore]
      refine hbefore.resolve_right ?_
      rintro ⟨⟨response, hok⟩, -⟩
      cases hok
    · rw [hpublished, hconfined.tree_publish]
      obtain ⟨hsteady, hcurrent⟩ := hbegins.steady
      exact holds_of_atEnd hr hc hcustom hschema hd hinsists hsteady hcurrent
        (supplied_of_begins hbegins hbefore) hf hend

/-- Once a resource has the value, it has it ever after. -/
theorem hasValue_of_run {log : List (Submission × Outcome)} (hrun : Run c s log t)
    (hbefore : s.store.tree.Holds a d.name ∨ ∃ p ∈ log, Provides c a d.name p.1 p.2) :
    t.store.tree.Holds a d.name := by
  induction hrun with
  | start =>
    refine hbefore.resolve_right ?_
    rintro ⟨p, hp, -⟩
    cases hp
  | @next log t t' sub outcome before answer ih =>
    refine hasValue_of_perform hr hc hcustom hschema hd hinsists answer ?_
    rcases hbefore with hholds | ⟨p, hp, hprovides⟩
    · exact .inl (ih (.inl hholds))
    · rcases List.mem_append.1 hp with hp | hp
      · exact .inl (ih (.inr ⟨p, hp, hprovides⟩))
      · rw [List.mem_singleton.1 hp] at hprovides
        exact .inr hprovides

end

/-- Where a schema needs a value, there is one, unless nothing is given for it and the default is
    undefined itself. What a single attribute validates to is defined, and validated attributes have
    it; and if nothing but the built-in operations changes the model, then from the submission that
    adds the resource or writes the attribute on, and as long as it is there, the resource has a
    value for it. -/
theorem needed_values {d : AttributeSchema} (hneeds : d.NeedsValue) :
    (∀ v? w, d.validate v? = .ok w → (w.isDefined = true ↔ ¬ d.FallsThrough v?)) ∧
    (∀ defs params m, (defs.map (·.name)).Nodup → d ∈ defs →
      AttributeSchema.validateAll defs params = .ok m →
        (HasValue m d.name ↔ ¬ d.FallsThrough (params.get? d.name))) ∧
    (d.default? ≠ some .undefined →
      ∀ {X : Signature} {c : Controller X.withProperties} {cfg : PropertyConfig},
        c.registry.Built → c.RunsModel cfg →
        (∀ code op, (c.handle (.custom code) op).SparesModel c) →
        ∀ a schema, c.registry.resource? a = some schema → d ∈ schema.attributes →
          ∀ s log t, Run c s log t →
            (s.store.tree.Holds a d.name ∨ ∃ p ∈ log, Provides c a d.name p.1 p.2) →
              t.store.tree.Holds a d.name) := by
  refine ⟨fun _ _ h => hneeds.isDefined_iff h, ?_, ?_⟩
  · intro defs params m hnames hd h
    exact hneeds.hasValue_iff hnames hd h
  · intro hdefault X c cfg hr hc hcustom a schema hschema hd s log t hrun hbefore
    have hinsists : d.Insists := ⟨hneeds, hdefault⟩
    exact hasValue_of_run hr hc hcustom hschema hd hinsists hrun hbefore

end Controller

/-- The size of a letter has to be given. -/
def letterSize : AttributeSchema := (AttributeSchema.new "size" .int).required

/-- Where a letter goes has to be there, and is home unless it is given. -/
def letterAddress : AttributeSchema :=
  ((AttributeSchema.new "address" .string).notNullable).withDefault (.string "home")

/-- A remark has to be there, too, though its default is undefined. -/
def letterRemark : AttributeSchema :=
  ((AttributeSchema.new "remark" .string).notNullable).withDefault .undefined

/-- A model with letters. -/
def ModelSpec.letters : ModelSpec Empty where
  resources :=
    [{ pattern := ⟨[.wildcard "letter"]⟩
       attributes := [letterSize, letterAddress, letterRemark] }]

namespace Controller

/-- The controller of the model with letters. -/
def posting : Controller ({ Signature.bare with Handler := Empty } : Signature).withProperties where
  registry := ModelSpec.letters.registry.toOption.getD {}
  handle := ModelHandler.program {} fun code _ => code.elim
  interlude := fun code => code.elim
  stepLimit := 10

theorem built_posting : posting.registry.Built := ModelSpec.letters.built_getD

/-- A letter is added, its address is reset, and its size cannot be. -/
theorem needed_values_posting :
    ∃ log t m, Run posting { environment := { other := () } } log t ∧
      t.store.tree.get? ⟨[⟨"letter", "x"⟩]⟩ = some m ∧
      m.get? "size" = some (.int 2) ∧ HasValue m "address" := by
  let a : Address := ⟨[⟨"letter", "x"⟩]⟩
  let add := Resource.addRequest a (.ofList [("size", .int 2), ("address", .string "away")])
  have hrun : posting.answers (.execute add) { environment := { other := () } }
      (fun first s₁ => first.isOk && posting.answers
        (.execute (Resource.writeRequest a "address" (some .undefined))) s₁
          fun second s₂ => second.isOk && posting.answers
            (.execute (Resource.writeRequest a "size" none)) s₂ fun third s₃ => !third.isOk &&
              (s₃.store.tree.get? a).any fun m => m.get? "size" == some (.int 2)) = true := by
    decide +kernel
  obtain ⟨first, s₁, h₁, hrun⟩ := exists_of_answers hrun
  obtain ⟨hadded, hrun⟩ := Bool.and_eq_true_iff.1 hrun
  obtain ⟨second, s₂, h₂, hrun⟩ := exists_of_answers hrun
  obtain ⟨third, s₃, h₃, hrun⟩ := exists_of_answers (Bool.and_eq_true_iff.1 hrun).2
  have hreached := ((Run.start.next h₁).next h₂).next h₃
  obtain ⟨m, hm, hsize⟩ := (Option.any_eq_true _ _).1 (Bool.and_eq_true_iff.1 hrun).2
  -- the first submission has provided the address
  have hprovides : Provides posting a letterAddress.name (.execute add) first := by
    cases first with
    | error failure => cases hadded
    | ok response =>
      have hentry : posting.registry.operation? a "add" =
          some ⟨Resource.addSchema [letterSize, letterAddress, letterRemark],
            .resource .add⟩ := rfl
      exact ⟨⟨response, rfl⟩, add, List.mem_singleton_self add, rfl, _, hentry, trivial⟩
  have hc : posting.RunsModel {} := ⟨fun _ _ => rfl, fun _ _ => rfl⟩
  have hcustom : ∀ code op, (posting.handle (.custom code) op).SparesModel posting :=
    fun code => code.elim
  have hschema : posting.registry.resource? a =
      some ⟨⟨[.wildcard "letter"]⟩, [letterSize, letterAddress, letterRemark]⟩ := rfl
  have hneeds : letterAddress.NeedsValue := .inr rfl
  obtain ⟨-, -, hholds⟩ := needed_values hneeds
  refine ⟨_, s₃, m, hreached, hm, eq_of_beq hsize, ?_⟩
  exact hholds nofun built_posting hc hcustom a _ hschema
    (List.mem_cons_of_mem _ List.mem_cons_self) _ _ _ hreached
    (.inr ⟨_, List.mem_cons_self, hprovides⟩) m hm

/-- The remark has to be there, but an undefined default is not looked at any further: it validates
    to an undefined value and is missing from what all attributes validate to, and a letter is
    committed without it. -/
theorem needed_value_missing :
    letterRemark.NeedsValue ∧ letterRemark.validate none = .ok .undefined ∧
      AttributeSchema.validateAll [letterRemark] ∅ = .ok ∅ ∧
      ∃ response s' schema m,
        posting.perform (.execute (Resource.addRequest ⟨[⟨"letter", "x"⟩]⟩
            (.ofList [("size", .int 2)]))) { environment := { other := () } } =
          .ok (.ok response, s') ∧
        posting.registry.resource? ⟨[⟨"letter", "x"⟩]⟩ = some schema ∧
        letterRemark ∈ schema.attributes ∧ s'.store.tree.get? ⟨[⟨"letter", "x"⟩]⟩ = some m ∧
        m.get? letterRemark.name = none := by
  let a : Address := ⟨[⟨"letter", "x"⟩]⟩
  have hrun : posting.answers
      (.execute (Resource.addRequest a (.ofList [("size", .int 2)])))
      { environment := { other := () } } (fun outcome s' => outcome.isOk &&
        (s'.store.tree.get? a).any fun m => (m.get? letterRemark.name).isNone) = true := by
    decide +kernel
  obtain ⟨outcome, s', h, hrun⟩ := exists_of_answers hrun
  obtain ⟨hok, hmissing⟩ := Bool.and_eq_true_iff.1 hrun
  obtain ⟨m, hm, hnone⟩ := (Option.any_eq_true _ _).1 hmissing
  cases outcome with
  | error failure => cases hok
  | ok response =>
    exact ⟨.inr rfl, rfl, rfl, response, s', _, m, h, rfl,
      List.mem_cons_of_mem _ (List.mem_cons_of_mem _ List.mem_cons_self), hm,
      Option.isNone_iff_eq_none.1 hnone⟩

end Controller

end ManagedModel
