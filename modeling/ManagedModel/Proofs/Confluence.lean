import ManagedModel.Proofs.Course.Properties
import ManagedModel.Proofs.Course.Resolution
import ManagedModel.Proofs.Course.Settlement
import ManagedModel.Proofs.Registration
import ManagedModel.Proofs.Validation

/-! # Confluence

    A transaction that adds properties comes to the same in every order of its
    operations, even where the values refer to properties that are added later.

    * In MODEL, additions of different properties commute (`Draft.step_swap`),
      so that all orders draft the same tree and leave the same updates
      (`Draft.run_perm`).
    * In RUNTIME, all orders of these updates leave the least live properties
      that are closed under them (`Alignment.settle_of_perm`).
    * The operations are accepted, and their ranges locked, in every order or
      in none. -/

namespace ManagedModel

/-! ### Parameters with plain references -/

/-- The references in the value are plain, if it has any. -/
def Value.IsPlain : Value → Prop
  | .string text => Expression.opensReference text.toList = true → Expression.IsPlain text
  | .expression text => Expression.IsPlain text
  | _ => True

namespace AttributeSchema

/-- An expression that is stored was given, as an expression or as text with a reference. -/
theorem validate_eq_expression {d : AttributeSchema} {v? : Option Value} {e : String}
    (hdefault : d.default? = none) (h : d.validate v? = .ok (.expression e)) :
    v? = some (.expression e) ∨
      v? = some (.string e) ∧ Expression.opensReference e.toList = true := by
  rcases validate_eq_ok.1 h with ⟨-, hundefined⟩ | ⟨v, hsupplied, htaken⟩
  · cases hundefined
  · rw [eq_some_of_supplied hdefault hsupplied]
    rcases normalize_cases htaken.normalize_eq with rfl | ⟨text, rfl, htext, -, hopens⟩
    · exact .inl rfl
    · cases htext
      exact .inr ⟨rfl, hopens⟩

end AttributeSchema

/-- A property that is added with a plain value is stored with one. -/
theorem hasPlainValue_of_validateAll {useBootTime : Bool} {params model : Attributes}
    (hplain : ∀ v, params.get? propertyValueAttribute = some v → v.IsPlain)
    (h : AttributeSchema.validateAll (Property.attributes useBootTime) params = .ok model) :
    HasPlainValue model := by
  intro e he
  obtain ⟨-, -, h⟩ := bind_eq_ok.1 h
  obtain ⟨v, hv, h⟩ := bind_eq_ok.1 h
  -- the schema of the value comes first, and that of the boot time does not touch it
  have hothers : ∀ d ∈ (if useBootTime then
      [(AttributeSchema.new Property.bootTimeAttribute .bool).withDefault (.bool true)] else []),
      d.name ≠ propertyValueAttribute := by
    cases useBootTime <;> decide
  rw [AttributeSchema.get?_of_validateInto hothers h] at he
  have hve : v = .expression e := by
    split at he
    · rw [show ((AttributeSchema.new propertyValueAttribute .string).allowExpression).name =
        propertyValueAttribute from rfl, SortedMap.get?_insert_self] at he
      exact Option.some.inj he
    · cases he
  subst hve
  rcases AttributeSchema.validate_eq_expression rfl hv with hgiven | ⟨hgiven, hopens⟩
  · exact hplain _ hgiven
  · exact hplain _ hgiven hopens

/-! ### MODEL -/

theorem Tree.create_property {t t' : Tree} {name : String} :
    t.create (Property.address name) = .ok t' ↔
      t.contains (Property.address name) = false ∧ t.contains .root = true ∧
        t' = t.put (Property.address name) ∅ := by
  have hparent : (Property.address name).parent? = some .root := rfl
  unfold create
  rw [hparent]
  dsimp only
  by_cases hthere : t.contains (Property.address name)
  · rw [if_pos hthere]
    constructor
    · intro h
      cases h
    · rintro ⟨hfresh, -⟩
      rw [hthere] at hfresh
      cases hfresh
  · rw [if_neg hthere]
    by_cases hroot : t.contains .root
    · rw [if_pos hroot]
      constructor
      · intro h
        cases h
        exact ⟨Bool.eq_false_iff.2 hthere, hroot, rfl⟩
      · rintro ⟨-, -, rfl⟩
        rfl
    · rw [if_neg hroot]
      constructor
      · intro h
        cases h
      · rintro ⟨-, hroot', -⟩
        exact absurd hroot' hroot

theorem Tree.put_comm (t : Tree) {a b : Address} (h : a ≠ b) (x y : Attributes) :
    (t.put a x).put b y = (t.put b y).put a x := by
  refine Tree.ext_get? fun k => ?_
  by_cases ha : k = a
  · rw [ha, Tree.get?_put_of_ne _ h, Tree.get?_put_self, Tree.get?_put_self]
  · rw [Tree.get?_put_of_ne (t.put b y) ha]
    by_cases hb : k = b
    · rw [hb, Tree.get?_put_self, Tree.get?_put_self]
    · rw [Tree.get?_put_of_ne _ hb, Tree.get?_put_of_ne _ ha, Tree.get?_put_of_ne _ hb]

namespace Draft

variable {C : Type} {schema? : Address → Option ResourceSchema} {schema : ResourceSchema}
  {effect : String → LiveEffect} {op : Operation} {name : String} {model : Attributes}
  {d d' e e' : Draft}

/-- The property can be added, and its parameters fit. -/
structure Admits (schema : ResourceSchema) (op : Operation) (name : String) (model : Attributes)
    (d : Draft) : Prop where
  inScope : d.working.inScope (Property.address name) = true
  fresh : d.working.tree.contains (Property.address name) = false
  root : d.working.tree.contains .root = true
  valid : AttributeSchema.validateAll schema.attributes op.params = .ok model

/-- The second draft has the property in addition. -/
structure Gains (effect : String → LiveEffect) (name : String) (model : Attributes)
    (d d' : Draft) : Prop where
  tree_eq : d'.working.tree = d.working.tree.put (Property.address name) model
  scope_eq : d'.working.scope = d.working.scope
  updates_eq : d'.updates = d.updates ++ [{ name, model, effect := effect name }]

/-- But for the order of the updates, the drafts are about the same. -/
structure Same (d e : Draft) : Prop where
  tree_eq : e.working.tree = d.working.tree
  scope_eq : e.working.scope = d.working.scope
  perm : d.updates.Perm e.updates

theorem Same.refl (d : Draft) : d.Same d := ⟨rfl, rfl, .refl _⟩

theorem Same.trans {f : Draft} (h : d.Same e) (h' : e.Same f) : d.Same f :=
  ⟨h'.tree_eq.trans h.tree_eq, h'.scope_eq.trans h.scope_eq, h.perm.trans h'.perm⟩

theorem Same.admits (h : d.Same e) (hd : d.Admits schema op name model) :
    e.Admits schema op name model := by
  refine ⟨?_, ?_, ?_, hd.valid⟩
  · unfold WorkingCopy.inScope
    rw [h.scope_eq]
    exact hd.inScope
  · rw [h.tree_eq]
    exact hd.fresh
  · rw [h.tree_eq]
    exact hd.root

theorem Same.gains (h : d.Same e) (hd : d.Gains effect name model d')
    (he : e.Gains effect name model e') : d'.Same e' := by
  refine ⟨?_, ?_, ?_⟩
  · rw [he.tree_eq, hd.tree_eq, h.tree_eq]
  · rw [he.scope_eq, hd.scope_eq, h.scope_eq]
  · rw [he.updates_eq, hd.updates_eq]
    exact h.perm.append_right _

section Addition

variable (hschema : ∀ name, schema? (Property.address name) = some schema)
  (hop : op.address = Property.address name)

include hschema hop

theorem step_add_eq_ok
    (h : step schema? effect d (op, (.property .add : ModelHandler C)) = .ok d') :
    ∃ model, d.Admits schema op name model ∧ d.Gains effect name model d' := by
  obtain ⟨o, w, hdraft, rfl⟩ := step_eq_ok.1 h
  obtain ⟨model, name', hcreate, hname, rfl⟩ := ModelHandler.draft_add_eq_ok.1 hdraft
  obtain rfl : name = name' := Except.ok.inj ((Property.nameOf_of_address_eq hop).symm.trans hname)
  obtain ⟨schema', t, hfound, hscope, ht, hvalid, rfl⟩ := Resource.createDraft_eq_ok.1 hcreate
  rw [hop] at hfound hscope ht
  rw [hschema] at hfound
  cases hfound
  obtain ⟨hfresh, hroot, rfl⟩ := Tree.create_property.1 ht
  refine ⟨model, ⟨hscope, hfresh, hroot, hvalid⟩, ?_, rfl, rfl⟩
  show ((d.working.tree.put (Property.address name) ∅).put op.address model) = _
  rw [hop, Tree.put_put_self]

theorem exists_step_add (effect : String → LiveEffect) (h : d.Admits schema op name model) :
    ∃ d', step schema? effect d (op, (.property .add : ModelHandler C)) = .ok d' ∧
      d.Gains effect name model d' := by
  -- what the draft asks for: a place in the tree, the schema and the scope
  have hcreate : d.working.tree.create op.address =
      .ok (d.working.tree.put (Property.address name) ∅) := by
    rw [hop]
    exact Tree.create_property.2 ⟨h.fresh, h.root, rfl⟩
  have hfound : schema? op.address = some schema := by rw [hop, hschema]
  have hscope : d.working.inScope op.address = true := by rw [hop, h.inScope]
  have hstored := Resource.createDraft_eq_ok.2 ⟨schema, _, hfound, hscope, hcreate, h.valid, rfl⟩
  have hdraft : (.property .add : ModelHandler C).draft schema? effect op d.working = .ok _ :=
    ModelHandler.draft_add_eq_ok.2 ⟨model, name, hstored, Property.nameOf_of_address_eq hop, rfl⟩
  have hstep : step schema? effect d (op, (.property .add : ModelHandler C)) = .ok _ :=
    step_eq_ok.2 ⟨_, _, hdraft, rfl⟩
  refine ⟨_, hstep, ?_⟩
  obtain ⟨model', hadmits, hgains⟩ := step_add_eq_ok hschema hop hstep
  have hmodel := hadmits.valid
  rw [h.valid] at hmodel
  cases hmodel
  exact hgains

end Addition

section Additions

variable (hschema : ∀ name, schema? (Property.address name) = some schema)

/-- The task is to add a property. -/
def IsAddition (task : Operation × ModelHandler C) : Prop :=
  task.2 = .property .add ∧ ∃ name, task.1.address = Property.address name

variable {tasks tasks' : List (Operation × ModelHandler C)} {task other : Operation × ModelHandler C}

include hschema

/-- An addition does the same to drafts that are the same. -/
theorem step_same (htask : IsAddition task) (hsame : d.Same e)
    (h : step schema? effect d task = .ok d') :
    ∃ e', step schema? effect e task = .ok e' ∧ d'.Same e' := by
  obtain ⟨op, handler⟩ := task
  obtain ⟨rfl, name, hop⟩ := htask
  obtain ⟨model, hadmits, hgains⟩ := step_add_eq_ok hschema hop h
  obtain ⟨e', hstep, hgains'⟩ := exists_step_add hschema hop effect (hsame.admits hadmits)
  exact ⟨e', hstep, hsame.gains hgains hgains'⟩

theorem run_same (htasks : ∀ task ∈ tasks, IsAddition task) (hsame : d.Same e)
    (h : run schema? effect tasks d = .ok d') :
    ∃ e', run schema? effect tasks e = .ok e' ∧ d'.Same e' := by
  induction tasks generalizing d e with
  | nil =>
    cases h
    exact ⟨e, rfl, hsame⟩
  | cons task tasks ih =>
    obtain ⟨htask, hrest⟩ := List.forall_mem_cons.1 htasks
    rw [run_cons] at h
    split at h
    · rename_i d₁ hstep
      obtain ⟨e₁, hstep', hsame₁⟩ := step_same hschema htask hsame hstep
      rw [run_cons, hstep']
      exact ih hrest hsame₁ h
    · cases h

/-- Two additions may change places. -/
theorem step_swap {d₁ d₂ : Draft} (htask : IsAddition task) (hother : IsAddition other)
    (h₁ : step schema? effect d task = .ok d₁) (h₂ : step schema? effect d₁ other = .ok d₂) :
    ∃ e₁ e₂, step schema? effect d other = .ok e₁ ∧ step schema? effect e₁ task = .ok e₂ ∧
      d₂.Same e₂ := by
  obtain ⟨op, handler⟩ := task
  obtain ⟨op', handler'⟩ := other
  obtain ⟨rfl, name, hop⟩ := htask
  obtain ⟨rfl, name', hop'⟩ := hother
  obtain ⟨model, hadmits₁, hgains₁⟩ := step_add_eq_ok hschema hop h₁
  obtain ⟨model', hadmits₂, hgains₂⟩ := step_add_eq_ok hschema hop' h₂
  -- a property that was just added cannot be added again
  have hne : Property.address name' ≠ Property.address name := by
    intro heq
    have hfresh := hadmits₂.fresh
    rw [hgains₁.tree_eq, heq, Tree.contains_put_self] at hfresh
    cases hfresh
  -- so the other property was as absent before the first addition as after it
  have hfirst : d.Admits schema op' name' model' := by
    refine ⟨?_, ?_, hadmits₁.root, hadmits₂.valid⟩
    · have hscope := hadmits₂.inScope
      unfold WorkingCopy.inScope at hscope ⊢
      rw [hgains₁.scope_eq] at hscope
      exact hscope
    · have hfresh := hadmits₂.fresh
      rw [hgains₁.tree_eq, Tree.contains_put_of_ne _ hne] at hfresh
      exact hfresh
  obtain ⟨e₁, hstep₁, hgains₁'⟩ := exists_step_add hschema hop' effect hfirst
  have hsecond : e₁.Admits schema op name model := by
    refine ⟨?_, ?_, ?_, hadmits₁.valid⟩
    · have hscope := hadmits₁.inScope
      unfold WorkingCopy.inScope at hscope ⊢
      rw [hgains₁'.scope_eq]
      exact hscope
    · rw [hgains₁'.tree_eq, Tree.contains_put_of_ne _ hne.symm]
      exact hadmits₁.fresh
    · rw [hgains₁'.tree_eq, Tree.contains_put_of_ne]
      · exact hadmits₁.root
      · intro heq
        cases heq
  obtain ⟨e₂, hstep₂, hgains₂'⟩ := exists_step_add hschema hop effect hsecond
  refine ⟨e₁, e₂, hstep₁, hstep₂, ?_, ?_, ?_⟩
  · rw [hgains₂'.tree_eq, hgains₁'.tree_eq, hgains₂.tree_eq, hgains₁.tree_eq, Tree.put_comm _ hne]
  · rw [hgains₂'.scope_eq, hgains₁'.scope_eq, hgains₂.scope_eq, hgains₁.scope_eq]
  · rw [hgains₂'.updates_eq, hgains₁'.updates_eq, hgains₂.updates_eq, hgains₁.updates_eq,
      List.append_assoc, List.append_assoc]
    exact (List.Perm.swap _ _ []).append_left _

/-- Additions draft the same in every order. -/
theorem run_perm (hperm : tasks.Perm tasks') (htasks : ∀ task ∈ tasks, IsAddition task)
    (h : run schema? effect tasks d = .ok d') :
    ∃ e', run schema? effect tasks' d = .ok e' ∧ d'.Same e' := by
  induction hperm generalizing d d' with
  | nil => exact ⟨d', h, .refl d'⟩
  | cons task hperm ih =>
    obtain ⟨-, hrest⟩ := List.forall_mem_cons.1 htasks
    rw [run_cons] at h
    split at h
    · rename_i d₁ hstep
      obtain ⟨e', hrun, hsame⟩ := ih hrest h
      refine ⟨e', ?_, hsame⟩
      rw [run_cons, hstep]
      exact hrun
    · cases h
  | swap task other tasks =>
    obtain ⟨hother, hrest⟩ := List.forall_mem_cons.1 htasks
    obtain ⟨htask, hrest⟩ := List.forall_mem_cons.1 hrest
    rw [run_cons] at h
    split at h
    · rename_i d₁ h₁
      rw [run_cons] at h
      split at h
      · rename_i d₂ h₂
        obtain ⟨e₁, e₂, hstep₁, hstep₂, hsame⟩ := step_swap hschema hother htask h₁ h₂
        obtain ⟨e', hrun, hsame'⟩ := run_same hschema hrest hsame h
        refine ⟨e', ?_, hsame'⟩
        rw [run_cons, hstep₁]
        dsimp only
        rw [run_cons, hstep₂]
        exact hrun
      · cases h
    · cases h
  | trans hperm₁ hperm₂ ih₁ ih₂ =>
    obtain ⟨e₁, hrun₁, hsame₁⟩ := ih₁ htasks h
    obtain ⟨e₂, hrun₂, hsame₂⟩ := ih₂ (fun task ht => htasks task (hperm₁.mem_iff.2 ht)) hrun₁
    exact ⟨e₂, hrun₂, hsame₁.trans hsame₂⟩

end Additions

end Draft

/-! ### Submissions -/

/-- The operation adds a property that has no live value, with a value whose references are
    plain. -/
structure Operation.AddsForward (live : LiveProperties) (op : Operation) : Prop where
  name_eq : op.name = "add"
  address : ∃ name, op.address = Property.address name ∧ live.get? name = none
  plain : ∀ v, op.params.get? propertyValueAttribute = some v → v.IsPlain

/-- The requests of the interface add a property in this way, if their text has plain references
    only. -/
theorem Property.addsForward_addRequest {live : LiveProperties} {name : String}
    (hunset : live.get? name = none) {value? : Option String}
    (hplain : ∀ text, value? = some text → (Value.string text).IsPlain) (bootTime? : Option Bool) :
    (addRequest name value? bootTime?).AddsForward live := by
  have haddress : (addRequest name value? bootTime?).address = address name := by
    cases value? <;> cases bootTime? <;> rfl
  refine ⟨?_, ⟨name, haddress, hunset⟩, ?_⟩
  · cases value? <;> cases bootTime? <;> rfl
  · intro v hv
    have hgiven : (value?.map Value.string) = some v := by
      rw [← hv]
      cases value? <;> cases bootTime? <;> rfl
    obtain ⟨text, htext, rfl⟩ := Option.map_eq_some_iff.1 hgiven
    exact hplain text htext

/-- What the additions leave for RUNTIME. -/
theorem Draft.forward_of_run {C : Type} {schema? : Address → Option ResourceSchema}
    {effect : String → LiveEffect} {useBootTime : Bool} {live₀ : LiveProperties}
    {pattern : Address}
    (hschema : ∀ name, schema? (Property.address name) =
      some { pattern, attributes := Property.attributes useBootTime })
    {tasks : List (Operation × ModelHandler C)}
    (htasks : ∀ task ∈ tasks, task.2 = .property .add ∧ task.1.AddsForward live₀) {d d' : Draft}
    (hd : d.updates = []) (h : run schema? effect tasks d = .ok d') : Forward live₀ d'.updates := by
  -- the properties that were added are in the tree, and so they are not added again
  suffices hboth : Forward live₀ d'.updates ∧
      ∀ u ∈ d'.updates, d'.working.tree.contains (Property.address u.name) = true from hboth.1
  refine run_keeps (I := fun d => Forward live₀ d.updates ∧
    ∀ u ∈ d.updates, d.working.tree.contains (Property.address u.name) = true) ?_ h ?_
  · rintro d d' ⟨op, handler⟩ htask ⟨hforward, hthere⟩ hstep
    obtain ⟨rfl, hadds⟩ := htasks _ htask
    obtain ⟨name, hop, hunset⟩ := hadds.address
    obtain ⟨model, hadmits, hgains⟩ := step_add_eq_ok hschema hop hstep
    rw [hgains.updates_eq, hgains.tree_eq]
    refine ⟨⟨?_, ?_, ?_⟩, ?_⟩
    · refine List.pairwise_append.2 ⟨hforward.distinct, List.pairwise_singleton _ _, ?_⟩
      intro u hu w hw hname
      rw [List.mem_singleton.1 hw] at hname
      have hfresh := hadmits.fresh
      rw [← show u.name = name from hname, hthere u hu] at hfresh
      cases hfresh
    · intro u hu
      rcases List.mem_append.1 hu with hold | hnew
      · exact hforward.unset u hold
      · rw [List.mem_singleton.1 hnew]
        exact hunset
    · intro u hu
      rcases List.mem_append.1 hu with hold | hnew
      · exact hforward.plain u hold
      · rw [List.mem_singleton.1 hnew]
        exact hasPlainValue_of_validateAll hadds.plain hadmits.valid
    · intro u hu
      by_cases hname : Property.address u.name = Property.address name
      · rw [hname]
        exact Tree.contains_put_self _ _ _
      · rw [Tree.contains_put_of_ne _ hname]
        rcases List.mem_append.1 hu with hold | hnew
        · exact hthere u hold
        · rw [List.mem_singleton.1 hnew] at hname
          exact absurd rfl hname
  · rw [hd]
    exact ⟨⟨.nil, fun _ hu => (nomatch hu), fun _ hu => (nomatch hu)⟩, fun _ hu => (nomatch hu)⟩

namespace Controller

variable {X : Signature} {c : Controller X.withProperties} {cfg : PropertyConfig} {booting : Bool}
  {s s' : ControllerState X.withProperties} {ops ops' : List Operation}
  {accepted accepted' : List (Operation × RegisteredOperation (ModelHandler X.Handler))}

/-- Every addition of a property is carried out by the handler for it. -/
theorem handler_of_addsForward (hr : c.registry.OffersProperties cfg)
    (hops : ∀ op ∈ ops, op.AddsForward s.environment.live)
    (hacc : c.acceptAll booting ops = .ok accepted) :
    ∀ a ∈ accepted, a.2.handler = .property .add ∧ a.1.AddsForward s.environment.live := by
  intro a ha
  have hmem := mem_of_acceptAll hacc a ha
  obtain ⟨name, haddress, -⟩ := (hops a.1 hmem).address
  have hentry := operation?_of_acceptAll hacc a ha
  rw [haddress, (hops a.1 hmem).name_eq, hr.operation?_add] at hentry
  refine ⟨?_, hops a.1 hmem⟩
  rw [← Option.some.inj hentry]

theorem isBuiltIn_of_addsForward (hr : c.registry.OffersProperties cfg) {op : Operation}
    (hop : op.AddsForward s.environment.live) : c.IsBuiltIn op := by
  intro entry hentry
  obtain ⟨name, haddress, -⟩ := hop.address
  rw [haddress, hop.name_eq, hr.operation?_add] at hentry
  rw [← Option.some.inj hentry]
  trivial

/-- If the additions commit in one order, they commit in every order, and to the same end. -/
theorem course_perm (hr : c.registry.OffersProperties cfg) (hperm : accepted.Perm accepted')
    (hadds : ∀ a ∈ accepted, a.2.handler = .property .add ∧ a.1.AddsForward s.environment.live)
    {results : List Value} (h : (c.course cfg booting accepted s).1 = .ok results) :
    ∃ results', (c.course cfg booting accepted' s).1 = .ok results' ∧
      (c.course cfg booting accepted' s).2.store.tree =
        (c.course cfg booting accepted s).2.store.tree ∧
      (c.course cfg booting accepted' s).2.environment.live.values =
        (c.course cfg booting accepted s).2.environment.live.values := by
  obtain ⟨d, m, hrun, hsettle, -, hstate⟩ := course_eq_ok h
  have htasks : ∀ task ∈ tasksOf accepted,
      task.2 = .property .add ∧ task.1.AddsForward s.environment.live := by
    intro task htask
    obtain ⟨a, ha, rfl⟩ := List.mem_map.1 htask
    exact hadds a ha
  have hadditions : ∀ task ∈ tasksOf accepted, Draft.IsAddition task := by
    intro task htask
    obtain ⟨hadd, hforward⟩ := htasks task htask
    obtain ⟨name, haddress, -⟩ := hforward.address
    exact ⟨hadd, name, haddress⟩
  have hsame : draftOf accepted' s = draftOf accepted s := by
    unfold draftOf
    rw [writeScope_perm (S := X.withProperties) hperm]
  obtain ⟨d', hrun', hdrafts⟩ := Draft.run_perm hr.resource?_eq (hperm.map _) hadditions hrun
  change Draft.run _ _ (tasksOf accepted') _ = _ at hrun'
  have hforward := Draft.forward_of_run hr.resource?_eq htasks rfl hrun
  obtain ⟨m', hsettle', hvalues⟩ := Alignment.settle_of_perm hdrafts.perm hforward hsettle
  rw [← hsame] at hrun'
  refine ⟨d'.results, ?_, ?_, ?_⟩
  · rw [course_of_settle_ok hrun' hsettle']
  · rw [hstate, course_of_settle_ok hrun' hsettle', published_tree m hrun, published_tree m' hrun',
      hdrafts.tree_eq]
  · rw [hstate, course_of_settle_ok hrun' hsettle']
    exact hvalues

/-- The answers to two submissions come to the same: both have to wait for a range that is held,
    both fail, or both commit and leave the same model and the same live properties. -/
inductive Concur (s : ControllerState X.withProperties) :
    Except Stall (Outcome × ControllerState X.withProperties) →
      Except Stall (Outcome × ControllerState X.withProperties) → Prop where
  | waiting (held_ne : s.locks.held ≠ []) : Concur s (.error .lockHeld) (.error .lockHeld)
  | failed {f f' : Failure} {t t' : ControllerState X.withProperties} :
      Concur s (.ok (.error f, t)) (.ok (.error f', t'))
  | committed {r r' : Response} {t t' : ControllerState X.withProperties}
      (tree_eq : t'.store.tree = t.store.tree)
      (live_eq : t'.environment.live.values = t.environment.live.values) :
      Concur s (.ok (.ok r, t)) (.ok (.ok r', t'))

/-- Additions that went through their courses come to the same. -/
theorem concur_of_settles (hr : c.registry.OffersProperties cfg) (hperm : accepted.Perm accepted')
    (hadds : ∀ a ∈ accepted, a.2.handler = .property .add ∧ a.1.AddsForward s.environment.live)
    {r r' : Except Failure (List Value × Nat)} {t t' : ControllerState X.withProperties}
    (h : Settles c cfg booting accepted s r t) (h' : Settles c cfg booting accepted' s r' t')
    (sub sub' : Submission) :
    Concur s (.ok (answer sub (r, t))) (.ok (answer sub' (r', t'))) := by
  rw [h.result_eq, h'.result_eq]
  cases hcourse : (c.course cfg booting accepted s).1 with
  | ok results =>
    obtain ⟨results', hcourse', htree, hlive⟩ := course_perm hr hperm hadds hcourse
    rw [hcourse']
    refine .committed ?_ ?_
    · rw [Submission.store_after, Submission.store_after, h.store_eq, h'.store_eq]
      exact htree
    · rw [Submission.environment_after, Submission.environment_after, h.environment_eq,
        h'.environment_eq]
      exact hlive
  | error failure =>
    cases hcourse' : (c.course cfg booting accepted' s).1 with
    | error failure' => exact .failed
    | ok results' =>
      -- then the first order would commit, too
      have hadds' := fun a ha => hadds a (hperm.mem_iff.2 ha)
      obtain ⟨results, hcommits, -⟩ := course_perm hr hperm.symm hadds' hcourse'
      rw [hcourse] at hcommits
      cases hcommits

theorem concur_of_perm (hc : c.RunsModel cfg) (hr : c.registry.OffersProperties cfg)
    (hs : s.Tidy) {sub sub' : Submission} (hperm : sub.operations.Perm sub'.operations)
    (hmode : sub'.inBootMode s.booting = sub.inBootMode s.booting)
    (hops : ∀ op ∈ sub.operations, op.AddsForward s.environment.live)
    (hlimit : sub.operations.length < c.stepLimit) :
    Concur s (c.perform sub s) (c.perform sub' s) := by
  have hops' : ∀ op ∈ sub'.operations, op.AddsForward s.environment.live :=
    fun op hop => hops op (hperm.mem_iff.2 hop)
  rw [perform_eq, perform_eq, hmode]
  by_cases hne : sub.operations = []
  · have hne' : sub'.operations = [] := by
      rw [hne] at hperm
      exact hperm.nil_eq.symm
    rw [hne, hne']
    refine .committed ?_ ?_
    · rw [Submission.store_after, Submission.store_after]
    · rw [Submission.environment_after, Submission.environment_after]
  -- the answers are decided in the same way in both orders: by the checks, by the held ranges,
  -- and by the courses
  · have hne' : sub'.operations ≠ [] := by
      intro hempty
      rw [hempty] at hperm
      exact hne hperm.eq_nil
    cases hacc : c.acceptAll (sub.inBootMode s.booting) sub.operations with
    | error cause =>
      obtain ⟨cause', hacc'⟩ := acceptAll_error_of_perm hperm hacc
      rw [submit_of_refused hne hacc, submit_of_refused hne' hacc']
      exact .failed
    | ok accepted =>
      obtain ⟨accepted', hacc', hpermuted⟩ := acceptAll_perm hperm hacc
      have hscope := writeScope_perm (S := X.withProperties) hpermuted
      by_cases hheld : s.locks.conflicts (writeScope (S := X.withProperties) accepted) = true
      · rw [submit_of_conflicts hne hacc hheld,
          submit_of_conflicts hne' hacc' (by rw [← hscope, hheld])]
        refine .waiting fun hnone => ?_
        unfold HeldLocks.conflicts at hheld
        rw [hnone] at hheld
        cases hheld
      · have hfree := Bool.eq_false_iff.2 hheld
        have hlimit' : sub'.operations.length < c.stepLimit := hperm.length_eq ▸ hlimit
        obtain ⟨r, t, hsubmit, hsettles⟩ := exists_submit hc hs
          (fun op hop => isBuiltIn_of_addsForward hr (hops op hop)) hne hlimit hacc hfree
        obtain ⟨r', t', hsubmit', hsettles'⟩ := exists_submit hc hs
          (fun op hop => isBuiltIn_of_addsForward hr (hops' op hop)) hne' hlimit' hacc'
            (by rw [← hscope, hfree])
        rw [hsubmit, hsubmit']
        exact concur_of_settles hr hpermuted (handler_of_addsForward hr hops hacc) hsettles
          hsettles' sub sub'

/-- Transactions that add properties come to the same in every order of their operations, where
    the properties have no live values before and the references in their values each name one
    property and give no default. -/
theorem forward_references_confluent (hc : c.RunsModel cfg) (hr : c.registry.OffersProperties cfg)
    (hs : s.Tidy) (hperm : ops.Perm ops')
    (hops : ∀ op ∈ ops, op.AddsForward s.environment.live) (hlimit : ops.length < c.stepLimit) :
    Concur s (c.executeAll ops s) (c.executeAll ops' s) ∧
      Concur s (c.boot ops s) (c.boot ops' s) := by
  constructor
  · show Concur s (c.perform (.executeAll ops) s) (c.perform (.executeAll ops') s)
    exact concur_of_perm hc hr hs hperm rfl hops hlimit
  · show Concur s (c.perform (.boot ops) s) (c.perform (.boot ops') s)
    exact concur_of_perm hc hr hs hperm rfl hops hlimit

/-- A property that refers to one that is added later has its value, and so it has in the other
    order. -/
theorem forward_references_confluent_pair :
    ∃ response t, (bare { updater? := some {} } 5).executeAll
        [Property.addRequest "p" (some "$\x7bq\x7d") none, Property.addRequest "q" (some "v") none]
        .bare = .ok (.ok response, t) ∧
      t.environment.live.get? "p" = some "v" ∧
      Concur .bare (.ok (.ok response, t)) ((bare { updater? := some {} } 5).executeAll
        [Property.addRequest "q" (some "v") none, Property.addRequest "p" (some "$\x7bq\x7d") none]
        .bare) := by
  have hrun : (bare { updater? := some {} } 5).answers
      (.executeAll [Property.addRequest "p" (some "$\x7bq\x7d") none,
        Property.addRequest "q" (some "v") none]) .bare
      (fun outcome t => outcome.isOk && t.environment.live.get? "p" == some "v") = true := by
    decide +kernel
  have hsegments : Expression.segments "$\x7bq\x7d".toList = [.reference [['q']] none] := by
    decide +kernel
  have hops : ∀ op ∈ [Property.addRequest "p" (some "$\x7bq\x7d") none,
      Property.addRequest "q" (some "v") none],
        op.AddsForward ControllerState.bare.environment.live := by
    refine List.forall_mem_cons.2 ⟨?_, List.forall_mem_singleton.2 ?_⟩
    · refine Property.addsForward_addRequest rfl ?_ none
      rintro text ⟨⟩ - part hpart
      rw [hsegments] at hpart
      rw [List.mem_singleton.1 hpart]
      exact ⟨rfl, ['q'], rfl⟩
    · refine Property.addsForward_addRequest rfl ?_ none
      rintro text ⟨⟩ hopens
      cases hopens
  obtain ⟨outcome, t, h, htest⟩ := exists_of_answers hrun
  obtain ⟨hok, hlive⟩ := Bool.and_eq_true_iff.1 htest
  cases outcome with
  | error failure => cases hok
  | ok response =>
    refine ⟨response, t, h, eq_of_beq hlive, ?_⟩
    have hconcur := (forward_references_confluent (runsModel_bare { updater? := some {} } 5)
      (ModelSpec.governsProperties_bare _).toOffersProperties
      ControllerState.tidy_bare
      (.swap _ _ []) hops (by decide)).1
    rw [show (bare { updater? := some {} } 5).executeAll _ .bare = _ from h] at hconcur
    exact hconcur

end Controller

end ManagedModel
