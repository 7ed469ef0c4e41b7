import ManagedModel.Proofs.Atomicity
import ManagedModel.Proofs.Course.Properties

/-! # Coherence

    The live value of a property that was added, and that may change while the
    process runs, is what the committed model says: the literal value that the
    model holds; some value where the model holds an expression; and none where
    the model holds none.

    The proof follows one property through a transaction.

    * In MODEL, the value that the model holds is that of the last update left
      for the property, or the one at the beginning (`Draft.Mirrors`).
    * In RUNTIME, the property either has a parked value, and then it is that of
      the last update so far, or its live value is one that this update stands
      for (`Alignment.Tracks`).
    * A transaction that commits has nothing parked, and one that fails restores
      both sides. -/

namespace ManagedModel

/-! ### What the model says -/

namespace Property

/-- The value in the attributes of a property's resource; undefined if there is none. -/
def valueIn (model : Attributes) : Value := (model.get? propertyValueAttribute).getD .undefined

/-- The value that the model holds for a property; undefined if it holds none. -/
def storedValue (t : Tree) (name : String) : Value := valueIn ((t.get? (address name)).getD ∅)

theorem storedValue_of_get?_eq_some {t : Tree} {name : String} {model : Attributes}
    (h : t.get? (address name) = some model) : storedValue t name = valueIn model := by
  unfold storedValue
  rw [h]
  rfl

theorem storedValue_of_get?_eq_none {t : Tree} {name : String}
    (h : t.get? (address name) = none) : storedValue t name = .undefined := by
  unfold storedValue
  rw [h]
  rfl

theorem storedValue_congr {t t' : Tree} {name : String}
    (h : t'.get? (address name) = t.get? (address name)) :
    storedValue t' name = storedValue t name := by
  unfold storedValue
  rw [h]

theorem valueIn_withAttribute_self (value : Value) (model : Attributes) :
    valueIn (Resource.withAttribute propertyValueAttribute value model) = value := by
  unfold valueIn Resource.withAttribute
  split
  · rw [SortedMap.get?_insert_self]
    rfl
  · rename_i hundefined
    rw [SortedMap.get?_erase_self]
    cases value with
    | undefined => rfl
    | _ => exact absurd rfl hundefined

theorem valueIn_withAttribute_of_ne {name : String} (h : name ≠ propertyValueAttribute)
    (value : Value) (model : Attributes) :
    valueIn (Resource.withAttribute name value model) = valueIn model := by
  have hne : propertyValueAttribute ≠ name := fun e => h e.symm
  unfold valueIn Resource.withAttribute
  split
  · rw [SortedMap.get?_insert_of_ne _ hne]
  · rw [SortedMap.get?_erase_of_ne _ hne]

end Property

open Property (valueIn storedValue)

/-! ### MODEL -/

section Model

variable {C : Type} {cfg : PropertyConfig} {r : Registry (ModelHandler C)}
  {effect : String → LiveEffect} {op : Operation} {entry : RegisteredOperation (ModelHandler C)}
  {o : Delivery} {w w' : WorkingCopy}

/-- A write that leaves no update has not changed the value. -/
theorem storedValue_of_write {schema? : Address → Option ResourceSchema}
    {change : Resource.AttributeUpdate} {name : String} (hop : op.address = Property.address name)
    (hwrite : Resource.writeDraft schema? op w = .ok (change, w'))
    (hsame : ¬ (change.name = propertyValueAttribute ∧ change.old ≠ change.new)) :
    storedValue w'.tree name = storedValue w.tree name := by
  obtain ⟨-, -, before, -, -, -, hbefore, hold, rfl⟩ := Resource.writeDraft_eq_ok hwrite
  rw [hop] at hbefore
  have hafter : (w.changed op.address (w.tree.put op.address
      (Resource.withAttribute change.name change.new before))).tree.get? (Property.address name) =
        some (Resource.withAttribute change.name change.new before) := by
    rw [hop]
    exact Tree.get?_put_self w.tree (Property.address name) _
  rw [Property.storedValue_of_get?_eq_some hafter, Property.storedValue_of_get?_eq_some hbefore]
  by_cases hname : change.name = propertyValueAttribute
  -- either another attribute was written, or the value with what it was
  · have hnew : change.old = change.new :=
      Decidable.of_not_not fun hne => hsame ⟨hname, hne⟩
    rw [hname, Property.valueIn_withAttribute_self, ← hnew, hold, hname]
    rfl
  · rw [Property.valueIn_withAttribute_of_ne hname]

/-- An operation that leaves an update leaves the value that the model now holds for the property;
    an operation that leaves none has changed no value. -/
theorem update_of_draft (hr : r.GovernsProperties cfg)
    (hentry : r.operation? op.address op.name = some entry)
    (hdraft : entry.handler.draft r.resource? effect op w = .ok (o, w')) :
    (∃ name model, op.address = Property.address name ∧
      o.update? = some { name, model, effect := effect name } ∧
      storedValue w'.tree name = valueIn model) ∨
    o.update? = none ∧ ∀ name, storedValue w'.tree name = storedValue w.tree name := by
  by_cases hop : ∃ name, op.address = Property.address name
  · obtain ⟨name, hop⟩ := hop
    have hname : ∀ {name' : String}, Property.nameOf op = .ok name' → name = name' := fun h =>
      Except.ok.inj ((Property.nameOf_of_address_eq hop).symm.trans h)
    have hothers : ∀ other, other ≠ name →
        storedValue w'.tree other = storedValue w.tree other := by
      intro other hother
      refine Property.storedValue_congr (ModelHandler.get?_of_draft hdraft ?_)
      rw [hop]
      exact fun h => hother (Property.address_injective h)
    rw [hop] at hentry
    -- properties are added, removed and written by their own handlers, and read by all others
    rcases hr.operation?_eq_some hentry with ⟨-, rfl⟩ | ⟨-, rfl⟩ | ⟨-, rfl⟩ | ⟨h, heq, hread⟩
    · obtain ⟨model, name', hcreate, hname', rfl⟩ := ModelHandler.draft_add_eq_ok.1 hdraft
      obtain rfl := hname hname'
      obtain ⟨schema, t, -, -, -, -, rfl⟩ := Resource.createDraft_eq_ok.1 hcreate
      refine .inl ⟨name, model, hop, rfl, Property.storedValue_of_get?_eq_some ?_⟩
      rw [hop]
      exact Tree.get?_put_self t (Property.address name) model
    · obtain ⟨htree, name', hname', hupdate⟩ := ModelHandler.draft_remove_eq_ok hdraft
      obtain rfl := hname hname'
      refine .inl ⟨name, ∅, hop, hupdate, ?_⟩
      rw [htree, hop]
      exact Property.storedValue_of_get?_eq_none (Tree.get?_discard_self w.tree _)
    · obtain ⟨change, hwrite, ⟨hsame, hupdate⟩ | ⟨-, name', model, hname', hmodel, hupdate⟩⟩ :=
        ModelHandler.draft_write_eq_ok hdraft
      · refine .inr ⟨hupdate, fun other => ?_⟩
        by_cases hother : other = name
        · rw [hother]
          exact storedValue_of_write hop hwrite hsame
        · exact hothers other hother
      · obtain rfl := hname hname'
        rw [hop] at hmodel
        exact .inl ⟨name, model, hop, hupdate, Property.storedValue_of_get?_eq_some hmodel⟩
    · rw [heq] at hdraft
      refine .inr ⟨ModelHandler.update?_of_resource hdraft, fun other => ?_⟩
      rw [ModelHandler.working_of_isRead hread hdraft]
  · -- away from system properties, only resource handlers are at work
    have hne : ∀ name, op.address ≠ Property.address name := fun name h => hop ⟨name, h⟩
    obtain ⟨h, heq⟩ := hr.others hne hentry
    have hvalues : ∀ name, storedValue w'.tree name = storedValue w.tree name := fun name =>
      Property.storedValue_congr (ModelHandler.get?_of_draft hdraft fun e => hne name e.symm)
    rw [heq] at hdraft
    exact .inr ⟨ModelHandler.update?_of_resource hdraft, hvalues⟩

/-- The attributes in the last of the updates of a property. -/
def lastUpdate? (name : String) (us : List PendingUpdate) : Option Attributes :=
  us.foldl (fun last? u => if u.name = name then some u.model else last?) none

theorem lastUpdate?_concat (name : String) (us : List PendingUpdate) (u : PendingUpdate) :
    lastUpdate? name (us ++ [u]) = if u.name = name then some u.model else lastUpdate? name us := by
  unfold lastUpdate?
  rw [List.foldl_append]
  rfl

/-- The model holds the value of the last update of the property, or the one of the beginning, and
    every update reaches the process as `effect` tells. -/
structure Draft.Mirrors (effect : String → LiveEffect) (base : Tree) (name : String) (d : Draft) :
    Prop where
  value_eq : storedValue d.working.tree name =
    ((lastUpdate? name d.updates).map valueIn).getD (storedValue base name)
  effect_eq : ∀ u ∈ d.updates, u.effect = effect u.name

namespace Draft

variable {base : Tree} {name : String} {d d' : Draft}

theorem Mirrors.step (hr : r.GovernsProperties cfg)
    (hentry : r.operation? op.address op.name = some entry) (h : d.Mirrors effect base name)
    (hstep : Draft.step r.resource? effect d (op, entry.handler) = .ok d') :
    d'.Mirrors effect base name := by
  obtain ⟨o, w, hdraft, rfl⟩ := Draft.step_eq_ok.1 hstep
  rcases update_of_draft hr hentry hdraft with
    ⟨other, model, hop, hupdate, hvalue⟩ | ⟨hupdate, hvalues⟩
  · rw [hupdate]
    refine ⟨?_, ?_⟩
    · show storedValue w.tree name = _
      show _ = ((lastUpdate? name (d.updates ++ [_])).map valueIn).getD _
      rw [lastUpdate?_concat]
      dsimp only
      by_cases hname : other = name
      · rw [if_pos hname, ← hname, hvalue]
        rfl
      · rw [if_neg hname, ← h.value_eq]
        refine Property.storedValue_congr (ModelHandler.get?_of_draft hdraft ?_)
        rw [hop]
        exact fun e => hname (Property.address_injective e).symm
    · intro u hu
      rcases List.mem_append.1 hu with hold | hnew
      · exact h.effect_eq u hold
      · cases List.mem_singleton.1 hnew
        rfl
  · rw [hupdate]
    refine ⟨?_, ?_⟩
    · show storedValue w.tree name = ((lastUpdate? name (d.updates ++ [])).map valueIn).getD _
      rw [List.append_nil, hvalues, h.value_eq]
    · intro u hu
      rw [show (d.updates ++ (none : Option PendingUpdate).toList) = d.updates from
        List.append_nil _] at hu
      exact h.effect_eq u hu

/-- What is left for a property is not lost again. -/
theorem lastUpdate?_step {C : Type} {schema? : Address → Option ResourceSchema}
    {task : Operation × ModelHandler C} (h : lastUpdate? name d.updates ≠ none)
    (hstep : Draft.step schema? effect d task = .ok d') : lastUpdate? name d'.updates ≠ none := by
  obtain ⟨o, w, -, rfl⟩ := Draft.step_eq_ok.1 hstep
  cases o.update? with
  | none =>
    show lastUpdate? name (d.updates ++ []) ≠ none
    rw [List.append_nil]
    exact h
  | some u =>
    show lastUpdate? name (d.updates ++ [u]) ≠ none
    rw [lastUpdate?_concat]
    split
    · exact Option.some_ne_none _
    · exact h

/-- Adding a property leaves an update for it. -/
theorem lastUpdate?_add (hr : r.GovernsProperties cfg)
    (hentry : r.operation? op.address op.name = some entry)
    (hop : op.address = Property.address name) (hadd : op.name = "add")
    (hstep : Draft.step r.resource? effect d (op, entry.handler) = .ok d') :
    lastUpdate? name d'.updates ≠ none := by
  obtain ⟨o, w, hdraft, rfl⟩ := Draft.step_eq_ok.1 hstep
  rw [hop, hadd, hr.operation?_add] at hentry
  cases hentry
  obtain ⟨model, name', -, hname, rfl⟩ := ModelHandler.draft_add_eq_ok.1 hdraft
  obtain rfl : name = name' := Except.ok.inj ((Property.nameOf_of_address_eq hop).symm.trans hname)
  show lastUpdate? name (d.updates ++ [_]) ≠ none
  rw [lastUpdate?_concat, if_pos rfl]
  exact Option.some_ne_none _

end Draft

end Model

/-! ### RUNTIME -/

/-- The text that the value stands for, for some live properties. -/
def Value.StandsFor (v : Value) (x? : Option String) : Prop :=
  ∃ live : LiveProperties, v.resolve live.get? = .ok x?

namespace Alignment

variable {cfg : PropertyConfig} {booting : Bool} {live₀ : LiveProperties} {name : String}
  {m : Alignment} {u : PendingUpdate} {last? : Option Attributes}

/-- The update is parked, or it has reached the process. -/
def Pursues (model : Attributes) (v? : Option ParkedValue) (x? : Option String) : Prop :=
  match v? with
  | some v => v.model = model
  | none => (valueIn model).StandsFor x?

theorem keptWhenApplied_pursues (model : Attributes) : KeptWhenApplied (Pursues model) := by
  intro live v x? value? h hresolved
  refine ⟨live, ?_⟩
  rw [← show v.model = model from h]
  exact hresolved

/-- The last update of the property so far is parked or has reached the process; without one the
    property is as at the beginning. -/
def Tracks (live₀ : LiveProperties) (name : String) (last? : Option Attributes) (m : Alignment) :
    Prop :=
  match last? with
  | some model => Pursues model (m.parkedAt name) (m.live.get? name)
  | none => Untouched (live₀.get? name) (m.parkedAt name) (m.live.get? name)

/-- An update of the property itself drops what is parked for it, so that it cannot come back. -/
theorem Tracks.update (h : Tracks live₀ name last? m) (hu : u.name = name → u.effect = .apply) :
    Tracks live₀ name (if u.name = name then some u.model else last?) (m.update cfg booting u) := by
  by_cases hname : u.name = name
  · rw [if_pos hname]
    subst hname
    exact update_keeps_at_self (keptWhenApplied_pursues u.model) (hu rfl)
      (fun hvalue => ⟨m.live, hvalue⟩) fun _ => rfl
  · rw [if_neg hname]
    have hne : name ≠ u.name := fun e => hname e.symm
    -- the retry after an update of another property may apply what is parked for this one
    cases last? with
    | some model => exact update_keeps_at_of_ne (keptWhenApplied_pursues model) hne h
    | none => exact update_keeps_at_of_ne (keptWhenApplied_untouched (live₀.get? name)) hne h

theorem Tracks.updateAll (cfg : PropertyConfig) (booting : Bool) {us : List PendingUpdate}
    (h : Tracks live₀ name last? m) (hus : ∀ u ∈ us, u.name = name → u.effect = .apply) :
    Tracks live₀ name
      (us.foldl (fun last? u => if u.name = name then some u.model else last?) last?)
      (m.updateAll cfg booting us) := by
  induction us generalizing m last? with
  | nil => exact h
  | cons u us ih =>
    obtain ⟨hu, hrest⟩ := List.forall_mem_cons.1 hus
    exact ih (h.update hu) hrest

theorem Tracks.pass (cfg : PropertyConfig) (h : Tracks live₀ name last? m) :
    Tracks live₀ name last? (m.pass cfg).2 := by
  cases last? with
  | some model => exact pass_keeps_at (keptWhenApplied_pursues model) h
  | none => exact pass_keeps_at (keptWhenApplied_untouched (live₀.get? name)) h

/-- Where a transaction settles, the last update of a property has reached the process, and a
    property without updates has its live value still. -/
theorem live_of_settle {us : List PendingUpdate} {m' : Alignment}
    (hus : ∀ u ∈ us, u.name = name → u.effect = .apply)
    (h : (({ live := live₀ } : Alignment).updateAll cfg booting us).settle cfg = (.ok (), m')) :
    match lastUpdate? name us with
    | some model => (valueIn model).StandsFor (m'.live.get? name)
    | none => m'.live.get? name = live₀.get? name := by
  -- the pass leaves every property tracked; to settle, nothing may be parked after it
  have hbegin : Tracks live₀ name none { live := live₀ } := ⟨rfl, rfl⟩
  have htracks := (hbegin.updateAll cfg booting hus).pass cfg
  have hsnd := settle_snd cfg (({ live := live₀ } : Alignment).updateAll cfg booting us)
  rw [h] at hsnd
  rw [← hsnd] at htracks
  have hchecked : (({ live := live₀ } : Alignment).updateAll cfg booting us).Checked := by
    refine Checked.updateAll ?_ us
    exact fun _ hparked => absurd rfl hparked
  have hnone := parkedAt_of_settle_ok hchecked h name
  change Tracks live₀ name (lastUpdate? name us) m' at htracks
  unfold Tracks at htracks
  cases hlast : lastUpdate? name us with
  | none =>
    rw [hlast] at htracks
    exact htracks.2
  | some model =>
    rw [hlast, hnone] at htracks
    exact htracks

end Alignment

/-! ### Runs -/

namespace Controller

variable {X : Signature} {c : Controller X.withProperties} {cfg : PropertyConfig} {booting : Bool}
  {accepted : List (Operation × RegisteredOperation (ModelHandler X.Handler))}
  {s s' t t' : ControllerState X.withProperties} {name : String}

/-- The submissions that a controller answered, each with the outcome, from one state to another. -/
inductive Run (c : Controller X.withProperties) (s : ControllerState X.withProperties) :
    List (Submission × Outcome) → ControllerState X.withProperties → Prop where
  | start : Run c s [] s
  | next {log : List (Submission × Outcome)} {t t' : ControllerState X.withProperties}
      {sub : Submission} {outcome : Outcome} (before : Run c s log t)
      (answer : c.perform sub t = .ok (outcome, t')) : Run c s (log ++ [(sub, outcome)]) t'

/-- A transaction that committed has added the property. -/
def Added (name : String) (log : List (Submission × Outcome)) : Prop :=
  ∃ sub response, (sub, .ok response) ∈ log ∧
    ∃ op ∈ sub.operations, op.name = "add" ∧ op.address = Property.address name

theorem added_concat {log : List (Submission × Outcome)} {sub : Submission} {outcome : Outcome} :
    Added name (log ++ [(sub, outcome)]) ↔ Added name log ∨ outcome.isOk ∧
      ∃ op ∈ sub.operations, op.name = "add" ∧ op.address = Property.address name := by
  constructor
  · rintro ⟨sub', response, hmem, hadd⟩
    rcases List.mem_append.1 hmem with hbefore | hlast
    · exact .inl ⟨sub', response, hbefore, hadd⟩
    · cases List.mem_singleton.1 hlast
      exact .inr ⟨rfl, hadd⟩
  · rintro (⟨sub', response, hmem, hadd⟩ | ⟨hok, hadd⟩)
    · exact ⟨sub', response, List.mem_append_left _ hmem, hadd⟩
    · cases outcome with
      | error failure => cases hok
      | ok response =>
        exact ⟨sub, response, List.mem_append_right log (List.mem_singleton_self _), hadd⟩

/-- The live value of a property is what the model says. -/
structure Coherent (t : Tree) (live : LiveProperties) (name : String) : Prop where
  removed : t.get? (Property.address name) = none → live.get? name = none
  empty : ∀ {model}, t.get? (Property.address name) = some model →
    model.get? propertyValueAttribute = none → live.get? name = none
  literal : ∀ {model v}, t.get? (Property.address name) = some model →
    model.get? propertyValueAttribute = some (.string v) → live.get? name = some v
  expression : ∀ {model e}, t.get? (Property.address name) = some model →
    model.get? propertyValueAttribute = some (.expression e) →
      ∃ text, live.get? name = some text ∧
        ∃ others : LiveProperties, Expression.resolve others.get? e = .ok text

/-- The live value of a property is one that the value in the model stands for. -/
def Reflects (s : ControllerState X.withProperties) (name : String) : Prop :=
  (storedValue s.store.tree name).StandsFor (s.environment.live.get? name)

theorem Reflects.coherent (h : Reflects s name) :
    Coherent s.store.tree s.environment.live name := by
  obtain ⟨live, hresolve⟩ := h
  refine ⟨?_, ?_, ?_, ?_⟩
  · intro hnode
    rw [Property.storedValue_of_get?_eq_none hnode] at hresolve
    exact (Except.ok.inj hresolve).symm
  · intro model hnode hvalue
    rw [Property.storedValue_of_get?_eq_some hnode] at hresolve
    unfold valueIn at hresolve
    rw [hvalue] at hresolve
    exact (Except.ok.inj hresolve).symm
  · intro model v hnode hvalue
    rw [Property.storedValue_of_get?_eq_some hnode] at hresolve
    unfold valueIn at hresolve
    rw [hvalue] at hresolve
    exact (Except.ok.inj hresolve).symm
  · intro model e hnode hvalue
    rw [Property.storedValue_of_get?_eq_some hnode] at hresolve
    unfold valueIn at hresolve
    rw [hvalue] at hresolve
    change (Expression.resolve live.get? e).map some = .ok (s.environment.live.get? name) at hresolve
    cases htext : Expression.resolve live.get? e with
    | error fault =>
      rw [htext] at hresolve
      cases hresolve
    | ok text =>
      rw [htext] at hresolve
      exact ⟨text, (Except.ok.inj hresolve).symm, live, htext⟩

/-! ### One transaction -/

theorem mirrors_of_run {effect : String → LiveEffect} {base : Tree}
    (hr : c.registry.GovernsProperties cfg)
    (hoffered : ∀ a ∈ accepted, c.registry.operation? a.1.address a.1.name = some a.2) {d d' : Draft}
    (hd : d.Mirrors effect base name)
    (h : d.run c.registry.resource? effect (tasksOf accepted) = .ok d') :
    d'.Mirrors effect base name := by
  refine Draft.run_keeps ?_ h hd
  intro d d' task htask hd hstep
  obtain ⟨a, ha, rfl⟩ := List.mem_map.1 htask
  exact hd.step hr (hoffered a ha) hstep

theorem lastUpdate?_of_run {effect : String → LiveEffect} (hr : c.registry.GovernsProperties cfg)
    (hoffered : ∀ a ∈ accepted, c.registry.operation? a.1.address a.1.name = some a.2)
    (hadd : ∃ a ∈ accepted, a.1.name = "add" ∧ a.1.address = Property.address name) {d d' : Draft}
    (h : d.run c.registry.resource? effect (tasksOf accepted) = .ok d') :
    lastUpdate? name d'.updates ≠ none := by
  induction accepted generalizing d with
  | nil =>
    obtain ⟨a, ha, -⟩ := hadd
    cases ha
  | cons a rest ih =>
    obtain ⟨hfirst, hothers⟩ := List.forall_mem_cons.1 hoffered
    change Draft.run _ _ ((a.1, a.2.handler) :: tasksOf rest) d = _ at h
    rw [Draft.run_cons] at h
    split at h
    · rename_i d₁ hstep
      obtain ⟨b, hb, hname, haddress⟩ := hadd
      -- the addition itself leaves an update, and the operations after it keep one
      rcases List.mem_cons.1 hb with rfl | hb
      · have hleft := Draft.lastUpdate?_add hr hfirst haddress hname hstep
        exact Draft.run_keeps (I := fun d => lastUpdate? name d.updates ≠ none)
          (fun _ hd hstep => Draft.lastUpdate?_step hd hstep) h hleft
      · exact ih hothers ⟨b, hb, hname, haddress⟩ h
    · cases h

theorem effect_of_allows (hallows : cfg.allows name booting = true) :
    c.effect cfg booting name = .apply :=
  if_pos hallows

theorem effect_of_not_protected {u : PropertyUpdater} (hu : cfg.updater? = some u)
    (hname : u.isProtected name = false) : c.effect cfg booting name = .apply := by
  refine effect_of_allows ?_
  unfold PropertyConfig.allows
  rw [hu]
  show (booting || !u.isProtected name) = true
  rw [hname]
  exact Bool.or_true booting

/-- A transaction that commits leaves a property reflected that it added or that was so before, if
    changes of the property reach the process at once. -/
theorem reflects_of_course (hr : c.registry.GovernsProperties cfg)
    (heffect : c.effect cfg booting name = .apply) {ops : List Operation}
    (hacc : c.acceptAll booting ops = .ok accepted) {results : List Value}
    (hcourse : (c.course cfg booting accepted s).1 = .ok results)
    (h : Reflects s name ∨ ∃ op ∈ ops, op.name = "add" ∧ op.address = Property.address name) :
    Reflects (c.course cfg booting accepted s).2 name := by
  obtain ⟨d, m, hrun, hsettle, -, hstate⟩ := course_eq_ok hcourse
  have hoffered := operation?_of_acceptAll hacc
  have hmirrors : d.Mirrors (c.effect cfg booting) s.store.tree name :=
    mirrors_of_run hr hoffered ⟨rfl, fun _ hv => absurd hv List.not_mem_nil⟩ hrun
  have hus : ∀ u ∈ d.updates, u.name = name → u.effect = .apply := by
    intro v hv hvname
    rw [hmirrors.effect_eq v hv, hvname]
    exact heffect
  have hlive := Alignment.live_of_settle hus hsettle
  unfold Reflects
  -- both the model and the process are told by the last update of the property
  rw [hstate, published_tree m hrun, hmirrors.value_eq]
  show Value.StandsFor _ (m.live.get? name)
  cases hlast : lastUpdate? name d.updates with
  | some model =>
    rw [hlast] at hlive
    exact hlive
  | none =>
    rw [hlast] at hlive
    rcases h with hbefore | ⟨op, hop, hadd, haddress⟩
    · rw [show m.live.get? name = s.environment.live.get? name from hlive]
      exact hbefore
    · rw [← (acceptAll_eq_ok.1 hacc).1] at hop
      obtain ⟨a, ha, rfl⟩ := List.mem_map.1 hop
      exact absurd hlast (lastUpdate?_of_run hr hoffered ⟨a, ha, hadd, haddress⟩ hrun)

/-- An answered submission leaves a property reflected that was so before, or that it added and
    committed. -/
theorem reflects_of_perform {u : PropertyUpdater} (hr : c.registry.GovernsProperties cfg)
    (hc : c.RunsModel cfg) (hu : cfg.updater? = some u) (hname : u.isProtected name = false)
    (ht : t.Tidy) {sub : Submission} {outcome : Outcome}
    (hperform : c.perform sub t = .ok (outcome, t'))
    (h : Reflects t name ∨ outcome.isOk ∧
      ∃ op ∈ sub.operations, op.name = "add" ∧ op.address = Property.address name) :
    Reflects t' name := by
  have hops : ∀ op ∈ sub.operations, c.IsBuiltIn op := fun _ _ _ hentry => hr.isBuiltIn hentry
  cases outcome with
  | error failure =>
    -- both the model and the process are as before
    obtain ⟨hshared, hlive⟩ := live_unchanged_of_error hc ht hops hperform
    rcases h with hbefore | ⟨hfalse, -⟩
    · unfold Reflects LiveProperties.get?
      rw [hshared.tree_eq, hlive]
      exact hbefore
    · cases hfalse
  | ok response =>
    obtain ⟨r, s₁, hsubmit, houtcome, rfl⟩ := perform_eq_ok.1 hperform
    suffices hs₁ : Reflects s₁ name by
      cases sub <;> exact hs₁
    rcases settles_of_submit hc ht hops hsubmit with ⟨hempty, -, rfl⟩ | ⟨cause, -, rfl, -⟩ |
      ⟨accepted, hacc, -, hsettles⟩
    · -- nothing was submitted, so nothing was added
      rcases h with hbefore | ⟨-, op, hop, -⟩
      · exact hbefore
      · rw [hempty] at hop
        cases hop
    · cases houtcome
    · cases r with
      | error failure => cases houtcome
      | ok p =>
        have hreflects := reflects_of_course hr (effect_of_not_protected hu hname) hacc
          hsettles.course_eq (h.imp_right fun hadded => hadded.2)
        unfold Reflects at hreflects ⊢
        rw [hsettles.store_eq, hsettles.environment_eq]
        exact hreflects

/-- Along every run the state stays tidy, and a property that was added stays reflected. -/
theorem Run.reflects {u : PropertyUpdater} (hr : c.registry.GovernsProperties cfg)
    (hc : c.RunsModel cfg) (hu : cfg.updater? = some u) (hname : u.isProtected name = false)
    (hs : s.Tidy) {log : List (Submission × Outcome)} (hrun : Run c s log t) :
    t.Tidy ∧ (Added name log → Reflects t name) := by
  -- induction on the run; tidiness goes along, as only from tidy states it is known what
  -- submissions come to
  induction hrun with
  | start =>
    refine ⟨hs, ?_⟩
    rintro ⟨sub, response, hmem, -⟩
    cases hmem
  | @next log t t' sub outcome before answer ih =>
    obtain ⟨ht, hreflects⟩ := ih
    refine ⟨tidy_of_isBuiltIn hc ht (fun _ _ _ hentry => hr.isBuiltIn hentry) answer, ?_⟩
    intro hadded
    exact reflects_of_perform hr hc hu hname ht answer ((added_concat.1 hadded).imp_left hreflects)

/-- After any sequence of submissions to a model of system properties and generic resources, the
    live value of a property that was added and is not protected is what the model says. -/
theorem live_coherent {spec : ModelSpec X.Handler} (hspec : spec.IsGeneric) {u : PropertyUpdater}
    (hu : spec.properties.updater? = some u) (hr : spec.registry = .ok c.registry)
    (hc : c.RunsModel spec.properties) {environment : X.Environment}
    {log : List (Submission × Outcome)} (hrun : Run c (spec.initialState environment) log t)
    (hname : u.isProtected name = false) (hadded : Added name log) :
    Coherent t.store.tree t.environment.live name :=
  ((hrun.reflects (hspec.governsProperties hr) hc hu hname
    (ModelSpec.tidy_initialState spec environment)).2 hadded).coherent

/-- A value that is parked gives way to a literal one in the same transaction, and a later
    transaction that fails does not bring it back. -/
theorem live_coherent_of_rewrite :
    ∃ log t, Run (bare { updater? := some {} } 10) .bare log t ∧ Added "p" log ∧
      Coherent t.store.tree t.environment.live "p" ∧ t.environment.live.get? "p" = some "w" := by
  have hrun : (bare { updater? := some {} } 10).answers
      (.executeAll [Property.addRequest "p" (some "$\x7bq\x7d") none,
        Property.writeRequest "p" (some "w"), Property.addRequest "q" (some "v") none])
      .bare (fun first s₁ => first.isOk &&
        (bare { updater? := some {} } 10).answers
          (.execute (Property.writeRequest "p" (some "$\x7bz\x7d"))) s₁
          fun second s₂ => !second.isOk && s₂.environment.live.get? "p" == some "w") = true := by
    decide +kernel
  obtain ⟨first, s₁, h₁, hrest⟩ := exists_of_answers hrun
  obtain ⟨hfirst, hrest⟩ := Bool.and_eq_true_iff.1 hrest
  obtain ⟨second, s₂, h₂, hrest⟩ := exists_of_answers hrest
  obtain ⟨-, hlive⟩ := Bool.and_eq_true_iff.1 hrest
  cases first with
  | error failure => cases hfirst
  | ok response =>
    have hreached := (Run.start.next h₁).next h₂
    refine ⟨_, s₂, hreached, ?added, ?_, eq_of_beq hlive⟩
    · exact added_concat.2 (.inl (added_concat.2 (.inr ⟨rfl, _, List.mem_cons_self, rfl, rfl⟩)))
    · have hspec : ({ properties := { updater? := some {} } } : ModelSpec Empty).IsGeneric :=
        ModelSpec.isGeneric_bare _
      exact live_coherent (X := Signature.bare) hspec rfl (ModelSpec.registry_bare _)
        (runsModel_bare _ _) hreached rfl ?added

end Controller

end ManagedModel
