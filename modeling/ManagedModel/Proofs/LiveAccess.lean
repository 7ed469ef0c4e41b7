import ManagedModel.Proofs.Coherence

/-! # Who may touch the live properties

    What submissions of built-in operations do to the running process.

    * Live properties change by `PropertyConfig.apply` alone, so that the calls
      received, the notifications and the values all tell the same changes
      (`LiveProperties.ChangedBy`).
    * In RUNTIME, and on the way back, the only properties changed are those of
      which an update is applied at once: a value is parked, and a way back is
      registered, for such a property only (`Alignment.Guarded`).
    * In MODEL, an update is left for the properties that the operations alter
      (`Draft.updates_of_run`), and how it reaches the process depends on the
      name. -/

namespace ManagedModel

/-! ### Changes of live properties -/

/-- The values after the changes of some notifications, in order. -/
def LiveProperties.replay (notes : List (String × Option String))
    (values : SortedMap String String) : SortedMap String String :=
  notes.foldl (fun values note =>
    match note.2 with
    | some value => values.insert note.1 value
    | none => values.erase note.1) values

namespace PropertyConfig

variable {cfg : PropertyConfig}

/-- At run time a property may change just if there is an updater that does not protect it. -/
theorem allows_running {name : String} :
    cfg.allows name false = true ↔ ∃ u, cfg.updater? = some u ∧ u.isProtected name = false := by
  unfold allows PropertyUpdater.allows
  cases cfg.updater? <;> simp

/-- Makes changes one after the other. -/
def applyEach (cfg : PropertyConfig) (changes : List (String × Option String))
    (live : LiveProperties) : LiveProperties :=
  changes.foldl (fun live change => cfg.apply change.1 change.2 live) live

theorem calls_applyEach (cfg : PropertyConfig) (changes : List (String × Option String))
    (live : LiveProperties) :
    (cfg.applyEach changes live).calls =
      live.calls ++ changes.map fun change => .of change.1 change.2 := by
  induction changes generalizing live with
  | nil => exact (List.append_nil _).symm
  | cons change changes ih =>
    have hfirst : (cfg.apply change.1 change.2 live).calls =
        live.calls ++ [.of change.1 change.2] := by
      unfold apply
      split <;> rfl
    show (cfg.applyEach changes (cfg.apply change.1 change.2 live)).calls = _
    rw [ih, hfirst, List.append_assoc]
    rfl

theorem updates_applyEach (hu : cfg.updater?.isSome = true)
    (changes : List (String × Option String)) (live : LiveProperties) :
    (cfg.applyEach changes live).updates = live.updates ++ changes := by
  induction changes generalizing live with
  | nil => exact (List.append_nil _).symm
  | cons change changes ih =>
    have hfirst : (cfg.apply change.1 change.2 live).updates = live.updates ++ [change] := by
      unfold apply
      rw [if_pos hu]
      rfl
    show (cfg.applyEach changes (cfg.apply change.1 change.2 live)).updates = _
    rw [ih, hfirst, List.append_assoc]
    rfl

theorem values_applyEach (cfg : PropertyConfig) (changes : List (String × Option String))
    (live : LiveProperties) :
    (cfg.applyEach changes live).values = LiveProperties.replay changes live.values := by
  induction changes generalizing live with
  | nil => rfl
  | cons change changes ih =>
    have hfirst : (cfg.apply change.1 change.2 live).values =
        LiveProperties.replay [change] live.values := by
      unfold apply
      split <;> rfl
    show (cfg.applyEach changes (cfg.apply change.1 change.2 live)).values = _
    rw [ih, hfirst]
    rfl

end PropertyConfig

namespace PropertyChange

@[simp] theorem name_of (name : String) (value? : Option String) :
    (of name value?).name = name := by
  cases value? <;> rfl

end PropertyChange

namespace LiveProperties

variable {cfg : PropertyConfig} {P Q : String → Prop} {live live' live'' : LiveProperties}

/-- The live properties after changes of properties with `P`. -/
def ChangedBy (cfg : PropertyConfig) (P : String → Prop) (live live' : LiveProperties) : Prop :=
  ∃ changes, live' = cfg.applyEach changes live ∧ ∀ change ∈ changes, P change.1

namespace ChangedBy

theorem refl (live : LiveProperties) : ChangedBy cfg P live live := ⟨[], rfl, nofun⟩

theorem trans (h : ChangedBy cfg P live live') (h' : ChangedBy cfg P live' live'') :
    ChangedBy cfg P live live'' := by
  obtain ⟨changes, rfl, hchanges⟩ := h
  obtain ⟨changes', rfl, hchanges'⟩ := h'
  refine ⟨changes ++ changes', (List.foldl_append ..).symm, ?_⟩
  intro change hchange
  rcases List.mem_append.1 hchange with hchange | hchange
  · exact hchanges change hchange
  · exact hchanges' change hchange

theorem apply (h : ChangedBy cfg P live live') {name : String} (hname : P name)
    (value? : Option String) : ChangedBy cfg P live (cfg.apply name value? live') :=
  h.trans ⟨[(name, value?)], rfl, by simpa using hname⟩

theorem mono (hPQ : ∀ {name : String}, P name → Q name) (h : ChangedBy cfg P live live') :
    ChangedBy cfg Q live live' := by
  obtain ⟨changes, hlive, hchanges⟩ := h
  exact ⟨changes, hlive, fun change hchange => hPQ (hchanges change hchange)⟩

/-- Where no property has `P`, nothing was changed. -/
theorem eq_of_forall_not (hP : ∀ name, ¬ P name) (h : ChangedBy cfg P live live') :
    live' = live := by
  obtain ⟨changes, rfl, hchanges⟩ := h
  cases changes with
  | nil => rfl
  | cons change changes => exact absurd (hchanges change List.mem_cons_self) (hP change.1)

theorem calls (h : ChangedBy cfg P live live') :
    ∃ calls, live'.calls = live.calls ++ calls ∧ ∀ call ∈ calls, P call.name := by
  obtain ⟨changes, rfl, hchanges⟩ := h
  refine ⟨_, cfg.calls_applyEach changes live, ?_⟩
  intro call hcall
  obtain ⟨change, hchange, rfl⟩ := List.mem_map.1 hcall
  rw [PropertyChange.name_of]
  exact hchanges change hchange

theorem replay (hu : cfg.updater?.isSome = true) (h : ChangedBy cfg P live live') :
    ∃ notes, live'.updates = live.updates ++ notes ∧
      live'.values = LiveProperties.replay notes live.values := by
  obtain ⟨changes, rfl, -⟩ := h
  exact ⟨changes, cfg.updates_applyEach hu changes live, cfg.values_applyEach changes live⟩

end ChangedBy

end LiveProperties

/-! ### RUNTIME and the way back -/

namespace ParkedValues

variable {cfg : PropertyConfig} {P : String → Prop} {live₀ live : LiveProperties}
  {p : ParkedValues} {name : String} {v : ParkedValue}

/-- Only properties with `P` were changed, or are parked. -/
structure Guarded (cfg : PropertyConfig) (P : String → Prop) (live₀ : LiveProperties)
    (p : ParkedValues) (live : LiveProperties) : Prop where
  changed : LiveProperties.ChangedBy cfg P live₀ live
  parked : ∀ {name : String} {v : ParkedValue}, p.get? name = some v → P name

theorem Guarded.forget (h : p.Guarded cfg P live₀ live) (name : String) :
    (p.forget name).Guarded cfg P live₀ live := by
  refine ⟨h.changed, ?_⟩
  intro other v hv
  by_cases hother : other = name
  · rw [hother, p.get?_forget_self] at hv
    cases hv
  · rw [p.get?_forget_of_ne hother] at hv
    exact h.parked hv

theorem Guarded.park (h : p.Guarded cfg P live₀ live) (hname : P name) (v : ParkedValue) :
    (p.park name v).Guarded cfg P live₀ live := by
  refine ⟨h.changed, ?_⟩
  intro other v' hv'
  by_cases hother : other = name
  · rw [hother]
    exact hname
  · rw [p.get?_park_of_ne hother] at hv'
    exact h.parked hv'

theorem Guarded.apply (h : p.Guarded cfg P live₀ live) (hname : P name)
    (value? : Option String) : p.Guarded cfg P live₀ (cfg.apply name value? live) :=
  ⟨h.changed.apply hname value?, h.parked⟩

/-- Applying parked values changes only properties that were parked. -/
theorem Guarded.retry (h : p.Guarded cfg P live₀ live) :
    (p.retry cfg live).2.1.Guarded cfg P live₀ (p.retry cfg live).2.2 :=
  retry_keeps (I := Guarded cfg P live₀) (fun h hv _ => (h.apply (h.parked hv) _).forget _) h

theorem Guarded.applyStrictly (h : p.Guarded cfg P live₀ live) :
    (p.applyStrictly cfg live).2.1.Guarded cfg P live₀ (p.applyStrictly cfg live).2.2 :=
  applyNamed_keeps (I := Guarded cfg P live₀) (fun h hv _ => (h.apply (h.parked hv) _).forget _) _ h

end ParkedValues

namespace Alignment

variable {cfg : PropertyConfig} {booting : Bool} {P : String → Prop} {live₀ : LiveProperties}
  {m : Alignment} {u : PendingUpdate}

/-- Only properties with `P` were changed, are parked or will be changed on the way back. -/
structure Guarded (cfg : PropertyConfig) (P : String → Prop) (live₀ : LiveProperties)
    (m : Alignment) : Prop where
  values : (m.parked?.getD {}).Guarded cfg P live₀ m.live
  undo : ∀ {name : String} {prior? : Option String}, Undo.restore name prior? ∈ m.undo → P name

theorem Guarded.retry (h : m.Guarded cfg P live₀) : (m.retry cfg).Guarded cfg P live₀ := by
  unfold Alignment.retry
  cases hp : m.parked? with
  | none => exact h
  | some p =>
    have hvalues := h.values
    rw [hp] at hvalues
    exact ⟨hvalues.retry, h.undo⟩

theorem Guarded.pass (h : m.Guarded cfg P live₀) : (m.pass cfg).2.Guarded cfg P live₀ := by
  unfold Alignment.pass
  cases hp : m.parked? with
  | none => exact h
  | some p =>
    have hvalues := h.values
    rw [hp] at hvalues
    dsimp only
    by_cases hqueued : p.passQueued = true
    · rw [if_pos hqueued]
      exact ⟨hvalues.applyStrictly, h.undo⟩
    · rw [if_neg hqueued]
      exact h

theorem Guarded.beginUpdate (h : m.Guarded cfg P live₀) {name : String} (hname : P name) :
    (m.beginUpdate name).Guarded cfg P live₀ := by
  constructor
  · have hvalues := h.values
    unfold Alignment.beginUpdate
    cases hp : m.parked? with
    | none =>
      rw [hp] at hvalues
      exact hvalues
    | some p =>
      rw [hp] at hvalues
      exact hvalues.forget name
  · intro other prior? hmem
    rcases List.mem_cons.1 hmem with heq | hmem
    · cases heq
      exact hname
    · exact h.undo hmem

/-- An update keeps to properties with `P`, if its own is one where it is applied at once. -/
theorem Guarded.update (h : m.Guarded cfg P live₀) (hu : u.effect = .apply → P u.name) :
    (m.update cfg booting u).Guarded cfg P live₀ := by
  unfold Alignment.update
  cases heffect : u.effect with
  | apply =>
    have hname := hu heffect
    have hbegun := h.beginUpdate hname
    cases intendedValue m.live u.model with
    | ok value? =>
      have hset : ((m.beginUpdate u.name).setLive cfg u.name value?).Guarded cfg P live₀ :=
        ⟨hbegun.values.apply hname value?, hbegun.undo⟩
      exact hset.retry
    | error fault =>
      have hparked := hbegun.values.park hname { model := u.model, fault }
      exact ⟨⟨hparked.changed, hparked.parked⟩, hbegun.undo⟩
  | reload =>
    refine ⟨h.values, ?_⟩
    intro name prior? hmem
    rcases List.mem_cons.1 hmem with heq | hmem
    · cases heq
    · exact h.undo hmem
  | none => exact h

theorem Guarded.updateAll {us : List PendingUpdate} (h : m.Guarded cfg P live₀)
    (hus : ∀ u ∈ us, u.effect = .apply → P u.name) :
    (m.updateAll cfg booting us).Guarded cfg P live₀ := by
  induction us generalizing m with
  | nil => exact h
  | cons u us ih =>
    obtain ⟨hu, hrest⟩ := List.forall_mem_cons.1 hus
    exact ih (h.update hu) hrest

/-- Going back changes properties with `P` only. -/
theorem changedBy_undoAll {undo : List Undo} {live : LiveProperties}
    (h : LiveProperties.ChangedBy cfg P live₀ live)
    (hundo : ∀ {name : String} {prior? : Option String}, Undo.restore name prior? ∈ undo → P name) :
    LiveProperties.ChangedBy cfg P live₀ (undoAll cfg undo live) := by
  induction undo generalizing live with
  | nil => exact h
  | cons first undo ih =>
    refine ih ?_ fun hmem => hundo (List.mem_cons_of_mem _ hmem)
    cases first with
    | restore name prior? =>
      show LiveProperties.ChangedBy cfg P live₀
        (if live.get? name = prior? then live else cfg.apply name prior? live)
      by_cases hsame : live.get? name = prior?
      · rw [if_pos hsame]
        exact h
      · rw [if_neg hsame]
        exact h.apply (hundo List.mem_cons_self) prior?
    | withdrawReload => exact h

/-! ### Requests for a reload -/

@[simp] theorem raised_retry (cfg : PropertyConfig) (m : Alignment) :
    (m.retry cfg).raised = m.raised := by
  unfold retry
  split <;> rfl

@[simp] theorem raised_pass (cfg : PropertyConfig) (m : Alignment) :
    (m.pass cfg).2.raised = m.raised := by
  unfold pass
  split
  · rfl
  · split <;> rfl

theorem raised_update (cfg : PropertyConfig) (booting : Bool) (m : Alignment) (u : PendingUpdate) :
    (m.update cfg booting u).raised = true ↔ m.raised = true ∨ u.effect = .reload := by
  unfold update
  cases u.effect with
  | apply =>
    dsimp only
    split
    · rw [raised_retry]
      simp [setLive, beginUpdate]
    · simp [defer, beginUpdate]
  | reload => simp
  | none => simp

/-- A reload is asked for just if one of the updates needs it. -/
theorem raised_updateAll (cfg : PropertyConfig) (booting : Bool) (us : List PendingUpdate)
    (m : Alignment) :
    (m.updateAll cfg booting us).raised = true ↔
      m.raised = true ∨ ∃ u ∈ us, u.effect = .reload := by
  induction us generalizing m with
  | nil => simp [updateAll]
  | cons u us ih =>
    show ((m.update cfg booting u).updateAll cfg booting us).raised = true ↔ _
    rw [ih, raised_update]
    simp [or_assoc]

end Alignment

/-! ### MODEL -/

/-- The value of the property whose resource is at the address; undefined if there is none. -/
def Property.valueAt (t : Tree) (a : Address) : Value := valueIn ((t.get? a).getD ∅)

/-- What an operation at the address made of the tree concerns the process: a property was added or
    removed, or has another value. -/
inductive PropertyHandler.Alters (a : Address) (t t' : Tree) : PropertyHandler → Prop where
  | add : Alters a t t' .add
  | remove : Alters a t t' .remove
  | writeAttribute (h : Property.valueAt t' a ≠ Property.valueAt t a) : Alters a t t' .writeAttribute

section

variable {C : Type} {schema? : Address → Option ResourceSchema} {effect : String → LiveEffect}
  {op : Operation} {w w' : WorkingCopy} {o : Delivery}

/-- The value is another one just if a write of the value changed it. -/
theorem Resource.valueAt_of_writeDraft {change : AttributeUpdate}
    (h : writeDraft schema? op w = .ok (change, w')) :
    Property.valueAt w'.tree op.address ≠ Property.valueAt w.tree op.address ↔
      change.name = propertyValueAttribute ∧ change.old ≠ change.new := by
  obtain ⟨-, -, before, -, -, -, hbefore, hold, rfl⟩ := writeDraft_eq_ok h
  have hafter : Property.valueAt (w.tree.put op.address
      (withAttribute change.name change.new before)) op.address =
        Property.valueIn (withAttribute change.name change.new before) := by
    unfold Property.valueAt
    rw [Tree.get?_put_self]
    rfl
  have hfirst : Property.valueAt w.tree op.address = Property.valueIn before := by
    unfold Property.valueAt
    rw [hbefore]
    rfl
  show Property.valueAt (w.tree.put _ _) _ ≠ _ ↔ _
  rw [hafter, hfirst]
  by_cases hname : change.name = propertyValueAttribute
  · rw [hname, Property.valueIn_withAttribute_self]
    rw [hname] at hold
    have hvalue : Property.valueIn before = change.old := hold.symm
    rw [hvalue]
    exact ⟨fun hne => ⟨rfl, hne.symm⟩, fun hne => hne.2.symm⟩
  · rw [Property.valueIn_withAttribute_of_ne hname]
    exact ⟨fun hne => absurd rfl hne, fun hne => absurd hne.1 hname⟩

/-- An operation leaves an update just if it is one on a property and alters it. -/
theorem ModelHandler.update?_of_draft {h : ModelHandler C}
    (hdraft : h.draft schema? effect op w = .ok (o, w')) :
    (o.update? = none ∧ ∀ k, h = .property k → ¬ k.Alters op.address w.tree w'.tree) ∨
      ∃ k name model, h = .property k ∧ k.Alters op.address w.tree w'.tree ∧
        Property.nameOf op = .ok name ∧
        o.update? = some { name, model, effect := effect name } := by
  cases h with
  | resource h => exact .inl ⟨update?_of_resource hdraft, nofun⟩
  | property k =>
    cases k with
    | add =>
      obtain ⟨model, name, -, hname, rfl⟩ := draft_add_eq_ok.1 hdraft
      exact .inr ⟨_, name, model, rfl, .add, hname, rfl⟩
    | remove =>
      obtain ⟨-, name, hname, hupdate⟩ := draft_remove_eq_ok hdraft
      exact .inr ⟨_, name, ∅, rfl, .remove, hname, hupdate⟩
    | writeAttribute =>
      obtain ⟨change, hwrite, hcases⟩ := draft_write_eq_ok hdraft
      have hvalue := Resource.valueAt_of_writeDraft hwrite
      rcases hcases with ⟨hsame, hupdate⟩ | ⟨hchanged, name, model, hname, -, hupdate⟩
      · refine .inl ⟨hupdate, ?_⟩
        intro k hk halters
        cases hk
        cases halters with
        | writeAttribute hne => exact hsame (hvalue.1 hne)
      · exact .inr ⟨_, name, model, rfl, .writeAttribute (hvalue.2 hchanged), hname, hupdate⟩
    | update name model action | verify name | applyParked =>
      -- these run in later stages: in MODEL there is nothing of them
      cases hdraft
      refine .inl ⟨rfl, fun k hk halters => ?_⟩
      cases hk
      cases halters
  | custom code =>
    cases hdraft
    exact .inl ⟨rfl, nofun⟩

end

namespace Draft

variable {C : Type} {schema? : Address → Option ResourceSchema} {effect : String → LiveEffect}
  {tasks : List (Operation × ModelHandler C)} {task : Operation × ModelHandler C} {d d' : Draft}
  {name : String}

/-- One of the operations alters the property, each being carried out on what the ones before it
    made of the model. -/
def Alters (schema? : Address → Option ResourceSchema) (effect : String → LiveEffect)
    (tasks : List (Operation × ModelHandler C)) (d : Draft) (name : String) : Prop :=
  ∃ before op k after d₁ d₂, tasks = before ++ (op, .property k) :: after ∧
    run schema? effect before d = .ok d₁ ∧
    step schema? effect d₁ (op, (.property k : ModelHandler C)) = .ok d₂ ∧
    Property.nameOf op = .ok name ∧
    k.Alters op.address d₁.working.tree d₂.working.tree

theorem alters_cons (hstep : step schema? effect d task = .ok d') :
    Alters schema? effect (task :: tasks) d name ↔
      (∃ k, task.2 = .property k ∧ Property.nameOf task.1 = .ok name ∧
        k.Alters task.1.address d.working.tree d'.working.tree) ∨
      Alters schema? effect tasks d' name := by
  constructor
  · rintro ⟨before, op, k, after, d₁, d₂, hsplit, hbefore, hstep₁, hname, halters⟩
    cases before with
    | nil =>
      obtain ⟨rfl, rfl⟩ := List.cons.inj hsplit
      cases hbefore
      rw [hstep] at hstep₁
      cases hstep₁
      exact .inl ⟨k, rfl, hname, halters⟩
    | cons first before =>
      obtain ⟨rfl, rfl⟩ := List.cons.inj hsplit
      rw [run_cons, hstep] at hbefore
      exact .inr ⟨before, op, k, after, d₁, d₂, rfl, hbefore, hstep₁, hname, halters⟩
  · rintro (⟨k, htask, hname, halters⟩ |
      ⟨before, op, k, after, d₁, d₂, rfl, hbefore, hstep₁, hname, halters⟩)
    · obtain ⟨op, h⟩ := task
      cases htask
      exact ⟨[], op, k, tasks, d, d', rfl, rfl, hstep, hname, halters⟩
    · refine ⟨task :: before, op, k, after, d₁, d₂, rfl, ?_, hstep₁, hname, halters⟩
      rw [run_cons, hstep]
      exact hbefore

/-- An operation leaves an update for RUNTIME just for the property that it alters. -/
theorem updates_of_step (hstep : step schema? effect d task = .ok d') :
    ∃ us, d'.updates = d.updates ++ us ∧ (∀ u ∈ us, u.effect = effect u.name) ∧
      ∀ name, (∃ u ∈ us, u.name = name) ↔ ∃ k, task.2 = .property k ∧
        Property.nameOf task.1 = .ok name ∧
        k.Alters task.1.address d.working.tree d'.working.tree := by
  obtain ⟨o, working, hdraft, rfl⟩ := step_eq_ok.1 hstep
  refine ⟨o.update?.toList, rfl, ?_⟩
  rcases ModelHandler.update?_of_draft hdraft with
    ⟨hnone, hnot⟩ | ⟨k, name, model, hk, halters, hname, hsome⟩
  · rw [hnone]
    refine ⟨nofun, fun name => iff_of_false nofun ?_⟩
    rintro ⟨k, hk, -, halters⟩
    exact hnot k hk halters
  · rw [hsome]
    refine ⟨List.forall_mem_singleton.2 rfl, fun other => ⟨?_, ?_⟩⟩
    · rintro ⟨u, hu, rfl⟩
      cases List.mem_singleton.1 hu
      exact ⟨k, hk, hname, halters⟩
    · rintro ⟨-, -, hother, -⟩
      rw [hname] at hother
      exact ⟨_, List.mem_cons_self, Except.ok.inj hother⟩

/-- The updates left for RUNTIME are for the properties that the operations alter. -/
theorem updates_of_run (h : run schema? effect tasks d = .ok d') :
    ∃ us, d'.updates = d.updates ++ us ∧ (∀ u ∈ us, u.effect = effect u.name) ∧
      ∀ name, (∃ u ∈ us, u.name = name) ↔ Alters schema? effect tasks d name := by
  induction tasks generalizing d with
  | nil =>
    cases h
    refine ⟨[], (List.append_nil _).symm, nofun, fun name => iff_of_false nofun ?_⟩
    rintro ⟨before, op, k, after, d₁, d₂, hsplit, -⟩
    exact absurd hsplit.symm (List.append_ne_nil_of_right_ne_nil before (List.cons_ne_nil _ _))
  | cons task tasks ih =>
    rw [run_cons] at h
    cases hstep : step schema? effect d task with
    | error fault =>
      rw [hstep] at h
      cases h
    | ok d₁ =>
      rw [hstep] at h
      obtain ⟨first, hfirst, heffect, hnames⟩ := updates_of_step hstep
      obtain ⟨rest, hrest, heffect', hnames'⟩ := ih h
      refine ⟨first ++ rest, ?_, List.forall_mem_append.2 ⟨heffect, heffect'⟩, fun name => ?_⟩
      · rw [hrest, hfirst, List.append_assoc]
      · rw [alters_cons hstep, ← hnames name, ← hnames' name]
        simp only [List.mem_append, or_and_right, exists_or]

end Draft

/-! ### Transactions -/

/-- The submission is made to a running process: it does not boot the model. -/
def Submission.IsRuntime : Submission → Prop
  | .execute _ | .executeAll _ => True
  | .boot _ => False

namespace Controller

variable {X : Signature} {c : Controller X.withProperties} {cfg : PropertyConfig} {booting : Bool}
  {accepted : List (Operation × RegisteredOperation (ModelHandler X.Handler))}
  {ops : List Operation} {s s' t t' : ControllerState X.withProperties} {name : String}

/-- The operation is one on system properties, and about the property named. -/
def Concerns (c : Controller X.withProperties) (op : Operation) (name : String) : Prop :=
  ∃ entry k, c.registry.operation? op.address op.name = some entry ∧
    entry.handler = .property k ∧ Property.nameOf op = .ok name

theorem allows_of_effect (h : c.effect cfg booting name = .apply) :
    cfg.allows name booting = true := by
  unfold effect PropertyConfig.effectFor at h
  by_cases hallows : cfg.allows name booting = true
  · exact hallows
  · rw [if_neg hallows] at h
    split at h <;> cases h

theorem effect_eq_reload :
    c.effect cfg booting name = .reload ↔
      c.processKind.isServer = true ∧ cfg.allows name booting = false := by
  unfold effect PropertyConfig.effectFor
  cases cfg.allows name booting <;> cases c.processKind.isServer <;> simp

/-- A property that is altered is the concern of one of the operations submitted. -/
theorem concerns_of_alters (hacc : c.acceptAll booting ops = .ok accepted)
    {schema? : Address → Option ResourceSchema} {effect : String → LiveEffect} {d : Draft}
    (h : Draft.Alters schema? effect (tasksOf accepted) d name) :
    ∃ op ∈ ops, c.Concerns op name := by
  obtain ⟨before, op, k, after, d₁, d₂, hsplit, -, -, hname, -⟩ := h
  have hmem : (op, (.property k : ModelHandler X.Handler)) ∈ tasksOf accepted := by
    rw [hsplit]
    exact List.mem_append_right _ List.mem_cons_self
  obtain ⟨a, ha, htask⟩ := List.mem_map.1 hmem
  obtain ⟨rfl, hhandler⟩ := Prod.mk.inj htask
  exact ⟨a.1, mem_of_acceptAll hacc a ha, a.2, k, operation?_of_acceptAll hacc a ha, hhandler, hname⟩

/-- The properties that a submission of these operations may change in the process. -/
def MayChange (c : Controller X.withProperties) (cfg : PropertyConfig) (booting : Bool)
    (ops : List Operation) (name : String) : Prop :=
  cfg.allows name booting = true ∧ ∃ op ∈ ops, c.Concerns op name

/-- A transaction changes no other properties, whether it commits or fails. -/
theorem changedBy_course (hacc : c.acceptAll booting ops = .ok accepted)
    (s : ControllerState X.withProperties) :
    LiveProperties.ChangedBy cfg (c.MayChange cfg booting ops) s.environment.live
      (c.course cfg booting accepted s).2.environment.live := by
  cases hrun : (draftOf accepted s).run c.registry.resource? (c.effect cfg booting)
      (tasksOf accepted) with
  | error cause =>
    rw [course_of_draft_error hrun]
    exact .refl _
  | ok d =>
    obtain ⟨us, hus, heffect, hnames⟩ := Draft.updates_of_run hrun
    rw [show (draftOf accepted s).updates = [] from rfl, List.nil_append] at hus
    -- an update that is applied at once is for a property that may be changed
    have happlied : ∀ u ∈ d.updates, u.effect = .apply → c.MayChange cfg booting ops u.name := by
      rw [hus]
      intro u hu happly
      rw [heffect u hu] at happly
      have halters := (hnames u.name).1 ⟨u, hu, rfl⟩
      exact ⟨allows_of_effect happly, concerns_of_alters hacc halters⟩
    have hfirst : ({ live := s.environment.live } : Alignment).Guarded cfg
        (c.MayChange cfg booting ops) s.environment.live :=
      ⟨⟨.refl _, nofun⟩, nofun⟩
    have hguarded : ((({ live := s.environment.live } : Alignment).updateAll cfg booting
        d.updates).settle cfg).2.Guarded cfg (c.MayChange cfg booting ops) s.environment.live := by
      rw [Alignment.settle_snd]
      exact (hfirst.updateAll happlied).pass
    rcases hsettle : (({ live := s.environment.live } : Alignment).updateAll cfg booting
      d.updates).settle cfg with ⟨outcome, m⟩
    rw [hsettle] at hguarded
    cases outcome with
    | error cause =>
      rw [course_of_settle_error hrun hsettle]
      exact Alignment.changedBy_undoAll hguarded.values.changed hguarded.undo
    | ok u =>
      rw [course_of_settle_ok hrun hsettle]
      exact hguarded.values.changed

/-- A transaction that commits leaves the process to be reloaded just if it was before, or if the
    transaction altered a property of a server that may not change at run time. -/
theorem isRequired_course {results : List Value}
    (h : (c.course cfg booting accepted s).1 = .ok results) :
    (c.course cfg booting accepted s).2.reload.isRequired = true ↔
      s.reload.isRequired = true ∨ c.processKind.isServer = true ∧
        ∃ name, cfg.allows name booting = false ∧
          Draft.Alters c.registry.resource? (c.effect cfg booting) (tasksOf accepted)
            (draftOf accepted s) name := by
  obtain ⟨d, m, hrun, hsettle, -, hstate⟩ := course_eq_ok h
  obtain ⟨us, hus, heffect, hnames⟩ := Draft.updates_of_run hrun
  rw [show (draftOf accepted s).updates = [] from rfl, List.nil_append] at hus
  have hraised : m.raised = true ↔ ∃ u ∈ us, u.effect = .reload := by
    have hpass := Alignment.settle_snd cfg
      (({ live := s.environment.live } : Alignment).updateAll cfg booting d.updates)
    rw [hsettle] at hpass
    rw [show m = _ from hpass, Alignment.raised_pass, Alignment.raised_updateAll, hus]
    simp
  have hreload : (published d m s).reload.isRequired = true ↔
      s.reload.isRequired = true ∨ m.raised = true := by
    unfold published ReloadState.isRequired
    cases m.raised <;> simp
  rw [hstate, hreload, hraised]
  refine or_congr_right ⟨?_, ?_⟩
  · rintro ⟨u, hu, hu'⟩
    rw [heffect u hu, effect_eq_reload] at hu'
    exact ⟨hu'.1, u.name, hu'.2, (hnames u.name).1 ⟨u, hu, rfl⟩⟩
  · rintro ⟨hserver, name, hallows, halters⟩
    obtain ⟨u, hu, rfl⟩ := (hnames name).2 halters
    refine ⟨u, hu, ?_⟩
    rw [heffect u hu, effect_eq_reload]
    exact ⟨hserver, hallows⟩

/-! ### Submissions -/

/-- What a submission does to the process. -/
structure Access (c : Controller X.withProperties) (cfg : PropertyConfig) (sub : Submission)
    (outcome : Outcome) (t t' : ControllerState X.withProperties) : Prop where
  /-- The live properties change only where one that may change is the concern of an operation. -/
  changed : LiveProperties.ChangedBy cfg (c.MayChange cfg false sub.operations)
    t.environment.live t'.environment.live
  /-- If it commits, then a reload is required if it was, or if it altered a property of a server
      that may not change at run time. -/
  reload : outcome.isOk = true → (t'.reload.isRequired = true ↔
    t.reload.isRequired = true ∨ c.processKind.isServer = true ∧
      ∃ accepted, c.acceptAll false sub.operations = .ok accepted ∧
        ∃ name, cfg.allows name false = false ∧
          Draft.Alters c.registry.resource? (c.effect cfg false) (tasksOf accepted)
            (draftOf accepted t) name)

/-- A submission at run time has this access only, and leaves the state tidy and out of boot
    mode. -/
theorem access_of_perform (hc : c.RunsModel cfg) (ht : t.Tidy) (hmode : t.booting = false)
    {sub : Submission} (hsub : sub.IsRuntime) (hops : ∀ op ∈ sub.operations, c.IsBuiltIn op)
    {outcome : Outcome} (h : c.perform sub t = .ok (outcome, t')) :
    t'.Tidy ∧ t'.booting = false ∧ Access c cfg sub outcome t t' := by
  obtain ⟨r, s₁, hsubmit, houtcome, hafter⟩ := perform_eq_ok.1 h
  have hruntime : sub.inBootMode t.booting = false ∧ sub.after s₁ = s₁ := by
    cases sub with
    | execute op => exact ⟨hmode, rfl⟩
    | executeAll ops => exact ⟨hmode, rfl⟩
    | boot ops => exact absurd hsub id
  rw [hruntime.1] at hsubmit
  rw [hruntime.2] at hafter
  subst hafter
  refine ⟨tidy_of_isBuiltIn hc ht hops h, ?_⟩
  rcases settles_of_submit hc ht hops hsubmit with ⟨hempty, -, rfl⟩ | ⟨cause, -, rfl, rfl⟩ |
    ⟨accepted, hacc, -, hsettles⟩
  · -- without operations no property is altered
    refine ⟨hmode, .refl _, fun _ => ⟨.inl, ?_⟩⟩
    rintro (hrequired | ⟨-, accepted, hacc, name, -, halters⟩)
    · exact hrequired
    · obtain ⟨op, hop, -⟩ := concerns_of_alters hacc halters
      rw [hempty] at hop
      cases hop
  · -- nor if one of them is not accepted
    rw [houtcome]
    exact ⟨hmode, .refl _, nofun⟩
  · refine ⟨hsettles.booting_eq.trans hmode, ?_, fun hok => ?_⟩
    · rw [hsettles.environment_eq]
      exact changedBy_course hacc t
    · cases r with
      | error failure =>
        rw [houtcome] at hok
        cases hok
      | ok p =>
        rw [hsettles.reload_eq, isRequired_course hsettles.course_eq]
        refine or_congr_right (and_congr_right fun _ => ?_)
        constructor
        · exact fun halters => ⟨accepted, hacc, halters⟩
        · rintro ⟨accepted', hacc', halters⟩
          rw [hacc] at hacc'
          cases hacc'
          exact halters

/-- Along a run of submissions at run time, only properties change that may. -/
theorem Run.changedBy (hc : c.RunsModel cfg) (hs : s.Tidy) (hmode : s.booting = false)
    {log : List (Submission × Outcome)} (hrun : Run c s log t)
    (hlog : ∀ x ∈ log, x.1.IsRuntime ∧ ∀ op ∈ x.1.operations, c.IsBuiltIn op) :
    t.Tidy ∧ t.booting = false ∧
      LiveProperties.ChangedBy cfg (cfg.allows · false = true) s.environment.live
        t.environment.live := by
  -- each submission has concerns of its own, so that along the run only the policy is kept
  induction hrun with
  | start => exact ⟨hs, hmode, .refl _⟩
  | @next log t t' sub outcome before answer ih =>
    obtain ⟨hbefore, hlast⟩ := List.forall_mem_append.1 hlog
    obtain ⟨ht, htmode, hchanged⟩ := ih hbefore
    obtain ⟨hsub, hops⟩ := hlast _ List.mem_cons_self
    obtain ⟨ht', htmode', haccess⟩ := access_of_perform hc ht htmode hsub hops answer
    exact ⟨ht', htmode', hchanged.trans (haccess.changed.mono And.left)⟩

/-- The live properties are guarded. After any sequence of submissions at run time of built-in
    operations, committing or failing, the next one sets or clears only properties that it concerns
    and that are not protected; without an updater it changes nothing, and with one, what the
    updater has been notified of makes up the live values. If it commits, a reload is required
    just if it was before, or if the submission altered a property of a server that may not change
    at run time. -/
theorem live_guarded (hc : c.RunsModel cfg) (hs : s.Tidy) (hmode : s.booting = false)
    {log : List (Submission × Outcome)} (hrun : Run c s log t)
    (hlog : ∀ x ∈ log, x.1.IsRuntime ∧ ∀ op ∈ x.1.operations, c.IsBuiltIn op)
    {sub : Submission} (hsub : sub.IsRuntime) (hops : ∀ op ∈ sub.operations, c.IsBuiltIn op)
    {outcome : Outcome} (h : c.perform sub t = .ok (outcome, t')) :
    (∃ calls, t'.environment.live.calls = t.environment.live.calls ++ calls ∧
      ∀ call ∈ calls, (∃ op ∈ sub.operations, c.Concerns op call.name) ∧
        ∃ u, cfg.updater? = some u ∧ u.isProtected call.name = false) ∧
    (cfg.updater? = none → t'.environment.live = s.environment.live) ∧
    (cfg.updater?.isSome = true →
      ∃ notes, t'.environment.live.updates = s.environment.live.updates ++ notes ∧
        t'.environment.live.values = LiveProperties.replay notes s.environment.live.values) ∧
    (outcome.isOk = true → (t'.reload.isRequired = true ↔
      t.reload.isRequired = true ∨ c.processKind.isServer = true ∧
        ∃ accepted, c.acceptAll false sub.operations = .ok accepted ∧
          ∃ name, cfg.allows name false = false ∧
            Draft.Alters c.registry.resource? (c.effect cfg false) (tasksOf accepted)
              (draftOf accepted t) name)) ∧
    (c.processKind.isServer = false → t'.reload.isRequired = t.reload.isRequired) := by
  obtain ⟨ht, htmode, hbefore⟩ := hrun.changedBy hc hs hmode hlog
  obtain ⟨-, -, haccess⟩ := access_of_perform hc ht htmode hsub hops h
  have hwhole := hbefore.trans (haccess.changed.mono And.left)
  refine ⟨?calls, ?without, hwhole.replay, haccess.reload, ?host⟩
  case calls =>
    obtain ⟨calls, hcalls, hmay⟩ := haccess.changed.calls
    refine ⟨calls, hcalls, fun call hcall => ?_⟩
    obtain ⟨hallows, hconcerns⟩ := hmay call hcall
    exact ⟨hconcerns, PropertyConfig.allows_running.1 hallows⟩
  case without =>
    intro hu
    refine hwhole.eq_of_forall_not fun name hallows => ?_
    obtain ⟨u, hsome, -⟩ := PropertyConfig.allows_running.1 hallows
    rw [hu] at hsome
    cases hsome
  case host =>
    intro hhost
    cases outcome with
    | error failure => exact (live_unchanged_of_error hc ht hops h).1.reloadRequired_eq
    | ok response =>
      have hreload := haccess.reload rfl
      rw [hhost] at hreload
      exact Bool.eq_iff_iff.2 (hreload.trans (or_iff_left fun hserver => nomatch hserver.1))

/-- The controller of a server on which the property `home` may not change at run time. -/
def homeward : Controller Signature.bare.withProperties :=
  bare { updater? := some { protectedNames := ["home"] } } 10

/-- A value was parked and then applied, a transaction has failed on another one, and now one
    property is changed at once while the protected one waits for a reload. -/
theorem live_guarded_homeward :
    ∃ log t response t', Run homeward .bare log t ∧
      homeward.perform (.executeAll [Property.writeRequest "q" (some "w"),
        Property.addRequest "home" (some "x") none]) t = .ok (.ok response, t') ∧
      t.environment.live.get? "q" = some "v" ∧ t'.environment.live.get? "q" = some "w" ∧
      (∃ calls, t'.environment.live.calls = t.environment.live.calls ++ calls ∧
        ∀ call ∈ calls, call.name ≠ "home") ∧
      (∃ notes, t'.environment.live.updates = notes ∧
        t'.environment.live.values = LiveProperties.replay notes ∅) ∧
      t.reload.isRequired = false ∧ t'.reload.isRequired = true ∧
      ∃ accepted, Draft.Alters homeward.registry.resource?
        (homeward.effect { updater? := some { protectedNames := ["home"] } } false)
        (tasksOf accepted) (draftOf accepted t) "home" := by
  have hrun : homeward.answers (.executeAll [Property.addRequest "p" (some "$\x7bq\x7d") none,
        Property.addRequest "q" (some "v") none]) .bare (fun _ s₁ =>
      homeward.answers (.executeAll [Property.writeRequest "q" (some "u"),
        Property.writeRequest "p" (some "$\x7bz\x7d")]) s₁ fun second s₂ =>
      !second.isOk && (s₂.environment.live.get? "q" == some "v" && (!s₂.reload.isRequired &&
        homeward.answers (.executeAll [Property.writeRequest "q" (some "w"),
          Property.addRequest "home" (some "x") none]) s₂ fun third s₃ =>
        third.isOk && (s₃.environment.live.get? "q" == some "w" && s₃.reload.isRequired)))) =
      true := by
    decide +kernel
  obtain ⟨first, s₁, h₁, hrun⟩ := exists_of_answers hrun
  obtain ⟨second, s₂, h₂, hrun⟩ := exists_of_answers hrun
  obtain ⟨hbefore, hrun⟩ := Bool.and_eq_true_iff.1 (Bool.and_eq_true_iff.1 hrun).2
  obtain ⟨hnone, hrun⟩ := Bool.and_eq_true_iff.1 hrun
  obtain ⟨third, s₃, h₃, hrun⟩ := exists_of_answers hrun
  obtain ⟨hok, hrun⟩ := Bool.and_eq_true_iff.1 hrun
  obtain ⟨hafter, hrequired⟩ := Bool.and_eq_true_iff.1 hrun
  have hclear : s₂.reload.isRequired = false := by simpa using hnone
  cases third with
  | error failure => cases hok
  | ok response =>
    have hreached := (Run.start.next h₁).next h₂
    have hruntime : ∀ ops, (Submission.executeAll ops).IsRuntime := fun _ => trivial
    obtain ⟨hcalls, -, hnotes, hreload, -⟩ := live_guarded (X := Signature.bare)
      (runsModel_bare _ 10) ControllerState.tidy_bare rfl hreached
      (List.forall_mem_cons.2 ⟨⟨hruntime _, fun op _ => isBuiltIn_bare _ 10 op⟩,
        List.forall_mem_singleton.2 ⟨hruntime _, fun op _ => isBuiltIn_bare _ 10 op⟩⟩)
      (hruntime _) (fun op _ => isBuiltIn_bare _ 10 op) h₃
    refine ⟨_, s₂, response, s₃, hreached, h₃, eq_of_beq hbefore, eq_of_beq hafter, ?calls,
      hnotes rfl, hclear, hrequired, ?altered⟩
    case calls =>
      obtain ⟨calls, heq, hguarded⟩ := hcalls
      refine ⟨calls, heq, fun call hcall hhome => ?_⟩
      obtain ⟨-, u, hu, hfree⟩ := hguarded call hcall
      cases hu
      rw [hhome] at hfree
      revert hfree
      decide
    case altered =>
      rcases (hreload rfl).1 hrequired with hwas | ⟨-, accepted, -, name, hname, halters⟩
      · rw [hclear] at hwas
        cases hwas
      · have hprotected : name = "home" := by
          simpa [PropertyConfig.allows, PropertyUpdater.allows, PropertyUpdater.isProtected]
            using hname
        rw [hprotected] at halters
        exact ⟨accepted, halters⟩

end Controller

end ManagedModel
