import ManagedModel.Proofs.Conformity
import ManagedModel.Proofs.Course.Properties

/-! # Adding and then writing

    An attribute that is written after its resource was added might as well have
    been given its value when the resource was added.

    * A single operation whose handler does no more than change the working copy
      commits just if its request is in order, its address is free, a step may
      be taken at all, and the change goes through on a copy of what is
      committed (`Controller.Offers.exists_commits`,
      `Controller.Offers.of_commits`). Its course is followed through the three
      stages: MODEL has the one step, and RUNTIME and VERIFY have none.
    * Validating parameters one of which was given another value comes to
      validating that value alone and writing it over what was validated before
      (`AttributeSchema.validateAll_given`). Defaults, required attributes and
      references need no care of their own there, as one attribute is validated
      in the same way for both.
    * The two meet in `Controller.write_after_add`. -/

namespace ManagedModel

variable {S : Signature} {c : Controller S}

/-! ### The course of a single operation -/

/-- A stage that no step waits for is over at once. -/
theorem InFlight.runStages_of_idle {stage : Stage} {stages : List Stage} {f : InFlight S}
    (hallows : f.transaction.status.allows (.executing stage))
    (hpop : (f.entered stage).transaction.agenda.pop? = none) :
    runStages c (stage :: stages) f = runStages c stages (f.entered stage) :=
  runStages_of_ok (enter_of_allows hallows) (drain_of_empty hpop _)

namespace Controller

section

variable {op : Operation} {entry : RegisteredOperation S.Handler} {m : Drafting Unit}
  {booting : Bool} {id : Nat} {s : ControllerState S}

/-- The step that is queued for a single operation. -/
def stepOf (op : Operation) (entry : RegisteredOperation S.Handler) : Step S :=
  { ticket := 0, origin := 0, operation := op, handler := entry.handler }

/-- The transaction of a single operation when the handler of its step begins. -/
def handling (op : Operation) (entry : RegisteredOperation S.Handler) (booting : Bool) (id : Nat)
    (s : ControllerState S) : InFlight S :=
  ((begin booting id [(op, entry)] s).entered .model).taken (stepOf op entry)
    { current := some .model }

/-- The step is there to be taken when MODEL begins. -/
theorem pop?_entered (op : Operation) (entry : RegisteredOperation S.Handler) (booting : Bool)
    (id : Nat) (s : ControllerState S) :
    (begin booting id [(op, entry)] s).enter .model =
        .ok ((begin booting id [(op, entry)] s).entered .model) ∧
      ((begin booting id [(op, entry)] s).entered .model).transaction.agenda.pop? =
        some (stepOf op entry, { current := some .model }) :=
  ⟨InFlight.enter_of_allows rfl, rfl⟩

/-- The handler's outcome counts where it has not broken a rule or given up. -/
theorem execute_stepOf {outcome : Except Fault Unit} {g : InFlight S}
    (hrun : (c.handle entry.handler op).run c (handling op entry booting id s) = (outcome, g))
    (hbreach : g.transaction.breach = none) (hopen : g.transaction.rollbackOnly = false) :
    InFlight.execute c (stepOf op entry)
        (((begin booting id [(op, entry)] s).entered .model).onTransaction
          fun t => { t with agenda := { current := some .model } }) =
      (outcome, g.ended (stepOf op entry) outcome) := by
  have htaken : (c.handle (stepOf op entry).handler (stepOf op entry).operation).run c
      (((begin booting id [(op, entry)] s).entered .model).taken (stepOf op entry)
        { current := some .model }) = (outcome, g) := hrun
  have hended : InFlight.verdict (g.ended (stepOf op entry) outcome).transaction outcome = outcome :=
    InFlight.verdict_of_clear hbreach hopen outcome
  rw [InFlight.execute_taken htaken, hended]

theorem conclude_of_no_steps (hlimit : c.stepLimit = 0) :
    c.conclude (begin booting id [(op, entry)] s) = none := by
  obtain ⟨henter, hpop⟩ := pop?_entered op entry booting id s
  refine conclude_of_none (InFlight.runStages_of_none henter ?_)
  rw [hlimit]
  exact InFlight.drain_of_zero hpop

/-- A single operation whose change fails aborts. -/
theorem conclude_of_draft_error (hm : Carries c (c.handle entry.handler op) m)
    (hlimit : 0 < c.stepLimit) {cause : Fault}
    (h : m (.ofTree s.store.tree (writeScope [(op, entry)])) = .error cause) :
    ∃ failure f, c.conclude (begin booting id [(op, entry)] s) = some ⟨.error failure, f⟩ := by
  obtain ⟨henter, hpop⟩ := pop?_entered op entry booting id s
  obtain ⟨limit, hlimit⟩ := Nat.exists_eq_add_one.2 hlimit
  have hrun := hm (handling op entry booting id s) rfl
  rw [show m (handling op entry booting id s).transaction.working = _ from h] at hrun
  obtain ⟨w, hrun⟩ := hrun
  have hdrain := InFlight.drain_of_error hpop (execute_stepOf hrun rfl rfl) limit
  rw [← hlimit] at hdrain
  exact ⟨_, _, conclude_of_error (InFlight.runStages_of_error henter hdrain)⟩

/-- A single operation whose handler changes the working copy and the results commits the one and is
    answered with the others. -/
theorem conclude_of_handled (hlimit : 0 < c.stepLimit) {w : WorkingCopy} {results : List Value}
    {journal : List Event}
    (hrun : (c.handle entry.handler op).run c (handling op entry booting id s) =
      (.ok (), (handling op entry booting id s).onTransaction
        fun t => { t with working := w, results, journal })) :
    ∃ f, c.conclude (begin booting id [(op, entry)] s) = some ⟨.ok results, f⟩ ∧
      f.state.store = s.store.publish w ∧ f.state.locks = s.locks := by
  obtain ⟨henter, hpop⟩ := pop?_entered op entry booting id s
  obtain ⟨limit, hlimit⟩ := Nat.exists_eq_add_one.2 hlimit
  let f := ((handling op entry booting id s).onTransaction
    fun t => { t with working := w, results, journal }).ended (stepOf op entry) (.ok ())
  have hdrain := InFlight.drain_of_ok hpop (execute_stepOf hrun rfl rfl) limit
  rw [InFlight.drain_of_empty (f := f) rfl, ← hlimit] at hdrain
  have hstages : (begin booting id [(op, entry)] s).run c =
      some (.ok (), (f.entered .runtime).entered .verify) := by
    refine (InFlight.runStages_of_ok henter hdrain).trans ?_
    rw [InFlight.runStages_of_idle (f := f) rfl rfl,
      InFlight.runStages_of_idle (f := f.entered .runtime) rfl rfl]
    rfl
  exact ⟨_, conclude_of_ok hstages rfl, rfl, rfl⟩

/-- A single operation whose change goes through commits it. -/
theorem conclude_of_draft_ok (hm : Carries c (c.handle entry.handler op) m)
    (hlimit : 0 < c.stepLimit) {w : WorkingCopy}
    (h : m (.ofTree s.store.tree (writeScope [(op, entry)])) = .ok ((), w)) :
    ∃ results f, c.conclude (begin booting id [(op, entry)] s) = some ⟨.ok results, f⟩ ∧
      f.state.store = s.store.publish w ∧ f.state.locks = s.locks := by
  have hrun := hm (handling op entry booting id s) rfl
  rw [show m (handling op entry booting id s).transaction.working = _ from h] at hrun
  exact ⟨_, conclude_of_handled hlimit hrun⟩

/-- A single operation that is accepted, has its lock and commits is answered. -/
theorem perform_of_conclude (haccept : c.accept s.booting op = .ok entry) {lock : Option Lock}
    {locked : ControllerState S}
    (hlock : lock? (writeScope [(op, entry)]) (withNextId s) = some (lock, locked))
    {results : List Value} {f : InFlight S}
    (hconclude : c.conclude (begin s.booting s.nextId [(op, entry)] locked) =
      some ⟨.ok results, f⟩) :
    c.perform (.execute op) s = .ok (answer (.execute op)
      (.ok (results, f.state.store.version), unlock lock f.state)) := by
  have hacc : c.acceptAll s.booting [op] = .ok [(op, entry)] :=
    acceptAll_cons.2 ⟨entry, [], haccept, rfl, rfl⟩
  have hsubmit := submit_of_locked (List.cons_ne_nil op []) hacc hlock
  rw [hconclude] at hsubmit
  exact perform_eq_ok.2 ⟨_, _, hsubmit, rfl, rfl⟩

end

/-! ### Single operations -/

/-- The operation commits when it is executed alone, and the second state is the one after it. -/
def Commits (c : Controller S) (op : Operation) (s s' : ControllerState S) : Prop :=
  ∃ response, c.execute op s = .ok (.ok response, s')

/-- The operation may write, and the handler that is registered for it carries out the change. -/
structure Offers (c : Controller S) (op : Operation) (entry : RegisteredOperation S.Handler)
    (m : Drafting Unit) : Prop where
  entry_eq : c.registry.operation? op.address op.name = some entry
  anytime : entry.schema.isBootOnly = false
  writes : entry.schema.isReadOnly = false
  carries : Carries c (c.handle entry.handler op) m

section

variable {op : Operation} {entry : RegisteredOperation S.Handler} {m : Drafting Unit}
  {s s' : ControllerState S}

theorem writeScope_singleton (hwrites : entry.schema.isReadOnly = false) :
    writeScope [(op, entry)] = [op.address] := by
  unfold writeScope
  rw [List.filter_cons_of_pos (by simpa using hwrites)]
  rfl

/-- A lock that is given back is in nobody's way. -/
theorem conflicts_unlock {scope wanted : List Address} {s locked t : ControllerState S}
    {lock : Option Lock} (h : lock? scope s = some (lock, locked)) (ht : t.locks = locked.locks)
    (hfree : s.locks.conflicts wanted = false) :
    (unlock lock t).locks.conflicts wanted = false := by
  unfold lock? at h
  split at h
  · cases h
    show t.locks.conflicts wanted = false
    rw [ht]
    exact hfree
  · obtain ⟨granted, hgranted, heq⟩ := Option.map_eq_some_iff.1 h
    cases heq
    unfold HeldLocks.acquire? at hgranted
    split at hgranted
    · cases hgranted
    · cases hgranted
      rw [conflicts_eq_false] at hfree ⊢
      intro a ha range hrange
      simp only [unlock, ht, HeldLocks.grant, HeldLocks.release] at hrange
      obtain ⟨hmem, howner⟩ := List.mem_filter.1 hrange
      rcases List.mem_append.1 hmem with hmem | hmem
      · exact hfree a ha range hmem
      · -- what was granted has the owner that gives back
        obtain ⟨b, -, rfl⟩ := List.mem_map.1 hmem
        simp at howner

/-- What it takes for an operation to commit alone, and what it does. -/
theorem Offers.of_commits (h : c.Offers op entry m) (hcommits : c.Commits op s s') :
    AttributeSchema.checkRequest entry.schema.parameters op.params = .ok () ∧
      s.locks.conflicts [op.address] = false ∧ 0 < c.stepLimit ∧
      ∃ w, m (.ofTree s.store.tree [op.address]) = .ok ((), w) ∧
        s'.store = s.store.publish w ∧
        ∀ wanted, s.locks.conflicts wanted = false → s'.locks.conflicts wanted = false := by
  obtain ⟨response, hexecute⟩ := hcommits
  obtain ⟨r, s₁, hsubmit, hanswer, rfl⟩ :=
    perform_eq_ok.1 (show c.perform (.execute op) s = _ from hexecute)
  rcases submit_cases hsubmit with ⟨hempty, -⟩ | ⟨cause, -, rfl, -⟩ |
    ⟨⟨accepted, lock, locked, ended, hacc, hlock, hended, rfl, rfl⟩⟩
  · cases hempty
  · cases hanswer
  · obtain ⟨entry', rest, haccept, hrest, rfl⟩ := acceptAll_cons.1 hacc
    cases hrest
    obtain ⟨hentry, -, hrequest⟩ := accept_eq_ok.1 haccept
    obtain rfl : entry = entry' := Option.some.inj (h.entry_eq.symm.trans hentry)
    have hlocked := locked_eq hlock
    have hfree := conflicts_of_lock? hlock
    have hstore : locked.store = s.store := by
      rw [hlocked]
      rfl
    have hlimit : 0 < c.stepLimit := by
      refine Nat.pos_of_ne_zero fun hzero => ?_
      rw [conclude_of_no_steps hzero] at hended
      cases hended
    rw [writeScope_singleton h.writes] at hfree
    refine ⟨hrequest, hfree, hlimit, ?_⟩
    cases hdraft : m (.ofTree locked.store.tree (writeScope [(op, entry)])) with
    | error cause =>
      obtain ⟨failure, f, hconclude⟩ := conclude_of_draft_error h.carries hlimit hdraft
      rw [hconclude] at hended
      cases hended
      cases hanswer
    | ok p =>
      obtain ⟨⟨⟩, w⟩ := p
      obtain ⟨results, f, hconclude, hpublished, hlocks⟩ :=
        conclude_of_draft_ok h.carries hlimit hdraft
      rw [hconclude] at hended
      cases hended
      rw [hstore] at hpublished
      rw [hstore, writeScope_singleton h.writes] at hdraft
      refine ⟨w, hdraft, ?_, fun wanted hwanted => conflicts_unlock hlock hlocks hwanted⟩
      exact (store_unlock lock _).trans hpublished

theorem Offers.exists_commits (h : c.Offers op entry m)
    (hrequest : AttributeSchema.checkRequest entry.schema.parameters op.params = .ok ())
    (hfree : s.locks.conflicts [op.address] = false) (hlimit : 0 < c.stepLimit) {w : WorkingCopy}
    (hdraft : m (.ofTree s.store.tree [op.address]) = .ok ((), w)) : ∃ s', c.Commits op s s' := by
  have haccept : c.accept s.booting op = .ok entry := by
    refine accept_eq_ok.2 ⟨h.entry_eq, ?_, hrequest⟩
    rw [h.anytime]
    rfl
  rw [← writeScope_singleton h.writes] at hfree hdraft
  obtain ⟨lock, locked, hlock⟩ := exists_lock (s := withNextId s) hfree
  have hstore : locked.store = s.store := by
    rw [locked_eq hlock]
    rfl
  rw [← hstore] at hdraft
  obtain ⟨results, f, hconclude, -⟩ := conclude_of_draft_ok h.carries hlimit hdraft
  exact ⟨_, _, perform_of_conclude haccept hlock hconclude⟩

end

end Controller

/-! ### Another value for one parameter -/

namespace Resource

/-- The parameters with another value given for one of them, or with none given for it. -/
def given (name : String) (v? : Option Value) (params : Attributes) : Attributes :=
  match v? with
  | some v => params.insert name v
  | none => params.erase name

variable {name other : String} {v? : Option Value} {params : Attributes}

@[simp] theorem get?_given_self (name : String) (v? : Option Value) (params : Attributes) :
    (given name v? params).get? name = v? := by
  unfold given
  cases v? with
  | none => exact SortedMap.get?_erase_self params name
  | some v => exact SortedMap.get?_insert_self params name v

theorem get?_given_of_ne (h : other ≠ name) :
    (given name v? params).get? other = params.get? other := by
  unfold given
  cases v? with
  | none => exact SortedMap.get?_erase_of_ne params h
  | some v => exact SortedMap.get?_insert_of_ne params h v

end Resource

namespace AttributeSchema

open Resource

variable {defs : List AttributeSchema} {d : AttributeSchema} {v? : Option Value}
  {params params' m m' : Attributes}

/-- What is stored under a name is told by what is given for it. -/
theorem get?_validateInto_congr (hnames : (defs.map (·.name)).Nodup)
    (h : validateInto params defs ∅ = .ok m) (h' : validateInto params' defs ∅ = .ok m')
    {name : String} (hsame : params'.get? name = params.get? name) :
    m'.get? name = m.get? name := by
  by_cases hdeclared : ∃ d ∈ defs, d.name = name
  · obtain ⟨d, hd, rfl⟩ := hdeclared
    obtain ⟨v, hv, hstored⟩ := get?_of_validateInto_of_mem hnames h hd rfl
    obtain ⟨v', hv', hstored'⟩ := get?_of_validateInto_of_mem hnames h' hd rfl
    rw [hsame, hv] at hv'
    cases hv'
    rw [hstored, hstored']
  · have hnone : ∀ d ∈ defs, d.name ≠ name := fun d hd hname => hdeclared ⟨d, hd, hname⟩
    rw [get?_of_validateInto hnone h, get?_of_validateInto hnone h']

/-- A value for a declared parameter is in order. -/
theorem checkUnknown_given (h : checkUnknown defs params = .ok ()) {name : String}
    (hdeclared : ∃ d ∈ defs, d.name = name) (v? : Option Value) :
    checkUnknown defs (given name v? params) = .ok () := by
  refine checkUnknown_eq_ok.2 fun other hother => ?_
  by_cases hsame : other = name
  · rw [hsame]
    exact hdeclared
  · rw [get?_given_of_ne hsame] at hother
    exact checkUnknown_eq_ok.1 h other hother

theorem isMissing_of_get? {v : Value} (h : params.get? d.name = some v) (hv : v.isDefined = true) :
    d.isMissing params = false := by
  unfold isMissing
  rw [h, Option.any_some, hv, Bool.not_true, Bool.and_false]

/-- Validating parameters with another value for one attribute comes to validating that value, and
    writing it over what was validated before. -/
theorem validateAll_given (hnames : (defs.map (·.name)).Nodup)
    (h : validateAll defs params = .ok m) (hd : d ∈ defs) :
    validateAll defs (given d.name v? params) = .ok m' ↔
      ∃ new, d.validate v? = .ok new ∧ m' = withAttribute d.name new m := by
  obtain ⟨⟨⟩, hunknown, hinto⟩ := bind_eq_ok.1 h
  have hwrites : ∀ {m' : Attributes}, validateInto (given d.name v? params) defs ∅ = .ok m' →
      ∃ new, d.validate v? = .ok new ∧ m' = withAttribute d.name new m := by
    intro m' hinto'
    obtain ⟨new, hnew, hstored⟩ := get?_of_validateInto_of_mem hnames hinto' hd rfl
    rw [get?_given_self] at hnew
    refine ⟨new, hnew, SortedMap.ext_get? fun name => ?_⟩
    by_cases hname : name = d.name
    · rw [hname, hstored, get?_withAttribute_self]
    · rw [get?_withAttribute_of_ne hname]
      exact get?_validateInto_congr hnames hinto hinto' (get?_given_of_ne hname)
  constructor
  · intro h'
    obtain ⟨⟨⟩, -, hinto'⟩ := bind_eq_ok.1 h'
    exact hwrites hinto'
  · rintro ⟨new, hnew, rfl⟩
    have hvalid : ∀ d' ∈ defs, ∃ v,
        d'.validate ((given d.name v? params).get? d'.name) = .ok v := by
      intro d' hd'
      by_cases hname : d'.name = d.name
      · obtain rfl : d' = d := List.inj_on_of_nodup_map hnames hd' hd hname
        rw [get?_given_self]
        exact ⟨new, hnew⟩
      · rw [get?_given_of_ne hname]
        exact exists_validate_of_validateInto hinto d' hd'
    have hdeclared := checkUnknown_given hunknown ⟨d, hd, rfl⟩ v?
    obtain ⟨m', hinto'⟩ := exists_validateInto hvalid ∅
    obtain ⟨new', hnew', rfl⟩ := hwrites hinto'
    rw [hnew] at hnew'
    cases hnew'
    exact bind_eq_ok.2 ⟨(), hdeclared, hinto'⟩

end AttributeSchema

/-! ### Adding and writing -/

namespace Resource

/-- The request to add a resource. -/
def addRequest (a : Address) (params : Attributes) : Operation :=
  { name := "add", address := a, params }

/-- The request to write an attribute; the value may be undefined or left out. -/
def writeRequest (a : Address) (name : String) (v? : Option Value) : Operation :=
  { name := "write-attribute", address := a
    params := given valueParameter v? ((∅ : Attributes).insert nameParameter (.string name)) }

section

variable {a : Address} {name : String} {v? : Option Value}

theorem param?_value_writeRequest :
    (writeRequest a name v?).param? valueParameter = v? :=
  get?_given_self _ _ _

theorem param?_name_writeRequest :
    (writeRequest a name v?).param? nameParameter = some (.string name) := by
  show (given valueParameter v? _).get? nameParameter = _
  rw [get?_given_of_ne (by decide), SortedMap.get?_insert_self]

theorem namedAttribute_writeRequest : namedAttribute (writeRequest a name v?) = .ok name := by
  unfold namedAttribute
  rw [param?_name_writeRequest]
  rfl

/-- A request to write is always in order. -/
theorem checkRequest_writeRequest :
    AttributeSchema.checkRequest writeAttributeSchema.parameters
      (writeRequest a name v?).params = .ok () := by
  have hnamed : AttributeSchema.checkUnknown writeAttributeSchema.parameters
      (given nameParameter (some (.string name)) ∅) = .ok () :=
    AttributeSchema.checkUnknown_given rfl ⟨_, List.mem_cons_self, rfl⟩ _
  have hdeclared : AttributeSchema.checkUnknown writeAttributeSchema.parameters
      (writeRequest a name v?).params = .ok () :=
    AttributeSchema.checkUnknown_given hnamed
      ⟨_, List.mem_cons_of_mem _ (List.mem_singleton_self _), rfl⟩ v?
  -- the name is required, and given
  have hthere : (AttributeSchema.new nameParameter .string).required.isMissing
      (writeRequest a name v?).params = false :=
    AttributeSchema.isMissing_of_get? (v := .string name) param?_name_writeRequest rfl
  exact AttributeSchema.checkRequest_eq_ok.2
    ⟨hdeclared, List.forall_mem_cons.2 ⟨hthere, List.forall_mem_singleton.2 rfl⟩⟩

end

section

variable {schema? : Address → Option ResourceSchema} {op : Operation} {w : WorkingCopy}

theorem namedAttribute_of_writeDraft {change : AttributeUpdate} {w' : WorkingCopy}
    (h : writeDraft schema? op w = .ok (change, w')) : namedAttribute op = .ok change.name := by
  obtain ⟨name, w₁, hname, h₁⟩ := Drafting.bind_eq_ok.1 h
  obtain ⟨d, w₂, -, h₂⟩ := Drafting.bind_eq_ok.1 h₁
  obtain ⟨new, w₃, -, h₃⟩ := Drafting.bind_eq_ok.1 h₂
  obtain ⟨before, w₄, -, h₄⟩ := Drafting.bind_eq_ok.1 h₃
  obtain ⟨hchange, -⟩ := Drafting.answer_eq_ok.1 h₄
  cases hchange
  exact (Drafting.answer_eq_ok.1 hname).1

/-- A write goes through where the attribute is declared, the value validates and the resource is
    there. -/
theorem writeDraft_of_validate {name : String} {d : AttributeSchema} {new : Value}
    {before : Attributes} (hname : namedAttribute op = .ok name)
    (hd : attributeSchemaAt schema? op.address name = .ok d)
    (hnew : d.validate (op.param? valueParameter) = .ok new)
    (hscope : w.inScope op.address = true) (hbefore : w.tree.get? op.address = some before) :
    writeDraft schema? op w =
      .ok (⟨name, (before.get? name).getD .undefined, new⟩,
        w.changed op.address (w.tree.put op.address (withAttribute name new before))) := by
  refine Drafting.bind_eq_ok.2 ⟨name, w, Drafting.answer_eq_ok.2 ⟨hname, rfl⟩, ?_⟩
  refine Drafting.bind_eq_ok.2 ⟨d, w, Drafting.answer_eq_ok.2 ⟨hd, rfl⟩, ?_⟩
  refine Drafting.bind_eq_ok.2 ⟨new, w, Drafting.answer_eq_ok.2 ⟨hnew, rfl⟩, ?_⟩
  refine Drafting.bind_eq_ok.2 ⟨before, _, WorkingCopy.edit_eq_ok.2 ⟨hscope, hbefore, rfl⟩, ?_⟩
  exact Drafting.answer_eq_ok.2 ⟨rfl, rfl⟩

end

end Resource

theorem ResourceSchema.attribute?_of_mem {schema : ResourceSchema} {d : AttributeSchema}
    (hnames : (schema.attributes.map (·.name)).Nodup) (hd : d ∈ schema.attributes) :
    schema.attribute? d.name = some d := by
  unfold attribute? AttributeSchema.find?
  cases hfind : schema.attributes.find? fun d' => d'.name == d.name with
  | none => exact absurd (List.find?_eq_none.1 hfind d hd) (by simp)
  | some d' =>
    have hname : d'.name = d.name := by simpa using List.find?_some hfind
    rw [List.inj_on_of_nodup_map hnames (List.mem_of_find?_eq_some hfind) hd hname]

namespace Controller

open Resource

/-- The resource type that governs an address is offered with the operations that every model has:
    its resources are added with its attributes as parameters, and their attributes are written. -/
structure AddsAndWrites (c : Controller S) (a : Address) (t : ResourceType S.Handler)
    (add write : S.Handler) : Prop where
  type_eq : c.registry.resourceType? a = some t
  add_eq : t.operations.get? "add" = some ⟨addSchema t.schema.attributes, add⟩
  add_program : ∀ op, c.handle add op = ResourceHandler.add.program op
  write_eq : c.registry.operation? a "write-attribute" = some ⟨writeAttributeSchema, write⟩
  write_program : ∀ op, c.handle write op = ResourceHandler.writeAttribute.program op

section

variable {a : Address} {t : ResourceType S.Handler} {add write : S.Handler}
  {params m before : Attributes} {d : AttributeSchema} {name : String} {v? : Option Value}
  {new : Value} {s s' : ControllerState S}

theorem AddsAndWrites.schema_eq (h : c.AddsAndWrites a t add write) :
    c.registry.resource? a = some t.schema := by
  unfold Registry.resource?
  rw [h.type_eq]
  rfl

theorem AddsAndWrites.offers_add (h : c.AddsAndWrites a t add write) (params : Attributes) :
    c.Offers (addRequest a params) ⟨addSchema t.schema.attributes, add⟩
      ((createDraft c.registry.resource? (addRequest a params)).bind
        fun _ => .answer (.ok ())) where
  entry_eq := by
    unfold Registry.operation?
    show (((c.registry.resourceType? a).bind fun t => t.operations.get? "add") <|>
      c.registry.globals.get? "add") = _
    rw [h.type_eq, Option.bind_some, h.add_eq]
    rfl
  anytime := rfl
  writes := rfl
  carries := by
    show Carries c (c.handle add (addRequest a params)) _
    rw [h.add_program]
    apply Carries.bind (carries_create _)
    intro _
    apply Carries.answer
    intro f
    rfl

theorem AddsAndWrites.offers_write (h : c.AddsAndWrites a t add write) (name : String)
    (v? : Option Value) :
    c.Offers (writeRequest a name v?) ⟨writeAttributeSchema, write⟩
      ((writeDraft c.registry.resource? (writeRequest a name v?)).bind
        fun _ => .answer (.ok ())) where
  entry_eq := h.write_eq
  anytime := rfl
  writes := rfl
  carries := by
    show Carries c (c.handle write (writeRequest a name v?)) _
    rw [h.write_program]
    apply Carries.bind (carries_write _)
    intro _
    apply Carries.answer
    intro f
    rfl

theorem inScope_ofTree (tree : Tree) (a : Address) :
    (WorkingCopy.ofTree tree [a]).inScope a = true :=
  List.any_eq_true.2
    ⟨a, List.mem_singleton_self a, List.isPrefixOf_iff_prefix.2 List.prefix_rfl⟩

/-- An addition that commits stores what its parameters validate to. -/
theorem AddsAndWrites.of_add (h : c.AddsAndWrites a t add write)
    (hadd : c.Commits (addRequest a params) s s') :
    ∃ m, AttributeSchema.validateAll t.schema.attributes params = .ok m ∧
      (∃ tree, s.store.tree.create a = .ok tree) ∧ s'.store.tree = s.store.tree.put a m ∧
      0 < c.stepLimit ∧ s.locks.conflicts [a] = false ∧ s'.locks.conflicts [a] = false := by
  obtain ⟨-, hfree, hlimit, w, hdraft, hstore, hlocks⟩ := (h.offers_add params).of_commits hadd
  obtain ⟨m, w', hcreate, hanswer⟩ := Drafting.bind_eq_ok.1 hdraft
  obtain ⟨-, rfl⟩ := Drafting.answer_eq_ok.1 hanswer
  have hextends : w.Extends s.store.tree :=
    createDraft_of_closedAt (Drafting.closedAt_keeps (WorkingCopy.keptAt_extends _ _))
      (WorkingCopy.extends_ofTree _ _) hcreate
  obtain ⟨schema, tree, hschema, -, htree, hvalid, rfl⟩ := createDraft_eq_ok.1 hcreate
  obtain rfl : t.schema = schema := Option.some.inj (h.schema_eq.symm.trans hschema)
  refine ⟨m, hvalid, ⟨tree, htree⟩, ?_, hlimit, hfree, hlocks _ hfree⟩
  rw [hstore, CommittedModel.publish_tree hextends]
  show tree.put a m = s.store.tree.put a m
  rw [(Tree.create_eq_ok htree).2]
  exact Tree.put_put_self _ _ _ _

/-- Parameters that validate can be added where there is room for a resource. -/
theorem AddsAndWrites.exists_add (h : c.AddsAndWrites a t add write)
    (hvalid : AttributeSchema.validateAll t.schema.attributes params = .ok m) {tree : Tree}
    (hcreate : s.store.tree.create a = .ok tree) (hlimit : 0 < c.stepLimit)
    (hfree : s.locks.conflicts [a] = false) : ∃ s', c.Commits (addRequest a params) s s' := by
  have hdraft : createDraft c.registry.resource? (addRequest a params)
      (.ofTree s.store.tree [a]) = .ok (m, _) :=
    createDraft_eq_ok.2
      ⟨t.schema, tree, h.schema_eq, inScope_ofTree s.store.tree a, hcreate, hvalid, rfl⟩
  exact (h.offers_add params).exists_commits (AttributeSchema.checkRequest_of_validateAll hvalid)
    hfree hlimit (Drafting.bind_eq_ok.2 ⟨m, _, hdraft, rfl⟩)

/-- A write that commits stores what its value validates to. -/
theorem AddsAndWrites.of_write (h : c.AddsAndWrites a t add write)
    (hd : t.schema.attribute? name = some d) (hbefore : s.store.tree.get? a = some before)
    (hwrite : c.Commits (writeRequest a name v?) s s') :
    ∃ new, d.validate v? = .ok new ∧
      s'.store.tree = s.store.tree.put a (withAttribute name new before) := by
  obtain ⟨-, -, -, w, hdraft, hstore, -⟩ := (h.offers_write name v?).of_commits hwrite
  obtain ⟨change, w', hchange, hanswer⟩ := Drafting.bind_eq_ok.1 hdraft
  obtain ⟨-, rfl⟩ := Drafting.answer_eq_ok.1 hanswer
  have hextends : w.Extends s.store.tree :=
    writeDraft_of_closedAt (Drafting.closedAt_keeps (WorkingCopy.keptAt_extends _ _))
      (WorkingCopy.extends_ofTree _ _) hchange
  have hname := namedAttribute_of_writeDraft hchange
  rw [namedAttribute_writeRequest] at hname
  obtain rfl : name = change.name := Except.ok.inj hname
  obtain ⟨schema, d', before', hschema, hd', hnew, hbefore', -, rfl⟩ := writeDraft_eq_ok hchange
  obtain rfl : t.schema = schema := Option.some.inj (h.schema_eq.symm.trans hschema)
  obtain rfl : d = d' := Option.some.inj (hd.symm.trans hd')
  obtain rfl : before = before' := Option.some.inj (hbefore.symm.trans hbefore')
  rw [param?_value_writeRequest] at hnew
  refine ⟨change.new, hnew, ?_⟩
  rw [hstore, CommittedModel.publish_tree hextends]
  rfl

/-- A value that validates can be written where the resource is. -/
theorem AddsAndWrites.exists_write (h : c.AddsAndWrites a t add write)
    (hd : t.schema.attribute? name = some d) (hbefore : s.store.tree.get? a = some before)
    (hnew : d.validate v? = .ok new) (hlimit : 0 < c.stepLimit)
    (hfree : s.locks.conflicts [a] = false) : ∃ s', c.Commits (writeRequest a name v?) s s' := by
  have hdeclared : attributeSchemaAt c.registry.resource? a name = .ok d :=
    attributeSchemaAt_eq_ok.2 ⟨t.schema, h.schema_eq, hd⟩
  have hvalue : d.validate ((writeRequest a name v?).param? valueParameter) = .ok new := by
    rw [param?_value_writeRequest]
    exact hnew
  have hdraft := writeDraft_of_validate namedAttribute_writeRequest hdeclared hvalue
    (inScope_ofTree s.store.tree a) hbefore
  exact (h.offers_write name v?).exists_commits checkRequest_writeRequest hfree hlimit
    (Drafting.bind_eq_ok.2 ⟨_, _, hdraft, rfl⟩)

/-- Writing an attribute of a resource that was added is as good as having added the resource with
    the value in place of the one it was given: the one commits just if the other would have, and
    then both leave the same model, with the same attributes in the resource. -/
theorem write_after_add (hr : c.registry.Built) (hc : c.AddsAndWrites a t add write)
    (hd : d ∈ t.schema.attributes) (v? : Option Value) {s₁ : ControllerState S}
    (hadd : c.Commits (addRequest a params) s s₁) :
    ((∃ s₂, c.Commits (writeRequest a d.name v?) s₁ s₂) ↔
      ∃ s₃, c.Commits (addRequest a (given d.name v? params)) s s₃) ∧
    ∀ s₂ s₃, c.Commits (writeRequest a d.name v?) s₁ s₂ →
      c.Commits (addRequest a (given d.name v? params)) s s₃ →
        s₂.store.tree = s₃.store.tree ∧ ∃ stored, s₂.store.tree.get? a = some stored := by
  have hnames := hr.nodup_of_resource? hc.schema_eq
  have hdeclared := ResourceSchema.attribute?_of_mem hnames hd
  obtain ⟨m, hvalid, ⟨tree, hcreate⟩, htree, hlimit, hfree, hfree₁⟩ := hc.of_add hadd
  have hthere : s₁.store.tree.get? a = some m := by
    rw [htree, Tree.get?_put_self]
  have hgiven : ∀ {m'}, AttributeSchema.validateAll t.schema.attributes (given d.name v? params) =
      .ok m' ↔ ∃ new, d.validate v? = .ok new ∧ m' = withAttribute d.name new m :=
    AttributeSchema.validateAll_given hnames hvalid hd
  refine ⟨⟨?_, ?_⟩, ?_⟩
  · rintro ⟨s₂, hwrite⟩
    obtain ⟨new, hnew, -⟩ := hc.of_write hdeclared hthere hwrite
    exact hc.exists_add (hgiven.2 ⟨new, hnew, rfl⟩) hcreate hlimit hfree
  · rintro ⟨s₃, hadd'⟩
    obtain ⟨m', hvalid', -⟩ := hc.of_add hadd'
    obtain ⟨new, hnew, -⟩ := hgiven.1 hvalid'
    exact hc.exists_write hdeclared hthere hnew hlimit hfree₁
  · intro s₂ s₃ hwrite hadd'
    obtain ⟨new, hnew, htree₂⟩ := hc.of_write hdeclared hthere hwrite
    obtain ⟨m', hvalid', -, htree₃, -⟩ := hc.of_add hadd'
    obtain ⟨new', hnew', rfl⟩ := hgiven.1 hvalid'
    rw [hnew] at hnew'
    cases hnew'
    refine ⟨?_, withAttribute d.name new m, ?_⟩
    · rw [htree₂, htree, htree₃, Tree.put_put_self]
    · rw [htree₂, Tree.get?_put_self]

end

theorem commits_of_perform {op : Operation} {s s' : ControllerState S} {outcome : Outcome}
    (h : c.perform (.execute op) s = .ok (outcome, s')) (hok : outcome.isOk = true) :
    c.Commits op s s' := by
  cases outcome with
  | ok response => exact ⟨response, h⟩
  | error failure => cases hok

/-- A queue is added with a reference in its label and the size left to the default. Then the size
    is written. -/
theorem write_after_add_queueing :
    let a : Address := ⟨[⟨"queue", "q"⟩]⟩
    let params : Attributes := (∅ : Attributes).insert "label" (.string "$\x7bx\x7d")
    let size : Option Value := some (.int 7)
    ∃ s s₁ s₂ s₃, queueing.Commits (addRequest a params) s s₁ ∧
      queueing.Commits (writeRequest a "size" size) s₁ s₂ ∧
      queueing.Commits (addRequest a (given "size" size params)) s s₃ ∧
      s₂.store.tree = s₃.store.tree := by
  intro a params size
  have hrun : queueing.answers (.execute (addRequest a params)) { environment := { other := () } }
      (fun first s₁ => first.isOk && queueing.answers (.execute (writeRequest a "size" size)) s₁
        fun second _ => second.isOk) = true := by
    decide +kernel
  obtain ⟨first, s₁, hfirst, hrun⟩ := exists_of_answers hrun
  obtain ⟨hok, hrun⟩ := Bool.and_eq_true_iff.1 hrun
  obtain ⟨second, s₂, hsecond, hok'⟩ := exists_of_answers hrun
  have hadd := commits_of_perform hfirst hok
  have hwrite := commits_of_perform hsecond hok'
  obtain ⟨t, hc, hattributes⟩ : ∃ t,
      queueing.AddsAndWrites a t (.resource .add) (.resource .writeAttribute) ∧
        ∃ d ∈ t.schema.attributes, d.name = "size" :=
    ⟨_, ⟨rfl, rfl, fun _ => rfl, rfl, fun _ => rfl⟩, _, List.mem_cons_self, rfl⟩
  obtain ⟨d, hd, hname⟩ := hattributes
  have hboth := write_after_add built_queueing hc hd size hadd
  rw [hname] at hboth
  obtain ⟨s₃, hadd'⟩ := hboth.1.1 ⟨s₂, hwrite⟩
  exact ⟨_, s₁, s₂, s₃, hadd, hwrite, hadd', (hboth.2 s₂ s₃ hwrite hadd').1⟩

end Controller

end ManagedModel
