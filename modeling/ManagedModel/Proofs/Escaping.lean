import ManagedModel.Proofs.Coherence
import ManagedModel.Proofs.Composition
import ManagedModel.Proofs.Confluence

/-! # Escaped text

    Any text can be made an expression that stands for it: each opening of a
    reference is escaped, and resolving undoes this, whatever the live
    properties are.

    * `Expression.segments_escapeText`: an escaped text has no references, and
      its characters are those of the text. Dollar signs before an opening
      make no difference, as an escaped text never opens a reference at its
      beginning (`Expression.not_opening_escapeText`).
    * `Controller.holds_of_perform`: a transaction that commits and adds a
      property with an escaped text leaves the text as the live value of the
      property. The text is stored as an expression if it opens a reference,
      and literally otherwise; for the live value this makes no difference.
    * `Controller.exists_perform_addRequest`: where nothing is in the way, the
      request to add the property commits. -/

namespace ManagedModel

namespace Expression

/-! ### Escaping -/

/-- The text with every opening of a reference escaped. -/
def escapeText : List Char → List Char
  | [] => []
  | '$' :: '{' :: cs => '$' :: '$' :: '{' :: escapeText cs
  | c :: cs => c :: escapeText cs

/-- The text with every opening of a reference escaped. -/
def escape (text : String) : String := String.ofList (escapeText text.toList)

theorem head?_escapeText (cs : List Char) : (escapeText cs).head? = cs.head? := by
  fun_cases escapeText cs <;> rfl

theorem escapeText_cons {c : Char} {cs : List Char}
    (h : ∀ rest, c = '$' → cs = '{' :: rest → False) :
    escapeText (c :: cs) = c :: escapeText cs := by
  rw [escapeText]
  exact h

/-- No reference is opened at the beginning of an escaped text. -/
theorem not_opening_escapeText (cs : List Char) : ¬ ['$', '{'] <+: escapeText cs := by
  fun_cases escapeText cs with
  | case1 => simp
  | case2 cs => simp
  | case3 c cs hopening =>
    rintro ⟨rest, he⟩
    obtain ⟨rfl, hbrace⟩ : '$' = c ∧ '{' :: rest = escapeText cs := List.cons.inj he
    -- the brace behind the dollar sign would be one of the text
    have hhead : cs.head? = some '{' := by
      rw [← head?_escapeText, ← hbrace]
      rfl
    obtain ⟨cs', rfl⟩ := List.head?_eq_some_iff.1 hhead
    exact hopening cs' rfl rfl

/-- The segments of an escaped text are the characters of the text. -/
theorem segments_escapeText (cs : List Char) : segments (escapeText cs) = cs.map .literal := by
  induction cs using escapeText.induct with
  | case1 =>
    rw [escapeText, segments]
    rfl
  | case2 cs ih =>
    rw [escapeText, segments, ih]
    rfl
  | case3 c cs hopening ih =>
    have hcons := escapeText_cons hopening
    have hsegments : segments (c :: escapeText cs) = .literal c :: segments (escapeText cs) := by
      rw [segments]
      · rintro rest rfl he
        exact not_opening_escapeText cs ⟨rest, he.symm⟩
      · rintro rest rfl he
        have hnot := not_opening_escapeText ('$' :: cs)
        rw [hcons, he] at hnot
        exact hnot ⟨rest, rfl⟩
    rw [hcons, hsegments, ih]
    rfl

theorem resolveSegments_literals (lookup : String → Option String) (cs : List Char) :
    resolveSegments lookup (cs.map .literal) = .ok cs := by
  induction cs with
  | nil => rfl
  | cons c cs ih =>
    rw [List.map_cons, resolveSegments_literal_cons, ih]
    rfl

/-- Resolving undoes escaping. -/
theorem resolve_escape (lookup : String → Option String) (text : String) :
    resolve lookup (escape text) = .ok text := by
  rw [resolve_eq, escape, String.toList_ofList, segments_escapeText, resolveSegments_literals]
  exact congrArg Except.ok String.ofList_toList

/-- An escaped text opens a reference, as the characters of it go, just if the text does. -/
theorem opensReference_escapeText (cs : List Char) :
    opensReference (escapeText cs) = opensReference cs := by
  induction cs using escapeText.induct with
  | case1 => rfl
  | case2 cs ih =>
    rw [escapeText]
    rfl
  | case3 c cs hopening ih =>
    have hnot := not_opening_escapeText (c :: cs)
    rw [escapeText_cons hopening] at hnot ⊢
    rw [opensReference_cons hnot, opensReference_cons (not_opening_cons hopening), ih]

/-- A text that opens no reference is left as it is. -/
theorem escapeText_eq_self {cs : List Char} (h : opensReference cs = false) :
    escapeText cs = cs := by
  induction cs using escapeText.induct with
  | case1 => rfl
  | case2 cs ih => cases h
  | case3 c cs hopening ih =>
    rw [opensReference_cons (not_opening_cons hopening)] at h
    rw [escapeText_cons hopening, ih h]

theorem opensReference_escape (text : String) :
    opensReference (escape text).toList = opensReference text.toList := by
  rw [escape, String.toList_ofList, opensReference_escapeText]

theorem escape_eq_self {text : String} (h : opensReference text.toList = false) :
    escape text = text := by
  rw [escape, escapeText_eq_self h, String.ofList_toList]

end Expression

/-! ### Adding a property with a text -/

/-- The operation adds a property with a text as its value. -/
structure Operation.AddsText (name text : String) (op : Operation) : Prop where
  name_eq : op.name = "add"
  address_eq : op.address = Property.address name
  value_eq : op.params.get? propertyValueAttribute = some (.string text)

/-- The operation neither adds a resource nor removes or writes it. -/
structure Operation.Spares (op : Operation) : Prop where
  ne_add : op.name ≠ "add"
  ne_remove : op.name ≠ "remove"
  ne_write : op.name ≠ "write-attribute"

/-- The operations add a property with a text, and do nothing else to it. -/
structure AddOnly (name text : String) (ops : List Operation) : Prop where
  adds : ∃ op ∈ ops, op.AddsText name text
  only : ∀ op ∈ ops, op.address = Property.address name → op.AddsText name text ∨ op.Spares

namespace Property

/-- What is stored for a text that is given as the value of a property. -/
def storedText (text : String) : Value :=
  if Expression.opensReference text.toList then .expression text else .string text

theorem addsText_addRequest (name text : String) (bootTime? : Option Bool) :
    (addRequest name (some text) bootTime?).AddsText name text := by
  cases bootTime? <;> exact ⟨rfl, rfl, rfl⟩

theorem addOnly_addRequest (name text : String) (bootTime? : Option Bool) :
    AddOnly name text [addRequest name (some text) bootTime?] := by
  have hadds := addsText_addRequest name text bootTime?
  refine ⟨⟨_, List.mem_singleton_self _, hadds⟩, ?_⟩
  intro op hop _
  rw [List.mem_singleton.1 hop]
  exact .inl hadds

/-- The schema of the value takes in every text. -/
theorem validate_text (text : String) :
    ((AttributeSchema.new propertyValueAttribute .string).allowExpression).validate
      (some (.string text)) = .ok (storedText text) := by
  refine AttributeSchema.validate_eq_ok.2 (.inr ⟨.string text,
    AttributeSchema.supplied_of_isDefined rfl, ?_⟩)
  unfold storedText
  by_cases hopens : Expression.opensReference text.toList = true
  · rw [if_pos hopens]
    exact ⟨if_pos hopens, rfl, .inl rfl⟩
  · rw [if_neg hopens]
    exact ⟨if_neg hopens, rfl, .inr rfl⟩

theorem nodup_attributes (useBootTime : Bool) :
    ((attributes useBootTime).map (·.name)).Nodup := by
  cases useBootTime <;> decide

/-- What a property has for a value when it was added with a text. -/
theorem valueIn_of_validateAll {useBootTime : Bool} {params model : Attributes} {text : String}
    (hvalue : params.get? propertyValueAttribute = some (.string text))
    (h : AttributeSchema.validateAll (attributes useBootTime) params = .ok model) :
    valueIn model = storedText text := by
  obtain ⟨-, -, hinto⟩ := bind_eq_ok.1 h
  obtain ⟨v, hv, hstored⟩ := AttributeSchema.get?_of_validateInto_of_mem
    (nodup_attributes useBootTime) hinto List.mem_cons_self rfl
  change AttributeSchema.validate _ (params.get? propertyValueAttribute) = .ok v at hv
  rw [hvalue, validate_text] at hv
  cases hv
  have hdefined : (storedText text).isDefined = true := by
    unfold storedText
    split <;> rfl
  unfold valueIn
  rw [show model.get? propertyValueAttribute = (storedText text).stored? from hstored]
  unfold Value.stored?
  rw [if_pos hdefined]
  rfl

/-- A request to add a property gives parameters that have schemas. -/
theorem checkUnknown_addRequest {useBootTime : Bool} (name text : String)
    {bootTime? : Option Bool} (hboot : bootTime?.isSome → useBootTime = true) :
    AttributeSchema.checkUnknown (attributes useBootTime)
      (addRequest name (some text) bootTime?).params = .ok () := by
  refine AttributeSchema.checkUnknown_eq_ok.2 fun parameter hgiven => ?_
  have hvalue : ∃ d ∈ attributes useBootTime, d.name = propertyValueAttribute :=
    ⟨_, List.mem_cons_self, rfl⟩
  -- the parameters are the value and, if it is given, the boot time
  cases bootTime? with
  | none =>
    change (((∅ : Attributes).insert propertyValueAttribute (.string text)).get?
      parameter).isSome = true at hgiven
    rw [SortedMap.get?_insert] at hgiven
    split at hgiven
    · next hsame => exact hsame ▸ hvalue
    · cases hgiven
  | some b =>
    change ((((∅ : Attributes).insert propertyValueAttribute (.string text)).insert
      bootTimeAttribute (.bool b)).get? parameter).isSome = true at hgiven
    rw [SortedMap.get?_insert, SortedMap.get?_insert] at hgiven
    split at hgiven
    · next hsame =>
      rw [hboot rfl, hsame]
      exact ⟨_, List.mem_cons_of_mem _ List.mem_cons_self, rfl⟩
    · split at hgiven
      · next hsame => exact hsame ▸ hvalue
      · cases hgiven

/-- A request to add a property passes the check made before the transaction. -/
theorem checkRequest_addRequest {useBootTime : Bool} (name text : String)
    {bootTime? : Option Bool} (hboot : bootTime?.isSome → useBootTime = true) :
    AttributeSchema.checkRequest (attributes useBootTime)
      (addRequest name (some text) bootTime?).params = .ok () := by
  refine bind_eq_ok.2 ⟨(), checkUnknown_addRequest name text hboot, ?_⟩
  -- none of the attributes is required
  cases useBootTime <;> rfl

/-- It also passes validation. -/
theorem exists_validateAll_addRequest {useBootTime : Bool} (name text : String)
    {bootTime? : Option Bool} (hboot : bootTime?.isSome → useBootTime = true) :
    ∃ model, AttributeSchema.validateAll (attributes useBootTime)
      (addRequest name (some text) bootTime?).params = .ok model := by
  have hvalue := (addsText_addRequest name text bootTime?).value_eq
  have hvalid : ∀ d ∈ attributes useBootTime, ∃ v,
      d.validate ((addRequest name (some text) bootTime?).params.get? d.name) = .ok v := by
    refine List.forall_mem_cons.2 ⟨⟨storedText text, ?_⟩, ?_⟩
    · rw [← validate_text text, ← hvalue]
      rfl
    · cases useBootTime with
      | false => exact fun d hd => absurd hd List.not_mem_nil
      | true =>
        refine List.forall_mem_singleton.2 ?_
        cases bootTime? with
        | none => exact ⟨.bool true, rfl⟩
        | some b => exact ⟨.bool b, rfl⟩
  obtain ⟨model, hinto⟩ := AttributeSchema.exists_validateInto hvalid ∅
  exact ⟨model, bind_eq_ok.2 ⟨(), checkUnknown_addRequest name text hboot, hinto⟩⟩

/-- An escaped text is stored as an expression just if the text itself opens a reference. -/
theorem storedText_escape (text : String) :
    storedText (Expression.escape text) =
      if Expression.opensReference text.toList then .expression (Expression.escape text)
      else .string text := by
  unfold storedText
  rw [Expression.opensReference_escape]
  by_cases hopens : Expression.opensReference text.toList = true
  · rw [if_pos hopens, if_pos hopens]
  · rw [if_neg hopens, if_neg hopens, Expression.escape_eq_self (Bool.eq_false_iff.2 hopens)]

/-- In either form it resolves to the text. -/
theorem resolve_storedText_escape (lookup : String → Option String) (text : String) :
    (storedText (Expression.escape text)).resolve lookup = .ok (some text) := by
  rw [storedText_escape]
  split
  · show (Expression.resolve lookup (Expression.escape text)).map some = _
    rw [Expression.resolve_escape]
    rfl
  · rfl

end Property

/-! ### MODEL -/

namespace Draft

variable {C : Type} {cfg : PropertyConfig} {r : Registry (ModelHandler C)}
  {effect : String → LiveEffect} {op : Operation} {entry : RegisteredOperation (ModelHandler C)}
  {name text : String} {d d' : Draft}

/-- An operation that adds the property with the text leaves the model with it. -/
theorem storedValue_of_addsText (hr : r.GovernsProperties cfg)
    (hentry : r.operation? op.address op.name = some entry) (hadds : op.AddsText name text)
    (hstep : step r.resource? effect d (op, entry.handler) = .ok d') :
    Property.storedValue d'.working.tree name = Property.storedText text := by
  rw [hadds.address_eq, hadds.name_eq, hr.operation?_add] at hentry
  cases hentry
  obtain ⟨model, hadmits, hgains⟩ := step_add_eq_ok hr.resource?_eq hadds.address_eq hstep
  rw [← Property.valueIn_of_validateAll hadds.value_eq hadmits.valid, hgains.tree_eq]
  exact Property.storedValue_of_get?_eq_some (Tree.get?_put_self _ _ _)

/-- An operation elsewhere, or one that only reads the property, leaves its value. -/
theorem storedValue_of_other (hr : r.GovernsProperties cfg)
    (hentry : r.operation? op.address op.name = some entry)
    (hother : op.address = Property.address name → op.Spares)
    (hstep : step r.resource? effect d (op, entry.handler) = .ok d') :
    Property.storedValue d'.working.tree name = Property.storedValue d.working.tree name := by
  obtain ⟨o, w, hdraft, rfl⟩ := step_eq_ok.1 hstep
  by_cases hop : op.address = Property.address name
  · have hspares := hother hop
    rw [hop] at hentry
    rcases hr.operation?_eq_some hentry with ⟨h, -⟩ | ⟨h, -⟩ | ⟨h, -⟩ | ⟨h, heq, hread⟩
    · exact absurd h hspares.ne_add
    · exact absurd h hspares.ne_remove
    · exact absurd h hspares.ne_write
    · rw [heq] at hdraft
      show Property.storedValue w.tree name = _
      rw [ModelHandler.working_of_isRead hread hdraft]
  · exact Property.storedValue_congr (ModelHandler.get?_of_draft hdraft fun h => hop h.symm)

end Draft

/-! ### Submissions -/

namespace Controller

variable {X : Signature} {c : Controller X.withProperties} {cfg : PropertyConfig} {booting : Bool}
  {accepted : List (Operation × RegisteredOperation (ModelHandler X.Handler))}
  {s s' : ControllerState X.withProperties} {name text : String}

/-- Once the model has the text for the property, the other operations leave it so. -/
theorem storedValue_keeps_of_run {effect : String → LiveEffect}
    (hr : c.registry.GovernsProperties cfg)
    (hoffered : ∀ a ∈ accepted, c.registry.operation? a.1.address a.1.name = some a.2)
    (honly : ∀ a ∈ accepted, a.1.address = Property.address name →
      a.1.AddsText name text ∨ a.1.Spares)
    {d d' : Draft} (hd : Property.storedValue d.working.tree name = Property.storedText text)
    (h : d.run c.registry.resource? effect (tasksOf accepted) = .ok d') :
    Property.storedValue d'.working.tree name = Property.storedText text := by
  refine Draft.run_keeps (I := fun d =>
    Property.storedValue d.working.tree name = Property.storedText text) ?_ h hd
  intro d d' task htask hd hstep
  obtain ⟨a, ha, rfl⟩ := List.mem_map.1 htask
  by_cases hadds : a.1.AddsText name text
  · exact Draft.storedValue_of_addsText hr (hoffered a ha) hadds hstep
  · rw [← hd]
    exact Draft.storedValue_of_other hr (hoffered a ha)
      (fun haddress => (honly a ha haddress).resolve_left hadds) hstep

theorem storedValue_of_run {effect : String → LiveEffect} (hr : c.registry.GovernsProperties cfg)
    (hoffered : ∀ a ∈ accepted, c.registry.operation? a.1.address a.1.name = some a.2)
    (hadds : ∃ a ∈ accepted, a.1.AddsText name text)
    (honly : ∀ a ∈ accepted, a.1.address = Property.address name →
      a.1.AddsText name text ∨ a.1.Spares)
    {d d' : Draft} (h : d.run c.registry.resource? effect (tasksOf accepted) = .ok d') :
    Property.storedValue d'.working.tree name = Property.storedText text := by
  induction accepted generalizing d with
  | nil =>
    obtain ⟨a, ha, -⟩ := hadds
    cases ha
  | cons a rest ih =>
    obtain ⟨hfirst, hothers⟩ := List.forall_mem_cons.1 hoffered
    obtain ⟨-, hrest⟩ := List.forall_mem_cons.1 honly
    change Draft.run _ _ ((a.1, a.2.handler) :: tasksOf rest) d = _ at h
    rw [Draft.run_cons] at h
    split at h
    · rename_i d₁ hstep
      obtain ⟨b, hb, hadds⟩ := hadds
      rcases List.mem_cons.1 hb with rfl | hb
      · have hstored := Draft.storedValue_of_addsText hr hfirst hadds hstep
        exact storedValue_keeps_of_run hr hothers hrest hstored h
      · exact ih hothers ⟨b, hb, hadds⟩ hrest h
    · cases h

/-- The model has the escaped text for the property, in the form for it, and the text is its live
    value. -/
structure HoldsEscaped (s : ControllerState X.withProperties) (name text : String) : Prop where
  stored : Property.storedValue s.store.tree name =
    if Expression.opensReference text.toList then .expression (Expression.escape text)
    else .string text
  live : s.environment.live.get? name = some text

/-- A transaction that commits the escaped text leaves the text as the live value. -/
theorem holds_of_course (hr : c.registry.GovernsProperties cfg)
    (heffect : c.effect cfg booting name = .apply) {ops : List Operation}
    (honly : AddOnly name (Expression.escape text) ops)
    (hacc : c.acceptAll booting ops = .ok accepted) {results : List Value}
    (hcourse : (c.course cfg booting accepted s).1 = .ok results) :
    HoldsEscaped (c.course cfg booting accepted s).2 name text := by
  have hops := (acceptAll_eq_ok.1 hacc).1
  obtain ⟨op, hop, hadds⟩ := honly.adds
  -- what the model has is told by the drafts, and that the process follows by coherence
  have hstored : Property.storedValue (c.course cfg booting accepted s).2.store.tree name =
      Property.storedText (Expression.escape text) := by
    obtain ⟨d, m, hrun, -, -, hstate⟩ := course_eq_ok hcourse
    rw [hstate, published_tree m hrun]
    refine storedValue_of_run hr (operation?_of_acceptAll hacc) ?_ ?_ hrun
    · rw [← hops] at hop
      obtain ⟨a, ha, rfl⟩ := List.mem_map.1 hop
      exact ⟨a, ha, hadds⟩
    · intro a ha
      refine honly.only a.1 ?_
      rw [← hops]
      exact List.mem_map_of_mem ha
  obtain ⟨live, hresolve⟩ := reflects_of_course hr heffect hacc hcourse
    (.inr ⟨op, hop, hadds.name_eq, hadds.address_eq⟩)
  rw [hstored, Property.resolve_storedText_escape] at hresolve
  refine ⟨?_, (Except.ok.inj hresolve).symm⟩
  rw [hstored, Property.storedText_escape]

theorem holds_of_perform (hc : c.RunsModel cfg) (hr : c.registry.GovernsProperties cfg)
    (hs : s.Tidy) {sub : Submission}
    (hallows : cfg.allows name (sub.inBootMode s.booting) = true)
    (honly : AddOnly name (Expression.escape text) sub.operations) {response : Response}
    (h : c.perform sub s = .ok (.ok response, s')) : HoldsEscaped s' name text := by
  have hops : ∀ op ∈ sub.operations, c.IsBuiltIn op := fun _ _ _ hentry => hr.isBuiltIn hentry
  obtain ⟨r, s₁, hsubmit, houtcome, rfl⟩ := perform_eq_ok.1 h
  suffices hholds : HoldsEscaped s₁ name text by
    cases sub <;> exact ⟨hholds.stored, hholds.live⟩
  rcases settles_of_submit hc hs hops hsubmit with ⟨hempty, -⟩ | ⟨cause, -, rfl, -⟩ |
    ⟨accepted, hacc, -, hsettles⟩
  · -- something was submitted, as the property was added
    obtain ⟨op, hop, -⟩ := honly.adds
    rw [hempty] at hop
    cases hop
  · cases houtcome
  · cases r with
    | error failure => cases houtcome
    | ok p =>
      have hholds := holds_of_course hr (effect_of_allows hallows) honly hacc hsettles.course_eq
      refine ⟨?_, ?_⟩
      · rw [hsettles.store_eq]
        exact hholds.stored
      · rw [hsettles.environment_eq]
        exact hholds.live

/-- Nothing is in the way of adding a property: the root is there and the property is not, and no
    transaction holds its range. -/
structure Vacant (s : ControllerState X.withProperties) (name : String) : Prop where
  root : s.store.tree.contains .root = true
  fresh : s.store.tree.contains (Property.address name) = false
  free : s.locks.conflicts [Property.address name] = false

/-- The request to add a property is accepted. -/
theorem accept_addRequest (hr : c.registry.OffersProperties cfg) (booting : Bool)
    (name text : String) {bootTime? : Option Bool}
    (hboot : bootTime?.isSome → cfg.useBootTime = true) :
    c.accept booting (Property.addRequest name (some text) bootTime?) =
      .ok ⟨Resource.addSchema (Property.attributes cfg.useBootTime), .property .add⟩ := by
  have hadds := Property.addsText_addRequest name text bootTime?
  unfold accept
  rw [hadds.address_eq, hadds.name_eq, hr.operation?_add]
  exact bind_eq_ok.2 ⟨(), Property.checkRequest_addRequest name text hboot, rfl⟩

/-- The course of a transaction that adds the escaped text alone ends well. -/
theorem exists_course_add (hr : c.registry.OffersProperties cfg)
    (heffect : c.effect cfg booting name = .apply) {op : Operation}
    (hadds : op.AddsText name (Expression.escape text)) {model : Attributes}
    (hmodel : AttributeSchema.validateAll (Property.attributes cfg.useBootTime) op.params =
      .ok model)
    (hvacant : Vacant s name) {schema : OperationSchema} (hwrites : schema.isReadOnly = false) :
    ∃ results, (c.course cfg booting [(op, ⟨schema, .property .add⟩)] s).1 = .ok results := by
  let entry : RegisteredOperation (ModelHandler X.Handler) := ⟨schema, .property .add⟩
  -- MODEL adds the property and leaves an update
  have hinScope : (draftOf [(op, entry)] s).working.inScope (Property.address name) = true := by
    rw [← hadds.address_eq]
    exact liesIn_writeScope_singleton hwrites
  obtain ⟨d, hstep, hgains⟩ := Draft.exists_step_add hr.resource?_eq hadds.address_eq
    (c.effect cfg booting) ⟨hinScope, hvacant.fresh, hvacant.root, hmodel⟩
  have hrun : (draftOf [(op, entry)] s).run c.registry.resource? (c.effect cfg booting)
      (tasksOf [(op, entry)]) = .ok d := by
    show Draft.run _ _ [(op, entry.handler)] _ = _
    rw [Draft.run_cons, hstep]
    rfl
  -- the update resolves, so that nothing is parked
  have hvalue : intendedValue s.environment.live model = .ok (some text) := by
    show (Property.valueIn model).resolve _ = _
    rw [Property.valueIn_of_validateAll hadds.value_eq hmodel,
      Property.resolve_storedText_escape]
  have hlive : PendingUpdate.liveAfterAll cfg d.updates s.environment.live =
      .ok (cfg.apply name (some text) s.environment.live) := by
    rw [hgains.updates_eq]
    show (PendingUpdate.liveAfter cfg _ _ >>= PendingUpdate.liveAfterAll cfg []) = _
    unfold PendingUpdate.liveAfter
    dsimp only
    rw [heffect, hvalue]
    rfl
  have hbegin : ({ live := s.environment.live } : Alignment).IsClear := ⟨rfl, rfl⟩
  rw [course_of_settle_ok hrun (hbegin.updateAll booting hlive).1.settle]
  exact ⟨d.results, rfl⟩

/-- Where nothing is in the way, the request commits. -/
theorem exists_perform_addRequest (hc : c.RunsModel cfg) (hr : c.registry.GovernsProperties cfg)
    (hs : s.Tidy) {sub : Submission}
    (hallows : cfg.allows name (sub.inBootMode s.booting) = true) {bootTime? : Option Bool}
    (hboot : bootTime?.isSome → cfg.useBootTime = true)
    (hsub : sub.operations =
      [Property.addRequest name (some (Expression.escape text)) bootTime?])
    (hvacant : Vacant s name) (hlimit : 1 < c.stepLimit) :
    ∃ response s', c.perform sub s = .ok (.ok response, s') := by
  let op := Property.addRequest name (some (Expression.escape text)) bootTime?
  let booting := sub.inBootMode s.booting
  let entry : RegisteredOperation (ModelHandler X.Handler) :=
    ⟨Resource.addSchema (Property.attributes cfg.useBootTime), .property .add⟩
  have hadds : op.AddsText name (Expression.escape text) :=
    Property.addsText_addRequest name (Expression.escape text) bootTime?
  have hacc : c.acceptAll booting [op] = .ok [(op, entry)] :=
    acceptAll_cons.2 ⟨entry, [], accept_addRequest hr.toOffersProperties booting name _ hboot,
      rfl, rfl⟩
  have hfree : s.locks.conflicts (writeScope (S := X.withProperties) [(op, entry)]) = false := by
    refine conflicts_eq_false.2 fun a ha => conflicts_eq_false.1 hvacant.free a ?_
    obtain ⟨x, hx, -, rfl⟩ := mem_writeScope.1 ha
    rw [List.mem_singleton.1 hx, hadds.address_eq]
    exact List.mem_singleton_self _
  obtain ⟨model, hmodel⟩ :=
    Property.exists_validateAll_addRequest name (Expression.escape text) hboot
  have hwrites : entry.schema.isReadOnly = false := rfl
  obtain ⟨results, hcourse⟩ := exists_course_add hr.toOffersProperties
    (effect_of_allows hallows) hadds hmodel hvacant hwrites
  obtain ⟨r, t, hsubmit, hsettles⟩ := exists_submit hc hs
    (List.forall_mem_singleton.2 fun _ hentry => hr.isBuiltIn hentry) (List.cons_ne_nil op [])
    hlimit hacc hfree
  have hresult := hsettles.result_eq
  rw [hcourse] at hresult
  rw [perform_eq, hsub, hsubmit, hresult]
  exact ⟨_, _, rfl⟩

/-- Resolving undoes escaping, whatever the live properties are. So a property that is added with
    an escaped text has the text as its live value when the transaction has committed, if changes
    of the property reach the process at once; and where nothing is in the way, the request to add
    it commits. -/
theorem escaping_undone (text : String) :
    (∀ lookup, Expression.resolve lookup (Expression.escape text) = .ok text) ∧
    ∀ {X : Signature} {c : Controller X.withProperties} {cfg : PropertyConfig}
      {s : ControllerState X.withProperties} {sub : Submission} {name : String},
      c.RunsModel cfg → c.registry.GovernsProperties cfg → s.Tidy →
      cfg.allows name (sub.inBootMode s.booting) = true →
        (∀ {response s'}, AddOnly name (Expression.escape text) sub.operations →
          c.perform sub s = .ok (.ok response, s') → HoldsEscaped s' name text) ∧
        (∀ {bootTime?}, (bootTime?.isSome → cfg.useBootTime = true) →
          sub.operations =
            [Property.addRequest name (some (Expression.escape text)) bootTime?] →
          Vacant s name → 1 < c.stepLimit →
            ∃ response s', c.perform sub s = .ok (.ok response, s') ∧
              HoldsEscaped s' name text) := by
  refine ⟨fun lookup => Expression.resolve_escape lookup text, ?_⟩
  intro X c cfg s sub name hc hr hs hallows
  refine ⟨fun honly h => holds_of_perform hc hr hs hallows honly h, ?_⟩
  intro bootTime? hboot hsub hvacant hlimit
  obtain ⟨response, s', h⟩ := exists_perform_addRequest hc hr hs hallows hboot hsub hvacant hlimit
  have honly : AddOnly name (Expression.escape text) sub.operations :=
    hsub ▸ Property.addOnly_addRequest name (Expression.escape text) bootTime?
  exact ⟨response, s', h, holds_of_perform hc hr hs hallows honly h⟩

/-- A property whose value looks like a reference, and is none. -/
theorem escaping_undone_reference :
    ∃ response s', (bare { updater? := some {} } 5).perform
        (.execute (Property.addRequest "p" (some "$$\x7bhome\x7d") none)) .bare =
          .ok (.ok response, s') ∧
      Property.storedValue s'.store.tree "p" = .expression "$$\x7bhome\x7d" ∧
      s'.environment.live.get? "p" = some "$\x7bhome\x7d" := by
  have hescape : Expression.escape "$\x7bhome\x7d" = "$$\x7bhome\x7d" := by decide +kernel
  have hopens : Expression.opensReference "$\x7bhome\x7d".toList = true := by decide +kernel
  obtain ⟨-, hgeneral⟩ := escaping_undone "$\x7bhome\x7d"
  obtain ⟨-, hadds⟩ := @hgeneral _ _ _ .bare
    (.execute (Property.addRequest "p" (some "$$\x7bhome\x7d") none)) "p"
    (runsModel_bare { updater? := some {} } 5) (ModelSpec.governsProperties_bare _)
    ControllerState.tidy_bare (by decide)
  rw [hescape] at hadds
  obtain ⟨response, s', h, hholds⟩ := @hadds none nofun rfl
    ⟨by decide, by decide, by decide⟩ (by decide)
  refine ⟨response, s', h, ?_, hholds.live⟩
  rw [hholds.stored, if_pos hopens, hescape]

end Controller

end ManagedModel
