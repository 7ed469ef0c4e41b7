import ManagedModel.Property.Model
import ManagedModel.Proofs.Course.Settlement

/-! # What registries offer

    Facts about the registries of models with system properties.

    * `addOperations_eq_ok` and `addResource_eq_ok` say what an addition that
      is not refused adds.
    * `Registry.GovernsProperties` says that the addresses of system properties
      are governed by their own resource type, and that all other operations
      are carried out by resource handlers.
    * `ModelSpec.IsGeneric` describes models that offer the operations for every
      address, system properties and generic resources. Their registries are of
      that kind (`IsGeneric.governsProperties`). -/

namespace ManagedModel

namespace Registry

variable {H : Type}

/-! ### Additions -/

/-- What a table of operations has after an addition: what it had, and what was added. -/
theorem addOperations_eq_ok {pattern? : Option Address}
    {table table' : SortedMap String (RegisteredOperation H)} {ops : List (OperationSchema × H)}
    (h : addOperations pattern? table ops = .ok table') {name : String}
    {entry : RegisteredOperation H} (hentry : table'.get? name = some entry) :
    table.get? name = some entry ∨
      (entry.schema, entry.handler) ∈ ops ∧ entry.schema.name = name := by
  induction ops generalizing table with
  | nil =>
    cases h
    exact .inl hentry
  | cons op rest ih =>
    obtain ⟨schema, handler⟩ := op
    unfold addOperations at h
    split at h
    · cases h
    · cases hp : checkPatterns schema.parameters with
      | error fault =>
        rw [hp] at h
        cases h
      | ok u =>
        rw [hp] at h
        -- what the table had after the first addition is either old or that addition
        rcases ih h with hold | ⟨hmem, hname⟩
        · by_cases hk : name = schema.name
          · subst hk
            rw [SortedMap.get?_insert_self] at hold
            cases hold
            exact .inr ⟨List.mem_cons_self, rfl⟩
          · rw [SortedMap.get?_insert_of_ne _ hk] at hold
            exact .inl hold
        · exact .inr ⟨List.mem_cons_of_mem _ hmem, hname⟩

/-- An addition that goes through inserts the operations one after the other. -/
theorem addOperations_eq_foldl {pattern? : Option Address}
    {table table' : SortedMap String (RegisteredOperation H)} {ops : List (OperationSchema × H)}
    (h : addOperations pattern? table ops = .ok table') :
    table' = ops.foldl (fun table op => table.insert op.1.name ⟨op.1, op.2⟩) table := by
  induction ops generalizing table with
  | nil =>
    cases h
    rfl
  | cons op rest ih =>
    obtain ⟨schema, handler⟩ := op
    unfold addOperations at h
    split at h
    · cases h
    · cases hp : checkPatterns schema.parameters with
      | error fault =>
        rw [hp] at h
        cases h
      | ok u =>
        rw [hp] at h
        exact ih h

theorem addGlobal_eq_ok {r r' : Registry H} {schema : OperationSchema} {handler : H}
    (h : r.addGlobal schema handler = .ok r') :
    r'.resources = r.resources ∧
      r'.globals = r.globals.insert schema.name ⟨schema, handler⟩ := by
  unfold addGlobal at h
  cases ha : addOperations none r.globals [(schema, handler)] with
  | error fault =>
    rw [ha] at h
    cases h
  | ok globals =>
    rw [ha] at h
    cases h
    exact ⟨rfl, addOperations_eq_foldl ha⟩

theorem addResource_eq_ok {r r' : Registry H} {pattern : Address}
    {attributes : List AttributeSchema} {ops : List (OperationSchema × H)}
    (h : r.addResource pattern attributes ops = .ok r') :
    repeated? [] (attributes.map (·.name)) = none ∧ checkPatterns attributes = .ok () ∧
      ∃ operations, addOperations (some pattern) ∅ ops = .ok operations ∧
        r' = { r with resources := r.resources ++ [⟨{ pattern, attributes }, operations⟩] } := by
  unfold addResource at h
  by_cases hdup : r.resources.any (·.schema.pattern = pattern)
  · rw [if_pos hdup] at h
    cases h
  · rw [if_neg hdup] at h
    cases hrep : repeated? [] (attributes.map (·.name)) with
    | some name =>
      rw [hrep] at h
      cases h
    | none =>
      rw [hrep] at h
      cases hp : checkPatterns attributes with
      | error fault =>
        rw [hp] at h
        cases h
      | ok u =>
        rw [hp] at h
        cases ho : addOperations (some pattern) ∅ ops with
        | error fault =>
          rw [ho] at h
          cases h
        | ok operations =>
          rw [ho] at h
          cases h
          exact ⟨rfl, rfl, operations, rfl, rfl⟩

/-! ### Lookup -/

theorem resourceType?_mem {r : Registry H} {a : Address} {t : ResourceType H}
    (h : r.resourceType? a = some t) : t ∈ r.resources ∧ a.isMatchedBy t.schema.pattern := by
  have hmost : ∀ {ts : List (ResourceType H)} {t : ResourceType H},
      mostSpecific? ts = some t → t ∈ ts := by
    intro ts
    induction ts with
    | nil =>
      intro t h
      cases h
    | cons first rest ih =>
      intro t h
      unfold mostSpecific? at h
      split at h
      · cases h
        exact List.mem_cons_self
      · rename_i u hu
        split at h
        · cases h
          exact List.mem_cons_of_mem _ (ih hu)
        · cases h
          exact List.mem_cons_self
  have hmem := hmost h
  exact ⟨(List.mem_filter.1 hmem).1, (List.mem_filter.1 hmem).2⟩

/-- What is offered at an address is offered by the type that governs it, or everywhere. -/
theorem operation?_eq_some {r : Registry H} {a : Address} {name : String}
    {entry : RegisteredOperation H} (h : r.operation? a name = some entry) :
    (∃ t, r.resourceType? a = some t ∧ t.operations.get? name = some entry) ∨
      r.globals.get? name = some entry := by
  unfold operation? at h
  cases ht : r.resourceType? a with
  | none =>
    rw [ht] at h
    exact .inr h
  | some t =>
    rw [ht] at h
    cases ho : t.operations.get? name with
    | none =>
      refine .inr ?_
      simpa [ho] using h
    | some entry' =>
      refine .inl ⟨t, rfl, ?_⟩
      simpa [ho] using h

end Registry

/-! ### System properties in registries -/

namespace Property

variable {C : Type}

/-- The operations of system properties. -/
def resourceOperations (cfg : PropertyConfig) :
    SortedMap String (RegisteredOperation (ModelHandler C)) :=
  (((∅ : SortedMap String (RegisteredOperation (ModelHandler C))).insert "add"
    ⟨Resource.addSchema (attributes cfg.useBootTime), .property .add⟩).insert "remove"
      ⟨Resource.removeSchema, .property .remove⟩).insert "write-attribute"
        ⟨Resource.writeAttributeSchema, .property .writeAttribute⟩

/-- The resource type of system properties. -/
def resourceType (cfg : PropertyConfig) : ResourceType (ModelHandler C) :=
  { schema := { pattern := addressPattern, attributes := attributes cfg.useBootTime }
    operations := resourceOperations cfg }

/-- What system properties offer of their own. -/
theorem resourceOperations_eq_some {cfg : PropertyConfig} {name : String}
    {entry : RegisteredOperation (ModelHandler C)}
    (h : (resourceOperations cfg).get? name = some entry) :
    (name = "add" ∧ entry = ⟨Resource.addSchema (attributes cfg.useBootTime), .property .add⟩) ∨
      (name = "remove" ∧ entry = ⟨Resource.removeSchema, .property .remove⟩) ∨
      (name = "write-attribute" ∧
        entry = ⟨Resource.writeAttributeSchema, .property .writeAttribute⟩) := by
  unfold resourceOperations at h
  rw [SortedMap.get?_insert] at h
  split at h
  · rename_i hname
    exact .inr (.inr ⟨hname, (Option.some.inj h).symm⟩)
  · rw [SortedMap.get?_insert] at h
    split at h
    · rename_i hname
      exact .inr (.inl ⟨hname, (Option.some.inj h).symm⟩)
    · rw [SortedMap.get?_insert] at h
      split at h
      · rename_i hname
        exact .inl ⟨hname, (Option.some.inj h).symm⟩
      · cases h

theorem address_isMatchedBy (name : String) : (address name).isMatchedBy addressPattern := by
  simp [Address.isMatchedBy, address, addressPattern, Address.length, AddressElement.isMatchedBy,
    AddressElement.wildcard, AddressElement.isWildcard]

/-- No other addresses fall under the pattern of system properties. -/
theorem eq_address_of_isMatchedBy {a : Address} (h : a.isMatchedBy addressPattern) :
    ∃ name, a = address name := by
  unfold Address.isMatchedBy at h
  rw [Bool.and_eq_true] at h
  obtain ⟨hlength, hall⟩ := h
  obtain ⟨elements⟩ := a
  -- the pattern has one element, so the address has, and the keys agree
  have hone : elements.length = 1 := beq_iff_eq.1 hlength
  obtain ⟨⟨key, value⟩, rfl⟩ := List.length_eq_one_iff.1 hone
  have hkey : key = resourceKey := by
    simp [addressPattern, AddressElement.isMatchedBy, AddressElement.wildcard] at hall
    exact hall.1.symm
  exact ⟨value, by rw [hkey]; rfl⟩

theorem address_injective {name other : String} (h : address name = address other) :
    name = other := by
  cases h
  rfl

theorem nameOf_of_address_eq {op : Operation} {name : String} (h : op.address = address name) :
    nameOf op = .ok name := by
  unfold nameOf
  rw [h]
  rfl

end Property

namespace Registry

variable {C : Type} {r : Registry (ModelHandler C)}

/-- System properties have a resource type of their own. -/
structure OffersProperties (cfg : PropertyConfig) (r : Registry (ModelHandler C)) : Prop where
  type_eq : ∀ name, r.resourceType? (Property.address name) = some (Property.resourceType cfg)

/-- System properties have a resource type of their own, and everything else is carried out by
    resource handlers. -/
structure GovernsProperties (cfg : PropertyConfig) (r : Registry (ModelHandler C)) : Prop
    extends r.OffersProperties cfg where
  /-- The operations that system properties do not have of their own only read. -/
  globals_read : ∀ {name : String} {entry : RegisteredOperation (ModelHandler C)},
    r.globals.get? name = some entry → name ≠ "remove" → name ≠ "write-attribute" →
      ∃ h, entry.handler = .resource h ∧ h.IsRead
  others : ∀ {a : Address} {name : String} {entry : RegisteredOperation (ModelHandler C)},
    (∀ n, a ≠ Property.address n) → r.operation? a name = some entry →
      ∃ h, entry.handler = .resource h

namespace OffersProperties

variable {cfg : PropertyConfig}

theorem resource?_eq (h : r.OffersProperties cfg) (name : String) :
    r.resource? (Property.address name) =
      some { pattern := Property.addressPattern
             attributes := Property.attributes cfg.useBootTime } := by
  unfold resource?
  rw [h.type_eq]
  rfl

theorem operation?_add (h : r.OffersProperties cfg) (name : String) :
    r.operation? (Property.address name) "add" =
      some ⟨Resource.addSchema (Property.attributes cfg.useBootTime), .property .add⟩ := by
  unfold operation?
  rw [h.type_eq]
  rfl

end OffersProperties

namespace GovernsProperties

variable {cfg : PropertyConfig}

/-- What is offered for a system property. -/
theorem operation?_eq_some (h : r.GovernsProperties cfg) {name op : String}
    {entry : RegisteredOperation (ModelHandler C)}
    (hentry : r.operation? (Property.address name) op = some entry) :
    (op = "add" ∧ entry = ⟨Resource.addSchema (Property.attributes cfg.useBootTime),
        .property .add⟩) ∨
      (op = "remove" ∧ entry = ⟨Resource.removeSchema, .property .remove⟩) ∨
      (op = "write-attribute" ∧
        entry = ⟨Resource.writeAttributeSchema, .property .writeAttribute⟩) ∨
      ∃ h, entry.handler = .resource h ∧ h.IsRead := by
  unfold operation? at hentry
  rw [h.type_eq] at hentry
  cases hown : (Property.resourceOperations (C := C) cfg).get? op with
  | some own =>
    have heq : own = entry := by
      simpa [Property.resourceType, hown] using hentry
    subst heq
    rcases Property.resourceOperations_eq_some hown with hadd | hremove | hwrite
    · exact .inl hadd
    · exact .inr (.inl hremove)
    · exact .inr (.inr (.inl hwrite))
  | none =>
    have hglobal : r.globals.get? op = some entry := by
      simpa [Property.resourceType, hown] using hentry
    -- an operation that properties have of their own hides the one for every address
    have hne : ∀ {n : String}, ((Property.resourceOperations (C := C) cfg).get? n).isSome →
        op ≠ n := by
      rintro n hn rfl
      rw [hown] at hn
      cases hn
    exact .inr (.inr (.inr (h.globals_read hglobal (hne rfl) (hne rfl))))

/-- Every operation is carried out by a built-in handler. -/
theorem isBuiltIn (h : r.GovernsProperties cfg) {a : Address} {name : String}
    {entry : RegisteredOperation (ModelHandler C)} (hentry : r.operation? a name = some entry) :
    entry.handler.IsBuiltIn := by
  by_cases ha : ∃ n, a = Property.address n
  · obtain ⟨n, rfl⟩ := ha
    rcases h.operation?_eq_some hentry with ⟨-, rfl⟩ | ⟨-, rfl⟩ | ⟨-, rfl⟩ | ⟨h, heq, -⟩
    · trivial
    · trivial
    · trivial
    · rw [heq]
      trivial
  · obtain ⟨h, heq⟩ := h.others (fun n hn => ha ⟨n, hn⟩) hentry
    rw [heq]
    trivial

end GovernsProperties

end Registry

/-! ### Models with generic resources -/

/-- The operations that are offered for every address. -/
def ResourceHandler.globals {C : Type} : SortedMap String (RegisteredOperation (ModelHandler C)) :=
  (((((∅ : SortedMap String (RegisteredOperation (ModelHandler C))).insert "read-resource"
    ⟨Resource.readResourceSchema, .resource .readResource⟩).insert "read-attribute"
      ⟨Resource.readAttributeSchema, .resource .readAttribute⟩).insert "read-children-names"
        ⟨Resource.readChildrenNamesSchema, .resource .readChildrenNames⟩).insert "write-attribute"
          ⟨Resource.writeAttributeSchema, .resource .writeAttribute⟩).insert "remove"
            ⟨Resource.removeSchema, .resource .remove⟩

/-- The resource type is the one that is described. -/
structure ResourceSpec.Yields {C : Type} (spec : ResourceSpec (ModelHandler C))
    (t : ResourceType (ModelHandler C)) : Prop where
  pattern_eq : t.schema.pattern = spec.pattern
  operations : ∀ {name : String} {entry : RegisteredOperation (ModelHandler C)},
    t.operations.get? name = some entry →
      entry = ⟨Resource.addSchema spec.attributes, .resource .add⟩ ∨
        (entry.schema, entry.handler) ∈ spec.operations

namespace Registry

variable {C : Type}

theorem registerGlobals_eq_ok {r r' : Registry (ModelHandler C)} (hempty : r.globals = ∅)
    (h : ResourceHandler.registerGlobals .resource r = .ok r') :
    r'.resources = r.resources ∧ r'.globals = ResourceHandler.globals := by
  unfold ResourceHandler.registerGlobals at h
  obtain ⟨r₁, h₁, h⟩ := bind_eq_ok.1 h
  obtain ⟨r₂, h₂, h⟩ := bind_eq_ok.1 h
  obtain ⟨r₃, h₃, h⟩ := bind_eq_ok.1 h
  obtain ⟨r₄, h₄, h⟩ := bind_eq_ok.1 h
  obtain ⟨hr₁, hg₁⟩ := addGlobal_eq_ok h₁
  obtain ⟨hr₂, hg₂⟩ := addGlobal_eq_ok h₂
  obtain ⟨hr₃, hg₃⟩ := addGlobal_eq_ok h₃
  obtain ⟨hr₄, hg₄⟩ := addGlobal_eq_ok h₄
  obtain ⟨hr₅, hg₅⟩ := addGlobal_eq_ok h
  refine ⟨?_, ?_⟩
  · rw [hr₅, hr₄, hr₃, hr₂, hr₁]
  · rw [hg₅, hg₄, hg₃, hg₂, hg₁, hempty]
    rfl

theorem register_eq_ok {cfg : PropertyConfig} {r r' : Registry (ModelHandler C)}
    (h : PropertyHandler.register .property cfg r = .ok r') :
    r' = { r with resources := r.resources ++ [Property.resourceType cfg] } := by
  obtain ⟨-, -, operations, hops, rfl⟩ := addResource_eq_ok h
  have heq : operations = Property.resourceOperations cfg := addOperations_eq_foldl hops
  rw [heq]
  rfl

/-- The resource types of a model's own resources. -/
theorem addResources_eq_ok {r r' : Registry (ModelHandler C)}
    {specs : List (ResourceSpec (ModelHandler C))} (h : ModelSpec.addResources r specs = .ok r') :
    r'.globals = r.globals ∧
      ∃ types, r'.resources = r.resources ++ types ∧ ∀ t ∈ types, ∃ spec ∈ specs, spec.Yields t := by
  induction specs generalizing r with
  | nil =>
    cases h
    exact ⟨rfl, [], (List.append_nil _).symm, fun t ht => (nomatch ht)⟩
  | cons spec specs ih =>
    unfold ModelSpec.addResources at h
    obtain ⟨r₁, h₁, h⟩ := bind_eq_ok.1 h
    obtain ⟨-, -, operations, hops, rfl⟩ := addResource_eq_ok h₁
    obtain ⟨hglobals, types, htypes, hall⟩ := ih h
    let first : ResourceType (ModelHandler C) :=
      ⟨{ pattern := spec.pattern, attributes := spec.attributes }, operations⟩
    refine ⟨hglobals, first :: types, ?_, ?_⟩
    · rw [htypes, List.append_assoc]
      rfl
    · intro t ht
      rcases List.mem_cons.1 ht with rfl | ht
      · refine ⟨spec, List.mem_cons_self, rfl, ?_⟩
        intro name entry hentry
        rcases addOperations_eq_ok hops hentry with hnone | ⟨hmem, -⟩
        · cases hnone
        -- the operation that creates such a resource comes before those of the description
        · rcases List.mem_append.1 hmem with hadd | hown
          · left
            split at hadd
            · obtain ⟨schema, handler⟩ := entry
              cases List.mem_singleton.1 hadd
              rfl
            · cases hadd
          · exact .inr hown
      · obtain ⟨spec', hspec', hrest⟩ := hall t ht
        exact ⟨spec', List.mem_cons_of_mem _ hspec', hrest⟩

end Registry

namespace ModelSpec

variable {C : Type} {spec : ModelSpec C} {r : Registry (ModelHandler C)}

/-- The model offers the operations for every address, system properties and generic resources;
    the latter are never found where system properties are. -/
structure IsGeneric (spec : ModelSpec C) : Prop where
  offersGlobals_eq : spec.offersGlobals = true
  offersProperties_eq : spec.offersProperties = true
  globals_eq : spec.globals = []
  pattern_apart : ∀ t ∈ spec.resources, ∀ name,
    ¬ (Property.address name).isMatchedBy t.pattern
  handlers : ∀ t ∈ spec.resources, ∀ o ∈ t.operations, ∃ h, o.2 = .resource h

/-- What the registry of such a model consists of. -/
theorem IsGeneric.registry_eq_ok (hspec : spec.IsGeneric) (h : spec.registry = .ok r) :
    r.globals = ResourceHandler.globals ∧
      ∃ types, r.resources = Property.resourceType spec.properties :: types ∧
        ∀ t ∈ types, ∃ d ∈ spec.resources, d.Yields t := by
  unfold registry at h
  rw [hspec.offersGlobals_eq, hspec.offersProperties_eq, hspec.globals_eq] at h
  obtain ⟨r₁, h₁, h⟩ := bind_eq_ok.1 h
  obtain ⟨r₂, h₂, h⟩ := bind_eq_ok.1 h
  obtain ⟨r₃, h₃, h⟩ := bind_eq_ok.1 h
  obtain ⟨hresources, hglobals⟩ := Registry.registerGlobals_eq_ok rfl h₁
  cases Registry.register_eq_ok h₂
  cases h₃
  obtain ⟨hsame, types, htypes, hall⟩ := Registry.addResources_eq_ok h
  refine ⟨hsame.trans hglobals, types, ?_, hall⟩
  rw [htypes, hresources]
  rfl

/-- What is offered for every address is carried out by resource handlers. But for two of the
    operations these only read, and the two are not declared read-only. -/
theorem globals_eq_some {name : String} {entry : RegisteredOperation (ModelHandler C)}
    (h : ResourceHandler.globals.get? name = some entry) :
    ∃ h, entry.handler = .resource h ∧
      (h.IsRead ∨
        (name = "remove" ∨ name = "write-attribute") ∧ entry.schema.isReadOnly = false) := by
  unfold ResourceHandler.globals at h
  rw [SortedMap.get?_insert] at h
  split at h
  · rename_i hname
    cases h
    exact ⟨_, rfl, .inr ⟨.inl hname, rfl⟩⟩
  · rw [SortedMap.get?_insert] at h
    split at h
    · rename_i hname
      cases h
      exact ⟨_, rfl, .inr ⟨.inr hname, rfl⟩⟩
    · rw [SortedMap.get?_insert] at h
      split at h
      · cases h
        exact ⟨_, rfl, .inl trivial⟩
      · rw [SortedMap.get?_insert] at h
        split at h
        · cases h
          exact ⟨_, rfl, .inl trivial⟩
        · rw [SortedMap.get?_insert] at h
          split at h
          · cases h
            exact ⟨_, rfl, .inl trivial⟩
          · cases h

/-- In such a model system properties have their own resource type, and everything else is
    carried out by resource handlers. -/
theorem IsGeneric.governsProperties (hspec : spec.IsGeneric) (h : spec.registry = .ok r) :
    r.GovernsProperties spec.properties := by
  obtain ⟨hglobals, types, hresources, htypes⟩ := hspec.registry_eq_ok h
  refine ⟨⟨?_⟩, ?_, ?_⟩
  · intro name
    -- no other type is in question, so there is nothing to choose from
    have hothers : types.filter (fun t => (Property.address name).isMatchedBy t.schema.pattern)
        = [] := by
      apply List.filter_eq_nil_iff.2
      intro t ht
      obtain ⟨d, hd, hyields⟩ := htypes t ht
      rw [hyields.pattern_eq]
      exact hspec.pattern_apart d hd name
    unfold Registry.resourceType?
    have hown : (Property.address name).isMatchedBy
        (Property.resourceType (C := C) spec.properties).schema.pattern :=
      Property.address_isMatchedBy name
    rw [hresources, List.filter_cons, if_pos hown, hothers]
    rfl
  · intro name entry hentry hremove hwrite
    rw [hglobals] at hentry
    obtain ⟨h, heq, hread | ⟨hname | hname, -⟩⟩ := globals_eq_some hentry
    · exact ⟨h, heq, hread⟩
    · exact absurd hname hremove
    · exact absurd hname hwrite
  · intro a name entry ha hentry
    rcases Registry.operation?_eq_some hentry with ⟨t, ht, hown⟩ | hglobal
    · obtain ⟨hmem, hmatched⟩ := Registry.resourceType?_mem ht
      rw [hresources] at hmem
      rcases List.mem_cons.1 hmem with rfl | hmem
      · obtain ⟨n, hn⟩ := Property.eq_address_of_isMatchedBy hmatched
        exact absurd hn (ha n)
      · obtain ⟨d, hd, hyields⟩ := htypes t hmem
        rcases hyields.operations hown with rfl | hspecified
        · exact ⟨.add, rfl⟩
        · exact hspec.handlers d hd _ hspecified
    · rw [hglobals] at hglobal
      obtain ⟨h, heq, -⟩ := globals_eq_some hglobal
      exact ⟨h, heq⟩

/-- In such a model every operation is generic but those of system properties, if resource types
    declare read-only what only reads. -/
theorem IsGeneric.isGeneric {X : Signature} {spec : ModelSpec X.Handler} (hspec : spec.IsGeneric)
    {c : Controller X.withProperties} (h : spec.registry = .ok c.registry)
    (hreads : ∀ t ∈ spec.resources, ∀ o ∈ t.operations, ∀ h, o.2 = .resource h →
      o.1.isReadOnly = true → h.IsRead)
    {op : Operation} (hop : ∀ n, op.address = Property.address n →
      op.name ≠ "add" ∧ op.name ≠ "remove" ∧ op.name ≠ "write-attribute") : c.IsGeneric op := by
  obtain ⟨hglobals, types, hresources, htypes⟩ := hspec.registry_eq_ok h
  intro entry hentry
  rcases Registry.operation?_eq_some hentry with ⟨t, ht, hown⟩ | hglobal
  · obtain ⟨hmem, hmatched⟩ := Registry.resourceType?_mem ht
    rw [hresources] at hmem
    rcases List.mem_cons.1 hmem with rfl | hmem
    · obtain ⟨n, hn⟩ := Property.eq_address_of_isMatchedBy hmatched
      obtain ⟨hadd, hremove, hwrite⟩ := hop n hn
      rcases Property.resourceOperations_eq_some hown with ⟨hname, -⟩ | ⟨hname, -⟩ | ⟨hname, -⟩
      · exact absurd hname hadd
      · exact absurd hname hremove
      · exact absurd hname hwrite
    · obtain ⟨d, hd, hyields⟩ := htypes t hmem
      rcases hyields.operations hown with rfl | hspecified
      · exact ⟨.add, rfl, fun hfalse => (nomatch hfalse)⟩
      · obtain ⟨handler, heq⟩ := hspec.handlers d hd _ hspecified
        exact ⟨handler, heq, hreads d hd _ hspecified handler heq⟩
  · rw [hglobals] at hglobal
    obtain ⟨handler, heq, hread | ⟨-, hdeclared⟩⟩ := globals_eq_some hglobal
    · exact ⟨handler, heq, fun _ => hread⟩
    · refine ⟨handler, heq, fun hfalse => ?_⟩
      rw [hdeclared] at hfalse
      cases hfalse

/-- None of the operations for every address is for boot mode only. -/
theorem isBootOnly_globals : ∀ name entry,
    (ResourceHandler.globals (C := C)).get? name = some entry →
      entry.schema.isBootOnly = false := by
  unfold ResourceHandler.globals
  iterate 5 refine SortedMap.forall_insert ?_ rfl
  exact fun _ _ h => (nomatch h)

/-- In such a model no operation is for boot mode only, if resource types declare none so. -/
theorem IsGeneric.isBootOnly_eq (hspec : spec.IsGeneric) (h : spec.registry = .ok r)
    (hmodes : ∀ t ∈ spec.resources, ∀ o ∈ t.operations, o.1.isBootOnly = false) {a : Address}
    {name : String} {entry : RegisteredOperation (ModelHandler C)}
    (hentry : r.operation? a name = some entry) : entry.schema.isBootOnly = false := by
  obtain ⟨hglobals, types, hresources, htypes⟩ := hspec.registry_eq_ok h
  rcases Registry.operation?_eq_some hentry with ⟨t, ht, hown⟩ | hglobal
  · obtain ⟨hmem, -⟩ := Registry.resourceType?_mem ht
    rw [hresources] at hmem
    rcases List.mem_cons.1 hmem with rfl | hmem
    · rcases Property.resourceOperations_eq_some hown with ⟨-, rfl⟩ | ⟨-, rfl⟩ | ⟨-, rfl⟩ <;> rfl
    · obtain ⟨d, hd, hyields⟩ := htypes t hmem
      rcases hyields.operations hown with rfl | hspecified
      · rfl
      · exact hmodes d hd _ hspecified
  · rw [hglobals] at hglobal
    exact isBootOnly_globals name entry hglobal

/-! ### Models with nothing of their own -/

/-- The registry of a model that has system properties and nothing of its own. -/
def bareRegistry (cfg : PropertyConfig) : Registry (ModelHandler Empty) :=
  { resources := [Property.resourceType cfg], globals := ResourceHandler.globals }

theorem isGeneric_bare (cfg : PropertyConfig) :
    ({ properties := cfg } : ModelSpec Empty).IsGeneric :=
  ⟨rfl, rfl, rfl, fun _ ht => (nomatch ht), fun _ ht => (nomatch ht)⟩

/-- The operations for every address break no rule. -/
theorem isOk_registerGlobals :
    (ResourceHandler.registerGlobals .resource ({} : Registry (ModelHandler Empty))).isOk := by
  decide +kernel

/-- The operations of system properties break no rule. -/
theorem isOk_register (useBootTime : Bool) :
    (PropertyHandler.register .property { useBootTime }
      { globals := ResourceHandler.globals (C := Empty) }).isOk := by
  cases useBootTime <;> decide +kernel

theorem registry_bare (cfg : PropertyConfig) :
    ({ properties := cfg } : ModelSpec Empty).registry = .ok (bareRegistry cfg) := by
  -- that no rule is broken is computed; what is registered then follows from the additions
  cases h₁ : ResourceHandler.registerGlobals .resource ({} : Registry (ModelHandler Empty)) with
  | error fault =>
    have hok := isOk_registerGlobals
    rw [h₁] at hok
    cases hok
  | ok r₁ =>
    obtain ⟨hresources, hglobals⟩ := Registry.registerGlobals_eq_ok rfl h₁
    have hr₁ : r₁ = { globals := ResourceHandler.globals } := by
      obtain ⟨resources, globals⟩ := r₁
      cases hresources
      cases hglobals
      rfl
    cases h₂ : PropertyHandler.register .property cfg r₁ with
    | error fault =>
      have hok := isOk_register cfg.useBootTime
      rw [hr₁] at h₂
      rw [show PropertyHandler.register .property { useBootTime := cfg.useBootTime }
        { globals := ResourceHandler.globals } = .error fault from h₂] at hok
      cases hok
    | ok r₂ =>
      unfold registry
      dsimp only
      rw [if_pos rfl, h₁]
      show (PropertyHandler.register .property cfg r₁ >>= fun r => _) = _
      rw [h₂, Registry.register_eq_ok h₂, hr₁]
      rfl

theorem tidy_initialState {X : Signature} (spec : ModelSpec C) (environment : X.Environment) :
    (spec.initialState environment : ControllerState X.withProperties).Tidy :=
  ⟨fun _ => rfl, fun _ h => (nomatch h)⟩

theorem governsProperties_bare (cfg : PropertyConfig) :
    (bareRegistry cfg).GovernsProperties cfg :=
  (isGeneric_bare cfg).governsProperties (registry_bare cfg)

end ModelSpec

/-- The controller of a model that has system properties and nothing of its own. -/
def Controller.bare (cfg : PropertyConfig) (stepLimit : Nat) :
    Controller Signature.bare.withProperties where
  registry := ModelSpec.bareRegistry cfg
  handle := ModelHandler.program cfg fun code => code.elim
  interlude := fun code => code.elim
  stepLimit := stepLimit

/-- The state that the controller of such a model begins in. -/
def ControllerState.bare : ControllerState Signature.bare.withProperties :=
  ({} : ModelSpec Empty).initialState ()

theorem ControllerState.tidy_bare : ControllerState.bare.Tidy :=
  ModelSpec.tidy_initialState (X := Signature.bare) {} ()

theorem Controller.runsModel_bare (cfg : PropertyConfig) (stepLimit : Nat) :
    (Controller.bare cfg stepLimit).RunsModel cfg :=
  ⟨fun _ _ => rfl, fun _ _ => rfl⟩

theorem Controller.isBuiltIn_bare (cfg : PropertyConfig) (stepLimit : Nat) (op : Operation) :
    (Controller.bare cfg stepLimit).IsBuiltIn op :=
  fun _ h => (ModelSpec.governsProperties_bare cfg).isBuiltIn h

end ManagedModel
