import Mathlib.Data.List.Nodup
import ManagedModel.Proofs.Submission
import ManagedModel.Proofs.WorkingCopy
import ManagedModel.Resource.Change
import ManagedModel.Resource.Handlers

/-! # What validation leaves as it is

    Validating is done once validated: what comes out of it goes through it
    again unchanged.

    * `validate_eq_ok` says what it takes for a value to come out, and
      `validate_stored?` that it then comes out of itself.
    * Attributes that fit a list of schemas (`Fits`) are the fixed points of
      `validateAll` (`validateAll_eq_self`). What comes out of `validateAll`
      fits, and still fits when one attribute is written with a value that was
      validated (`Fits.withAttribute`).
    * The check made before a transaction asks for less: what can be validated
      passes it (`checkRequest_of_validateAll`). -/

namespace ManagedModel

/-- What is stored of a value: nothing where it is undefined. -/
def Value.stored? (v : Value) : Option Value := if v.isDefined then some v else none

namespace AttributeSchema

/-! ### One attribute -/

section

variable {d : AttributeSchema} {v w : Value} {v? : Option Value}

/-- A value stays what it is, unless it is a text that becomes an expression. -/
theorem normalize_cases (h : d.normalize v = .ok w) :
    w = v ∨ ∃ text, v = .string text ∧ w = .expression text ∧ d.allowsExpression = true ∧
      Expression.opensReference text.toList = true := by
  cases v with
  | string text =>
    by_cases hopens : (d.allowsExpression && Expression.opensReference text.toList) = true
    · simp only [normalize, if_pos hopens] at h
      cases h
      obtain ⟨hallowed, hreference⟩ := Bool.and_eq_true_iff.1 hopens
      exact .inr ⟨text, rfl, rfl, hallowed, hreference⟩
    · simp only [normalize, if_neg hopens] at h
      cases h
      exact .inl rfl
  | expression text =>
    by_cases hallowed : d.allowsExpression = true
    · simp only [normalize, if_pos hallowed] at h
      cases h
      exact .inl rfl
    · simp only [normalize, if_neg hallowed] at h
      cases h
  | undefined | bool _ | int _ | list _ | object _ =>
    cases h
    exact .inl rfl

theorem normalize_of_normalize (h : d.normalize v = .ok w) : d.normalize w = .ok w := by
  rcases normalize_cases h with rfl | ⟨text, rfl, rfl, hallowed, -⟩
  · exact h
  · exact if_pos hallowed

theorem isDefined_of_normalize (h : d.normalize v = .ok w) : w.isDefined = v.isDefined := by
  rcases normalize_cases h with rfl | ⟨text, rfl, rfl, -⟩ <;> rfl

/-- The value `v` that is supplied is taken in, and `w` is stored for it. -/
structure TakesIn (d : AttributeSchema) (v w : Value) : Prop where
  normalize_eq : d.normalize v = .ok w
  typeFits : AttributeSchema.typeFits d.type w.type? = true
  literal : w.isExpression = true ∨ d.checkLiteral w = .ok ()

/-- What is stored would be taken in as it is. -/
theorem TakesIn.self (h : d.TakesIn v w) : d.TakesIn w w :=
  ⟨normalize_of_normalize h.normalize_eq, h.typeFits, h.literal⟩

/-- A value is validated if none is supplied and none has to be, or if the one that is supplied is
    taken in. -/
theorem validate_eq_ok :
    d.validate v? = .ok w ↔
      d.supplied v? = .ok none ∧ w = .undefined ∨
        ∃ v, d.supplied v? = .ok (some v) ∧ d.TakesIn v w := by
  unfold validate
  rw [bind_eq_ok]
  constructor
  · rintro ⟨supplied?, hsupplied, h⟩
    cases supplied? with
    | none =>
      cases h
      exact .inl ⟨hsupplied, rfl⟩
    | some v =>
      obtain ⟨v', hnormalized, h⟩ := bind_eq_ok.1 h
      refine .inr ⟨v, hsupplied, ?_⟩
      by_cases htype : AttributeSchema.typeFits d.type v'.type? = true
      · rw [if_pos htype] at h
        by_cases hexpression : v'.isExpression = true
        · rw [if_pos hexpression] at h
          cases h
          exact ⟨hnormalized, htype, .inl hexpression⟩
        · rw [if_neg hexpression] at h
          obtain ⟨⟨⟩, hliteral, h⟩ := bind_eq_ok.1 h
          cases h
          exact ⟨hnormalized, htype, .inr hliteral⟩
      · rw [if_neg htype] at h
        cases h
  · rintro (⟨hsupplied, rfl⟩ | ⟨v, hsupplied, htaken⟩)
    · exact ⟨none, hsupplied, rfl⟩
    · refine ⟨some v, hsupplied, bind_eq_ok.2 ⟨w, htaken.normalize_eq, ?_⟩⟩
      rw [if_pos htaken.typeFits]
      by_cases hexpression : w.isExpression = true
      · rw [if_pos hexpression]
        rfl
      · rw [if_neg hexpression]
        exact bind_eq_ok.2 ⟨(), htaken.literal.resolve_left hexpression, rfl⟩

theorem supplied_of_isDefined (hv : v.isDefined = true) : d.supplied (some v) = .ok (some v) := by
  unfold supplied
  rw [Option.filter_some_pos hv]

/-- Without a default, what is supplied was given. -/
theorem eq_some_of_supplied (hdefault : d.default? = none) (h : d.supplied v? = .ok (some v)) :
    v? = some v := by
  unfold supplied at h
  cases hgiven : v?.filter Value.isDefined with
  | some v' =>
    rw [hgiven] at h
    cases h
    exact (Option.filter_eq_some_iff.1 hgiven).1
  | none =>
    rw [hgiven, hdefault] at h
    dsimp only at h
    split at h
    · cases h
    · split at h <;> cases h

/-- If what is supplied is undefined, it is what is supplied for nothing. -/
theorem supplied_none_of_undefined {supplied? : Option Value} (h : d.supplied v? = .ok supplied?)
    (hundefined : ∀ v ∈ supplied?, v.isDefined = false) : d.supplied none = .ok supplied? := by
  cases hgiven : v?.filter Value.isDefined with
  | none =>
    unfold supplied at h ⊢
    rw [hgiven] at h
    exact h
  | some v =>
    -- a value that is defined is supplied itself
    unfold supplied at h
    rw [hgiven] at h
    cases h
    have hdefined : v.isDefined = true := (Option.filter_eq_some_iff.1 hgiven).2
    rw [hundefined v rfl] at hdefined
    cases hdefined

/-- What is stored of a validated value validates to it. -/
theorem validate_stored? (h : d.validate v? = .ok w) : d.validate w.stored? = .ok w := by
  unfold Value.stored?
  by_cases hw : w.isDefined = true
  · rw [if_pos hw]
    rcases validate_eq_ok.1 h with ⟨-, rfl⟩ | ⟨v, -, htaken⟩
    · cases hw
    · exact validate_eq_ok.2 (.inr ⟨w, supplied_of_isDefined hw, htaken.self⟩)
  · rw [if_neg hw]
    rcases validate_eq_ok.1 h with ⟨hsupplied, rfl⟩ | ⟨v, hsupplied, htaken⟩
    · have hnone := supplied_none_of_undefined hsupplied nofun
      exact validate_eq_ok.2 (.inl ⟨hnone, rfl⟩)
    · have hnone := supplied_none_of_undefined hsupplied fun v' hv' => by
        cases hv'
        rw [← isDefined_of_normalize htaken.normalize_eq]
        exact Bool.eq_false_iff.2 hw
      exact validate_eq_ok.2 (.inr ⟨v, hnone, htaken⟩)

end

/-! ### All attributes -/

section

variable {defs : List AttributeSchema} {params validated stored m : Attributes}

theorem checkUnknown_eq_ok :
    checkUnknown defs params = .ok () ↔
      ∀ name, (params.get? name).isSome → ∃ d ∈ defs, d.name = name := by
  have hfind : checkUnknown defs params = .ok () ↔
      params.keys.find? (fun name => !defs.any (·.name == name)) = none := by
    unfold checkUnknown
    cases params.keys.find? fun name => !defs.any (·.name == name) <;> simp
  rw [hfind, List.find?_eq_none]
  refine forall_congr' fun name => ?_
  rw [SortedMap.mem_keys_iff]
  simp

/-- What has no schema in the list stays as it is. -/
theorem get?_of_validateInto {name : String} (hname : ∀ d ∈ defs, d.name ≠ name)
    (h : validateInto params defs validated = .ok stored) :
    stored.get? name = validated.get? name := by
  induction defs generalizing validated with
  | nil =>
    cases h
    rfl
  | cons d defs ih =>
    obtain ⟨hfirst, hrest⟩ := List.forall_mem_cons.1 hname
    obtain ⟨v, -, h⟩ := bind_eq_ok.1 h
    -- a schema stores under its own name, or nothing
    rw [ih hrest h]
    split
    · exact SortedMap.get?_insert_of_ne _ (fun e => hfirst e.symm) _
    · rfl

/-- Under the name of a schema stands what its validation gave. -/
theorem get?_of_validateInto_of_mem (hnames : (defs.map (·.name)).Nodup)
    (h : validateInto params defs validated = .ok stored) {d : AttributeSchema} (hd : d ∈ defs)
    (hfree : validated.get? d.name = none) :
    ∃ v, d.validate (params.get? d.name) = .ok v ∧ stored.get? d.name = v.stored? := by
  induction defs generalizing validated with
  | nil => cases hd
  | cons first defs ih =>
    obtain ⟨hfirst, hnames⟩ := List.nodup_cons.1 hnames
    obtain ⟨v, hv, h⟩ := bind_eq_ok.1 h
    have hothers : ∀ d ∈ defs, d.name ≠ first.name := fun d hd hname =>
      hfirst (List.mem_map.2 ⟨d, hd, hname⟩)
    rcases List.mem_cons.1 hd with rfl | hd
    · refine ⟨v, hv, ?_⟩
      rw [get?_of_validateInto hothers h]
      unfold Value.stored?
      by_cases hdefined : v.isDefined = true
      · rw [if_pos hdefined, if_pos hdefined, SortedMap.get?_insert_self]
      · rw [if_neg hdefined, if_neg hdefined, hfree]
    · refine ih hnames h hd ?_
      by_cases hdefined : v.isDefined = true
      · rw [if_pos hdefined, SortedMap.get?_insert_of_ne _ (hothers d hd), hfree]
      · rw [if_neg hdefined, hfree]

theorem exists_validateInto
    (h : ∀ d ∈ defs, ∃ v, d.validate (params.get? d.name) = .ok v) (validated : Attributes) :
    ∃ stored, validateInto params defs validated = .ok stored := by
  induction defs generalizing validated with
  | nil => exact ⟨validated, rfl⟩
  | cons d defs ih =>
    obtain ⟨⟨v, hv⟩, hrest⟩ := List.forall_mem_cons.1 h
    obtain ⟨stored, hstored⟩ :=
      ih hrest (if v.isDefined then validated.insert d.name v else validated)
    exact ⟨stored, bind_eq_ok.2 ⟨v, hv, hstored⟩⟩

/-- Every attribute has a schema, and is what its validation gives. -/
structure Fits (defs : List AttributeSchema) (m : Attributes) : Prop where
  declared : ∀ name, (m.get? name).isSome → ∃ d ∈ defs, d.name = name
  stored : ∀ d ∈ defs, ∃ v, d.validate (m.get? d.name) = .ok v ∧ m.get? d.name = v.stored?

/-- What comes out of validation fits. -/
theorem fits_of_validateAll (hnames : (defs.map (·.name)).Nodup)
    (h : validateAll defs params = .ok m) : Fits defs m := by
  obtain ⟨-, -, hinto⟩ := bind_eq_ok.1 h
  constructor
  · intro name hname
    by_cases hdeclared : ∃ d ∈ defs, d.name = name
    · exact hdeclared
    · rw [get?_of_validateInto (fun d hd hd' => hdeclared ⟨d, hd, hd'⟩) hinto] at hname
      cases hname
  · intro d hd
    obtain ⟨v, hv, hstored⟩ := get?_of_validateInto_of_mem hnames hinto hd rfl
    refine ⟨v, ?_, hstored⟩
    rw [hstored]
    exact validate_stored? hv

/-- The attributes that fit are those that validation leaves as they are. -/
theorem validateAll_eq_self (hnames : (defs.map (·.name)).Nodup) :
    validateAll defs m = .ok m ↔ Fits defs m := by
  refine ⟨fits_of_validateAll hnames, fun h => ?_⟩
  have hvalid : ∀ d ∈ defs, ∃ v, d.validate (m.get? d.name) = .ok v :=
    fun d hd => (h.stored d hd).imp fun v hv => hv.1
  obtain ⟨m', hm'⟩ := exists_validateInto hvalid ∅
  suffices hsame : m' = m by
    rw [hsame] at hm'
    exact bind_eq_ok.2 ⟨(), checkUnknown_eq_ok.2 h.declared, hm'⟩
  refine SortedMap.ext_get? fun name => ?_
  by_cases hname : ∃ d ∈ defs, d.name = name
  · obtain ⟨d, hd, rfl⟩ := hname
    obtain ⟨v, hv, hstored⟩ := h.stored d hd
    obtain ⟨v', hv', hstored'⟩ := get?_of_validateInto_of_mem hnames hm' hd rfl
    rw [hv] at hv'
    cases hv'
    rw [hstored, hstored']
  · rw [get?_of_validateInto (fun d hd hd' => hname ⟨d, hd, hd'⟩) hm']
    cases hm : m.get? name with
    | none => rfl
    | some v => exact absurd (h.declared name (by rw [hm]; rfl)) hname

theorem get?_withAttribute_self (name : String) (v : Value) (m : Attributes) :
    (Resource.withAttribute name v m).get? name = v.stored? := by
  unfold Resource.withAttribute Value.stored?
  split
  · exact SortedMap.get?_insert_self _ _ _
  · exact SortedMap.get?_erase_self _ _

theorem get?_withAttribute_of_ne {name other : String} (h : other ≠ name) (v : Value)
    (m : Attributes) : (Resource.withAttribute name v m).get? other = m.get? other := by
  unfold Resource.withAttribute
  split
  · exact SortedMap.get?_insert_of_ne _ h _
  · exact SortedMap.get?_erase_of_ne _ h

/-- Writing one attribute with a validated value keeps the attributes fitting. -/
theorem Fits.withAttribute (h : Fits defs m) (hnames : (defs.map (·.name)).Nodup)
    {d : AttributeSchema} (hd : d ∈ defs) {v? : Option Value} {v : Value}
    (hv : d.validate v? = .ok v) : Fits defs (Resource.withAttribute d.name v m) := by
  constructor
  · intro name hname
    by_cases hsame : name = d.name
    · exact ⟨d, hd, hsame.symm⟩
    · rw [get?_withAttribute_of_ne hsame] at hname
      exact h.declared name hname
  · intro d' hd'
    by_cases hsame : d'.name = d.name
    · -- names are distinct, so this is the schema of the attribute written
      obtain rfl : d' = d := List.inj_on_of_nodup_map hnames hd' hd hsame
      refine ⟨v, ?_, get?_withAttribute_self _ v m⟩
      rw [get?_withAttribute_self]
      exact validate_stored? hv
    · rw [get?_withAttribute_of_ne hsame]
      exact h.stored d' hd'

/-! ### The check before a transaction -/

theorem checkRequest_eq_ok :
    checkRequest defs params = .ok () ↔
      checkUnknown defs params = .ok () ∧ ∀ d ∈ defs, d.isMissing params = false := by
  have hfind : (∀ d ∈ defs, d.isMissing params = false) ↔
      defs.find? (·.isMissing params) = none := by
    rw [List.find?_eq_none]
    exact forall₂_congr fun d _ => (Bool.not_eq_true _).symm.to_iff
  rw [hfind]
  unfold checkRequest
  rw [bind_eq_ok]
  cases defs.find? (·.isMissing params) with
  | none => exact ⟨fun ⟨_, hunknown, _⟩ => ⟨hunknown, rfl⟩, fun ⟨hunknown, _⟩ => ⟨(), hunknown, rfl⟩⟩
  | some d => exact ⟨fun ⟨_, _, h⟩ => (nomatch h), fun ⟨_, h⟩ => (nomatch h)⟩

/-- The parameter that the check misses cannot be validated. -/
theorem validate_of_isMissing {d : AttributeSchema} (h : d.isMissing params = true) :
    d.validate (params.get? d.name) = .error (.validation (.missingAttribute d.name)) := by
  unfold isMissing at h
  simp only [Bool.and_eq_true, Bool.not_eq_true', Option.isNone_iff_eq_none] at h
  obtain ⟨⟨hrequired, hdefault⟩, hundefined⟩ := h
  have hgiven : (params.get? d.name).filter Value.isDefined = none := by
    rw [Option.filter_eq_none_iff]
    intro v hv hdefined
    rw [hv, Option.any_some] at hundefined
    exact absurd hdefined (Bool.eq_false_iff.1 hundefined)
  unfold validate supplied
  rw [hgiven, hdefault]
  dsimp only
  rw [if_pos hrequired]
  rfl

theorem exists_validate_of_validateInto (h : validateInto params defs validated = .ok stored) :
    ∀ d ∈ defs, ∃ v, d.validate (params.get? d.name) = .ok v := by
  induction defs generalizing validated with
  | nil => exact List.forall_mem_nil _
  | cons d defs ih =>
    obtain ⟨v, hv, hrest⟩ := bind_eq_ok.1 h
    exact List.forall_mem_cons.2 ⟨⟨v, hv⟩, ih hrest⟩

/-- Parameters that can be validated pass the check made before. -/
theorem checkRequest_of_validateAll (h : validateAll defs params = .ok m) :
    checkRequest defs params = .ok () := by
  obtain ⟨⟨⟩, hunknown, hinto⟩ := bind_eq_ok.1 h
  refine checkRequest_eq_ok.2 ⟨hunknown, fun d hd => Bool.eq_false_iff.2 fun hmissing => ?_⟩
  obtain ⟨v, hv⟩ := exists_validate_of_validateInto hinto d hd
  rw [validate_of_isMissing hmissing] at hv
  cases hv

/-- Validation is idempotent, and the check before a transaction refuses nothing that validation
    lets through: what it is given passes the check as well as what comes out of it, so an operation
    that declares the attributes as its parameters is accepted. -/
theorem validateAll_idempotent (hnames : (defs.map (·.name)).Nodup)
    (h : validateAll defs params = .ok m) :
    validateAll defs m = .ok m ∧ checkRequest defs params = .ok () ∧
      checkRequest defs m = .ok () ∧
      ∀ {S : Signature} (c : Controller S) {booting : Bool} {op : Operation}
        {entry : RegisteredOperation S.Handler},
        c.registry.operation? op.address op.name = some entry → entry.schema.parameters = defs →
          (entry.schema.isBootOnly = true → booting = true) → op.params = params ∨ op.params = m →
            c.accept booting op = .ok entry := by
  have hsame : validateAll defs m = .ok m :=
    (validateAll_eq_self hnames).2 (fits_of_validateAll hnames h)
  have hgiven := checkRequest_of_validateAll h
  have hstored := checkRequest_of_validateAll hsame
  refine ⟨hsame, hgiven, hstored, ?_⟩
  intro S c booting op entry hentry hdefs hboot hparams
  refine Controller.accept_eq_ok.2 ⟨hentry, ?_, ?_⟩
  · cases hbootOnly : entry.schema.isBootOnly with
    | false => rfl
    | true =>
      rw [hboot hbootOnly]
      rfl
  · rw [hdefs]
    rcases hparams with hparams | hparams <;> rw [hparams] <;> assumption

/-- A number in a range, a text that may hold references, one with a reference as its default, and one
    with a default that is undefined. -/
def hostAttributes : List AttributeSchema :=
  [((new "size" .int).required).withRange (some 1) (some 9),
    (new "label" .string).allowExpression,
    ((new "host" .string).allowExpression).withDefault (.string "$\x7bhost\x7d"),
    ((new "note" .string).notNullable).withDefault .undefined]

/-- A host whose operation `add` declares these attributes. -/
def hosting : Controller { Signature.bare with Handler := Unit } where
  registry := { globals := .ofList [("add", ⟨Resource.addSchema hostAttributes, ()⟩)] }
  handle := fun _ op => (Resource.create op).bind fun _ => .pure ()
  interlude := fun code => code.elim
  stepLimit := 10

/-- Both texts are kept as expressions, the attribute without a value is left out, and the request
    is accepted. -/
theorem validateAll_idempotent_hostAttributes :
    let params : Attributes := .ofList [("size", .int 5), ("label", .string "$\x7bx:y\x7d")]
    ∃ m, validateAll hostAttributes params = .ok m ∧
      m = .ofList [("host", .expression "$\x7bhost\x7d"), ("label", .expression "$\x7bx:y\x7d"),
        ("size", .int 5)] ∧
      validateAll hostAttributes m = .ok m ∧ checkRequest hostAttributes m = .ok () ∧
      ∃ entry, hosting.accept false { name := "add", address := .root, params } = .ok entry := by
  intro params
  have hvalue : (validateAll hostAttributes params).toOption = some (.ofList
      [("host", .expression "$\x7bhost\x7d"), ("label", .expression "$\x7bx:y\x7d"),
        ("size", .int 5)]) := by
    decide +kernel
  have hadd : hosting.registry.operation? .root "add" =
    some ⟨Resource.addSchema hostAttributes, ()⟩ := rfl
  cases hm : validateAll hostAttributes params with
  | error fault =>
    rw [hm] at hvalue
    cases hvalue
  | ok m =>
    rw [hm] at hvalue
    obtain ⟨hsame, -, hcheck, haccept⟩ := validateAll_idempotent (by decide) hm
    exact ⟨m, rfl, Option.some.inj hvalue, hsame, hcheck, _,
      haccept hosting hadd rfl nofun (.inl rfl)⟩

end

end AttributeSchema

end ManagedModel
