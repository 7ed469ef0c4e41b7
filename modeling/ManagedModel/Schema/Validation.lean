import ManagedModel.Expression
import ManagedModel.Schema.Attribute

/-! # Validation

    Fits values to attribute schemas.

    * A value that is absent or undefined gives way to the default; without
      one it stays undefined where the schema allows that.
    * Literal text with a reference becomes an expression where expressions
      are accepted. Constraints apply to literals only, in the order range,
      allowed values, length, pattern; an expression is checked for its type
      alone. What a pattern means is left to the engine of the schema.
    * `validateAll` gives the attributes to store: one entry for each
      schema whose value is defined.
    * `checkRequest` is the weaker check made before a transaction starts. -/

namespace ManagedModel

namespace AttributeSchema

/-! ### Constraints on literals -/

/-- A number lies within the bounds. -/
def checkRange (d : AttributeSchema) (v : Value) : Except Fault Unit :=
  match v.asInt with
  | none => .ok ()
  | some n =>
    if d.min?.any (n < ·) || d.max?.any (· < n) then
      .error (.validation (.outOfRange d.name n d.min? d.max?))
    else .ok ()

/-- The value is among the allowed ones. -/
def checkAllowed (d : AttributeSchema) (v : Value) : Except Fault Unit :=
  match d.allowed? with
  | none => .ok ()
  | some values => if v ∈ values then .ok () else .error (.validation (.notAllowed d.name v))

/-- A text is neither too short nor too long, in characters. -/
def checkLength (d : AttributeSchema) (v : Value) : Except Fault Unit :=
  match v.asString with
  | none => .ok ()
  | some s =>
    if d.minLength?.any (s.length < ·) || d.maxLength?.any (· < s.length) then
      .error (.validation (.lengthOutOfBounds d.name s.length))
    else .ok ()

/-- A text has a part that matches the pattern. -/
def checkPattern (d : AttributeSchema) (v : Value) : Except Fault Unit :=
  match d.pattern?, v.asString with
  | some source, some s =>
    match d.engine.compile source with
    | .error refusal => .error (.internal (.invalidPattern d.name refusal.message))
    | .ok isMatch =>
      if isMatch s then .ok () else .error (.validation (.patternMismatch d.name source))
  | _, _ => .ok ()

/-- All constraints on a literal, in order. -/
def checkLiteral (d : AttributeSchema) (v : Value) : Except Fault Unit := do
  d.checkRange v
  d.checkAllowed v
  d.checkLength v
  d.checkPattern v

/-! ### Attributes -/

/-- Text with a reference becomes an expression, where the schema accepts one. -/
def normalize (d : AttributeSchema) (v : Value) : Except Fault Value :=
  match v with
  | .string s =>
    if d.allowsExpression && Expression.opensReference s.toList then .ok (.expression s)
    else .ok v
  | .expression _ =>
    if d.allowsExpression then .ok v else .error (.validation (.expressionNotAllowed d.name))
  | _ => .ok v

/-- Whether a value of the given type may stand where `expected` is declared. What has no type
    fits everywhere. -/
def typeFits (expected : ValueType) (actual? : Option ValueType) : Bool :=
  actual?.all (· = expected)

/-- The value to validate: the one given, or else the default; `none` stays undefined. -/
def supplied (d : AttributeSchema) (v? : Option Value) : Except Fault (Option Value) :=
  match v?.filter Value.isDefined with
  | some v => .ok (some v)
  | none =>
    match d.default? with
    | some v => .ok (some v)
    | none =>
      if d.isRequired then .error (.validation (.missingAttribute d.name))
      else if !d.isNullable then .error (.validation (.undefinedAttribute d.name))
      else .ok none

/-- The value to store for an attribute. -/
def validate (d : AttributeSchema) (v? : Option Value) : Except Fault Value := do
  match ← d.supplied v? with
  | none => return .undefined
  | some v => do
    let v ← d.normalize v
    if typeFits d.type v.type? then
      if v.isExpression then return v
      else do
        d.checkLiteral v
        return v
    else throw (.validation (.wrongType d.name d.type v.shapeName))

/-! ### Parameter maps -/

/-- Every parameter is declared; the first name that is not, in order, is reported. -/
def checkUnknown (defs : List AttributeSchema) (params : Attributes) : Except Fault Unit :=
  match params.keys.find? fun name => !defs.any (·.name == name) with
  | some name => .error (.validation (.unknownParameter name))
  | none => .ok ()

/-- The validated values in the order of the schemas, added to what is there. -/
def validateInto (params : Attributes) :
    List AttributeSchema → Attributes → Except Fault Attributes
  | [], validated => .ok validated
  | d :: defs, validated => do
    let v ← d.validate (params.get? d.name)
    validateInto params defs (if v.isDefined then validated.insert d.name v else validated)

/-- The attributes to store for a resource. -/
def validateAll (defs : List AttributeSchema) (params : Attributes) :
    Except Fault Attributes := do
  checkUnknown defs params
  validateInto params defs ∅

/-- Whether the schema asks for a parameter that the request does not supply. -/
def isMissing (d : AttributeSchema) (params : Attributes) : Bool :=
  d.isRequired && d.default?.isNone && !(params.get? d.name).any Value.isDefined

/-- Every parameter is declared and every required one supplied. -/
def checkRequest (defs : List AttributeSchema) (params : Attributes) : Except Fault Unit := do
  checkUnknown defs params
  match defs.find? (·.isMissing params) with
  | some d => throw (.validation (.missingParameter d.name))
  | none => return ()

end AttributeSchema

end ManagedModel
