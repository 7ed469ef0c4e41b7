import ManagedModel.Pattern.Engine
import ManagedModel.Value

/-! # Attribute schemas

    What an attribute of a resource, or a parameter of an operation, may hold.
    A schema starts out optional, nullable and unconstrained; the builder
    functions narrow it. `required` also makes the attribute non-nullable, and
    ranges merge, so a bound that is not given leaves the earlier one. The
    engine for the match pattern is part of the schema; it is the standard one
    unless another is given. -/

namespace ManagedModel

/-- The schema of an attribute. -/
structure AttributeSchema where
  name : String
  type : ValueType
  /-- A value must be given, or come from the default. -/
  isRequired : Bool := false
  /-- The attribute may be left undefined. -/
  isNullable : Bool := true
  /-- Text with references is accepted and kept as an expression. -/
  allowsExpression : Bool := false
  /-- The value in place of one that is absent or undefined. -/
  default? : Option Value := none
  min? : Option Int64 := none
  max? : Option Int64 := none
  /-- A match pattern that literal text must contain. -/
  pattern? : Option String := none
  /-- The engine that gives the match pattern its meaning. -/
  engine : PatternEngine := .standard
  /-- The only literal values accepted. -/
  allowed? : Option (List Value) := none
  minLength? : Option Nat := none
  maxLength? : Option Nat := none

namespace AttributeSchema

/-- An optional attribute without constraints. -/
def new (name : String) (type : ValueType) : AttributeSchema := { name, type }

/-- A value must be given. -/
def required (d : AttributeSchema) : AttributeSchema :=
  { d with isRequired := true, isNullable := false }

/-- A value must be there. -/
def notNullable (d : AttributeSchema) : AttributeSchema := { d with isNullable := false }

/-- References are accepted. -/
def allowExpression (d : AttributeSchema) : AttributeSchema :=
  { d with allowsExpression := true }

/-- Sets the value in place of one that is not given. -/
def withDefault (d : AttributeSchema) (v : Value) : AttributeSchema :=
  { d with default? := some v }

/-- Narrows a bound where one is given. -/
def withRange (d : AttributeSchema) (min? max? : Option Int64) : AttributeSchema :=
  { d with min? := min? <|> d.min?, max? := max? <|> d.max? }

/-- Sets the match pattern. -/
def withPattern (d : AttributeSchema) (pattern : String) : AttributeSchema :=
  { d with pattern? := some pattern }

/-- Sets the values accepted. -/
def withAllowed (d : AttributeSchema) (values : List Value) : AttributeSchema :=
  { d with allowed? := some values }

/-- Bounds the length of literal text, in characters. -/
def withLength (d : AttributeSchema) (min max : Nat) : AttributeSchema :=
  { d with minLength? := some min, maxLength? := some max }

/-- The first schema with a name. -/
def find? (defs : List AttributeSchema) (name : String) : Option AttributeSchema :=
  List.find? (fun d => d.name == name) defs

end AttributeSchema

end ManagedModel
