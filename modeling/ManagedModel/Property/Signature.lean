import ManagedModel.Property.Parked
import ManagedModel.Resource.Handlers

/-! # Models with system properties

    Extends a signature by what system properties need: handlers for the
    resource operations and for properties beside the handlers that were there,
    the live properties in the environment, and an attachment for parked
    values. -/

namespace ManagedModel

/-- How a change of the model reaches the running process. -/
inductive LiveEffect where
  /-- The live value is changed at once. -/
  | apply
  /-- The process has to be reloaded. -/
  | reload
  /-- The model alone changes. -/
  | none
deriving DecidableEq

/-- The handlers of system properties. -/
inductive PropertyHandler where
  | add
  | remove
  | writeAttribute
  /-- Brings the live value of a property in line with the attributes of its resource. -/
  | update (name : String) (model : Attributes) (action : LiveEffect)
  /-- Fails if the value of a property is still parked. -/
  | verify (name : String)
  /-- Applies all parked values. -/
  | applyParked

/-- The handlers of a model with system properties, and others. -/
inductive ModelHandler (C : Type) where
  | resource (h : ResourceHandler)
  | property (h : PropertyHandler)
  | custom (code : C)

/-- What lies outside the controller of a model with system properties. -/
structure ModelEnvironment (E : Type) where
  live : LiveProperties := {}
  other : E

/-- The attachment types with one more, for parked values. -/
@[reducible] def SlotTypes.withParked (T : SlotTypes) : SlotTypes where
  Code := Option T.Code
  Carrier
    | none => ParkedValues
    | some code => T.Carrier code

/-- The signature of a model with system properties, on top of another one. -/
@[reducible] def Signature.withProperties (X : Signature) : Signature where
  Handler := ModelHandler X.Handler
  Environment := ModelEnvironment X.Environment
  Interlude := X.Interlude
  slots := X.slots.withParked

end ManagedModel
