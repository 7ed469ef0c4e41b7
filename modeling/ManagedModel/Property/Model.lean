import ManagedModel.Property.Handlers

/-! # Putting a model together

    A description of a model with system properties: what its registry offers
    and what state it begins in. -/

namespace ManagedModel

/-- A resource type of a model. -/
structure ResourceSpec (H : Type) where
  pattern : Address
  attributes : List AttributeSchema := []
  /-- Whether resources can be added by the usual operation. -/
  offersAdd : Bool := true
  operations : List (OperationSchema × H) := []

/-- A model with system properties. -/
structure ModelSpec (C : Type) where
  /-- Whether the operations for every address are offered. -/
  offersGlobals : Bool := true
  /-- Whether system properties are a resource type of the model. -/
  offersProperties : Bool := true
  properties : PropertyConfig := {}
  globals : List (OperationSchema × ModelHandler C) := []
  resources : List (ResourceSpec (ModelHandler C)) := []
  booting : Bool := false
  /-- The live properties at the start. -/
  preset : SortedMap String String := ∅
  /-- The committed model at the start. -/
  tree : Tree := .initial

namespace ModelSpec

variable {C : Type}

/-- Adds operations for every address. -/
def addGlobals (r : Registry (ModelHandler C)) :
    List (OperationSchema × ModelHandler C) →
      Except RegistryFault (Registry (ModelHandler C))
  | [] => .ok r
  | (schema, handler) :: rest => do addGlobals (← r.addGlobal schema handler) rest

/-- Adds resource types. -/
def addResources (r : Registry (ModelHandler C)) :
    List (ResourceSpec (ModelHandler C)) → Except RegistryFault (Registry (ModelHandler C))
  | [] => .ok r
  | spec :: rest => do
    let add :=
      if spec.offersAdd then
        [(Resource.addSchema spec.attributes, ModelHandler.resource .add)]
      else []
    addResources (← r.addResource spec.pattern spec.attributes (add ++ spec.operations)) rest

/-- The registry of the model. -/
def registry (spec : ModelSpec C) : Except RegistryFault (Registry (ModelHandler C)) := do
  let r : Registry (ModelHandler C) := {}
  let r ← if spec.offersGlobals then ResourceHandler.registerGlobals .resource r else pure r
  let r ←
    if spec.offersProperties then PropertyHandler.register .property spec.properties r else pure r
  let r ← addGlobals r spec.globals
  addResources r spec.resources

/-- The state that the model's controller begins in. -/
def initialState {X : Signature} (spec : ModelSpec C) (environment : X.Environment) :
    ControllerState X.withProperties :=
  { store := { tree := spec.tree }
    booting := spec.booting
    environment := { live := { values := spec.preset }, other := environment } }

end ModelSpec

end ManagedModel
