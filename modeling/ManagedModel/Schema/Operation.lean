import ManagedModel.Address
import ManagedModel.Schema.Attribute

/-! # Schemas of operations and resources

    An operation declares its parameters and what it may do; a resource type
    declares its attributes for all addresses under its pattern. -/

namespace ManagedModel

/-- Marks an operation as deprecated. -/
structure Deprecation where
  since : String
  note? : Option String := none
deriving DecidableEq

/-- The schema of an operation. -/
structure OperationSchema where
  name : String
  /-- The declared parameters; no others are accepted. -/
  parameters : List AttributeSchema := []
  /-- The operation leaves the model alone and takes no locks. -/
  isReadOnly : Bool := false
  /-- Its effect needs a restart of the process. -/
  needsRestart : Bool := false
  /-- It may only run while booting. -/
  isBootOnly : Bool := false
  /-- The type of the result, if there is one. -/
  reply? : Option ValueType := none
  /-- The type of the members of the result. -/
  replyItem? : Option ValueType := none
  deprecation? : Option Deprecation := none

namespace OperationSchema

/-- The first parameter with a name. -/
def parameter? (d : OperationSchema) (name : String) : Option AttributeSchema :=
  AttributeSchema.find? d.parameters name

/-- The names of the flags that are set, in alphabetical order. -/
def flagNames (d : OperationSchema) : List String :=
  (if d.isBootOnly then ["boot-only"] else []) ++
    (if d.isReadOnly then ["read-only"] else []) ++
    (if d.needsRestart then ["restart-required"] else [])

end OperationSchema

/-- The schema of a resource type. -/
structure ResourceSchema where
  /-- The addresses that the schema governs. -/
  pattern : Address
  attributes : List AttributeSchema := []

namespace ResourceSchema

/-- The attribute with a name. -/
def attribute? (d : ResourceSchema) (name : String) : Option AttributeSchema :=
  AttributeSchema.find? d.attributes name

end ResourceSchema

end ManagedModel
