import ManagedModel.Schema.Operation

/-! # Registries

    A registry knows the resource types of a model and which handler carries
    out which operation. It is built by adding global operations and resource
    types to an empty one; an addition that breaks a rule is refused and leaves
    the registry as it was.

    * Rules: patterns of resource types, attributes of one type, and operations
      of one type or of the globals have distinct names, and the engine of
      every match pattern can compile it.
    * Lookup: of the resource types whose pattern an address falls under, the
      one with the fewest wildcards governs it, and of several such the one
      added first. Its own operations come before the global ones. -/

namespace ManagedModel

/-- An operation that can be carried out. -/
structure RegisteredOperation (H : Type) where
  schema : OperationSchema
  handler : H

/-- A resource type with its own operations. -/
structure ResourceType (H : Type) where
  schema : ResourceSchema
  operations : SortedMap String (RegisteredOperation H) := ∅

/-- The resource types and operations of a model. -/
structure Registry (H : Type) where
  /-- The resource types in the order they were added. -/
  resources : List (ResourceType H) := []
  /-- Operations for addresses whose type has none of the name. -/
  globals : SortedMap String (RegisteredOperation H) := ∅

/-- Why an addition to a registry is refused. -/
inductive RegistryFault where
  | duplicateResource (pattern : Address)
  /-- An operation is there already, of the type with this pattern or else global. -/
  | duplicateOperation (pattern? : Option Address) (name : String)
  | duplicateAttribute (pattern : Address) (name : String)
  | invalidPattern (name : String) (refusal : PatternRefusal)
deriving DecidableEq

namespace RegistryFault

/-- The wording of a fault. -/
def message : RegistryFault → String
  | duplicateResource p => "Duplicate resource registration: " ++ p.text
  | duplicateOperation p name =>
    "Duplicate operation " ++ name ++ " at " ++ (p.map Address.text).getD "*"
  | duplicateAttribute p name => "Duplicate attribute " ++ name ++ " at " ++ p.text
  | invalidPattern name refusal =>
    "Invalid match pattern for " ++ name ++ ": " ++ refusal.message

end RegistryFault

namespace Registry

variable {H : Type}

/-! ### Building -/

/-- The first name that a list has twice, going by its second occurrence. -/
def repeated? : (seen : List String) → List String → Option String
  | _, [] => none
  | seen, name :: names =>
    if seen.contains name then some name else repeated? (name :: seen) names

/-- Every match pattern is well formed, as its engine finds. -/
def checkPatterns : List AttributeSchema → Except RegistryFault Unit
  | [] => .ok ()
  | d :: defs =>
    match d.pattern? with
    | none => checkPatterns defs
    | some source =>
      match d.engine.compile source with
      | .ok _ => checkPatterns defs
      | .error refusal => .error (.invalidPattern d.name refusal)

/-- Adds operations to a table, one after the other; each needs a name of its own. -/
def addOperations (pattern? : Option Address) :
    SortedMap String (RegisteredOperation H) → List (OperationSchema × H) →
      Except RegistryFault (SortedMap String (RegisteredOperation H))
  | table, [] => .ok table
  | table, (schema, handler) :: rest =>
    if table.contains schema.name then
      .error (.duplicateOperation pattern? schema.name)
    else do
      checkPatterns schema.parameters
      addOperations pattern? (table.insert schema.name ⟨schema, handler⟩) rest

/-- Adds an operation for every address. -/
def addGlobal (r : Registry H) (schema : OperationSchema) (handler : H) :
    Except RegistryFault (Registry H) := do
  let globals ← addOperations none r.globals [(schema, handler)]
  return { r with globals }

/-- Adds a resource type. -/
def addResource (r : Registry H) (pattern : Address) (attributes : List AttributeSchema)
    (operations : List (OperationSchema × H)) : Except RegistryFault (Registry H) := do
  if r.resources.any (·.schema.pattern = pattern) then throw (.duplicateResource pattern)
  if let some name := repeated? [] (attributes.map (·.name)) then
    throw (.duplicateAttribute pattern name)
  checkPatterns attributes
  let operations ← addOperations (some pattern) ∅ operations
  let type : ResourceType H := { schema := { pattern, attributes }, operations }
  return { r with resources := r.resources ++ [type] }

/-! ### Lookup -/

/-- The first of the resource types with the fewest wildcards in their patterns. -/
def mostSpecific? : List (ResourceType H) → Option (ResourceType H)
  | [] => none
  | t :: ts =>
    match mostSpecific? ts with
    | none => some t
    | some u =>
      if u.schema.pattern.wildcardCount < t.schema.pattern.wildcardCount then some u
      else some t

/-- The resource type that governs an address. -/
def resourceType? (r : Registry H) (address : Address) : Option (ResourceType H) :=
  mostSpecific? (r.resources.filter fun t => address.isMatchedBy t.schema.pattern)

/-- The schema that governs an address. -/
def resource? (r : Registry H) (address : Address) : Option ResourceSchema :=
  (r.resourceType? address).map (·.schema)

/-- What carries out an operation at an address. -/
def operation? (r : Registry H) (address : Address) (name : String) :
    Option (RegisteredOperation H) :=
  ((r.resourceType? address).bind fun t => t.operations.get? name) <|> r.globals.get? name

/-- The names of the operations available at an address, ascending. -/
def operationNames (r : Registry H) (address : Address) : List String :=
  let own := ((r.resourceType? address).map fun t => t.operations.keys).getD []
  (SortedSet.ofList (r.globals.keys ++ own)).toList

end Registry

end ManagedModel
