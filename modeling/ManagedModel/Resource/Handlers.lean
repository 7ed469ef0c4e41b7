import ManagedModel.Registry
import ManagedModel.Resource.Read

/-! # Resource operations

    The operations that every model offers, each with its schema and the
    handler that carries it out. Reading, writing and removing are offered for
    every address; adding is registered with each resource type, because its
    parameters are the attributes of the type. -/

namespace ManagedModel

namespace Resource

variable {S : Signature} {H : Type}

/-! ### Schemas -/

/-- The schema of `add` for a resource type with the given attributes. -/
def addSchema (attributes : List AttributeSchema) : OperationSchema :=
  { name := "add", parameters := attributes }

/-- The schema of `remove`. -/
def removeSchema : OperationSchema := { name := "remove" }

/-- The schema of `write-attribute`. -/
def writeAttributeSchema : OperationSchema :=
  { name := "write-attribute"
    parameters := [(AttributeSchema.new nameParameter .string).required,
      .new valueParameter .string] }

/-- The schema of `read-attribute`. -/
def readAttributeSchema : OperationSchema :=
  { name := "read-attribute"
    parameters := [(AttributeSchema.new nameParameter .string).required]
    isReadOnly := true }

/-- The schema of `read-resource`. -/
def readResourceSchema : OperationSchema :=
  { name := "read-resource"
    parameters := [(AttributeSchema.new recursiveParameter .bool).withDefault (.bool false),
      (AttributeSchema.new includeDefaultsParameter .bool).withDefault (.bool true)]
    isReadOnly := true
    reply? := some .object }

/-- The schema of `read-children-names`. -/
def readChildrenNamesSchema : OperationSchema :=
  { name := "read-children-names"
    parameters := [(AttributeSchema.new childTypeParameter .string).required]
    isReadOnly := true
    reply? := some .list
    replyItem? := some .string }

end Resource

/-- The handlers of the resource operations. -/
inductive ResourceHandler where
  | add
  | remove
  | writeAttribute
  | readAttribute
  | readResource
  | readChildrenNames
deriving DecidableEq

namespace ResourceHandler

variable {S : Signature} {H : Type}

/-- What a handler does. -/
def program (h : ResourceHandler) (op : Operation) : Program S Unit :=
  match h with
  | add => do
    let _ ← Resource.create op
    return ()
  | remove => do
    let _ ← Resource.discard op
    return ()
  | writeAttribute => do
    let _ ← Resource.write op
    return ()
  | readAttribute => do Program.result (← Resource.readAttribute op)
  | readResource => do Program.result (← Resource.readAll op)
  | readChildrenNames => do Program.result (← Resource.readChildrenNames op)

/-- Adds the operations that are offered for every address. -/
def registerGlobals (code : ResourceHandler → H) (r : Registry H) :
    Except RegistryFault (Registry H) := do
  let r ← r.addGlobal Resource.readResourceSchema (code readResource)
  let r ← r.addGlobal Resource.readAttributeSchema (code readAttribute)
  let r ← r.addGlobal Resource.readChildrenNamesSchema (code readChildrenNames)
  let r ← r.addGlobal Resource.writeAttributeSchema (code writeAttribute)
  r.addGlobal Resource.removeSchema (code remove)

end ResourceHandler

end ManagedModel
