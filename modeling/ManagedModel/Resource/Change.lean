import ManagedModel.Schema.Validation
import ManagedModel.Transaction.Program

/-! # Changing resources

    The changes to the model that the resource operations make, as programs
    for step handlers. Each is guided by the schema that governs the address.

    * `Resource.create` adds a resource, then fits the parameters of the
      operation to its schema and stores the outcome.
    * `Resource.write` fits one value to one attribute and stores it, or drops
      the attribute where the outcome is undefined.
    * `Resource.discard` removes a resource. -/

namespace ManagedModel

namespace Resource

variable {S : Signature}

/-! ### Names of parameters -/

/-- The parameter that names an attribute. -/
def nameParameter : String := "name"

/-- The parameter with the value to write. -/
def valueParameter : String := "value"

/-! ### Programs -/

/-- Adds the resource at the operation's address; gives the attributes stored. -/
def create (op : Operation) : Program S Attributes := do
  let schema ← Program.schema op.address
  Program.createAt op.address
  let attributes ←
    Program.ofExcept (AttributeSchema.validateAll schema.attributes op.params)
  let _ ← Program.editAt op.address fun _ => attributes
  return attributes

/-- The attribute that an operation names. -/
def namedAttribute (op : Operation) : Except Fault String :=
  match (op.param? nameParameter).bind Value.asString with
  | some name => .ok name
  | none => .error (.validation (.missingParameter nameParameter))

/-- A change of one attribute. -/
structure AttributeUpdate where
  name : String
  /-- The value before; undefined if there was none. -/
  old : Value
  /-- The value after; undefined if there is none. -/
  new : Value

/-- The attributes with one of them set, or dropped if the value is undefined. -/
def withAttribute (name : String) (value : Value) (attributes : Attributes) : Attributes :=
  if value.isDefined then attributes.insert name value else attributes.erase name

/-- The schema of an attribute of the resource type that governs the address. -/
def attributeSchema (address : Address) (name : String) :
    Program S AttributeSchema := do
  let schema ← Program.schema address
  match schema.attribute? name with
  | some d => return d
  | none => Program.fail (.validation (.unknownAttribute name address))

/-- Writes the attribute that the operation names. -/
def write (op : Operation) : Program S AttributeUpdate := do
  let name ← Program.ofExcept (namedAttribute op)
  let d ← attributeSchema op.address name
  let new ← Program.ofExcept (d.validate (op.param? valueParameter))
  let before ← Program.editAt op.address (withAttribute name new)
  return { name, old := (before.get? name).getD .undefined, new }

/-- Removes the resource at the operation's address; gives its attributes. -/
def discard (op : Operation) : Program S Attributes := Program.removeAt op.address

end Resource

end ManagedModel
