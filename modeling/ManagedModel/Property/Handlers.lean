import ManagedModel.Controller
import ManagedModel.Property.Deferral

/-! # System properties

    The resource `system-property=<name>`: its value is kept in the model and
    also applied to the live properties of the process.

    * The MODEL step of an operation changes the model and decides how the
      change reaches the process: at once where the updater allows it, else by
      a reload where the process is a server, else not at all.
    * The RUNTIME step carries that out. Before the live value is changed, a
      rollback handler is registered that restores it. A value that does not
      resolve yet is deferred; a value that is applied gives the parked ones
      another chance. -/

namespace ManagedModel

/-- How a change of a property reaches the running process. -/
def PropertyConfig.effectFor (cfg : PropertyConfig) (processKind : ProcessKind) (name : String)
    (booting : Bool) : LiveEffect :=
  if cfg.allows name booting then .apply
  else if processKind.isServer then .reload
  else .none

namespace Property

variable {X : Signature} {H : Type}

/-! ### The resource type -/

/-- The key of the addresses of system properties. -/
def resourceKey : String := "system-property"

/-- The attribute that tells whether a property is set at boot time. -/
def bootTimeAttribute : String := "boot-time"

/-- The attributes of a system property. -/
def attributes (useBootTime : Bool) : List AttributeSchema :=
  (AttributeSchema.new propertyValueAttribute .string).allowExpression ::
    (if useBootTime then
      [(AttributeSchema.new bootTimeAttribute .bool).withDefault (.bool true)]
     else [])

/-- The pattern of the addresses of system properties. -/
def addressPattern : Address := ⟨[.wildcard resourceKey]⟩

/-- The address of a system property. -/
def address (name : String) : Address := ⟨[⟨resourceKey, name⟩]⟩

/-- The request to add a property. -/
def addRequest (name : String) (value? : Option String) (bootTime? : Option Bool) : Operation :=
  let op : Operation := { name := "add", address := address name }
  let op := value?.elim op fun v => op.withParam propertyValueAttribute (.string v)
  bootTime?.elim op fun b => op.withParam bootTimeAttribute (.bool b)

/-- The request to remove a property. -/
def removeRequest (name : String) : Operation := { name := "remove", address := address name }

/-- The request to write the value of a property. -/
def writeRequest (name : String) (value? : Option String) : Operation :=
  let op : Operation := { name := "write-attribute", address := address name }
  let op := op.withParam Resource.nameParameter (.string propertyValueAttribute)
  value?.elim op fun v => op.withParam Resource.valueParameter (.string v)

/-- The name of the property that an operation is about. -/
def nameOf (op : Operation) : Except Fault String :=
  match op.address.last? with
  | some element => .ok element.value
  | none => .error (.validation .noPropertyName)

/-! ### RUNTIME -/

/-- Registers the rollback handler that restores the live value of a property. -/
def restoreOnRollback (cfg : PropertyConfig) (name : String) : Program X.withProperties Unit := do
  let live ← readLive
  let prior? := live.get? name
  Program.addRollback fun _ =>
    .environment
      (fun e =>
        if e.live.get? name = prior? then e
        else { e with live := cfg.apply name prior? e.live })
      fun _ => .pure ()

/-- Brings the live value of a property in line with the attributes of its resource. -/
def update (cfg : PropertyConfig) (name : String) (model : Attributes) :
    LiveEffect → Program X.withProperties Unit
  | .apply => do
    restoreOnRollback cfg name
    let _ ← forgetParked name
    let live ← readLive
    match intendedValue live model with
    | .ok value? => do
      setLive cfg name value?
      let _ ← retryParked cfg
      return ()
    | .error fault => defer name model fault
  | .reload => do
    Program.askReload (.pure ())
    Program.addRollback fun _ => .withdrawReload (.pure ())
  | .none => return ()

/-! ### MODEL -/

/-- Queues the RUNTIME step for a change of a property's resource. -/
def queueUpdate (cfg : PropertyConfig) (name : String) (model : Attributes) :
    Program X.withProperties Unit := do
  let v ← Program.view
  let action := cfg.effectFor v.processKind name v.booting
  Program.addStep { stage := .runtime, handler := .property (.update name model action) }

/-- Adds a property. -/
def add (cfg : PropertyConfig) (op : Operation) : Program X.withProperties Unit := do
  let model ← Resource.create op
  let name ← Program.ofExcept (nameOf op)
  queueUpdate cfg name model

/-- Removes a property. -/
def remove (cfg : PropertyConfig) (op : Operation) : Program X.withProperties Unit := do
  let _ ← Resource.discard op
  let name ← Program.ofExcept (nameOf op)
  queueUpdate cfg name ∅

/-- Writes an attribute of a property. Only a change of its value concerns the process. -/
def writeAttribute (cfg : PropertyConfig) (op : Operation) : Program X.withProperties Unit := do
  let change ← Resource.write op
  if change.name = propertyValueAttribute ∧ change.old ≠ change.new then do
    let name ← Program.ofExcept (nameOf op)
    let model ← Program.readAt op.address
    queueUpdate cfg name model

end Property

namespace PropertyHandler

variable {X : Signature} {H : Type}

/-- What a handler does. -/
def program (cfg : PropertyConfig) (h : PropertyHandler) (op : Operation) :
    Program X.withProperties Unit :=
  match h with
  | add => Property.add cfg op
  | remove => Property.remove cfg op
  | writeAttribute => Property.writeAttribute cfg op
  | update name model action => Property.update cfg name model action
  | verify name => Property.verify name
  | applyParked => Property.applyParked cfg

/-- Adds the resource type of system properties. -/
def register (code : PropertyHandler → H) (cfg : PropertyConfig) (r : Registry H) :
    Except RegistryFault (Registry H) :=
  let attributes := Property.attributes cfg.useBootTime
  r.addResource Property.addressPattern attributes
    [(Resource.addSchema attributes, code add),
     (Resource.removeSchema, code remove),
     (Resource.writeAttributeSchema, code writeAttribute)]

end PropertyHandler

/-! ### Controllers with system properties -/

namespace ModelHandler

variable {X : Signature}

/-- What a handler does, given what the custom ones do. -/
def program (cfg : PropertyConfig)
    (other : X.Handler → Operation → Program X.withProperties Unit) :
    ModelHandler X.Handler → Operation → Program X.withProperties Unit
  | resource h, op => h.program op
  | property h, op => h.program cfg op
  | custom code, op => other code op

end ModelHandler

end ManagedModel
