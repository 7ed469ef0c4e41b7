import ManagedModel.Model.Edit
import ManagedModel.Property.Handlers
import ManagedModel.Transaction.SlotCall

/-! # Scripts

    A script is a step handler written down as a list of actions. It can do
    what a handler can do, and it keeps a log of what it sees, so that the
    course of a transaction can be followed from outside.

    * `Action` and `RollbackAction` are the actions of step handlers and of
      rollback handlers.
    * `LogEntry` is what they write into the log.
    * `Signature.scripted` is the signature of controllers that run scripts:
      the log lies outside the controller, and an interlude submits further
      operations while the script's own transaction is in flight. -/

namespace ManagedModel

/-! ### Actions -/

/-- An action of a rollback handler. -/
inductive RollbackAction where
  | log (text : String)
  /-- Logs what the handler can see. -/
  | probe
  | withdrawReload
  /-- Changes a live property. -/
  | setProperty (name : String) (value? : Option String)
  /-- Ends the handler. -/
  | fail (fault : Fault)

/-- A call on a plain slot. -/
structure PlainSlotCall where
  name : String
  type : PlainType
  call : SlotCall type.Carrier

/-- An action of a step handler. Without an address of its own, an action is about the address
    of the operation that the step runs with. -/
inductive Action where
  | log (text : String)
  /-- Logs what the handler can see. -/
  | probe
  /-- Logs the text of the transaction. -/
  | describe
  /-- Ends the handler. -/
  | fail (fault : Fault)
  /-- Runs actions and logs the fault that ended them, if one did. -/
  | attempt (body : List Action)
  | markRollbackOnly
  | askReload
  | withdrawReload
  | setResult (value : Value)
  /-- Queues a step. -/
  | addStep (stage : Stage) (handler : ModelHandler (List Action)) (operation? : Option Operation)
      (queueEnd : QueueEnd)
  /-- Registers a rollback handler. -/
  | onRollback (body : List RollbackAction)
  | create (address? : Option Address) (changes : Edit)
  | edit (address? : Option Address) (changes : Edit)
  | remove (address? : Option Address)
  | read (address? : Option Address)
  | has (address? : Option Address)
  | children (address? : Option Address)
  | schema (address? : Option Address)
  /-- Carries out the model change of `add`. -/
  | createResource (operation? : Option Operation)
  /-- Carries out the model change of `write-attribute`. -/
  | writeResource (operation? : Option Operation)
  /-- Carries out the model change of `remove`. -/
  | discardResource (operation? : Option Operation)
  | slot (call : PlainSlotCall)
  /-- Changes a live property. -/
  | setProperty (name : String) (value? : Option String)
  /-- Parks a value. -/
  | defer (name : String) (model : Attributes) (fault : Fault)
  | retryParked
  | forgetParked (name : String)
  | applyParked
  /-- Logs the parked values. -/
  | showParked
  /-- Submits operations while the transaction is in flight; unless `unlocked`, only where no
      lock is in the way. -/
  | nested (operations : List Operation) (unlocked : Bool)

/-- A step handler as a list of actions. -/
abbrev Script := List Action

/-! ### The log -/

/-- What a step handler sees. -/
structure Probe where
  id : Nat
  stage : Stage
  status : Status
  booting : Bool
  processKind : ProcessKind
  rollbackOnly : Bool
  reloadRequired : Bool
  operation : Operation
  touched : List Address
  properties : SortedMap String String

/-- What a rollback handler sees. -/
structure RollbackProbe where
  cause : Fault
  reloadRequired : Bool
  operation : Operation
  /-- The text in the slot `note`. -/
  note? : Option String

/-- An entry of the log. -/
inductive LogEntry where
  | text (text : String)
  | probe (p : Probe)
  | rollbackProbe (p : RollbackProbe)
  /-- How an attempt ended. -/
  | caught (fault? : Option Fault)
  /-- What attributes held before they were changed. -/
  | previous (values : List (Option Value))
  | attributes (attributes : Attributes)
  | present (b : Bool)
  | addresses (addresses : List Address)
  | names (names : List String)
  | change (change : Resource.AttributeUpdate)
  | slot (value? : Option Value)
  | retried (count : Nat)
  | forgot (value? : Option ParkedValue)
  | parked (values? : Option ParkedValues)
  /-- The outcome of nested operations, and the committed model after them. -/
  | nested (outcome : Outcome) (model : Tree)
  /-- Nested operations were not submitted, because a lock was in the way. -/
  | blocked
  /-- Nested operations did not come to an end. -/
  | stalled (stall : Stall)

/-! ### The signature -/

/-- Operations to submit in an interlude. -/
structure NestedSubmission where
  operations : List Operation
  unlocked : Bool

/-- The signature of scripts alone. -/
@[reducible] def Signature.scripts : Signature where
  Handler := Script
  Environment := List LogEntry
  Interlude := NestedSubmission
  slots := .plain

/-- The signature of models with system properties and scripts. -/
@[reducible] def Signature.scripted : Signature := Signature.scripts.withProperties

end ManagedModel
