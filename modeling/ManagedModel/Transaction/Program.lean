import ManagedModel.Model.WorkingCopy
import ManagedModel.Process
import ManagedModel.Schema.Operation
import ManagedModel.Transaction.Rollback
import ManagedModel.Transaction.Agenda

/-! # Programs of step handlers

    What a step handler does is a program: a tree of calls, each going on with
    the answer to the call. A handler can act on its transaction through these
    calls only, so a law that holds for every program holds for every handler.

    * A call that can be refused answers with a fault or a result; a handler
      may go on after a refusal.
    * `View` is what a handler sees of its transaction.
    * `Program.bind` puts programs together, and `Program.attempt` goes on
      whether a program fails or not. -/

namespace ManagedModel

/-- What a handler can see of its transaction. -/
structure View (S : Signature) where
  id : Nat
  stage : Stage
  status : Status
  /-- Whether the transaction runs in boot mode. -/
  booting : Bool
  processKind : ProcessKind
  rollbackOnly : Bool
  /-- Whether the process has to be reloaded, for whatever transaction. -/
  reloadRequired : Bool
  /-- The model with the changes of the transaction so far. -/
  working : WorkingCopy
  attachments : Attachments S.slots
  /-- The schema that governs an address. -/
  schema? : Address → Option ResourceSchema

/-- A request to queue a step. -/
structure StepRequest (S : Signature) where
  stage : Stage
  handler : S.Handler
  /-- The operation the step runs with; without one it is that of the executing step. -/
  operation? : Option Operation := none
  queueEnd : QueueEnd := .back

/-- What a step handler does. -/
inductive Program (S : Signature) (α : Type) where
  | pure (a : α)
  | fail (fault : Fault)
  /-- Looks at the transaction. -/
  | observe (next : View S → Program S α)
  /-- Queues a step on behalf of the executing one. -/
  | queue (request : StepRequest S) (next : Except Fault Unit → Program S α)
  /-- Registers a rollback handler for the executing step. -/
  | onRollback (handler : Operation → RollbackProgram S Unit)
      (next : Except Fault Unit → Program S α)
  /-- Marks the transaction: no further step runs, and it rolls back. -/
  | markRollbackOnly (next : Program S α)
  /-- Asks for a reload of the process. -/
  | askReload (next : Program S α)
  /-- Withdraws the transaction's request for a reload. -/
  | withdrawReload (next : Program S α)
  /-- Changes the attachments; goes on with those before. -/
  | attach (change : Attachments S.slots → Attachments S.slots)
      (next : Attachments S.slots → Program S α)
  /-- Adds a resource without attributes to the model. -/
  | create (address : Address) (next : Except Fault Unit → Program S α)
  /-- Changes the attributes of a resource; goes on with those before. -/
  | edit (address : Address) (change : Attributes → Attributes)
      (next : Except Fault Attributes → Program S α)
  /-- Removes a resource; goes on with its attributes. -/
  | remove (address : Address) (next : Except Fault Attributes → Program S α)
  /-- Sets the result of the submitted operation that the executing step stems from. -/
  | setResult (value : Value) (next : Program S α)
  /-- Changes what lies outside the controller; goes on with its state before. -/
  | environment (change : S.Environment → S.Environment) (next : S.Environment → Program S α)
  /-- Lets something happen on the controller while the transaction is in flight. -/
  | interlude (code : S.Interlude) (next : Program S α)

namespace Program

variable {S : Signature} {α β γ : Type}

/-! ### Combining programs -/

/-- Goes on with the result of a program. -/
def bind : Program S α → (α → Program S β) → Program S β
  | pure a, f => f a
  | fail fault, _ => fail fault
  | observe next, f => observe fun v => (next v).bind f
  | queue request next, f => queue request fun r => (next r).bind f
  | onRollback handler next, f => onRollback handler fun r => (next r).bind f
  | markRollbackOnly next, f => markRollbackOnly (next.bind f)
  | askReload next, f => askReload (next.bind f)
  | withdrawReload next, f => withdrawReload (next.bind f)
  | attach change next, f => attach change fun a => (next a).bind f
  | create address next, f => create address fun r => (next r).bind f
  | edit address change next, f => edit address change fun r => (next r).bind f
  | remove address next, f => remove address fun r => (next r).bind f
  | setResult value next, f => setResult value (next.bind f)
  | environment change next, f => environment change fun e => (next e).bind f
  | interlude code next, f => interlude code (next.bind f)

/-- Goes on with the outcome of a program, whether it fails or not. -/
def attempt : Program S α → Program S (Except Fault α)
  | pure a => pure (.ok a)
  | fail fault => pure (.error fault)
  | observe next => observe fun v => (next v).attempt
  | queue request next => queue request fun r => (next r).attempt
  | onRollback handler next => onRollback handler fun r => (next r).attempt
  | markRollbackOnly next => markRollbackOnly next.attempt
  | askReload next => askReload next.attempt
  | withdrawReload next => withdrawReload next.attempt
  | attach change next => attach change fun a => (next a).attempt
  | create address next => create address fun r => (next r).attempt
  | edit address change next => edit address change fun r => (next r).attempt
  | remove address next => remove address fun r => (next r).attempt
  | setResult value next => setResult value next.attempt
  | environment change next => environment change fun e => (next e).attempt
  | interlude code next => interlude code next.attempt

instance : Monad (Program S) where
  pure := Program.pure
  bind := Program.bind

/-- The program with a given outcome. -/
def ofExcept : Except Fault α → Program S α
  | .ok a => pure a
  | .error fault => fail fault

/-! ### Calls -/

/-- What the handler can see. -/
def view : Program S (View S) := observe pure

/-- Queues a step; fails if that is refused. -/
def addStep (request : StepRequest S) : Program S Unit := queue request ofExcept

/-- Registers a rollback handler; fails if that is refused. -/
def addRollback (handler : Operation → RollbackProgram S Unit) : Program S Unit :=
  onRollback handler ofExcept

/-- The attachments. -/
def attachments : Program S (Attachments S.slots) := observe fun v => pure v.attachments

/-- An operation on the attachments that gives a result. -/
def withAttachments (f : Attachments S.slots → α × Attachments S.slots) : Program S α :=
  attach (fun a => (f a).2) fun a => pure (f a).1

/-- Adds a resource; fails if that is refused. -/
def createAt (address : Address) : Program S Unit := create address ofExcept

/-- Changes a resource and gives its attributes before; fails if that is refused. -/
def editAt (address : Address) (change : Attributes → Attributes) : Program S Attributes :=
  edit address change ofExcept

/-- Removes a resource and gives its attributes; fails if that is refused. -/
def removeAt (address : Address) : Program S Attributes := remove address ofExcept

/-- The attributes of a resource; fails if it is not there. -/
def readAt (address : Address) : Program S Attributes :=
  observe fun v => ofExcept (v.working.tree.require address)

/-- The schema that governs an address; fails if there is none. -/
def schema (address : Address) : Program S ResourceSchema :=
  observe fun v =>
    match v.schema? address with
    | some d => pure d
    | none => fail (.validation (.noSchema address))

/-- The state of what lies outside the controller. -/
def readEnvironment : Program S S.Environment := environment id pure

/-- Changes what lies outside the controller. -/
def changeEnvironment (change : S.Environment → S.Environment) : Program S Unit :=
  environment change fun _ => pure ()

/-- Sets the result of the submitted operation. -/
def result (value : Value) : Program S Unit := setResult value (pure ())

end Program

end ManagedModel
