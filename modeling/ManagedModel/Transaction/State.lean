import ManagedModel.Model.Locks
import ManagedModel.Model.Store
import ManagedModel.Registry
import ManagedModel.Transaction.Lifecycle
import ManagedModel.Transaction.Program

/-! # Transactions and controllers

    * `ControllerState` is what all transactions of a controller share: the
      committed model, the locks, the requests for a reload, and the state of
      what lies outside.
    * `Controller` is what stays fixed: the registry, and what the codes of
      handlers and interludes stand for.
    * `Transaction` is the state of one transaction, with a journal of what
      happened in it.
    * `InFlight` is a transaction together with the controller's state. -/

namespace ManagedModel

/-! ### The journal -/

/-- Something that happened in a transaction. A step is known by its ticket, which no other
    step of the transaction has. -/
inductive Event where
  /-- The status changed. -/
  | entered (status : Status)
  /-- A step was queued: its ticket, that of the executing step if there was one, and the
      place of the submitted operation it stems from. -/
  | queued (ticket : Nat) (parent? : Option Nat) (origin : Nat) (stage : Stage)
      (queueEnd : QueueEnd)
  /-- A step was refused because its stage is over. -/
  | refused (ticket : Nat) (parent? : Option Nat) (origin : Nat) (stage : Stage)
  /-- A step began to execute. -/
  | started (ticket : Nat) (stage : Stage)
  /-- A step ended, with the outcome its handler gave. -/
  | ended (ticket : Nat) (outcome : Except Fault Unit)
  /-- A step set the result of the operation it stems from. -/
  | resultSet (ticket : Nat) (origin : Nat) (value : Value)
  /-- A step registered a rollback handler. -/
  | registered (ticket : Nat) (operation : Operation)
  /-- A rollback handler ran, with the operation and the cause it was given. -/
  | compensated (operation : Operation) (cause : Fault) (outcome : Except Fault Unit)

/-! ### State -/

/-- A step waiting or executing. -/
structure Step (S : Signature) where
  ticket : Nat
  /-- The place of the submitted operation that the step stems from. -/
  origin : Nat
  /-- The operation the step runs with. -/
  operation : Operation
  handler : S.Handler

/-- What all transactions of a controller share. -/
structure ControllerState (S : Signature) where
  store : CommittedModel := {}
  locks : HeldLocks := {}
  reload : ReloadState := {}
  booting : Bool := false
  /-- The id of the next transaction. -/
  nextId : Nat := 1
  environment : S.Environment

/-- What stays fixed about a controller. -/
structure Controller (S : Signature) where
  registry : Registry S.Handler
  processKind : ProcessKind := .server
  /-- What a handler does, run with an operation. -/
  handle : S.Handler → Operation → Program S Unit
  /-- What happens in an interlude. -/
  interlude : S.Interlude → ControllerState S → ControllerState S
  /-- How many steps a stage may execute. -/
  stepLimit : Nat

/-- The state of one transaction. -/
structure Transaction (S : Signature) where
  id : Nat
  booting : Bool
  status : Status := .pending
  stage : Stage := .model
  agenda : Agenda (Step S) := {}
  working : WorkingCopy
  attachments : Attachments S.slots := {}
  rollback : RollbackStack (Operation → RollbackProgram S Unit) := {}
  reload : ReloadRequest
  /-- The step that executes. -/
  executing : Option (Step S) := none
  rollbackOnly : Bool := false
  /-- The first breach of the rules; it counts even if the step goes on. -/
  breach : Option Fault := none
  /-- The results of the submitted operations, in their order. -/
  results : List Value
  nextTicket : Nat := 0
  /-- What happened so far, latest first. -/
  journal : List Event := []

namespace Transaction

variable {S : Signature}

/-- A transaction that has not begun. -/
def new (id : Nat) (booting : Bool) (working : WorkingCopy) (operations : Nat) : Transaction S :=
  { id, booting, working, reload := { id }, results := List.replicate operations .undefined }

/-- Writes an event into the journal. -/
def record (t : Transaction S) (e : Event) : Transaction S := { t with journal := e :: t.journal }

/-- Remembers a breach of the rules, unless there is one already. -/
def breaches (t : Transaction S) (fault : Fault) : Transaction S :=
  { t with breach := t.breach <|> some fault }

/-- Changes the status. -/
def moveTo (t : Transaction S) (status : Status) : Except Fault (Transaction S) := do
  let status ← t.status.moveTo status
  return { t with status }.record (.entered status)

/-- Puts a step into the queue of a stage. A refusal is a breach of the rules. -/
def enqueue (t : Transaction S) (parent? : Option Nat) (origin : Nat) (operation : Operation)
    (request : StepRequest S) : Except Fault Unit × Transaction S :=
  let ticket := t.nextTicket
  let t := { t with nextTicket := ticket + 1 }
  let step : Step S := { ticket, origin, operation, handler := request.handler }
  match t.agenda.push request.stage request.queueEnd step with
  | .ok agenda =>
    (.ok (), { t with agenda }.record
      (.queued ticket parent? origin request.stage request.queueEnd))
  | .error fault =>
    (.error fault, (t.breaches fault).record (.refused ticket parent? origin request.stage))

/-- Queues a step on behalf of the executing one. -/
def queue (t : Transaction S) (request : StepRequest S) : Except Fault Unit × Transaction S :=
  match t.executing with
  | some step =>
    t.enqueue (some step.ticket) step.origin (request.operation?.getD step.operation) request
  | none => (.error (.internal .outsideStep), t.breaches (.internal .outsideStep))

/-- Registers a rollback handler for the executing step. -/
def onRollback (t : Transaction S) (handler : Operation → RollbackProgram S Unit) :
    Except Fault Unit × Transaction S :=
  match t.executing with
  | some step =>
    match t.rollback.register step.operation handler with
    | .ok rollback => (.ok (), { t with rollback }.record (.registered step.ticket step.operation))
    | .error fault => (.error fault, t.breaches fault)
  | none => (.error (.internal .outsideStep), t.breaches (.internal .outsideStep))

/-- The model may be written now. -/
def requireModelStage (t : Transaction S) : Except Fault Unit :=
  if t.stage = .model then .ok () else .error (.internal (.writeOutsideModel t.stage))

/-- Adds a resource to the working copy. -/
def create (t : Transaction S) (address : Address) : Except Fault (Unit × Transaction S) := do
  t.requireModelStage
  let working ← t.working.create address
  return ((), { t with working })

/-- Changes a resource of the working copy; gives its attributes before. -/
def edit (t : Transaction S) (address : Address) (change : Attributes → Attributes) :
    Except Fault (Attributes × Transaction S) := do
  t.requireModelStage
  let (old, working) ← t.working.edit address change
  return (old, { t with working })

/-- Removes a resource of the working copy; gives its attributes. -/
def remove (t : Transaction S) (address : Address) :
    Except Fault (Attributes × Transaction S) := do
  t.requireModelStage
  let (attributes, working) ← t.working.remove address
  return (attributes, { t with working })

/-- Sets the result of the operation that the executing step stems from. -/
def setResult (t : Transaction S) (value : Value) : Transaction S :=
  match t.executing with
  | some step =>
    { t with results := t.results.set step.origin value }.record
      (.resultSet step.ticket step.origin value)
  | none => t

end Transaction

/-- A transaction in flight, with the state of its controller. -/
structure InFlight (S : Signature) where
  transaction : Transaction S
  state : ControllerState S

end ManagedModel
