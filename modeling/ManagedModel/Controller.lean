import ManagedModel.Schema.Validation
import ManagedModel.Transaction.Run

/-! # The controller

    A controller takes lists of operations and carries out each list as one
    transaction.

    * Before a transaction begins, every operation is accepted in order: a
      handler must be registered, operations for boot need boot mode, and the
      parameters must fit. A list with an operation that is not accepted takes
      no lock and runs no step.
    * The addresses of the operations that are not read-only are locked and
      form the scope of the working copy.
    * The transaction then commits or aborts, and the lock is given back.

    `execute` carries out one operation, `executeAll` a list, and `boot` a list
    in boot mode, which ends with it. -/

namespace ManagedModel

/-- Why there is no answer to a list of operations. -/
inductive Stall where
  /-- Another transaction holds a lock that is needed and would have to end first. -/
  | lockHeld
  /-- A stage did not end within the limit on steps. -/
  | stepLimit
deriving DecidableEq

/-- The answer to a transaction that committed. -/
structure Response where
  result : Value
  version : Nat
  reloadRequired : Bool
deriving DecidableEq

/-- The outcome of a list of operations. -/
abbrev Outcome := Except Failure Response

namespace Controller

variable {S : Signature}

/-! ### Acceptance -/

/-- Finds the handler of an operation and checks whether it may run. -/
def accept (c : Controller S) (booting : Bool) (op : Operation) :
    Except Fault (RegisteredOperation S.Handler) :=
  match c.registry.operation? op.address op.name with
  | none => .error (.validation (.noHandler op.name op.address))
  | some entry =>
    if entry.schema.isBootOnly && !booting then .error (.validation (.bootOnly op.name))
    else do
      AttributeSchema.checkRequest entry.schema.parameters op.params
      return entry

/-- Accepts a list of operations, or gives the fault of the first that is not accepted. -/
def acceptAll (c : Controller S) (booting : Bool) :
    List Operation → Except Fault (List (Operation × RegisteredOperation S.Handler))
  | [] => .ok []
  | op :: ops => do
    let entry ← c.accept booting op
    return (op, entry) :: (← c.acceptAll booting ops)

/-- The addresses that a list of operations may write, ascending and each once. -/
def writeScope (accepted : List (Operation × RegisteredOperation S.Handler)) : List Address :=
  Address.sorted ((accepted.filter fun a => !a.2.schema.isReadOnly).map (·.1.address))

/-! ### Transactions -/

/-- Queues the first step of each submitted operation. -/
def queueFirstSteps : (origin : Nat) → List (Operation × RegisteredOperation S.Handler) →
    Transaction S → Transaction S
  | _, [], t => t
  | origin, (op, entry) :: rest, t =>
    queueFirstSteps (origin + 1) rest
      (t.enqueue none origin op { stage := .model, handler := entry.handler }).2

/-- How a transaction ended: the results of its operations or the failure, and the transaction
    and the controller's state at that point. -/
structure Ended (S : Signature) where
  outcome : Except Failure (List Value)
  final : InFlight S

/-- The transaction for accepted operations, before it runs. -/
def begin (booting : Bool) (id : Nat)
    (accepted : List (Operation × RegisteredOperation S.Handler)) (s : ControllerState S) :
    InFlight S :=
  { transaction := queueFirstSteps 0 accepted
      (.new id booting (.ofTree s.store.tree (writeScope accepted)) accepted.length)
    state := s }

/-- Runs a transaction to its end. -/
def conclude (c : Controller S) (f : InFlight S) : Option (Ended S) :=
  match f.run c with
  | none => none
  | some (.error cause, f) =>
    let (failure, f) := f.abort cause
    some ⟨.error failure, f⟩
  | some (.ok (), f) =>
    match f.commit with
    | (.ok (), f) => some ⟨.ok f.transaction.results, f⟩
    | (.error cause, f) => some ⟨.error { cause }, f⟩

/-- Takes the lock for a scope; an empty scope needs none. -/
def lock? (scope : List Address) (s : ControllerState S) :
    Option (Option Lock × ControllerState S) :=
  if scope.isEmpty then some (none, s)
  else (s.locks.acquire? scope).map fun (lock, locks) => (some lock, { s with locks })

/-- Gives a lock back. -/
def unlock (lock? : Option Lock) (s : ControllerState S) : ControllerState S :=
  match lock? with
  | some lock => { s with locks := s.locks.release lock.owner }
  | none => s

/-- Carries out a list of operations as one transaction; gives their results and the version. -/
def submit (c : Controller S) (booting : Bool) (ops : List Operation) (s : ControllerState S) :
    Except Stall (Except Failure (List Value × Nat) × ControllerState S) :=
  let id := s.nextId
  let s := { s with nextId := id + 1 }
  if ops.isEmpty then .ok (.ok ([], s.store.version), s)
  else
    match c.acceptAll booting ops with
    | .error cause => .ok (.error { cause }, s)
    | .ok accepted =>
      match lock? (writeScope accepted) s with
      | none => .error .lockHeld
      | some (lock, s) =>
        match c.conclude (begin booting id accepted s) with
        | none => .error .stepLimit
        | some ended =>
          let s := ended.final.state
          .ok (ended.outcome.map fun results => (results, s.store.version), unlock lock s)

/-! ### Submissions -/

/-- The answer to a committed transaction. -/
def respond (s : ControllerState S) (result : Value) (version : Nat) : Response :=
  { result, version, reloadRequired := s.reload.isRequired }

/-- Carries out one operation. -/
def execute (c : Controller S) (op : Operation) (s : ControllerState S) :
    Except Stall (Outcome × ControllerState S) := do
  let (r, s) ← c.submit s.booting [op] s
  return (r.map fun (results, version) =>
    respond s (results.getLast?.getD .undefined) version, s)

/-- Carries out a list of operations as one transaction; the result lists theirs. -/
def executeAll (c : Controller S) (ops : List Operation) (s : ControllerState S) :
    Except Stall (Outcome × ControllerState S) := do
  let (r, s) ← c.submit s.booting ops s
  return (r.map fun (results, version) => respond s (.list results) version, s)

/-- Ends boot mode. -/
def leaveBoot (s : ControllerState S) : ControllerState S := { s with booting := false }

/-- Carries out a list of operations as one transaction in boot mode, then ends boot mode. -/
def boot (c : Controller S) (ops : List Operation) (s : ControllerState S) :
    Except Stall (Outcome × ControllerState S) := do
  let (r, s) ← c.submit true ops s
  let s := leaveBoot s
  return (r.map fun (results, version) => respond s (.list results) version, s)

/-- What is shown of a controller. -/
def text (c : Controller S) (s : ControllerState S) : String :=
  "ModelController \x7b resources: " ++ toString c.registry.resources.length ++
    ", version: " ++ toString s.store.version ++
    ", booting: " ++ (if s.booting then "true" else "false") ++ " \x7d"

end Controller

end ManagedModel
