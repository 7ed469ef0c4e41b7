import ManagedModel.Fault
import ManagedModel.Transaction.Signature

/-! # Rollback

    A step may register rollback handlers, which undo its effects outside the
    model if the transaction fails.

    * `RollbackProgram` is what such a handler does: a program over the few
      calls that are open to it.
    * `RollbackStack` keeps the handlers until the transaction ends. They
      are run once, newest first, or dropped once; after either no handler can
      be registered. -/

namespace ManagedModel

/-! ### Programs of rollback handlers -/

/-- What a rollback handler can see. -/
structure RollbackView (S : Signature) where
  /-- Why the transaction failed. -/
  cause : Fault
  reloadRequired : Bool
  attachments : Attachments S.slots

/-- What a rollback handler does. -/
inductive RollbackProgram (S : Signature) (α : Type) where
  | pure (a : α)
  | fail (fault : Fault)
  /-- Looks at the transaction. -/
  | observe (next : RollbackView S → RollbackProgram S α)
  /-- Withdraws the transaction's request for a reload. -/
  | withdrawReload (next : RollbackProgram S α)
  /-- Changes what lies outside the controller; goes on with its state before. -/
  | environment (change : S.Environment → S.Environment)
      (next : S.Environment → RollbackProgram S α)

namespace RollbackProgram

variable {S : Signature} {α β : Type}

/-- Goes on with the result of a program. -/
def bind : RollbackProgram S α → (α → RollbackProgram S β) → RollbackProgram S β
  | pure a, f => f a
  | fail fault, _ => fail fault
  | observe next, f => observe fun v => (next v).bind f
  | withdrawReload next, f => withdrawReload (next.bind f)
  | environment change next, f => environment change fun e => (next e).bind f

instance : Monad (RollbackProgram S) where
  pure := RollbackProgram.pure
  bind := RollbackProgram.bind

end RollbackProgram

/-! ### The stack of handlers -/

/-- What has become of the handlers. -/
inductive RollbackPhase where
  /-- Handlers can be registered. -/
  | collecting
  /-- The handlers were run. -/
  | triggered
  /-- The handlers were dropped. -/
  | discarded
deriving DecidableEq

namespace RollbackPhase

/-- The name of a phase. -/
def name : RollbackPhase → String
  | collecting => "Open"
  | triggered => "Triggered"
  | discarded => "Discarded"

end RollbackPhase

/-- The rollback handlers of a transaction. -/
structure RollbackStack (A : Type) where
  /-- The handlers, newest first, each with the operation it was registered for. -/
  handlers : List (Operation × A) := []
  phase : RollbackPhase := .collecting

namespace RollbackStack

variable {A σ : Type}

/-- Adds a handler. -/
def register (c : RollbackStack A) (operation : Operation) (handler : A) :
    Except Fault (RollbackStack A) :=
  if c.phase = .collecting then .ok { c with handlers := (operation, handler) :: c.handlers }
  else .error (.internal .outsideStep)

/-- Runs handlers one after the other, whether they fail or not; gives the faults in the order
    they arose. -/
def runAll (run : Operation → A → σ → Except Fault Unit × σ) :
    List (Operation × A) → σ → List Fault × σ
  | [], s => ([], s)
  | (operation, handler) :: rest, s =>
    match run operation handler s with
    | (.ok (), s) => runAll run rest s
    | (.error fault, s) =>
      let (faults, s) := runAll run rest s
      (fault :: faults, s)

/-- Runs all handlers, newest first. A second call does nothing. -/
def trigger (run : Operation → A → σ → Except Fault Unit × σ) (c : RollbackStack A)
    (s : σ) : List Fault × RollbackStack A × σ :=
  if c.phase = .collecting then
    let (faults, s) := runAll run c.handlers s
    (faults, { handlers := [], phase := .triggered }, s)
  else ([], c, s)

/-- Drops all handlers. -/
def discard (_ : RollbackStack A) : RollbackStack A :=
  { handlers := [], phase := .discarded }

/-- The number of handlers. -/
def size (c : RollbackStack A) : Nat := c.handlers.length

/-- Whether there is no handler. -/
def isEmpty (c : RollbackStack A) : Bool := c.handlers.isEmpty

/-- What is shown of the handlers. -/
def text (c : RollbackStack A) : String :=
  "RollbackCoordinator \x7b handlers: " ++ toString c.size ++ ", phase: " ++ c.phase.name ++ " \x7d"

end RollbackStack

end ManagedModel
