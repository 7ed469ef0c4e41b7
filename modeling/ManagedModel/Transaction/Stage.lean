/-! # Stages and the status of a transaction

    A transaction executes its steps in three stages, in this order:

    * MODEL changes the working copy of the model,
    * RUNTIME brings the running process in line with it,
    * VERIFY checks the outcome before it is committed.

    The status of a transaction follows the stages to `committed`, or leaves
    an executing stage through `rollingBack` to `aborted`. -/

namespace ManagedModel

/-- A stage of a transaction. -/
inductive Stage where
  | model
  | runtime
  | verify
deriving DecidableEq

namespace Stage

/-- The stages in the order they execute. -/
def all : List Stage := [model, runtime, verify]

/-- The place of a stage in the order. -/
def rank : Stage → Nat
  | model => 0
  | runtime => 1
  | verify => 2

instance : LE Stage := ⟨fun a b => a.rank ≤ b.rank⟩

instance (a b : Stage) : Decidable (a ≤ b) := inferInstanceAs (Decidable (a.rank ≤ b.rank))

/-- The name of a stage in messages. -/
def name : Stage → String
  | model => "MODEL"
  | runtime => "RUNTIME"
  | verify => "VERIFY"

end Stage

/-- Where a transaction stands. -/
inductive Status where
  | pending
  | executing (stage : Stage)
  | committed
  | rollingBack
  | aborted
deriving DecidableEq

namespace Status

/-- The name of a status in messages. -/
def name : Status → String
  | pending => "Pending"
  | executing .model => "Model"
  | executing .runtime => "Runtime"
  | executing .verify => "Verify"
  | committed => "Committed"
  | rollingBack => "RollingBack"
  | aborted => "Aborted"

/-- Nothing follows a terminal status. -/
def isTerminal : Status → Bool
  | committed | aborted => true
  | _ => false

/-- Whether a stage is executing. -/
def isExecuting : Status → Bool
  | executing _ => true
  | _ => false

/-- Whether `next` may follow. -/
def allows : Status → Status → Bool
  | pending, executing .model => true
  | pending, aborted => true
  | executing .model, executing .runtime => true
  | executing .runtime, executing .verify => true
  | executing .verify, committed => true
  | executing _, rollingBack => true
  | rollingBack, aborted => true
  | _, _ => false

end Status

end ManagedModel
