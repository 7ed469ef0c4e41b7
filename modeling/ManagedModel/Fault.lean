import ManagedModel.Operation
import ManagedModel.Transaction.Stage

/-! # Faults

    Why an operation or a transaction did not go through. A fault is a cause,
    not a text: `Fault.message` is the one place where causes are worded.

    * `ValidationFault`: the request does not fit the schema or the model.
    * `ResolutionFault`: an expression has no value.
    * `EngineFault`: a handler broke the rules of a transaction.
    * `FailureCause`: a handler gave up, or marked the transaction.

    The `custom` causes carry the words of handlers that are not part of this
    library. -/

namespace ManagedModel

/-- The classes of faults that callers tell apart. -/
inductive FaultKind where
  | validation
  | resolution
  | duplicateResource
  | resourceNotFound
  | internal
  | failed
deriving DecidableEq

namespace FaultKind

/-- The name of a class for callers. -/
def name : FaultKind → String
  | validation => "validation"
  | resolution => "resolution"
  | duplicateResource => "duplicate-resource"
  | resourceNotFound => "resource-not-found"
  | internal => "internal"
  | failed => "failed"

end FaultKind

/-! ### Causes -/

/-- How a request fails to fit the schema or the model. -/
inductive ValidationFault where
  /-- No value is given for a required attribute without default. -/
  | missingAttribute (name : String)
  /-- An attribute that must hold a value would hold none. -/
  | undefinedAttribute (name : String)
  /-- The value has another shape than the attribute's type. -/
  | wrongType (name : String) (expected : ValueType) (shape : String)
  /-- An expression is given where only literals may stand. -/
  | expressionNotAllowed (name : String)
  /-- A number lies outside the declared bounds. -/
  | outOfRange (name : String) (number : Int64) (min max : Option Int64)
  /-- The value is none of the allowed ones. -/
  | notAllowed (name : String) (value : Value)
  /-- A text is shorter or longer than declared. -/
  | lengthOutOfBounds (name : String) (length : Nat)
  /-- A text does not match the declared pattern. -/
  | patternMismatch (name : String) (pattern : String)
  /-- A parameter is given that is not declared. -/
  | unknownParameter (parameter : String)
  /-- A required parameter is not supplied. -/
  | missingParameter (parameter : String)
  /-- The schema of the resource has no such attribute. -/
  | unknownAttribute (name : String) (address : Address)
  /-- No schema governs the address. -/
  | noSchema (address : Address)
  /-- Nothing is registered for the operation. -/
  | noHandler (operation : String) (address : Address)
  /-- The operation may only run while booting. -/
  | bootOnly (operation : String)
  /-- The resource to remove still has children. -/
  | hasChildren (address : Address)
  /-- The root resource cannot be removed. -/
  | rootRemoval
  /-- A system property needs an address with at least one element. -/
  | noPropertyName
  | custom (message : String)
deriving DecidableEq

/-- Why an expression has no value. -/
inductive ResolutionFault where
  /-- An opened reference is not closed. -/
  | unterminated
  /-- A reference names nothing between two commas. -/
  | emptyName
  /-- None of the names is set and no default is given. -/
  | noSuchProperty (names : List String)
  | custom (message : String)
deriving DecidableEq

/-- How a handler breaks the rules of a transaction. -/
inductive EngineFault where
  /-- The address lies outside the locked subtrees. -/
  | notLocked (address : Address)
  /-- A step is queued for a stage that is over. -/
  | stageCompleted (stage : Stage)
  /-- Something is registered while no step executes. -/
  | outsideStep
  /-- The model is written outside its stage. -/
  | writeOutsideModel (stage : Stage)
  /-- The status may not change this way. -/
  | illegalTransition (before after : Status)
  /-- A declared pattern is not well formed. -/
  | invalidPattern (name : String) (detail : String)
  | custom (message : String)
deriving DecidableEq

/-- Why a transaction was given up. -/
inductive FailureCause where
  /-- A step returned normally but marked the transaction for rollback. -/
  | rollbackOnly
  | custom (message : String)
deriving DecidableEq

/-- Why an operation did not go through. -/
inductive Fault where
  | validation (cause : ValidationFault)
  | resolution (expression : String) (cause : ResolutionFault)
  | duplicateResource (address : Address)
  | resourceNotFound (address : Address)
  | internal (cause : EngineFault)
  | failed (cause : FailureCause)
deriving DecidableEq

/-! ### Wording -/

/-- The bounds of a range constraint, with a blank in front. -/
def rangeText : Option Int64 → Option Int64 → String
  | some lo, some hi => " [" ++ Value.intText lo ++ ".." ++ Value.intText hi ++ "]"
  | some lo, none => " [>= " ++ Value.intText lo ++ "]"
  | none, some hi => " [<= " ++ Value.intText hi ++ "]"
  | none, none => ""

namespace ValidationFault

/-- The wording of a cause. -/
def message : ValidationFault → String
  | missingAttribute a => "Missing required attribute: " ++ a
  | undefinedAttribute a => "Attribute " ++ a ++ " may not be undefined"
  | wrongType a expected shape =>
    "Invalid attribute type: expected " ++ expected.name ++ ", got " ++ shape ++ " for " ++ a
  | expressionNotAllowed a => "Expressions are not allowed for " ++ a
  | outOfRange a n min max =>
    "Range constraint violated: " ++ a ++ " value " ++ Value.intText n ++ " is out of range" ++
      rangeText min max
  | notAllowed a v =>
    "Invalid value " ++ v.text ++ " for " ++ a ++ ": not one of the allowed values"
  | lengthOutOfBounds a n =>
    "Length of " ++ a ++ " (" ++ toString n ++ ") is outside the allowed bounds"
  | patternMismatch a p => "Value of " ++ a ++ " does not match pattern " ++ p
  | unknownParameter p => "Unknown parameter: " ++ p
  | missingParameter p => "Missing required parameter: " ++ p
  | unknownAttribute a address => "Unknown attribute " ++ a ++ " at " ++ address.text
  | noSchema address => "No resource definition for " ++ address.text
  | noHandler op address =>
    "No handler registered for operation '" ++ op ++ "' at " ++ address.text
  | bootOnly op => "Operation '" ++ op ++ "' is only allowed during boot"
  | hasChildren address => "Resource has children: " ++ address.text
  | rootRemoval => "Cannot remove the root resource"
  | noPropertyName => "System property address must not be empty"
  | custom m => m

end ValidationFault

namespace ResolutionFault

/-- The wording of a cause. -/
def message : ResolutionFault → String
  | unterminated => "unterminated expression"
  | emptyName => "empty property name"
  | noSuchProperty names => "no such property: " ++ ",".intercalate names
  | custom m => m

end ResolutionFault

namespace EngineFault

/-- The wording of a cause. -/
def message : EngineFault → String
  | notLocked address => "Address is not locked by this transaction: " ++ address.text
  | stageCompleted stage =>
    "Cannot add a step to a stage that has already completed (" ++ stage.name ++ ")"
  | outsideStep =>
    "Steps and rollback handlers may only be registered while a step is executing"
  | writeOutsideModel stage => "Model writes are only allowed in MODEL, not " ++ stage.name
  | illegalTransition before after =>
    "Illegal transaction state transition " ++ before.name ++ " -> " ++ after.name
  | invalidPattern a detail => "Invalid pattern for " ++ a ++ ": " ++ detail
  | custom m => m

end EngineFault

namespace FailureCause

/-- The wording of a cause. -/
def message : FailureCause → String
  | rollbackOnly => "Operation was marked rollback-only"
  | custom m => m

end FailureCause

namespace Fault

/-- The class of a fault. -/
def kind : Fault → FaultKind
  | validation _ => .validation
  | resolution _ _ => .resolution
  | duplicateResource _ => .duplicateResource
  | resourceNotFound _ => .resourceNotFound
  | internal _ => .internal
  | failed _ => .failed

/-- The wording of a fault. -/
def message : Fault → String
  | validation c => "Validation failed: " ++ c.message
  | resolution e c => "Cannot resolve expression '" ++ e ++ "': " ++ c.message
  | duplicateResource a => "Resource already exists: " ++ a.text
  | resourceNotFound a => "Resource not found: " ++ a.text
  | internal c => "Internal error: " ++ c.message
  | failed c => "Operation failed: " ++ c.message

/-- What the caller can do about a fault, where there is something. -/
def remediation? : Fault → Option String
  | resolution _ _ =>
    some ("define the referenced property in the same request or beforehand, " ++
      "or supply a default with $\x7bname:default\x7d")
  | duplicateResource _ => some "remove the existing resource or use write-attribute instead"
  | resourceNotFound _ => some "check the address; parent resources must be added first"
  | validation _ | internal _ | failed _ => none

end Fault

/-- Why a transaction did not commit: the first fault, and next to it the faults of the
    rollback handlers that failed while the transaction was unwound. -/
structure Failure where
  cause : Fault
  rollbackFaults : List Fault := []
deriving DecidableEq

namespace Failure

/-- The class of the cause. -/
def kind (f : Failure) : FaultKind := f.cause.kind

/-- The wording of the cause alone. -/
def message (f : Failure) : String := f.cause.message

/-- Whether unwinding left something undone. -/
def isRollbackIncomplete (f : Failure) : Bool := !f.rollbackFaults.isEmpty

/-- The wording of the cause and of the faults met while unwinding. -/
def text (f : Failure) : String :=
  f.message ++
    (if f.rollbackFaults.isEmpty then ""
     else " (rollback failures: " ++ "; ".intercalate (f.rollbackFaults.map Fault.message) ++ ")")

end Failure

end ManagedModel
