import ManagedModel.Property.Model
import ManagedModel.Text.Inspection

/-! # Expectations

    What a step of a scenario is expected to bring about, and how the outcome
    falls short of it.

    * A step that expects a fault has to fail, and only the class and the
      wording of its fault are checked.
    * A step that expects none has to commit; then its result, the reload flag,
      the live properties and the committed model are checked, in this order,
      up to the first that differs. -/

namespace ManagedModel

/-- What is expected after a step. -/
structure Expectation where
  /-- The step commits. Without any expectation of a fault this goes without saying. -/
  committed : Bool := false
  /-- The class of the fault. -/
  faultKind? : Option FaultKind := none
  /-- A part of the wording of the fault. -/
  faultText? : Option String := none
  /-- A match pattern for the wording of the fault. -/
  faultPattern? : Option String := none
  result? : Option Value := none
  reloadRequired? : Option Bool := none
  /-- Live properties with their values. -/
  properties : List (String × Option String) := []
  /-- Live properties that never received a change. -/
  untouched : List String := []
  present : List Address := []
  absent : List Address := []
  /-- Attributes stored in the committed model. -/
  attributes : List (Address × String × Value) := []

/-- How the outcome of a step differs from what is expected. -/
inductive Mismatch where
  | committed (version : Nat)
  | failed (failure : Failure)
  | faultKind (expected : FaultKind) (failure : Failure)
  | faultText (expected : String) (failure : Failure)
  | invalidPattern (refusal : PatternRefusal)
  | faultPattern (pattern : String) (failure : Failure)
  | result (expected actual : Value)
  | reloadRequired (expected actual : Bool)
  | property (name : String) (expected actual : Option String)
  | touched (name : String) (calls : List PropertyChange)
  | missing (address : Address)
  | unexpected (address : Address)
  | storedAttribute (address : Address) (name : String) (expected : Value) (actual : Option Value)

namespace Mismatch

/-- The wording of a mismatch. -/
def message : Mismatch → String
  | committed version => "expected failure, but step committed version " ++ toString version
  | failed failure => "step failed: " ++ failure.text
  | faultKind expected failure =>
    "expected " ++ expected.inspect ++ " failure, got " ++ failure.kind.inspect ++ ": " ++
      failure.text
  | faultText expected failure =>
    "expected error containing '" ++ expected ++ "', got: " ++ failure.message
  | invalidPattern refusal => "invalid regex pattern: " ++ refusal.message
  | faultPattern pattern failure =>
    "expected error matching '" ++ pattern ++ "', got: " ++ failure.message
  | result expected actual => "expected result " ++ expected.text ++ ", got " ++ actual.text
  | reloadRequired expected actual =>
    "expected reload-required " ++ Text.inspectBool expected ++ ", got " ++ Text.inspectBool actual
  | property name expected actual =>
    "expected property " ++ name ++ " = " ++ Text.inspectOption Text.inspect expected ++
      ", got " ++ Text.inspectOption Text.inspect actual
  | touched name calls =>
    "expected no store calls for " ++ name ++ ", got " ++
      Text.inspectList PropertyChange.inspect calls
  | missing address => "expected resource at " ++ address.text
  | unexpected address => "expected no resource at " ++ address.text
  | storedAttribute address name expected actual =>
    "expected " ++ name ++ " of " ++ address.text ++ " to be " ++ expected.text ++ ", got " ++
      Text.inspectOption Value.inspect actual

end Mismatch

namespace Text

/-- Whether one text is a part of another. -/
def hasPart (part : List Char) : List Char → Bool
  | [] => part.isEmpty
  | c :: cs => part.isPrefixOf (c :: cs) || hasPart part cs

end Text

namespace Expectation

variable {X : Signature}

/-- Passes if the condition holds. -/
def ensure (condition : Bool) (mismatch : Mismatch) : Except Mismatch Unit :=
  if condition then .ok () else .error mismatch

/-- Passes if every member passes; the first that does not is reported. -/
def forAll {α : Type} (check : α → Except Mismatch Unit) : List α → Except Mismatch Unit
  | [] => .ok ()
  | a :: as => do
    check a
    forAll check as

/-- Passes if there is nothing to check or the check passes. -/
def whenSome {α : Type} (a? : Option α) (check : α → Except Mismatch Unit) :
    Except Mismatch Unit :=
  match a? with
  | some a => check a
  | none => .ok ()

/-- Whether the step is expected to fail. -/
def expectsFault (e : Expectation) : Bool :=
  e.faultKind?.isSome || e.faultText?.isSome || e.faultPattern?.isSome

/-- Checks the class and the wording of a fault. -/
def checkFailure (e : Expectation) (failure : Failure) : Except Mismatch Unit := do
  whenSome e.faultKind? fun kind => ensure (failure.kind = kind) (.faultKind kind failure)
  whenSome e.faultText? fun text =>
    ensure (Text.hasPart text.toList failure.message.toList) (.faultText text failure)
  whenSome e.faultPattern? fun source =>
    match PatternEngine.standard.compile source with
    | .error refusal => .error (.invalidPattern refusal)
    | .ok isMatch => ensure (isMatch failure.message) (.faultPattern source failure)

/-- Checks the outcome of a step. -/
def checkOutcome (e : Expectation) : Outcome → Except Mismatch Unit
  | .ok response =>
    if e.expectsFault then .error (.committed response.version)
    else whenSome e.result? fun v => ensure (response.result = v) (.result v response.result)
  | .error failure =>
    if e.committed || !e.expectsFault then .error (.failed failure) else e.checkFailure failure

/-- Checks the state of the controller after a step. -/
def checkState (e : Expectation) (s : ControllerState X.withProperties) :
    Except Mismatch Unit := do
  let live := s.environment.live
  let tree := s.store.tree
  whenSome e.reloadRequired? fun b =>
    ensure (s.reload.isRequired = b) (.reloadRequired b s.reload.isRequired)
  forAll (fun (name, value?) =>
    ensure (live.get? name = value?) (.property name value? (live.get? name))) e.properties
  forAll (fun name =>
    ensure (live.changesOf name).isEmpty (.touched name (live.changesOf name))) e.untouched
  forAll (fun a => ensure (tree.contains a) (.missing a)) e.present
  forAll (fun a => ensure (!tree.contains a) (.unexpected a)) e.absent
  forAll (fun (a, name, v) =>
    let actual := (tree.get? a).bind (·.get? name)
    ensure (actual = some v) (.storedAttribute a name v actual)) e.attributes

/-- Checks a step, given its outcome and the state after it. -/
def check (e : Expectation) (outcome : Outcome) (s : ControllerState X.withProperties) :
    Except Mismatch Unit := do
  e.checkOutcome outcome
  e.checkState s

end Expectation

end ManagedModel
