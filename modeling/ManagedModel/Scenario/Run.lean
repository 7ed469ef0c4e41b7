import ManagedModel.Scenario.Expectation

/-! # Scenarios

    A scenario submits operations to a controller step by step and checks what
    each step brings about. It ends at the first step that submits nothing or
    does not meet its expectation. -/

namespace ManagedModel

/-- A step of a scenario. -/
structure ScenarioStep where
  name : String
  /-- Whether the operations are submitted in boot mode. -/
  boots : Bool := false
  operations : List Operation
  expectation : Expectation := {}

/-- Why a scenario does not go through. -/
inductive ScenarioFault where
  | registry (fault : RegistryFault)
  | emptyStep (step : String)
  | assertionFailed (step : String) (mismatch : Mismatch)
  /-- The operations of a step did not come to an end. -/
  | stalled (step : String) (stall : Stall)

namespace ScenarioFault

/-- The wording of a fault. -/
def message : ScenarioFault → String
  | registry fault => "failed to build registry: " ++ fault.message
  | emptyStep step => "step '" ++ step ++ "' has no operations"
  | assertionFailed step mismatch =>
    "assertion failed for step '" ++ step ++ "': " ++ mismatch.message
  | stalled step _ => "step '" ++ step ++ "' did not come to an end"

end ScenarioFault

namespace ScenarioStep

variable {X : Signature}

/-- Submits the operations of a step. A single one is carried out by itself. -/
def submit (c : Controller X.withProperties) (step : ScenarioStep)
    (s : ControllerState X.withProperties) :
    Except Stall (Outcome × ControllerState X.withProperties) :=
  if step.boots then c.boot step.operations s
  else
    match step.operations with
    | [op] => c.execute op s
    | ops => c.executeAll ops s

/-- Carries out a step and checks what it brought about. -/
def run (c : Controller X.withProperties) (step : ScenarioStep)
    (s : ControllerState X.withProperties) :
    Except ScenarioFault (ControllerState X.withProperties) :=
  if step.operations.isEmpty then .error (.emptyStep step.name)
  else
    match step.submit c s with
    | .error stall => .error (.stalled step.name stall)
    | .ok (outcome, s) =>
      match step.expectation.check outcome s with
      | .error mismatch => .error (.assertionFailed step.name mismatch)
      | .ok () => .ok s

/-- Carries out the steps of a scenario. -/
def runAll (c : Controller X.withProperties) :
    List ScenarioStep → ControllerState X.withProperties →
      Except ScenarioFault (ControllerState X.withProperties)
  | [], s => .ok s
  | step :: steps, s => do runAll c steps (← step.run c s)

end ScenarioStep

end ManagedModel
