import ManagedModel.Fault

/-! # The agenda of a transaction

    The steps that wait, one queue for each stage. Steps are taken from the
    queue of the current stage only. A queue accepts steps, at either end,
    until its stage is over: while an earlier stage executes, and while its own
    does. -/

namespace ManagedModel

/-- Which end of a queue a step is put to. -/
inductive QueueEnd where
  | front
  | back
deriving DecidableEq

/-- The steps waiting for each stage. -/
structure Agenda (σ : Type) where
  model : List σ := []
  runtime : List σ := []
  verify : List σ := []
  /-- The stage that executes; before the first one there is none. -/
  current : Option Stage := none
  /-- No stage executes any more. -/
  closed : Bool := false

namespace Agenda

variable {σ : Type}

/-- Whether a stage still takes steps. -/
def accepts (q : Agenda σ) (stage : Stage) : Bool :=
  !q.closed && q.current.all (· ≤ stage)

/-- The steps waiting for a stage. -/
def waiting (q : Agenda σ) : Stage → List σ
  | .model => q.model
  | .runtime => q.runtime
  | .verify => q.verify

/-- The agenda with another list of steps for one stage. -/
def set (q : Agenda σ) (stage : Stage) (steps : List σ) : Agenda σ :=
  match stage with
  | .model => { q with model := steps }
  | .runtime => { q with runtime := steps }
  | .verify => { q with verify := steps }

@[simp] theorem waiting_set_self (q : Agenda σ) (stage : Stage) (steps : List σ) :
    (q.set stage steps).waiting stage = steps := by
  cases stage <;> rfl

theorem waiting_set_of_ne (q : Agenda σ) {stage other : Stage} (h : other ≠ stage)
    (steps : List σ) : (q.set stage steps).waiting other = q.waiting other := by
  cases stage <;> cases other <;> simp_all [set, waiting]

/-- Adds a step at one end. -/
def push (q : Agenda σ) (stage : Stage) (queueEnd : QueueEnd) (step : σ) :
    Except Fault (Agenda σ) :=
  if q.accepts stage then
    .ok (q.set stage
      (match queueEnd with
       | .front => step :: q.waiting stage
       | .back => q.waiting stage ++ [step]))
  else .error (.internal (.stageCompleted stage))

/-- Begins a stage. -/
def enter (q : Agenda σ) (stage : Stage) : Agenda σ := { q with current := some stage }

/-- Takes the step at the front of the current stage. -/
def pop? (q : Agenda σ) : Option (σ × Agenda σ) :=
  match q.current with
  | none => none
  | some stage =>
    match q.waiting stage with
    | [] => none
    | step :: rest => some (step, q.set stage rest)

/-- Drops all steps and accepts no more. -/
def close (q : Agenda σ) : Agenda σ :=
  { model := [], runtime := [], verify := [], current := q.current, closed := true }

end Agenda

end ManagedModel
