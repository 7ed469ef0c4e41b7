import ManagedModel.Proofs.Progress

/-! # What the steps of a transaction are granted

    Handlers call for rollback handlers and for changes of the model, and some
    of these calls are refused. What a transaction has come to between its
    steps depends on the calls that were granted.

    * `Granted` goes along with the moves of a transaction and lists what was
      granted to its steps, in order. There is such a list for every state that
      the transaction passes through (`exists_granted`).
    * `Ends` adds how the transaction ends, in a commit or with a step that
      fails it; what is granted to that step counts as well.
    * `Steady.granted_of_execute` is how a step keeps what each of the calls
      that its handler makes keeps. -/

namespace ManagedModel

variable {S : Signature} {c : Controller S}

/-- A call that was granted to a step. -/
structure StepGrant (S : Signature) where
  step : Step S
  /-- The stage in which the step was executed. -/
  stage : Stage
  grant : Grant S

namespace InFlight

/-- What is granted to the step at the front. -/
def grantsOf (c : Controller S) (step : Step S) (agenda : Agenda (Step S)) (f : InFlight S) :
    List (StepGrant S) :=
  ((c.handle step.handler step.operation).grants c (f.taken step agenda)).map fun grant =>
    { step, stage := f.transaction.stage, grant }

/-- The transaction passes through the state, and has been granted these calls by then. -/
inductive Granted (c : Controller S) (f₀ : InFlight S) : List (StepGrant S) → InFlight S → Prop where
  | start : Granted c f₀ [] f₀
  /-- The next stage begins. -/
  | enter {log : List (StepGrant S)} {f : InFlight S} {stage : Stage} (h : Granted c f₀ log f)
      (hpop : f.transaction.agenda.pop? = none)
      (hnext : (Stage.following f.transaction.agenda.current).head? = some stage) :
      Granted c f₀ log (f.entered stage)
  /-- The step at the front executes and does not fail the transaction. -/
  | step {log : List (StepGrant S)} {f f' : InFlight S} {step : Step S} {agenda : Agenda (Step S)}
      (h : Granted c f₀ log f) (hpop : f.transaction.agenda.pop? = some (step, agenda))
      (hexecute : execute c step (f.onTransaction fun t => { t with agenda }) = (.ok (), f')) :
      Granted c f₀ (log ++ f.grantsOf c step agenda) f'

section

variable {f₀ f f' g : InFlight S} {log : List (StepGrant S)} {step : Step S}
  {agenda : Agenda (Step S)} {outcome r : Except Fault Unit}

theorem Granted.underway (h : Granted c f₀ log f) : Underway c f₀ f := by
  induction h with
  | start => exact .refl
  | enter _ hpop hnext ih => exact ih.tail (.enter hpop hnext)
  | step _ hpop hexecute ih => exact ih.tail (.step hpop hexecute)

theorem exists_granted (h : Underway c f₀ f) : ∃ log, Granted c f₀ log f := by
  induction h with
  | refl => exact ⟨[], .start⟩
  | tail _ hmove ih =>
    obtain ⟨log, hlog⟩ := ih
    cases hmove with
    | enter hpop hnext => exact ⟨log, hlog.enter hpop hnext⟩
    | step hpop hexecute => exact ⟨_, hlog.step hpop hexecute⟩

/-- What every call of its handler keeps holds when a step has been executed. -/
theorem Steady.granted_of_execute (hf : Steady f.transaction)
    {I : Transaction S → List (Grant S) → Prop}
    (hI : KeptByGrants fun (f : InFlight S) grants => I f.transaction grants)
    (htaken : I (f.taken step agenda).transaction [])
    (hexecute : execute c step (f.onTransaction fun t => { t with agenda }) = (r, f')) :
    ∃ outcome, ∃ g : InFlight S, ∃ grants,
      Running step (f.taken step agenda).transaction g.transaction ∧
      r = verdict (g.ended step outcome).transaction outcome ∧ f' = g.ended step outcome ∧
      I g.transaction grants ∧
      f.grantsOf c step agenda = grants.map fun grant =>
        { step, stage := f.transaction.stage, grant } := by
  obtain ⟨outcome, g, hrun, hrunning, hverdict, hended⟩ := hf.of_execute hexecute
  have hkept := hI.run_transaction (c := c) (c.handle step.handler step.operation) htaken
  rw [hrun] at hkept
  exact ⟨outcome, g, _, hrunning, hverdict, hended, hkept, rfl⟩

end

end InFlight

/-! ### Whole transactions -/

namespace Controller

open InFlight

/-- How a transaction ends, with all that was granted to its steps. -/
inductive Ends (c : Controller S) (f₀ : InFlight S) : List (StepGrant S) → Ended S → Prop where
  | committed {log : List (StepGrant S)} {f : InFlight S} (h : Granted c f₀ log f)
      (hend : AtEnd f) : Ends c f₀ log ⟨.ok f.transaction.results, f.commit.2⟩
  | aborted {log : List (StepGrant S)} {f f' : InFlight S} {step : Step S}
      {agenda : Agenda (Step S)} {cause : Fault} (h : Granted c f₀ log f)
      (hpop : f.transaction.agenda.pop? = some (step, agenda))
      (hexecute : InFlight.execute c step (f.onTransaction fun t => { t with agenda }) =
        (.error cause, f')) :
      Ends c f₀ (log ++ f.grantsOf c step agenda) ⟨.error (f'.abort cause).1, (f'.abort cause).2⟩

theorem exists_ends {f₀ : InFlight S} (h : Steady f₀.transaction)
    (hcurrent : f₀.transaction.agenda.current = none) {ended : Ended S}
    (hended : c.conclude f₀ = some ended) : ∃ log, Ends c f₀ log ended := by
  have hconcludes := concludes (c := c) h hcurrent
  rw [hended] at hconcludes
  cases hconcludes with
  | committed hf hend =>
    obtain ⟨log, hlog⟩ := exists_granted hf
    exact ⟨log, .committed hlog hend⟩
  | aborted hf hfails =>
    obtain ⟨log, hlog⟩ := exists_granted hf
    obtain ⟨step, agenda, hpop, hexecute⟩ := hfails
    exact ⟨_, .aborted hlog hpop hexecute⟩

/-- The answer to a submission for which no transaction begins: there is nothing to do, or an
    operation is not accepted. -/
inductive Unbegun (c : Controller S) (sub : Submission) (s : ControllerState S) : Outcome → Prop where
  | empty {response : Response} (h : sub.operations = []) : Unbegun c sub s (.ok response)
  | refused {cause : Fault}
      (h : c.acceptAll (sub.inBootMode s.booting) sub.operations = .error cause) :
      Unbegun c sub s (.error { cause })

/-- The transaction that a submission of accepted operations begins. -/
structure Begins (c : Controller S) (sub : Submission) (s : ControllerState S)
    (accepted : List (Operation × RegisteredOperation S.Handler)) (f₀ : InFlight S) : Prop where
  accepted_eq : c.acceptAll (sub.inBootMode s.booting) sub.operations = .ok accepted
  locked : ∃ lock locked, lock? (writeScope accepted) (withNextId s) = some (lock, locked) ∧
    f₀ = begin (sub.inBootMode s.booting) s.nextId accepted locked

/-- The answer to a submission is how its transaction ended. -/
structure Reports (sub : Submission) (ended : Ended S) (outcome : Outcome)
    (s' : ControllerState S) : Prop where
  error_iff : ∀ {failure : Failure}, outcome = .error failure ↔ ended.outcome = .error failure
  store_eq : s'.store = ended.final.state.store
  environment_eq : s'.environment = ended.final.state.environment

variable {sub : Submission} {s s' : ControllerState S} {outcome : Outcome}

/-- What is answered when a transaction has ended. -/
theorem reports_answer (sub : Submission) (ended : Ended S) (lock : Option Lock) :
    Reports sub ended
      (answer sub (ended.outcome.map fun results => (results, ended.final.state.store.version),
        unlock lock ended.final.state)).1
      (sub.after (unlock lock ended.final.state)) := by
  refine ⟨?_, ?_, ?_⟩
  · intro failure
    unfold answer
    cases ended.outcome with
    | ok results => exact iff_of_false nofun nofun
    | error failure' => simp [Except.map]
  · rw [sub.store_after, store_unlock]
  · rw [sub.environment_after, environment_unlock]

/-- A submission is answered at once, or its transaction begins and ends. -/
theorem perform_cases (h : c.perform sub s = .ok (outcome, s')) :
    (Unbegun c sub s outcome ∧ s' = sub.after (withNextId s)) ∨
      ∃ accepted f₀ ended, Begins c sub s accepted f₀ ∧ c.conclude f₀ = some ended ∧
        Reports sub ended outcome s' := by
  obtain ⟨r, s₁, hsubmit, rfl, rfl⟩ := perform_eq_ok.1 h
  rcases submit_cases hsubmit with ⟨hempty, rfl, rfl⟩ | ⟨cause, hrefused, rfl, rfl⟩ |
    ⟨⟨accepted, lock, locked, ended, hacc, hlock, hended, rfl, rfl⟩⟩
  · exact .inl ⟨.empty hempty, rfl⟩
  · exact .inl ⟨.refused hrefused, rfl⟩
  · exact .inr ⟨accepted, _, ended, ⟨hacc, lock, locked, hlock, rfl⟩, hended,
      reports_answer sub ended lock⟩

section

variable {accepted : List (Operation × RegisteredOperation S.Handler)} {f₀ : InFlight S}

/-- The answer to operations whose transaction begins is how it ends. -/
theorem Begins.perform (h : Begins c sub s accepted f₀) (hne : sub.operations ≠ [])
    {ended : Ended S} (hended : c.conclude f₀ = some ended) :
    ∃ outcome s', c.perform sub s = .ok (outcome, s') ∧ Reports sub ended outcome s' := by
  obtain ⟨lock, locked, hlock, rfl⟩ := h.locked
  have hsubmit := submit_of_locked hne h.accepted_eq hlock
  rw [hended] at hsubmit
  exact ⟨_, _, perform_eq_ok.2 ⟨_, _, hsubmit, rfl, rfl⟩, reports_answer sub ended lock⟩

/-- Where there is nothing to do, the answer needs no transaction. -/
theorem perform_of_empty (hempty : sub.operations = []) :
    ∃ response s', c.perform sub s = .ok (.ok response, s') := by
  have hsubmit : c.submit (sub.inBootMode s.booting) sub.operations s =
      .ok (.ok ([], s.store.version), withNextId s) := by
    rw [hempty]
    rfl
  exact ⟨_, _, perform_eq_ok.2 ⟨_, _, hsubmit, rfl, rfl⟩⟩

theorem Begins.length_eq (h : Begins c sub s accepted f₀) :
    accepted.length = sub.operations.length := by
  rw [← (acceptAll_eq_ok.1 h.accepted_eq).1, List.length_map]

theorem Begins.steady (h : Begins c sub s accepted f₀) :
    Steady f₀.transaction ∧ f₀.transaction.agenda.current = none := by
  obtain ⟨lock, locked, -, rfl⟩ := h.locked
  exact steady_begin _ _ _ _

/-- Whether the transaction of a submission begins and passes a test when it does. -/
def begins (c : Controller S) (sub : Submission) (s : ControllerState S)
    (test : InFlight S → Bool) : Bool :=
  match c.acceptAll (sub.inBootMode s.booting) sub.operations with
  | .ok accepted =>
    (lock? (writeScope accepted) (withNextId s)).any fun granted =>
      test (begin (sub.inBootMode s.booting) s.nextId accepted granted.2)
  | .error _ => false

theorem exists_begins {test : InFlight S → Bool} (h : c.begins sub s test = true) :
    ∃ accepted f₀, Begins c sub s accepted f₀ ∧ test f₀ = true := by
  unfold begins at h
  split at h
  · rename_i accepted hacc
    obtain ⟨⟨lock, locked⟩, hlock, htest⟩ := (Option.any_eq_true _ _).1 h
    exact ⟨accepted, _, ⟨hacc, lock, locked, hlock, rfl⟩, htest⟩
  · cases h

end

end Controller

end ManagedModel
