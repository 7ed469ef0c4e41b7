import ManagedModel.Proofs.Grants

/-! # Compensation

    The rollback handlers of a transaction run if it fails, and never
    otherwise. They run one after the other, newest first, each once, with the
    operation it was registered for and the cause of the failure.

    * `RollbackStack.RunsAll` is such a run of handlers: each goes on from where
      the one before left off, whether that one failed or not.
    * Calls on a stack of handlers: what runs is decided by the first call that
      is no registration, and from this call on registrations are refused
      (`RollbackStack.ran_afterCalls`, `RollbackStack.register_afterCalls`).
    * In a transaction, the stack holds what was granted to its steps
      (`Registered`), so that the handlers of all steps run when it is aborted
      (`Compensated`). -/

namespace ManagedModel

/-! ### Stacks of handlers -/

/-- The fault of an outcome that has one. -/
def Fault.of? : Except Fault Unit → Option Fault
  | .ok () => none
  | .error fault => some fault

/-- A call on a stack of rollback handlers. -/
inductive RollbackCall (A : Type) where
  | register (operation : Operation) (handler : A)
  | trigger
  | discard

namespace RollbackCall

variable {A : Type}

/-- Whether the call registers a handler. -/
def isRegister : RollbackCall A → Bool
  | register _ _ => true
  | trigger | discard => false

/-- The handlers registered before the first call of another kind, in order. -/
def registeredFirst : List (RollbackCall A) → List (Operation × A)
  | register operation handler :: calls => (operation, handler) :: registeredFirst calls
  | trigger :: _ | discard :: _ | [] => []

/-- Whether the first call that is no registration runs the handlers. -/
def triggersFirst : List (RollbackCall A) → Bool
  | register _ _ :: calls => triggersFirst calls
  | trigger :: _ => true
  | discard :: _ | [] => false

end RollbackCall

namespace RollbackStack

variable {A σ : Type} {run : Operation → A → σ → Except Fault Unit × σ}

/-- The handlers run one after the other, each from the state that the one before left, with these
    outcomes. -/
inductive RunsAll (run : Operation → A → σ → Except Fault Unit × σ) :
    List (Operation × A) → σ → List (Except Fault Unit) → σ → Prop where
  | nil (s : σ) : RunsAll run [] s [] s
  | cons {operation : Operation} {handler : A} {rest : List (Operation × A)} {s s₁ s' : σ}
      {outcome : Except Fault Unit} {outcomes : List (Except Fault Unit)}
      (hrun : run operation handler s = (outcome, s₁)) (hrest : RunsAll run rest s₁ outcomes s') :
      RunsAll run ((operation, handler) :: rest) s (outcome :: outcomes) s'

theorem runsAll_runAll (handlers : List (Operation × A)) (s : σ) :
    ∃ outcomes, RunsAll run handlers s outcomes (runAll run handlers s).2 ∧
      (runAll run handlers s).1 = outcomes.filterMap Fault.of? := by
  induction handlers generalizing s with
  | nil => exact ⟨[], .nil s, rfl⟩
  | cons entry rest ih =>
    obtain ⟨operation, handler⟩ := entry
    rcases hrun : run operation handler s with ⟨outcome, s₁⟩
    obtain ⟨outcomes, hrest, hfaults⟩ := ih s₁
    refine ⟨outcome :: outcomes, ?_, ?_⟩
    · rw [runAll, hrun]
      cases outcome <;> exact .cons hrun hrest
    · rw [runAll, hrun]
      cases outcome with
      | ok u => exact hfaults
      | error fault => exact congrArg (fault :: ·) hfaults

/-- Runs handlers as `run` does and takes down which have run. -/
def noting (run : Operation → A → σ → Except Fault Unit × σ) (operation : Operation) (handler : A)
    (s : σ × List (Operation × A)) : Except Fault Unit × σ × List (Operation × A) :=
  ((run operation handler s.1).1, (run operation handler s.1).2, s.2 ++ [(operation, handler)])

theorem runAll_cons_snd (operation : Operation) (handler : A) (rest : List (Operation × A)) (s : σ) :
    (runAll run ((operation, handler) :: rest) s).2 =
      (runAll run rest (run operation handler s).2).2 := by
  rw [runAll]
  rcases run operation handler s with ⟨_ | u, s₁⟩ <;> rfl

theorem runAll_noting (handlers : List (Operation × A)) (s : σ × List (Operation × A)) :
    (runAll (noting run) handlers s).2.2 = s.2 ++ handlers := by
  induction handlers generalizing s with
  | nil => exact (List.append_nil _).symm
  | cons entry rest ih =>
    rw [runAll_cons_snd, ih]
    show s.2 ++ [entry] ++ rest = s.2 ++ entry :: rest
    rw [List.append_assoc, List.singleton_append]

/-- Carries out a call; a registration that is refused changes nothing. -/
def call (run : Operation → A → σ → Except Fault Unit × σ) (x : RollbackStack A × σ) :
    RollbackCall A → RollbackStack A × σ
  | .register operation handler =>
    match x.1.register operation handler with
    | .ok stack => (stack, x.2)
    | .error _ => x
  | .trigger => (x.1.trigger run x.2).2
  | .discard => (x.1.discard, x.2)

/-- Carries out one call after the other on a fresh stack. -/
def afterCalls (run : Operation → A → σ → Except Fault Unit × σ) (calls : List (RollbackCall A))
    (s : σ) : RollbackStack A × σ :=
  calls.foldl (call run) ({}, s)

theorem register_of_collecting {stack : RollbackStack A} (h : stack.phase = .collecting)
    (operation : Operation) (handler : A) :
    stack.register operation handler =
      .ok { stack with handlers := (operation, handler) :: stack.handlers } :=
  if_pos h

theorem register_of_closed {stack : RollbackStack A} (h : stack.phase ≠ .collecting)
    (operation : Operation) (handler : A) :
    stack.register operation handler = .error (.internal .outsideStep) :=
  if_neg h

theorem trigger_of_collecting {stack : RollbackStack A} (h : stack.phase = .collecting) (s : σ) :
    stack.trigger run s =
      ((runAll run stack.handlers s).1, { handlers := [], phase := .triggered },
        (runAll run stack.handlers s).2) :=
  if_pos h

section

variable {x : RollbackStack A × σ} {operation : Operation} {handler : A}

theorem call_register_of_collecting (h : x.1.phase = .collecting) :
    call run x (.register operation handler) =
      (⟨(operation, handler) :: x.1.handlers, .collecting⟩, x.2) := by
  show (match x.1.register operation handler with
    | .ok stack => (stack, x.2)
    | .error _ => x) = _
  rw [register_of_collecting h, ← h]

theorem call_register_of_closed (h : x.1.phase ≠ .collecting) :
    call run x (.register operation handler) = x := by
  show (match x.1.register operation handler with
    | .ok stack => (stack, x.2)
    | .error _ => x) = x
  rw [register_of_closed h]

theorem call_trigger_of_collecting (h : x.1.phase = .collecting) :
    call run x .trigger =
      ({ handlers := [], phase := .triggered }, (runAll run x.1.handlers x.2).2) :=
  congrArg Prod.snd (trigger_of_collecting h x.2)

theorem call_trigger_of_closed (h : x.1.phase ≠ .collecting) : call run x .trigger = x :=
  congrArg Prod.snd (if_neg h)

/-- Once the handlers were run or dropped, no call runs any. -/
theorem foldl_call_of_closed (calls : List (RollbackCall A)) (h : x.1.phase ≠ .collecting) :
    (calls.foldl (call run) x).1.phase ≠ .collecting ∧ (calls.foldl (call run) x).2 = x.2 := by
  induction calls generalizing x with
  | nil => exact ⟨h, rfl⟩
  | cons first calls ih =>
    rw [List.foldl_cons]
    cases first with
    | register operation handler =>
      rw [call_register_of_closed h]
      exact ih h
    | trigger =>
      rw [call_trigger_of_closed h]
      exact ih h
    | discard => exact ih (x := (x.1.discard, x.2)) (by simp [discard])

/-- Handlers can be registered as long as none were run or dropped. -/
theorem phase_foldl_call (calls : List (RollbackCall A)) (h : x.1.phase = .collecting) :
    (calls.foldl (call run) x).1.phase = .collecting ↔ calls.all (·.isRegister) = true := by
  induction calls generalizing x with
  | nil => exact iff_of_true h rfl
  | cons first calls ih =>
    rw [List.foldl_cons, List.all_cons]
    cases first with
    | register operation handler =>
      rw [call_register_of_collecting h]
      exact ih rfl
    | trigger =>
      rw [call_trigger_of_collecting h]
      exact iff_of_false (foldl_call_of_closed calls (by simp)).1 Bool.false_ne_true
    | discard =>
      refine iff_of_false (foldl_call_of_closed calls ?_).1 Bool.false_ne_true
      simp [call, discard]

end

/-- The first call that is no registration decides what runs: the handlers registered before,
    newest first, or none. -/
theorem ran_foldl_call (calls : List (RollbackCall A))
    {x : RollbackStack A × σ × List (Operation × A)} (h : x.1.phase = .collecting) :
    (calls.foldl (call (noting run)) x).2.2 = x.2.2 ++
      if RollbackCall.triggersFirst calls then
        (RollbackCall.registeredFirst calls).reverse ++ x.1.handlers
      else [] := by
  induction calls generalizing x with
  | nil => exact (List.append_nil _).symm
  | cons first calls ih =>
    rw [List.foldl_cons]
    cases first with
    | register operation handler =>
      rw [call_register_of_collecting h]
      refine (ih rfl).trans ?_
      rw [RollbackCall.registeredFirst, List.reverse_cons, List.append_assoc,
        List.singleton_append]
      rfl
    | trigger =>
      rw [call_trigger_of_collecting h, (foldl_call_of_closed calls (by simp)).2, runAll_noting]
      rfl
    | discard =>
      have hclosed : (call (noting run) x .discard).1.phase ≠ .collecting := by
        simp [call, discard]
      rw [(foldl_call_of_closed calls hclosed).2]
      exact (List.append_nil _).symm

/-- What has run after any calls: each handler once, newest first, if the handlers were triggered
    before they were discarded, and none otherwise. -/
theorem ran_afterCalls (run : Operation → A → σ → Except Fault Unit × σ)
    (calls : List (RollbackCall A)) (s : σ) :
    (afterCalls (noting run) calls (s, [])).2.2 =
      if RollbackCall.triggersFirst calls then (RollbackCall.registeredFirst calls).reverse
      else [] := by
  refine (ran_foldl_call calls rfl).trans ?_
  rw [List.nil_append, List.append_nil]

/-- A handler can be registered just if neither call that ends this was made before. -/
theorem register_afterCalls (run : Operation → A → σ → Except Fault Unit × σ)
    (calls : List (RollbackCall A)) (s : σ) (operation : Operation) (handler : A) :
    (afterCalls run calls s).1.register operation handler =
      if calls.all (·.isRegister) then
        .ok { (afterCalls run calls s).1 with
          handlers := (operation, handler) :: (afterCalls run calls s).1.handlers }
      else .error (.internal .outsideStep) := by
  have hphase : (afterCalls run calls s).1.phase = .collecting ↔ calls.all (·.isRegister) = true :=
    phase_foldl_call calls rfl
  split
  · rename_i hall
    exact register_of_collecting (hphase.2 hall) operation handler
  · rename_i hother
    exact register_of_closed (fun h => hother (hphase.1 h)) operation handler

end RollbackStack

/-! ### The journal -/

namespace Event

/-- The run of a rollback handler: its operation, the cause it was given and its outcome. -/
def compensated? : Event → Option (Operation × Fault × Except Fault Unit)
  | compensated operation cause outcome => some (operation, cause, outcome)
  | _ => none

theorem IsOfCall.compensated?_eq {e : Event} (h : e.IsOfCall) : e.compensated? = none := by
  cases e <;> first | rfl | exact absurd h id

end Event

variable {S : Signature} {c : Controller S}

namespace Transaction

/-- The runs of rollback handlers so far, in order. -/
def compensations (t : Transaction S) : List (Operation × Fault × Except Fault Unit) :=
  t.history.filterMap Event.compensated?

theorem compensations_of_history {t u : Transaction S} {events : List Event}
    (h : u.history = t.history ++ events) :
    u.compensations = t.compensations ++ events.filterMap Event.compensated? := by
  unfold compensations
  rw [h, List.filterMap_append]

theorem compensations_record (t : Transaction S) (e : Event) :
    (t.record e).compensations = t.compensations ++ e.compensated?.toList := by
  rw [compensations_of_history (t.history_record e), List.filterMap_cons]
  cases e.compensated? <;> rfl

end Transaction

namespace InFlight

theorem compensations_settle (status : Status) (t : Transaction S) :
    (settle status t).compensations = t.compensations := by
  unfold settle
  split
  · rename_i t' h
    rw [Transaction.moveTo_eq_ok h]
    exact (Transaction.compensations_record _ _).trans (List.append_nil _)
  · rfl

theorem compensations_unwinding (t : Transaction S) :
    (unwinding t).compensations = t.compensations := by
  show (if t.status.isExecuting then settle .rollingBack t else t).compensations = t.compensations
  split
  · exact compensations_settle .rollingBack t
  · rfl

/-- The journal of a rollback handler's calls is empty, so it tells of its run alone. -/
theorem compensations_compensate (cause : Fault) (operation : Operation)
    (handler : Operation → RollbackProgram S Unit) (f : InFlight S) :
    (compensate cause operation handler f).2.transaction.compensations =
      f.transaction.compensations ++
        [(operation, cause, (compensate cause operation handler f).1)] := by
  have hrun : ∀ {α : Type} (p : RollbackProgram S α) (f : InFlight S),
      (p.run cause f).2.transaction.journal = f.transaction.journal := by
    intro α p
    induction p with
    | pure a => exact fun f => rfl
    | fail fault => exact fun f => rfl
    | observe next ih => exact fun f => ih _ f
    | withdrawReload next ih => exact fun f => ih f.withdrawReload
    | environment change next ih => exact fun f => ih _ (f.changeEnvironment change)
  have hsame : ((handler operation).run cause f).2.transaction.compensations =
      f.transaction.compensations := by
    unfold Transaction.compensations Transaction.history
    rw [hrun]
  refine (Transaction.compensations_record _ _).trans ?_
  rw [hsame]
  rfl

theorem compensations_of_runsAll {cause : Fault}
    {handlers : List (Operation × (Operation → RollbackProgram S Unit))} {f g : InFlight S}
    {outcomes : List (Except Fault Unit)}
    (h : RollbackStack.RunsAll (compensate cause) handlers f outcomes g) :
    g.transaction.compensations = f.transaction.compensations ++
      (handlers.zip outcomes).map fun x => (x.1.1, cause, x.2) := by
  induction h with
  | nil f => exact (List.append_nil _).symm
  | @cons operation handler rest f f₁ g outcome outcomes hrun hrest ih =>
    have hfirst := compensations_compensate cause operation handler f
    rw [hrun] at hfirst
    rw [ih, hfirst, List.append_assoc]
    rfl

end InFlight

/-! ### Handlers of a transaction -/

/-- The handler that was registered, if it was a registration that was granted. -/
def Grant.handler? : Grant S → Option (Operation → RollbackProgram S Unit)
  | rollback handler => some handler
  | write _ => none

/-- The handlers registered by steps, each with the operation of its step, in order. -/
def registrations (log : List (StepGrant S)) :
    List (Operation × (Operation → RollbackProgram S Unit)) :=
  log.filterMap fun x => x.grant.handler?.map fun handler => (x.step.operation, handler)

namespace InFlight

/-- The rollback handlers are those that the steps registered, newest first, and none has run. -/
structure Registered (log : List (StepGrant S)) (f : InFlight S) : Prop where
  handlers_eq : f.transaction.rollback.handlers = (registrations log).reverse
  compensations_eq : f.transaction.compensations = []

section

variable {f₀ f f' : InFlight S} {log : List (StepGrant S)} {step : Step S}
  {agenda : Agenda (Step S)} {r : Except Fault Unit}

/-- While a step executes, the handlers that it registers come on top of those before. -/
structure Registering (step : Step S) (t u : Transaction S) (grants : List (Grant S)) : Prop
    extends Running step t u where
  handlers_eq : u.rollback.handlers =
    (grants.filterMap fun grant => grant.handler?.map fun handler =>
      (step.operation, handler)).reverse ++ t.rollback.handlers

theorem registering_keptByGrants {t : Transaction S} (step : Step S)
    (ht : t.rollback.phase = .collecting) :
    KeptByGrants fun (f : InFlight S) grants => Registering step t f.transaction grants where
  queue {f _} request h := by
    refine ⟨(running_keptByCalls step ht).queue request h.toRunning, ?_⟩
    rcases Transaction.queue_cases h.executing_eq request with ⟨-, hq⟩ | ⟨-, hq⟩
    · exact (congrArg (·.rollback.handlers) hq).trans h.handlers_eq
    · exact (congrArg (·.rollback.handlers) hq).trans h.handlers_eq
  onRollback {f log} handler h := by
    refine ⟨(running_keptByCalls step ht).onRollback handler h.toRunning, ?_⟩
    show (f.transaction.onRollback handler).2.rollback.handlers = _
    rw [Transaction.onRollback_of_collecting h.executing_eq (h.phase_eq.trans ht)]
    show (step.operation, handler) :: f.transaction.rollback.handlers = _
    rw [h.handlers_eq]
    simp [Grant.of, Grant.handler?]
  markRollbackOnly h := ⟨(running_keptByCalls step ht).markRollbackOnly h.toRunning, h.handlers_eq⟩
  askReload h := ⟨(running_keptByCalls step ht).askReload h.toRunning, h.handlers_eq⟩
  withdrawReload h := ⟨(running_keptByCalls step ht).withdrawReload h.toRunning, h.handlers_eq⟩
  attach change h := ⟨(running_keptByCalls step ht).attach change h.toRunning, h.handlers_eq⟩
  write {_ log call _ w} hstage _ h := by
    refine ⟨(running_keptByCalls step ht).write w hstage h.toRunning, h.handlers_eq.trans ?_⟩
    simp [Grant.handler?]
  setResult {f _} value h := by
    refine ⟨(running_keptByCalls step ht).setResult value h.toRunning, Eq.trans ?_ h.handlers_eq⟩
    exact congrArg (·.rollback.handlers)
      (Transaction.setResult_of_executing h.executing_eq value)
  environment _ h := h

/-- A step registers handlers and runs none, whether it fails or not. -/
theorem Registered.execute (h : Registered log f) (hf : Steady f.transaction)
    (hexecute : execute c step (f.onTransaction fun t => { t with agenda }) = (r, f')) :
    Registered (log ++ f.grantsOf c step agenda) f' ∧
      f'.transaction.rollback.phase = .collecting := by
  have hcollecting : (f.taken step agenda).transaction.rollback.phase = .collecting := hf.collecting
  obtain ⟨outcome, g, grants, hrunning, -, rfl, hregistering, hgrants⟩ :=
    hf.granted_of_execute (c := c) (registering_keptByGrants step hcollecting)
      ⟨hf.running_taken, rfl⟩ hexecute
  refine ⟨⟨?_, ?_⟩, hrunning.phase_eq.trans hcollecting⟩
  · refine hregistering.handlers_eq.trans ?_
    rw [hgrants]
    unfold registrations
    rw [List.filterMap_append, List.reverse_append, List.filterMap_map]
    exact congrArg (_ ++ ·) h.handlers_eq
  · obtain ⟨events, hevents, hhistory⟩ := hrunning.history_eq
    have hnone : events.filterMap Event.compensated? = [] :=
      List.filterMap_eq_nil_iff.2 fun e he => (hevents e he).compensated?_eq
    rw [Transaction.compensations_of_history (g.history_ended step outcome),
      Transaction.compensations_of_history hhistory, List.filterMap_cons, hnone, h.compensations_eq]
    rfl

theorem Registered.granted (h₀ : Registered [] f₀) (hsteady : Steady f₀.transaction)
    (h : Granted c f₀ log f) : Registered log f := by
  induction h with
  | start => exact h₀
  | @enter log f stage h hpop hnext ih =>
    refine ⟨ih.handlers_eq, ?_⟩
    rw [Transaction.compensations_of_history (f.history_entered stage), ih.compensations_eq]
    rfl
  | step h hpop hexecute ih => exact (ih.execute (hsteady.underway h.underway) hexecute).1

/-- An abort runs the handlers. -/
theorem Registered.abort (h : Registered log f)
    (hcollecting : f.transaction.rollback.phase = .collecting) (cause : Fault) :
    ∃ outcomes g, RollbackStack.RunsAll (compensate cause) (registrations log).reverse
        (f.onTransaction unwinding) outcomes g ∧
      (f.abort cause).1 = { cause, rollbackFaults := outcomes.filterMap Fault.of? } ∧
      (f.abort cause).2.state = g.withdrawReload.state ∧
      (f.abort cause).2.transaction.compensations =
        ((registrations log).reverse.zip outcomes).map fun x => (x.1.1, cause, x.2) := by
  have hstack := (unwinding_frame f.transaction).2
  obtain ⟨outcomes, hruns, hfaults⟩ := @RollbackStack.runsAll_runAll _ _ (compensate cause)
    (registrations log).reverse (f.onTransaction unwinding)
  have htrigger := @RollbackStack.trigger_of_collecting _ _ (compensate cause) _ hcollecting
    (f.onTransaction unwinding)
  rw [h.handlers_eq, hfaults, ← hstack] at htrigger
  refine ⟨outcomes, _, hruns, ?_⟩
  rw [abort_eq, show (f.onTransaction unwinding).transaction.rollback.trigger (compensate cause)
    (f.onTransaction unwinding) = _ from htrigger]
  refine ⟨rfl, rfl, ?_⟩
  refine (compensations_settle _ _).trans ((compensations_of_runsAll hruns).trans ?_)
  show (unwinding f.transaction).compensations ++ _ = _
  rw [compensations_unwinding, h.compensations_eq, List.nil_append]

end

end InFlight

/-! ### Submissions -/

namespace Controller

open InFlight

/-- What becomes of the rollback handlers of a transaction, by how it ends. -/
inductive Compensated (c : Controller S) (f₀ : InFlight S) : Ended S → Prop where
  /-- The transaction commits: no handler ever runs. -/
  | committed {log : List (StepGrant S)} {f : InFlight S} (h : Granted c f₀ log f)
      (hend : AtEnd f) (hnone : f.commit.2.transaction.compensations = [])
      (henvironment : f.commit.2.state.environment = f.state.environment) :
      Compensated c f₀ ⟨.ok f.transaction.results, f.commit.2⟩
  /-- A step fails the transaction: the handlers that its steps registered run, each once and the
      newest first, with the operation of the step and the cause, and the faults are theirs. -/
  | aborted {log : List (StepGrant S)} {f f' g : InFlight S} {step : Step S}
      {agenda : Agenda (Step S)} {cause : Fault} {outcomes : List (Except Fault Unit)}
      (h : Granted c f₀ log f) (hpop : f.transaction.agenda.pop? = some (step, agenda))
      (hexecute : InFlight.execute c step (f.onTransaction fun t => { t with agenda }) =
        (.error cause, f'))
      (hruns : RollbackStack.RunsAll (compensate cause)
        (registrations (log ++ f.grantsOf c step agenda)).reverse (f'.onTransaction unwinding)
          outcomes g)
      (hjournal : (f'.abort cause).2.transaction.compensations =
        ((registrations (log ++ f.grantsOf c step agenda)).reverse.zip outcomes).map fun x =>
          (x.1.1, cause, x.2))
      (hstate : (f'.abort cause).2.state = g.withdrawReload.state) :
      Compensated c f₀
        ⟨.error { cause, rollbackFaults := outcomes.filterMap Fault.of? }, (f'.abort cause).2⟩

theorem Ends.compensated {f₀ : InFlight S} (hsteady : Steady f₀.transaction)
    (h₀ : Registered [] f₀) {log : List (StepGrant S)} {ended : Ended S}
    (h : Ends c f₀ log ended) : Compensated c f₀ ended := by
  cases h with
  | @committed _ f h hend =>
    have hregistered := h₀.granted hsteady h
    obtain ⟨-, -, -, hhistory⟩ := (hsteady.underway h.underway).commit_eq hend
    refine .committed h hend ?_ ?_
    · rw [Transaction.compensations_of_history hhistory, hregistered.compensations_eq]
      rfl
    · unfold InFlight.commit
      split <;> rfl
  | @aborted log f f' step agenda cause h hpop hexecute =>
    obtain ⟨hregistered, hcollecting⟩ :=
      (h₀.granted hsteady h).execute (hsteady.underway h.underway) hexecute
    obtain ⟨outcomes, g, hruns, hfailure, hstate, hjournal⟩ := hregistered.abort hcollecting cause
    rw [hfailure]
    exact .aborted h hpop hexecute hruns hjournal hstate

theorem registered_begin (booting : Bool) (id : Nat)
    (accepted : List (Operation × RegisteredOperation S.Handler)) (s : ControllerState S) :
    Registered [] (begin booting id accepted s) := by
  constructor
  · refine (queueFirstSteps_keeps (I := fun t : Transaction S =>
      (t.agenda.closed = false ∧ t.agenda.current = none) ∧ t.rollback.handlers = []) ?_ ?_ 0
        ⟨⟨rfl, rfl⟩, rfl⟩).2
    · exact fun h => accepts_of_not_begun h.1.1 h.1.2 .model
    · exact fun origin op handler h => ⟨h.1, h.2⟩
  · unfold Transaction.compensations
    rw [history_begin]
    refine List.filterMap_eq_nil_iff.2 fun e he => ?_
    obtain ⟨i, -, rfl⟩ := List.mem_map.1 he
    rfl

/-- Rollback handlers run if a transaction fails, and never otherwise: each once, newest first, with
    the operation it was registered for and the cause of the failure, whatever becomes of the
    others. On a stack of handlers, no sequence of calls runs a handler twice, and a handler can be
    registered just as long as none were run or dropped. -/
theorem rollback_newest_first (c : Controller S) :
    (∀ {sub : Submission} {s s' : ControllerState S} {outcome : Outcome},
      c.perform sub s = .ok (outcome, s') →
        (Unbegun c sub s outcome ∧ s' = sub.after (withNextId s)) ∨
        ∃ accepted f₀ ended, Begins c sub s accepted f₀ ∧ c.conclude f₀ = some ended ∧
          Reports sub ended outcome s' ∧ Compensated c f₀ ended) ∧
    ∀ {A σ : Type} (run : Operation → A → σ → Except Fault Unit × σ)
      (calls : List (RollbackCall A)) (s : σ),
      (RollbackStack.afterCalls (RollbackStack.noting run) calls (s, [])).2.2 =
        (if RollbackCall.triggersFirst calls then (RollbackCall.registeredFirst calls).reverse
          else []) ∧
      ∀ (operation : Operation) (handler : A),
        (RollbackStack.afterCalls run calls s).1.register operation handler =
          if calls.all (·.isRegister) then
            .ok { (RollbackStack.afterCalls run calls s).1 with
              handlers := (operation, handler) ::
                (RollbackStack.afterCalls run calls s).1.handlers }
          else .error (.internal .outsideStep) := by
  constructor
  · intro sub s s' outcome h
    rcases perform_cases h with hnone | ⟨accepted, f₀, ended, hbegins, hended, hreports⟩
    · exact .inl hnone
    · obtain ⟨hsteady, hcurrent⟩ := hbegins.steady
      obtain ⟨log, hends⟩ := exists_ends hsteady hcurrent hended
      have hregistered : Registered [] f₀ := by
        obtain ⟨lock, locked, -, rfl⟩ := hbegins.locked
        exact registered_begin _ _ _ _
      exact .inr ⟨accepted, f₀, ended, hbegins, hended, hreports,
        hends.compensated hsteady hregistered⟩
  · exact fun run calls s => ⟨RollbackStack.ran_afterCalls run calls s,
      RollbackStack.register_afterCalls run calls s⟩

/-- The controller of a handler that registers two rollback handlers, of which the newer one fails,
    and of a handler that registers one and fails itself. -/
def retreating : Controller { Signature.bare with Handler := Bool, Environment := List String } where
  registry := { globals := ((∅ : SortedMap String _).insert "advance"
    ⟨{ name := "advance" }, true⟩).insert "halt" ⟨{ name := "halt" }, false⟩ }
  handle advances _ :=
    (Program.addRollback fun op => .environment (· ++ [op.name]) fun _ => .pure ()).bind fun _ =>
      if advances then
        Program.addRollback fun op => .fail (.validation (.custom op.name))
      else .fail (.validation (.custom "halted"))
  interlude := fun code => code.elim
  stepLimit := 5

/-- Three handlers run, one of which fails, from the operation that came last to the first one. -/
theorem rollback_newest_first_retreating :
    ∃ failure s', retreating.perform (.executeAll [{ name := "advance", address := .root },
        { name := "halt", address := .root }]) { environment := [] } = .ok (.error failure, s') ∧
      failure = ⟨.validation (.custom "halted"), [.validation (.custom "advance")]⟩ ∧
      s'.environment = ["halt", "advance"] ∧
      ∃ f₀ ended, ended.outcome = .error failure ∧ Compensated retreating f₀ ended := by
  have hrun : retreating.answers (.executeAll [{ name := "advance", address := .root },
      { name := "halt", address := .root }]) { environment := [] } (fun outcome s' =>
        s'.environment == ["halt", "advance"] && match outcome with
          | .ok _ => false
          | .error failure => failure ==
            ⟨.validation (.custom "halted"), [.validation (.custom "advance")]⟩) = true := by
    decide +kernel
  obtain ⟨outcome, s', h, htest⟩ := exists_of_answers hrun
  obtain ⟨henvironment, hfailure⟩ := Bool.and_eq_true_iff.1 htest
  cases outcome with
  | ok response => cases hfailure
  | error failure =>
    cases eq_of_beq hfailure
    refine ⟨_, s', h, rfl, eq_of_beq henvironment, ?_⟩
    rcases (rollback_newest_first retreating).1 h with
      ⟨hunbegun, -⟩ | ⟨-, f₀, ended, -, -, hreports, hcompensated⟩
    · cases hunbegun
    · exact ⟨f₀, ended, hreports.error_iff.1 rfl, hcompensated⟩

end Controller

end ManagedModel
