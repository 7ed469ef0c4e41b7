import Mathlib.Logic.Relation
import ManagedModel.Proofs.Submission

/-! # Progress of a transaction

    A transaction goes from state to state between its steps: it enters the
    next stage when no step waits for the current one, and otherwise executes
    the step at the front.

    * `Move` is this step relation, and `Underway` are the states that a
      transaction passes through. There is never a choice between moves
      (`Move.unique`).
    * `Steady` is what holds in all of these states (`Steady.underway`), and
      `Running` what holds while the handler of a step makes its calls.
    * A run ends where the last stage is done or where a step fails; the limit
      on steps can only interrupt it (`Goes`, `run_goes`). `Concludes` adds the
      commit or the abort that follows. -/

namespace ManagedModel

variable {S : Signature} {c : Controller S}

/-! ### The journal -/

namespace Event

/-- The event is one that a call of a step handler leaves. -/
def IsOfCall : Event → Prop
  | queued .. | refused .. | resultSet .. | registered .. => True
  | entered _ | started .. | ended .. | compensated .. => False

/-- The event is the run of a rollback handler. -/
def IsCompensation : Event → Prop
  | compensated .. => True
  | _ => False

/-- The status that was entered. -/
def entered? : Event → Option Status
  | entered status => some status
  | _ => none

/-- The step that began to execute, by its ticket, and the stage. -/
def started? : Event → Option (Nat × Stage)
  | started ticket stage => some (ticket, stage)
  | _ => none

/-- The stage that a step was refused for. -/
def refusedStage? : Event → Option Stage
  | refused _ _ _ stage => some stage
  | _ => none

section

variable {e : Event}

theorem IsOfCall.entered?_eq (h : e.IsOfCall) : e.entered? = none := by
  cases e <;> first | rfl | exact absurd h id

theorem IsOfCall.started?_eq (h : e.IsOfCall) : e.started? = none := by
  cases e <;> first | rfl | exact absurd h id

theorem IsCompensation.entered?_eq (h : e.IsCompensation) : e.entered? = none := by
  cases e <;> first | rfl | exact absurd h id

theorem IsCompensation.started?_eq (h : e.IsCompensation) : e.started? = none := by
  cases e <;> first | rfl | exact absurd h id

end

end Event

namespace Transaction

/-- What happened so far, in order. -/
def history (t : Transaction S) : List Event := t.journal.reverse

/-- The statuses entered so far, in order. -/
def statuses (t : Transaction S) : List Status := t.history.filterMap Event.entered?

/-- The steps executed so far, in order. -/
def started (t : Transaction S) : List (Nat × Stage) := t.history.filterMap Event.started?

/-- The stage of the first refusal so far. -/
def refusal? (t : Transaction S) : Option Stage := t.history.findSome? Event.refusedStage?

theorem history_record (t : Transaction S) (e : Event) :
    (t.record e).history = t.history ++ [e] :=
  List.reverse_cons

section

variable {t u : Transaction S} {events : List Event}

theorem statuses_of_history (h : u.history = t.history ++ events) :
    u.statuses = t.statuses ++ events.filterMap Event.entered? := by
  unfold statuses
  rw [h, List.filterMap_append]

theorem started_of_history (h : u.history = t.history ++ events) :
    u.started = t.started ++ events.filterMap Event.started? := by
  unfold started
  rw [h, List.filterMap_append]

theorem refusal?_of_history (h : u.history = t.history ++ events) :
    u.refusal? = t.refusal?.or (events.findSome? Event.refusedStage?) := by
  unfold refusal?
  rw [h, List.findSome?_append]

end

end Transaction

/-! ### Queueing -/

namespace Agenda

variable {σ : Type} {q : Agenda σ} {stage : Stage}

@[simp] theorem current_set (q : Agenda σ) (stage : Stage) (steps : List σ) :
    (q.set stage steps).current = q.current := by
  cases stage <;> rfl

@[simp] theorem closed_set (q : Agenda σ) (stage : Stage) (steps : List σ) :
    (q.set stage steps).closed = q.closed := by
  cases stage <;> rfl

theorem pop?_eq_some {step : σ} {q' : Agenda σ} (h : q.pop? = some (step, q')) :
    ∃ stage rest, q.current = some stage ∧ q.waiting stage = step :: rest ∧
      q' = q.set stage rest := by
  unfold pop? at h
  split at h
  · cases h
  · rename_i stage hcurrent
    split at h
    · cases h
    · rename_i first rest hwaiting
      cases h
      exact ⟨stage, rest, hcurrent, hwaiting, rfl⟩

theorem pop?_eq_none (h : q.pop? = none) (hcurrent : q.current = some stage) :
    q.waiting stage = [] := by
  cases hwaiting : q.waiting stage with
  | nil => rfl
  | cons step rest =>
    rw [pop?_of_cons hcurrent hwaiting] at h
    cases h

theorem pop?_of_not_begun (h : q.current = none) : q.pop? = none := by
  unfold pop?
  rw [h]

end Agenda

namespace Transaction

variable {t : Transaction S} {request : StepRequest S}

/-- The transaction with a step more in the queue of a stage. -/
def queued (t : Transaction S) (parent? : Option Nat) (origin : Nat) (operation : Operation)
    (request : StepRequest S) : Transaction S :=
  let step : Step S := { ticket := t.nextTicket, origin, operation, handler := request.handler }
  { t with
    nextTicket := t.nextTicket + 1
    agenda := t.agenda.set request.stage
      (match request.queueEnd with
       | .front => step :: t.agenda.waiting request.stage
       | .back => t.agenda.waiting request.stage ++ [step]) }.record
    (.queued t.nextTicket parent? origin request.stage request.queueEnd)

/-- The transaction after a step was refused. -/
def refused (t : Transaction S) (parent? : Option Nat) (origin : Nat) (stage : Stage) :
    Transaction S :=
  ({ t with nextTicket := t.nextTicket + 1 }.breaches (.internal (.stageCompleted stage))).record
    (.refused t.nextTicket parent? origin stage)

theorem enqueue_of_accepts (h : t.agenda.accepts request.stage = true) (parent? : Option Nat)
    (origin : Nat) (op : Operation) :
    t.enqueue parent? origin op request = (.ok (), t.queued parent? origin op request) := by
  unfold enqueue Agenda.push
  dsimp only
  rw [if_pos h]
  rfl

theorem enqueue_of_refuses (h : t.agenda.accepts request.stage = false) (parent? : Option Nat)
    (origin : Nat) (op : Operation) :
    t.enqueue parent? origin op request =
      (.error (.internal (.stageCompleted request.stage)),
        t.refused parent? origin request.stage) := by
  unfold enqueue Agenda.push
  dsimp only
  rw [if_neg (by rw [h]; exact Bool.false_ne_true)]
  rfl

theorem history_queued (t : Transaction S) (parent? : Option Nat) (origin : Nat) (op : Operation)
    (request : StepRequest S) :
    (t.queued parent? origin op request).history =
      t.history ++ [.queued t.nextTicket parent? origin request.stage request.queueEnd] :=
  history_record _ _

theorem history_refused (t : Transaction S) (parent? : Option Nat) (origin : Nat) (stage : Stage) :
    (t.refused parent? origin stage).history =
      t.history ++ [.refused t.nextTicket parent? origin stage] :=
  history_record _ _

/-- A call that queues a step has it queued or refused. -/
theorem queue_cases {step : Step S} (he : t.executing = some step) (request : StepRequest S) :
    t.agenda.accepts request.stage = true ∧
        (t.queue request).2 = t.queued (some step.ticket) step.origin
          (request.operation?.getD step.operation) request ∨
      t.agenda.accepts request.stage = false ∧
        (t.queue request).2 = t.refused (some step.ticket) step.origin request.stage := by
  unfold queue
  rw [he]
  cases h : t.agenda.accepts request.stage with
  | true => exact .inl ⟨rfl, congrArg Prod.snd (enqueue_of_accepts h _ _ _)⟩
  | false => exact .inr ⟨rfl, congrArg Prod.snd (enqueue_of_refuses h _ _ _)⟩

end Transaction

/-! ### Moves -/

namespace Stage

/-- The stages that come after the current one. -/
def following : Option Stage → List Stage
  | none => all
  | some model => [runtime, verify]
  | some runtime => [verify]
  | some verify => []

theorem following_of_cons {current? : Option Stage} {stage : Stage} {stages : List Stage}
    (h : following current? = stage :: stages) : following (some stage) = stages := by
  revert h
  rcases current? with _ | _ | _ | _ <;> rintro ⟨⟩ <;> rfl

end Stage

namespace InFlight

/-- What a transaction does next. -/
inductive Move (c : Controller S) (f : InFlight S) : InFlight S → Prop where
  /-- No step waits for the current stage, and the next one begins. -/
  | enter {stage : Stage} (hpop : f.transaction.agenda.pop? = none)
      (hnext : (Stage.following f.transaction.agenda.current).head? = some stage) :
      Move c f (f.entered stage)
  /-- The step at the front executes and does not fail the transaction. -/
  | step {f' : InFlight S} {step : Step S} {agenda : Agenda (Step S)}
      (hpop : f.transaction.agenda.pop? = some (step, agenda))
      (hexecute : execute c step (f.onTransaction fun t => { t with agenda }) = (.ok (), f')) :
      Move c f f'

/-- The states that a transaction passes through between its steps. -/
def Underway (c : Controller S) : InFlight S → InFlight S → Prop :=
  Relation.ReflTransGen (Move c)

/-- The step at the front executes and fails the transaction. -/
def FailsTo (c : Controller S) (f : InFlight S) (cause : Fault) (f' : InFlight S) : Prop :=
  ∃ step agenda, f.transaction.agenda.pop? = some (step, agenda) ∧
    execute c step (f.onTransaction fun t => { t with agenda }) = (.error cause, f')

/-- No step waits, and the last stage is reached. -/
structure AtEnd (f : InFlight S) : Prop where
  empty : f.transaction.agenda.pop? = none
  last : Stage.following f.transaction.agenda.current = []

/-- What a transaction does next, computed. -/
def next? (c : Controller S) (f : InFlight S) : Option (InFlight S) :=
  match f.transaction.agenda.pop? with
  | none => (Stage.following f.transaction.agenda.current).head?.map f.entered
  | some (step, agenda) =>
    match execute c step (f.onTransaction fun t => { t with agenda }) with
    | (.ok (), f') => some f'
    | (.error _, _) => none

theorem move_iff {f f' : InFlight S} : Move c f f' ↔ next? c f = some f' := by
  unfold next?
  constructor
  · rintro (⟨hpop, hnext⟩ | ⟨hpop, hexecute⟩)
    · rw [hpop]
      exact congrArg (Option.map f.entered) hnext
    · rw [hpop]
      dsimp only
      rw [hexecute]
  · intro h
    cases hpop : f.transaction.agenda.pop? with
    | none =>
      rw [hpop] at h
      obtain ⟨stage, hnext, rfl⟩ := Option.map_eq_some_iff.1 h
      exact .enter hpop hnext
    | some popped =>
      rw [hpop] at h
      dsimp only at h
      split at h
      · rename_i hexecute
        cases h
        exact .step hpop hexecute
      · cases h

/-- A transaction that has not begun a stage begins with MODEL. -/
theorem Move.eq_of_not_begun {f f' : InFlight S} (h : Move c f f')
    (hcurrent : f.transaction.agenda.current = none) : f' = f.entered .model := by
  cases h with
  | enter hpop hnext =>
    rw [hcurrent] at hnext
    cases hnext
    rfl
  | step hpop hexecute =>
    rw [Agenda.pop?_of_not_begun hcurrent] at hpop
    cases hpop

/-- There is never a choice between moves. -/
theorem Move.unique : Relator.RightUnique (Move c) :=
  fun _ _ _ h h' => Option.some.inj ((move_iff.1 h).symm.trans (move_iff.1 h'))

/-- What a transaction has come to after so many moves. -/
def after? (c : Controller S) : Nat → InFlight S → Option (InFlight S)
  | 0, f => some f
  | n + 1, f => (next? c f).bind (after? c n)

theorem underway_of_after {n : Nat} {f g : InFlight S} (h : after? c n f = some g) :
    Underway c f g := by
  induction n generalizing f with
  | zero =>
    cases h
    exact .refl
  | succ n ih =>
    obtain ⟨f', hnext, hafter⟩ := Option.bind_eq_some_iff.1 h
    exact .head (move_iff.2 hnext) (ih hafter)

theorem FailsTo.not_move {f f' g : InFlight S} {cause : Fault} (h : FailsTo c f cause f') :
    ¬ Move c f g := by
  obtain ⟨step, agenda, hpop, hexecute⟩ := h
  rw [move_iff]
  unfold next?
  rw [hpop]
  dsimp only
  rw [hexecute]
  exact nofun

theorem AtEnd.not_move {f g : InFlight S} (h : AtEnd f) : ¬ Move c f g := by
  rw [move_iff]
  unfold next?
  rw [h.empty, h.last]
  exact nofun

/-- A transaction passes through no states after one in which it stops. -/
theorem Underway.of_stops {f₀ f g : InFlight S} (hf : Underway c f₀ f)
    (hstops : ∀ g, ¬ Move c f g) (hg : Underway c f₀ g) : Underway c g f := by
  rcases Relation.ReflTransGen.total_of_right_unique Move.unique hf hg with hfg | hgf
  · rcases Relation.ReflTransGen.cases_head hfg with rfl | ⟨h, hmove, -⟩
    · exact .refl
    · exact absurd hmove (hstops h)
  · exact hgf

theorem Underway.eq_of_stops {f₀ f g : InFlight S} (hf : Underway c f₀ f)
    (hstops : ∀ g, ¬ Move c f g) (hg : Underway c f₀ g) (hstops' : ∀ f, ¬ Move c g f) : f = g := by
  rcases Relation.ReflTransGen.cases_head (hf.of_stops hstops hg) with rfl | ⟨h, hmove, -⟩
  · rfl
  · exact absurd hmove (hstops' h)

/-! ### Between steps and in a step -/

/-- Between its steps, a transaction has no failure on record and its status tells the stage. -/
structure Steady (t : Transaction S) : Prop where
  status_eq : t.status = (t.agenda.current.map Status.executing).getD .pending
  stage_eq : ∀ {stage : Stage}, t.agenda.current = some stage → t.stage = stage
  isOpen : t.agenda.closed = false
  collecting : t.rollback.phase = .collecting
  executing_eq : t.executing = none
  breach_eq : t.breach = none
  refusal?_eq : t.refusal? = none
  rollbackOnly_eq : t.rollbackOnly = false
  statuses_append : t.statuses ++ (Stage.following t.agenda.current).map Status.executing =
    Stage.all.map Status.executing

/-- While the handler of a step makes its calls, the transaction is as it was when the handler
    began, but for what the calls left in the journal and what they recorded as a breach. -/
structure Running (step : Step S) (t u : Transaction S) : Prop where
  executing_eq : u.executing = some step
  status_eq : u.status = t.status
  stage_eq : u.stage = t.stage
  current_eq : u.agenda.current = t.agenda.current
  closed_eq : u.agenda.closed = t.agenda.closed
  phase_eq : u.rollback.phase = t.rollback.phase
  breach_eq : u.breach = u.refusal?.map fun stage => .internal (.stageCompleted stage)
  calls : ∃ events, u.history = t.history ++ events ∧ ∀ e ∈ events, e.IsOfCall

section

variable {step : Step S} {t u : Transaction S}

/-- A call that leaves an event, and no refusal, in the journal. -/
theorem Running.record (h : Running step t u) {e : Event} (hcall : e.IsOfCall)
    (hrefused : e.refusedStage? = none) : Running step t (u.record e) := by
  obtain ⟨events, hhistory, hevents⟩ := h.calls
  refine ⟨h.executing_eq, h.status_eq, h.stage_eq, h.current_eq, h.closed_eq, h.phase_eq, ?_,
    events ++ [e], ?_, ?_⟩
  · rw [Transaction.refusal?_of_history (u.history_record e), List.findSome?_singleton, hrefused,
      Option.or_none]
    exact h.breach_eq
  · rw [u.history_record, hhistory, List.append_assoc]
  · exact List.forall_mem_append.2 ⟨hevents, List.forall_mem_singleton.2 hcall⟩

theorem Running.queued (h : Running step t u) (parent? : Option Nat) (origin : Nat)
    (op : Operation) (request : StepRequest S) :
    Running step t (u.queued parent? origin op request) := by
  refine Running.record (u := { u with nextTicket := u.nextTicket + 1, agenda := _ })
    ⟨h.executing_eq, h.status_eq, h.stage_eq, ?_, ?_, h.phase_eq, h.breach_eq, h.calls⟩ trivial rfl
  · exact (Agenda.current_set _ _ _).trans h.current_eq
  · exact (Agenda.closed_set _ _ _).trans h.closed_eq

/-- A refusal is a breach of the rules, and the first one is remembered. -/
theorem Running.refused (h : Running step t u) (parent? : Option Nat) (origin : Nat)
    (stage : Stage) : Running step t (u.refused parent? origin stage) := by
  obtain ⟨events, hhistory, hevents⟩ := h.calls
  refine ⟨h.executing_eq, h.status_eq, h.stage_eq, h.current_eq, h.closed_eq, h.phase_eq, ?_,
    events ++ [.refused u.nextTicket parent? origin stage], ?_, ?_⟩
  · rw [Transaction.refusal?_of_history (u.history_refused parent? origin stage)]
    show (u.breach <|> some (.internal (.stageCompleted stage))) = _
    rw [h.breach_eq]
    cases u.refusal? <;> rfl
  · rw [Transaction.history_refused, hhistory, List.append_assoc]
  · exact List.forall_mem_append.2 ⟨hevents, List.forall_mem_singleton.2 trivial⟩

/-- Whatever a handler calls for, the transaction stays on course. -/
theorem running_keptByCalls (step : Step S) (ht : t.rollback.phase = .collecting) :
    KeptByCalls fun f : InFlight S => Running step t f.transaction where
  queue {f} request h := by
    show Running step t (f.transaction.queue request).2
    rcases Transaction.queue_cases h.executing_eq request with ⟨-, hq⟩ | ⟨-, hq⟩
    · rw [hq]
      exact h.queued _ _ _ _
    · rw [hq]
      exact h.refused _ _ _
  onRollback {f} handler h := by
    show Running step t (f.transaction.onRollback handler).2
    rw [Transaction.onRollback_of_collecting h.executing_eq (h.phase_eq.trans ht)]
    exact Running.record (u := { f.transaction with rollback := { f.transaction.rollback with
      handlers := (step.operation, handler) :: f.transaction.rollback.handlers } })
      ⟨h.1, h.2, h.3, h.4, h.5, h.6, h.7, h.8⟩ trivial rfl
  markRollbackOnly h := ⟨h.1, h.2, h.3, h.4, h.5, h.6, h.7, h.8⟩
  askReload h := ⟨h.1, h.2, h.3, h.4, h.5, h.6, h.7, h.8⟩
  withdrawReload h := ⟨h.1, h.2, h.3, h.4, h.5, h.6, h.7, h.8⟩
  attach _ h := ⟨h.1, h.2, h.3, h.4, h.5, h.6, h.7, h.8⟩
  write _ _ h := ⟨h.1, h.2, h.3, h.4, h.5, h.6, h.7, h.8⟩
  setResult {f} value h := by
    show Running step t (f.transaction.setResult value)
    rw [Transaction.setResult_of_executing h.executing_eq]
    exact Running.record
      (u := { f.transaction with results := f.transaction.results.set step.origin value })
      ⟨h.1, h.2, h.3, h.4, h.5, h.6, h.7, h.8⟩ trivial rfl
  environment _ h := h

end

/-! ### One step -/

/-- The transaction when the handler of a step begins. -/
def taken (step : Step S) (agenda : Agenda (Step S)) (f : InFlight S) : InFlight S :=
  (f.onTransaction fun t => { t with agenda }).begun step

section

variable {f f' g : InFlight S} {step : Step S} {agenda : Agenda (Step S)}
  {outcome : Except Fault Unit}

theorem history_taken (f : InFlight S) (step : Step S) (agenda : Agenda (Step S)) :
    (f.taken step agenda).transaction.history =
      f.transaction.history ++ [.started step.ticket f.transaction.stage] :=
  Transaction.history_record _ _

theorem history_ended (g : InFlight S) (step : Step S) (outcome : Except Fault Unit) :
    (g.ended step outcome).transaction.history =
      g.transaction.history ++ [.ended step.ticket outcome] :=
  Transaction.history_record _ _

theorem history_entered (f : InFlight S) (stage : Stage) :
    (f.entered stage).transaction.history =
      f.transaction.history ++ [.entered (.executing stage)] :=
  Transaction.history_record _ _

theorem execute_taken
    (hrun : (c.handle step.handler step.operation).run c (f.taken step agenda) = (outcome, g)) :
    execute c step (f.onTransaction fun t => { t with agenda }) =
      (verdict (g.ended step outcome).transaction outcome, g.ended step outcome) :=
  execute_of_run hrun

theorem verdict_eq_ok {t : Transaction S} :
    verdict t outcome = .ok () ↔
      t.breach = none ∧ outcome = .ok () ∧ t.rollbackOnly = false := by
  unfold verdict
  cases t.breach with
  | some fault => simp
  | none =>
    cases outcome with
    | error fault => simp
    | ok u =>
      cases t.rollbackOnly with
      | true => simp
      | false => simp

theorem Steady.running_taken (h : Steady f.transaction) :
    Running step (f.taken step agenda).transaction (f.taken step agenda).transaction := by
  refine ⟨rfl, rfl, rfl, rfl, rfl, rfl, ?_, [], (List.append_nil _).symm, fun e he => nomatch he⟩
  rw [Transaction.refusal?_of_history (f.history_taken step agenda), h.refusal?_eq]
  exact h.breach_eq

/-- A step leaves the course of a steady transaction to the handler's calls. -/
theorem Steady.running (h : Steady f.transaction)
    (hrun : (c.handle step.handler step.operation).run c (f.taken step agenda) = (outcome, g)) :
    Running step (f.taken step agenda).transaction g.transaction := by
  have hcollecting : (f.taken step agenda).transaction.rollback.phase = .collecting := h.collecting
  have hkept := KeptByCalls.run_transaction (c := c) (running_keptByCalls step hcollecting)
    (c.handle step.handler step.operation) h.running_taken
  rw [hrun] at hkept
  exact hkept

/-- What the journal says of a step. -/
theorem Running.history_eq
    (h : Running step (f.taken step agenda).transaction g.transaction) :
    ∃ events, (∀ e ∈ events, e.IsOfCall) ∧ g.transaction.history =
      f.transaction.history ++ .started step.ticket f.transaction.stage :: events := by
  obtain ⟨events, hhistory, hevents⟩ := h.calls
  rw [history_taken, List.append_assoc] at hhistory
  exact ⟨events, hevents, hhistory⟩

theorem Running.statuses_eq
    (h : Running step (f.taken step agenda).transaction g.transaction) :
    g.transaction.statuses = f.transaction.statuses := by
  obtain ⟨events, hevents, hhistory⟩ := h.history_eq
  have hnone : events.filterMap Event.entered? = [] :=
    List.filterMap_eq_nil_iff.2 fun e he => (hevents e he).entered?_eq
  rw [Transaction.statuses_of_history hhistory, List.filterMap_cons, hnone]
  exact List.append_nil _

/-- A step is executed once. -/
theorem Running.started_eq
    (h : Running step (f.taken step agenda).transaction g.transaction) :
    g.transaction.started = f.transaction.started ++ [(step.ticket, f.transaction.stage)] := by
  obtain ⟨events, hevents, hhistory⟩ := h.history_eq
  have hnone : events.filterMap Event.started? = [] :=
    List.filterMap_eq_nil_iff.2 fun e he => (hevents e he).started?_eq
  rw [Transaction.started_of_history hhistory, List.filterMap_cons, hnone]
  rfl

theorem statuses_ended (g : InFlight S) (step : Step S) (outcome : Except Fault Unit) :
    (g.ended step outcome).transaction.statuses = g.transaction.statuses :=
  (Transaction.statuses_of_history (g.history_ended step outcome)).trans (List.append_nil _)

theorem started_ended (g : InFlight S) (step : Step S) (outcome : Except Fault Unit) :
    (g.ended step outcome).transaction.started = g.transaction.started :=
  (Transaction.started_of_history (g.history_ended step outcome)).trans (List.append_nil _)

/-- What it means that a step was executed. -/
theorem Steady.of_execute (h : Steady f.transaction) {r : Except Fault Unit}
    (hexecute : execute c step (f.onTransaction fun t => { t with agenda }) = (r, f')) :
    ∃ outcome g, (c.handle step.handler step.operation).run c (f.taken step agenda) = (outcome, g) ∧
      Running step (f.taken step agenda).transaction g.transaction ∧
      r = verdict (g.ended step outcome).transaction outcome ∧ f' = g.ended step outcome := by
  cases hrun : (c.handle step.handler step.operation).run c (f.taken step agenda) with
  | mk outcome g =>
    rw [execute_taken hrun] at hexecute
    obtain ⟨rfl, rfl⟩ := Prod.mk.inj hexecute
    exact ⟨outcome, g, rfl, h.running hrun, rfl, rfl⟩

/-- The journal is only written to. -/
theorem Steady.prefix_of_execute (h : Steady f.transaction) {r : Except Fault Unit}
    (hexecute : execute c step (f.onTransaction fun t => { t with agenda }) = (r, f')) :
    f.transaction.history <+: f'.transaction.history := by
  obtain ⟨outcome, g, -, hrunning, -, rfl⟩ := h.of_execute hexecute
  obtain ⟨events, -, hhistory⟩ := hrunning.history_eq
  rw [history_ended, hhistory, List.append_assoc]
  exact List.prefix_append _ _

/-- After a step that does not fail the transaction, it is steady again, in the same stage. -/
theorem Steady.after_step (h : Steady f.transaction)
    (hpop : f.transaction.agenda.pop? = some (step, agenda))
    (hexecute : execute c step (f.onTransaction fun t => { t with agenda }) = (.ok (), f')) :
    Steady f'.transaction ∧ f'.transaction.agenda.current = f.transaction.agenda.current ∧
      f'.transaction.started = f.transaction.started ++ [(step.ticket, f.transaction.stage)] := by
  obtain ⟨stage, rest, hcurrent, -, rfl⟩ := Agenda.pop?_eq_some hpop
  obtain ⟨outcome, g, -, hrunning, hverdict, rfl⟩ := h.of_execute hexecute
  obtain ⟨hbreach, -, hmark⟩ := verdict_eq_ok.1 hverdict.symm
  have hsame : (g.ended step outcome).transaction.agenda.current = f.transaction.agenda.current :=
    hrunning.current_eq.trans (Agenda.current_set _ _ _)
  have hrefusal : g.transaction.refusal? = none := by
    have hnone : g.transaction.breach = none := hbreach
    rw [hrunning.breach_eq] at hnone
    exact Option.map_eq_none_iff.1 hnone
  refine ⟨⟨?_, ?_, ?_, ?_, rfl, hbreach, ?_, hmark, ?_⟩, hsame,
    (started_ended g step outcome).trans hrunning.started_eq⟩
  · rw [hsame]
    exact hrunning.status_eq.trans h.status_eq
  · intro stage hstage
    rw [hsame] at hstage
    exact hrunning.stage_eq.trans (h.stage_eq hstage)
  · exact (hrunning.closed_eq.trans (Agenda.closed_set _ _ _)).trans h.isOpen
  · exact hrunning.phase_eq.trans h.collecting
  · rw [Transaction.refusal?_of_history (g.history_ended step outcome), hrefusal]
    rfl
  · rw [statuses_ended, hrunning.statuses_eq, hsame]
    exact h.statuses_append

/-- The next stage may begin, and then the transaction is steady again. -/
theorem Steady.after_enter (h : Steady f.transaction) {stage : Stage}
    (hnext : (Stage.following f.transaction.agenda.current).head? = some stage) :
    f.transaction.status.allows (.executing stage) = true ∧
      Steady (f.entered stage).transaction := by
  have hallows : f.transaction.status.allows (.executing stage) = true ∧
      Stage.following f.transaction.agenda.current = stage :: Stage.following (some stage) := by
    rw [h.status_eq]
    cases hcurrent : f.transaction.agenda.current with
    | none =>
      rw [hcurrent] at hnext
      cases hnext
      exact ⟨rfl, rfl⟩
    | some current =>
      rw [hcurrent] at hnext
      cases current with
      | model =>
        cases hnext
        exact ⟨rfl, rfl⟩
      | runtime =>
        cases hnext
        exact ⟨rfl, rfl⟩
      | verify => cases hnext
  refine ⟨hallows.1, rfl, ?_, h.isOpen, h.collecting, h.executing_eq, h.breach_eq, ?_,
    h.rollbackOnly_eq, ?_⟩
  · intro stage' hstage'
    cases hstage'
    rfl
  · rw [Transaction.refusal?_of_history (f.history_entered stage), h.refusal?_eq]
    rfl
  · have happend := h.statuses_append
    rw [hallows.2, List.map_cons] at happend
    rw [Transaction.statuses_of_history (f.history_entered stage), List.append_assoc]
    exact happend

theorem Steady.move (h : Steady f.transaction) (hmove : Move c f f') : Steady f'.transaction := by
  cases hmove with
  | enter hpop hnext => exact (h.after_enter hnext).2
  | step hpop hexecute => exact (h.after_step hpop hexecute).1

theorem Steady.underway (h : Steady f.transaction) (hf : Underway c f f') :
    Steady f'.transaction := by
  induction hf with
  | refl => exact h
  | tail _ hmove ih => exact ih.move hmove

theorem Steady.prefix_of_underway (h : Steady f.transaction) (hf : Underway c f f') :
    f.transaction.history <+: f'.transaction.history := by
  induction hf with
  | refl => exact List.prefix_rfl
  | @tail g f' hg hmove ih =>
    refine ih.trans ?_
    cases hmove with
    | @enter stage hpop hnext =>
      rw [history_entered]
      exact List.prefix_append _ _
    | step hpop hexecute => exact (h.underway hg).prefix_of_execute hexecute

end

/-! ### Runs -/

/-- How a run goes: it ends as it should, a step fails, or it is interrupted with a step waiting
    when at least `limit` steps have been executed. -/
inductive Goes (c : Controller S) (f : InFlight S) (limit : Nat) (done : InFlight S → Prop) :
    Option (Except Fault Unit × InFlight S) → Prop where
  | ended {f' : InFlight S} (h : Underway c f f') (hdone : done f') :
      Goes c f limit done (some (.ok (), f'))
  | failed {g f' : InFlight S} {cause : Fault} (h : Underway c f g)
      (hfails : FailsTo c g cause f') : Goes c f limit done (some (.error cause, f'))
  | interrupted {g : InFlight S} {waiting : Step S × Agenda (Step S)} (h : Underway c f g)
      (hpop : g.transaction.agenda.pop? = some waiting)
      (hlimit : limit ≤ g.transaction.started.length) : Goes c f limit done none

section

variable {f f' : InFlight S} {limit limit' : Nat} {done done' : InFlight S → Prop}
  {r : Option (Except Fault Unit × InFlight S)}

/-- A run goes on with what is left to do. -/
theorem Goes.after (h : Underway c f f') (hr : Goes c f' limit done r) : Goes c f limit done r := by
  cases hr with
  | ended hf hdone => exact .ended (h.trans hf) hdone
  | failed hf hfails => exact .failed (h.trans hf) hfails
  | interrupted hf hpop hlimit => exact .interrupted (h.trans hf) hpop hlimit

theorem Goes.mono (hr : Goes c f limit done r) (hlimit : limit' ≤ limit)
    (hdone : ∀ f', done f' → done' f') : Goes c f limit' done' r := by
  cases hr with
  | ended hf h => exact .ended hf (hdone _ h)
  | failed hf hfails => exact .failed hf hfails
  | interrupted hf hpop h => exact .interrupted hf hpop (Nat.le_trans hlimit h)

theorem drain_goes (hf : Steady f.transaction) (limit : Nat) :
    Goes c f (f.transaction.started.length + limit)
      (fun f' => f'.transaction.agenda.pop? = none ∧
        f'.transaction.agenda.current = f.transaction.agenda.current)
      (drain c limit f) := by
  -- the limit bounds the steps, as steps may queue further ones
  induction limit generalizing f with
  | zero =>
    cases hpop : f.transaction.agenda.pop? with
    | none =>
      rw [drain_of_empty hpop]
      exact .ended .refl ⟨hpop, rfl⟩
    | some waiting =>
      rw [drain_of_zero hpop]
      exact .interrupted .refl hpop (Nat.le_refl _)
  | succ limit ih =>
    cases hpop : f.transaction.agenda.pop? with
    | none =>
      rw [drain_of_empty hpop]
      exact .ended .refl ⟨hpop, rfl⟩
    | some waiting =>
      obtain ⟨step, agenda⟩ := waiting
      cases hexecute : execute c step (f.onTransaction fun t => { t with agenda }) with
      | mk verdict f₁ =>
        cases verdict with
        | error cause =>
          rw [drain_of_error hpop hexecute]
          exact .failed .refl ⟨step, agenda, hpop, hexecute⟩
        | ok =>
          rw [drain_of_ok hpop hexecute]
          obtain ⟨hsteady, hcurrent, hstarted⟩ := hf.after_step hpop hexecute
          refine Goes.after (.single (.step hpop hexecute)) ((ih hsteady).mono ?_ ?_)
          · rw [hstarted, List.length_append, List.length_singleton]
            omega
          · exact fun f' h => ⟨h.1, h.2.trans hcurrent⟩

theorem runStages_goes (hf : Steady f.transaction) (hpop : f.transaction.agenda.pop? = none)
    {stages : List Stage} (hstages : Stage.following f.transaction.agenda.current = stages) :
    Goes c f c.stepLimit AtEnd (runStages c stages f) := by
  induction stages generalizing f with
  | nil => exact .ended .refl ⟨hpop, hstages⟩
  | cons stage stages ih =>
    have hnext : (Stage.following f.transaction.agenda.current).head? = some stage := by
      rw [hstages]
      rfl
    obtain ⟨hallows, hsteady⟩ := hf.after_enter hnext
    have henter := enter_of_allows hallows
    have hmove : Move c f (f.entered stage) := .enter hpop hnext
    refine Goes.after (.single hmove) ?_
    have hdrain := drain_goes (c := c) hsteady c.stepLimit
    cases hr : drain c c.stepLimit (f.entered stage) with
    | none =>
      rw [runStages_of_none henter hr]
      rw [hr] at hdrain
      cases hdrain with
      | interrupted h hpop hlimit => exact .interrupted h hpop (by omega)
    | some p =>
      obtain ⟨verdict, f₁⟩ := p
      rw [hr] at hdrain
      cases hdrain with
      | failed h hfails =>
        rw [runStages_of_error henter hr]
        exact .failed h hfails
      | ended h hdone =>
        rw [runStages_of_ok henter hr]
        refine Goes.after h (ih (hsteady.underway h) hdone.1 ?_)
        rw [hdone.2]
        exact Stage.following_of_cons hstages

/-- A transaction that has not begun a stage runs through all of them, up to the first failure. -/
theorem run_goes (hf : Steady f.transaction) (hcurrent : f.transaction.agenda.current = none) :
    Goes c f c.stepLimit AtEnd (f.run c) := by
  unfold InFlight.run
  rw [hf.breach_eq]
  refine runStages_goes hf (Agenda.pop?_of_not_begun hcurrent) ?_
  rw [hcurrent]
  rfl

end

/-! ### The end -/

section

variable {f f' : InFlight S} {stage : Stage}

theorem settle_of_allows {t : Transaction S} {status : Status} (h : t.status.allows status) :
    settle status t = { t with status }.record (.entered status) := by
  unfold settle
  rw [Transaction.moveTo_of_allows h]

/-- An abort passes through the rollback, where nothing but rollback handlers run, and keeps the
    cause. -/
theorem abort_history (cause : Fault) (hstatus : f.transaction.status = .executing stage) :
    (f.abort cause).1.cause = cause ∧ (f.abort cause).2.transaction.status = .aborted ∧
      ∃ events, (∀ e ∈ events, e.IsCompensation) ∧ (f.abort cause).2.transaction.history =
        f.transaction.history ++ .entered .rollingBack :: events ++ [.entered .aborted] := by
  let base := f.transaction.history ++ [.entered .rollingBack]
  let I := fun g : InFlight S => g.transaction.status = .rollingBack ∧
    ∃ events, (∀ e ∈ events, e.IsCompensation) ∧ g.transaction.history = base ++ events
  have hI : KeptByRollback I := by
    refine ⟨fun h => h, fun _ h => h, ?_⟩
    rintro g op cause outcome ⟨hg, events, hevents, hhistory⟩
    refine ⟨hg, events ++ [.compensated op cause outcome], ?_, ?_⟩
    · exact List.forall_mem_append.2 ⟨hevents, List.forall_mem_singleton.2 trivial⟩
    · rw [← List.append_assoc, ← hhistory]
      exact Transaction.history_record _ _
  have hunwinding : (unwinding f.transaction).status = .rollingBack ∧
      (unwinding f.transaction).history = base := by
    have hsettle : settle .rollingBack f.transaction =
        { f.transaction with status := .rollingBack }.record (.entered .rollingBack) := by
      refine settle_of_allows ?_
      rw [hstatus]
      cases stage <;> rfl
    have hexecuting : f.transaction.status.isExecuting = true := by
      rw [hstatus]
      rfl
    unfold unwinding
    rw [if_pos hexecuting, hsettle]
    exact ⟨rfl, Transaction.history_record _ _⟩
  have htriggered := hI.trigger cause (f := f.onTransaction unwinding)
    ⟨hunwinding.1, [], (fun e he => nomatch he), hunwinding.2.trans (List.append_nil _).symm⟩
  rw [abort_eq]
  generalize (f.onTransaction unwinding).transaction.rollback.trigger (compensate cause)
    (f.onTransaction unwinding) = r at htriggered
  obtain ⟨faults, rollback, g⟩ := r
  obtain ⟨hrolling, events, hevents, hhistory⟩ := htriggered
  -- what is left is to withdraw the request for a reload and to enter the last status
  have hlast : (settle .aborted
      ((g.onTransaction fun t => { t with rollback }).withdrawReload).transaction).status = .aborted ∧
      (settle .aborted
        ((g.onTransaction fun t => { t with rollback }).withdrawReload).transaction).history =
          g.transaction.history ++ [.entered .aborted] := by
    rw [settle_of_allows]
    · exact ⟨rfl, Transaction.history_record _ _⟩
    · show g.transaction.status.allows .aborted = true
      rw [show g.transaction.status = _ from hrolling]
      rfl
  refine ⟨rfl, hlast.1, events, hevents, hlast.2.trans ?_⟩
  rw [show g.transaction.history = _ from hhistory]
  simp [base]

theorem Steady.status_eq_executing (h : Steady f.transaction)
    (hcurrent : f.transaction.agenda.current = some stage) :
    f.transaction.status = .executing stage := by
  rw [h.status_eq, hcurrent]
  rfl

/-- A step that fails the transaction leaves it to be aborted with the step's cause. -/
theorem FailsTo.abort_history {cause : Fault} (hf : Steady f.transaction)
    (h : FailsTo c f cause f') :
    (f'.abort cause).1.cause = cause ∧ (f'.abort cause).2.transaction.status = .aborted ∧
      ∃ events, (∀ e ∈ events, e.IsCompensation) ∧ (f'.abort cause).2.transaction.history =
        f'.transaction.history ++ .entered .rollingBack :: events ++ [.entered .aborted] := by
  obtain ⟨step, agenda, hpop, hexecute⟩ := h
  obtain ⟨stage, rest, hcurrent, -, -⟩ := Agenda.pop?_eq_some hpop
  obtain ⟨outcome, g, -, hrunning, -, rfl⟩ := hf.of_execute hexecute
  exact InFlight.abort_history cause (hrunning.status_eq.trans (hf.status_eq_executing hcurrent))

theorem AtEnd.current_eq (h : AtEnd f) : f.transaction.agenda.current = some .verify := by
  have hlast := h.last
  rcases hcurrent : f.transaction.agenda.current with _ | _ | _ | _ <;> rw [hcurrent] at hlast <;>
    first | rfl | cases hlast

theorem Steady.moveTo_committed (h : Steady f.transaction) (hend : AtEnd f) :
    f.transaction.moveTo .committed =
      .ok ({ f.transaction with status := .committed }.record (.entered .committed)) := by
  refine Transaction.moveTo_of_allows ?_
  rw [h.status_eq_executing hend.current_eq]
  rfl

/-- A transaction at its end may commit. -/
theorem Steady.commit_eq (h : Steady f.transaction) (hend : AtEnd f) :
    f.commit.1 = .ok () ∧ f.commit.2.transaction.status = .committed ∧
      f.commit.2.transaction.results = f.transaction.results ∧
      f.commit.2.transaction.history = f.transaction.history ++ [.entered .committed] := by
  unfold commit
  rw [h.moveTo_committed hend]
  exact ⟨rfl, rfl, rfl, Transaction.history_record _ _⟩

end

end InFlight

/-! ### Whole transactions -/

namespace Controller

open InFlight

/-- How a transaction comes to its end: it goes through all stages and commits, a step fails and it
    aborts, or it is interrupted with a step waiting when at least as many steps have been executed
    as a stage may have. -/
inductive Concludes (c : Controller S) (f₀ : InFlight S) : Option (Ended S) → Prop where
  | committed {f : InFlight S} (h : Underway c f₀ f) (hend : AtEnd f) :
      Concludes c f₀ (some ⟨.ok f.transaction.results, f.commit.2⟩)
  | aborted {f f' : InFlight S} {cause : Fault} (h : Underway c f₀ f)
      (hfails : FailsTo c f cause f') :
      Concludes c f₀ (some ⟨.error (f'.abort cause).1, (f'.abort cause).2⟩)
  | interrupted {f : InFlight S} {waiting : Step S × Agenda (Step S)} (h : Underway c f₀ f)
      (hpop : f.transaction.agenda.pop? = some waiting)
      (hlimit : c.stepLimit ≤ f.transaction.started.length) : Concludes c f₀ none

theorem concludes {f₀ : InFlight S} (h : Steady f₀.transaction)
    (hcurrent : f₀.transaction.agenda.current = none) : Concludes c f₀ (c.conclude f₀) := by
  have hrun := run_goes (c := c) h hcurrent
  unfold conclude
  cases hr : f₀.run c with
  | none =>
    rw [hr] at hrun
    cases hrun with
    | interrupted hf hpop hlimit => exact .interrupted hf hpop hlimit
  | some p =>
    obtain ⟨verdict, f⟩ := p
    rw [hr] at hrun
    cases hrun with
    | failed hf hfails => exact .aborted hf hfails
    | ended hf hend =>
      obtain ⟨hok, -, hresults, -⟩ := (h.underway hf).commit_eq hend
      have hcommit : f.commit = (.ok (), f.commit.2) := by rw [← hok]
      dsimp only
      rw [hcommit]
      dsimp only
      rw [hresults]
      exact .committed hf hend

section

variable {t : Transaction S} {accepted : List (Operation × RegisteredOperation S.Handler)}

/-- What holds while the first steps are queued holds when all of them are. -/
theorem queueFirstSteps_keeps {I : Transaction S → Prop}
    (haccepts : ∀ {t : Transaction S}, I t → t.agenda.accepts .model = true)
    (hI : ∀ {t : Transaction S} (origin : Nat) (op : Operation) (handler : S.Handler), I t →
      I (t.queued none origin op { stage := .model, handler }))
    (origin : Nat) (ht : I t) : I (queueFirstSteps origin accepted t) := by
  induction accepted generalizing origin t with
  | nil => exact ht
  | cons a rest ih =>
    obtain ⟨op, entry⟩ := a
    unfold queueFirstSteps
    rw [Transaction.enqueue_of_accepts (haccepts ht)]
    exact ih (origin + 1) (hI origin op entry.handler ht)

theorem accepts_of_not_begun (hopen : t.agenda.closed = false) (hcurrent : t.agenda.current = none)
    (stage : Stage) : t.agenda.accepts stage = true := by
  unfold Agenda.accepts
  rw [hopen, hcurrent]
  rfl

theorem steady_queued (h : Steady t) (hcurrent : t.agenda.current = none) (origin : Nat)
    (op : Operation) (handler : S.Handler) :
    Steady (t.queued none origin op { stage := .model, handler }) ∧
      (t.queued none origin op { stage := .model, handler }).agenda.current = none := by
  have hsame : (t.queued none origin op { stage := .model, handler }).agenda.current = none :=
    hcurrent
  have hhistory := t.history_queued none origin op { stage := .model, handler }
  refine ⟨⟨?_, ?_, h.isOpen, h.collecting, h.executing_eq, h.breach_eq, ?_, h.rollbackOnly_eq, ?_⟩,
    hsame⟩
  · exact h.status_eq
  · exact h.stage_eq
  · rw [Transaction.refusal?_of_history hhistory, h.refusal?_eq]
    rfl
  · rw [Transaction.statuses_of_history hhistory]
    exact (congrArg (· ++ _) (List.append_nil _)).trans h.statuses_append

/-- A transaction that has not begun a stage is steady. -/
theorem steady_begin (booting : Bool) (id : Nat)
    (accepted : List (Operation × RegisteredOperation S.Handler)) (s : ControllerState S) :
    Steady (begin booting id accepted s).transaction ∧
      (begin booting id accepted s).transaction.agenda.current = none := by
  refine queueFirstSteps_keeps (I := fun t => Steady t ∧ t.agenda.current = none) ?_ ?_ 0 ?_
  · exact fun h => accepts_of_not_begun h.1.isOpen h.2 .model
  · exact fun origin op handler h => steady_queued h.1 h.2 origin op handler
  · exact ⟨⟨rfl, (fun h => nomatch h), rfl, rfl, rfl, rfl, rfl, rfl, rfl⟩, rfl⟩

/-- The journal opens with the first steps of the submitted operations, in their order. -/
theorem history_queueFirstSteps (hopen : t.agenda.closed = false)
    (hcurrent : t.agenda.current = none) (origin : Nat) :
    (queueFirstSteps origin accepted t).history = t.history ++
      (List.range accepted.length).map fun i =>
        .queued (t.nextTicket + i) none (origin + i) .model .back := by
  induction accepted generalizing origin t with
  | nil => exact (List.append_nil _).symm
  | cons a rest ih =>
    obtain ⟨op, entry⟩ := a
    unfold queueFirstSteps
    rw [Transaction.enqueue_of_accepts (accepts_of_not_begun hopen hcurrent _),
      ih (t := t.queued none origin op { stage := .model, handler := entry.handler }) hopen hcurrent,
      List.length_cons, List.range_succ_eq_map, List.map_cons, List.map_map]
    rw [Transaction.history_queued, List.append_assoc]
    refine congrArg (t.history ++ ·) (congrArg (_ :: ·) (List.map_congr_left fun i _ => ?_))
    show Event.queued (t.nextTicket + 1 + i) none (origin + 1 + i) .model .back =
      .queued (t.nextTicket + (i + 1)) none (origin + (i + 1)) .model .back
    rw [Nat.add_right_comm, Nat.add_right_comm origin]
    rfl

theorem history_begin (booting : Bool) (id : Nat)
    (accepted : List (Operation × RegisteredOperation S.Handler)) (s : ControllerState S) :
    (begin booting id accepted s).transaction.history =
      (List.range accepted.length).map fun i => .queued i none i .model .back := by
  refine (history_queueFirstSteps rfl rfl 0).trans ?_
  rw [show (Transaction.new id booting (.ofTree s.store.tree (writeScope accepted))
    accepted.length : Transaction S).history = [] from rfl, List.nil_append]
  refine List.map_congr_left fun i _ => ?_
  show Event.queued (0 + i) none (0 + i) .model .back = _
  rw [Nat.zero_add]

end

end Controller

end ManagedModel
