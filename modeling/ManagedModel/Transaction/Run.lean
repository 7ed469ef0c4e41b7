import ManagedModel.Transaction.State

/-! # Running a transaction

    * `Program.run` carries out what a handler does, call by call; `run_bind`
      and `run_attempt` say what it makes of programs put together.
    * `InFlight.execute` runs one step. Three things fail the transaction: a
      breach of the rules, even one the handler went on after; a fault of the
      handler; and the mark for rollback. They count in this order.
    * `InFlight.drain` executes a stage: steps may queue further steps, so the
      number of steps is bounded by a limit, and there is no answer when the
      limit is reached with steps left.
    * `InFlight.run` goes through the stages up to the first fault, `commit`
      makes the changes last, and `abort` runs the rollback handlers. -/

namespace ManagedModel

variable {S : Signature}

namespace InFlight

/-! ### Calls -/

/-- What a handler sees. -/
def view (c : Controller S) (f : InFlight S) : View S :=
  let t := f.transaction
  { id := t.id
    stage := t.stage
    status := t.status
    booting := t.booting
    processKind := c.processKind
    rollbackOnly := t.rollbackOnly
    reloadRequired := f.state.reload.isRequired
    working := t.working
    attachments := t.attachments
    schema? := c.registry.resource? }

/-- Changes the transaction alone. -/
def onTransaction (f : InFlight S) (change : Transaction S → Transaction S) : InFlight S :=
  { f with transaction := change f.transaction }

/-- Carries out a change of the transaction that always answers. -/
def answer {β : Type} (f : InFlight S) (r : β × Transaction S) : β × InFlight S :=
  (r.1, { f with transaction := r.2 })

/-- Carries out a change of the transaction that may be refused; a refusal changes nothing. -/
def answerOr {β : Type} (f : InFlight S) (r : Except Fault (β × Transaction S)) :
    Except Fault β × InFlight S :=
  match r with
  | .ok (b, t) => (.ok b, { f with transaction := t })
  | .error fault => (.error fault, f)

/-- Asks for a reload of the process. -/
def askReload (f : InFlight S) : InFlight S :=
  let (tracker, reload) := f.transaction.reload.raise f.state.reload
  { transaction := { f.transaction with reload := tracker }
    state := { f.state with reload } }

/-- Withdraws the transaction's request for a reload. -/
def withdrawReload (f : InFlight S) : InFlight S :=
  let (tracker, reload) := f.transaction.reload.revert f.state.reload
  { transaction := { f.transaction with reload := tracker }
    state := { f.state with reload } }

/-- Changes what lies outside the controller. -/
def changeEnvironment (f : InFlight S) (change : S.Environment → S.Environment) : InFlight S :=
  { f with state := { f.state with environment := change f.state.environment } }

end InFlight

/-- Carries out what a step handler does. -/
def Program.run {α : Type} (c : Controller S) :
    Program S α → InFlight S → Except Fault α × InFlight S
  | .pure a, f => (.ok a, f)
  | .fail fault, f => (.error fault, f)
  | .observe next, f => (next (f.view c)).run c f
  | .queue request next, f =>
    let (r, f) := f.answer (f.transaction.queue request)
    (next r).run c f
  | .onRollback handler next, f =>
    let (r, f) := f.answer (f.transaction.onRollback handler)
    (next r).run c f
  | .markRollbackOnly next, f =>
    next.run c (f.onTransaction fun t => { t with rollbackOnly := true })
  | .askReload next, f => next.run c f.askReload
  | .withdrawReload next, f => next.run c f.withdrawReload
  | .attach change next, f =>
    (next f.transaction.attachments).run c
      (f.onTransaction fun t => { t with attachments := change t.attachments })
  | .create address next, f =>
    let (r, f) := f.answerOr (f.transaction.create address)
    (next r).run c f
  | .edit address change next, f =>
    let (r, f) := f.answerOr (f.transaction.edit address change)
    (next r).run c f
  | .remove address next, f =>
    let (r, f) := f.answerOr (f.transaction.remove address)
    (next r).run c f
  | .setResult value next, f => next.run c (f.onTransaction (·.setResult value))
  | .environment change next, f =>
    (next f.state.environment).run c (f.changeEnvironment change)
  | .interlude code next, f => next.run c { f with state := c.interlude code f.state }

/-- Carries out what a rollback handler does. -/
def RollbackProgram.run {α : Type} (cause : Fault) :
    RollbackProgram S α → InFlight S → Except Fault α × InFlight S
  | .pure a, f => (.ok a, f)
  | .fail fault, f => (.error fault, f)
  | .observe next, f =>
    (next { cause
            reloadRequired := f.state.reload.isRequired
            attachments := f.transaction.attachments }).run cause f
  | .withdrawReload next, f => next.run cause f.withdrawReload
  | .environment change next, f =>
    (next f.state.environment).run cause (f.changeEnvironment change)

/-- A composed program runs its second part where the first one left off, unless that failed. -/
theorem Program.run_bind {α β : Type} (c : Controller S) (p : Program S α) (g : α → Program S β)
    (f : InFlight S) :
    (p.bind g).run c f =
      match p.run c f with
      | (.ok a, f) => (g a).run c f
      | (.error fault, f) => (.error fault, f) := by
  induction p generalizing f <;> simp_all [Program.bind, Program.run]

/-- An attempt does what the program does and never fails. -/
theorem Program.run_attempt {α : Type} (c : Controller S) (p : Program S α) (f : InFlight S) :
    p.attempt.run c f = (.ok (p.run c f).1, (p.run c f).2) := by
  induction p generalizing f <;> simp_all [Program.attempt, Program.run]

namespace InFlight

/-! ### Steps -/

/-- What counts as the outcome of a step, given what its handler returned. -/
def verdict (t : Transaction S) (outcome : Except Fault Unit) : Except Fault Unit :=
  match t.breach, outcome with
  | some fault, _ => .error fault
  | none, .error fault => .error fault
  | none, .ok () => if t.rollbackOnly then .error (.failed .rollbackOnly) else .ok ()

/-- Runs one step. -/
def execute (c : Controller S) (step : Step S) (f : InFlight S) : Except Fault Unit × InFlight S :=
  let begun := f.onTransaction fun t =>
    { t with executing := some step }.record (.started step.ticket t.stage)
  let (outcome, f) := (c.handle step.handler step.operation).run c begun
  let f := f.onTransaction fun t =>
    { t with executing := none }.record (.ended step.ticket outcome)
  (verdict f.transaction outcome, f)

/-- Runs the steps waiting for the current stage, and those they queue for it, up to the first
    fault. There is no answer when `limit` steps have run and another one waits. -/
def drain (c : Controller S) : (limit : Nat) → InFlight S →
    Option (Except Fault Unit × InFlight S)
  | limit, f =>
    match f.transaction.agenda.pop? with
    | none => some (.ok (), f)
    | some (step, agenda) =>
      match limit with
      | 0 => none
      | limit + 1 =>
        match execute c step (f.onTransaction fun t => { t with agenda }) with
        | (.ok (), f) => drain c limit f
        | (.error fault, f) => some (.error fault, f)

/-- Begins a stage. -/
def enter (stage : Stage) (f : InFlight S) : Except Fault (InFlight S) := do
  let t ← f.transaction.moveTo (.executing stage)
  return { f with transaction := { t with stage, agenda := t.agenda.enter stage } }

/-- Goes through stages up to the first fault. -/
def runStages (c : Controller S) : List Stage → InFlight S →
    Option (Except Fault Unit × InFlight S)
  | [], f => some (.ok (), f)
  | stage :: stages, f =>
    match f.enter stage with
    | .error fault => some (.error fault, f)
    | .ok f =>
      match drain c c.stepLimit f with
      | some (.ok (), f) => runStages c stages f
      | r => r

/-- Runs the transaction up to the first fault. -/
def run (c : Controller S) (f : InFlight S) : Option (Except Fault Unit × InFlight S) :=
  match f.transaction.breach with
  | some fault => some (.error fault, f)
  | none => runStages c Stage.all f

/-! ### The end of a transaction -/

/-- The transaction without waiting steps and rollback handlers. -/
def settled (t : Transaction S) : Transaction S :=
  { t with agenda := t.agenda.close, rollback := t.rollback.discard }

/-- Makes the changes of the transaction last. -/
def commit (f : InFlight S) : Except Fault Unit × InFlight S :=
  match f.transaction.moveTo .committed with
  | .error fault => (.error fault, f)
  | .ok t =>
    let t := settled t
    let (tracker, reload) := t.reload.commit f.state.reload
    (.ok (),
      { transaction := { t with reload := tracker }
        state := { f.state with reload, store := f.state.store.publish t.working } })

/-- Runs one rollback handler. -/
def compensate (cause : Fault) (operation : Operation)
    (handler : Operation → RollbackProgram S Unit) (f : InFlight S) :
    Except Fault Unit × InFlight S :=
  let (outcome, f) := (handler operation).run cause f
  (outcome, f.onTransaction (·.record (.compensated operation cause outcome)))

/-- Changes the status where that is allowed. -/
def settle (status : Status) (t : Transaction S) : Transaction S :=
  match t.moveTo status with
  | .ok t => t
  | .error _ => t

/-- Unwinds the transaction: its rollback handlers run, its request for a reload is withdrawn,
    and its working copy is left behind. -/
def abort (cause : Fault) (f : InFlight S) : Failure × InFlight S :=
  let f := f.onTransaction fun t =>
    let t := if t.status.isExecuting then settle .rollingBack t else t
    { t with agenda := t.agenda.close }
  let (faults, rollback, f) := f.transaction.rollback.trigger (compensate cause) f
  let f := f.onTransaction fun t => { t with rollback }
  let f := f.withdrawReload
  ({ cause, rollbackFaults := faults }, f.onTransaction (settle .aborted))

end InFlight

end ManagedModel
