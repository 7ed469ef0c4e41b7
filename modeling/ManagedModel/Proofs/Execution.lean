import ManagedModel.Proofs.WorkingCopy
import ManagedModel.Transaction.Run

/-! # Rules for running programs

    What a program of a step handler does is computed call by call:

    * **Composition**: `run_bind_of_ok` and `run_bind_of_error` run the first
      part of a composed program and go on with its answer, or stop.
    * **Calls**: one rule for each call that the handlers of this library make.
    * **Grants**: of the calls that a program makes, `Program.grants` lists
      those granted that count at the end of the transaction: rollback handlers
      registered and changes of the model.
    * **Invariants**: what every call keeps, together with the list of what was
      granted, a program keeps (`KeptByGrants.run_or`, `KeptByCalls.run`); what
      every step keeps, a stage keeps, and so do the stages of a transaction
      (`drain_keeps`, `runStages_keeps`).
    * **Simulation**: where the steps of a stage carry out tasks on a simpler
      state, the stage does what the tasks do (`drain_foldlM`). -/

namespace ManagedModel

variable {S : Signature} {α β : Type} {c : Controller S}

namespace Program

/-! ### Composition -/

theorem bind_eq_bind (p : Program S α) (g : α → Program S β) : (p >>= g) = p.bind g := rfl

theorem run_bind_of_ok {p : Program S α} {g : α → Program S β} {f f' : InFlight S} {a : α}
    (h : p.run c f = (.ok a, f')) : (p.bind g).run c f = (g a).run c f' := by
  rw [run_bind, h]

theorem run_bind_of_error {p : Program S α} {g : α → Program S β} {f f' : InFlight S}
    {fault : Fault} (h : p.run c f = (.error fault, f')) :
    (p.bind g).run c f = (.error fault, f') := by
  rw [run_bind, h]

/-! ### Calls -/

@[simp] theorem run_ofExcept (r : Except Fault α) (f : InFlight S) :
    (Program.ofExcept r).run c f = (r, f) := by
  cases r <;> rfl

@[simp] theorem run_view (f : InFlight S) :
    (Program.view (S := S)).run c f = (.ok (f.view c), f) := rfl

@[simp] theorem run_readAt (a : Address) (f : InFlight S) :
    (Program.readAt a).run c f = (f.transaction.working.tree.require a, f) :=
  run_ofExcept _ _

theorem run_addStep (request : StepRequest S) (f : InFlight S) :
    (Program.addStep request).run c f =
      ((f.transaction.queue request).1, (f.answer (f.transaction.queue request)).2) :=
  run_ofExcept _ _

theorem run_addRollback (handler : Operation → RollbackProgram S Unit) (f : InFlight S) :
    (Program.addRollback handler).run c f =
      ((f.transaction.onRollback handler).1, (f.answer (f.transaction.onRollback handler)).2) :=
  run_ofExcept _ _

end Program

/-! ### Changes of the status -/

theorem Transaction.moveTo_eq_ok {t t' : Transaction S} {status : Status}
    (h : t.moveTo status = .ok t') : t' = { t with status }.record (.entered status) := by
  unfold Transaction.moveTo Status.moveTo at h
  split at h
  · cases h
    rfl
  · cases h

theorem Transaction.moveTo_of_allows {t : Transaction S} {status : Status}
    (h : t.status.allows status) :
    t.moveTo status = .ok ({ t with status }.record (.entered status)) := by
  unfold Transaction.moveTo Status.moveTo
  rw [if_pos h]
  rfl

/-! ### Bookkeeping -/

/-- The parts of a transaction that queueing a step, registering a rollback handler and setting
    a result leave alone. -/
structure Transaction.SameCourse (t t' : Transaction S) : Prop where
  id_eq : t'.id = t.id
  booting_eq : t'.booting = t.booting
  status_eq : t'.status = t.status
  stage_eq : t'.stage = t.stage
  working_eq : t'.working = t.working
  attachments_eq : t'.attachments = t.attachments
  reload_eq : t'.reload = t.reload
  executing_eq : t'.executing = t.executing
  rollbackOnly_eq : t'.rollbackOnly = t.rollbackOnly

theorem Transaction.sameCourse_enqueue (t : Transaction S) (parent? : Option Nat) (origin : Nat)
    (op : Operation) (request : StepRequest S) :
    t.SameCourse (t.enqueue parent? origin op request).2 := by
  unfold Transaction.enqueue
  dsimp only
  split
  · exact ⟨rfl, rfl, rfl, rfl, rfl, rfl, rfl, rfl, rfl⟩
  · exact ⟨rfl, rfl, rfl, rfl, rfl, rfl, rfl, rfl, rfl⟩

theorem Transaction.sameCourse_queue (t : Transaction S) (request : StepRequest S) :
    t.SameCourse (t.queue request).2 := by
  unfold Transaction.queue
  split
  · exact t.sameCourse_enqueue _ _ _ _
  · exact ⟨rfl, rfl, rfl, rfl, rfl, rfl, rfl, rfl, rfl⟩

theorem Transaction.sameCourse_onRollback (t : Transaction S)
    (handler : Operation → RollbackProgram S Unit) : t.SameCourse (t.onRollback handler).2 := by
  unfold Transaction.onRollback
  split
  · split
    · exact ⟨rfl, rfl, rfl, rfl, rfl, rfl, rfl, rfl, rfl⟩
    · exact ⟨rfl, rfl, rfl, rfl, rfl, rfl, rfl, rfl, rfl⟩
  · exact ⟨rfl, rfl, rfl, rfl, rfl, rfl, rfl, rfl, rfl⟩

theorem Transaction.sameCourse_setResult (t : Transaction S) (value : Value) :
    t.SameCourse (t.setResult value) := by
  unfold Transaction.setResult
  split
  · exact ⟨rfl, rfl, rfl, rfl, rfl, rfl, rfl, rfl, rfl⟩
  · exact ⟨rfl, rfl, rfl, rfl, rfl, rfl, rfl, rfl, rfl⟩

/-- The step that the executing one queues. -/
def Transaction.stepFor (t : Transaction S) (step : Step S) (request : StepRequest S) : Step S :=
  { ticket := t.nextTicket
    origin := step.origin
    operation := request.operation?.getD step.operation
    handler := request.handler }

/-- The executing step queues another one at the end of a queue that takes steps. -/
theorem Transaction.queue_of_accepts {t : Transaction S} {step : Step S}
    (he : t.executing = some step) {request : StepRequest S}
    (ha : t.agenda.accepts request.stage) (hb : request.queueEnd = .back) :
    t.queue request =
      (.ok (), { t with
        nextTicket := t.nextTicket + 1
        agenda := t.agenda.set request.stage (t.agenda.waiting request.stage ++
          [t.stepFor step request]) }.record
        (.queued t.nextTicket (some step.ticket) step.origin request.stage .back)) := by
  unfold queue enqueue Agenda.push
  rw [he, hb]
  dsimp only
  rw [if_pos ha]
  rfl

/-- The executing step registers a rollback handler while they are collected. -/
theorem Transaction.onRollback_of_collecting {t : Transaction S} {step : Step S}
    (he : t.executing = some step) (hc : t.rollback.phase = .collecting)
    (handler : Operation → RollbackProgram S Unit) :
    t.onRollback handler =
      (.ok (), { t with
        rollback := { t.rollback with
          handlers := (step.operation, handler) :: t.rollback.handlers } }.record
        (.registered step.ticket step.operation)) := by
  unfold onRollback RollbackStack.register
  rw [he]
  dsimp only
  rw [if_pos hc]

theorem Transaction.setResult_of_executing {t : Transaction S} {step : Step S}
    (he : t.executing = some step) (value : Value) :
    t.setResult value =
      { t with results := t.results.set step.origin value }.record
        (.resultSet step.ticket step.origin value) := by
  unfold setResult
  rw [he]

/-! ### Taking steps -/

theorem Agenda.pop?_of_cons {σ : Type} {q : Agenda σ} {stage : Stage} {step : σ} {rest : List σ}
    (hc : q.current = some stage) (hw : q.waiting stage = step :: rest) :
    q.pop? = some (step, q.set stage rest) := by
  unfold pop?
  rw [hc]
  dsimp only
  rw [hw]

theorem Agenda.pop?_of_nil {σ : Type} {q : Agenda σ} {stage : Stage}
    (hc : q.current = some stage) (hw : q.waiting stage = []) : q.pop? = none := by
  unfold pop?
  rw [hc]
  dsimp only
  rw [hw]

/-! ### Writing the model -/

/-- A change of the working copy as a change of the transaction, open in MODEL only. -/
def Transaction.write (t : Transaction S) (r : Except Fault (α × WorkingCopy)) :
    Except Fault (α × Transaction S) :=
  if t.stage = .model then r.map fun p => (p.1, { t with working := p.2 })
  else .error (.internal (.writeOutsideModel t.stage))

theorem Transaction.create_eq_write (t : Transaction S) (a : Address) :
    t.create a = t.write ((t.working.create a).map fun w => ((), w)) := by
  unfold Transaction.create Transaction.requireModelStage Transaction.write
  split
  · cases t.working.create a <;> rfl
  · rfl

theorem Transaction.edit_eq_write (t : Transaction S) (a : Address)
    (change : Attributes → Attributes) :
    t.edit a change = t.write (t.working.edit a change) := by
  unfold Transaction.edit Transaction.requireModelStage Transaction.write
  split
  · cases t.working.edit a change <;> rfl
  · rfl

theorem Transaction.remove_eq_write (t : Transaction S) (a : Address) :
    t.remove a = t.write (t.working.remove a) := by
  unfold Transaction.remove Transaction.requireModelStage Transaction.write
  split
  · cases t.working.remove a <;> rfl
  · rfl

namespace InFlight

/-- The transaction with another working copy. -/
def withWorking (f : InFlight S) (working : WorkingCopy) : InFlight S :=
  f.onTransaction fun t => { t with working }

/-- A change of the working copy is refused, or goes through in MODEL. -/
theorem answerOr_write (f : InFlight S) (r : Except Fault (α × WorkingCopy)) :
    (∃ fault, f.answerOr (f.transaction.write r) = (.error fault, f)) ∨
      f.transaction.stage = .model ∧
        ∃ a w, r = .ok (a, w) ∧ f.answerOr (f.transaction.write r) = (.ok a, f.withWorking w) := by
  unfold Transaction.write
  split
  · rename_i hstage
    cases r with
    | error fault => exact .inl ⟨fault, rfl⟩
    | ok p => exact .inr ⟨hstage, p.1, p.2, rfl, rfl⟩
  · exact .inl ⟨_, rfl⟩

theorem answerOr_write_ok {f : InFlight S} (hstage : f.transaction.stage = .model)
    (a : α) (w : WorkingCopy) :
    f.answerOr (f.transaction.write (.ok (a, w))) = (.ok a, f.withWorking w) := by
  unfold Transaction.write
  rw [if_pos hstage]
  rfl

theorem answerOr_write_error {f : InFlight S} (hstage : f.transaction.stage = .model)
    (fault : Fault) :
    f.answerOr (f.transaction.write (.error fault : Except Fault (α × WorkingCopy))) =
      (.error fault, f) := by
  unfold Transaction.write
  rw [if_pos hstage]
  rfl

end InFlight

namespace Program

theorem run_createAt (a : Address) (f : InFlight S) :
    (createAt a).run c f =
      f.answerOr (f.transaction.write ((f.transaction.working.create a).map fun w => ((), w))) := by
  rw [← Transaction.create_eq_write]
  exact run_ofExcept _ _

theorem run_editAt (a : Address) (change : Attributes → Attributes) (f : InFlight S) :
    (editAt a change).run c f =
      f.answerOr (f.transaction.write (f.transaction.working.edit a change)) := by
  rw [← Transaction.edit_eq_write]
  exact run_ofExcept _ _

theorem run_removeAt (a : Address) (f : InFlight S) :
    (removeAt a).run c f = f.answerOr (f.transaction.write (f.transaction.working.remove a)) := by
  rw [← Transaction.remove_eq_write]
  exact run_ofExcept _ _

end Program

/-! ### What is granted -/

/-- A call that was granted, of the kinds that count at the end of the transaction. -/
inductive Grant (S : Signature) where
  /-- A rollback handler was registered. -/
  | rollback (handler : Operation → RollbackProgram S Unit)
  /-- The model was changed. -/
  | write (call : ModelCall)

/-- What is granted by an answer to a call. -/
def Grant.of (g : Grant S) : Except Fault α → List (Grant S)
  | .ok _ => [g]
  | .error _ => []

/-- What is granted to a program, in order. -/
def Program.grants (c : Controller S) : Program S α → InFlight S → List (Grant S)
  | .pure _, _ | .fail _, _ => []
  | .observe next, f => (next (f.view c)).grants c f
  | .queue request next, f =>
    let (r, f) := f.answer (f.transaction.queue request)
    (next r).grants c f
  | .onRollback handler next, f =>
    let (r, f) := f.answer (f.transaction.onRollback handler)
    (Grant.rollback handler).of r ++ (next r).grants c f
  | .markRollbackOnly next, f =>
    next.grants c (f.onTransaction fun t => { t with rollbackOnly := true })
  | .askReload next, f => next.grants c f.askReload
  | .withdrawReload next, f => next.grants c f.withdrawReload
  | .attach change next, f =>
    (next f.transaction.attachments).grants c
      (f.onTransaction fun t => { t with attachments := change t.attachments })
  | .create a next, f =>
    let (r, f) := f.answerOr (f.transaction.create a)
    (Grant.write (.create a)).of r ++ (next r).grants c f
  | .edit a change next, f =>
    let (r, f) := f.answerOr (f.transaction.edit a change)
    (Grant.write (.edit a change)).of r ++ (next r).grants c f
  | .remove a next, f =>
    let (r, f) := f.answerOr (f.transaction.remove a)
    (Grant.write (.remove a)).of r ++ (next r).grants c f
  | .setResult value next, f => next.grants c (f.onTransaction (·.setResult value))
  | .environment change next, f =>
    (next f.state.environment).grants c (f.changeEnvironment change)
  | .interlude code next, f => next.grants c { f with state := c.interlude code f.state }

/-! ### What every call keeps -/

/-- Nothing happens on the controller beside the program: it acts on its transaction alone. -/
def Program.Uninterrupted : Program S α → Prop
  | .pure _ | .fail _ => True
  | .observe next => ∀ v, (next v).Uninterrupted
  | .queue _ next => ∀ r, (next r).Uninterrupted
  | .onRollback _ next => ∀ r, (next r).Uninterrupted
  | .markRollbackOnly next | .askReload next | .withdrawReload next => next.Uninterrupted
  | .attach _ next => ∀ a, (next a).Uninterrupted
  | .create _ next => ∀ r, (next r).Uninterrupted
  | .edit _ _ next => ∀ r, (next r).Uninterrupted
  | .remove _ next => ∀ r, (next r).Uninterrupted
  | .setResult _ next => next.Uninterrupted
  | .environment _ next => ∀ e, (next e).Uninterrupted
  | .interlude _ _ => False

theorem Program.Uninterrupted.bind {p : Program S α} {g : α → Program S β}
    (hp : p.Uninterrupted) (hg : ∀ a, (g a).Uninterrupted) : (p.bind g).Uninterrupted := by
  induction p with
  | pure a => exact hg a
  | fail fault => trivial
  | observe next ih => exact fun v => ih v (hp v)
  | queue request next ih => exact fun r => ih r (hp r)
  | onRollback handler next ih => exact fun r => ih r (hp r)
  | markRollbackOnly next ih => exact ih hp
  | askReload next ih => exact ih hp
  | withdrawReload next ih => exact ih hp
  | attach change next ih => exact fun a => ih a (hp a)
  | create a next ih => exact fun r => ih r (hp r)
  | edit a change next ih => exact fun r => ih r (hp r)
  | remove a next ih => exact fun r => ih r (hp r)
  | setResult value next ih => exact ih hp
  | environment change next ih => exact fun e => ih e (hp e)
  | interlude code next ih => exact absurd hp id

theorem Program.Uninterrupted.ofExcept (r : Except Fault α) :
    (Program.ofExcept r : Program S α).Uninterrupted := by
  cases r <;> trivial

/-- A property of transactions in flight, and of what was granted so far, that every call of a step
    handler keeps. -/
structure KeptByGrants (I : InFlight S → List (Grant S) → Prop) : Prop where
  queue : ∀ {f : InFlight S} {log : List (Grant S)} (request : StepRequest S), I f log →
    I (f.answer (f.transaction.queue request)).2 log
  onRollback : ∀ {f : InFlight S} {log : List (Grant S)}
    (handler : Operation → RollbackProgram S Unit), I f log →
      I (f.answer (f.transaction.onRollback handler)).2
        (log ++ (Grant.rollback handler).of (f.transaction.onRollback handler).1)
  markRollbackOnly : ∀ {f : InFlight S} {log : List (Grant S)}, I f log →
    I (f.onTransaction fun t => { t with rollbackOnly := true }) log
  askReload : ∀ {f : InFlight S} {log : List (Grant S)}, I f log → I f.askReload log
  withdrawReload : ∀ {f : InFlight S} {log : List (Grant S)}, I f log → I f.withdrawReload log
  attach : ∀ {f : InFlight S} {log : List (Grant S)}
    (change : Attachments S.slots → Attachments S.slots), I f log →
      I (f.onTransaction fun t => { t with attachments := change t.attachments }) log
  write : ∀ {f : InFlight S} {log : List (Grant S)} {call : ModelCall} {attributes : Attributes}
    {w : WorkingCopy}, f.transaction.stage = .model →
      call.attempt f.transaction.working = .ok (attributes, w) → I f log →
        I (f.withWorking w) (log ++ [.write call])
  setResult : ∀ {f : InFlight S} {log : List (Grant S)} (value : Value), I f log →
    I (f.onTransaction (·.setResult value)) log
  environment : ∀ {f : InFlight S} {log : List (Grant S)}
    (change : S.Environment → S.Environment), I f log → I (f.changeEnvironment change) log

/-- What every call keeps, every program keeps that has no interludes or where interludes keep it,
    too. -/
theorem KeptByGrants.run_or {I : InFlight S → List (Grant S) → Prop} (hI : KeptByGrants I)
    {p : Program S α}
    (hp : p.Uninterrupted ∨ ∀ (code : S.Interlude) (f : InFlight S) (log : List (Grant S)),
      I f log → I { f with state := c.interlude code f.state } log)
    {f : InFlight S} {log : List (Grant S)} (hf : I f log) :
    I (p.run c f).2 (log ++ p.grants c f) := by
  -- the three calls that change the model are one change of the working copy, or none
  have hwrite : ∀ {β : Type} {f : InFlight S} {log : List (Grant S)} (call : ModelCall)
      (r : Except Fault (β × WorkingCopy)),
      (∀ {b w}, r = .ok (b, w) →
        ∃ attributes, call.attempt f.transaction.working = .ok (attributes, w)) → I f log →
      I (f.answerOr (f.transaction.write r)).2
        (log ++ (Grant.write call).of (f.answerOr (f.transaction.write r)).1) := by
    intro β f log call r hr hf
    rcases InFlight.answerOr_write f r with ⟨fault, h⟩ | ⟨hstage, b, w, hok, h⟩
    · rw [h]
      exact (List.append_nil log).symm ▸ hf
    · rw [h]
      obtain ⟨attributes, hattempt⟩ := hr hok
      exact hI.write hstage hattempt hf
  -- one case for each call, with the state and the grants after it for the rest of the program
  induction p generalizing f log with
  | pure a => exact (List.append_nil log).symm ▸ hf
  | fail fault => exact (List.append_nil log).symm ▸ hf
  | observe next ih => exact ih _ (hp.imp_left fun h => h _) hf
  | queue request next ih => exact ih _ (hp.imp_left fun h => h _) (hI.queue request hf)
  | onRollback handler next ih =>
    simp only [Program.run, Program.grants, ← List.append_assoc]
    exact ih _ (hp.imp_left fun h => h _) (hI.onRollback handler hf)
  | markRollbackOnly next ih => exact ih hp (hI.markRollbackOnly hf)
  | askReload next ih => exact ih hp (hI.askReload hf)
  | withdrawReload next ih => exact ih hp (hI.withdrawReload hf)
  | attach change next ih => exact ih _ (hp.imp_left fun h => h _) (hI.attach change hf)
  | create a next ih =>
    simp only [Program.run, Program.grants, Transaction.create_eq_write, ← List.append_assoc]
    refine ih _ (hp.imp_left fun h => h _) (hwrite (.create a) _ ?_ hf)
    intro b w hok
    obtain ⟨w', hcreate, hw'⟩ := map_eq_ok.1 hok
    cases hw'
    exact ⟨∅, map_eq_ok.2 ⟨w, hcreate, rfl⟩⟩
  | edit a change next ih =>
    simp only [Program.run, Program.grants, Transaction.edit_eq_write, ← List.append_assoc]
    exact ih _ (hp.imp_left fun h => h _) (hwrite (.edit a change) _ (fun hok => ⟨_, hok⟩) hf)
  | remove a next ih =>
    simp only [Program.run, Program.grants, Transaction.remove_eq_write, ← List.append_assoc]
    exact ih _ (hp.imp_left fun h => h _) (hwrite (.remove a) _ (fun hok => ⟨_, hok⟩) hf)
  | setResult value next ih => exact ih hp (hI.setResult value hf)
  | environment change next ih =>
    exact ih _ (hp.imp_left fun h => h _) (hI.environment change hf)
  | interlude code next ih =>
    rcases hp with hnone | hkept
    · -- ruled out: something else would happen on the controller here
      exact absurd hnone id
    · exact ih (.inr hkept) (hkept code f log hf)

/-- What every call keeps of the transaction, with what was granted, every program keeps. -/
theorem KeptByGrants.run_transaction {I : Transaction S → List (Grant S) → Prop}
    (hI : KeptByGrants fun (f : InFlight S) log => I f.transaction log) (p : Program S α)
    {f : InFlight S} {log : List (Grant S)} (hf : I f.transaction log) :
    I (p.run c f).2.transaction (log ++ p.grants c f) :=
  hI.run_or (.inr fun _ _ _ h => h) hf

/-- A property of transactions in flight that every call of a step handler keeps. -/
structure KeptByCalls (I : InFlight S → Prop) : Prop where
  queue : ∀ {f : InFlight S} (request : StepRequest S), I f →
    I (f.answer (f.transaction.queue request)).2
  onRollback : ∀ {f : InFlight S} (handler : Operation → RollbackProgram S Unit), I f →
    I (f.answer (f.transaction.onRollback handler)).2
  markRollbackOnly : ∀ {f : InFlight S}, I f →
    I (f.onTransaction fun t => { t with rollbackOnly := true })
  askReload : ∀ {f : InFlight S}, I f → I f.askReload
  withdrawReload : ∀ {f : InFlight S}, I f → I f.withdrawReload
  attach : ∀ {f : InFlight S} (change : Attachments S.slots → Attachments S.slots), I f →
    I (f.onTransaction fun t => { t with attachments := change t.attachments })
  write : ∀ {f : InFlight S} (w : WorkingCopy), f.transaction.stage = .model → I f →
    I (f.withWorking w)
  setResult : ∀ {f : InFlight S} (value : Value), I f → I (f.onTransaction (·.setResult value))
  environment : ∀ {f : InFlight S} (change : S.Environment → S.Environment), I f →
    I (f.changeEnvironment change)

/-- It is kept whatever is granted. -/
theorem KeptByCalls.keptByGrants {I : InFlight S → Prop} (hI : KeptByCalls I) :
    KeptByGrants fun f _ => I f where
  queue := hI.queue
  onRollback := hI.onRollback
  markRollbackOnly := hI.markRollbackOnly
  askReload := hI.askReload
  withdrawReload := hI.withdrawReload
  attach := hI.attach
  write hstage _ := hI.write _ hstage
  setResult := hI.setResult
  environment := hI.environment

/-- What every call keeps, every program keeps that has no interludes or where interludes keep it,
    too. -/
theorem KeptByCalls.run_or {I : InFlight S → Prop} (hI : KeptByCalls I) {p : Program S α}
    (hp : p.Uninterrupted ∨
      ∀ (code : S.Interlude) (f : InFlight S), I f → I { f with state := c.interlude code f.state })
    {f : InFlight S} (hf : I f) : I (p.run c f).2 :=
  @KeptByGrants.run_or _ _ _ _ hI.keptByGrants _ (hp.imp_right fun h code f _ => h code f) f [] hf

/-- What every call keeps, every program without interludes keeps. -/
theorem KeptByCalls.run {I : InFlight S → Prop} (hI : KeptByCalls I) {p : Program S α}
    (hp : p.Uninterrupted) {f : InFlight S} (hf : I f) : I (p.run c f).2 :=
  hI.run_or (.inl hp) hf

/-- What every call keeps of the transaction, every program keeps. -/
theorem KeptByCalls.run_transaction {I : Transaction S → Prop}
    (hI : KeptByCalls fun f : InFlight S => I f.transaction) (p : Program S α) {f : InFlight S}
    (hf : I f.transaction) : I (p.run c f).2.transaction :=
  hI.run_or (.inr fun _ _ h => h) hf

namespace InFlight

/-! ### Entering a stage -/

/-- The transaction at the beginning of a stage. -/
def entered (stage : Stage) (f : InFlight S) : InFlight S :=
  f.onTransaction fun t =>
    { { t with status := .executing stage }.record (.entered (.executing stage)) with
      stage, agenda := t.agenda.enter stage }

theorem enter_eq_ok {stage : Stage} {f f' : InFlight S} (h : f.enter stage = .ok f') :
    f' = f.entered stage := by
  unfold enter at h
  cases hm : f.transaction.moveTo (.executing stage) with
  | error fault => rw [hm] at h; cases h
  | ok t =>
    rw [hm] at h
    cases h
    rw [Transaction.moveTo_eq_ok hm]
    rfl

theorem enter_of_allows {stage : Stage} {f : InFlight S}
    (h : f.transaction.status.allows (.executing stage)) : f.enter stage = .ok (f.entered stage) := by
  unfold enter
  rw [Transaction.moveTo_of_allows h]
  rfl

/-! ### Running one step -/

/-- The transaction while a step executes, before its handler makes a call. -/
def begun (step : Step S) (f : InFlight S) : InFlight S :=
  f.onTransaction fun t =>
    { t with executing := some step }.record (.started step.ticket t.stage)

/-- The transaction after a step whose handler had the given outcome. -/
def ended (step : Step S) (outcome : Except Fault Unit) (f : InFlight S) : InFlight S :=
  f.onTransaction fun t => { t with executing := none }.record (.ended step.ticket outcome)

theorem execute_of_run {step : Step S} {f f' : InFlight S} {r : Except Fault Unit}
    (h : (c.handle step.handler step.operation).run c (f.begun step) = (r, f')) :
    execute c step f = (verdict (f'.ended step r).transaction r, f'.ended step r) := by
  unfold begun at h
  unfold execute
  dsimp only
  rw [h]
  rfl

/-- Where no rule was broken and no mark was left, the handler's outcome counts. -/
theorem verdict_of_clear {t : Transaction S} (hb : t.breach = none) (hm : t.rollbackOnly = false)
    (r : Except Fault Unit) : verdict t r = r := by
  unfold verdict
  rw [hb]
  cases r with
  | error fault => rfl
  | ok u =>
    dsimp only
    rw [hm]
    rfl

theorem verdict_error {t : Transaction S} (hb : t.breach = none) (fault : Fault) :
    verdict t (.error fault) = .error fault := by
  unfold verdict
  rw [hb]

/-! ### Simulating a stage -/

theorem drain_of_empty {f : InFlight S} (h : f.transaction.agenda.pop? = none) (limit : Nat) :
    drain c limit f = some (.ok (), f) := by
  unfold drain
  rw [h]

theorem drain_of_zero {f : InFlight S} {step : Step S} {agenda : Agenda (Step S)}
    (h : f.transaction.agenda.pop? = some (step, agenda)) : drain c 0 f = none := by
  unfold drain
  rw [h]

theorem drain_of_ok {f f' : InFlight S} {step : Step S} {agenda : Agenda (Step S)}
    (h : f.transaction.agenda.pop? = some (step, agenda))
    (he : execute c step (f.onTransaction fun t => { t with agenda }) = (.ok (), f'))
    (limit : Nat) : drain c (limit + 1) f = drain c limit f' := by
  rw [drain, h]
  dsimp only
  rw [he]

theorem drain_of_error {f f' : InFlight S} {step : Step S} {agenda : Agenda (Step S)}
    {fault : Fault} (h : f.transaction.agenda.pop? = some (step, agenda))
    (he : execute c step (f.onTransaction fun t => { t with agenda }) = (.error fault, f'))
    (limit : Nat) : drain c (limit + 1) f = some (.error fault, f') := by
  rw [drain, h]
  dsimp only
  rw [he]

theorem runStages_of_none {stage : Stage} {stages : List Stage} {f f₁ : InFlight S}
    (he : f.enter stage = .ok f₁) (hd : drain c c.stepLimit f₁ = none) :
    runStages c (stage :: stages) f = none := by
  rw [runStages, he]
  dsimp only
  rw [hd]

theorem runStages_of_ok {stage : Stage} {stages : List Stage} {f f₁ f₂ : InFlight S}
    (he : f.enter stage = .ok f₁) (hd : drain c c.stepLimit f₁ = some (.ok (), f₂)) :
    runStages c (stage :: stages) f = runStages c stages f₂ := by
  rw [runStages, he]
  dsimp only
  rw [hd]

theorem runStages_of_error {stage : Stage} {stages : List Stage} {f f₁ f₂ : InFlight S}
    {fault : Fault} (he : f.enter stage = .ok f₁)
    (hd : drain c c.stepLimit f₁ = some (.error fault, f₂)) :
    runStages c (stage :: stages) f = some (.error fault, f₂) := by
  rw [runStages, he]
  dsimp only
  rw [hd]

/-- How a step that waits carries out a task: it takes the related state to the next one, or
    fails as the task does. -/
def Performs {σ τ : Type} (c : Controller S) (R : σ → List τ → InFlight S → Prop)
    (E : Fault → InFlight S → Prop) (f : InFlight S) (rest : List τ) (r : Except Fault σ) : Prop :=
  ∃ step agenda f', f.transaction.agenda.pop? = some (step, agenda) ∧
    match r with
    | .ok m =>
      execute c step (f.onTransaction fun t => { t with agenda }) = (.ok (), f') ∧ R m rest f'
    | .error fault =>
      execute c step (f.onTransaction fun t => { t with agenda }) = (.error fault, f') ∧ E fault f'

/-- A stage whose steps carry out tasks does what the tasks do one after the other, unless the
    limit is less than their number. -/
theorem drain_foldlM {σ τ : Type} {R : σ → List τ → InFlight S → Prop}
    {E : Fault → InFlight S → Prop} {next : σ → τ → Except Fault σ}
    (hstep : ∀ {m : σ} {task : τ} {rest : List τ} {f : InFlight S}, R m (task :: rest) f →
      Performs c R E f rest (next m task))
    {tasks : List τ} {m : σ} {f : InFlight S} (h : R m tasks f) (limit : Nat) :
    (limit < tasks.length ∧ drain c limit f = none) ∨
      match tasks.foldlM next m with
      | .ok m' => ∃ f' k, limit = tasks.length + k ∧ drain c limit f = drain c k f' ∧ R m' [] f'
      | .error fault => ∃ f', drain c limit f = some (.error fault, f') ∧ E fault f' := by
  -- every task takes one step, so the limit goes down with the list of tasks
  induction tasks generalizing m f limit with
  | nil => exact .inr ⟨f, limit, (Nat.zero_add _).symm, rfl, h⟩
  | cons task rest ih =>
    obtain ⟨step, agenda, f', hpop, hs⟩ := hstep h
    cases limit with
    | zero => exact .inl ⟨Nat.zero_lt_succ _, drain_of_zero hpop⟩
    | succ limit =>
      rw [List.foldlM_cons]
      cases hn : next m task with
      | error fault =>
        rw [hn] at hs
        exact .inr ⟨f', drain_of_error hpop hs.1 limit, hs.2⟩
      | ok m' =>
        rw [hn] at hs
        -- the step is taken; what is left is the same claim for one step and one task less
        rw [drain_of_ok hpop hs.1 limit]
        rcases ih hs.2 limit with ⟨hlt, hd⟩ | hd
        · exact .inl ⟨Nat.succ_lt_succ hlt, hd⟩
        · refine .inr ?_
          show match rest.foldlM next m' with
            | .ok m' => ∃ f'' k, limit + 1 = (task :: rest).length + k ∧
                drain c limit f' = drain c k f'' ∧ R m' [] f''
            | .error fault => ∃ f'', drain c limit f' = some (.error fault, f'') ∧ E fault f''
          cases hrest : rest.foldlM next m' with
          | error fault =>
            rw [hrest] at hd
            exact hd
          | ok m'' =>
            rw [hrest] at hd
            obtain ⟨f'', k, hk, hd, hR⟩ := hd
            exact ⟨f'', k, by rw [List.length_cons]; omega, hd, hR⟩

/-! ### Runs -/

/-- What every step of a stage keeps holds when the stage ends. -/
theorem drain_keeps {I : InFlight S → Prop}
    (hstep : ∀ {f : InFlight S} {step : Step S} {agenda : Agenda (Step S)}, I f →
      f.transaction.agenda.pop? = some (step, agenda) →
        I (execute c step (f.onTransaction fun t => { t with agenda })).2)
    {limit : Nat} {f f' : InFlight S} {r : Except Fault Unit}
    (h : drain c limit f = some (r, f')) (hf : I f) : I f' := by
  -- the limit bounds the steps, as steps may queue further ones
  induction limit generalizing f with
  | zero =>
    unfold drain at h
    split at h
    · cases h
      exact hf
    · cases h
  | succ limit ih =>
    unfold drain at h
    split at h
    · cases h
      exact hf
    · rename_i step agenda hpop
      have hnext := hstep hf hpop
      dsimp only at h
      split at h
      · rename_i f₁ he
        rw [he] at hnext
        exact ih h hnext
      · rename_i fault f₁ he
        rw [he] at hnext
        cases h
        exact hnext

/-- What every step and every change of the stage keeps holds when the transaction stops. -/
theorem runStages_keeps {I : InFlight S → Prop}
    (henter : ∀ {stage : Stage} {f f' : InFlight S}, I f → f.enter stage = .ok f' → I f')
    (hstep : ∀ {f : InFlight S} {step : Step S} {agenda : Agenda (Step S)}, I f →
      f.transaction.agenda.pop? = some (step, agenda) →
        I (execute c step (f.onTransaction fun t => { t with agenda })).2)
    {stages : List Stage} {f f' : InFlight S} {r : Except Fault Unit}
    (h : runStages c stages f = some (r, f')) (hf : I f) : I f' := by
  induction stages generalizing f with
  | nil =>
    cases h
    exact hf
  | cons stage stages ih =>
    unfold runStages at h
    split at h
    · cases h
      exact hf
    · rename_i f₁ hf₁
      have h₁ := henter hf hf₁
      split at h
      · rename_i f₂ hd
        exact ih h (drain_keeps hstep hd h₁)
      · exact drain_keeps hstep h h₁

end InFlight

end ManagedModel
