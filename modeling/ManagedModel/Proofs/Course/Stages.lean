import ManagedModel.Proofs.Course.Alignment
import ManagedModel.Proofs.Isolation

/-! # Stages of a transaction of built-in operations

    Ties a transaction in flight to the working copy that its MODEL steps
    draft and to the alignment that its other steps carry out.

    * `InFlight.At` says where a transaction stands: what its steps have drafted
      and aligned so far, and which steps wait.
    * `Steps` says what a program does to the alignment; it has one rule for
      each call, and one for putting programs together.
    * `drain_runtime` and `drain_verify` say what RUNTIME and VERIFY do,
      and `Undoable.abort` what a rollback does. -/

namespace ManagedModel

variable {X : Signature}

/-- What the steps of RUNTIME and VERIFY leave alone. -/
structure Setting (X : Signature) where
  cfg : PropertyConfig
  /-- The state that the transaction began in. -/
  start : ControllerState X.withProperties
  id : Nat
  booting : Bool
  working : WorkingCopy
  results : List Value

/-- The state of the controller while the process is aligned. -/
def Setting.stateAt (σ : Setting X) (m : Alignment) : ControllerState X.withProperties :=
  { σ.start with
    reload := if m.raised then σ.start.reload.request σ.id else σ.start.reload
    environment := { σ.start.environment with live := m.live } }

namespace InFlight

/-- The controller's state, and the request for a reload, are as the alignment tells. -/
structure Reflects (σ : Setting X) (m : Alignment) (f : InFlight X.withProperties) : Prop where
  state_eq : f.state = σ.stateAt m
  tracker_eq : f.transaction.reload = { id := σ.id, raised := m.raised }

/-- The rollback handlers are the ways back of the alignment. -/
structure Undoable (σ : Setting X) (m : Alignment) (f : InFlight X.withProperties) : Prop
    extends Reflects σ m f where
  collecting : f.transaction.rollback.phase = .collecting
  undo_eq : f.transaction.rollback.handlers.map (·.2) = m.undo.map (Undo.handler σ.cfg)

/-- The transaction executes a stage, the process is aligned as `m` tells, and the steps that
    wait for RUNTIME have the given handlers. -/
structure At (σ : Setting X) (stage : Stage) (waiting : List (ModelHandler X.Handler))
    (m : Alignment) (f : InFlight X.withProperties) : Prop extends Undoable σ m f where
  booting_eq : f.transaction.booting = σ.booting
  working_eq : f.transaction.working = σ.working
  results_eq : f.transaction.results = σ.results
  status_eq : f.transaction.status = .executing stage
  stage_eq : f.transaction.stage = stage
  current_eq : f.transaction.agenda.current = some stage
  closed_eq : f.transaction.agenda.closed = false
  runtime_eq : f.transaction.agenda.runtime.map (·.handler) = waiting
  verify_eq : f.transaction.agenda.verify.map (·.handler) =
    m.checks.map fun name => .property (.verify name)
  parked_eq : f.transaction.attachments.get? Property.parkedKey = m.parked?
  breach_eq : f.transaction.breach = none
  rollbackOnly_eq : f.transaction.rollbackOnly = false

variable {c : Controller X.withProperties} {σ : Setting X} {stage : Stage}
  {waiting : List (ModelHandler X.Handler)} {m : Alignment} {f : InFlight X.withProperties}

theorem At.begun (h : f.At σ stage waiting m) (step : Step X.withProperties) :
    (f.begun step).At σ stage waiting m :=
  { h with }

theorem At.ended (h : f.At σ stage waiting m) (step : Step X.withProperties)
    (outcome : Except Fault Unit) : (f.ended step outcome).At σ stage waiting m :=
  { h with }

end InFlight

/-! ### What programs do to the alignment -/

section Steps

variable {c : Controller X.withProperties} {σ : Setting X} {stage : Stage}
  {waiting waiting' waiting'' : List (ModelHandler X.Handler)} {m m' m'' : Alignment}
  {α β : Type}

/-- Within a step, the program gives the answer and takes the alignment, and the handlers that
    wait, from the first to the second ones. -/
def Steps (c : Controller X.withProperties) (σ : Setting X) (stage : Stage)
    (p : Program X.withProperties α) (waiting : List (ModelHandler X.Handler)) (m : Alignment)
    (a : α) (waiting' : List (ModelHandler X.Handler)) (m' : Alignment) : Prop :=
  ∀ f : InFlight X.withProperties, f.At σ stage waiting m → f.transaction.executing.isSome →
    ∃ f', p.run c f = (.ok a, f') ∧ f'.At σ stage waiting' m' ∧ f'.transaction.executing.isSome

namespace Steps

theorem pure (a : α) : Steps c σ stage (.pure a) waiting m a waiting m :=
  fun f hf he => ⟨f, rfl, hf, he⟩

theorem bind {p : Program X.withProperties α} {g : α → Program X.withProperties β} {a : α} {b : β}
    (hp : Steps c σ stage p waiting m a waiting' m')
    (hg : Steps c σ stage (g a) waiting' m' b waiting'' m'') :
    Steps c σ stage (p.bind g) waiting m b waiting'' m'' := by
  intro f hf he
  obtain ⟨f', hrun, hf', he'⟩ := hp f hf he
  obtain ⟨f'', hrun', hf'', he''⟩ := hg f' hf' he'
  exact ⟨f'', (Program.run_bind_of_ok hrun).trans hrun', hf'', he''⟩

/-- What a program reads of the alignment may be taken as known. -/
theorem view {g : View X.withProperties → Program X.withProperties β} {b : β}
    (hg : ∀ v : View X.withProperties, v.booting = σ.booting →
      v.attachments.get? Property.parkedKey = m.parked? →
        Steps c σ stage (g v) waiting m b waiting' m') :
    Steps c σ stage (Program.view.bind g) waiting m b waiting' m' := by
  intro f hf he
  exact hg (f.view c) hf.booting_eq hf.parked_eq f hf he

theorem readLive : Steps c σ stage Property.readLive waiting m m.live waiting m := by
  intro f hf he
  refine ⟨f, ?_, hf, he⟩
  show (Except.ok f.state.environment.live, f) = (Except.ok m.live, f)
  rw [hf.state_eq]
  rfl

theorem readParked? : Steps c σ stage Property.readParked? waiting m m.parked? waiting m := by
  intro f hf he
  refine ⟨f, ?_, hf, he⟩
  show (Except.ok (f.transaction.attachments.get? Property.parkedKey), f) = (Except.ok m.parked?, f)
  rw [hf.parked_eq]

theorem changeLive (change : LiveProperties → LiveProperties) :
    Steps c σ stage (Property.changeLive change) waiting m () waiting
      { m with live := change m.live } := by
  intro f hf he
  refine ⟨_, rfl, { hf with state_eq := ?_ }, he⟩
  show (f.changeEnvironment fun e => { e with live := change e.live }).state = _
  unfold InFlight.changeEnvironment
  rw [hf.state_eq]
  rfl

theorem changeParked (change : ParkedValues → ParkedValues) :
    Steps c σ stage (Property.changeParked change) waiting m () waiting
      { m with parked? := m.parked?.map change } := by
  intro f hf he
  refine ⟨_, rfl, { hf with parked_eq := ?_ }, he⟩
  show ((f.transaction.attachments.modify Property.parkedKey change).2).get? _ = _
  unfold Attachments.modify
  rw [hf.parked_eq]
  cases h : m.parked? with
  | none => exact hf.parked_eq.trans h
  | some p => exact Attachments.get?_fill_self _ _ _

/-- A way back is registered while the transaction may still be rolled back. -/
theorem addRollback (u : Undo) {handler : Operation → RollbackProgram X.withProperties Unit}
    (hu : handler = u.handler σ.cfg) :
    Steps c σ stage (Program.addRollback handler) waiting m () waiting
      { m with undo := u :: m.undo } := by
  intro f hf he
  obtain ⟨step, hstep⟩ := Option.isSome_iff_exists.1 he
  have hreg := Transaction.onRollback_of_collecting hstep hf.collecting handler
  refine ⟨(f.answer (f.transaction.onRollback handler)).2, ?_, ?_, ?_⟩
  · rw [Program.run_addRollback, hreg]
  · rw [hreg]
    refine { hf with undo_eq := ?_ }
    show handler :: f.transaction.rollback.handlers.map (·.2) = _
    rw [hf.undo_eq, hu]
    rfl
  · rw [hreg]
    exact he

theorem askReload :
    Steps c σ stage (.askReload (.pure ())) waiting m () waiting { m with raised := true } := by
  intro f hf he
  refine ⟨f.askReload, rfl, { hf with state_eq := ?_, tracker_eq := ?_ }, he⟩
  · show ({ f.state with reload := f.state.reload.request f.transaction.reload.id } :
      ControllerState _) = _
    rw [hf.state_eq, hf.tracker_eq]
    unfold Setting.stateAt
    dsimp only
    -- a second request changes nothing
    split
    · rw [ReloadState.request_request]
      rfl
    · rfl
  · show { f.transaction.reload with raised := true } = _
    rw [hf.tracker_eq]

/-- In RUNTIME the strict pass may still be queued. -/
theorem queuePass :
    Steps c σ .runtime (Program.addStep { stage := .runtime, handler := .property .applyParked })
      waiting m () (waiting ++ [.property .applyParked]) m := by
  intro f hf he
  obtain ⟨step, hstep⟩ := Option.isSome_iff_exists.1 he
  have ha : f.transaction.agenda.accepts .runtime := by
    unfold Agenda.accepts
    rw [hf.closed_eq, hf.current_eq]
    decide
  let request : StepRequest X.withProperties :=
    { stage := .runtime, handler := .property .applyParked }
  have hq : f.transaction.queue request = _ := Transaction.queue_of_accepts hstep ha rfl
  refine ⟨(f.answer (f.transaction.queue request)).2, ?_, ?_, ?_⟩
  · rw [Program.run_addStep, hq]
  · rw [hq]
    refine { hf with runtime_eq := ?_ }
    show (f.transaction.agenda.runtime ++ [f.transaction.stepFor step request]).map (·.handler) = _
    rw [List.map_append, hf.runtime_eq]
    rfl
  · rw [hq]
    exact he

/-- In RUNTIME checks may be queued for VERIFY. -/
theorem queueCheck (name : String) :
    Steps c σ .runtime (Program.addStep { stage := .verify, handler := .property (.verify name) })
      waiting m () waiting { m with checks := m.checks ++ [name] } := by
  intro f hf he
  obtain ⟨step, hstep⟩ := Option.isSome_iff_exists.1 he
  have ha : f.transaction.agenda.accepts .verify := by
    unfold Agenda.accepts
    rw [hf.closed_eq, hf.current_eq]
    decide
  let request : StepRequest X.withProperties :=
    { stage := .verify, handler := .property (.verify name) }
  have hq : f.transaction.queue request = _ := Transaction.queue_of_accepts hstep ha rfl
  refine ⟨(f.answer (f.transaction.queue request)).2, ?_, ?_, ?_⟩
  · rw [Program.run_addStep, hq]
  · rw [hq]
    refine { hf with verify_eq := ?_ }
    show (f.transaction.agenda.verify ++ [f.transaction.stepFor step request]).map (·.handler) = _
    rw [List.map_append, List.map_append, hf.verify_eq]
    rfl
  · rw [hq]
    exact he

theorem fillParked (p : ParkedValues) :
    Steps c σ stage (Program.attach (fun a => a.fill Property.parkedKey p) fun _ => .pure ())
      waiting m () waiting { m with parked? := some p } := by
  intro f hf he
  exact ⟨_, rfl, { hf with parked_eq := Attachments.get?_fill_self _ _ _ }, he⟩

/-! ### RUNTIME -/

theorem replaceParked (p : ParkedValues) (hp : m.parked?.isSome) :
    Steps c σ stage (Property.changeParked fun _ => p) waiting m () waiting
      { m with parked? := some p } := by
  obtain ⟨q, hq⟩ := Option.isSome_iff_exists.1 hp
  have hparked : some p = m.parked?.map fun _ => p := by
    rw [hq]
    rfl
  rw [hparked]
  exact changeParked fun _ => p

theorem retryParked :
    ∃ n, Steps c σ stage (Property.retryParked σ.cfg) waiting m n waiting (m.retry σ.cfg) := by
  unfold Alignment.retry
  cases hp : m.parked? with
  | none =>
    refine ⟨0, readParked?.bind ?_⟩
    rw [hp]
    exact pure 0
  | some p =>
    refine ⟨(p.retry σ.cfg m.live).1, readParked?.bind ?_⟩
    rw [hp]
    refine readLive.bind ((replaceParked _ ?_).bind ((changeLive _).bind (pure _)))
    rw [hp]
    rfl

/-- With the first deferral while booting, the strict pass is queued. -/
theorem defer (name : String) (model : Attributes) (fault : Fault) :
    Steps c σ .runtime (Property.defer name model fault) (waiting ++ m.passSteps) m ()
      (waiting ++ (m.defer σ.booting name model fault).passSteps)
      (m.defer σ.booting name model fault) := by
  refine view fun v hbooting hparked => ?_
  rw [hbooting, hparked]
  have hqueued : (m.parked?.getD {}).passQueued = m.passQueued := by
    unfold Alignment.passQueued
    cases m.parked? <;> rfl
  -- what is parked is stored, the check is queued, and then perhaps the pass
  refine (fillParked _).bind ((queueCheck name).bind ?_)
  show Steps c σ .runtime
    (if σ.booting && !(m.parked?.getD {}).passQueued then
      Program.addStep { stage := .runtime, handler := .property .applyParked } else .pure ())
    (waiting ++ m.passSteps) (m.defer σ.booting name model fault) () _ _
  unfold Alignment.passSteps
  rw [m.passQueued_defer, hqueued]
  cases hm : m.passQueued with
  | true =>
    rw [Bool.not_true, Bool.and_false, Bool.true_or]
    exact pure ()
  | false =>
    rw [Bool.not_false, Bool.and_true, Bool.false_or]
    cases hb : σ.booting with
    | true =>
      rw [if_neg Bool.false_ne_true, List.append_nil]
      exact queuePass
    | false => exact pure ()

theorem restoreOnRollback (name : String) :
    Steps c σ stage (Property.restoreOnRollback σ.cfg name) waiting m () waiting
      { m with undo := .restore name (m.live.get? name) :: m.undo } :=
  readLive.bind (addRollback (.restore name (m.live.get? name)) rfl)

theorem forgetParked (name : String) :
    Steps c σ stage (Property.forgetParked name) waiting m (m.parkedAt name) waiting
      { m with parked? := m.parked?.map (·.forget name) } :=
  readParked?.bind ((changeParked (·.forget name)).bind (pure _))

theorem setAndRetry (name : String) (value? : Option String) :
    Steps c σ .runtime
      ((Property.setLive σ.cfg name value?).bind fun _ =>
        (Property.retryParked σ.cfg).bind fun _ => .pure ())
      (waiting ++ m.passSteps) m ()
      (waiting ++ ((m.setLive σ.cfg name value?).retry σ.cfg).passSteps)
      ((m.setLive σ.cfg name value?).retry σ.cfg) := by
  have hpass : ((m.setLive σ.cfg name value?).retry σ.cfg).passSteps =
      m.passSteps (C := X.Handler) := by
    unfold Alignment.passSteps
    rw [Alignment.passQueued_retry]
    rfl
  rw [hpass]
  obtain ⟨n, hretry⟩ : ∃ n, Steps c σ .runtime (Property.retryParked σ.cfg)
      (waiting ++ m.passSteps) (m.setLive σ.cfg name value?) n _ _ := retryParked
  exact (changeLive (σ.cfg.apply name value?)).bind (hretry.bind (pure ()))

/-- The RUNTIME step for an update carries it out. -/
theorem update (u : PendingUpdate) :
    Steps c σ .runtime (Property.update σ.cfg u.name u.model u.effect) (waiting ++ m.passSteps) m ()
      (waiting ++ (m.update σ.cfg σ.booting u).passSteps) (m.update σ.cfg σ.booting u) := by
  unfold Alignment.update
  cases u.effect with
  | apply =>
    -- the value either resolves, and then the parked ones are tried again, or it is parked itself
    have hpass : m.passSteps = (m.beginUpdate u.name).passSteps (C := X.Handler) := by
      unfold Alignment.passSteps
      rw [Alignment.passQueued_beginUpdate]
    refine (restoreOnRollback u.name).bind ((forgetParked u.name).bind (readLive.bind ?_))
    change Steps c σ .runtime _ (waiting ++ m.passSteps) (m.beginUpdate u.name) () _ _
    rw [hpass]
    cases intendedValue m.live u.model with
    | error fault => exact defer u.name u.model fault
    | ok value? => exact setAndRetry u.name value?
  | reload => exact askReload.bind (addRollback .withdrawReload rfl)
  | none => exact pure ()

end Steps

/-- Within a step, the program fails and leaves the alignment as `m'`. -/
def Fails (c : Controller X.withProperties) (σ : Setting X) (stage : Stage)
    (p : Program X.withProperties α) (waiting : List (ModelHandler X.Handler)) (m : Alignment)
    (fault : Fault) (m' : Alignment) : Prop :=
  ∀ f : InFlight X.withProperties, f.At σ stage waiting m → f.transaction.executing.isSome →
    ∃ f', p.run c f = (.error fault, f') ∧ f'.Undoable σ m' ∧ f'.transaction.breach = none

theorem Steps.bind_fails {p : Program X.withProperties α} {g : α → Program X.withProperties β}
    {a : α} {fault : Fault} (hp : Steps c σ stage p waiting m a waiting' m')
    (hg : Fails c σ stage (g a) waiting' m' fault m'') :
    Fails c σ stage (p.bind g) waiting m fault m'' := by
  intro f hf he
  obtain ⟨f', hrun, hf', he'⟩ := hp f hf he
  obtain ⟨f'', hrun', hf'', hbreach⟩ := hg f' hf' he'
  exact ⟨f'', (Program.run_bind_of_ok hrun).trans hrun', hf'', hbreach⟩

theorem Fails.markAndFail (fault : Fault) :
    Fails c σ stage (.markRollbackOnly (.fail fault) : Program X.withProperties α) waiting m fault
      m :=
  fun _ hf _ => ⟨_, rfl, { hf with }, hf.breach_eq⟩

/-- Within a step, the program has the given outcome and leaves the alignment as told. -/
def Ends (c : Controller X.withProperties) (σ : Setting X) (stage : Stage)
    (p : Program X.withProperties Unit) (waiting : List (ModelHandler X.Handler)) (m : Alignment)
    (r : Except Fault Unit × Alignment) : Prop :=
  match r.1 with
  | .ok () => Steps c σ stage p waiting m () waiting r.2
  | .error fault => Fails c σ stage p waiting m fault r.2

/-- The strict pass over the parked values. -/
theorem ends_applyParked (hq : m.passQueued) :
    Ends c σ stage (Property.applyParked σ.cfg) waiting m (m.pass σ.cfg) := by
  unfold Alignment.passQueued at hq
  obtain ⟨p, hp, hpq⟩ := (Option.any_eq_true _ _).1 hq
  have hsome : m.parked?.isSome := by
    rw [hp]
    rfl
  have hreplaced : Steps c σ stage _ waiting m () waiting _ :=
    .replaceParked (p.applyStrictly σ.cfg m.live).2.1 hsome
  unfold Alignment.pass Ends
  rw [hp]
  dsimp only
  rw [if_pos hpq]
  dsimp only
  cases hr : (p.applyStrictly σ.cfg m.live).1 with
  | ok u =>
    have hnamed : (ParkedValues.applyNamed σ.cfg p.values.keys p m.live).1 = .ok u := hr
    refine Steps.readParked?.bind ?_
    rw [hp]
    refine Steps.readLive.bind (hreplaced.bind ((Steps.changeLive _).bind ?_))
    rw [hnamed]
    exact .pure ()
  | error fault =>
    have hnamed : (ParkedValues.applyNamed σ.cfg p.values.keys p m.live).1 = .error fault := hr
    refine Steps.readParked?.bind_fails ?_
    rw [hp]
    refine Steps.readLive.bind_fails (hreplaced.bind_fails ((Steps.changeLive _).bind_fails ?_))
    rw [hnamed]
    exact .markAndFail fault

/-- A check of VERIFY. -/
theorem ends_verify (name : String) :
    Ends c σ stage (Property.verify name) waiting m (m.check name, m) := by
  unfold Ends Alignment.check Alignment.parkedAt
  cases h : m.parked?.bind (·.get? name) with
  | none =>
    refine Steps.readParked?.bind ?_
    rw [h]
    exact .pure ()
  | some v =>
    refine Steps.readParked?.bind_fails ?_
    rw [h]
    exact .markAndFail v.fault

/-! ### Running the steps -/

namespace InFlight

variable {f : InFlight X.withProperties}

theorem At.execute_ok (h : f.At σ stage waiting m) {step : Step X.withProperties}
    (hs : Steps c σ stage (c.handle step.handler step.operation) waiting m () waiting' m') :
    ∃ f', execute c step f = (.ok (), f') ∧ f'.At σ stage waiting' m' := by
  obtain ⟨f', hrun, hf', -⟩ := hs (f.begun step) (h.begun step) rfl
  have hended := hf'.ended step (.ok ())
  refine ⟨f'.ended step (.ok ()), ?_, hended⟩
  rw [execute_of_run hrun, verdict_of_clear hended.breach_eq hended.rollbackOnly_eq]

/-- Where the transaction stands after a step with the given outcome. -/
def Reached (σ : Setting X) (stage : Stage) (waiting : List (ModelHandler X.Handler))
    (r : Except Fault Unit × Alignment) (f : InFlight X.withProperties) : Prop :=
  match r.1 with
  | .ok () => f.At σ stage waiting r.2
  | .error _ => f.Undoable σ r.2

theorem At.execute (h : f.At σ stage waiting m) {step : Step X.withProperties}
    {r : Except Fault Unit × Alignment}
    (hs : Ends c σ stage (c.handle step.handler step.operation) waiting m r) :
    ∃ f', InFlight.execute c step f = (r.1, f') ∧ f'.Reached σ stage waiting r := by
  obtain ⟨outcome, m'⟩ := r
  cases outcome with
  | ok u => exact h.execute_ok hs
  | error fault =>
    obtain ⟨f', hrun, hf', hbreach⟩ := hs (f.begun step) (h.begun step) rfl
    have hended : (f'.ended step (.error fault)).transaction.breach = none := hbreach
    refine ⟨f'.ended step (.error fault), ?_, { hf' with }⟩
    rw [execute_of_run hrun, verdict_error hended]

/-! ### RUNTIME -/

theorem At.pop_runtime {handler : ModelHandler X.Handler}
    (h : f.At σ .runtime (handler :: waiting) m) :
    ∃ step agenda, f.transaction.agenda.pop? = some (step, agenda) ∧ step.handler = handler ∧
      (f.onTransaction fun t => { t with agenda }).At σ .runtime waiting m := by
  obtain ⟨step, rest, hqueue, hstep, hrest⟩ := List.map_eq_cons_iff.1 h.runtime_eq
  exact ⟨step, _, Agenda.pop?_of_cons h.current_eq hqueue, hstep, { h with runtime_eq := hrest }⟩

theorem At.pop_runtime_nil (h : f.At σ .runtime [] m) : f.transaction.agenda.pop? = none :=
  Agenda.pop?_of_nil h.current_eq (List.map_eq_nil_iff.1 h.runtime_eq)

theorem drain_updates (hc : c.RunsModel σ.cfg) {us : List PendingUpdate}
    (h : f.At σ .runtime (us.map PendingUpdate.handler ++ m.passSteps) m) (limit : Nat) :
    (limit < us.length ∧ drain c limit f = none) ∨
      ∃ f' k, limit = us.length + k ∧ drain c limit f = drain c k f' ∧
        f'.At σ .runtime (m.updateAll σ.cfg σ.booting us).passSteps
          (m.updateAll σ.cfg σ.booting us) := by
  let R (m : Alignment) (us : List PendingUpdate) (f : InFlight X.withProperties) : Prop :=
    f.At σ .runtime (us.map PendingUpdate.handler ++ m.passSteps) m
  have hstep : ∀ {m : Alignment} {u : PendingUpdate} {rest : List PendingUpdate}
      {f : InFlight X.withProperties}, R m (u :: rest) f →
        Performs c R (fun _ _ => False) f rest (.ok (m.update σ.cfg σ.booting u)) := by
    intro m u rest f hf
    obtain ⟨step, agenda, hpop, hhandler, hpopped⟩ := At.pop_runtime hf
    have hsteps : Steps c σ .runtime (c.handle step.handler step.operation)
        (rest.map PendingUpdate.handler ++ m.passSteps) m ()
        (rest.map PendingUpdate.handler ++ (m.update σ.cfg σ.booting u).passSteps)
        (m.update σ.cfg σ.booting u) := by
      rw [hhandler, PendingUpdate.handler, hc.property_eq]
      exact Steps.update u
    obtain ⟨f', he, hf'⟩ := hpopped.execute_ok hsteps
    exact ⟨step, agenda, f', hpop, he, hf'⟩
  -- an update never fails, so that the tasks never do
  have hfold : us.foldlM (fun m u => Except.ok (ε := Fault) (m.update σ.cfg σ.booting u)) m =
      .ok (m.updateAll σ.cfg σ.booting us) :=
    List.foldlM_pure
  rcases drain_foldlM hstep h limit with hlimit | hd
  · exact .inl hlimit
  · rw [hfold] at hd
    exact .inr hd

/-- The strict pass executes if it is queued. -/
theorem drain_pass (hc : c.RunsModel σ.cfg) (h : f.At σ .runtime m.passSteps m) (limit : Nat) :
    (limit = 0 ∧ drain c limit f = none) ∨
      ∃ f', drain c limit f = some ((m.pass σ.cfg).1, f') ∧
        f'.Reached σ .runtime [] (m.pass σ.cfg) := by
  unfold Alignment.passSteps at h
  by_cases hq : m.passQueued
  · rw [if_pos hq] at h
    obtain ⟨step, agenda, hpop, hhandler, hpopped⟩ := At.pop_runtime h
    cases limit with
    | zero => exact .inl ⟨rfl, drain_of_zero hpop⟩
    | succ limit =>
      refine .inr ?_
      have hs : Ends c σ .runtime (c.handle step.handler step.operation) [] m (m.pass σ.cfg) := by
        rw [hhandler, hc.property_eq]
        exact ends_applyParked hq
      obtain ⟨f', he, hf'⟩ := hpopped.execute hs
      refine ⟨f', ?_, hf'⟩
      unfold Reached at hf'
      cases hr : (m.pass σ.cfg).1 with
      | error fault =>
        rw [hr] at he
        exact drain_of_error hpop he limit
      | ok u =>
        rw [hr] at he hf'
        rw [drain_of_ok hpop he limit]
        exact drain_of_empty hf'.pop_runtime_nil limit
  · -- no pass is queued, and the pass over the alignment is the one that does nothing
    rw [if_neg hq] at h
    refine .inr ?_
    have hpass : m.pass σ.cfg = (.ok (), m) := by
      unfold Alignment.pass
      unfold Alignment.passQueued at hq
      cases hp : m.parked? with
      | none => rfl
      | some p =>
        rw [hp] at hq
        exact if_neg hq
    rw [hpass]
    exact ⟨f, drain_of_empty h.pop_runtime_nil limit, h⟩

/-- RUNTIME carries out the updates, and then the strict pass if that was queued meanwhile. -/
theorem drain_runtime (hc : c.RunsModel σ.cfg) {us : List PendingUpdate}
    (h : f.At σ .runtime (us.map PendingUpdate.handler ++ m.passSteps) m) (limit : Nat) :
    (limit ≤ us.length ∧ drain c limit f = none) ∨
      ∃ f', drain c limit f = some (((m.updateAll σ.cfg σ.booting us).pass σ.cfg).1, f') ∧
        f'.Reached σ .runtime [] ((m.updateAll σ.cfg σ.booting us).pass σ.cfg) := by
  rcases drain_updates hc h limit with ⟨hlt, hd⟩ | ⟨f', k, hk, hd, hf'⟩
  · exact .inl ⟨Nat.le_of_lt hlt, hd⟩
  · rw [hd]
    rcases drain_pass hc hf' k with ⟨hzero, hnone⟩ | hpass
    · exact .inl ⟨by omega, hnone⟩
    · exact .inr hpass

/-! ### VERIFY -/

theorem At.pop_verify {name : String} {names : List String}
    (h : f.At σ .verify [] { m with checks := name :: names }) :
    ∃ step agenda, f.transaction.agenda.pop? = some (step, agenda) ∧
      step.handler = .property (.verify name) ∧
      (f.onTransaction fun t => { t with agenda }).At σ .verify [] { m with checks := names } := by
  obtain ⟨step, rest, hqueue, hstep, hrest⟩ := List.map_eq_cons_iff.1 h.verify_eq
  exact ⟨step, _, Agenda.pop?_of_cons h.current_eq hqueue, hstep,
    { h with verify_eq := hrest }⟩

theorem At.pop_verify_nil (h : f.At σ .verify [] { m with checks := [] }) :
    f.transaction.agenda.pop? = none :=
  Agenda.pop?_of_nil h.current_eq (List.map_eq_nil_iff.1 h.verify_eq)

/-- VERIFY carries out the checks. -/
theorem drain_verify (hc : c.RunsModel σ.cfg) (h : f.At σ .verify [] m) (limit : Nat) :
    (limit < m.checks.length ∧ drain c limit f = none) ∨
      ∃ f', drain c limit f = some (m.verify m.checks, f') ∧
        f'.Reached σ .verify [] (m.verify m.checks, { m with checks := [] }) := by
  -- the checks that were carried out are taken off the list
  let R (_ : Unit) (names : List String) (f : InFlight X.withProperties) : Prop :=
    f.At σ .verify [] { m with checks := names }
  have hstep : ∀ {u : Unit} {name : String} {rest : List String}
      {f : InFlight X.withProperties}, R u (name :: rest) f →
        Performs c R (fun _ f' => f'.Undoable σ m) f rest (m.check name) := by
    intro u name rest f hf
    obtain ⟨step, agenda, hpop, hhandler, hpopped⟩ := At.pop_verify hf
    have hs : Ends c σ .verify (c.handle step.handler step.operation) []
        { m with checks := rest } (m.check name, { m with checks := rest }) := by
      rw [hhandler, hc.property_eq]
      exact ends_verify name
    obtain ⟨f', he, hf'⟩ := hpopped.execute hs
    refine ⟨step, agenda, f', hpop, ?_⟩
    unfold Reached at hf'
    cases hr : m.check name with
    | ok u =>
      rw [hr] at he hf'
      exact ⟨he, hf'⟩
    | error fault =>
      rw [hr] at he hf'
      exact ⟨he, { hf' with }⟩
  rcases drain_foldlM (R := R) (fun {u} {_ _ _} => hstep (u := u)) h limit with hlimit | hd
  · exact .inl hlimit
  · refine .inr ?_
    show ∃ f', drain c limit f = some (m.checks.foldlM (fun _ => m.check) (), f') ∧
      f'.Reached σ .verify [] (m.checks.foldlM (fun _ => m.check) (), { m with checks := [] })
    cases hr : m.checks.foldlM (fun _ => m.check) () with
    | ok u =>
      rw [hr] at hd
      obtain ⟨f', k, -, hk, hf'⟩ := hd
      exact ⟨f', hk.trans (drain_of_empty (At.pop_verify_nil hf') k), hf'⟩
    | error fault =>
      rw [hr] at hd
      obtain ⟨f', hd, hf'⟩ := hd
      exact ⟨f', hd, { hf' with }⟩

/-! ### Rollback -/

/-- A request that was raised is withdrawn without trace, for the id is on record nowhere else. -/
theorem Reflects.withdrawReload (hid : σ.start.reload.requesters.get? σ.id = none)
    (h : f.Reflects σ m) : f.withdrawReload.Reflects σ { m with raised := false } := by
  unfold InFlight.withdrawReload ReloadRequest.revert
  rw [h.state_eq, h.tracker_eq]
  cases hraised : m.raised with
  | true =>
    refine ⟨?_, rfl⟩
    show ({ σ.stateAt m with
      reload := ((σ.stateAt m).reload.withdraw σ.id).2 } : ControllerState X.withProperties) = _
    unfold Setting.stateAt
    rw [hraised]
    dsimp only
    rw [if_pos rfl, ReloadState.withdraw_request hid]
    rfl
  | false =>
    refine ⟨?_, rfl⟩
    show ({ σ.stateAt m with
      reload := (σ.stateAt m).reload } : ControllerState X.withProperties) = _
    unfold Setting.stateAt
    rw [hraised]

/-- One rollback handler goes one way back. -/
theorem Reflects.compensate (hid : σ.start.reload.requesters.get? σ.id = none)
    (h : f.Reflects σ m) (cause : Fault) (op : Operation) (u : Undo) :
    ∃ m' f', InFlight.compensate cause op (u.handler σ.cfg) f = (.ok (), f') ∧
      f'.Reflects σ m' ∧ m'.live = u.run σ.cfg m.live := by
  cases u with
  | restore name prior? =>
    refine ⟨{ m with live := Undo.run σ.cfg m.live (.restore name prior?) }, _, rfl, ⟨?_, ?_⟩, rfl⟩
    · show (f.changeEnvironment fun e => if e.live.get? name = prior? then e
        else { e with live := σ.cfg.apply name prior? e.live }).state = _
      unfold InFlight.changeEnvironment
      rw [h.state_eq]
      unfold Setting.stateAt Undo.run
      dsimp only
      by_cases hlive : m.live.get? name = prior?
      · rw [if_pos hlive, if_pos hlive]
      · rw [if_neg hlive, if_neg hlive]
    · exact h.tracker_eq
  | withdrawReload =>
    have hw := h.withdrawReload hid
    exact ⟨_, _, rfl, ⟨hw.state_eq, hw.tracker_eq⟩, rfl⟩

/-- The rollback handlers go all the ways back, newest first. -/
theorem Reflects.runAll (hid : σ.start.reload.requesters.get? σ.id = none) (h : f.Reflects σ m)
    (cause : Fault) {us : List Undo}
    {handlers : List (Operation × (Operation → RollbackProgram X.withProperties Unit))}
    (hus : handlers.map (·.2) = us.map (Undo.handler σ.cfg)) :
    ∃ m' f', RollbackStack.runAll (InFlight.compensate cause) handlers f = ([], f') ∧
      f'.Reflects σ m' ∧ m'.live = undoAll σ.cfg us m.live := by
  -- on the ways back, each of which changes what the next one starts from
  induction us generalizing handlers f m with
  | nil =>
    rw [List.map_eq_nil_iff.1 hus]
    exact ⟨m, f, rfl, h, rfl⟩
  | cons u us ih =>
    obtain ⟨⟨op, handler⟩, rest, rfl, hhandler, hrest⟩ := List.map_eq_cons_iff.1 hus
    obtain ⟨m₁, f₁, hone, hf₁, hlive₁⟩ := h.compensate hid cause op u
    obtain ⟨m₂, f₂, hall, hf₂, hlive₂⟩ := ih hf₁ hrest
    refine ⟨m₂, f₂, ?_, hf₂, ?_⟩
    · rw [RollbackStack.runAll]
      dsimp only at hhandler
      rw [hhandler, hone]
      exact hall
    · rw [hlive₂, hlive₁]
      rfl

/-- What an aborted transaction leaves behind: the live properties after all ways back. -/
theorem Undoable.abort (hid : σ.start.reload.requesters.get? σ.id = none) (h : f.Undoable σ m)
    (cause : Fault) :
    (f.abort cause).1 = { cause } ∧
      (f.abort cause).2.state = { σ.start with
        environment := { σ.start.environment with live := undoAll σ.cfg m.undo m.live } } := by
  -- the handlers run on `g`, which differs from `f` in its status and its queues alone
  generalize hg : f.onTransaction unwinding = g
  have hframe : g.transaction.reload = f.transaction.reload ∧
      g.transaction.rollback = f.transaction.rollback := by
    rw [← hg]
    exact unwinding_frame f.transaction
  have hreflects : g.Reflects σ m := by
    refine ⟨?_, hframe.1.trans h.tracker_eq⟩
    rw [← hg]
    exact h.state_eq
  have hundo : g.transaction.rollback.handlers.map (·.2) = m.undo.map (Undo.handler σ.cfg) := by
    rw [hframe.2, h.undo_eq]
  obtain ⟨m', f', hall, hf', hlive⟩ := hreflects.runAll hid cause hundo
  have htrigger : g.transaction.rollback.trigger (InFlight.compensate cause) g =
      ([], { handlers := [], phase := .triggered }, f') := by
    unfold RollbackStack.trigger
    rw [hframe.2, if_pos h.collecting, ← hframe.2, hall]
  have hdropped : (f'.onTransaction fun t =>
      { t with rollback := { handlers := [], phase := .triggered } }).Reflects σ m' :=
    ⟨hf'.state_eq, hf'.tracker_eq⟩
  rw [abort_eq, hg, htrigger]
  refine ⟨rfl, (hdropped.withdrawReload hid).state_eq.trans ?_⟩
  unfold Setting.stateAt
  dsimp only
  rw [if_neg Bool.false_ne_true, hlive]

end InFlight

end Steps

end ManagedModel
