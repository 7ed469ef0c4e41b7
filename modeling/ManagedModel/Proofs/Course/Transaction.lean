import ManagedModel.Proofs.Course.Stages
import ManagedModel.Proofs.Submission

/-! # The course of a transaction of built-in operations

    `Controller.course` is what a transaction of built-in operations comes to,
    told without steps, queues and handlers: it drafts the change of the model,
    aligns the process, and settles whether it may commit.

    * `drain_model` says what MODEL does.
    * `conclude_eq_course` says that a transaction that ends takes its course,
      and that every transaction with fewer operations than the limit on steps
      ends. -/

namespace ManagedModel

variable {X : Signature} {c : Controller X.withProperties} {σ : Setting X} {m : Alignment}
  {f : InFlight X.withProperties} {waiting : List (ModelHandler X.Handler)}

/-! ### MODEL -/

/-- The setting in which the given number of operations is still to be drafted. -/
def Setting.drafted (σ : Setting X) (d : Draft) (left : Nat) : Setting X :=
  { σ with
    working := d.working
    results := d.results ++ List.replicate left .undefined }

namespace InFlight

/-- The operation, the handler and the place of a step. -/
def stepKey (step : Step X.withProperties) : (Operation × ModelHandler X.Handler) × Nat :=
  ((step.operation, step.handler), step.origin)

/-- The transaction executes MODEL and the given tasks are left. -/
structure InModel (σ : Setting X) (m : Alignment) (d : Draft)
    (tasks : List (Operation × ModelHandler X.Handler)) (f : InFlight X.withProperties) : Prop where
  at_model : f.At (σ.drafted d tasks.length) .model (d.updates.map PendingUpdate.handler) m
  model_eq : f.transaction.agenda.model.map stepKey = tasks.zipIdx d.results.length

theorem InModel.pop {task : Operation × ModelHandler X.Handler} {d : Draft}
    {tasks : List (Operation × ModelHandler X.Handler)} (h : f.InModel σ m d (task :: tasks)) :
    ∃ step agenda, f.transaction.agenda.pop? = some (step, agenda) ∧
      step.operation = task.1 ∧ step.handler = task.2 ∧ step.origin = d.results.length ∧
      agenda.model.map stepKey = tasks.zipIdx (d.results.length + 1) ∧
      (f.onTransaction fun t => { t with agenda }).At (σ.drafted d (tasks.length + 1)) .model
        (d.updates.map PendingUpdate.handler) m := by
  have hkeys := h.model_eq
  rw [List.zipIdx_cons] at hkeys
  obtain ⟨step, rest, hqueue, hstep, hrest⟩ := List.map_eq_cons_iff.1 hkeys
  have hpop := Agenda.pop?_of_cons h.at_model.current_eq hqueue
  have hoperation : step.operation = task.1 := congrArg (·.1.1) hstep
  have hhandler : step.handler = task.2 := congrArg (·.1.2) hstep
  have horigin : step.origin = d.results.length := congrArg (·.2) hstep
  exact ⟨step, _, hpop, hoperation, hhandler, horigin, hrest, { h.at_model with }⟩

theorem InModel.pop_nil {d : Draft} (h : f.InModel σ m d []) :
    f.transaction.agenda.pop? = none :=
  Agenda.pop?_of_nil h.at_model.current_eq (List.map_eq_nil_iff.1 h.model_eq)

theorem At.setResult (h : f.At σ .model waiting m) {step : Step X.withProperties}
    (he : f.transaction.executing = some step) (v : Value) :
    (f.onTransaction (·.setResult v)).At { σ with results := σ.results.set step.origin v } .model
      waiting m := by
  unfold onTransaction
  dsimp only
  rw [Transaction.setResult_of_executing he]
  refine { h with results_eq := ?_ }
  show f.transaction.results.set step.origin v = _
  rw [h.results_eq]

theorem At.queueUpdate (h : f.At σ .model waiting m) {step : Step X.withProperties}
    (he : f.transaction.executing = some step) (u : PendingUpdate) :
    (f.onTransaction fun t => (t.queue u.request).2).At σ .model (waiting ++ [u.handler]) m ∧
      (f.transaction.queue u.request).2.agenda.model = f.transaction.agenda.model := by
  have ha : f.transaction.agenda.accepts (u.request (X := X)).stage := by
    unfold Agenda.accepts
    rw [h.closed_eq, h.current_eq]
    rfl
  have hq : f.transaction.queue u.request = _ := Transaction.queue_of_accepts he ha rfl
  unfold onTransaction
  dsimp only
  rw [hq]
  refine ⟨{ h with runtime_eq := ?_ }, rfl⟩
  show (f.transaction.agenda.runtime ++ [f.transaction.stepFor step u.request]).map (·.handler) = _
  rw [List.map_append, h.runtime_eq]
  rfl

/-- What a step hands on goes to the results and to the queue of RUNTIME. -/
theorem At.deliver (h : f.At σ .model waiting m) {step : Step X.withProperties}
    (he : f.transaction.executing = some step) (o : Delivery) :
    (f.deliver o).At { σ with results := o.result?.elim σ.results (σ.results.set step.origin) }
        .model (waiting ++ o.update?.toList.map PendingUpdate.handler) m ∧
      (f.deliver o).transaction.agenda.model = f.transaction.agenda.model := by
  obtain ⟨result?, update?⟩ := o
  -- the update alone, for a transaction with or without the result set
  have hresult : ∀ {g : InFlight X.withProperties} {σ : Setting X}, g.At σ .model waiting m →
      g.transaction.executing = some step →
        (g.deliver { update? }).At σ .model (waiting ++ update?.toList.map PendingUpdate.handler) m ∧
          (g.deliver { update? }).transaction.agenda.model = g.transaction.agenda.model := by
    intro g σ hg he
    cases update? with
    | none =>
      refine ⟨?_, rfl⟩
      show g.At σ .model (waiting ++ []) m
      rw [List.append_nil]
      exact hg
    | some u => exact hg.queueUpdate he u
  cases result? with
  | none => exact hresult h he
  | some v =>
    have hset := h.setResult he v
    rw [show f.deliver { result? := some v, update? } =
      (f.onTransaction (·.setResult v)).deliver { update? } from rfl]
    have hexecuting : (f.transaction.setResult v).executing = some step := by
      rw [Transaction.setResult_of_executing he]
      exact he
    have hagenda : (f.transaction.setResult v).agenda = f.transaction.agenda := by
      rw [Transaction.setResult_of_executing he]
      rfl
    obtain ⟨hat, hmodel⟩ := hresult hset hexecuting
    refine ⟨hat, hmodel.trans ?_⟩
    show (f.transaction.setResult v).agenda.model = _
    rw [hagenda]

/-- The first of the results that are left is set, or stays undefined. -/
theorem elim_set_replicate (results : List Value) (left : Nat) (result? : Option Value) :
    result?.elim (results ++ List.replicate (left + 1) Value.undefined)
        ((results ++ List.replicate (left + 1) Value.undefined).set results.length) =
      (results ++ [result?.getD .undefined]) ++ List.replicate left Value.undefined := by
  rw [List.replicate_succ, List.append_assoc, List.singleton_append]
  cases result? with
  | none => rfl
  | some v =>
    show (results ++ Value.undefined :: List.replicate left Value.undefined).set results.length v =
      results ++ v :: List.replicate left Value.undefined
    rw [List.set_append_right _ _ (Nat.le_refl _), Nat.sub_self]
    rfl

/-- A MODEL step does what its task does to the draft. -/
theorem InModel.performs (hc : c.RunsModel σ.cfg) {d : Draft}
    {task : Operation × ModelHandler X.Handler} {tasks : List (Operation × ModelHandler X.Handler)}
    (hbuilt : task.2.IsBuiltIn) (h : f.InModel σ m d (task :: tasks)) :
    Performs c (InModel σ m) (fun _ f' => f'.Undoable σ m) f tasks
      (d.step c.registry.resource? (c.effect σ.cfg σ.booting) task) := by
  obtain ⟨op, handler⟩ := task
  obtain ⟨step, agenda, hpop, rfl, rfl, horigin, hkeys, hpopped⟩ := h.pop
  have hbegun := hpopped.begun step
  -- `g` is the transaction as the handler's program finds it
  generalize hg : (f.onTransaction fun t => { t with agenda }).begun step = g at hbegun
  have hmodel : g.transaction.agenda.model.map stepKey = tasks.zipIdx (d.results.length + 1) := by
    rw [← hg]
    exact hkeys
  have hexecuting : g.transaction.executing = some step := by
    rw [← hg]
    rfl
  have hworking : g.transaction.working = d.working := hbegun.working_eq
  have hstep : g.InModelStep σ.booting := by
    refine ⟨hbegun.stage_eq, hbegun.booting_eq, ?_, ?_⟩
    · rw [hexecuting]
      rfl
    · unfold Agenda.accepts
      rw [hbegun.closed_eq, hbegun.current_eq]
      rfl
  have hrun := run_program hc hbuilt step.operation g hstep
  rw [hworking] at hrun
  unfold Draft.step
  dsimp only
  cases hd : step.handler.draft c.registry.resource? (c.effect σ.cfg σ.booting) step.operation
      d.working with
  | error fault =>
    -- what is left of the changes does not matter: the transaction will be rolled back
    rw [hd] at hrun
    obtain ⟨w, hrun⟩ := hrun
    have hbreach : ((g.withWorking w).ended step (.error fault)).transaction.breach = none :=
      hbegun.breach_eq
    refine ⟨step, agenda, (g.withWorking w).ended step (.error fault), hpop, ?_, { hbegun with }⟩
    rw [← hg] at hrun hbreach
    rw [execute_of_run hrun, verdict_error hbreach, hg]
  | ok r =>
    obtain ⟨o, w⟩ := r
    rw [hd] at hrun
    have hcopied : (g.withWorking w).At
        { σ with working := w, results := (σ.drafted d (tasks.length + 1)).results } .model
        (d.updates.map PendingUpdate.handler) m :=
      { hbegun with working_eq := rfl }
    obtain ⟨hat, hagenda⟩ := hcopied.deliver hexecuting o
    have hresults : o.result?.elim (σ.drafted d (tasks.length + 1)).results
        ((σ.drafted d (tasks.length + 1)).results.set step.origin) =
          (d.results ++ [o.result?.getD .undefined]) ++
            List.replicate tasks.length Value.undefined := by
      rw [horigin]
      exact elim_set_replicate d.results tasks.length o.result?
    dsimp only at hat
    rw [hresults, ← List.map_append] at hat
    have hended := hat.ended step (.ok ())
    refine ⟨step, agenda, ((g.withWorking w).deliver o).ended step (.ok ()), hpop, ?_, hended, ?_⟩
    · rw [← hg] at hrun hended
      rw [execute_of_run hrun, verdict_of_clear hended.breach_eq hended.rollbackOnly_eq, hg]
    · show ((g.withWorking w).deliver o).transaction.agenda.model.map stepKey =
        tasks.zipIdx (d.results ++ [o.result?.getD .undefined]).length
      rw [hagenda, List.length_append]
      exact hmodel

/-- MODEL drafts the operations. -/
theorem drain_model (hc : c.RunsModel σ.cfg) {d : Draft}
    {tasks : List (Operation × ModelHandler X.Handler)} (hbuilt : ∀ t ∈ tasks, t.2.IsBuiltIn)
    (h : f.InModel σ m d tasks) (limit : Nat) :
    (limit < tasks.length ∧ drain c limit f = none) ∨
      match d.run c.registry.resource? (c.effect σ.cfg σ.booting) tasks with
      | .ok d' => ∃ f', drain c limit f = some (.ok (), f') ∧ f'.InModel σ m d' []
      | .error fault => ∃ f', drain c limit f = some (.error fault, f') ∧ f'.Undoable σ m := by
  -- the draft is what the steps stand for, so that the stage folds `Draft.step` over the tasks
  let R (d : Draft) (tasks : List (Operation × ModelHandler X.Handler))
      (f : InFlight X.withProperties) : Prop :=
    f.InModel σ m d tasks ∧ ∀ t ∈ tasks, t.2.IsBuiltIn
  have hstep : ∀ {d : Draft} {task : Operation × ModelHandler X.Handler}
      {rest : List (Operation × ModelHandler X.Handler)} {f : InFlight X.withProperties},
      R d (task :: rest) f → Performs c R (fun _ f' => f'.Undoable σ m) f rest
        (d.step c.registry.resource? (c.effect σ.cfg σ.booting) task) := by
    rintro d task rest f ⟨hf, hall⟩
    obtain ⟨step, agenda, f', hpop, hr⟩ := hf.performs hc (hall task List.mem_cons_self)
    refine ⟨step, agenda, f', hpop, ?_⟩
    cases hd : d.step c.registry.resource? (c.effect σ.cfg σ.booting) task with
    | error fault =>
      rw [hd] at hr
      exact hr
    | ok d' =>
      rw [hd] at hr
      exact ⟨hr.1, hr.2, fun t ht => hall t (List.mem_cons_of_mem _ ht)⟩
  rcases drain_foldlM (R := R) hstep ⟨h, hbuilt⟩ limit with hlimit | hd
  · exact .inl hlimit
  · refine .inr ?_
    unfold Draft.run
    cases hr : tasks.foldlM (Draft.step c.registry.resource? (c.effect σ.cfg σ.booting)) d with
    | error fault =>
      rw [hr] at hd
      exact hd
    | ok d' =>
      rw [hr] at hd
      obtain ⟨f', k, -, hk, hf', -⟩ := hd
      exact ⟨f', hk.trans (drain_of_empty hf'.pop_nil k), hf'⟩

/-! ### From stage to stage -/

theorem At.entered {stage : Stage} (h : f.At σ stage waiting m) (next : Stage)
    (hnext : (Status.executing stage).allows (.executing next)) :
    f.enter next = .ok (f.entered next) ∧ (f.entered next).At σ next waiting m := by
  refine ⟨enter_of_allows ?_, { h with status_eq := rfl, stage_eq := rfl, current_eq := rfl }⟩
  rw [h.status_eq]
  exact hnext

/-- What a commit makes last. -/
theorem At.commit (hid : σ.start.reload.requesters.get? σ.id = none)
    (h : f.At σ .verify waiting m) :
    ∃ f', f.commit = (.ok (), f') ∧ f'.transaction.results = σ.results ∧
      f'.state = { σ.start with
        store := σ.start.store.publish σ.working
        reload :=
          if m.raised then { σ.start.reload with committed := true } else σ.start.reload
        environment := { σ.start.environment with live := m.live } } := by
  have hmove : f.transaction.moveTo .committed =
      .ok ({ f.transaction with status := .committed }.record (.entered .committed)) := by
    apply Transaction.moveTo_of_allows
    rw [h.status_eq]
    rfl
  unfold InFlight.commit
  rw [hmove]
  refine ⟨_, rfl, h.results_eq, ?_⟩
  show ({ f.state with
    reload := (f.transaction.reload.commit f.state.reload).2
    store := f.state.store.publish f.transaction.working } :
      ControllerState X.withProperties) = _
  rw [h.state_eq, h.tracker_eq, h.working_eq]
  unfold ReloadRequest.commit Setting.stateAt
  dsimp only
  cases m.raised with
  | true =>
    rw [if_pos rfl, if_pos rfl, if_pos rfl]
    dsimp only
    rw [ReloadState.commit_request hid]
  | false => rw [if_neg Bool.false_ne_true, if_neg Bool.false_ne_true, if_neg Bool.false_ne_true]

/-- RUNTIME and VERIFY settle whether the transaction may commit. -/
theorem At.settle (hc : c.RunsModel σ.cfg) {us : List PendingUpdate}
    (h : f.At σ .model (us.map PendingUpdate.handler ++ m.passSteps) m) (hchecks : m.checks = [])
    {r : Except Fault Unit × Alignment}
    (hr : (m.updateAll σ.cfg σ.booting us).settle σ.cfg = r) :
    (runStages c [.runtime, .verify] f = none ∧ c.stepLimit ≤ us.length) ∨
      ∃ f' checks, runStages c [.runtime, .verify] f = some (r.1, f') ∧
        f'.Reached σ .verify [] (r.1, { r.2 with checks }) := by
  obtain ⟨hruntime, hat⟩ := h.entered .runtime rfl
  unfold Alignment.settle at hr
  rcases drain_runtime hc hat c.stepLimit with ⟨hle, hd⟩ | ⟨f₁, hd, hf₁⟩
  · exact .inl ⟨runStages_of_none hruntime hd, hle⟩
  · rcases hp : (m.updateAll σ.cfg σ.booting us).pass σ.cfg with ⟨outcome, m₁⟩
    rw [hp] at hd hf₁ hr
    cases outcome with
    | error fault =>
      -- the strict pass failed, so VERIFY is not reached
      cases hr
      exact .inr ⟨f₁, m₁.checks, runStages_of_error hruntime hd, hf₁⟩
    | ok u =>
      -- every update leaves one check at most, so the limit that was enough for the updates is enough
      -- for the checks
      have hlength : m₁.checks.length ≤ us.length := by
        have hpass := Alignment.checks_pass σ.cfg (m.updateAll σ.cfg σ.booting us)
        have hall := Alignment.length_checks_updateAll σ.cfg σ.booting us m
        rw [hp] at hpass
        rw [hchecks] at hall
        rw [hpass]
        simpa using hall
      obtain ⟨hverify, hat₁⟩ := At.entered hf₁ .verify rfl
      rw [runStages_of_ok hruntime hd]
      rcases drain_verify hc hat₁ c.stepLimit with ⟨hlt, hd₁⟩ | ⟨f₂, hd₁, hf₂⟩
      · exact .inl ⟨runStages_of_none hverify hd₁, by dsimp only at hlt; omega⟩
      · refine .inr ⟨f₂, [], ?_⟩
        dsimp only at hr
        rw [← hr]
        dsimp only
        refine ⟨?_, hf₂⟩
        cases hv : m₁.verify m₁.checks with
        | error fault =>
          rw [hv] at hd₁
          exact runStages_of_error hverify hd₁
        | ok u =>
          rw [hv] at hd₁
          exact runStages_of_ok hverify hd₁

end InFlight

/-! ### The whole course -/

namespace Controller

/-- The operations with their handlers. -/
def tasksOf (accepted : List (Operation × RegisteredOperation (ModelHandler X.Handler))) :
    List (Operation × ModelHandler X.Handler) :=
  accepted.map fun a => (a.1, a.2.handler)

@[simp] theorem length_tasksOf
    (accepted : List (Operation × RegisteredOperation (ModelHandler X.Handler))) :
    (tasksOf accepted).length = accepted.length :=
  List.length_map _

theorem isBuiltIn_tasksOf
    {accepted : List (Operation × RegisteredOperation (ModelHandler X.Handler))}
    (h : ∀ a ∈ accepted, a.2.handler.IsBuiltIn) : ∀ t ∈ tasksOf accepted, t.2.IsBuiltIn := by
  intro t ht
  obtain ⟨a, ha, rfl⟩ := List.mem_map.1 ht
  exact h a ha

/-- The draft of a transaction that begins. -/
def draftOf (accepted : List (Operation × RegisteredOperation (ModelHandler X.Handler)))
    (s : ControllerState X.withProperties) : Draft :=
  { working := .ofTree s.store.tree (writeScope (S := X.withProperties) accepted) }

/-- The controller's state with other live properties. -/
def withLive (s : ControllerState X.withProperties) (live : LiveProperties) :
    ControllerState X.withProperties :=
  { s with environment := { s.environment with live } }

/-- The state that a transaction leaves when it commits. -/
def published (d : Draft) (m : Alignment) (s : ControllerState X.withProperties) :
    ControllerState X.withProperties :=
  { s with
    store := s.store.publish d.working
    reload := if m.raised then { s.reload with committed := true } else s.reload
    environment := { s.environment with live := m.live } }

/-- The outcome of a transaction, and the state it leaves. -/
def course (c : Controller X.withProperties) (cfg : PropertyConfig) (booting : Bool)
    (accepted : List (Operation × RegisteredOperation (ModelHandler X.Handler)))
    (s : ControllerState X.withProperties) :
    Except Failure (List Value) × ControllerState X.withProperties :=
  match (draftOf accepted s).run c.registry.resource? (c.effect cfg booting)
      (tasksOf accepted) with
  | .error cause => (.error { cause }, s)
  | .ok d =>
    match (({ live := s.environment.live } : Alignment).updateAll cfg booting d.updates).settle
        cfg with
    | (.error cause, m) => (.error { cause }, withLive s (undoAll cfg m.undo m.live))
    | (.ok (), m) => (.ok d.results, published d m s)

section

variable {cfg : PropertyConfig} {booting : Bool}
  {accepted : List (Operation × RegisteredOperation (ModelHandler X.Handler))}
  {s : ControllerState X.withProperties}

theorem course_of_draft_error {cause : Fault}
    (hd : (draftOf accepted s).run c.registry.resource? (c.effect cfg booting)
      (tasksOf accepted) = .error cause) :
    c.course cfg booting accepted s = (.error { cause }, s) := by
  unfold course
  rw [hd]

theorem course_of_settle_error {d : Draft} {m : Alignment} {cause : Fault}
    (hd : (draftOf accepted s).run c.registry.resource? (c.effect cfg booting)
      (tasksOf accepted) = .ok d)
    (hs : (({ live := s.environment.live } : Alignment).updateAll cfg booting d.updates).settle
      cfg = (.error cause, m)) :
    c.course cfg booting accepted s =
      (.error { cause }, withLive s (undoAll cfg m.undo m.live)) := by
  unfold course
  rw [hd]
  dsimp only
  rw [hs]

theorem course_of_settle_ok {d : Draft} {m : Alignment}
    (hd : (draftOf accepted s).run c.registry.resource? (c.effect cfg booting)
      (tasksOf accepted) = .ok d)
    (hs : (({ live := s.environment.live } : Alignment).updateAll cfg booting d.updates).settle
      cfg = (.ok (), m)) :
    c.course cfg booting accepted s = (.ok d.results, published d m s) := by
  unfold course
  rw [hd]
  dsimp only
  rw [hs]

/-- What a course that commits comes to. -/
theorem course_eq_ok {results : List Value}
    (h : (c.course cfg booting accepted s).1 = .ok results) :
    ∃ d m, (draftOf accepted s).run c.registry.resource? (c.effect cfg booting)
        (tasksOf accepted) = .ok d ∧
      (({ live := s.environment.live } : Alignment).updateAll cfg booting d.updates).settle
        cfg = (.ok (), m) ∧
      results = d.results ∧ (c.course cfg booting accepted s).2 = published d m s := by
  cases hd : (draftOf accepted s).run c.registry.resource? (c.effect cfg booting)
      (tasksOf accepted) with
  | error cause =>
    rw [course_of_draft_error hd] at h
    cases h
  | ok d =>
    rcases hs : (({ live := s.environment.live } : Alignment).updateAll cfg booting
      d.updates).settle cfg with ⟨outcome, m⟩
    cases outcome with
    | error cause =>
      rw [course_of_settle_error hd hs] at h
      cases h
    | ok u =>
      have hcourse := course_of_settle_ok hd hs
      rw [hcourse] at h ⊢
      cases h
      exact ⟨d, m, rfl, hs, rfl, rfl⟩

end

/-- The first steps wait in the order of their operations, and nothing else has changed. -/
theorem queueFirstSteps_eq
    (accepted : List (Operation × RegisteredOperation (ModelHandler X.Handler))) (origin : Nat)
    {t : Transaction X.withProperties} (hcurrent : t.agenda.current = none)
    (hclosed : t.agenda.closed = false) :
    ∃ queue ticket journal,
      queueFirstSteps origin accepted t =
        { t with
          agenda := { t.agenda with model := t.agenda.model ++ queue }
          nextTicket := ticket
          journal } ∧
      queue.map InFlight.stepKey = (tasksOf accepted).zipIdx origin := by
  induction accepted generalizing origin t with
  | nil =>
    refine ⟨[], t.nextTicket, t.journal, ?_, rfl⟩
    rw [List.append_nil]
    rfl
  | cons a rest ih =>
    obtain ⟨op, entry⟩ := a
    have ha : t.agenda.accepts .model := by
      unfold Agenda.accepts
      rw [hclosed, hcurrent]
      rfl
    let step : Step X.withProperties := ⟨t.nextTicket, origin, op, entry.handler⟩
    -- the first step is put at the back of the queue
    have hone : (t.enqueue none origin op { stage := .model, handler := entry.handler }).2 =
        { t with
          agenda := { t.agenda with model := t.agenda.model ++ [step] }
          nextTicket := t.nextTicket + 1 }.record
          (.queued t.nextTicket none origin .model .back) := by
      unfold Transaction.enqueue Agenda.push
      dsimp only
      rw [if_pos ha]
      rfl
    obtain ⟨queue, ticket, journal, hqueue, hkeys⟩ := ih (origin + 1)
      (t := { t with
          agenda := { t.agenda with model := t.agenda.model ++ [step] }
          nextTicket := t.nextTicket + 1 }.record
          (.queued t.nextTicket none origin .model .back)) hcurrent hclosed
    refine ⟨step :: queue, ticket, journal, ?_, ?_⟩
    · rw [queueFirstSteps, hone, hqueue]
      show ({ t with
        agenda := { t.agenda with model := (t.agenda.model ++ [step]) ++ queue }
        nextTicket := ticket
        journal } : Transaction X.withProperties) = _
      rw [List.append_assoc, List.singleton_append]
    · show InFlight.stepKey step :: queue.map InFlight.stepKey = _
      rw [hkeys]
      rfl

/-- A transaction of built-in operations begins with all of them left to draft. -/
theorem inModel_begin (cfg : PropertyConfig) (booting : Bool) (id : Nat)
    (accepted : List (Operation × RegisteredOperation (ModelHandler X.Handler)))
    (s : ControllerState X.withProperties) :
    (begin booting id accepted s).enter .model = .ok ((begin booting id accepted s).entered .model) ∧
      ((begin booting id accepted s).entered .model).InModel
        { cfg, start := s, id, booting, working := (draftOf accepted s).working, results := [] }
        { live := s.environment.live } (draftOf accepted s) (tasksOf accepted) := by
  obtain ⟨queue, ticket, journal, hqueue, hkeys⟩ := queueFirstSteps_eq accepted 0
    (t := (.new id booting (draftOf accepted s).working accepted.length)) rfl rfl
  have hbegin : begin booting id accepted s = ⟨_, s⟩ := congrArg (InFlight.mk · s) hqueue
  rw [hbegin]
  refine ⟨InFlight.enter_of_allows rfl, ?_, hkeys⟩
  rw [length_tasksOf]
  exact
    { state_eq := rfl, tracker_eq := rfl, collecting := rfl, undo_eq := rfl, booting_eq := rfl
      working_eq := rfl, results_eq := rfl, status_eq := rfl, stage_eq := rfl, current_eq := rfl
      closed_eq := rfl, runtime_eq := rfl, verify_eq := rfl, parked_eq := rfl, breach_eq := rfl
      rollbackOnly_eq := rfl }

/-- A transaction of built-in operations takes its course, unless it needs more steps than the
    limit allows. -/
theorem conclude_eq_course {cfg : PropertyConfig} (hc : c.RunsModel cfg) (booting : Bool) {id : Nat}
    {accepted : List (Operation × RegisteredOperation (ModelHandler X.Handler))}
    (hbuilt : ∀ a ∈ accepted, a.2.handler.IsBuiltIn) {s : ControllerState X.withProperties}
    (hid : s.reload.requesters.get? id = none) :
    (c.conclude (begin booting id accepted s) = none ∧ c.stepLimit ≤ accepted.length) ∨
      ∃ f, c.conclude (begin booting id accepted s) = some ⟨(c.course cfg booting accepted s).1, f⟩ ∧
        f.state = (c.course cfg booting accepted s).2 := by
  let σ : Setting X :=
    { cfg, start := s, id, booting, working := (draftOf accepted s).working, results := [] }
  obtain ⟨hmodel, hin⟩ := inModel_begin cfg booting id accepted s
  have hlength := length_tasksOf accepted
  have hbreach : (begin booting id accepted s).transaction.breach = none :=
    hin.at_model.breach_eq
  have hrun : (begin booting id accepted s).run c =
      InFlight.runStages c Stage.all (begin booting id accepted s) := by
    unfold InFlight.run
    rw [hbreach]
  have htasks := isBuiltIn_tasksOf hbuilt
  -- the three places where a transaction stops: in MODEL, in RUNTIME or VERIFY, or after a commit
  rcases InFlight.drain_model hc htasks hin c.stepLimit with ⟨hlt, hd⟩ | hd
  · refine .inl ⟨conclude_of_none ?_, by omega⟩
    rw [hrun]
    exact InFlight.runStages_of_none hmodel hd
  · cases hdraft : (draftOf accepted s).run c.registry.resource? (c.effect cfg booting)
        (tasksOf accepted) with
    | error cause =>
      rw [hdraft] at hd
      obtain ⟨f₁, hd, hf₁⟩ := hd
      have habort := hf₁.abort hid cause
      rw [course_of_draft_error hdraft]
      refine .inr ⟨(f₁.abort cause).2, ?_, habort.2⟩
      rw [conclude_of_error (hrun.trans (InFlight.runStages_of_error hmodel hd)), habort.1]
    | ok d =>
      rw [hdraft] at hd
      obtain ⟨f₁, hd, hf₁⟩ := hd
      have hrest := hrun.trans (InFlight.runStages_of_ok hmodel hd)
      have hat : f₁.At (σ.drafted d 0) .model
          (d.updates.map PendingUpdate.handler ++ Alignment.passSteps { live := s.environment.live })
          { live := s.environment.live } := by
        show f₁.At _ _ (d.updates.map PendingUpdate.handler ++ []) _
        rw [List.append_nil]
        exact hf₁.at_model
      have hupdates : d.updates.length ≤ accepted.length := by
        have h := Draft.length_updates hdraft
        rw [hlength] at h
        simpa [draftOf] using h
      rcases hs : (({ live := s.environment.live } : Alignment).updateAll cfg booting
        d.updates).settle cfg with ⟨outcome, m⟩
      rcases hat.settle hc rfl hs with ⟨hnone, hle⟩ | ⟨f₂, checks, hsettle, hf₂⟩
      · exact .inl ⟨conclude_of_none (hrest.trans hnone), Nat.le_trans hle hupdates⟩
      · refine .inr ?_
        cases outcome with
        | error cause =>
          have habort := InFlight.Undoable.abort (σ := σ.drafted d 0) hid hf₂ cause
          rw [course_of_settle_error hdraft hs]
          refine ⟨(f₂.abort cause).2, ?_, habort.2⟩
          rw [conclude_of_error (hrest.trans hsettle), habort.1]
        | ok u =>
          obtain ⟨f₃, hcommit, hresults, hstate⟩ := InFlight.At.commit (σ := σ.drafted d 0) hid hf₂
          rw [course_of_settle_ok hdraft hs]
          refine ⟨f₃, ?_, hstate⟩
          rw [conclude_of_ok (hrest.trans hsettle) hcommit, hresults]
          show some (Ended.mk (.ok (d.results ++ [])) f₃) = _
          rw [List.append_nil]

end Controller

end ManagedModel
