import ManagedModel.Proofs.Progress

/-! # Failure

    What fails a transaction, and what is reported of it.

    * A submission with an operation that is not accepted is answered with the
      fault of the first such operation; nothing runs (`acceptAll_of_first_refused`).
    * `fault?` tells what a step that was executed is to blame for: a
      step it queued for a stage that is over, the fault its handler returned, or
      the mark for rollback, in this order.
    * `Judged` says that such a step, and nothing else, fails a transaction. The
      argument is that a transaction stops in one state only (`Underway.eq_of_stops`):
      where a step failed it, no other end can be reached. -/

namespace ManagedModel

variable {S : Signature} {c : Controller S}

/-- What a step is to blame for, given the events it left, the outcome of its handler and whether
    the mark for rollback was set when it ended. -/
def fault? (events : List Event) (outcome : Except Fault Unit) (marked : Bool) : Option Fault :=
  match events.findSome? Event.refusedStage?, outcome with
  | some stage, _ => some (.internal (.stageCompleted stage))
  | none, .error fault => some fault
  | none, .ok () => if marked then some (.failed .rollbackOnly) else none

namespace InFlight

/-- The step at the front executes: the outcome of its handler, the events that the step leaves, and
    the transaction when it has ended. -/
def Executes (c : Controller S) (f : InFlight S) (outcome : Except Fault Unit)
    (events : List Event) (f' : InFlight S) : Prop :=
  ∃ step agenda g, f.transaction.agenda.pop? = some (step, agenda) ∧
    (c.handle step.handler step.operation).run c (f.taken step agenda) = (outcome, g) ∧
    f' = g.ended step outcome ∧ f'.transaction.history = f.transaction.history ++ events

section

variable {f₀ f f' : InFlight S} {outcome : Except Fault Unit} {events : List Event} {cause : Fault}

/-- A transaction goes on just if its steps are not to blame for anything. -/
theorem Executes.execute_eq (hf : Steady f.transaction) (h : Executes c f outcome events f') :
    ∃ step agenda, f.transaction.agenda.pop? = some (step, agenda) ∧
      execute c step (f.onTransaction fun t => { t with agenda }) =
        ((match fault? events outcome f'.transaction.rollbackOnly with
          | some cause => .error cause
          | none => .ok ()), f') := by
  obtain ⟨step, agenda, g, hpop, hrun, rfl, hhistory⟩ := h
  have hbreach : (g.ended step outcome).transaction.breach =
      (events.findSome? Event.refusedStage?).map fun stage =>
        .internal (.stageCompleted stage) := by
    -- there was no refusal before the step
    have hrefusal := Transaction.refusal?_of_history hhistory
    rw [Transaction.refusal?_of_history (g.history_ended step outcome), hf.refusal?_eq,
      Option.none_or] at hrefusal
    rw [← hrefusal]
    exact (hf.running hrun).breach_eq.trans (congrArg _ (Option.or_none).symm)
  refine ⟨step, agenda, hpop, (execute_taken hrun).trans (Prod.ext ?_ rfl)⟩
  show verdict (g.ended step outcome).transaction outcome = _
  unfold verdict fault?
  rw [hbreach]
  cases events.findSome? Event.refusedStage? with
  | some stage => rfl
  | none =>
    cases outcome with
    | error fault => rfl
    | ok u =>
      show (if (g.ended step (.ok ())).transaction.rollbackOnly then _ else _) = _
      cases (g.ended step (.ok ())).transaction.rollbackOnly <;> rfl

theorem Executes.move (hf : Steady f.transaction) (h : Executes c f outcome events f')
    (hfault : fault? events outcome f'.transaction.rollbackOnly = none) : Move c f f' := by
  obtain ⟨step, agenda, hpop, hexecute⟩ := h.execute_eq hf
  rw [hfault] at hexecute
  exact .step hpop hexecute

theorem Executes.failsTo (hf : Steady f.transaction) (h : Executes c f outcome events f')
    (hfault : fault? events outcome f'.transaction.rollbackOnly = some cause) :
    FailsTo c f cause f' := by
  obtain ⟨step, agenda, hpop, hexecute⟩ := h.execute_eq hf
  rw [hfault] at hexecute
  exact ⟨step, agenda, hpop, hexecute⟩

/-- Where a step fails the transaction, it is to blame for the cause. -/
theorem FailsTo.executes (hf : Steady f.transaction) (h : FailsTo c f cause f') :
    ∃ outcome events, Executes c f outcome events f' ∧
      fault? events outcome f'.transaction.rollbackOnly = some cause := by
  obtain ⟨step, agenda, hpop, hexecute⟩ := h
  obtain ⟨events, hevents⟩ := hf.prefix_of_execute hexecute
  obtain ⟨outcome, g, hrun, -, -, hended⟩ := hf.of_execute hexecute
  have hexecutes : Executes c f outcome events f' :=
    ⟨step, agenda, g, hpop, hrun, hended, hevents.symm⟩
  refine ⟨outcome, events, hexecutes, ?_⟩
  obtain ⟨step', agenda', hpop', hexecute'⟩ := hexecutes.execute_eq hf
  rw [hpop] at hpop'
  cases hpop'
  rw [hexecute] at hexecute'
  have hverdict := (Prod.mk.inj hexecute').1
  cases hfault : fault? events outcome f'.transaction.rollbackOnly with
  | none =>
    rw [hfault] at hverdict
    cases hverdict
  | some fault =>
    rw [hfault] at hverdict
    cases hverdict
    rfl

/-! ### Where a transaction ends -/

/-- A transaction that a step fails ends there. -/
theorem FailsTo.eq (hf : Underway c f₀ f) (h : FailsTo c f cause f') {g g' : InFlight S}
    {cause' : Fault} (hg : Underway c f₀ g) (h' : FailsTo c g cause' g') :
    cause' = cause ∧ g' = f' := by
  obtain rfl := hf.eq_of_stops (fun _ => h.not_move) hg fun _ => h'.not_move
  obtain ⟨step, agenda, hpop, hexecute⟩ := h
  obtain ⟨step', agenda', hpop', hexecute'⟩ := h'
  rw [hpop] at hpop'
  cases hpop'
  rw [hexecute] at hexecute'
  cases hexecute'
  exact ⟨rfl, rfl⟩

theorem FailsTo.not_atEnd (hf : Underway c f₀ f) (h : FailsTo c f cause f') {g : InFlight S}
    (hg : Underway c f₀ g) : ¬ AtEnd g := by
  intro hend
  obtain rfl := hf.eq_of_stops (fun _ => h.not_move) hg fun _ => hend.not_move
  obtain ⟨step, agenda, hpop, -⟩ := h
  rw [hend.empty] at hpop
  cases hpop

/-- The statuses entered by a steady transaction are those of the stages up to the current one. -/
theorem Steady.statuses_eq {t : Transaction S} (h : Steady t) {stage : Stage}
    (hcurrent : t.agenda.current = some stage) :
    t.statuses = (Stage.all.filter (· ≤ stage)).map Status.executing := by
  have happend := h.statuses_append
  rw [hcurrent] at happend
  refine List.append_cancel_right (happend.trans ?_)
  cases stage <;> rfl

/-- What is on record when a transaction has been aborted: the step that failed it was the last one,
    and the status went from the step's stage through the rollback. -/
theorem FailsTo.record (hf : Steady f.transaction) (h : FailsTo c f cause f') :
    (f'.abort cause).2.transaction.started = f'.transaction.started ∧
      (f'.abort cause).2.transaction.statuses =
        (Stage.all.filter (· ≤ f.transaction.stage)).map Status.executing ++
          [.rollingBack, .aborted] := by
  obtain ⟨-, -, noted, hnoted, hhistory⟩ := h.abort_history hf
  obtain ⟨step, agenda, hpop, hexecute⟩ := h
  obtain ⟨stage, -, hcurrent, -, -⟩ := Agenda.pop?_eq_some hpop
  obtain ⟨outcome, g, -, hrunning, -, rfl⟩ := hf.of_execute hexecute
  have hentered : noted.filterMap Event.entered? = [] :=
    List.filterMap_eq_nil_iff.2 fun e he => (hnoted e he).entered?_eq
  have hstarted : noted.filterMap Event.started? = [] :=
    List.filterMap_eq_nil_iff.2 fun e he => (hnoted e he).started?_eq
  rw [List.append_assoc] at hhistory
  constructor
  · rw [Transaction.started_of_history hhistory, List.filterMap_append, List.filterMap_cons, hstarted]
    exact List.append_nil _
  · rw [Transaction.statuses_of_history hhistory, List.filterMap_append, List.filterMap_cons,
      hentered, statuses_ended, hrunning.statuses_eq, hf.statuses_eq hcurrent,
      hf.stage_eq hcurrent]
    rfl

/-- No more steps are executed before a step fails the transaction than when it has. -/
theorem FailsTo.started_lt (hf₀ : Steady f₀.transaction) (hf : Underway c f₀ f)
    (h : FailsTo c f cause f') {g : InFlight S} (hg : Underway c f₀ g) :
    g.transaction.started.length < f'.transaction.started.length := by
  have hsteady := hf₀.underway hf
  have hle : g.transaction.started.length ≤ f.transaction.started.length :=
    (((hf₀.underway hg).prefix_of_underway
      (hf.of_stops (fun _ => h.not_move) hg)).filterMap _).length_le
  obtain ⟨step, agenda, -, hexecute⟩ := h
  obtain ⟨outcome, g', -, hrunning, -, rfl⟩ := hsteady.of_execute hexecute
  rw [started_ended, hrunning.started_eq, List.length_append, List.length_singleton]
  omega

end

end InFlight

/-! ### The law of failure -/

namespace Controller

open InFlight

/-- What fails a transaction and what becomes of it, in all the states that it passes through. -/
structure Judged (c : Controller S) (f₀ : InFlight S) : Prop where
  /-- The status changes only as it may: the next stage may begin, ... -/
  enters : ∀ {f : InFlight S} {stage : Stage}, Underway c f₀ f →
    f.transaction.agenda.pop? = none →
      (Stage.following f.transaction.agenda.current).head? = some stage →
        f.enter stage = .ok (f.entered stage)
  /-- ... and the transaction may commit at its end. -/
  commits : ∀ {f : InFlight S}, Underway c f₀ f → AtEnd f → f.commit.1 = .ok ()
  /-- A step that is not to blame for anything leaves the transaction under way. -/
  harmless : ∀ {f f' : InFlight S} {outcome : Except Fault Unit} {events : List Event},
    Underway c f₀ f → Executes c f outcome events f' →
      fault? events outcome f'.transaction.rollbackOnly = none → Underway c f₀ f'
  /-- A failure is one that a step is to blame for. -/
  caused : ∀ {ended : Ended S} {failure : Failure}, c.conclude f₀ = some ended →
    ended.outcome = .error failure →
      ∃ f outcome events f', Underway c f₀ f ∧ Executes c f outcome events f' ∧
        fault? events outcome f'.transaction.rollbackOnly = some failure.cause
  /-- A step that is to blame for a fault is the last one, and fails the transaction with this
      fault as the cause, whatever becomes of the rollback handlers. The status goes from the stage
      of the step through the rollback. -/
  fatal : ∀ {f f' : InFlight S} {outcome : Except Fault Unit} {events : List Event}
    {cause : Fault}, Underway c f₀ f → Executes c f outcome events f' →
      fault? events outcome f'.transaction.rollbackOnly = some cause →
        ∀ {ended : Ended S}, c.conclude f₀ = some ended →
          (∃ failure, ended.outcome = .error failure ∧ failure.cause = cause) ∧
          ended.final.transaction.started = f'.transaction.started ∧
          ended.final.transaction.status = .aborted ∧
          ended.final.transaction.statuses =
            (Stage.all.filter (· ≤ f.transaction.stage)).map Status.executing ++
              [.rollingBack, .aborted]
  /-- The limit on steps does not keep a step from failing the transaction. -/
  concluded : ∀ {f f' : InFlight S} {outcome : Except Fault Unit} {events : List Event}
    {cause : Fault}, Underway c f₀ f → Executes c f outcome events f' →
      fault? events outcome f'.transaction.rollbackOnly = some cause →
        f'.transaction.started.length ≤ c.stepLimit → ∃ ended, c.conclude f₀ = some ended
  /-- The status of a transaction that does not fail goes through the stages. -/
  succeeds : ∀ {ended : Ended S} {results : List Value}, c.conclude f₀ = some ended →
    ended.outcome = .ok results → ended.final.transaction.status = .committed ∧
      ended.final.transaction.statuses = Stage.all.map Status.executing ++ [.committed]

theorem judged {f₀ : InFlight S} (h : Steady f₀.transaction)
    (hcurrent : f₀.transaction.agenda.current = none) : Judged c f₀ where
  enters hf _ hnext := enter_of_allows ((h.underway hf).after_enter hnext).1
  commits hf hend := ((h.underway hf).commit_eq hend).1
  harmless hf hexecutes hfault := hf.tail (hexecutes.move (h.underway hf) hfault)
  caused := by
    intro ended failure hconclude hfailure
    have hconcludes := concludes (c := c) h hcurrent
    rw [hconclude] at hconcludes
    cases hconcludes with
    | committed hf hend => cases hfailure
    | @aborted f f' cause hf hfails =>
      cases hfailure
      obtain ⟨outcome, events, hexecutes, hfault⟩ := hfails.executes (h.underway hf)
      rw [(hfails.abort_history (h.underway hf)).1]
      exact ⟨f, outcome, events, f', hf, hexecutes, hfault⟩
  fatal := by
    intro f f' outcome events cause hf hexecutes hfault ended hconclude
    have hsteady := h.underway hf
    have hfails := hexecutes.failsTo hsteady hfault
    have hconcludes := concludes (c := c) h hcurrent
    rw [hconclude] at hconcludes
    cases hconcludes with
    | committed hg hend => exact absurd hend (hfails.not_atEnd hf hg)
    | aborted hg hfails' =>
      obtain ⟨rfl, rfl⟩ := hfails.eq hf hg hfails'
      obtain ⟨hcause, hstatus, -⟩ := hfails.abort_history hsteady
      obtain ⟨hstarted, hstatuses⟩ := hfails.record hsteady
      exact ⟨⟨_, rfl, hcause⟩, hstarted, hstatus, hstatuses⟩
  concluded := by
    intro f f' outcome events cause hf hexecutes hfault hlimit
    have hfails := hexecutes.failsTo (h.underway hf) hfault
    have hconcludes := concludes (c := c) h hcurrent
    cases hconclude : c.conclude f₀ with
    | some ended => exact ⟨ended, rfl⟩
    | none =>
      rw [hconclude] at hconcludes
      cases hconcludes with
      | interrupted hg _ hreached =>
        exact absurd (Nat.lt_of_le_of_lt hreached (hfails.started_lt h hf hg))
          (Nat.not_lt.2 hlimit)
  succeeds := by
    intro ended results hconclude hresults
    have hconcludes := concludes (c := c) h hcurrent
    rw [hconclude] at hconcludes
    cases hconcludes with
    | aborted hf hfails => cases hresults
    | committed hf hend =>
      have hsteady := h.underway hf
      obtain ⟨-, hstatus, -, hhistory⟩ := hsteady.commit_eq hend
      refine ⟨hstatus, ?_⟩
      rw [Transaction.statuses_of_history hhistory, hsteady.statuses_eq hend.current_eq]
      rfl

/-! ### Submissions -/

variable {booting : Bool}

/-- The operations before the first one that is not accepted do not matter. -/
theorem acceptAll_of_first_refused {pre post : List Operation} {op : Operation} {cause : Fault}
    (hpre : ∀ a ∈ pre, ∃ entry, c.accept booting a = .ok entry)
    (hop : c.accept booting op = .error cause) :
    c.acceptAll booting (pre ++ op :: post) = .error cause := by
  induction pre with
  | nil =>
    rw [List.nil_append, acceptAll, hop]
    rfl
  | cons a pre ih =>
    obtain ⟨⟨entry, ha⟩, hpre⟩ := List.forall_mem_cons.1 hpre
    rw [List.cons_append, acceptAll, ha, ih hpre]
    rfl

theorem exists_acceptAll {ops : List Operation}
    (hops : ∀ a ∈ ops, ∃ entry, c.accept booting a = .ok entry) :
    ∃ accepted, c.acceptAll booting ops = .ok accepted := by
  induction ops with
  | nil => exact ⟨[], rfl⟩
  | cons op ops ih =>
    obtain ⟨⟨entry, hop⟩, hrest⟩ := List.forall_mem_cons.1 hops
    obtain ⟨rest, hrest⟩ := ih hrest
    exact ⟨_, acceptAll_cons.2 ⟨entry, rest, hop, hrest, rfl⟩⟩

/-- What fails a submission and what is reported. Where an operation is not accepted, it is the
    fault of the first such operation, and nothing has happened but that an id was spent. Where all
    are accepted, the transaction begins when its lock is granted, its steps alone are judged, and
    the answer is the one it comes to. -/
theorem failure_reported (c : Controller S) (booting : Bool) (ops : List Operation)
    (s : ControllerState S) :
    (∀ {pre post : List Operation} {op : Operation} {cause : Fault}, ops = pre ++ op :: post →
      (∀ a ∈ pre, ∃ entry, c.accept booting a = .ok entry) →
        c.accept booting op = .error cause →
          c.submit booting ops s = .ok (.error { cause }, withNextId s)) ∧
    ((∀ a ∈ ops, ∃ entry, c.accept booting a = .ok entry) →
      ∃ accepted, c.acceptAll booting ops = .ok accepted ∧
        ∀ {lock : Option Lock} {locked : ControllerState S}, ops ≠ [] →
          lock? (writeScope accepted) (withNextId s) = some (lock, locked) →
            (begin booting s.nextId accepted locked).transaction.status = .pending ∧
            (begin booting s.nextId accepted locked).transaction.statuses = [] ∧
            Judged c (begin booting s.nextId accepted locked) ∧
            c.submit booting ops s =
              match c.conclude (begin booting s.nextId accepted locked) with
              | none => .error .stepLimit
              | some ended =>
                .ok (ended.outcome.map fun results =>
                  (results, ended.final.state.store.version), unlock lock ended.final.state)) := by
  constructor
  · rintro pre post op cause rfl hpre hop
    exact submit_of_refused (by simp) (acceptAll_of_first_refused hpre hop)
  · intro hops
    obtain ⟨accepted, hacc⟩ := exists_acceptAll hops
    refine ⟨accepted, hacc, fun hne hlock => ?_⟩
    rename_i lock locked
    obtain ⟨hsteady, hcurrent⟩ := steady_begin booting s.nextId accepted locked
    refine ⟨?_, ?_, judged hsteady hcurrent, submit_of_locked hne hacc hlock⟩
    · rw [hsteady.status_eq, hcurrent]
      rfl
    · have happend := hsteady.statuses_append
      rw [hcurrent] at happend
      exact List.append_cancel_right (happend.trans (List.nil_append _).symm)

/-- The controller of a handler that queues a step for RUNTIME, with a rollback handler that fails.
    The step asks for one more step in MODEL, which is over by then, goes on after the refusal, sets
    the mark for rollback and fails with a fault of its own. -/
def faltering : Controller { Signature.bare with Handler := Bool } where
  registry := { globals := (∅ : SortedMap String _).insert "falter" ⟨{ name := "falter" }, true⟩ }
  handle first _ :=
    if first then
      (Program.addRollback fun _ => .fail (.validation (.custom "not undone"))).bind fun _ =>
        Program.addStep { stage := .runtime, handler := false }
    else
      .queue { stage := .model, handler := true } fun _ =>
        .markRollbackOnly (.fail (.validation (.custom "faltered")))
  interlude := fun code => code.elim
  stepLimit := 5

/-- What is reported is the first operation that has no handler, and the step that was refused. -/
theorem failure_reported_faltering :
    (∃ s', faltering.submit false [{ name := "falter", address := .root },
        { name := "p", address := .root }, { name := "q", address := .root }]
        { environment := () } = .ok (.error ⟨.validation (.noHandler "p" .root), []⟩, s')) ∧
    ∃ failure s', faltering.submit false [{ name := "falter", address := .root }]
        { environment := () } = .ok (.error failure, s') ∧
      failure = ⟨.internal (.stageCompleted .model), [.validation (.custom "not undone")]⟩ ∧
      ∃ f₀ f outcome events f', Underway faltering f₀ f ∧ Executes faltering f outcome events f' ∧
        fault? events outcome f'.transaction.rollbackOnly = some failure.cause := by
  let s : ControllerState { Signature.bare with Handler := Bool } := { environment := () }
  have haccept : ∃ entry, faltering.accept false { name := "falter", address := .root } =
      .ok entry := by
    have hok : (faltering.accept false { name := "falter", address := .root }).isOk = true := by
      decide +kernel
    cases hentry : faltering.accept false { name := "falter", address := .root } with
    | ok entry => exact ⟨entry, rfl⟩
    | error cause =>
      rw [hentry] at hok
      cases hok
  constructor
  · have hnone : faltering.registry.operation? .root "p" = none := by
      have hisNone : (faltering.registry.operation? .root "p").isNone = true := by decide +kernel
      exact Option.isNone_iff_eq_none.1 hisNone
    have hrefused : faltering.accept false { name := "p", address := .root } =
        .error (.validation (.noHandler "p" .root)) := by
      unfold accept
      rw [hnone]
    refine ⟨withNextId s, (failure_reported faltering false _ s).1
      (show _ = [{ name := "falter", address := .root }] ++ _ :: [_] from rfl) ?_ hrefused⟩
    intro a ha
    rw [List.mem_singleton.1 ha]
    exact haccept
  · have hrun : ((faltering.submit false [{ name := "falter", address := .root }] s).toOption.any
        fun p => match p.1 with
          | .ok _ => false
          | .error failure => failure ==
            ⟨.internal (.stageCompleted .model), [.validation (.custom "not undone")]⟩) = true := by
      decide +kernel
    obtain ⟨accepted, hacc, hjudged⟩ :=
      (failure_reported faltering false [{ name := "falter", address := .root }] s).2
        (fun a ha => by rw [List.mem_singleton.1 ha]; exact haccept)
    cases hsubmit : faltering.submit false [{ name := "falter", address := .root }] s with
    | error stall =>
      rw [hsubmit] at hrun
      cases hrun
    | ok p =>
      obtain ⟨r, s'⟩ := p
      rw [hsubmit] at hrun
      cases r with
      | ok results => cases hrun
      | error failure =>
        rcases submit_cases hsubmit with ⟨hnil, -⟩ | ⟨cause, hrefused, -⟩ | ⟨⟨ran⟩⟩
        · cases hnil
        · rw [hacc] at hrefused
          cases hrefused
        · obtain ⟨accepted', lock, locked, ended, hacc', hlock, hended, hresult, -⟩ := ran
          rw [hacc] at hacc'
          cases hacc'
          obtain ⟨-, -, hjudged, -⟩ := hjudged (List.cons_ne_nil _ _) hlock
          have hfailure : ended.outcome = .error failure := by
            cases houtcome : ended.outcome with
            | ok results =>
              rw [houtcome] at hresult
              cases hresult
            | error failure' =>
              rw [houtcome] at hresult
              cases hresult
              rfl
          exact ⟨failure, s', rfl, eq_of_beq hrun, _, hjudged.caused hended hfailure⟩

end Controller

end ManagedModel
