import ManagedModel.Proofs.Grants
import ManagedModel.Proofs.Scheduling

/-! # Descent of steps

    Every step of a transaction stems from one of the operations submitted: it
    is the operation's first step, or a step that stems from it has queued it.

    * `Descends` follows the queueing of steps in the history, from a step to the
      one that queued it and so on, whatever the operation each of them runs
      with and at whatever end it was put.
    * `Genealogy` says that the origins noted in a history are those that steps
      descend from. Every event keeps it (`Genealogy.concat`), and so a step
      descends from one operation only (`Genealogy.unique`).
    * `Traced` is the invariant of a transaction: the result of an operation is
      what was set last by the steps that descend from it. A step leaves the
      results of the other operations alone (`Traced.execute`). -/

namespace ManagedModel

variable {S : Signature} {c : Controller S}

/-! ### Histories -/

/-- The step descends from the operation at a place: it is the first step of that operation, or it
    was queued by a step that descends from it. -/
inductive Descends (h : List Event) (i : Nat) : Nat → Prop where
  | first {ticket origin : Nat} {stage : Stage} {queueEnd : QueueEnd}
      (hqueued : h[i]? = some (.queued ticket none origin stage queueEnd)) : Descends h i ticket
  | child {ticket parent origin : Nat} {stage : Stage} {queueEnd : QueueEnd}
      (hparent : Descends h i parent)
      (hqueued : .queued ticket (some parent) origin stage queueEnd ∈ h) : Descends h i ticket

/-- The value is the last one that was set by a step descending from the operation; where none has
    set any, it is undefined. -/
def IsLastSet (h : List Event) (i : Nat) (value : Value) : Prop :=
  (∃ pre ticket origin post, h = pre ++ .resultSet ticket origin value :: post ∧
    Descends h i ticket ∧
    ∀ {later o : Nat} {v : Value}, .resultSet later o v ∈ post → ¬ Descends h i later) ∨
  value = .undefined ∧
    ∀ {ticket o : Nat} {v : Value}, .resultSet ticket o v ∈ h → ¬ Descends h i ticket

/-- The step was queued, and the operation at this place was noted as its origin. -/
def QueuedFrom (h : List Event) (ticket origin : Nat) : Prop :=
  ∃ parent? stage queueEnd, .queued ticket parent? origin stage queueEnd ∈ h

section

variable {h h' : List Event} {e : Event} {i ticket origin operations : Nat} {value : Value}

theorem Descends.mono (hd : Descends h i ticket) (hgrows : h <+: h') : Descends h' i ticket := by
  obtain ⟨rest, rfl⟩ := hgrows
  induction hd with
  | first hqueued =>
    obtain ⟨hlt, -⟩ := List.getElem?_eq_some_iff.1 hqueued
    exact .first ((List.getElem?_append_left hlt).trans hqueued)
  | child _ hqueued ih => exact .child ih (List.mem_append_left _ hqueued)

theorem QueuedFrom.mono (hq : QueuedFrom h ticket origin) (hgrows : h <+: h') :
    QueuedFrom h' ticket origin := by
  obtain ⟨parent?, stage, queueEnd, hmem⟩ := hq
  exact ⟨parent?, stage, queueEnd, hgrows.subset hmem⟩

/-- A step that was queued and started has been so with one more event, too. -/
theorem QueuedFrom.started_concat
    (hown : QueuedFrom h ticket origin ∧ ∃ stage, .started ticket stage ∈ h) :
    QueuedFrom (h ++ [e]) ticket origin ∧ ∃ stage, .started ticket stage ∈ h ++ [e] :=
  ⟨hown.1.mono (List.prefix_append _ _),
    hown.2.imp fun _ hstarted => List.mem_append_left _ hstarted⟩

/-- What the event sets as the result of the operation at a place. -/
def Event.setAt? (i : Nat) : Event → Option Value
  | resultSet _ origin value => if origin = i then some value else none
  | _ => none

/-- What was set last as the result of the operation at a place. -/
def lastSet (h : List Event) (i : Nat) : Value :=
  (h.filterMap (Event.setAt? i)).getLast?.getD .undefined

theorem lastSet_concat_of_none (hnone : e.setAt? i = none) : lastSet (h ++ [e]) i = lastSet h i := by
  unfold lastSet
  rw [filterMap_concat_of_none hnone]

theorem lastSet_concat_of_some (hsome : e.setAt? i = some value) :
    lastSet (h ++ [e]) i = value := by
  unfold lastSet
  rw [List.filterMap_append, List.filterMap_cons_some hsome, List.filterMap_nil, List.getLast?_concat]
  rfl

/-- What comes last in a projection of a list stands there with nothing of the projection behind. -/
theorem eq_append_of_getLast?_filterMap {α β : Type} {project : α → Option β} {l : List α} {b : β}
    (hlast : (l.filterMap project).getLast? = some b) :
    ∃ pre a post, l = pre ++ a :: post ∧ project a = some b ∧ ∀ x ∈ post, project x = none := by
  obtain ⟨front, hfront⟩ := List.getLast?_eq_some_iff.1 hlast
  obtain ⟨l₁, l₂, rfl, -, hl₂⟩ := List.filterMap_eq_append_iff.1 hfront
  obtain ⟨skipped, a, post, rfl, -, ha, hpost⟩ := List.filterMap_eq_cons_iff.1 hl₂
  exact ⟨l₁ ++ skipped, a, post, (List.append_assoc _ _ _).symm, ha,
    List.filterMap_eq_nil_iff.1 hpost⟩

/-- The event agrees with what is known of origins: a step has the origin of the one that queued it
    and sets the result of its origin while it executes. -/
def Event.Agrees (h : List Event) : Event → Prop
  | queued _ (some parent) origin _ _ => QueuedFrom h parent origin
  | queued _ none _ _ _ => False
  | resultSet ticket origin _ =>
    QueuedFrom h ticket origin ∧ ∃ stage, .started ticket stage ∈ h
  | _ => True

/-- The origins noted in a history are those that the steps descend from. -/
structure Genealogy (operations : Nat) (h : List Event) : Prop where
  /-- The first step of an operation is the one queued at its place. -/
  first : ∀ {i ticket origin : Nat} {stage : Stage} {queueEnd : QueueEnd},
    h[i]? = some (.queued ticket none origin stage queueEnd) → origin = i
  inherited : ∀ {ticket parent origin : Nat} {stage : Stage} {queueEnd : QueueEnd},
    .queued ticket (some parent) origin stage queueEnd ∈ h → QueuedFrom h parent origin
  descends : ∀ {ticket origin : Nat}, QueuedFrom h ticket origin →
    origin < operations ∧ Descends h origin ticket
  set : ∀ {ticket origin : Nat} {value : Value}, .resultSet ticket origin value ∈ h →
    QueuedFrom h ticket origin ∧ ∃ stage, .started ticket stage ∈ h

namespace Genealogy

/-- Every event that agrees with what is known keeps the genealogy. -/
theorem concat (hg : Genealogy operations h) (he : e.Agrees h) :
    Genealogy operations (h ++ [e]) where
  first := by
    intro i ticket origin stage queueEnd hi
    by_cases hlt : i < h.length
    · rw [List.getElem?_append_left hlt] at hi
      exact hg.first hi
    · -- no first step is queued later
      rw [List.getElem?_append_right (Nat.le_of_not_lt hlt)] at hi
      cases List.mem_singleton.1 (List.mem_of_getElem? hi)
      exact absurd he id
  inherited := by
    intro ticket parent origin stage queueEnd hmem
    rcases List.mem_append.1 hmem with hmem | hmem
    · exact (hg.inherited hmem).mono (List.prefix_append _ _)
    · cases List.mem_singleton.1 hmem
      exact QueuedFrom.mono he (List.prefix_append _ _)
  descends := by
    rintro ticket origin ⟨parent?, stage, queueEnd, hmem⟩
    rcases List.mem_append.1 hmem with hold | hnew
    · obtain ⟨hlt, hd⟩ := hg.descends ⟨parent?, stage, queueEnd, hold⟩
      exact ⟨hlt, hd.mono (List.prefix_append _ _)⟩
    · cases List.mem_singleton.1 hnew
      cases parent? with
      | none => exact absurd he id
      | some parent =>
        obtain ⟨hlt, hd⟩ := hg.descends he
        exact ⟨hlt, .child (hd.mono (List.prefix_append _ _)) hmem⟩
  set := by
    intro ticket origin value hmem
    have hset : QueuedFrom h ticket origin ∧ ∃ stage, .started ticket stage ∈ h := by
      rcases List.mem_append.1 hmem with hmem | hmem
      · exact hg.set hmem
      · cases List.mem_singleton.1 hmem
        exact he
    exact QueuedFrom.started_concat hset

/-- The first steps of the operations have no others before them. -/
theorem opening (operations : Nat) :
    Genealogy operations
      ((List.range operations).map fun i => Event.queued i none i .model .back) := by
  have hget : ∀ {i : Nat} {e : Event},
      ((List.range operations).map fun i => Event.queued i none i .model .back)[i]? = some e ↔
        i < operations ∧ .queued i none i .model .back = e := by
    intro i e
    rw [List.getElem?_map, Option.map_eq_some_iff]
    constructor
    · rintro ⟨j, hj, rfl⟩
      obtain ⟨hlt, rfl⟩ := List.getElem?_eq_some_iff.1 hj
      rw [List.length_range] at hlt
      rw [List.getElem_range]
      exact ⟨hlt, rfl⟩
    · exact fun ⟨hlt, he⟩ => ⟨i, List.getElem?_range hlt, he⟩
  refine ⟨?_, ?_, ?_, ?_⟩
  · intro i ticket origin stage queueEnd hi
    cases (hget.1 hi).2
    rfl
  · intro ticket parent origin stage queueEnd hmem
    obtain ⟨i, hi⟩ := List.mem_iff_getElem?.1 hmem
    cases (hget.1 hi).2
  · rintro ticket origin ⟨parent?, stage, queueEnd, hmem⟩
    obtain ⟨i, hi⟩ := List.mem_iff_getElem?.1 hmem
    obtain ⟨hlt, he⟩ := hget.1 hi
    cases he
    exact ⟨hlt, .first hi⟩
  · intro ticket origin value hmem
    obtain ⟨i, hi⟩ := List.mem_iff_getElem?.1 hmem
    cases (hget.1 hi).2

/-- A step descends from the operation that is noted as its origin, and from no other. -/
theorem unique (hg : Genealogy operations h) (hnodup : (h.filterMap Event.ticket?).Nodup)
    (hd : Descends h i ticket) (hq : QueuedFrom h ticket origin) : origin = i := by
  induction hd generalizing origin with
  | first hqueued =>
    obtain ⟨parent?, stage, queueEnd, hmem⟩ := hq
    cases eq_of_ticket?_eq hnodup (List.mem_of_getElem? hqueued) hmem rfl rfl
    exact hg.first hqueued
  | child _ hqueued ih =>
    -- a step is queued once, with the origin of the one that queues it
    obtain ⟨parent?, stage, queueEnd, hmem⟩ := hq
    cases eq_of_ticket?_eq hnodup hqueued hmem rfl rfl
    exact ih (hg.inherited hqueued)

theorem descends_iff (hg : Genealogy operations h) (hnodup : (h.filterMap Event.ticket?).Nodup)
    (hset : .resultSet ticket origin value ∈ h) : Descends h i ticket ↔ origin = i := by
  have hq := (hg.set hset).1
  refine ⟨fun hd => hg.unique hnodup hd hq, ?_⟩
  rintro rfl
  exact (hg.descends hq).2

/-- What was set last for an origin was set last by the steps that descend from it. -/
theorem isLastSet (hg : Genealogy operations h) (hnodup : (h.filterMap Event.ticket?).Nodup)
    (i : Nat) : IsLastSet h i (lastSet h i) := by
  have hskipped : ∀ {x : Event} {ticket o : Nat} {v : Value}, x.setAt? i = none →
      x = .resultSet ticket o v → x ∈ h → ¬ Descends h i ticket := by
    rintro x ticket o v hnone rfl hmem hd
    rw [Event.setAt?, if_pos ((hg.descends_iff hnodup hmem).1 hd)] at hnone
    cases hnone
  unfold lastSet
  cases hlast : (h.filterMap (Event.setAt? i)).getLast? with
  | none =>
    refine .inr ⟨rfl, fun {ticket o v} hmem => hskipped ?_ rfl hmem⟩
    exact List.filterMap_eq_nil_iff.1 (List.getLast?_eq_none_iff.1 hlast) _ hmem
  | some value =>
    obtain ⟨pre, e, post, rfl, he, hpost⟩ := eq_append_of_getLast?_filterMap hlast
    cases e with
    | resultSet ticket origin v =>
      have hmem : .resultSet ticket origin v ∈ pre ++ .resultSet ticket origin v :: post :=
        List.mem_append_right _ List.mem_cons_self
      rw [Event.setAt?, Option.ite_none_right_eq_some] at he
      obtain ⟨horigin, hvalue⟩ := he
      cases hvalue
      refine .inl ⟨pre, ticket, origin, post, rfl, (hg.descends_iff hnodup hmem).2 horigin, ?_⟩
      intro later o v hlater
      exact hskipped (hpost _ hlater) rfl
        (List.mem_append_right _ (List.mem_cons_of_mem _ hlater))
    | _ => cases he

end Genealogy

end

/-! ### Transactions -/

namespace Agenda

variable {σ : Type} {q : Agenda σ} {stage stage' : Stage} {step other : σ}

/-- A queue holds what it held before, and what was put into it. -/
theorem mem_waiting_push {queueEnd : QueueEnd}
    (hmem : other ∈ (q.set stage (match queueEnd with
      | .front => step :: q.waiting stage
      | .back => q.waiting stage ++ [step])).waiting stage') :
    other = step ∨ other ∈ q.waiting stage' := by
  by_cases hstage : stage' = stage
  · subst hstage
    rw [q.waiting_set_self] at hmem
    cases queueEnd with
    | front => exact List.mem_cons.1 hmem
    | back => exact (List.mem_append.1 hmem).symm.imp_left List.mem_singleton.1
  · rw [q.waiting_set_of_ne hstage] at hmem
    exact .inr hmem

theorem mem_waiting_tail {rest : List σ} (hwaiting : q.waiting stage = step :: rest)
    (hmem : other ∈ (q.set stage rest).waiting stage') : other ∈ q.waiting stage' := by
  by_cases hstage : stage' = stage
  · subst hstage
    rw [q.waiting_set_self] at hmem
    rw [hwaiting]
    exact List.mem_cons_of_mem _ hmem
  · rwa [q.waiting_set_of_ne hstage] at hmem

end Agenda

/-- The steps that wait have their origins on record, and the results are what was set last. -/
structure Traced (operations : Nat) (t : Transaction S) : Prop where
  genealogy : Genealogy operations t.history
  waiting : ∀ (stage : Stage), ∀ step ∈ t.agenda.waiting stage,
    QueuedFrom t.history step.ticket step.origin
  length_results : t.results.length = operations
  results_eq : ∀ i < operations, t.results[i]? = some (lastSet t.history i)

section

variable {operations : Nat} {t u : Transaction S} {step : Step S} {e : Event}

/-- An event that sets nothing keeps the results. -/
theorem Traced.note (h : Traced operations t) (hhistory : u.history = t.history ++ [e])
    (he : e.Agrees t.history) (hnone : ∀ i, e.setAt? i = none) (hresults : u.results = t.results)
    (hwaiting : ∀ (stage : Stage), ∀ step ∈ u.agenda.waiting stage,
      step ∈ t.agenda.waiting stage ∨ QueuedFrom u.history step.ticket step.origin) :
    Traced operations u where
  genealogy := by
    rw [hhistory]
    exact h.genealogy.concat he
  waiting stage step hstep := by
    rcases hwaiting stage step hstep with hold | hnew
    · rw [hhistory]
      exact (h.waiting stage step hold).mono (List.prefix_append _ _)
    · exact hnew
  length_results := hresults ▸ h.length_results
  results_eq i hi := by
    rw [hresults, hhistory, lastSet_concat_of_none (hnone i)]
    exact h.results_eq i hi

/-- A result that is set is that of the step's origin. -/
theorem Traced.setResult (h : Traced operations t)
    (hown : QueuedFrom t.history step.ticket step.origin ∧
      ∃ stage, .started step.ticket stage ∈ t.history) (value : Value) :
    Traced operations ({ t with results := t.results.set step.origin value }.record
      (.resultSet step.ticket step.origin value)) := by
  have hhistory := Transaction.history_record
    { t with results := t.results.set step.origin value }
    (.resultSet step.ticket step.origin value)
  refine ⟨?_, ?_, ?_, ?_⟩
  · rw [hhistory]
    exact h.genealogy.concat hown
  · intro stage other hother
    rw [hhistory]
    exact (h.waiting stage other hother).mono (List.prefix_append _ _)
  · exact List.length_set.trans h.length_results
  · intro i hi
    rw [hhistory]
    show (t.results.set step.origin value)[i]? = _
    by_cases horigin : step.origin = i
    · have hsome : (Event.resultSet step.ticket step.origin value).setAt? i = some value :=
        if_pos horigin
      rw [lastSet_concat_of_some hsome, horigin, List.getElem?_set_self (h.length_results.symm ▸ hi)]
    · have hnone : (Event.resultSet step.ticket step.origin value).setAt? i = none :=
        if_neg horigin
      rw [List.getElem?_set_ne horigin, lastSet_concat_of_none hnone]
      exact h.results_eq i hi

end

namespace InFlight

variable {operations : Nat} {t u v : Transaction S} {f f' : InFlight S} {step : Step S}
  {agenda : Agenda (Step S)}

/-- While a step executes, the transaction stays traced, and the results of the operations that the
    step does not stem from are as they were. -/
structure Tracing (operations : Nat) (step : Step S) (t u : Transaction S) : Prop
    extends Running step t u where
  traced : Traced operations u
  own : QueuedFrom u.history step.ticket step.origin ∧ ∃ stage, .started step.ticket stage ∈ u.history
  others : ∀ {i : Nat}, i ≠ step.origin → u.results[i]? = t.results[i]?

/-- A call that leaves an event in the journal and sets no result. -/
theorem Tracing.note (h : Tracing operations step t u) (hrunning : Running step t v) {e : Event}
    (hhistory : v.history = u.history ++ [e]) (he : e.Agrees u.history)
    (hnone : ∀ i, e.setAt? i = none) (hresults : v.results = u.results)
    (hwaiting : ∀ (stage : Stage), ∀ step ∈ v.agenda.waiting stage,
      step ∈ u.agenda.waiting stage ∨ QueuedFrom v.history step.ticket step.origin) :
    Tracing operations step t v where
  toRunning := hrunning
  traced := h.traced.note hhistory he hnone hresults hwaiting
  own := by
    rw [hhistory]
    exact QueuedFrom.started_concat h.own
  others hi := hresults ▸ h.others hi

/-- Whatever a handler calls for, steps and results are traced to their origins. -/
theorem tracing_keptByCalls (step : Step S) (ht : t.rollback.phase = .collecting) :
    KeptByCalls fun f : InFlight S => Tracing operations step t f.transaction where
  queue {f} request h := by
    have hrunning := (running_keptByCalls step ht).queue request h.toRunning
    show Tracing operations step t (f.transaction.queue request).2
    change Running step t (f.transaction.queue request).2 at hrunning
    rcases Transaction.queue_cases h.executing_eq request with ⟨-, hq⟩ | ⟨-, hq⟩
    · rw [hq] at hrunning ⊢
      have hhistory := f.transaction.history_queued (some step.ticket) step.origin
        (request.operation?.getD step.operation) request
      refine h.note hrunning hhistory h.own.1 (fun _ => rfl) rfl fun stage other hother => ?_
      -- what is queued has the origin of the step that queues it
      rcases Agenda.mem_waiting_push hother with rfl | hold
      · rw [hhistory]
        exact .inr ⟨_, _, _, List.mem_append_right _ (List.mem_singleton_self _)⟩
      · exact .inl hold
    · rw [hq] at hrunning ⊢
      exact h.note hrunning (f.transaction.history_refused _ _ _) trivial (fun _ => rfl) rfl
        fun _ _ hother => .inl hother
  onRollback {f} handler h := by
    have hrunning := (running_keptByCalls step ht).onRollback handler h.toRunning
    show Tracing operations step t (f.transaction.onRollback handler).2
    change Running step t (f.transaction.onRollback handler).2 at hrunning
    rw [Transaction.onRollback_of_collecting h.executing_eq (h.phase_eq.trans ht)] at hrunning ⊢
    exact h.note hrunning (Transaction.history_record _ _) trivial (fun _ => rfl) rfl
      fun _ _ hother => .inl hother
  markRollbackOnly h := ⟨(running_keptByCalls step ht).markRollbackOnly h.toRunning,
    ⟨h.traced.1, h.traced.2, h.traced.3, h.traced.4⟩, h.own, h.others⟩
  askReload h := ⟨(running_keptByCalls step ht).askReload h.toRunning,
    ⟨h.traced.1, h.traced.2, h.traced.3, h.traced.4⟩, h.own, h.others⟩
  withdrawReload h := ⟨(running_keptByCalls step ht).withdrawReload h.toRunning,
    ⟨h.traced.1, h.traced.2, h.traced.3, h.traced.4⟩, h.own, h.others⟩
  attach change h := ⟨(running_keptByCalls step ht).attach change h.toRunning,
    ⟨h.traced.1, h.traced.2, h.traced.3, h.traced.4⟩, h.own, h.others⟩
  write w hstage h := ⟨(running_keptByCalls step ht).write w hstage h.toRunning,
    ⟨h.traced.1, h.traced.2, h.traced.3, h.traced.4⟩, h.own, h.others⟩
  setResult {f} value h := by
    have hrunning := (running_keptByCalls step ht).setResult value h.toRunning
    show Tracing operations step t (f.transaction.setResult value)
    change Running step t (f.transaction.setResult value) at hrunning
    rw [Transaction.setResult_of_executing h.executing_eq] at hrunning ⊢
    refine ⟨hrunning, h.traced.setResult h.own value, ?_, ?_⟩
    · rw [Transaction.history_record]
      exact QueuedFrom.started_concat h.own
    · intro i hi
      show (f.transaction.results.set step.origin value)[i]? = _
      rw [List.getElem?_set_ne hi.symm]
      exact h.others hi
  environment _ h := h

end InFlight

open InFlight in
/-- A step that is executed was queued, and only the result of its origin can be another one
    afterwards. -/
theorem Traced.execute {operations : Nat} {f f' : InFlight S} {step : Step S}
    {agenda : Agenda (Step S)} (h : Traced operations f.transaction)
    (hf : Steady f.transaction) {r : Except Fault Unit}
    (hpop : f.transaction.agenda.pop? = some (step, agenda))
    (hexecute : execute c step (f.onTransaction fun t => { t with agenda }) = (r, f')) :
    Traced operations f'.transaction ∧
      QueuedFrom f.transaction.history step.ticket step.origin ∧
      ∀ {i : Nat}, i ≠ step.origin → f'.transaction.results[i]? = f.transaction.results[i]? := by
  obtain ⟨stage, rest, hcurrent, hwaiting, rfl⟩ := Agenda.pop?_eq_some hpop
  have hown : QueuedFrom f.transaction.history step.ticket step.origin :=
    h.waiting stage step (hwaiting ▸ List.mem_cons_self)
  have hhistory := f.history_taken step (f.transaction.agenda.set stage rest)
  have htaken : Traced operations (f.taken step (f.transaction.agenda.set stage rest)).transaction :=
    h.note hhistory trivial (fun _ => rfl) rfl fun _ _ hother =>
      .inl (Agenda.mem_waiting_tail hwaiting hother)
  obtain ⟨outcome, g, hrun, -, -, rfl⟩ := hf.of_execute hexecute
  have hbegun : Tracing operations step
      (f.taken step (f.transaction.agenda.set stage rest)).transaction
      (f.taken step (f.transaction.agenda.set stage rest)).transaction := by
    refine ⟨hf.running_taken, htaken, ?_, fun _ => rfl⟩
    rw [hhistory]
    exact ⟨hown.mono (List.prefix_append _ _), f.transaction.stage,
      List.mem_append_right _ (List.mem_singleton_self _)⟩
  have hcollecting : (f.taken step (f.transaction.agenda.set stage rest)).transaction.rollback.phase
      = .collecting := hf.collecting
  have hkept := KeptByCalls.run_transaction (c := c) (tracing_keptByCalls step hcollecting)
    (c.handle step.handler step.operation) hbegun
  rw [hrun] at hkept
  refine ⟨?_, hown, hkept.others⟩
  exact hkept.traced.note (g.history_ended step outcome) trivial (fun _ => rfl) rfl
    fun _ _ hother => .inl hother

open InFlight in
theorem Traced.underway {operations : Nat} {f₀ f : InFlight S} (h : Traced operations f₀.transaction)
    (hsteady : Steady f₀.transaction) (hf : Underway c f₀ f) : Traced operations f.transaction := by
  induction hf with
  | refl => exact h
  | @tail f f' hf hmove ih =>
    cases hmove with
    | @enter stage hpop hnext =>
      exact ih.note (f.history_entered stage) trivial (fun _ => rfl) rfl
        fun _ _ hstep => .inl hstep
    | step hpop hexecute => exact (ih.execute (hsteady.underway hf) hpop hexecute).1

/-! ### Submissions -/

namespace Controller

open InFlight

variable {accepted : List (Operation × RegisteredOperation S.Handler)} {booting : Bool} {id : Nat}
  {s s' : ControllerState S} {sub : Submission}

/-- The first steps wait in the order of their operations, each with the operation's handler. -/
theorem agenda_queueFirstSteps {t : Transaction S} (hopen : t.agenda.closed = false)
    (hcurrent : t.agenda.current = none) (origin : Nat) :
    (queueFirstSteps origin accepted t).agenda =
      { t.agenda with
        model := t.agenda.model ++ accepted.mapIdx fun i a =>
          { ticket := t.nextTicket + i, origin := origin + i, operation := a.1,
            handler := a.2.handler } } ∧
      (queueFirstSteps origin accepted t).results = t.results := by
  induction accepted generalizing origin t with
  | nil => exact ⟨by rw [List.mapIdx_nil, List.append_nil]; rfl, rfl⟩
  | cons a rest ih =>
    obtain ⟨op, entry⟩ := a
    unfold queueFirstSteps
    rw [Transaction.enqueue_of_accepts (accepts_of_not_begun hopen hcurrent _)]
    obtain ⟨hagenda, hresults⟩ := ih
      (t := t.queued none origin op { stage := .model, handler := entry.handler }) hopen hcurrent
      (origin + 1)
    refine ⟨?_, hresults⟩
    rw [hagenda, List.mapIdx_cons]
    show ({ t.agenda with model := (t.agenda.model ++ [_]) ++ _ } : Agenda (Step S)) = _
    rw [List.append_assoc, List.singleton_append]
    refine congrArg (fun queue : List (Step S) =>
      ({ t.agenda with model := t.agenda.model ++ queue } : Agenda (Step S))) ?_
    refine congrArg (_ :: ·) (congrArg (rest.mapIdx ·) (funext fun i => funext fun a => ?_))
    show (⟨t.nextTicket + 1 + i, origin + 1 + i, a.1, a.2.handler⟩ : Step S) =
      ⟨t.nextTicket + (i + 1), origin + (i + 1), a.1, a.2.handler⟩
    rw [Nat.add_right_comm, Nat.add_right_comm origin, Nat.add_assoc, Nat.add_assoc]

theorem agenda_begin (booting : Bool) (id : Nat)
    (accepted : List (Operation × RegisteredOperation S.Handler)) (s : ControllerState S) :
    (begin booting id accepted s).transaction.agenda =
      { model := accepted.mapIdx fun i a =>
          { ticket := i, origin := i, operation := a.1, handler := a.2.handler } } ∧
      (begin booting id accepted s).transaction.results =
        List.replicate accepted.length .undefined := by
  obtain ⟨hagenda, hresults⟩ := @agenda_queueFirstSteps _ accepted
    (.new id booting (.ofTree s.store.tree (writeScope accepted)) accepted.length) rfl rfl 0
  refine ⟨hagenda.trans ?_, hresults⟩
  refine congrArg (fun queue : List (Step S) => ({ model := queue } : Agenda (Step S))) ?_
  refine congrArg (accepted.mapIdx ·) (funext fun i => funext fun a => ?_)
  show (⟨0 + i, 0 + i, a.1, a.2.handler⟩ : Step S) = _
  rw [Nat.zero_add]

/-- A transaction begins traced. -/
theorem traced_begin (booting : Bool) (id : Nat)
    (accepted : List (Operation × RegisteredOperation S.Handler)) (s : ControllerState S) :
    Traced accepted.length (begin booting id accepted s).transaction := by
  obtain ⟨hagenda, hresults⟩ := agenda_begin booting id accepted s
  have hhistory := history_begin booting id accepted s
  refine ⟨?_, ?_, ?_, ?_⟩
  · rw [hhistory]
    exact .opening accepted.length
  · intro stage step hstep
    rw [hagenda] at hstep
    cases stage with
    | model =>
      obtain ⟨i, hlt, rfl⟩ := List.mem_mapIdx.1 hstep
      rw [hhistory]
      exact ⟨none, .model, .back, List.mem_map.2 ⟨i, List.mem_range.2 hlt, rfl⟩⟩
    | runtime => cases hstep
    | verify => cases hstep
  · rw [hresults, List.length_replicate]
  · intro i hi
    rw [hresults, List.getElem?_replicate, if_pos hi, hhistory]
    refine congrArg some (Eq.symm ?_)
    unfold lastSet
    have hnone : ((List.range accepted.length).map fun i =>
        Event.queued i none i .model .back).filterMap (Event.setAt? i) = [] := by
      refine List.filterMap_eq_nil_iff.2 fun e he => ?_
      obtain ⟨j, -, rfl⟩ := List.mem_map.1 he
      rfl
    rw [hnone]
    rfl

/-- The results of a transaction belong to the operations that it was begun for. -/
structure Attributed (c : Controller S)
    (accepted : List (Operation × RegisteredOperation S.Handler)) (f₀ : InFlight S)
    (h : List Event) (results : List Value) : Prop where
  length_eq : results.length = accepted.length
  /-- The first step of each operation waits in its place, with the operation and its handler. -/
  first : ∀ {i : Nat} {op : Operation} {entry : RegisteredOperation S.Handler},
    accepted[i]? = some (op, entry) → ∃ step, f₀.transaction.agenda.model[i]? = some step ∧
      step.operation = op ∧ step.handler = entry.handler ∧ Descends h i step.ticket
  /-- A result is what the steps that descend from its operation set last. -/
  last : ∀ {i : Nat} {value : Value}, results[i]? = some value → IsLastSet h i value
  /-- A result is set by a step that executes, and each step descends from one operation only. -/
  own : ∀ {ticket origin : Nat} {value : Value}, .resultSet ticket origin value ∈ h →
    (∃ stage, .started ticket stage ∈ h) ∧ ∃! i, i < results.length ∧ Descends h i ticket
  /-- A step leaves the results of operations alone that it does not descend from. -/
  others : ∀ {f f' : InFlight S} {step : Step S} {agenda : Agenda (Step S)} {r : Except Fault Unit},
    Underway c f₀ f → f.transaction.agenda.pop? = some (step, agenda) →
      InFlight.execute c step (f.onTransaction fun t => { t with agenda }) = (r, f') →
        ∀ {i : Nat}, ¬ Descends f.transaction.history i step.ticket →
          f'.transaction.results[i]? = f.transaction.results[i]?

theorem attributed_of_conclude {ended : Ended S} {results : List Value}
    (hended : c.conclude (begin booting id accepted s) = some ended)
    (hok : ended.outcome = .ok results) :
    Attributed c accepted (begin booting id accepted s) ended.final.transaction.history
      results := by
  obtain ⟨hsteady, hcurrent⟩ := steady_begin booting id accepted s
  have hbegin := traced_begin booting id accepted s
  have hnodup := (scheduled_of_conclude hended).1.tickets
  have hconcludes := concludes (c := c) hsteady hcurrent
  rw [hended] at hconcludes
  cases hconcludes with
  | aborted hf hfails => cases hok
  | @committed f hf hend =>
    cases hok
    have htraced := hbegin.underway hsteady hf
    obtain ⟨-, -, -, hhistory⟩ := (hsteady.underway hf).commit_eq hend
    have hg : Genealogy accepted.length f.commit.2.transaction.history := by
      rw [hhistory]
      exact htraced.genealogy.concat trivial
    have hgrows : (begin booting id accepted s).transaction.history <+:
        f.commit.2.transaction.history := by
      rw [hhistory]
      exact (hsteady.prefix_of_underway hf).trans (List.prefix_append _ _)
    refine ⟨htraced.length_results, ?_, ?_, ?_, ?_⟩
    · intro i op entry hi
      let step : Step S := ⟨i, i, op, entry.handler⟩
      have hstep : (begin booting id accepted s).transaction.agenda.model[i]? = some step := by
        rw [(agenda_begin booting id accepted s).1]
        show (accepted.mapIdx _)[i]? = _
        rw [List.getElem?_mapIdx, hi]
        rfl
      have hq := hbegin.waiting .model step (List.mem_of_getElem? hstep)
      exact ⟨step, hstep, rfl, rfl, (hbegin.genealogy.descends hq).2.mono hgrows⟩
    · intro i value hi
      obtain ⟨hlt, -⟩ := List.getElem?_eq_some_iff.1 hi
      rw [htraced.length_results] at hlt
      have hlast := htraced.results_eq i hlt
      rw [hi] at hlast
      cases hlast
      have hsame : lastSet f.commit.2.transaction.history i = lastSet f.transaction.history i := by
        rw [hhistory]
        exact lastSet_concat_of_none rfl
      rw [← hsame]
      exact hg.isLastSet hnodup i
    · intro ticket origin value hset
      obtain ⟨hq, hstarted⟩ := hg.set hset
      obtain ⟨hlt, hd⟩ := hg.descends hq
      refine ⟨hstarted, origin, ⟨htraced.length_results.symm ▸ hlt, hd⟩, ?_⟩
      rintro i ⟨-, hi⟩
      exact (hg.unique hnodup hi hq).symm
    · intro g g' step agenda r hg' hpop hexecute i hi
      have hgtraced := hbegin.underway hsteady hg'
      obtain ⟨-, hq, hothers⟩ := hgtraced.execute (hsteady.underway hg') hpop hexecute
      refine hothers fun hown => hi ?_
      rw [hown]
      exact (hgtraced.genealogy.descends hq).2

/-- The results belong to the operations that produced them. Whatever steps the handlers queue, for
    whatever stage, at whatever end and with whatever operation: a submission that commits answers
    with one result for each operation, in their order. A result is the value set last by the steps
    that descend from the operation, or undefined where none of them has set any, and no step that
    descends from another operation changes it. -/
theorem results_by_descent {response : Response}
    (h : c.perform sub s = .ok (.ok response, s')) :
    ∃ results, response.result = sub.result results ∧
      results.length = sub.operations.length ∧
      (sub.operations = [] ∨ ∃ accepted f₀ ended, Begins c sub s accepted f₀ ∧
        accepted.map Prod.fst = sub.operations ∧ c.conclude f₀ = some ended ∧
        ended.outcome = .ok results ∧
        Attributed c accepted f₀ ended.final.transaction.history results) := by
  obtain ⟨r, s₁, hsubmit, hanswer, -⟩ := perform_eq_ok.1 h
  cases r with
  | error failure => cases hanswer
  | ok p =>
    obtain ⟨results, version⟩ := p
    cases hanswer
    refine ⟨results, rfl, ?_⟩
    rcases submit_cases hsubmit with ⟨hempty, hr, -⟩ | ⟨cause, -, hr, -⟩ | ⟨⟨ran⟩⟩
    · cases hr
      rw [hempty]
      exact ⟨rfl, .inl rfl⟩
    · cases hr
    · obtain ⟨accepted, lock, locked, ended, hacc, hlock, hended, hresult, -⟩ := ran
      have hoperations := (acceptAll_eq_ok.1 hacc).1
      have hok : ended.outcome = .ok results := by
        cases houtcome : ended.outcome with
        | error failure =>
          rw [houtcome] at hresult
          cases hresult
        | ok results' =>
          rw [houtcome] at hresult
          cases hresult
          rfl
      have hattributed := attributed_of_conclude hended hok
      refine ⟨?_, .inr ⟨accepted, _, ended, ⟨hacc, lock, locked, hlock, rfl⟩, hoperations, hended,
        hok, hattributed⟩⟩
      rw [hattributed.length_eq, ← hoperations, List.length_map]

/-- The controller of a handler that sets a result and queues a step ahead of all others of RUNTIME,
    with another operation. That step sets the name of its operation as the result. -/
def delegating : Controller { Signature.bare with Handler := Bool } where
  registry :=
    { globals :=
        ((∅ : SortedMap String _).insert "call" ⟨{ name := "call" }, true⟩).insert "rest"
          ⟨{ name := "rest" }, true⟩ }
  handle isFirst op :=
    if isFirst then
      if op.name = "rest" then .pure ()
      else
        (Program.result (.string "called")).bind fun _ =>
          Program.addStep { stage := .runtime, handler := false, queueEnd := .front,
                            operation? := some { op with name := op.name ++ "ed by another" } }
    else Program.result (.string op.name)
  interlude := fun code => code.elim
  stepLimit := 5

/-- Three operations, of which the second one sets nothing. Each result is that of its own steps,
    though those put first run in the reverse order. -/
theorem results_by_descent_delegating :
    ∃ response s', delegating.perform (.executeAll [{ name := "call", address := .root },
        { name := "rest", address := .root }, { name := "call", address := .root }])
        { environment := () } = .ok (.ok response, s') ∧
      response.result =
        .list [.string "called by another", .undefined, .string "called by another"] ∧
      ∃ accepted f₀ ended results,
        response.result = .list results ∧ delegating.conclude f₀ = some ended ∧
          Attributed delegating accepted f₀ ended.final.transaction.history results := by
  let sub : Submission := .executeAll [{ name := "call", address := .root },
    { name := "rest", address := .root }, { name := "call", address := .root }]
  let s : ControllerState { Signature.bare with Handler := Bool } := { environment := () }
  have hrun : delegating.answers sub s (fun outcome _ => match outcome with
      | .ok response => decide (response.result =
          .list [.string "called by another", .undefined, .string "called by another"])
      | .error _ => false) = true := by
    decide +kernel
  obtain ⟨outcome, s', hperform, hresponse⟩ := exists_of_answers hrun
  cases outcome with
  | error failure => cases hresponse
  | ok response =>
    obtain ⟨results, hresult, -, hempty | ⟨accepted, f₀, ended, -, -, hended, -, hattributed⟩⟩ :=
      results_by_descent hperform
    · cases hempty
    · exact ⟨response, s', hperform, of_decide_eq_true hresponse, accepted, f₀, ended, results,
        hresult, hended, hattributed⟩

end Controller

end ManagedModel
