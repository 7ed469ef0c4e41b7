import ManagedModel.Proofs.Execution
import ManagedModel.Controller

/-! # Isolation of transactions in flight

    Whatever the handlers of a transaction do through their calls, the state
    that the controller shares with other transactions stays as it was until
    the transaction commits:

    * The committed model, the locks, boot mode and the supply of ids are out of
      reach of every call.
    * A request for a reload is on record exactly while the transaction's own
      tracker holds it, so withdrawing it leaves no trace.

    `abort_isolated` concludes that an aborted transaction leaves all of it
    behind unchanged, whatever its steps and its rollback handlers did. -/

namespace ManagedModel

/-! ### Requests for a reload -/

namespace ReloadState

theorem request_request (s : ReloadState) (id : Nat) :
    (s.request id).request id = s.request id := by
  have h : SortedSet.add (SortedSet.add s.requesters id) id = SortedSet.add s.requesters id := by
    apply SortedMap.ext_get?
    intro k
    simp only [SortedSet.add, SortedMap.get?_insert]
    split <;> rfl
  unfold request
  rw [h]

theorem erase_add {ids : SortedSet Nat} {id : Nat} (h : ids.get? id = none) :
    (SortedSet.add ids id).erase id = ids := by
  apply SortedMap.ext_get?
  intro k
  simp only [SortedSet.add, SortedMap.get?_erase, SortedMap.get?_insert]
  by_cases hk : k = id
  · subst hk
    simp [h]
  · simp [hk]

/-- Withdrawing a request that was not there before undoes it. -/
theorem withdraw_request {s : ReloadState} {id : Nat} (h : s.requesters.get? id = none) :
    ((s.request id).withdraw id).2 = s := by
  unfold request withdraw
  rw [erase_add h]

theorem contains_request (s : ReloadState) (id : Nat) :
    (s.request id).requesters.contains id = true := by
  simp [request, SortedSet.add, SortedMap.contains]

/-- Committing a request that was not there before makes it last and takes it off the record. -/
theorem commit_request {s : ReloadState} {id : Nat} (h : s.requesters.get? id = none) :
    (s.request id).commit id = { committed := true, requesters := s.requesters } := by
  unfold commit
  rw [if_pos (s.contains_request id)]
  show (⟨true, (SortedSet.add s.requesters id).erase id⟩ : ReloadState) = _
  rw [erase_add h]

end ReloadState

namespace InFlight

variable {S : Signature} {c : Controller S}

/-! ### The invariant -/

/-- A transaction with id `id` that began in state `s` has left the shared state alone, but for
    the request for a reload that its tracker holds. -/
structure Isolated (s : ControllerState S) (id : Nat) (f : InFlight S) : Prop where
  store_eq : f.state.store = s.store
  locks_eq : f.state.locks = s.locks
  booting_eq : f.state.booting = s.booting
  nextId_eq : f.state.nextId = s.nextId
  tracker_eq : f.transaction.reload.id = id
  reload_eq : f.state.reload = if f.transaction.reload.raised then s.reload.request id else s.reload

variable {s : ControllerState S} {id : Nat}

/-- Changes of the transaction that leave its tracker alone are of no concern. -/
theorem Isolated.of_reload_eq {f f' : InFlight S} (h : Isolated s id f)
    (hr : f'.transaction.reload = f.transaction.reload) (hs : f'.state = f.state) :
    Isolated s id f' := by
  refine ⟨?_, ?_, ?_, ?_, ?_, ?_⟩
  · rw [hs, h.store_eq]
  · rw [hs, h.locks_eq]
  · rw [hs, h.booting_eq]
  · rw [hs, h.nextId_eq]
  · rw [hr, h.tracker_eq]
  · rw [hs, hr, h.reload_eq]

theorem Isolated.askReload {f : InFlight S} (h : Isolated s id f) : Isolated s id f.askReload := by
  refine ⟨h.store_eq, h.locks_eq, h.booting_eq, h.nextId_eq, h.tracker_eq, ?_⟩
  show f.state.reload.request f.transaction.reload.id = s.reload.request id
  rw [h.reload_eq, h.tracker_eq]
  split
  · exact s.reload.request_request id
  · rfl

/-- The id of a transaction that begins is on record nowhere, so its request goes without trace. -/
theorem Isolated.withdrawReload (hs : s.reload.requesters.get? id = none) {f : InFlight S}
    (h : Isolated s id f) : Isolated s id f.withdrawReload := by
  have hr := h.reload_eq
  unfold InFlight.withdrawReload ReloadRequest.revert
  by_cases hraised : f.transaction.reload.raised
  · rw [if_pos hraised] at hr ⊢
    -- the request was made in this transaction, as `hs` rules out an older one
    refine ⟨h.store_eq, h.locks_eq, h.booting_eq, h.nextId_eq, h.tracker_eq, ?_⟩
    show (f.state.reload.withdraw f.transaction.reload.id).2 = s.reload
    rw [hr, h.tracker_eq, ReloadState.withdraw_request hs]
  · rw [if_neg hraised]
    exact ⟨h.store_eq, h.locks_eq, h.booting_eq, h.nextId_eq, h.tracker_eq, hr⟩

theorem isolated_keptByCalls (hs : s.reload.requesters.get? id = none) :
    KeptByCalls (Isolated s id) where
  queue request h := h.of_reload_eq (Transaction.sameCourse_queue _ request).reload_eq rfl
  onRollback handler h := h.of_reload_eq (Transaction.sameCourse_onRollback _ handler).reload_eq rfl
  markRollbackOnly h := h.of_reload_eq rfl rfl
  askReload h := h.askReload
  withdrawReload h := h.withdrawReload hs
  attach _ h := h.of_reload_eq rfl rfl
  write _ _ h := h.of_reload_eq rfl rfl
  setResult value h := h.of_reload_eq (Transaction.sameCourse_setResult _ value).reload_eq rfl
  environment _ h :=
    ⟨h.store_eq, h.locks_eq, h.booting_eq, h.nextId_eq, h.tracker_eq, h.reload_eq⟩

/-! ### Steps and stages -/

theorem isolated_execute (hs : s.reload.requesters.get? id = none)
    (hc : ∀ h op, (c.handle h op).Uninterrupted) (step : Step S) {f : InFlight S}
    (h : Isolated s id f) : Isolated s id (execute c step f).2 := by
  have hbegun : Isolated s id (f.onTransaction fun t =>
      { t with executing := some step }.record (.started step.ticket t.stage)) :=
    h.of_reload_eq rfl rfl
  -- the steps around the handler's program do no more than bookkeeping
  have hrun := (isolated_keptByCalls hs).run (c := c) (hc step.handler step.operation) hbegun
  exact hrun.of_reload_eq rfl rfl

theorem isolated_run (hs : s.reload.requesters.get? id = none)
    (hc : ∀ h op, (c.handle h op).Uninterrupted) {f f' : InFlight S} {r : Except Fault Unit}
    (hr : f.run c = some (r, f')) (h : Isolated s id f) : Isolated s id f' := by
  unfold InFlight.run at hr
  split at hr
  · cases hr
    exact h
  · refine runStages_keeps (I := Isolated s id) ?_ ?_ hr h
    · intro stage f f' hf he
      rw [enter_eq_ok he]
      exact hf.of_reload_eq rfl rfl
    · intro f step agenda hf _
      exact isolated_execute hs hc step (hf.of_reload_eq rfl rfl)

/-! ### Rollback -/

/-- A property of transactions in flight that every call of a rollback handler keeps, and the note
    that one ran. -/
structure KeptByRollback (I : InFlight S → Prop) : Prop where
  withdrawReload : ∀ {f : InFlight S}, I f → I f.withdrawReload
  environment : ∀ {f : InFlight S} (change : S.Environment → S.Environment), I f →
    I (f.changeEnvironment change)
  note : ∀ {f : InFlight S} (op : Operation) (cause : Fault) (outcome : Except Fault Unit), I f →
    I (f.onTransaction (·.record (.compensated op cause outcome)))

namespace KeptByRollback

variable {I : InFlight S → Prop}

theorem run (hI : KeptByRollback I) {α : Type} (p : RollbackProgram S α) (cause : Fault)
    {f : InFlight S} (h : I f) : I (p.run cause f).2 := by
  induction p generalizing f with
  | pure a => exact h
  | fail fault => exact h
  | observe next ih => exact ih _ h
  | withdrawReload next ih => exact ih (hI.withdrawReload h)
  | environment change next ih => exact ih _ (hI.environment change h)

theorem runAll (hI : KeptByRollback I) (cause : Fault)
    (handlers : List (Operation × (Operation → RollbackProgram S Unit))) {f : InFlight S}
    (h : I f) : I (RollbackStack.runAll (compensate cause) handlers f).2 := by
  induction handlers generalizing f with
  | nil => exact h
  | cons entry rest ih =>
    obtain ⟨op, handler⟩ := entry
    have hone : I (compensate cause op handler f).2 :=
      hI.note op cause _ (hI.run (handler op) cause h)
    unfold RollbackStack.runAll
    split
    · rename_i f₁ he
      rw [he] at hone
      exact ih hone
    · rename_i fault f₁ he
      rw [he] at hone
      exact ih hone

/-- What every rollback handler keeps holds when all have run. -/
theorem trigger (hI : KeptByRollback I) (cause : Fault) {f : InFlight S} (h : I f) :
    I (f.transaction.rollback.trigger (compensate cause) f).2.2 := by
  unfold RollbackStack.trigger
  split
  · exact hI.runAll cause _ h
  · exact h

end KeptByRollback

theorem isolated_keptByRollback (hs : s.reload.requesters.get? id = none) :
    KeptByRollback (Isolated s id) where
  withdrawReload h := h.withdrawReload hs
  environment change h := (isolated_keptByCalls hs).environment change h
  note _ _ _ h := h.of_reload_eq rfl rfl

theorem settle_frame (status : Status) (t : Transaction S) :
    (settle status t).reload = t.reload ∧ (settle status t).rollback = t.rollback := by
  unfold settle
  split
  · rename_i t' h
    rw [Transaction.moveTo_eq_ok h]
    exact ⟨rfl, rfl⟩
  · exact ⟨rfl, rfl⟩

/-- The transaction when its abort begins: no further steps are taken. -/
def unwinding (t : Transaction S) : Transaction S :=
  let t := if t.status.isExecuting then settle .rollingBack t else t
  { t with agenda := t.agenda.close }

theorem unwinding_frame (t : Transaction S) :
    (unwinding t).reload = t.reload ∧ (unwinding t).rollback = t.rollback := by
  show (if t.status.isExecuting then settle .rollingBack t else t).reload = t.reload ∧
    (if t.status.isExecuting then settle .rollingBack t else t).rollback = t.rollback
  split
  · exact settle_frame .rollingBack t
  · exact ⟨rfl, rfl⟩

/-- An abort in its three parts: the queues are closed, the rollback handlers run, and the request
    for a reload is withdrawn. -/
theorem abort_eq (cause : Fault) (f : InFlight S) :
    f.abort cause =
      match (f.onTransaction unwinding).transaction.rollback.trigger (compensate cause)
        (f.onTransaction unwinding) with
      | (faults, rollback, g) =>
        ({ cause, rollbackFaults := faults },
          (g.onTransaction fun t => { t with rollback }).withdrawReload.onTransaction
            (settle .aborted)) :=
  rfl

/-- An aborted transaction leaves the shared state as it was when the transaction began. -/
theorem abort_isolated (hs : s.reload.requesters.get? id = none) (cause : Fault) {f : InFlight S}
    (h : Isolated s id f) :
    Isolated s id (f.abort cause).2 ∧ (f.abort cause).2.transaction.reload.raised = false := by
  have hclosed : Isolated s id (f.onTransaction unwinding) :=
    h.of_reload_eq (unwinding_frame f.transaction).1 rfl
  have hwithdrawn : ∀ {g : InFlight S}, Isolated s id g →
      Isolated s id (g.withdrawReload.onTransaction (settle .aborted)) ∧
        (g.withdrawReload.onTransaction (settle .aborted)).transaction.reload.raised = false := by
    intro g hg
    refine ⟨(hg.withdrawReload hs).of_reload_eq (settle_frame _ _).1 rfl, ?_⟩
    show (settle .aborted g.withdrawReload.transaction).reload.raised = false
    rw [(settle_frame _ _).1]
    unfold InFlight.withdrawReload ReloadRequest.revert
    dsimp only
    split
    · rfl
    · rename_i hraised
      exact Bool.eq_false_iff.2 hraised
  exact hwithdrawn (((isolated_keptByRollback hs).trigger cause hclosed).of_reload_eq rfl rfl)

/-! ### The end of a transaction -/

theorem status_keptByCalls (status : Status) :
    KeptByCalls (S := S) fun f => f.transaction.status = status where
  queue request h := (Transaction.sameCourse_queue _ request).status_eq.trans h
  onRollback handler h := (Transaction.sameCourse_onRollback _ handler).status_eq.trans h
  markRollbackOnly h := h
  askReload h := h
  withdrawReload h := h
  attach _ h := h
  write _ _ h := h
  setResult value h := (Transaction.sameCourse_setResult _ value).status_eq.trans h
  environment _ h := h

theorem drain_status (hc : ∀ h op, (c.handle h op).Uninterrupted) {limit : Nat}
    {f f' : InFlight S} {r : Except Fault Unit} (h : drain c limit f = some (r, f')) :
    f'.transaction.status = f.transaction.status := by
  refine drain_keeps (I := fun g => g.transaction.status = f.transaction.status) ?_ h rfl
  intro g step agenda hg _
  exact (status_keptByCalls f.transaction.status).run (hc step.handler step.operation) hg

/-- A transaction that went through all its stages may commit. -/
theorem status_of_run_ok (hc : ∀ h op, (c.handle h op).Uninterrupted) {f f' : InFlight S}
    (h : f.run c = some (.ok (), f')) : f'.transaction.status = .executing .verify := by
  -- on the stages, for any list of them: the last one that was entered is the status
  have hlast : ∀ {stages : List Stage} {f f' : InFlight S},
      runStages c stages f = some (.ok (), f') →
        f'.transaction.status = (stages.getLast?.map Status.executing).getD f.transaction.status := by
    intro stages
    induction stages with
    | nil =>
      intro f f' h
      cases h
      rfl
    | cons stage stages ih =>
      intro f f' h
      unfold runStages at h
      split at h
      · cases h
      · rename_i f₁ he
        have hentered : f₁.transaction.status = .executing stage := by
          rw [enter_eq_ok he]
          rfl
        split at h
        · rename_i f₂ hd
          rw [ih h, drain_status hc hd, hentered, List.getLast?_cons]
          cases stages.getLast? <;> rfl
        · rename_i hd
          exact absurd h (hd f')
  unfold InFlight.run at h
  split at h
  · cases h
  · exact hlast h

end InFlight

namespace Controller

variable {S : Signature} {c : Controller S} {s : ControllerState S} {id : Nat}

/-- What the end of a transaction leaves alone: everything where it failed, and all but the
    model and the committed request for a reload where it committed. -/
structure LeavesShared (s : ControllerState S) (ended : Ended S) : Prop where
  locks_eq : ended.final.state.locks = s.locks
  booting_eq : ended.final.state.booting = s.booting
  nextId_eq : ended.final.state.nextId = s.nextId
  requesters_eq : ended.final.state.reload.requesters = s.reload.requesters
  store_eq : ∀ {failure : Failure}, ended.outcome = .error failure →
    ended.final.state.store = s.store
  reload_eq : ∀ {failure : Failure}, ended.outcome = .error failure →
    ended.final.state.reload = s.reload

theorem queueFirstSteps_reload (accepted : List (Operation × RegisteredOperation S.Handler))
    (origin : Nat) (t : Transaction S) :
    (queueFirstSteps origin accepted t).reload = t.reload := by
  induction accepted generalizing origin t with
  | nil => rfl
  | cons a rest ih =>
    unfold queueFirstSteps
    rw [ih]
    exact (t.sameCourse_enqueue _ _ _ _).reload_eq

/-- A transaction that begins has done nothing yet. -/
theorem begin_isolated (booting : Bool)
    (accepted : List (Operation × RegisteredOperation S.Handler)) :
    (begin booting id accepted s).Isolated s id := by
  have htracker : (begin booting id accepted s).transaction.reload = { id } :=
    queueFirstSteps_reload accepted 0 _
  refine ⟨rfl, rfl, rfl, rfl, ?_, ?_⟩
  · rw [htracker]
  · rw [htracker]
    rfl

open InFlight in
theorem leavesShared_conclude (hs : s.reload.requesters.get? id = none)
    (hc : ∀ h op, (c.handle h op).Uninterrupted) {f : InFlight S} (hf : Isolated s id f)
    {ended : Ended S} (h : c.conclude f = some ended) : LeavesShared s ended := by
  unfold conclude at h
  split at h
  · cases h
  · rename_i cause f₁ hrun
    -- a stage failed: the abort withdraws what was raised
    cases h
    obtain ⟨hi, hraised⟩ := abort_isolated hs cause (isolated_run hs hc hrun hf)
    have hreload := hi.reload_eq
    rw [hraised] at hreload
    exact ⟨hi.locks_eq, hi.booting_eq, hi.nextId_eq, congrArg _ hreload, fun _ => hi.store_eq,
      fun _ => hreload⟩
  · rename_i f₁ hrun
    -- all stages ended: the commit is allowed, and takes the request off the record
    have hi := isolated_run hs hc hrun hf
    have hm : f₁.transaction.moveTo .committed =
        .ok ({ f₁.transaction with status := .committed }.record (.entered .committed)) := by
      apply Transaction.moveTo_of_allows
      rw [status_of_run_ok hc hrun]
      rfl
    unfold commit at h
    rw [hm] at h
    cases h
    refine ⟨hi.locks_eq, hi.booting_eq, hi.nextId_eq, ?_, (fun h => nomatch h), (fun h => nomatch h)⟩
    have hr := hi.reload_eq
    show (f₁.transaction.reload.commit f₁.state.reload).2.requesters = s.reload.requesters
    unfold ReloadRequest.commit
    by_cases hraised : f₁.transaction.reload.raised
    · rw [if_pos hraised] at hr ⊢
      rw [hi.tracker_eq, hr]
      show ((s.reload.request id).commit id).requesters = s.reload.requesters
      rw [ReloadState.commit_request hs]
    · rw [if_neg hraised] at hr ⊢
      rw [hr]

end Controller

end ManagedModel
