import ManagedModel.Proofs.Grants

/-! # Confinement of writes

    What a transaction may change of the model, and when. The handlers of its
    steps are arbitrary and act alone.

    * The working copy is what the changes granted to the steps make of a fresh
      copy of the committed tree, made one after the other (`Confined`).
    * The copy stays as it is from the end of MODEL on
      (`Granted.exists_endOfModel`), so the tree that is committed is the one of
      that moment. What is granted later is no change, since changes are granted
      in MODEL only (`Granted.stage_eq_model`).
    * Changes are granted within the scope only, and a copy for which none was
      granted is not published at all. -/

namespace ManagedModel

/-! ### Calls that go through -/

namespace ModelCall

/-- Makes one call after the other; all of them have to go through. -/
def attemptAll (calls : List ModelCall) (w : WorkingCopy) : Except Fault WorkingCopy :=
  calls.foldlM (fun w call => (call.attempt w).map Prod.snd) w

section

variable {calls : List ModelCall} {w w' : WorkingCopy} {base : Tree} {a : Address}

theorem attemptAll_append (calls calls' : List ModelCall) (w : WorkingCopy) :
    attemptAll (calls ++ calls') w = attemptAll calls w >>= attemptAll calls' :=
  List.foldlM_append

/-- What every call that goes through keeps, all of them keep. -/
theorem attemptAll_keeps {I : WorkingCopy → Prop}
    (hI : ∀ {w : WorkingCopy} {call : ModelCall} {attributes? : Option Attributes}, call ∈ calls →
      w.inScope call.address = true → I w →
        I (w.changed call.address (w.tree.store call.address attributes?)))
    (h : attemptAll calls w = .ok w') (hw : I w) : I w' := by
  induction calls generalizing w with
  | nil =>
    cases h
    exact hw
  | cons call calls ih =>
    obtain ⟨w₁, hfirst, hrest⟩ := bind_eq_ok.1 (show (_ >>= attemptAll calls) = _ from h)
    obtain ⟨⟨attributes, w₂⟩, hattempt, rfl⟩ := map_eq_ok.1 hfirst
    obtain ⟨hscope, attributes?, rfl⟩ := attempt_eq_ok hattempt
    exact ih (fun hmem => hI (List.mem_cons_of_mem _ hmem)) hrest (hI List.mem_cons_self hscope hw)

theorem extends_of_attemptAll (h : attemptAll calls w = .ok w') (hw : w.Extends base) :
    w'.Extends base :=
  attemptAll_keeps (fun _ _ hw => hw.changed fun _ hb => Tree.get?_store_of_ne _ hb _) h hw

/-- Calls that go through put their addresses on the record, which lie within the scope. -/
theorem touched_of_attemptAll (h : attemptAll calls w = .ok w') (a : Address) :
    (w'.touched.get? a).isSome ↔
      (w.touched.get? a).isSome ∨ w.inScope a = true ∧ ∃ call ∈ calls, call.address = a := by
  induction calls generalizing w with
  | nil =>
    cases h
    simp
  | cons call calls ih =>
    obtain ⟨w₁, hfirst, hrest⟩ := bind_eq_ok.1 (show (_ >>= attemptAll calls) = _ from h)
    obtain ⟨⟨attributes, w₂⟩, hattempt, rfl⟩ := map_eq_ok.1 hfirst
    obtain ⟨hscope, attributes?, rfl⟩ := attempt_eq_ok hattempt
    have hsame : ∀ t, (w.changed call.address t).inScope a = w.inScope a := fun t => rfl
    rw [ih hrest, hsame]
    show ((SortedSet.add w.touched call.address).get? a).isSome ∨ _ ↔ _
    by_cases ha : a = call.address
    · rw [ha, show (SortedSet.add w.touched call.address).get? call.address = some () from
        SortedMap.get?_insert_self _ _ _]
      exact iff_of_true (.inl rfl) (.inr ⟨hscope, call, List.mem_cons_self, rfl⟩)
    · rw [show (SortedSet.add w.touched call.address).get? a = w.touched.get? a from
        SortedMap.get?_insert_of_ne _ ha _]
      simp only [List.mem_cons, exists_eq_or_imp, Ne.symm ha, false_or]

/-- Calls that go through are for addresses within the scope. -/
theorem inScope_of_attemptAll (h : attemptAll calls w = .ok w') :
    ∀ call ∈ calls, w.inScope call.address = true := by
  induction calls generalizing w with
  | nil => exact fun call hcall => nomatch hcall
  | cons call calls ih =>
    obtain ⟨w₁, hfirst, hrest⟩ := bind_eq_ok.1 (show (_ >>= attemptAll calls) = _ from h)
    obtain ⟨⟨attributes, w₂⟩, hattempt, rfl⟩ := map_eq_ok.1 hfirst
    obtain ⟨hscope, attributes?, rfl⟩ := attempt_eq_ok hattempt
    have hlater := ih hrest
    exact List.forall_mem_cons.2 ⟨hscope, hlater⟩

theorem isDirty_of_attemptAll {tree : Tree} {scope : List Address}
    (h : attemptAll calls (.ofTree tree scope) = .ok w') : w'.isDirty = !calls.isEmpty := by
  cases calls with
  | nil =>
    cases h
    rfl
  | cons call calls =>
    have hscope := inScope_of_attemptAll h call List.mem_cons_self
    have htouched := (touched_of_attemptAll h call.address).2
      (.inr ⟨hscope, call, List.mem_cons_self, rfl⟩)
    show (!w'.touched.entries.isEmpty) = true
    cases hentries : w'.touched.entries with
    | cons entry entries => rfl
    | nil =>
      have hnone : w'.touched.get? call.address = none := by
        show Entries.get? call.address w'.touched.entries = none
        rw [hentries]
        rfl
      rw [hnone] at htouched
      cases htouched

end

end ModelCall

/-! ### Steps -/

variable {S : Signature} {c : Controller S}

/-- The change of the model that was granted, if it was one. -/
def Grant.call? : Grant S → Option ModelCall
  | rollback _ => none
  | write call => some call

theorem Grant.call?_of_rollback (handler : Operation → RollbackProgram S Unit)
    (r : Except Fault Unit) : ((Grant.rollback handler).of r).filterMap Grant.call? = [] := by
  cases r <;> rfl

/-- The changes of the model that were granted, in order. -/
def writes (log : List (StepGrant S)) : List ModelCall := log.filterMap (·.grant.call?)

namespace InFlight

section

variable {f₀ f f' : InFlight S} {log : List (StepGrant S)} {step : Step S}
  {agenda : Agenda (Step S)} {r : Except Fault Unit} {s : ControllerState S}
  {scope : List Address}

/-- While a step executes, its working copy is what the changes granted to it make of the copy that
    was there; outside of MODEL none is granted. -/
structure Writing (step : Step S) (t u : Transaction S) (grants : List (Grant S)) : Prop
    extends Running step t u where
  working_eq : ModelCall.attemptAll (grants.filterMap Grant.call?) t.working = .ok u.working
  inModel : t.stage = .model ∨ grants.filterMap Grant.call? = []

theorem writing_keptByGrants {t : Transaction S} (step : Step S)
    (ht : t.rollback.phase = .collecting) :
    KeptByGrants fun (f : InFlight S) grants => Writing step t f.transaction grants where
  queue {f _} request h := by
    refine ⟨(running_keptByCalls step ht).queue request h.toRunning, ?_, h.inModel⟩
    exact h.working_eq.trans (congrArg _ (Transaction.sameCourse_queue _ request).working_eq.symm)
  onRollback {f _} handler h := by
    refine ⟨(running_keptByCalls step ht).onRollback handler h.toRunning, ?_, ?_⟩
    · rw [List.filterMap_append, Grant.call?_of_rollback, List.append_nil]
      exact h.working_eq.trans
        (congrArg _ (Transaction.sameCourse_onRollback _ handler).working_eq.symm)
    · rw [List.filterMap_append, Grant.call?_of_rollback, List.append_nil]
      exact h.inModel
  markRollbackOnly h :=
    ⟨(running_keptByCalls step ht).markRollbackOnly h.toRunning, h.working_eq, h.inModel⟩
  askReload h := ⟨(running_keptByCalls step ht).askReload h.toRunning, h.working_eq, h.inModel⟩
  withdrawReload h :=
    ⟨(running_keptByCalls step ht).withdrawReload h.toRunning, h.working_eq, h.inModel⟩
  attach change h :=
    ⟨(running_keptByCalls step ht).attach change h.toRunning, h.working_eq, h.inModel⟩
  write {f log call attributes w} hstage hattempt h := by
    refine ⟨(running_keptByCalls step ht).write w hstage h.toRunning, ?_,
      .inl (h.stage_eq.symm.trans hstage)⟩
    rw [List.filterMap_append, ModelCall.attemptAll_append, h.working_eq]
    show ((call.attempt f.transaction.working).map Prod.snd >>= pure) = .ok w
    rw [hattempt]
    rfl
  setResult {f _} value h := by
    refine ⟨(running_keptByCalls step ht).setResult value h.toRunning, ?_, h.inModel⟩
    exact h.working_eq.trans (congrArg _ (Transaction.sameCourse_setResult _ value).working_eq.symm)
  environment _ h := h

theorem writes_append (log log' : List (StepGrant S)) :
    writes (log ++ log') = writes log ++ writes log' :=
  List.filterMap_append

/-- A step makes the changes of the model that are granted to it, which are none outside of MODEL. -/
theorem Steady.writes_of_execute (hf : Steady f.transaction)
    (hexecute : execute c step (f.onTransaction fun t => { t with agenda }) = (r, f')) :
    ModelCall.attemptAll (writes (f.grantsOf c step agenda)) f.transaction.working =
        .ok f'.transaction.working ∧
      (f.transaction.stage = .model ∨ writes (f.grantsOf c step agenda) = []) := by
  have hcollecting : (f.taken step agenda).transaction.rollback.phase = .collecting := hf.collecting
  obtain ⟨outcome, g, grants, -, -, rfl, hwriting, hgrants⟩ :=
    hf.granted_of_execute (c := c) (writing_keptByGrants step hcollecting)
      ⟨hf.running_taken, rfl, .inr rfl⟩ hexecute
  have hwrites : writes (f.grantsOf c step agenda) = grants.filterMap Grant.call? := by
    unfold writes
    rw [hgrants, List.filterMap_map]
    rfl
  rw [hwrites]
  exact ⟨hwriting.working_eq, hwriting.inModel⟩

/-- Outside of MODEL, a step leaves the working copy alone. -/
theorem Steady.working_of_execute (hf : Steady f.transaction)
    (hexecute : execute c step (f.onTransaction fun t => { t with agenda }) = (r, f'))
    (hstage : f.transaction.stage ≠ .model) :
    f'.transaction.working = f.transaction.working := by
  obtain ⟨hworking, hmodel⟩ := hf.writes_of_execute hexecute
  rw [hmodel.resolve_left hstage] at hworking
  exact (Except.ok.inj hworking).symm

/-- The working copy is what the changes granted so far make of a fresh copy of the tree that was
    committed when the transaction began. -/
def Confined (s : ControllerState S) (scope : List Address) (log : List (StepGrant S))
    (f : InFlight S) : Prop :=
  ModelCall.attemptAll (writes log) (.ofTree s.store.tree scope) = .ok f.transaction.working

theorem Confined.execute (h : Confined s scope log f) (hf : Steady f.transaction)
    (hexecute : execute c step (f.onTransaction fun t => { t with agenda }) = (r, f')) :
    Confined s scope (log ++ f.grantsOf c step agenda) f' := by
  unfold Confined at h ⊢
  rw [writes_append, ModelCall.attemptAll_append, h]
  exact (hf.writes_of_execute hexecute).1

theorem Confined.granted (h₀ : Confined s scope [] f₀) (hsteady : Steady f₀.transaction)
    (h : Granted c f₀ log f) : Confined s scope log f := by
  induction h with
  | start => exact h₀
  | enter h hpop hnext ih => exact ih
  | step h hpop hexecute ih => exact ih.execute (hsteady.underway h.underway) hexecute

theorem Confined.tree_publish (h : Confined s scope log f) :
    (s.store.publish f.transaction.working).tree = f.transaction.working.tree :=
  CommittedModel.publish_tree (ModelCall.extends_of_attemptAll h (WorkingCopy.extends_ofTree _ _))

theorem Confined.version_publish (h : Confined s scope log f) :
    (s.store.publish f.transaction.working).version =
      s.store.version + if (writes log).isEmpty then 0 else 1 := by
  unfold CommittedModel.publish
  rw [ModelCall.isDirty_of_attemptAll h]
  cases writes log <;> rfl

/-- Where no change was granted, nothing is published. -/
theorem Confined.publish_of_writes_eq_nil (h : Confined s scope log f) (hnone : writes log = []) :
    s.store.publish f.transaction.working = s.store := by
  unfold CommittedModel.publish
  rw [ModelCall.isDirty_of_attemptAll h, hnone]
  rfl

/-- The addresses at which the working copy differs from the committed tree lie in its scope. -/
theorem Confined.liesIn (h : Confined s scope log f) {a : Address}
    (ha : f.transaction.working.tree.get? a ≠ s.store.tree.get? a) : a.LiesIn scope := by
  have hextends := ModelCall.extends_of_attemptAll h (WorkingCopy.extends_ofTree _ scope)
  have htouched : (f.transaction.working.touched.get? a).isSome :=
    Option.isSome_iff_ne_none.2 fun hnone => ha (hextends a hnone)
  exact (((ModelCall.touched_of_attemptAll h a).1 htouched).resolve_left nofun).1

/-- A change of the model is granted to steps of MODEL only. -/
theorem Granted.stage_eq_model (hsteady : Steady f₀.transaction) (h : Granted c f₀ log f)
    {granted : StepGrant S} (hmem : granted ∈ log) (hcall : granted.grant.call?.isSome) :
    granted.stage = .model := by
  induction h with
  | start => cases hmem
  | enter _ _ _ ih => exact ih hmem
  | step h hpop hexecute ih =>
    rcases List.mem_append.1 hmem with hbefore | hnow
    · exact ih hbefore
    · obtain ⟨-, hmodel | hnone⟩ := (hsteady.underway h.underway).writes_of_execute hexecute
      · obtain ⟨grant, -, rfl⟩ := List.mem_map.1 hnow
        exact hmodel
      · rw [List.filterMap_eq_nil_iff.1 hnone granted hnow] at hcall
        cases hcall

/-- What is granted outside of MODEL adds no change. -/
theorem Granted.writes_eq (hsteady : Steady f₀.transaction) {later : List (StepGrant S)}
    (h : Granted c f₀ (log ++ later) f) (hlater : ∀ granted ∈ later, granted.stage ≠ .model) :
    writes (log ++ later) = writes log := by
  have hnone : writes later = [] := by
    refine List.filterMap_eq_nil_iff.2 fun granted hmem => ?_
    refine Option.not_isSome_iff_eq_none.1 fun hcall => ?_
    have hmodel := h.stage_eq_model hsteady (List.mem_append_right log hmem) hcall
    exact hlater granted hmem hmodel
  rw [writes_append, hnone, List.append_nil]

/-- No step waits for MODEL any more. -/
structure AtEndOfModel (f : InFlight S) : Prop where
  current_eq : f.transaction.agenda.current = some .model
  empty : f.transaction.agenda.pop? = none

/-- After MODEL, the working copy is as it was at the end of MODEL, and all that was granted since
    was granted in other stages. -/
theorem Granted.exists_endOfModel (hsteady : Steady f₀.transaction)
    (hcurrent : f₀.transaction.agenda.current = none) (h : Granted c f₀ log f) {stage : Stage}
    (hstage : f.transaction.agenda.current = some stage) (hne : stage ≠ .model) :
    ∃ log' later g, log = log' ++ later ∧ Granted c f₀ log' g ∧ AtEndOfModel g ∧
      f.transaction.working = g.transaction.working ∧
      ∀ granted ∈ later, granted.stage ≠ .model := by
  induction h generalizing stage with
  | start =>
    rw [hcurrent] at hstage
    cases hstage
  | @enter log f next h hpop hnext ih =>
    obtain rfl : next = stage := Option.some.inj hstage
    -- MODEL ends here, or ended before
    cases hf : f.transaction.agenda.current with
    | none =>
      rw [hf] at hnext
      cases hnext
      exact absurd rfl hne
    | some current =>
      cases current with
      | model => exact ⟨log, [], f, (List.append_nil log).symm, h, ⟨hf, hpop⟩, rfl, nofun⟩
      | runtime => exact ih hf nofun
      | verify => exact ih hf nofun
  | @step log f f' step agenda h hpop hexecute ih =>
    have hf := hsteady.underway h.underway
    obtain ⟨-, hsame, -⟩ := hf.after_step hpop hexecute
    rw [hsame] at hstage
    obtain ⟨log', later, g, rfl, hg, hend, hworking, hlater⟩ := ih hstage hne
    have hoff : f.transaction.stage ≠ .model := by
      rw [hf.stage_eq hstage]
      exact hne
    have hworking' := hf.working_of_execute hexecute hoff
    refine ⟨log', later ++ f.grantsOf c step agenda, g, List.append_assoc .., hg, hend,
      hworking'.trans hworking, ?_⟩
    intro granted hmem
    rcases List.mem_append.1 hmem with hbefore | hnow
    · exact hlater granted hbefore
    · obtain ⟨grant, -, rfl⟩ := List.mem_map.1 hnow
      exact hoff

/-! ### The committed model -/

/-- The committed model is out of reach of every call. -/
theorem store_keptByCalls (store : CommittedModel) :
    KeptByCalls (S := S) fun f => f.state.store = store where
  queue _ h := h
  onRollback _ h := h
  markRollbackOnly h := h
  askReload h := h
  withdrawReload h := h
  attach _ h := h
  write _ _ h := h
  setResult _ h := h
  environment _ h := h

theorem store_keptByRollback (store : CommittedModel) :
    KeptByRollback (S := S) fun f => f.state.store = store where
  withdrawReload h := h
  environment _ h := h
  note _ _ _ h := h

theorem store_execute (hc : ∀ h op, (c.handle h op).Uninterrupted) (step : Step S)
    (f : InFlight S) : (execute c step f).2.state.store = f.state.store :=
  (store_keptByCalls f.state.store).run (c := c) (f := f.begun step)
    (hc step.handler step.operation) rfl

theorem store_underway (hc : ∀ h op, (c.handle h op).Uninterrupted) (h : Underway c f₀ f) :
    f.state.store = f₀.state.store := by
  induction h with
  | refl => exact rfl
  | @tail f f' _ hmove ih =>
    cases hmove with
    | enter hpop hnext => exact ih
    | @step _ step agenda hpop hexecute =>
      have hstep := store_execute hc step (f.onTransaction fun t => { t with agenda })
      rw [hexecute] at hstep
      exact hstep.trans ih

theorem store_abort (cause : Fault) (f : InFlight S) :
    (f.abort cause).2.state.store = f.state.store :=
  (store_keptByRollback f.state.store).trigger cause (f := f.onTransaction unwinding) rfl

theorem Steady.store_commit (h : Steady f.transaction) (hend : AtEnd f) :
    f.commit.2.state.store = f.state.store.publish f.transaction.working := by
  unfold commit
  rw [h.moveTo_committed hend]
  rfl

end

end InFlight

/-! ### Submissions -/

namespace Controller

open InFlight

variable {sub : Submission} {s s' : ControllerState S} {outcome : Outcome}
  {accepted : List (Operation × RegisteredOperation S.Handler)} {f₀ : InFlight S}

theorem working_begin (booting : Bool) (id : Nat)
    (accepted : List (Operation × RegisteredOperation S.Handler)) (s : ControllerState S) :
    (begin booting id accepted s).transaction.working =
      .ofTree s.store.tree (writeScope accepted) := by
  refine (queueFirstSteps_keeps (I := fun t : Transaction S =>
    (t.agenda.closed = false ∧ t.agenda.current = none) ∧
      t.working = .ofTree s.store.tree (writeScope accepted)) ?_ ?_ 0 ⟨⟨rfl, rfl⟩, rfl⟩).2
  · exact fun h => accepts_of_not_begun h.1.1 h.1.2 .model
  · exact fun origin op handler h => ⟨h.1, h.2⟩

theorem Begins.confined (h : Begins c sub s accepted f₀) :
    f₀.state.store = s.store ∧ Confined s (writeScope accepted) [] f₀ := by
  obtain ⟨lock, locked, hlock, rfl⟩ := h.locked
  have hstore : locked.store = s.store := by
    rw [locked_eq hlock]
    rfl
  refine ⟨hstore, ?_⟩
  unfold Confined
  rw [working_begin, hstore]
  rfl

/-- What the end of a transaction makes of the committed model. -/
theorem Ends.store_eq (hc : ∀ h op, (c.handle h op).Uninterrupted)
    (hsteady : Steady f₀.transaction) {log : List (StepGrant S)} {ended : Ended S}
    (h : Ends c f₀ log ended) :
    (∀ {failure : Failure}, ended.outcome = .error failure →
      ended.final.state.store = f₀.state.store) ∧
    ∀ {results : List Value}, ended.outcome = .ok results → ∃ f, Granted c f₀ log f ∧ AtEnd f ∧
      ended.final.state.store = f₀.state.store.publish f.transaction.working := by
  cases h with
  | @committed _ f h hend =>
    refine ⟨(fun h => nomatch h), fun _ => ⟨f, h, hend, ?_⟩⟩
    rw [(hsteady.underway h.underway).store_commit hend, store_underway hc h.underway]
  | @aborted log f f' step agenda cause h hpop hexecute =>
    refine ⟨fun _ => ?_, (fun h => nomatch h)⟩
    have hstep := store_execute hc step (f.onTransaction fun t => { t with agenda })
    rw [hexecute] at hstep
    have hkept : f'.state.store = f.state.store := hstep
    exact (store_abort cause f').trans (hkept.trans (store_underway hc h.underway))

/-- A transaction that fails leaves the committed model as it was; one that commits publishes what
    the changes granted to its steps made of the working copy. -/
theorem Begins.store_cases (hc : ∀ h op, (c.handle h op).Uninterrupted)
    (h : Begins c sub s accepted f₀) {ended : Ended S} (hended : c.conclude f₀ = some ended)
    (hreports : Reports sub ended outcome s') :
    ∃ log, Ends c f₀ log ended ∧
      ((∃ failure, outcome = .error failure) ∧ s'.store = s.store ∨
        ∃ f, Granted c f₀ log f ∧ AtEnd f ∧ Confined s (writeScope accepted) log f ∧
          s'.store = s.store.publish f.transaction.working) := by
  obtain ⟨hsteady, hcurrent⟩ := h.steady
  obtain ⟨hstore, hconfined⟩ := h.confined
  obtain ⟨log, hends⟩ := exists_ends hsteady hcurrent hended
  obtain ⟨hfailed, hcommitted⟩ := hends.store_eq hc hsteady
  rw [hstore, ← hreports.store_eq] at hfailed hcommitted
  refine ⟨log, hends, ?_⟩
  cases hresults : ended.outcome with
  | error failure => exact .inl ⟨⟨failure, hreports.error_iff.2 hresults⟩, hfailed hresults⟩
  | ok results =>
    obtain ⟨f, hf, hend, hpublished⟩ := hcommitted hresults
    exact .inr ⟨f, hf, hend, hconfined.granted hsteady hf, hpublished⟩

/-- What lies in the scope lies below the address of a submitted operation that may write. -/
theorem Begins.writable (h : Begins c sub s accepted f₀) {a : Address}
    (ha : a.LiesIn (writeScope accepted)) :
    ∃ op ∈ sub.operations, ∃ entry, c.registry.operation? op.address op.name = some entry ∧
      entry.schema.isReadOnly = false ∧ a.isUnder op.address = true := by
  obtain ⟨top, htop, hunder⟩ := List.any_eq_true.1 ha
  obtain ⟨x, hx, hwrites, rfl⟩ := mem_writeScope.1 htop
  exact ⟨x.1, mem_of_acceptAll h.accepted_eq x hx, x.2,
    operation?_of_acceptAll h.accepted_eq x hx, hwrites, hunder⟩

/-- What a transaction that commits makes of the model, given what was granted to its steps by the
    end of MODEL. -/
structure Publishes (c : Controller S) (f₀ : InFlight S) (ended : Ended S) (s s' : ControllerState S)
    (log : List (StepGrant S)) (f : InFlight S) : Prop where
  granted : Granted c f₀ log f
  endOfModel : AtEndOfModel f
  /-- The tree that is committed is the working copy of that moment, ... -/
  tree_eq : s'.store.tree = f.transaction.working.tree
  /-- ... the version tells whether a change was granted by then, ... -/
  version_eq : s'.store.version = s.store.version + if (writes log).isEmpty then 0 else 1
  /-- ... and none is granted afterwards. -/
  noneLater : ∃ all, Ends c f₀ all ended ∧ writes all = writes log

/-- Writes are confined to what is locked, and to MODEL. Where a submission commits, what differs in
    the model lies below the address of a submitted operation that is not read-only; the tree that
    is committed is the working copy at the end of MODEL; and the version grows by one if a change
    was granted in MODEL, and stays the same otherwise. A submission of read-only operations leaves
    the committed model as it was, whatever comes of it. -/
theorem writes_confined (hc : ∀ h op, (c.handle h op).Uninterrupted)
    (h : c.perform sub s = .ok (outcome, s')) :
    (∀ {response : Response}, outcome = .ok response →
      (∀ {a : Address}, s'.store.tree.get? a ≠ s.store.tree.get? a →
        ∃ op ∈ sub.operations, ∃ entry, c.registry.operation? op.address op.name = some entry ∧
          entry.schema.isReadOnly = false ∧ a.isUnder op.address = true) ∧
      (sub.operations = [] ∧ s'.store = s.store ∨
        ∃ accepted f₀ ended log f, Begins c sub s accepted f₀ ∧ c.conclude f₀ = some ended ∧
          Publishes c f₀ ended s s' log f)) ∧
    ((∀ op ∈ sub.operations, ∀ entry, c.registry.operation? op.address op.name = some entry →
      entry.schema.isReadOnly = true) → s'.store = s.store) := by
  rcases perform_cases h with ⟨hunbegun, rfl⟩ |
    ⟨accepted, f₀, ended, hbegins, hended, hreports⟩
  · -- nothing began
    have hstore : (sub.after (withNextId s)).store = s.store := sub.store_after _
    refine ⟨fun hok => ⟨fun {a} ha => ?_, .inl ⟨?_, hstore⟩⟩, fun _ => hstore⟩
    · rw [hstore] at ha
      exact absurd rfl ha
    · cases hunbegun with
      | empty hempty => exact hempty
      | refused hrefused => cases hok
  · obtain ⟨all, hends, ⟨⟨failure, rfl⟩, hstore⟩ | ⟨f, hf, hend, hconfined, hpublished⟩⟩ :=
      hbegins.store_cases hc hended hreports
    · exact ⟨nofun, fun _ => hstore⟩
    · rw [hpublished]
      refine ⟨fun _ => ⟨fun ha => ?_, .inr ?_⟩, fun hreadOnly => ?_⟩
      · rw [hconfined.tree_publish] at ha
        exact hbegins.writable (hconfined.liesIn ha)
      · obtain ⟨hsteady, hcurrent⟩ := hbegins.steady
        obtain ⟨log, later, g, rfl, hg, hgend, hworking, hlater⟩ :=
          hf.exists_endOfModel hsteady hcurrent hend.current_eq nofun
        have hsame := hf.writes_eq hsteady hlater
        refine ⟨accepted, f₀, ended, log, g, hbegins, hended, hg, hgend, ?_, ?_, _, hends, hsame⟩
        · rw [hpublished, hconfined.tree_publish, hworking]
        · rw [hpublished, ← hsame]
          exact hconfined.version_publish
      · -- no address lies in the scope, so no call can have gone through
        refine hconfined.publish_of_writes_eq_nil ?_
        refine List.eq_nil_iff_forall_not_mem.2 fun call hcall => ?_
        obtain ⟨op, hop, entry, hentry, hwrites, -⟩ :=
          hbegins.writable (ModelCall.inScope_of_attemptAll hconfined call hcall)
        rw [hreadOnly op hop entry hentry] at hwrites
        cases hwrites

/-- The controller of a handler that, in MODEL and again in RUNTIME, adds a resource at its
    operation's address and one beside it, and goes on whether that is refused or not. One of its
    operations is declared read-only. -/
def sprawling : Controller { Signature.bare with Handler := Bool } where
  registry :=
    { globals := ((∅ : SortedMap String _).insert "grow" ⟨{ name := "grow" }, true⟩).insert "look"
        ⟨{ name := "look", isReadOnly := true }, true⟩ }
  handle inModel op :=
    .create op.address fun _ => .create ⟨[⟨"beside", "x"⟩]⟩ fun _ =>
      if inModel then Program.addStep { stage := .runtime, handler := false } else .pure ()
  interlude := fun code => code.elim
  stepLimit := 5

theorem uninterrupted_sprawling (inModel : Bool) (op : Operation) :
    (sprawling.handle inModel op).Uninterrupted := by
  intro r r'
  cases inModel with
  | true =>
    intro r''
    cases r'' <;> trivial
  | false => trivial

/-- One of four resources is added where the operation may write, and none where it is read-only. -/
theorem writes_confined_sprawling :
    (∃ response s', sprawling.perform (.execute { name := "grow", address := ⟨[⟨"a", "b"⟩]⟩ })
        { environment := () } = .ok (.ok response, s') ∧
      s'.store.tree.contains ⟨[⟨"a", "b"⟩]⟩ = true ∧
      (∀ {a : Address}, s'.store.tree.get? a ≠ Tree.initial.get? a →
        a.isUnder ⟨[⟨"a", "b"⟩]⟩ = true) ∧
      s'.store.version = 1 ∧
      ∃ f₀ ended log f, Publishes sprawling f₀ ended { environment := () } s' log f) ∧
    ∃ response s', sprawling.perform (.execute { name := "look", address := ⟨[⟨"a", "b"⟩]⟩ })
        { environment := () } = .ok (.ok response, s') ∧ s'.store = {} := by
  constructor
  · have hrun : sprawling.answers (.execute { name := "grow", address := ⟨[⟨"a", "b"⟩]⟩ })
        { environment := () } (fun outcome s' => outcome.isOk &&
          (s'.store.tree.contains ⟨[⟨"a", "b"⟩]⟩ && s'.store.version == 1)) = true := by
      decide +kernel
    obtain ⟨outcome, s', h, htest⟩ := exists_of_answers hrun
    obtain ⟨hok, htest⟩ := Bool.and_eq_true_iff.1 htest
    obtain ⟨hadded, hversion⟩ := Bool.and_eq_true_iff.1 htest
    cases outcome with
    | error failure => cases hok
    | ok response =>
      obtain ⟨hunder, hbegins⟩ := (writes_confined uninterrupted_sprawling h).1 rfl
      refine ⟨response, s', h, hadded, fun ha => ?_, eq_of_beq hversion, ?_⟩
      · obtain ⟨op, hop, -, -, -, hop'⟩ := hunder ha
        rw [List.mem_singleton.1 hop] at hop'
        exact hop'
      · rcases hbegins with ⟨hempty, -⟩ | ⟨-, f₀, ended, log, f, -, -, hpublishes⟩
        · cases hempty
        · exact ⟨f₀, ended, log, f, hpublishes⟩
  · have hrun : sprawling.answers (.execute { name := "look", address := ⟨[⟨"a", "b"⟩]⟩ })
        { environment := () } (fun outcome _ => outcome.isOk) = true := by
      decide +kernel
    obtain ⟨outcome, s', h, hok⟩ := exists_of_answers hrun
    cases outcome with
    | error failure => cases hok
    | ok response =>
      refine ⟨response, s', h, (writes_confined uninterrupted_sprawling h).2 ?_⟩
      intro op hop entry hentry
      rw [List.mem_singleton.1 hop] at hentry
      have hlook : (sprawling.registry.operation? ⟨[⟨"a", "b"⟩]⟩ "look").map
          (·.schema.isReadOnly) = some true := by decide +kernel
      rw [hentry] at hlook
      exact Option.some.inj hlook

end Controller

end ManagedModel
