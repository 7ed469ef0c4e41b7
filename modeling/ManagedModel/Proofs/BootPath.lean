import ManagedModel.Proofs.Progress
import ManagedModel.Proofs.Registration

/-! # Boot and normal operation

    A transaction in boot mode queues a strict pass over the parked values at
    its first deferral, where any other transaction relies on the checks of
    VERIFY alone. The two come to the same.

    * Whether the strict pass is queued is all that boot mode changes in the
      alignment of the process (`Alignment.update_withoutPass`).
    * No parked value resolves between the steps of RUNTIME (`Stuck.updateAll`),
      so the strict pass applies nothing, and fails just if VERIFY would
      (`Stuck.settle_cases`).
    * `Stands` says where a transaction stands between its steps, and
      `stands_of_underway` that it does so in all states it passes through. -/

namespace ManagedModel

/-! ### Without the strict pass -/

namespace ParkedValues

variable {cfg : PropertyConfig}

/-- The parked values without a note on the strict pass. -/
def withoutPass (p : ParkedValues) : ParkedValues := { p with passQueued := false }

theorem applyAll_withoutPass (rs : List (String × Option String)) (p : ParkedValues)
    (live : LiveProperties) :
    applyAll cfg rs p.withoutPass live =
      ((applyAll cfg rs p live).1.withoutPass, (applyAll cfg rs p live).2) := by
  induction rs generalizing p live with
  | nil => rfl
  | cons r rs ih => exact ih (p.forget r.1) (cfg.apply r.1 r.2 live)

theorem retry_withoutPass (p : ParkedValues) (live : LiveProperties) :
    (p.withoutPass.retry cfg live).2 =
      ((p.retry cfg live).2.1.withoutPass, (p.retry cfg live).2.2) := by
  fun_induction retry cfg p live with
  | case1 p live hnone =>
    unfold retry
    split
    · rfl
    · rename_i r rs hsome
      cases hnone.symm.trans hsome
  | case2 p live r rs hsome _ next count p' live' hnext ih =>
    rw [hnext] at ih
    unfold retry
    split
    · rename_i hnone
      cases hsome.symm.trans hnone
    · rename_i r' rs' hsome'
      obtain ⟨rfl, rfl⟩ := List.cons.inj (hsome.symm.trans hsome')
      show (retry cfg (applyAll cfg (r :: rs) p.withoutPass live).1
        (applyAll cfg (r :: rs) p.withoutPass live).2).2 = _
      rw [applyAll_withoutPass]
      exact ih

end ParkedValues

namespace Alignment

variable {cfg : PropertyConfig} {booting : Bool} {m : Alignment} {u : PendingUpdate}

/-- The alignment without a note on the strict pass. -/
def withoutPass (m : Alignment) : Alignment :=
  { m with parked? := m.parked?.map ParkedValues.withoutPass }

@[simp] theorem parkedAt_withoutPass (m : Alignment) (name : String) :
    m.withoutPass.parkedAt name = m.parkedAt name := by
  unfold withoutPass parkedAt
  cases m.parked? <;> rfl

theorem beginUpdate_withoutPass (m : Alignment) (name : String) :
    m.withoutPass.beginUpdate name = (m.beginUpdate name).withoutPass := by
  unfold withoutPass beginUpdate
  cases m.parked? <;> rfl

theorem retry_withoutPass (cfg : PropertyConfig) (m : Alignment) :
    m.withoutPass.retry cfg = (m.retry cfg).withoutPass := by
  unfold withoutPass retry
  cases hp : m.parked? with
  | none =>
    dsimp only [Option.map]
    rw [hp]
  | some p =>
    dsimp only [Option.map]
    rw [show (p.withoutPass.retry cfg m.live).2 = _ from p.retry_withoutPass m.live]

theorem defer_withoutPass (booting : Bool) (name : String) (model : Attributes) (fault : Fault)
    (m : Alignment) :
    m.withoutPass.defer false name model fault =
      (m.defer booting name model fault).withoutPass := by
  unfold withoutPass defer
  cases m.parked? <;> rfl

/-- Boot mode changes nothing else. -/
theorem update_withoutPass (booting : Bool) (m : Alignment) (u : PendingUpdate) :
    m.withoutPass.update cfg false u = (m.update cfg booting u).withoutPass := by
  unfold update
  cases u.effect with
  | apply =>
    dsimp only
    rw [beginUpdate_withoutPass, show m.withoutPass.live = m.live from rfl]
    cases intendedValue m.live u.model with
    | ok value? => exact retry_withoutPass cfg ((m.beginUpdate u.name).setLive cfg u.name value?)
    | error fault => exact defer_withoutPass booting u.name u.model fault (m.beginUpdate u.name)
  | reload => rfl
  | none => rfl

theorem updateAll_withoutPass (booting : Bool) (us : List PendingUpdate) (m : Alignment) :
    m.withoutPass.updateAll cfg false us = (m.updateAll cfg booting us).withoutPass := by
  induction us generalizing m with
  | nil => rfl
  | cons u us ih =>
    show (m.withoutPass.update cfg false u).updateAll cfg false us = _
    rw [update_withoutPass booting]
    exact ih (m.update cfg booting u)

/-- Nothing is parked at the beginning. -/
theorem stuck_of_live (live : LiveProperties) : ({ live } : Alignment).Stuck := by
  intro name v hv
  cases hv

/-- Where no parked value resolves, a transaction leaves the process alone when it settles, and it
    commits just if nothing is parked. -/
theorem Stuck.settle_cases (h : m.Stuck) (cfg : PropertyConfig) (hm : m.Checked) :
    (m.settle cfg = (.ok (), m) ∧ ∀ name, m.parkedAt name = none) ∨
      ∃ cause, m.settle cfg = (.error cause, m) ∧ ∃ name, m.parkedAt name ≠ none := by
  by_cases hnone : ∀ name, m.parkedAt name = none
  · exact .inl ⟨(h.settle_eq_ok_iff hm).2 hnone, hnone⟩
  · have hsame : (m.settle cfg).2 = m := (settle_snd cfg m).trans h.pass_snd
    cases hsettle : m.settle cfg with
    | mk outcome m' =>
      rw [hsettle] at hsame
      obtain rfl : m' = m := hsame
      cases outcome with
      | ok u => exact absurd ((h.settle_eq_ok_iff hm).1 hsettle) hnone
      | error cause => exact .inr ⟨cause, rfl, Classical.not_forall.1 hnone⟩

end Alignment

/-! ### The two courses -/

/-- No property is protected from changes while the process runs. -/
def PropertyConfig.ProtectsNothing (cfg : PropertyConfig) : Prop :=
  ∀ u, cfg.updater? = some u → u.protectedNames = []

namespace Controller

variable {X : Signature} {c : Controller X.withProperties} {cfg : PropertyConfig}
  {s : ControllerState X.withProperties} {ops : List Operation}
  {accepted : List (Operation × RegisteredOperation (ModelHandler X.Handler))}

/-- Where nothing is protected, changes reach the process in the same way in both modes. -/
theorem effect_eq (hcfg : cfg.ProtectsNothing) (booting : Bool) :
    c.effect cfg booting = c.effect cfg false := by
  have hallows : ∀ name, cfg.allows name booting = cfg.allows name false := by
    intro name
    unfold PropertyConfig.allows
    cases hu : cfg.updater? with
    | none => rfl
    | some u =>
      show (booting || !u.protectedNames.contains name) = (false || !u.protectedNames.contains name)
      rw [hcfg u hu]
      exact (Bool.or_true booting).trans rfl
  funext name
  unfold effect PropertyConfig.effectFor
  rw [hallows]

/-- Transactions come to the same in both modes, but for the cause of a failure. -/
theorem course_eq (hcfg : cfg.ProtectsNothing) (booting : Bool)
    (accepted : List (Operation × RegisteredOperation (ModelHandler X.Handler)))
    (s : ControllerState X.withProperties) :
    (c.course cfg booting accepted s).1.toOption = (c.course cfg false accepted s).1.toOption ∧
      (c.course cfg booting accepted s).2 = (c.course cfg false accepted s).2 := by
  cases hdraft : (draftOf accepted s).run c.registry.resource? (c.effect cfg false)
      (tasksOf accepted) with
  | error cause =>
    have hdraft' := hdraft
    rw [← effect_eq hcfg booting] at hdraft'
    rw [course_of_draft_error hdraft, course_of_draft_error hdraft']
    exact ⟨rfl, rfl⟩
  | ok d =>
    have hdraft' := hdraft
    rw [← effect_eq hcfg booting] at hdraft'
    let start : Alignment := { live := s.environment.live }
    have hstuck : ∀ booting, (start.updateAll cfg booting d.updates).Stuck :=
      fun _ => (Alignment.stuck_of_live s.environment.live).updateAll d.updates
    have hchecked : ∀ booting, (start.updateAll cfg booting d.updates).Checked :=
      fun _ => Alignment.Checked.updateAll (fun name hname => absurd rfl hname) d.updates
    have hsame : start.updateAll cfg false d.updates =
        (start.updateAll cfg booting d.updates).withoutPass :=
      Alignment.updateAll_withoutPass booting d.updates start
    -- what is parked at the end is the same in both modes, and it decides
    rcases (hstuck booting).settle_cases cfg (hchecked booting) with
      ⟨hok, hnone⟩ | ⟨cause, herror, name, hparked⟩
    · rcases (hstuck false).settle_cases cfg (hchecked false) with
        ⟨hok', -⟩ | ⟨cause', -, name, hparked⟩
      · rw [course_of_settle_ok hdraft' hok, course_of_settle_ok hdraft hok', hsame]
        exact ⟨rfl, rfl⟩
      · rw [hsame, Alignment.parkedAt_withoutPass] at hparked
        exact absurd (hnone name) hparked
    · rcases (hstuck false).settle_cases cfg (hchecked false) with
        ⟨-, hnone⟩ | ⟨cause', herror', -⟩
      · have hname := hnone name
        rw [hsame, Alignment.parkedAt_withoutPass] at hname
        exact absurd hname hparked
      · rw [course_of_settle_error hdraft' herror, course_of_settle_error hdraft herror', hsame]
        exact ⟨rfl, rfl⟩

/-! ### The two answers -/

/-- The operation is carried out by a built-in handler, if it is offered at all, and it is not for
    boot mode only. -/
def IsModeless (c : Controller X.withProperties) (op : Operation) : Prop :=
  ∀ entry, c.registry.operation? op.address op.name = some entry →
    entry.handler.IsBuiltIn ∧ entry.schema.isBootOnly = false

theorem IsModeless.isBuiltIn {op : Operation} (h : c.IsModeless op) : c.IsBuiltIn op :=
  fun entry hentry => (h entry hentry).1

theorem IsModeless.accept_eq {op : Operation} (h : c.IsModeless op) (booting : Bool) :
    c.accept booting op = c.accept false op := by
  unfold accept
  cases hentry : c.registry.operation? op.address op.name with
  | none => rfl
  | some entry =>
    dsimp only
    rw [(h entry hentry).2]
    rfl

theorem acceptAll_eq (hops : ∀ op ∈ ops, c.IsModeless op) (booting : Bool) :
    c.acceptAll booting ops = c.acceptAll false ops := by
  induction ops with
  | nil => rfl
  | cons op ops ih =>
    obtain ⟨hop, hrest⟩ := List.forall_mem_cons.1 hops
    rw [acceptAll, acceptAll, hop.accept_eq booting, ih hrest]

/-- The answers to two submissions agree: both have to wait for a range that is held, both fail, or
    both commit with the same response; and they leave the same state. -/
inductive Coincide (s : ControllerState X.withProperties) :
    Except Stall (Outcome × ControllerState X.withProperties) →
      Except Stall (Outcome × ControllerState X.withProperties) → Prop where
  | waiting (held_ne : s.locks.held ≠ []) : Coincide s (.error .lockHeld) (.error .lockHeld)
  | failed {f f' : Failure} {t : ControllerState X.withProperties} :
      Coincide s (.ok (.error f, t)) (.ok (.error f', t))
  | committed {r : Response} {t : ControllerState X.withProperties} :
      Coincide s (.ok (.ok r, t)) (.ok (.ok r, t))

/-- The end of boot mode does not show outside of it. -/
theorem answer_boot {t : ControllerState X.withProperties} (ht : t.booting = false)
    (ops : List Operation) (r : Except Failure (List Value × Nat)) :
    answer (.boot ops) (r, t) = answer (.executeAll ops) (r, t) := by
  have hleave : leaveBoot t = t := by
    unfold leaveBoot
    rw [← ht]
  show (r.map fun p => respond (leaveBoot t) (.list p.1) p.2, leaveBoot t) = _
  rw [hleave]
  rfl

/-- The same list of operations comes to the same in boot mode and outside of it. -/
theorem coincide (hc : c.RunsModel cfg) (hcfg : cfg.ProtectsNothing) (hs : s.Tidy)
    (hbooting : s.booting = false) (hops : ∀ op ∈ ops, c.IsModeless op)
    (hlimit : ops.length < c.stepLimit) : Coincide s (c.boot ops s) (c.executeAll ops s) := by
  have hboot : c.boot ops s = (c.submit true ops s).map (answer (.boot ops)) :=
    perform_eq c (.boot ops) s
  have hexecute : c.executeAll ops s = (c.submit false ops s).map (answer (.executeAll ops)) := by
    rw [← hbooting]
    exact perform_eq c (.executeAll ops) s
  rw [hboot, hexecute]
  have hnext : (withNextId s).booting = false := hbooting
  by_cases hne : ops = []
  · rw [hne]
    show Coincide s (.ok (answer (.boot []) (.ok ([], s.store.version), withNextId s))) _
    rw [answer_boot hnext]
    exact .committed
  -- the answers are decided in the same way in both modes: by the checks, by the held ranges, and
  -- by the courses
  · have haccs := acceptAll_eq hops true
    cases hacc : c.acceptAll false ops with
    | error cause =>
      rw [submit_of_refused hne hacc, submit_of_refused hne (haccs.trans hacc)]
      show Coincide s (.ok (answer (.boot ops) _)) _
      rw [answer_boot hnext]
      exact .failed
    | ok accepted =>
      by_cases hheld : s.locks.conflicts (writeScope (S := X.withProperties) accepted) = true
      · rw [submit_of_conflicts hne hacc hheld, submit_of_conflicts hne (haccs.trans hacc) hheld]
        refine .waiting fun hnone => ?_
        unfold HeldLocks.conflicts at hheld
        rw [hnone] at hheld
        cases hheld
      · obtain ⟨lock, locked, hlock⟩ :=
          exists_lock (s := withNextId s) (Bool.eq_false_iff.2 hheld)
        have hbuilt : ∀ op ∈ ops, c.IsBuiltIn op := fun op hop => (hops op hop).isBuiltIn
        obtain ⟨houtcome, hstate⟩ := course_eq (c := c) hcfg true accepted locked
        have hend : (unlock lock (c.course cfg false accepted locked).2).booting = false := by
          rw [booting_unlock, (course_others c cfg false accepted locked).2.2.1, locked_eq hlock]
          exact hbooting
        rw [submit_eq_course hc hs hbuilt hne hlimit hacc hlock,
          submit_eq_course hc hs hbuilt hne hlimit (haccs.trans hacc) hlock, hstate]
        show Coincide s (.ok (answer (.boot ops) _)) (.ok (answer (.executeAll ops) _))
        rw [answer_boot hend]
        cases hboots : (c.course cfg true accepted locked).1 with
        | ok results =>
          cases hexecutes : (c.course cfg false accepted locked).1 with
          | ok results' =>
            rw [hboots, hexecutes] at houtcome
            cases houtcome
            exact .committed
          | error failure =>
            rw [hboots, hexecutes] at houtcome
            cases houtcome
        | error failure =>
          cases hexecutes : (c.course cfg false accepted locked).1 with
          | ok results =>
            rw [hboots, hexecutes] at houtcome
            cases houtcome
          | error failure' => exact .failed

end Controller

/-! ### Where a transaction stands -/

namespace InFlight

variable {X : Signature} {c : Controller X.withProperties} {cfg : PropertyConfig}
  {f f' : InFlight X.withProperties}

/-- Where a transaction of built-in operations stands between its steps, from MODEL on. No parked
    value resolves until the strict pass has run or VERIFY has begun. -/
inductive Stands (cfg : PropertyConfig) (f : InFlight X.withProperties) : Prop where
  | model {σ : Setting X} {m : Alignment} {d : Draft}
      {tasks : List (Operation × ModelHandler X.Handler)} (hcfg : σ.cfg = cfg)
      (hin : f.InModel σ m d tasks) (hbuilt : ∀ t ∈ tasks, t.2.IsBuiltIn) (hstuck : m.Stuck)
      (hqueued : m.passQueued = false) : Stands cfg f
  | runtime {σ : Setting X} {m : Alignment} {us : List PendingUpdate} (hcfg : σ.cfg = cfg)
      (hat : f.At σ .runtime (us.map PendingUpdate.handler ++ m.passSteps) m) (hstuck : m.Stuck) :
      Stands cfg f
  | passed {σ : Setting X} {m : Alignment} (hcfg : σ.cfg = cfg) (hat : f.At σ .runtime [] m) :
      Stands cfg f
  | verify {σ : Setting X} {m : Alignment} (hcfg : σ.cfg = cfg) (hat : f.At σ .verify [] m) :
      Stands cfg f

section

variable {σ : Setting X} {m : Alignment} {waiting : List (ModelHandler X.Handler)}

/-- RUNTIME gives way to VERIFY when none of its steps waits. -/
theorem At.verify_of_enter {stage : Stage} (h : f.At σ .runtime waiting m)
    (hpop : f.transaction.agenda.pop? = none)
    (hnext : (Stage.following f.transaction.agenda.current).head? = some stage) :
    (f.entered stage).At σ .verify [] m := by
  rw [h.current_eq] at hnext
  cases hnext
  cases waiting with
  | nil => exact (h.entered .verify rfl).2
  | cons handler rest =>
    obtain ⟨step, agenda, hsome, -⟩ := h.pop_runtime
    rw [hpop] at hsome
    cases hsome

/-- MODEL gives way to RUNTIME, where the updates wait. -/
theorem InModel.runtime_of_enter {d : Draft} {tasks : List (Operation × ModelHandler X.Handler)}
    {stage : Stage} (h : f.InModel σ m d tasks) (hqueued : m.passQueued = false)
    (hnext : (Stage.following f.transaction.agenda.current).head? = some stage) :
    (f.entered stage).At (σ.drafted d tasks.length) .runtime
      (d.updates.map PendingUpdate.handler ++ m.passSteps) m := by
  rw [h.at_model.current_eq] at hnext
  cases hnext
  rw [Alignment.passSteps_of_not_queued hqueued, List.append_nil]
  exact (h.at_model.entered .runtime rfl).2

section

variable {step : Step X.withProperties} {agenda : Agenda (Step X.withProperties)}
  (hpop : f.transaction.agenda.pop? = some (step, agenda))

include hpop

/-- The steps of MODEL carry out the operations. -/
theorem InModel.isBuiltIn_of_pop {d : Draft} {tasks : List (Operation × ModelHandler X.Handler)}
    (h : f.InModel σ m d tasks) (hbuilt : ∀ t ∈ tasks, t.2.IsBuiltIn) :
    step.handler.IsBuiltIn := by
  cases tasks with
  | nil =>
    rw [h.pop_nil] at hpop
    cases hpop
  | cons task rest =>
    obtain ⟨step', agenda', hpop', -, htask, -⟩ := h.pop
    rw [hpop] at hpop'
    cases hpop'
    rw [htask]
    exact hbuilt task List.mem_cons_self

/-- A step of MODEL drafts the operation that it belongs to. -/
theorem InModel.move {d : Draft} {tasks : List (Operation × ModelHandler X.Handler)}
    (hc : c.RunsModel σ.cfg) (h : f.InModel σ m d tasks) (hbuilt : ∀ t ∈ tasks, t.2.IsBuiltIn)
    (hexecute : execute c step (f.onTransaction fun t => { t with agenda }) = (.ok (), f')) :
    ∃ task rest d', tasks = task :: rest ∧
      d.step c.registry.resource? (c.effect σ.cfg σ.booting) task = .ok d' ∧
      f'.InModel σ m d' rest := by
  cases tasks with
  | nil =>
    rw [h.pop_nil] at hpop
    cases hpop
  | cons task rest =>
    obtain ⟨step', agenda', f₁, hpop', hperforms⟩ := h.performs hc (hbuilt task List.mem_cons_self)
    rw [hpop] at hpop'
    cases hpop'
    cases hd : d.step c.registry.resource? (c.effect σ.cfg σ.booting) task with
    | error fault =>
      rw [hd] at hperforms
      cases hexecute.symm.trans hperforms.1
    | ok d' =>
      rw [hd] at hperforms
      cases hexecute.symm.trans hperforms.1
      exact ⟨task, rest, d', rfl, hd, hperforms.2⟩

/-- Behind the updates, the strict pass is the only step of RUNTIME. -/
theorem At.pop_pass (h : f.At σ .runtime m.passSteps m) :
    m.passQueued = true ∧ step.handler = .property .applyParked ∧
      (f.onTransaction fun t => { t with agenda }).At σ .runtime [] m := by
  cases hqueued : m.passQueued with
  | false =>
    rw [Alignment.passSteps_of_not_queued hqueued] at h
    rw [h.pop_runtime_nil] at hpop
    cases hpop
  | true =>
    rw [Alignment.passSteps_of_queued hqueued] at h
    obtain ⟨step', agenda', hpop', hhandler, hpopped⟩ := h.pop_runtime
    rw [hpop] at hpop'
    cases hpop'
    exact ⟨rfl, hhandler, hpopped⟩

/-- A step of RUNTIME in front of the pass carries out an update, and does not fail. -/
theorem At.performs_update {u : PendingUpdate} {us : List PendingUpdate} (hc : c.RunsModel σ.cfg)
    (h : f.At σ .runtime ((u :: us).map PendingUpdate.handler ++ m.passSteps) m) :
    step.handler = u.handler ∧
      ∃ f', InFlight.execute c step (f.onTransaction fun t => { t with agenda }) = (.ok (), f') ∧
        f'.At σ .runtime (us.map PendingUpdate.handler ++ (m.update σ.cfg σ.booting u).passSteps)
          (m.update σ.cfg σ.booting u) := by
  rw [List.map_cons, List.cons_append] at h
  obtain ⟨step', agenda', hpop', hhandler, hpopped⟩ := h.pop_runtime
  rw [hpop] at hpop'
  cases hpop'
  refine ⟨hhandler, hpopped.execute_ok ?_⟩
  rw [hhandler, PendingUpdate.handler, hc.property_eq]
  exact Steps.update u

/-- A step of RUNTIME carries out an update, or the strict pass behind the updates. -/
theorem At.runtime_move {us : List PendingUpdate} (hc : c.RunsModel σ.cfg)
    (h : f.At σ .runtime (us.map PendingUpdate.handler ++ m.passSteps) m)
    (hexecute : InFlight.execute c step (f.onTransaction fun t => { t with agenda }) =
      (.ok (), f')) :
    (∃ u rest, us = u :: rest ∧ step.handler = u.handler ∧ f'.At σ .runtime
        (rest.map PendingUpdate.handler ++ (m.update σ.cfg σ.booting u).passSteps)
        (m.update σ.cfg σ.booting u)) ∨
      m.passQueued = true ∧ f'.At σ .runtime [] (m.pass σ.cfg).2 := by
  cases us with
  | cons u rest =>
    obtain ⟨hhandler, f₁, hexecute', hat⟩ := h.performs_update hpop hc
    cases hexecute.symm.trans hexecute'
    exact .inl ⟨u, rest, rfl, hhandler, hat⟩
  | nil =>
    obtain ⟨hqueued, hhandler, hpopped⟩ := At.pop_pass hpop h
    obtain ⟨f₁, hexecute', hreached⟩ := hpopped.execute (c := c)
      (by rw [hhandler, hc.property_eq]; exact ends_applyParked hqueued)
    obtain ⟨hok, rfl⟩ := Prod.mk.inj (hexecute.symm.trans hexecute')
    unfold Reached at hreached
    rw [← hok] at hreached
    exact .inr ⟨hqueued, hreached⟩

end

theorem At.with_checks (h : f.At σ .verify [] m) {names : List String} (hchecks : m.checks = names) :
    f.At σ .verify [] { m with checks := names } := by
  subst hchecks
  exact h

section

variable {step : Step X.withProperties} {agenda : Agenda (Step X.withProperties)}
  (hpop : f.transaction.agenda.pop? = some (step, agenda))

include hpop

/-- A step of VERIFY is a check. -/
theorem At.pop_check (h : f.At σ .verify [] m) :
    ∃ name names, m.checks = name :: names ∧ step.handler = .property (.verify name) ∧
      (f.onTransaction fun t => { t with agenda }).At σ .verify [] { m with checks := names } := by
  cases hchecks : m.checks with
  | nil =>
    rw [(h.with_checks hchecks).pop_verify_nil] at hpop
    cases hpop
  | cons name names =>
    obtain ⟨step', agenda', hpop', hhandler, hpopped⟩ := (h.with_checks hchecks).pop_verify
    rw [hpop] at hpop'
    cases hpop'
    exact ⟨name, names, rfl, hhandler, hpopped⟩

theorem At.verify_move (hc : c.RunsModel σ.cfg) (h : f.At σ .verify [] m)
    (hexecute : InFlight.execute c step (f.onTransaction fun t => { t with agenda }) =
      (.ok (), f')) :
    ∃ name names, m.checks = name :: names ∧ f'.At σ .verify [] { m with checks := names } := by
  obtain ⟨name, names, hchecks, hhandler, hpopped⟩ := h.pop_check hpop
  obtain ⟨f₁, hexecute', hreached⟩ := hpopped.execute (c := c)
    (by rw [hhandler, hc.property_eq]; exact ends_verify name)
  obtain ⟨hok, rfl⟩ := Prod.mk.inj (hexecute.symm.trans hexecute')
  unfold Reached at hreached
  rw [← hok] at hreached
  exact ⟨name, names, hchecks, hreached⟩

end

end

theorem Stands.move (hc : c.RunsModel cfg) (h : Stands cfg f) (hmove : Move c f f') :
    Stands cfg f' := by
  cases h with
  | @model σ m d tasks hcfg hin hbuilt hstuck hqueued =>
    subst hcfg
    cases hmove with
    | enter hpop hnext =>
      exact .runtime (show (σ.drafted d tasks.length).cfg = σ.cfg from rfl)
        (hin.runtime_of_enter hqueued hnext) hstuck
    | step hpop hexecute =>
      obtain ⟨task, rest, d', rfl, -, hin'⟩ := hin.move hpop hc hbuilt hexecute
      exact .model rfl hin' (List.forall_mem_cons.1 hbuilt).2 hstuck hqueued
  | @runtime σ m us hcfg hat hstuck =>
    subst hcfg
    cases hmove with
    | enter hpop hnext => exact .verify rfl (hat.verify_of_enter hpop hnext)
    | step hpop hexecute =>
      rcases hat.runtime_move hpop hc hexecute with ⟨u, rest, -, -, hat'⟩ | ⟨-, hat'⟩
      · exact .runtime rfl hat' (hstuck.update u)
      · exact .passed rfl hat'
  | @passed σ m hcfg hat =>
    subst hcfg
    cases hmove with
    | enter hpop hnext => exact .verify rfl (hat.verify_of_enter hpop hnext)
    | step hpop hexecute =>
      rw [hat.pop_runtime_nil] at hpop
      cases hpop
  | @verify σ m hcfg hat =>
    subst hcfg
    cases hmove with
    | enter hpop hnext =>
      rw [hat.current_eq] at hnext
      cases hnext
    | step hpop hexecute =>
      obtain ⟨name, names, -, hat'⟩ := hat.verify_move hpop hc hexecute
      exact .verify rfl hat'

theorem Stands.underway (hc : c.RunsModel cfg) (h : Stands cfg f) (hf : Underway c f f') :
    Stands cfg f' := by
  induction hf with
  | refl => exact h
  | tail _ hmove ih => exact ih.move hc hmove

/-- What is parked for a property. -/
def parkedAt (f : InFlight X.withProperties) (name : String) : Option ParkedValue :=
  (f.transaction.attachments.get? Property.parkedKey).bind (·.get? name)

section

variable {σ : Setting X} {m : Alignment} {stage : Stage} {waiting : List (ModelHandler X.Handler)}

theorem At.parkedAt_eq (h : f.At σ stage waiting m) (name : String) :
    f.parkedAt name = m.parkedAt name := by
  show (f.transaction.attachments.get? _).bind _ = _
  rw [show f.transaction.attachments.get? Property.parkedKey = m.parked? from h.parked_eq]
  rfl

theorem At.live_eq (h : f.At σ stage waiting m) : f.state.environment.live = m.live :=
  congrArg (fun s : ControllerState X.withProperties => s.environment.live) h.state_eq

end

/-- The strict pass has nothing to apply, leaves the process alone, and fails just if a value is
    parked. -/
structure PassesIdly (f : InFlight X.withProperties) (outcome : Except Fault Unit)
    (g : InFlight X.withProperties) : Prop where
  unresolved : ∀ {name : String} {v : ParkedValue}, f.parkedAt name = some v →
    ∃ fault, intendedValue f.state.environment.live v.model = .error fault
  live_eq : g.state.environment.live = f.state.environment.live
  fails_iff : (∃ fault, outcome = .error fault) ↔ ∃ name, f.parkedAt name ≠ none

section

variable {step : Step X.withProperties} {agenda : Agenda (Step X.withProperties)}
  {outcome : Except Fault Unit} {g : InFlight X.withProperties}

theorem At.passesIdly {σ : Setting X} {m : Alignment} (hc : c.RunsModel σ.cfg)
    (hat : (f.onTransaction fun t => { t with agenda }).At σ .runtime [] m) (hstuck : m.Stuck)
    (hqueued : m.passQueued = true) (hhandler : step.handler = .property .applyParked)
    (hrun : (c.handle step.handler step.operation).run c (f.taken step agenda) = (outcome, g)) :
    PassesIdly f outcome g := by
  have hlive : f.state.environment.live = m.live := hat.live_eq
  have hparked : ∀ name, f.parkedAt name = m.parkedAt name := hat.parkedAt_eq
  have hends : Ends c σ .runtime (c.handle step.handler step.operation) [] m (m.pass σ.cfg) := by
    rw [hhandler, hc.property_eq]
    exact ends_applyParked hqueued
  -- whether it fails or not, the pass ends where it began
  have hended : outcome = (m.pass σ.cfg).1 ∧ g.state.environment.live = m.live := by
    have hsame : (m.pass σ.cfg).2 = m := hstuck.pass_snd
    unfold Ends at hends
    cases hpass : (m.pass σ.cfg).1 with
    | ok u =>
      rw [hpass, hsame] at hends
      obtain ⟨g', hrun', hat', -⟩ := hends (f.taken step agenda) (hat.begun step) rfl
      obtain ⟨rfl, rfl⟩ := Prod.mk.inj (hrun.symm.trans hrun')
      exact ⟨rfl, hat'.live_eq⟩
    | error fault =>
      rw [hpass, hsame] at hends
      obtain ⟨g', hrun', hundoable, -⟩ := hends (f.taken step agenda) (hat.begun step) rfl
      obtain ⟨rfl, rfl⟩ := Prod.mk.inj (hrun.symm.trans hrun')
      exact ⟨rfl, congrArg (fun s : ControllerState X.withProperties => s.environment.live)
        hundoable.state_eq⟩
  refine ⟨?_, hended.2.trans hlive.symm, ?_⟩
  · intro name v hv
    rw [hlive]
    exact hstuck ((hparked name).symm.trans hv)
  · have hok : (m.pass σ.cfg).1 = .ok () ↔ _ := hstuck.pass_eq_ok_iff
    rw [← hended.1] at hok
    constructor
    · rintro ⟨fault, rfl⟩
      refine Classical.byContradiction fun hnone => ?_
      cases hok.2 fun _ name => (hparked name).symm.trans (Classical.not_not.1 fun hname =>
        hnone ⟨name, hname⟩)
    · rintro ⟨name, hname⟩
      cases outcome with
      | ok u => exact absurd ((hparked name).trans (hok.1 rfl hqueued name)) hname
      | error fault => exact ⟨fault, rfl⟩

/-- The strict pass runs where nothing that is parked resolves. -/
theorem Stands.passesIdly (hc : c.RunsModel cfg) (h : Stands cfg f)
    (hpop : f.transaction.agenda.pop? = some (step, agenda))
    (hhandler : step.handler = .property .applyParked)
    (hrun : (c.handle step.handler step.operation).run c (f.taken step agenda) = (outcome, g)) :
    PassesIdly f outcome g := by
  cases h with
  | @model σ m d tasks hcfg hin hbuilt hstuck hqueued =>
    -- the strict pass is no operation
    have hbuiltIn := hin.isBuiltIn_of_pop hpop hbuilt
    rw [hhandler] at hbuiltIn
    exact absurd hbuiltIn id
  | @runtime σ m us hcfg hat hstuck =>
    subst hcfg
    cases us with
    | cons u rest =>
      obtain ⟨hupdate, -⟩ := hat.performs_update hpop hc
      rw [hhandler] at hupdate
      cases hupdate
    | nil =>
      obtain ⟨hqueued, -, hpopped⟩ := At.pop_pass hpop hat
      exact hpopped.passesIdly hc hstuck hqueued hhandler hrun
  | @passed σ m hcfg hat =>
    rw [hat.pop_runtime_nil] at hpop
    cases hpop
  | @verify σ m hcfg hat =>
    obtain ⟨name, names, -, hcheck, -⟩ := hat.pop_check hpop
    rw [hhandler] at hcheck
    cases hcheck

end

end InFlight

/-! ### The boot path -/

namespace Controller

open InFlight

variable {X : Signature} {c : Controller X.withProperties} {cfg : PropertyConfig}
  {s : ControllerState X.withProperties} {ops : List Operation}

/-- A transaction of built-in operations stands well in all states that it passes through after
    MODEL has begun. -/
theorem stands_of_underway (hc : c.RunsModel cfg) (booting : Bool) (id : Nat)
    {accepted : List (Operation × RegisteredOperation (ModelHandler X.Handler))}
    (hbuilt : ∀ a ∈ accepted, a.2.handler.IsBuiltIn) {f : InFlight X.withProperties}
    (hf : Underway c (begin booting id accepted s) f) :
    f = begin booting id accepted s ∨ Stands cfg f := by
  obtain ⟨-, hcurrent⟩ := steady_begin booting id accepted s
  rcases Relation.ReflTransGen.cases_head hf with rfl | ⟨g, hmove, hg⟩
  · exact .inl rfl
  · refine .inr (Stands.underway hc ?_ hg)
    obtain rfl := hmove.eq_of_not_begun hcurrent
    exact .model (by rfl) (inModel_begin cfg booting id accepted s).2 (isBuiltIn_tasksOf hbuilt)
      (Alignment.stuck_of_live _) rfl

/-- The boot path and the normal path agree, where no property is protected. A list of operations
    on resources and system properties comes to the same, submitted at boot or not; and the strict
    pass, wherever a transaction in boot mode runs it, has nothing to apply and fails just if a
    value is parked. -/
theorem boot_agrees (hc : c.RunsModel cfg) (hcfg : cfg.ProtectsNothing) (hs : s.Tidy)
    (hbooting : s.booting = false) (hops : ∀ op ∈ ops, c.IsModeless op)
    (hlimit : ops.length < c.stepLimit) :
    Coincide s (c.boot ops s) (c.executeAll ops s) ∧
    ∀ {accepted : List (Operation × RegisteredOperation (ModelHandler X.Handler))}
      {lock : Option Lock} {locked : ControllerState X.withProperties},
      c.acceptAll true ops = .ok accepted →
      lock? (writeScope (S := X.withProperties) accepted) (withNextId s) = some (lock, locked) →
        ∀ {f g : InFlight X.withProperties} {step : Step X.withProperties}
          {agenda : Agenda (Step X.withProperties)} {outcome : Except Fault Unit},
          Underway c (begin true s.nextId accepted locked) f →
          f.transaction.agenda.pop? = some (step, agenda) →
          step.handler = .property .applyParked →
          (c.handle step.handler step.operation).run c (f.taken step agenda) = (outcome, g) →
            PassesIdly f outcome g := by
  refine ⟨coincide hc hcfg hs hbooting hops hlimit, ?_⟩
  intro accepted lock locked hacc _ f g step agenda outcome hf hpop hhandler hrun
  have hbuilt := isBuiltIn_of_acceptAll (fun op hop => (hops op hop).isBuiltIn) hacc
  rcases stands_of_underway hc true s.nextId hbuilt hf with rfl | hstands
  · obtain ⟨-, hcurrent⟩ := steady_begin true s.nextId accepted locked
    rw [Agenda.pop?_of_not_begun hcurrent] at hpop
    cases hpop
  · exact hstands.passesIdly hc hpop hhandler hrun

/-- The operations of models with generic resources are of that kind, if resource types declare
    none for boot mode only. -/
theorem isModeless_of_isGeneric {spec : ModelSpec X.Handler} (hspec : spec.IsGeneric)
    (h : spec.registry = .ok c.registry)
    (hmodes : ∀ t ∈ spec.resources, ∀ o ∈ t.operations, o.1.isBootOnly = false) (op : Operation) :
    c.IsModeless op :=
  fun _ hentry =>
    ⟨(hspec.governsProperties h).isBuiltIn hentry, hspec.isBootOnly_eq h hmodes hentry⟩

/-- A property that refers to one that is added after it: it is parked, it is applied together with
    the other one, and the strict pass finds nothing left to do. -/
theorem boot_agrees_pair :
    (∃ response t, (bare { updater? := some {} } 5).boot
        [Property.addRequest "p" (some "$\x7bq\x7d") none, Property.addRequest "q" (some "v") none]
        .bare = .ok (.ok response, t) ∧
      (bare { updater? := some {} } 5).executeAll
        [Property.addRequest "p" (some "$\x7bq\x7d") none, Property.addRequest "q" (some "v") none]
        .bare = .ok (.ok response, t) ∧
      t.environment.live.get? "p" = some "v") ∧
    ∃ f₀ f g step agenda outcome, Underway (bare { updater? := some {} } 5) f₀ f ∧
      f.transaction.agenda.pop? = some (step, agenda) ∧ step.handler = .property .applyParked ∧
      ((bare { updater? := some {} } 5).handle step.handler step.operation).run
        (bare { updater? := some {} } 5) (f.taken step agenda) = (outcome, g) ∧
      PassesIdly f outcome g := by
  let c : Controller Signature.bare.withProperties := bare { updater? := some {} } 5
  let ops : List Operation :=
    [Property.addRequest "p" (some "$\x7bq\x7d") none, Property.addRequest "q" (some "v") none]
  have hprotects : PropertyConfig.ProtectsNothing { updater? := some {} } := by
    rintro u ⟨⟩
    rfl
  have hops : ∀ op ∈ ops, c.IsModeless op := fun op _ =>
    isModeless_of_isGeneric (X := Signature.bare) (c := c)
      (ModelSpec.isGeneric_bare { updater? := some {} })
      (ModelSpec.registry_bare { updater? := some {} }) (fun t ht => (nomatch ht)) op
  obtain ⟨hagree, hpasses⟩ := boot_agrees (runsModel_bare { updater? := some {} } 5) hprotects
    ControllerState.tidy_bare rfl hops (by decide)
  constructor
  · have hrun : c.answers (.boot ops) .bare
        (fun outcome t => outcome.isOk && t.environment.live.get? "p" == some "v") = true := by
      decide +kernel
    obtain ⟨outcome, t, hboot, htest⟩ := exists_of_answers hrun
    obtain ⟨hok, hlive⟩ := Bool.and_eq_true_iff.1 htest
    have hsame : Coincide .bare (.ok (outcome, t)) (c.executeAll ops .bare) := by
      rw [← show c.boot ops .bare = .ok (outcome, t) from hboot]
      exact hagree
    cases hexecute : c.executeAll ops .bare with
    | error stall =>
      rw [hexecute] at hsame
      cases hsame
    | ok p =>
      rw [hexecute] at hsame
      cases hsame with
      | failed => cases hok
      | committed => exact ⟨_, t, hboot, rfl, eq_of_beq hlive⟩
  · have hpass : (((c.acceptAll true ops).toOption.bind fun accepted =>
        (lock? (writeScope (S := Signature.bare.withProperties) accepted) (withNextId .bare)).bind
          fun granted => (after? c 6 (begin true ControllerState.bare.nextId accepted granted.2)).bind
            fun f => f.transaction.agenda.pop?).any fun popped => match popped.1.handler with
              | .property .applyParked => true
              | _ => false) = true := by
      decide +kernel
    obtain ⟨⟨step, agenda⟩, hpopped, hhandler⟩ := (Option.any_eq_true _ _).1 hpass
    obtain ⟨accepted, hacc, h⟩ := Option.bind_eq_some_iff.1 hpopped
    obtain ⟨⟨lock, locked⟩, hlock, h⟩ := Option.bind_eq_some_iff.1 h
    obtain ⟨f, hafter, hpop⟩ := Option.bind_eq_some_iff.1 h
    have hstep : step.handler = .property .applyParked := by
      dsimp only at hhandler
      split at hhandler
      · assumption
      · cases hhandler
    have haccepts : c.acceptAll true ops = .ok accepted := by
      cases haccepts : c.acceptAll true ops with
      | error cause =>
        rw [haccepts] at hacc
        cases hacc
      | ok accepted' =>
        rw [haccepts] at hacc
        cases hacc
        rfl
    exact ⟨_, f, _, step, agenda, _, underway_of_after hafter, hpop, hstep, rfl,
      hpasses haccepts hlock (underway_of_after hafter) hpop hstep rfl⟩

end Controller

end ManagedModel
