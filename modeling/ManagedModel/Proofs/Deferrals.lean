import ManagedModel.Proofs.Failure
import ManagedModel.Proofs.LiveAccess
import ManagedModel.Proofs.Termination

/-! # Deferred values

    A value that does not resolve in RUNTIME is deferred: it is parked with
    the fault that it gave, and a check of its property is queued for VERIFY. A
    property may be deferred several times in one transaction, and what is
    parked for it may be dropped in between.

    * A `Deferral` is what one step parked, with the live properties that it met.
      `InFlight.Deferred` lists them along a transaction, read off its queues and
      its attachments.
    * `Alignment.Records` says what the list tells of an alignment: which checks
      wait, what is parked for each property and which faults were captured. It is
      kept by every update (`Records.update`), and so along a transaction outside of
      boot mode up to the end of RUNTIME (`InFlight.Logged`).
    * VERIFY fails with the first check of a property that is parked still, and
      what is parked for it is its latest deferral (`Records.blamed`). -/

namespace ManagedModel

/-! ### Deferrals -/

/-- A value that was parked, and the live properties that it met. -/
structure Deferral where
  name : String
  value : ParkedValue
  live : LiveProperties

namespace Deferral

variable {d e : Deferral} {log : List Deferral}

/-- No later deferral is of the same property. -/
def IsLatest (d : Deferral) (log : List Deferral) : Prop :=
  ∃ before after, log = before ++ d :: after ∧ ∀ e ∈ after, e.name ≠ d.name

theorem isLatest_concat (d : Deferral) (log : List Deferral) : d.IsLatest (log ++ [d]) :=
  ⟨log, [], rfl, fun _ hnone => (nomatch hnone)⟩

theorem IsLatest.concat (h : d.IsLatest log) (hne : e.name ≠ d.name) : d.IsLatest (log ++ [e]) := by
  obtain ⟨before, after, rfl, hafter⟩ := h
  refine ⟨before, after ++ [e], by rw [List.append_assoc, List.cons_append], ?_⟩
  exact List.forall_mem_append.2 ⟨hafter, List.forall_mem_singleton.2 hne⟩

theorem IsLatest.mem (h : d.IsLatest log) : d ∈ log := by
  obtain ⟨before, after, rfl, -⟩ := h
  exact List.mem_append_right _ List.mem_cons_self

end Deferral

namespace Alignment

variable {cfg : PropertyConfig} {booting : Bool} {m : Alignment} {u : PendingUpdate}
  {d : Deferral} {log : List Deferral} {name : String}

/-- What an update parks. -/
def deferral? (m : Alignment) (u : PendingUpdate) : Option Deferral :=
  match u.effect, intendedValue m.live u.model with
  | .apply, .error fault =>
    some { name := u.name, value := { model := u.model, fault }, live := m.live }
  | _, _ => none

/-- A value is parked that has no text against the live properties, with the fault that it gives. -/
theorem deferral?_eq_some (h : m.deferral? u = some d) :
    d.name = u.name ∧ d.live = m.live ∧
      intendedValue d.live d.value.model = .error d.value.fault := by
  unfold deferral? at h
  split at h
  · rename_i fault _ hvalue
    cases h
    exact ⟨rfl, rfl, hvalue⟩
  · cases h

theorem update_of_deferral? (h : m.deferral? u = some d) (cfg : PropertyConfig) (booting : Bool) :
    m.update cfg booting u =
      (m.beginUpdate u.name).defer booting u.name d.value.model d.value.fault := by
  unfold deferral? at h
  split at h
  · rename_i fault heffect hvalue
    cases h
    unfold update
    rw [heffect]
    dsimp only
    rw [hvalue]
  · cases h

/-- An update that parks nothing leaves nothing parked for its property and drops at most what is
    parked for others. -/
theorem parkedAt_update_of_deferral?_eq_none (h : m.deferral? u = none) {v : ParkedValue}
    (hv : (m.update cfg booting u).parkedAt name = some v) : m.parkedAt name = some v := by
  have hJ : KeptWhenApplied fun v? _ => ∀ v, v? = some v → m.parkedAt name = some v :=
    fun _ _ _ _ _ _ _ hnone => (nomatch hnone)
  by_cases hname : name = u.name
  · by_cases heffect : u.effect = .apply
    · subst hname
      refine update_keeps_at_self hJ heffect (fun _ _ hnone => (nomatch hnone)) ?_ v hv
      intro fault hvalue
      unfold deferral? at h
      rw [heffect, hvalue] at h
      cases h
    · rw [← hv, parkedAt_update_of_ne_apply heffect]
  · exact update_keeps_at_of_ne hJ hname (fun _ hv => hv) v hv

/-- An update that reaches the process and parks nothing leaves nothing parked for its property. -/
theorem parkedAt_update_self_eq_none (heffect : u.effect = .apply) (h : m.deferral? u = none) :
    (m.update cfg booting u).parkedAt u.name = none := by
  refine update_keeps_at_self (J := fun v? _ => v? = none) (fun _ _ _ _ _ _ => rfl) heffect
    (fun _ => rfl) ?_
  intro fault hvalue
  unfold deferral? at h
  rw [heffect, hvalue] at h
  cases h

theorem checks_update (cfg : PropertyConfig) (booting : Bool) (m : Alignment) (u : PendingUpdate) :
    (m.update cfg booting u).checks = m.checks ++ (m.deferral? u).toList.map (·.name) := by
  cases hd : m.deferral? u with
  | some d =>
    rw [update_of_deferral? hd]
    show m.checks ++ [u.name] = m.checks ++ [d.name]
    rw [(deferral?_eq_some hd).1]
  | none =>
    refine Eq.trans ?_ (List.append_nil _).symm
    unfold deferral? at hd
    unfold update
    cases heffect : u.effect with
    | apply =>
      cases hvalue : intendedValue m.live u.model with
      | ok value? => exact checks_retry cfg _
      | error fault =>
        rw [heffect, hvalue] at hd
        cases hd
    | reload => rfl
    | none => rfl

/-- Outside of boot mode no strict pass is queued. -/
theorem passQueued_update (cfg : PropertyConfig) (m : Alignment) (u : PendingUpdate) :
    (m.update cfg false u).passQueued = m.passQueued := by
  unfold update
  cases u.effect with
  | apply =>
    cases intendedValue m.live u.model with
    | ok value? =>
      show (((m.beginUpdate u.name).setLive cfg u.name value?).retry cfg).passQueued = _
      rw [passQueued_retry]
      exact passQueued_beginUpdate m u.name
    | error fault =>
      show ((m.beginUpdate u.name).defer false u.name u.model fault).passQueued = _
      rw [passQueued_defer, passQueued_beginUpdate, Bool.or_false]
  | reload => rfl
  | none => rfl

/-- What is parked was parked before or belongs to an update that reaches the process. -/
theorem parked_of_update (h : (m.update cfg booting u).parkedAt name ≠ none) :
    m.parkedAt name ≠ none ∨ name = u.name ∧ u.effect = .apply := by
  by_cases hname : name = u.name
  · by_cases happly : u.effect = .apply
    · exact .inr ⟨hname, happly⟩
    · rw [parkedAt_update_of_ne_apply happly] at h
      exact .inl h
  · exact .inl (update_keeps_at_of_ne (keptWhenApplied_parked (m.parkedAt name ≠ none)) hname id h)

/-- What is not parked is not parked by the deferral of another property. -/
theorem parkedAt_update_eq_none (m : Alignment) (hnone : m.parkedAt name = none)
    (hothers : ∀ d ∈ m.deferral? u, d.name ≠ name) :
    (m.update cfg booting u).parkedAt name = none := by
  cases hd : m.deferral? u with
  | none =>
    cases hv : (m.update cfg booting u).parkedAt name with
    | none => rfl
    | some v => rw [← hnone, parkedAt_update_of_deferral?_eq_none hd hv]
  | some d =>
    have hname : name ≠ u.name := fun hsame =>
      hothers d hd ((deferral?_eq_some hd).1.trans hsame.symm)
    rw [update_of_deferral? hd, parkedAt_defer_of_ne booting hname,
      m.parkedAt_beginUpdate_of_ne hname, hnone]

/-- What the deferrals so far tell of the alignment. -/
structure Records (m : Alignment) (log : List Deferral) : Prop where
  /-- Every deferral has left a check. -/
  checks_eq : m.checks = log.map (·.name)
  /-- What is parked for a property is its latest deferral. -/
  latest : ∀ ⦃name : String⦄ ⦃v : ParkedValue⦄, m.parkedAt name = some v →
    ∃ d : Deferral, d.IsLatest log ∧ d.name = name ∧ d.value = v
  /-- The fault that is parked is the one that the value gave. -/
  captured : ∀ d ∈ log, intendedValue d.live d.value.model = .error d.value.fault

theorem Records.update (h : m.Records log) (cfg : PropertyConfig) (booting : Bool)
    (u : PendingUpdate) :
    (m.update cfg booting u).Records (log ++ (m.deferral? u).toList) := by
  refine ⟨?_, ?_, ?_⟩
  · rw [checks_update, h.checks_eq, List.map_append]
  · intro name v hv
    cases hd : m.deferral? u with
    | none =>
      rw [Option.toList_none, List.append_nil]
      exact h.latest (parkedAt_update_of_deferral?_eq_none hd hv)
    | some d =>
      have hdname := (deferral?_eq_some hd).1
      rw [update_of_deferral? hd] at hv
      by_cases hname : name = u.name
      · rw [hname, parkedAt_defer_self] at hv
        exact ⟨d, d.isLatest_concat log, hdname.trans hname.symm, Option.some.inj hv⟩
      · rw [parkedAt_defer_of_ne booting hname, m.parkedAt_beginUpdate_of_ne hname] at hv
        obtain ⟨e, hlatest, rfl, hvalue⟩ := h.latest hv
        exact ⟨e, hlatest.concat fun hsame => hname (hsame.symm.trans hdname), rfl, hvalue⟩
  · refine List.forall_mem_append.2 ⟨h.captured, fun d hd => ?_⟩
    exact (deferral?_eq_some (Option.mem_toList.1 hd)).2.2

end Alignment

/-- The deferral that a transaction fails for. -/
structure Deferral.IsBlamed (d : Deferral) (log : List Deferral)
    (parkedAt : String → Option ParkedValue) : Prop where
  /-- It is still parked. -/
  parked : parkedAt d.name = some d.value
  /-- Its property has not been deferred since. -/
  latest : d.IsLatest log
  /-- Of the properties that are parked still, its own was the first to be deferred. -/
  earliest : ∃ before first after, log = before ++ first :: after ∧ first.name = d.name ∧
    ∀ e ∈ before, parkedAt e.name = none
  /-- What was captured is why its value had no text against the live properties at the time. -/
  captured : intendedValue d.live d.value.model = .error d.value.fault

namespace Alignment

variable {m : Alignment} {log : List Deferral}

/-- VERIFY fails with the fault of one deferral. -/
theorem Records.blamed (h : m.Records log) {fault : Fault}
    (hverify : m.verify m.checks = .error fault) :
    ∃ d : Deferral, d.IsBlamed log m.parkedAt ∧ fault = d.value.fault := by
  obtain ⟨before, name, after, v, hchecks, hbefore, hv, rfl⟩ := verify_eq_error.1 hverify
  obtain ⟨d, hlatest, rfl, rfl⟩ := h.latest hv
  -- the first check that fails belongs to the first deferral of a property that is parked still
  rw [h.checks_eq] at hchecks
  obtain ⟨logBefore, rest, rfl, rfl, hrest⟩ := List.map_eq_append_iff.1 hchecks
  obtain ⟨first, logAfter, rfl, hfirst, -⟩ := List.map_eq_cons_iff.1 hrest
  refine ⟨d, ⟨hv, hlatest, ⟨logBefore, first, logAfter, rfl, hfirst, fun e he => ?_⟩,
    h.captured d hlatest.mem⟩, rfl⟩
  exact hbefore e.name (List.mem_map_of_mem he)

/-- VERIFY goes through just if nothing is parked. -/
theorem Records.verify_eq_ok (h : m.Records log) :
    m.verify m.checks = .ok () ↔ ∀ name, m.parkedAt name = none := by
  rw [Alignment.verify_eq_ok]
  refine ⟨fun hnone name => ?_, fun hnone name _ => hnone name⟩
  cases hv : m.parkedAt name with
  | none => rfl
  | some v =>
    obtain ⟨d, hlatest, rfl, -⟩ := h.latest hv
    have hchecked : d.name ∈ m.checks := by
      rw [h.checks_eq]
      exact List.mem_map_of_mem hlatest.mem
    rw [← hv, hnone d.name hchecked]

end Alignment

/-! ### Along a transaction -/

namespace InFlight

section

variable {S : Signature}

/-- The stage is under way and none of its steps waits any more. -/
structure Through (stage : Stage) (f : InFlight S) : Prop where
  current_eq : f.transaction.agenda.current = some stage
  empty : f.transaction.agenda.pop? = none

end

variable {X : Signature} {c : Controller X.withProperties} {cfg : PropertyConfig} {k : Nat}
  {f₀ f f' g : InFlight X.withProperties} {log : List Deferral} {d? e? : Option Deferral}

/-- The properties that wait to be checked in VERIFY, in order. -/
def checks (f : InFlight X.withProperties) : List String :=
  f.transaction.agenda.verify.filterMap fun step =>
    match step.handler with
    | .property (.verify name) => some name
    | _ => none

/-- What is deferred on the way from one state to the next: a check is queued and a value is parked
    for its property, if anything is. -/
inductive Defers (f f' : InFlight X.withProperties) : Option Deferral → Prop where
  | nothing (hchecks : f'.checks = f.checks) : Defers f f' none
  | value {d : Deferral} (hchecks : f'.checks = f.checks ++ [d.name])
      (hparked : f'.parkedAt d.name = some d.value)
      (hlive : f.state.environment.live = d.live) : Defers f f' (some d)

theorem Defers.checks_eq (h : Defers f f' d?) :
    f'.checks = f.checks ++ d?.toList.map (·.name) := by
  cases h with
  | nothing hchecks => exact hchecks.trans (List.append_nil _).symm
  | value hchecks => exact hchecks

/-- What is deferred can be told from the two states. -/
theorem Defers.eq (h : Defers f f' d?) (h' : Defers f f' e?) : e? = d? := by
  have hnames := List.append_cancel_left (h'.checks_eq.symm.trans h.checks_eq)
  cases h with
  | nothing =>
    cases h' with
    | nothing => rfl
    | value => cases hnames
  | @value d hchecks hparked hlive =>
    cases h' with
    | nothing => cases hnames
    | @value e hchecks' hparked' hlive' =>
      obtain ⟨name, value, live⟩ := d
      obtain ⟨name', value', live'⟩ := e
      cases hnames
      cases hparked.symm.trans hparked'
      cases hlive.symm.trans hlive'
      rfl

/-- What is deferred along a transaction, in order. -/
inductive Deferred (c : Controller X.withProperties) (f : InFlight X.withProperties) :
    List Deferral → InFlight X.withProperties → Prop where
  | start : Deferred c f [] f
  | next {log : List Deferral} {g g' : InFlight X.withProperties} {d? : Option Deferral}
      (before : Deferred c f log g) (hmove : Move c g g') (hdefers : Defers g g' d?) :
      Deferred c f (log ++ d?.toList) g'

theorem Deferred.underway (h : Deferred c f log g) : Underway c f g := by
  induction h with
  | start => exact .refl
  | next before hmove hdefers ih => exact ih.tail hmove

theorem Deferred.trans {log' : List Deferral} (h : Deferred c f log g) (h' : Deferred c g log' f') :
    Deferred c f (log ++ log') f' := by
  induction h' with
  | start =>
    rw [List.append_nil]
    exact h
  | next before hmove hdefers ih =>
    rw [← List.append_assoc]
    exact ih.next hmove hdefers

/-- The step of an update of the property is executed on the way from one state to the next. -/
def Updates (c : Controller X.withProperties) (name : String) (f f' : InFlight X.withProperties) :
    Prop :=
  ∃ step agenda model effect, f.transaction.agenda.pop? = some (step, agenda) ∧
    step.handler = .property (.update name model effect) ∧
    execute c step (f.onTransaction fun t => { t with agenda }) = (.ok (), f')

/-- There is no way back from VERIFY. -/
theorem Move.current_eq_verify (hsteady : Steady f.transaction) (hmove : Move c f f')
    (h : f.transaction.agenda.current = some .verify) :
    f'.transaction.agenda.current = some .verify := by
  cases hmove with
  | enter hpop hnext =>
    rw [h] at hnext
    cases hnext
  | step hpop hexecute => exact (hsteady.after_step hpop hexecute).2.1.trans h

theorem Underway.current_eq_verify (hsteady : Steady f.transaction) (hf : Underway c f f')
    (h : f.transaction.agenda.current = some .verify) :
    f'.transaction.agenda.current = some .verify := by
  induction hf with
  | refl => exact h
  | tail hg hmove ih => exact hmove.current_eq_verify (hsteady.underway hg) ih

section

variable {σ : Setting X} {m : Alignment} {stage : Stage} {waiting : List (ModelHandler X.Handler)}

theorem At.checks_eq (h : f.At σ stage waiting m) : f.checks = m.checks := by
  have hhandlers := congrArg (List.filterMap fun handler : ModelHandler X.Handler =>
    match handler with
    | .property (.verify name) => some name
    | _ => none) h.verify_eq
  rw [List.filterMap_map, List.filterMap_map] at hhandlers
  refine Eq.trans ?_ (hhandlers.trans ?_)
  · rfl
  · exact List.filterMap_some

/-- An update defers its value where the alignment parks it. -/
theorem At.defers_update {waiting' : List (ModelHandler X.Handler)} {u : PendingUpdate}
    (h : f.At σ stage waiting m) (h' : f'.At σ stage waiting' (m.update σ.cfg σ.booting u)) :
    Defers f f' (m.deferral? u) := by
  have hchecks : f'.checks = f.checks ++ (m.deferral? u).toList.map (·.name) := by
    rw [h'.checks_eq, h.checks_eq, Alignment.checks_update]
  cases hd : m.deferral? u with
  | none =>
    rw [hd, Option.toList_none, List.map_nil, List.append_nil] at hchecks
    exact .nothing hchecks
  | some d =>
    rw [hd] at hchecks
    obtain ⟨hname, hlive, -⟩ := Alignment.deferral?_eq_some hd
    refine .value hchecks ?_ (h.live_eq.trans hlive.symm)
    rw [h'.parkedAt_eq, Alignment.update_of_deferral? hd, hname, Alignment.parkedAt_defer_self]

end

/-- Where a transaction of `k` operations stands outside of boot mode, from MODEL on up to the end
    of RUNTIME, given what it has deferred. Only properties that updates may change are parked. -/
inductive Logged (c : Controller X.withProperties) (cfg : PropertyConfig) (k : Nat)
    (log : List Deferral) (f : InFlight X.withProperties) : Prop where
  | model {σ : Setting X} {m : Alignment} {d : Draft}
      {tasks : List (Operation × ModelHandler X.Handler)} (hcfg : σ.cfg = cfg)
      (hmode : σ.booting = false) (hin : f.InModel σ m d tasks)
      (hbuilt : ∀ t ∈ tasks, t.2.IsBuiltIn) (hqueued : m.passQueued = false)
      (hrecords : m.Records log)
      (heffects : ∀ u ∈ d.updates, u.effect = c.effect cfg false u.name)
      (hparked : ∀ ⦃name : String⦄, m.parkedAt name ≠ none → c.effect cfg false name = .apply)
      (hbound : log.length + (d.updates.length + tasks.length) ≤ k) : Logged c cfg k log f
  | runtime {σ : Setting X} {m : Alignment} {us : List PendingUpdate} (hcfg : σ.cfg = cfg)
      (hmode : σ.booting = false)
      (hat : f.At σ .runtime (us.map PendingUpdate.handler ++ m.passSteps) m)
      (hqueued : m.passQueued = false) (hrecords : m.Records log)
      (heffects : ∀ u ∈ us, u.effect = c.effect cfg false u.name)
      (hparked : ∀ ⦃name : String⦄, m.parkedAt name ≠ none → c.effect cfg false name = .apply)
      (hbound : log.length + us.length ≤ k) : Logged c cfg k log f

/-- What a move does to what is parked: it defers a value, and drops others at most. -/
structure Parks (f f' : InFlight X.withProperties) (d? : Option Deferral) : Prop where
  defers : Defers f f' d?
  /-- Nothing else is parked that was not. -/
  unparked : ∀ ⦃name : String⦄, f.parkedAt name = none → (∀ d ∈ d?, d.name ≠ name) →
    f'.parkedAt name = none

/-- A move keeps the list of what was deferred, or it begins VERIFY. -/
theorem Logged.move (hc : c.RunsModel cfg) (h : Logged c cfg k log f) (hmove : Move c f f') :
    (f.Through .runtime ∧ f' = f.entered .verify) ∨
      ∃ d?, Parks f f' d? ∧ Logged c cfg k (log ++ d?.toList) f' := by
  cases h with
  | @model σ m d tasks hcfg hmode hin hbuilt hqueued hrecords heffects hparked hbound =>
    subst hcfg
    -- nothing is aligned in MODEL
    right
    refine ⟨none, ?_⟩
    rw [Option.toList_none, List.append_nil]
    cases hmove with
    | enter hpop hnext =>
      exact ⟨⟨.nothing rfl, fun _ hnone _ => hnone⟩,
        .runtime (show (σ.drafted d tasks.length).cfg = σ.cfg from rfl) hmode
          (hin.runtime_of_enter hqueued hnext) hqueued hrecords heffects hparked (by omega)⟩
    | step hpop hexecute =>
      obtain ⟨task, rest, d', rfl, hdraft, hin'⟩ := hin.move hpop hc hbuilt hexecute
      have hdrafted := Draft.length_updates_step hdraft
      obtain ⟨added, hadded, heffect, -⟩ := Draft.updates_of_step hdraft
      have heffects' : ∀ u ∈ d'.updates, u.effect = c.effect σ.cfg false u.name := by
        rw [hmode] at heffect
        rw [hadded]
        exact List.forall_mem_append.2 ⟨heffects, heffect⟩
      rw [List.length_cons] at hbound
      refine ⟨⟨.nothing ?_, fun name hnone _ => ?_⟩, .model rfl hmode hin'
        (List.forall_mem_cons.1 hbuilt).2 hqueued hrecords heffects' hparked (by omega)⟩
      · rw [hin'.at_model.checks_eq, hin.at_model.checks_eq]
      · rw [hin'.at_model.parkedAt_eq, ← hin.at_model.parkedAt_eq]
        exact hnone
  | @runtime σ m us hcfg hmode hat hqueued hrecords heffects hparked hbound =>
    subst hcfg
    cases hmove with
    | enter hpop hnext =>
      left
      rw [hat.current_eq] at hnext
      cases hnext
      exact ⟨⟨hat.current_eq, hpop⟩, rfl⟩
    | step hpop hexecute =>
      right
      rcases hat.runtime_move hpop hc hexecute with ⟨u, rest, rfl, -, hat'⟩ | ⟨hpass, -⟩
      · refine ⟨m.deferral? u, ⟨hat.defers_update hat', fun name hnone hothers => ?_⟩, ?_⟩
        · rw [hat.parkedAt_eq] at hnone
          rw [hat'.parkedAt_eq]
          exact m.parkedAt_update_eq_none hnone hothers
        · have hqueued' : (m.update σ.cfg σ.booting u).passQueued = false := by
            rw [hmode, Alignment.passQueued_update, hqueued]
          have hone : (m.deferral? u).toList.length ≤ 1 := Option.length_toList_le
          obtain ⟨heffect, hrest⟩ := List.forall_mem_cons.1 heffects
          rw [List.length_cons] at hbound
          refine .runtime rfl hmode hat' hqueued' (hrecords.update σ.cfg σ.booting u) hrest
            (fun name hname => ?_) (by rw [List.length_append]; omega)
          rcases Alignment.parked_of_update hname with hbefore | ⟨rfl, happly⟩
          · exact hparked hbefore
          · exact heffect.symm.trans happly
      · rw [hqueued] at hpass
        cases hpass

/-- An update of a property either defers its value or leaves nothing parked for the property. -/
theorem Logged.unparked_of_update (hc : c.RunsModel cfg) (h : Logged c cfg k log f) {name : String}
    (hupdates : Updates c name f f') (hdefers : Defers f f' none) : f'.parkedAt name = none := by
  obtain ⟨step, agenda, model, effect, hpop, hhandler, hexecute⟩ := hupdates
  cases h with
  | @model σ m d tasks hcfg hmode hin hbuilt hqueued hrecords heffects hparked hbound =>
    -- an update is no operation
    have hbuiltIn := hin.isBuiltIn_of_pop hpop hbuilt
    rw [hhandler] at hbuiltIn
    exact absurd hbuiltIn id
  | @runtime σ m us hcfg hmode hat hqueued hrecords heffects hparked hbound =>
    subst hcfg
    rcases hat.runtime_move hpop hc hexecute with ⟨u, rest, rfl, hupdate, hat'⟩ | ⟨hpass, -⟩
    · cases hhandler.symm.trans hupdate
      have hnone : m.deferral? u = none := hdefers.eq (hat.defers_update hat')
      rw [hat'.parkedAt_eq]
      by_cases happly : u.effect = .apply
      · exact Alignment.parkedAt_update_self_eq_none happly hnone
      · rw [Alignment.parkedAt_update_of_ne_apply happly]
        have heffect := heffects u List.mem_cons_self
        exact Classical.byContradiction fun hname => happly (heffect.trans (hparked hname))
    · rw [hqueued] at hpass
      cases hpass

theorem Logged.current_ne_verify (h : Logged c cfg k log f) :
    f.transaction.agenda.current ≠ some .verify := by
  cases h with
  | model hcfg hmode hin hbuilt hqueued hrecords heffects hparked hbound =>
    rw [hin.at_model.current_eq]
    exact nofun
  | runtime hcfg hmode hat hqueued hrecords heffects hparked hbound =>
    rw [hat.current_eq]
    exact nofun

/-- Outside of MODEL no step fails up to the end of RUNTIME. -/
theorem Logged.current_of_failsTo (hc : c.RunsModel cfg) (h : Logged c cfg k log f) {cause : Fault}
    (hfails : FailsTo c f cause f') : f.transaction.agenda.current = some .model := by
  cases h with
  | model hcfg hmode hin hbuilt hqueued hrecords heffects hparked hbound =>
    exact hin.at_model.current_eq
  | @runtime σ m us hcfg hmode hat hqueued hrecords heffects hparked hbound =>
    subst hcfg
    obtain ⟨step, agenda, hpop, hexecute⟩ := hfails
    cases us with
    | nil =>
      obtain ⟨hpass, -⟩ := At.pop_pass hpop hat
      rw [hqueued] at hpass
      cases hpass
    | cons u rest =>
      -- an update parks its value rather than fail
      obtain ⟨-, f₁, hexecute', -⟩ := hat.performs_update hpop hc
      cases hexecute.symm.trans hexecute'

/-- At the end of RUNTIME the list tells what waits for VERIFY. -/
theorem Logged.at_of_through (h : Logged c cfg k log f) (hthrough : f.Through .runtime) :
    ∃ σ m, σ.cfg = cfg ∧ f.At σ .runtime [] m ∧ m.Records log ∧ log.length ≤ k := by
  cases h with
  | model hcfg hmode hin hbuilt hqueued hrecords heffects hparked hbound =>
    cases hin.at_model.current_eq.symm.trans hthrough.current_eq
  | @runtime σ m us hcfg hmode hat hqueued hrecords heffects hparked hbound =>
    cases us with
    | nil =>
      rw [Alignment.passSteps_of_not_queued hqueued] at hat
      exact ⟨σ, m, hcfg, hat, hrecords, hbound⟩
    | cons u rest =>
      rw [List.map_cons, List.cons_append] at hat
      obtain ⟨step, agenda, hpop, -⟩ := hat.pop_runtime
      rw [hthrough.empty] at hpop
      cases hpop

/-- VERIFY goes through where nothing is parked, and else fails for one of the deferrals. -/
theorem At.verified {σ : Setting X} {m : Alignment} (hc : c.RunsModel σ.cfg)
    (hsteady : Steady f.transaction) (h : f.At σ .verify [] m) (hrecords : m.Records log) :
    ∃ g, Underway c f g ∧
      (AtEnd g ∧ (∀ name, m.parkedAt name = none) ∨
        ∃ d : Deferral, d.IsBlamed log m.parkedAt ∧ ∃ g', FailsTo c g d.value.fault g') := by
  have hgoes := drain_goes (c := c) hsteady m.checks.length
  rcases drain_verify hc h m.checks.length with ⟨hlimit, -⟩ | ⟨f', hdrain, -⟩
  · exact absurd hlimit (Nat.lt_irrefl _)
  · rw [hdrain] at hgoes
    cases hverify : m.verify m.checks with
    | ok u =>
      rw [hverify] at hgoes
      cases hgoes with
      | ended hf' hdone =>
        have hcurrent : f'.transaction.agenda.current = some .verify := hdone.2.trans h.current_eq
        refine ⟨f', hf', .inl ⟨⟨hdone.1, ?_⟩, hrecords.verify_eq_ok.1 hverify⟩⟩
        rw [hcurrent]
        rfl
    | error fault =>
      rw [hverify] at hgoes
      cases hgoes with
      | @failed g f' _ hg hfails =>
        obtain ⟨d, hblamed, rfl⟩ := hrecords.blamed hverify
        exact ⟨g, hg, .inr ⟨d, hblamed, f', hfails⟩⟩

end InFlight

/-! ### Submissions -/

namespace Controller

open InFlight

variable {X : Signature} {c : Controller X.withProperties} {cfg : PropertyConfig}
  {sub : Submission} {s : ControllerState X.withProperties}
  {accepted : List (Operation × RegisteredOperation (ModelHandler X.Handler))}
  {f₀ f g : InFlight X.withProperties} {log : List Deferral}

section

variable (hops : ∀ op ∈ sub.operations, c.IsBuiltIn op)
  (hmode : sub.inBootMode s.booting = false) (hbegins : Begins c sub s accepted f₀)

include hops hmode hbegins

/-- A transaction begins with MODEL and has deferred nothing then. -/
theorem Begins.logged_of_move (cfg : PropertyConfig) (hmove : Move c f₀ f) :
    Parks f₀ f none ∧ Logged c cfg sub.operations.length [] f := by
  obtain ⟨-, hcurrent⟩ := hbegins.steady
  have hlength := (length_tasksOf accepted).trans hbegins.length_eq
  have hbuilt := isBuiltIn_tasksOf (isBuiltIn_of_acceptAll hops hbegins.accepted_eq)
  obtain ⟨lock, locked, -, rfl⟩ := hbegins.locked
  obtain rfl := hmove.eq_of_not_begun hcurrent
  refine ⟨⟨.nothing rfl, fun _ hnone _ => hnone⟩, ?_⟩
  refine .model (by rfl) hmode (inModel_begin cfg _ _ accepted locked).2 hbuilt rfl ?_
    (fun _ hnone => (nomatch hnone)) (fun _ hnone => absurd rfl hnone) ?_
  · exact ⟨rfl, fun _ _ hnone => (nomatch hnone), fun _ hnone => (nomatch hnone)⟩
  · exact Nat.le_of_eq ((Nat.zero_add _).trans ((Nat.zero_add _).trans hlength))

variable (hc : c.RunsModel cfg)

include hc

/-- A list of deferrals tells of the state that it leads to, unless VERIFY has begun. -/
theorem Begins.logged (h : Deferred c f₀ log f) :
    (f = f₀ ∧ log = []) ∨ Logged c cfg sub.operations.length log f ∨
      f.transaction.agenda.current = some .verify := by
  induction h with
  | start => exact .inl ⟨rfl, rfl⟩
  | next before hmove hdefers ih =>
    right
    rcases ih with ⟨rfl, rfl⟩ | hlogged | hverify
    · obtain ⟨hparks, hfirst⟩ := hbegins.logged_of_move hops hmode cfg hmove
      cases hparks.defers.eq hdefers
      exact .inl hfirst
    · rcases hlogged.move hc hmove with ⟨-, rfl⟩ | ⟨d?, hparks, hlogged'⟩
      · exact .inr rfl
      · cases hparks.defers.eq hdefers
        exact .inl hlogged'
    · exact .inr (hmove.current_eq_verify (hbegins.steady.1.underway before.underway) hverify)

/-- Every state passed through up to the end of RUNTIME has such a list. -/
theorem Begins.exists_deferred (hf : Underway c f₀ g) :
    g = f₀ ∨ (∃ log, Deferred c f₀ log g ∧ Logged c cfg sub.operations.length log g) ∨
      g.transaction.agenda.current = some .verify ∧
        ∃ f log, Deferred c f₀ log f ∧ f.Through .runtime := by
  induction hf with
  | refl => exact .inl rfl
  | tail hg hmove ih =>
    right
    rcases ih with rfl | ⟨log, hdeferred, hlogged⟩ | ⟨hverify, hthrough⟩
    · obtain ⟨hparks, hfirst⟩ := hbegins.logged_of_move hops hmode cfg hmove
      exact .inl ⟨_, .next .start hmove hparks.defers, hfirst⟩
    · rcases hlogged.move hc hmove with ⟨hthrough, rfl⟩ | ⟨d?, hparks, hlogged'⟩
      · exact .inr ⟨rfl, _, log, hdeferred, hthrough⟩
      · exact .inl ⟨_, hdeferred.next hmove hparks.defers, hlogged'⟩
    · exact .inr ⟨hmove.current_eq_verify (hbegins.steady.1.underway hg) hverify, hthrough⟩

/-- A transaction of which no step of MODEL fails comes to the end of RUNTIME. -/
theorem Begins.exists_through (hlimit : sub.operations.length < c.stepLimit)
    (hmodel : ∀ {f f' : InFlight X.withProperties} {cause : Fault}, Underway c f₀ f →
      f.transaction.agenda.current = some .model → ¬ FailsTo c f cause f') :
    ∃ f log, Deferred c f₀ log f ∧ f.Through .runtime := by
  obtain ⟨hsteady, hcurrent⟩ := hbegins.steady
  obtain ⟨ended, hended⟩ := hbegins.exists_ended hc hops hlimit
  have hconcludes := concludes (c := c) hsteady hcurrent
  rw [hended] at hconcludes
  -- it commits in VERIFY, or it fails, and not before VERIFY
  cases hconcludes with
  | @committed g hg hend =>
    rcases hbegins.exists_deferred hops hmode hc hg with
      rfl | ⟨log, -, hlogged⟩ | ⟨-, hthrough⟩
    · cases hcurrent.symm.trans hend.current_eq
    · exact absurd hend.current_eq hlogged.current_ne_verify
    · exact hthrough
  | @aborted g g' cause hg hfails =>
    rcases hbegins.exists_deferred hops hmode hc hg with
      rfl | ⟨log, -, hlogged⟩ | ⟨-, hthrough⟩
    · obtain ⟨step, agenda, hpop, -⟩ := hfails
      rw [Agenda.pop?_of_not_begun hcurrent] at hpop
      cases hpop
    · exact absurd hfails (hmodel hg (hlogged.current_of_failsTo hc hfails))
    · exact hthrough

/-- What an update does not defer it leaves unparked. -/
theorem Begins.unparked_of_update {g' : InFlight X.withProperties} {name : String}
    (hg : Underway c f₀ g) (hupdates : Updates c name g g') (hg' : Underway c g' f)
    (hverify : f.transaction.agenda.current ≠ some .verify) (hdefers : Defers g g' none) :
    g'.parkedAt name = none := by
  obtain ⟨hsteady, hcurrent⟩ := hbegins.steady
  have hmove : Move c g g' := by
    obtain ⟨step, agenda, model, effect, hpop, -, hexecute⟩ := hupdates
    exact .step hpop hexecute
  rcases hbegins.exists_deferred hops hmode hc hg with
    rfl | ⟨before, -, hlogged⟩ | ⟨hcurrent', -⟩
  · obtain ⟨step, agenda, model, effect, hpop, -⟩ := hupdates
    rw [Agenda.pop?_of_not_begun hcurrent] at hpop
    cases hpop
  · exact hlogged.unparked_of_update hc hupdates hdefers
  · have hg₁ := hsteady.underway (hg.tail hmove)
    exact absurd (Underway.current_eq_verify hg₁ hg'
      (hmove.current_eq_verify (hsteady.underway hg) hcurrent')) hverify

/-- A property stays unparked until it is deferred. -/
theorem Begins.unparked {before after : List Deferral} {name : String}
    (hbefore : Deferred c f₀ before g) (hafter : Deferred c g after f)
    (hcurrent : f.transaction.agenda.current ≠ some .verify) (hnone : g.parkedAt name = none)
    (hothers : ∀ d ∈ after, d.name ≠ name) : f.parkedAt name = none := by
  induction hafter with
  | start => exact hnone
  | @next log g₁ g₂ d? hlog hmove hdefers ih =>
    have hdeferred := hbefore.trans hlog
    have hsteady := hbegins.steady.1.underway hdeferred.underway
    obtain ⟨hothers, hlast⟩ := List.forall_mem_append.1 hothers
    have hlast : ∀ d ∈ d?, d.name ≠ name := fun d hd => hlast d (Option.mem_toList.2 hd)
    have hnone₁ := ih (fun hverify => hcurrent (hmove.current_eq_verify hsteady hverify)) hothers
    rcases hbegins.logged hops hmode hc hdeferred with ⟨rfl, -⟩ | hlogged | hverify
    · obtain ⟨hparks, -⟩ := hbegins.logged_of_move hops hmode cfg hmove
      cases hparks.defers.eq hdefers
      exact hparks.unparked hnone₁ hlast
    · rcases hlogged.move hc hmove with ⟨-, rfl⟩ | ⟨e?, hparks, -⟩
      · exact absurd rfl hcurrent
      · cases hparks.defers.eq hdefers
        exact hparks.unparked hnone₁ hlast
    · exact absurd (hmove.current_eq_verify hsteady hverify) hcurrent

/-- The answer, given where RUNTIME has ended. -/
theorem Begins.answer_of_through (hlimit : sub.operations.length < c.stepLimit)
    (hdeferred : Deferred c f₀ log f) (hthrough : f.Through .runtime) :
    ∃ outcome s', c.perform sub s = .ok (outcome, s') ∧
      ((∃ response, outcome = .ok response) ∧ (∀ name, f.parkedAt name = none) ∨
        ∃ (failure : Failure) (d : Deferral), outcome = .error failure ∧
          d.IsBlamed log f.parkedAt ∧ failure.cause = d.value.fault) := by
  obtain ⟨hsteady, hcurrent⟩ := hbegins.steady
  rcases hbegins.logged hops hmode hc hdeferred with ⟨rfl, -⟩ | hlogged | hverify
  · cases hcurrent.symm.trans hthrough.current_eq
  · obtain ⟨σ, m, rfl, hat, hrecords, hbound⟩ := hlogged.at_of_through hthrough
    rw [funext hat.parkedAt_eq]
    by_cases hempty : sub.operations = []
    · -- without operations nothing is deferred
      rw [hempty, List.length_nil, Nat.le_zero, List.length_eq_zero_iff] at hbound
      obtain ⟨response, s', hperform⟩ := perform_of_empty (c := c) (s := s) hempty
      refine ⟨_, s', hperform, .inl ⟨⟨response, rfl⟩, hrecords.verify_eq_ok.1 ?_⟩⟩
      rw [hrecords.checks_eq, hbound]
      rfl
    · have hmove : Move c f (f.entered .verify) := .enter hthrough.empty (by
        rw [hthrough.current_eq]
        rfl)
      have hunderway := hdeferred.underway.tail hmove
      obtain ⟨g, hg, hend⟩ := (hat.entered .verify rfl).2.verified hc (hsteady.underway hunderway)
        hrecords
      have hg := hunderway.trans hg
      obtain ⟨ended, hended⟩ := hbegins.exists_ended hc hops hlimit
      obtain ⟨outcome, s', hperform, hreports⟩ := hbegins.perform hempty hended
      refine ⟨outcome, s', hperform, ?_⟩
      -- the transaction ends where its steps of VERIFY have led
      have hconcludes := concludes (c := c) hsteady hcurrent
      rw [hended] at hconcludes
      cases hconcludes with
      | @committed f' hf' hend' =>
        rcases hend with ⟨-, hnone⟩ | ⟨d, -, g', hfails⟩
        · cases outcome with
          | ok response => exact .inl ⟨⟨response, rfl⟩, hnone⟩
          | error failure => cases hreports.error_iff.1 rfl
        · exact absurd hend' (hfails.not_atEnd hg hf')
      | @aborted f' f'' cause hf' hfails' =>
        rcases hend with ⟨hend, -⟩ | ⟨d, hblamed, g', hfails⟩
        · exact absurd hend (hfails'.not_atEnd hf' hg)
        · obtain ⟨rfl, rfl⟩ := hfails.eq hg hf' hfails'
          exact .inr ⟨_, d, hreports.error_iff.2 rfl, hblamed,
            (hfails.abort_history (hsteady.underway hg)).1⟩
  · cases hthrough.current_eq.symm.trans hverify

end

/-- An unresolved value makes its transaction fail with the fault that was captured when it was
    deferred. Outside of boot mode, a transaction of built-in operations of which no step of MODEL
    fails comes to the end of RUNTIME, and from there on it fails just if a property is parked
    still. The cause is then the fault of a deferral: the latest one of the property that, of those
    parked still, was the first to be deferred. It is the fault that the value gave against the live
    properties of that time. What an update does not defer it leaves unparked, and so it stays up to
    the end of RUNTIME, unless it is deferred later on. -/
theorem deferral_reported (hc : c.RunsModel cfg) (hops : ∀ op ∈ sub.operations, c.IsBuiltIn op)
    (hmode : sub.inBootMode s.booting = false) (hlimit : sub.operations.length < c.stepLimit)
    (hbegins : Begins c sub s accepted f₀)
    (hmodel : ∀ {f f' : InFlight X.withProperties} {cause : Fault}, Underway c f₀ f →
      f.transaction.agenda.current = some .model → ¬ FailsTo c f cause f') :
    (∃ f log, Deferred c f₀ log f ∧ f.Through .runtime) ∧
    ∀ {f : InFlight X.withProperties} {log : List Deferral}, Deferred c f₀ log f →
      f.Through .runtime →
        (∃ outcome s', c.perform sub s = .ok (outcome, s') ∧
          ((∃ failure, outcome = .error failure) ↔ ∃ name, f.parkedAt name ≠ none) ∧
          ∀ {failure : Failure}, outcome = .error failure →
            ∃ d : Deferral, d.IsBlamed log f.parkedAt ∧ failure.cause = d.value.fault ∧
              failure.kind = .resolution) ∧
        (∀ {g g' : InFlight X.withProperties} {name : String}, Underway c f₀ g →
          Updates c name g g' → Underway c g' f → Defers g g' none → g'.parkedAt name = none) ∧
        ∀ {g : InFlight X.withProperties} {before after : List Deferral} {name : String},
          Deferred c f₀ before g → Deferred c g after f → g.parkedAt name = none →
            (∀ d ∈ after, d.name ≠ name) → f.parkedAt name = none := by
  refine ⟨hbegins.exists_through hops hmode hc hlimit hmodel, ?_⟩
  intro f log hdeferred hthrough
  have hverify : f.transaction.agenda.current ≠ some .verify := by
    rw [hthrough.current_eq]
    exact nofun
  refine ⟨?_, ?_, ?_⟩
  · obtain ⟨outcome, s', hperform, hanswer⟩ :=
      hbegins.answer_of_through hops hmode hc hlimit hdeferred hthrough
    rcases hanswer with ⟨⟨response, rfl⟩, hnone⟩ | ⟨failure, d, rfl, hblamed, hcause⟩
    · refine ⟨_, s', hperform, iff_of_false nofun ?_, nofun⟩
      rintro ⟨name, hname⟩
      exact hname (hnone name)
    · have hparked : f.parkedAt d.name ≠ none := by
        rw [hblamed.parked]
        exact Option.some_ne_none _
      refine ⟨_, s', hperform, iff_of_true ⟨failure, rfl⟩ ⟨d.name, hparked⟩, ?_⟩
      rintro _ ⟨⟩
      refine ⟨d, hblamed, hcause, ?_⟩
      unfold Failure.kind
      rw [hcause]
      exact kind_of_intendedValue_eq_error hblamed.captured
  · exact fun hg hupdates hg' hdefers =>
      hbegins.unparked_of_update hops hmode hc hg hupdates hg' hverify hdefers
  · exact fun hbefore hafter hnone hothers =>
      hbegins.unparked hops hmode hc hbefore hafter hverify hnone hothers

/-- A property is deferred, then another one, and then the first with another reference; a property
    that resolves the second is added last. The first is parked still, and the fault reported is
    that of its later value. -/
theorem deferral_reported_rewritten :
    ∃ accepted f₀ f log failure s', ∃ d : Deferral,
      Begins (bare { updater? := some {} } 5) (.executeAll
        [Property.addRequest "p" (some "$\x7bx\x7d") none,
          Property.addRequest "q" (some "$\x7by\x7d") none,
          Property.writeRequest "p" (some "$\x7bz\x7d"),
          Property.addRequest "y" (some "v") none]) .bare accepted f₀ ∧
      Deferred (bare { updater? := some {} } 5) f₀ log f ∧ f.Through .runtime ∧
      (bare { updater? := some {} } 5).perform (.executeAll
        [Property.addRequest "p" (some "$\x7bx\x7d") none,
          Property.addRequest "q" (some "$\x7by\x7d") none,
          Property.writeRequest "p" (some "$\x7bz\x7d"),
          Property.addRequest "y" (some "v") none]) .bare = .ok (.error failure, s') ∧
      failure.cause = .resolution "$\x7bz\x7d" (.noSuchProperty ["z"]) ∧
      d.IsBlamed log f.parkedAt ∧ failure.cause = d.value.fault := by
  let c : Controller Signature.bare.withProperties := bare { updater? := some {} } 5
  let sub : Submission := .executeAll
    [Property.addRequest "p" (some "$\x7bx\x7d") none,
      Property.addRequest "q" (some "$\x7by\x7d") none,
      Property.writeRequest "p" (some "$\x7bz\x7d"),
      Property.addRequest "y" (some "v") none]
  have hrun : c.begins sub .bare (fun f₀ => (after? c 11 f₀).any fun g =>
      g.transaction.agenda.current == some .verify && (next? c g).isNone) = true := by
    decide +kernel
  obtain ⟨accepted, f₀, hbegins, htest⟩ := exists_begins hrun
  obtain ⟨g, hafter, hstops⟩ := (Option.any_eq_true _ _).1 htest
  obtain ⟨hverify, hnext⟩ := Bool.and_eq_true_iff.1 hstops
  have hstops : ∀ h, ¬ Move c g h := by
    intro h hmove
    rw [move_iff.1 hmove] at hnext
    cases hnext
  -- the transaction stops in VERIFY, so that it has not failed in MODEL
  have hmodel : ∀ {f f' : InFlight Signature.bare.withProperties} {cause : Fault},
      Underway c f₀ f → f.transaction.agenda.current = some .model → ¬ FailsTo c f cause f' := by
    intro f f' cause hf hcurrent hfails
    obtain rfl := hf.eq_of_stops (fun _ => hfails.not_move) (underway_of_after hafter) hstops
    rw [hcurrent] at hverify
    cases hverify
  obtain ⟨⟨f, log, hdeferred, hthrough⟩, hreported⟩ :=
    deferral_reported (runsModel_bare { updater? := some {} } 5)
      (fun op _ => isBuiltIn_bare { updater? := some {} } 5 op) rfl (by decide) hbegins hmodel
  obtain ⟨⟨outcome, s', hperform, -, hcause⟩, -, -⟩ := hreported hdeferred hthrough
  have hanswer : c.answers sub .bare (fun outcome _ => match outcome with
      | .error failure =>
        decide (failure.cause = .resolution "$\x7bz\x7d" (.noSuchProperty ["z"]))
      | .ok _ => false) = true := by
    decide +kernel
  obtain ⟨outcome', s'', hperform', hfault⟩ := exists_of_answers hanswer
  cases hperform.symm.trans hperform'
  cases outcome with
  | ok response => cases hfault
  | error failure =>
    obtain ⟨d, hblamed, hreraised, -⟩ := hcause rfl
    exact ⟨accepted, f₀, f, log, failure, s', d, hbegins, hdeferred, hthrough, hperform,
      of_decide_eq_true hfault, hblamed, hreraised⟩

end Controller

end ManagedModel
