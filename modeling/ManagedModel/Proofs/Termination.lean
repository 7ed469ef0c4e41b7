import ManagedModel.Proofs.BootPath
import ManagedModel.Proofs.Grants

/-! # Termination of transactions

    The loop that drains a stage has no bound of its own, as a step may queue
    further ones. Built-in operations queue few: an operation leaves one update
    at most, an update leaves one check, and the strict pass is queued once.

    * `Transaction.executed` counts the steps of a stage, and `Stage.bound` is
      what a transaction of so many operations may have of them.
    * `Counted` is the invariant: what was executed and what waits together keep
      to the bounds. `Counted.within_of_failsTo` covers the step that fails.
    * `exists_stop` turns a bound on the steps into an end, whatever the limit on
      steps is, and `interrupted` says that the limit interrupts a transaction
      only if some stage has reached it.
    * `retryWithin` is the retry of parked values with a bound on its rounds. -/

namespace ManagedModel

/-! ### Rounds of a retry -/

namespace ParkedValues

/-- `retry` in so many rounds at most, the last one being the round that applies nothing. -/
def retryWithin (cfg : PropertyConfig) :
    Nat → ParkedValues → LiveProperties → Option (Nat × ParkedValues × LiveProperties)
  | 0, _, _ => none
  | rounds + 1, p, live =>
    match p.resolvable live with
    | [] => some (0, p, live)
    | r :: rs =>
      let next := applyAll cfg (r :: rs) p live
      (retryWithin cfg rounds next.1 next.2).map fun (count, p', live') =>
        (rs.length + 1 + count, p', live')

/-- A round that applies something leaves fewer values parked, so one round more than there are
    parked values is enough. -/
theorem retryWithin_eq (cfg : PropertyConfig) {rounds : Nat} {p : ParkedValues}
    {live : LiveProperties} (h : p.size < rounds) :
    p.retryWithin cfg rounds live = some (p.retry cfg live) := by
  induction rounds generalizing p live with
  | zero => omega
  | succ rounds ih =>
    unfold retryWithin retry
    split
    · rename_i hnone
      split
      · rfl
      · rename_i hsome
        cases hnone.symm.trans hsome
    · rename_i r rs hsome
      split
      · rename_i hnone
        cases hsome.symm.trans hnone
      · rename_i r' rs' hsome'
        obtain ⟨rfl, rfl⟩ := List.cons.inj (hsome.symm.trans hsome')
        have hlt := size_applyAll_lt cfg hsome
        dsimp only
        rw [ih (by omega)]
        rfl

end ParkedValues

/-! ### Counting steps -/

/-- How many steps of a stage a transaction of `k` operations may execute. -/
def Stage.bound (k : Nat) : Stage → Nat
  | model => k
  | runtime => k + 1
  | verify => k

namespace Transaction

variable {S : Signature} {t u : Transaction S}

/-- The number of steps of a stage that were executed, the one that failed included. -/
def executed (t : Transaction S) (stage : Stage) : Nat :=
  t.started.countP fun s => s.2 = stage

/-- No stage has more steps than a transaction of `k` operations may execute. -/
def Within (k : Nat) (t : Transaction S) : Prop := ∀ stage, t.executed stage ≤ stage.bound k

theorem executed_of_started {ticket : Nat} {stage : Stage}
    (h : u.started = t.started ++ [(ticket, stage)]) (other : Stage) :
    u.executed other = t.executed other + if stage = other then 1 else 0 := by
  unfold executed
  rw [h, List.countP_append, List.countP_singleton]
  simp

theorem length_started (t : Transaction S) :
    t.started.length = t.executed .model + t.executed .runtime + t.executed .verify := by
  unfold executed
  induction t.started with
  | nil => rfl
  | cons s started ih =>
    rw [List.length_cons, ih]
    obtain ⟨ticket, stage⟩ := s
    cases stage <;> simp <;> omega

end Transaction

/-! ### Transactions that end -/

namespace InFlight

section

variable {S : Signature} {c : Controller S} {f₀ f f' : InFlight S} {stage : Stage}

/-- A step counts for its stage, whether it fails the transaction or not. -/
theorem Steady.executed_of_execute (h : Steady f.transaction) {step : Step S}
    {agenda : Agenda (Step S)} (hcurrent : f.transaction.agenda.current = some stage)
    {r : Except Fault Unit}
    (hexecute : execute c step (f.onTransaction fun t => { t with agenda }) = (r, f')) :
    f'.transaction.executed stage = f.transaction.executed stage + 1 ∧
      ∀ other, stage ≠ other → f'.transaction.executed other = f.transaction.executed other := by
  obtain ⟨outcome, g, -, hrunning, -, rfl⟩ := h.of_execute hexecute
  have hstarted := (started_ended g step outcome).trans hrunning.started_eq
  rw [h.stage_eq hcurrent] at hstarted
  have hcount := Transaction.executed_of_started hstarted
  exact ⟨(hcount stage).trans (by rw [if_pos rfl]), fun other hne =>
    (hcount other).trans (by rw [if_neg hne, Nat.add_zero])⟩

theorem executed_entered (f : InFlight S) (stage other : Stage) :
    (f.entered stage).transaction.executed other = f.transaction.executed other := by
  unfold Transaction.executed
  rw [Transaction.started_of_history (f.history_entered stage)]
  exact congrArg _ (List.append_nil _)

/-- A transaction whose steps are bounded comes to its end, or a step fails it. -/
theorem exists_stop (hf₀ : Steady f₀.transaction) {n : Nat}
    (hbound : ∀ {f : InFlight S}, Underway c f₀ f → f.transaction.started.length ≤ n) :
    ∃ f, Underway c f₀ f ∧ (AtEnd f ∨ ∃ cause f', FailsTo c f cause f') := by
  -- every move uses up one of the steps, or one of the stages that follow
  let left (f : InFlight S) : Nat :=
    4 * (n - f.transaction.started.length) +
      (Stage.following f.transaction.agenda.current).length
  have hstop : ∀ m f, left f < m → Underway c f₀ f →
      ∃ f, Underway c f₀ f ∧ (AtEnd f ∨ ∃ cause f', FailsTo c f cause f') := by
    intro m
    induction m with
    | zero => exact fun f hm => absurd hm (Nat.not_lt_zero _)
    | succ m ih =>
      intro f hm hf
      cases hpop : f.transaction.agenda.pop? with
      | none =>
        cases hfollowing : Stage.following f.transaction.agenda.current with
        | nil => exact ⟨f, hf, .inl ⟨hpop, hfollowing⟩⟩
        | cons stage stages =>
          have hnext : (Stage.following f.transaction.agenda.current).head? = some stage := by
            rw [hfollowing]
            rfl
          have hfewer : left (f.entered stage) < left f := by
            have hstarted : (f.entered stage).transaction.started = f.transaction.started :=
              (Transaction.started_of_history (f.history_entered stage)).trans
                (List.append_nil _)
            have hlater : Stage.following (f.entered stage).transaction.agenda.current = stages :=
              Stage.following_of_cons hfollowing
            simp only [left, hstarted, hlater, hfollowing, List.length_cons]
            omega
          exact ih _ (by omega) (hf.tail (.enter hpop hnext))
      | some waiting =>
        obtain ⟨step, agenda⟩ := waiting
        cases hexecute : execute c step (f.onTransaction fun t => { t with agenda }) with
        | mk verdict f' =>
          cases verdict with
          | error cause => exact ⟨f, hf, .inr ⟨cause, f', step, agenda, hpop, hexecute⟩⟩
          | ok =>
            have hmove : Move c f f' := .step hpop hexecute
            have hfewer : left f' < left f := by
              obtain ⟨-, hsame, hstarted⟩ := (hf₀.underway hf).after_step hpop hexecute
              have hle := hbound (hf.tail hmove)
              simp only [left, hsame]
              rw [hstarted, List.length_append, List.length_singleton] at hle ⊢
              omega
            exact ih f' (by omega) (hf.tail hmove)
  exact hstop _ f₀ (Nat.lt_succ_self _) .refl

/-- Where a stage does not end within the limit, so many of its steps were executed and one more
    waits. -/
theorem drain_interrupted (hf : Steady f.transaction)
    (hcurrent : f.transaction.agenda.current = some stage) {limit : Nat}
    (h : drain c limit f = none) :
    ∃ g, Underway c f g ∧ g.transaction.agenda.current = some stage ∧
      g.transaction.agenda.pop? ≠ none ∧
      f.transaction.executed stage + limit ≤ g.transaction.executed stage := by
  induction limit generalizing f with
  | zero =>
    refine ⟨f, .refl, hcurrent, fun hpop => ?_, Nat.le_refl _⟩
    rw [drain_of_empty hpop] at h
    cases h
  | succ limit ih =>
    cases hpop : f.transaction.agenda.pop? with
    | none =>
      rw [drain_of_empty hpop] at h
      cases h
    | some waiting =>
      obtain ⟨step, agenda⟩ := waiting
      cases hexecute : execute c step (f.onTransaction fun t => { t with agenda }) with
      | mk verdict f₁ =>
        cases verdict with
        | error cause =>
          rw [drain_of_error hpop hexecute] at h
          cases h
        | ok =>
          rw [drain_of_ok hpop hexecute] at h
          obtain ⟨hsteady, hsame, -⟩ := hf.after_step hpop hexecute
          obtain ⟨g, hg, hstage, hwaits, hcount⟩ := ih hsteady (hsame.trans hcurrent) h
          have hone := (hf.executed_of_execute hcurrent hexecute).1
          exact ⟨g, .head (.step hpop hexecute) hg, hstage, hwaits, by omega⟩

theorem runStages_interrupted (hf : Steady f.transaction)
    (hpop : f.transaction.agenda.pop? = none) {stages : List Stage}
    (hstages : Stage.following f.transaction.agenda.current = stages)
    (h : runStages c stages f = none) :
    ∃ g stage, Underway c f g ∧ g.transaction.agenda.current = some stage ∧
      g.transaction.agenda.pop? ≠ none ∧ c.stepLimit ≤ g.transaction.executed stage := by
  induction stages generalizing f with
  | nil => cases h
  | cons stage stages ih =>
    have hnext : (Stage.following f.transaction.agenda.current).head? = some stage := by
      rw [hstages]
      rfl
    obtain ⟨hallows, hsteady⟩ := hf.after_enter hnext
    have henter := enter_of_allows hallows
    have hmove : Move c f (f.entered stage) := .enter hpop hnext
    cases hr : drain c c.stepLimit (f.entered stage) with
    | none =>
      obtain ⟨g, hg, hstage, hwaits, hcount⟩ := drain_interrupted hsteady rfl hr
      exact ⟨g, stage, .head hmove hg, hstage, hwaits, by omega⟩
    | some p =>
      obtain ⟨verdict, f₁⟩ := p
      have hdrain := drain_goes (c := c) hsteady c.stepLimit
      rw [hr] at hdrain
      cases hdrain with
      | failed _ _ =>
        rw [runStages_of_error henter hr] at h
        cases h
      | ended hf₁ hdone =>
        rw [runStages_of_ok henter hr] at h
        have hrest : Stage.following f₁.transaction.agenda.current = stages := by
          rw [hdone.2]
          exact Stage.following_of_cons hstages
        obtain ⟨g, stage', hg, hrest⟩ := ih (hsteady.underway hf₁) hdone.1 hrest h
        exact ⟨g, stage', .head hmove (hf₁.trans hg), hrest⟩

/-- The limit interrupts a transaction only in a stage that has reached it. -/
theorem conclude_interrupted (hf : Steady f.transaction)
    (hcurrent : f.transaction.agenda.current = none) (h : c.conclude f = none) :
    ∃ g stage, Underway c f g ∧ g.transaction.agenda.current = some stage ∧
      g.transaction.agenda.pop? ≠ none ∧ c.stepLimit ≤ g.transaction.executed stage := by
  have hrun : f.run c = runStages c Stage.all f := by
    unfold InFlight.run
    rw [hf.breach_eq]
  have hpop := Agenda.pop?_of_not_begun hcurrent
  have hnone : f.run c = none := by
    unfold Controller.conclude at h
    split at h
    · assumption
    · cases h
    · split at h <;> cases h
  exact runStages_interrupted hf hpop (by rw [hcurrent]; rfl) (hrun.symm.trans hnone)

end

/-! ### Built-in operations -/

section

variable {X : Signature} {c : Controller X.withProperties} {cfg : PropertyConfig} {k : Nat}
  {f₀ f f' : InFlight X.withProperties}

/-- What a transaction of `k` built-in operations has executed and what waits, from MODEL on. Every
    operation that was drafted left one update at most, and every update that was carried out one
    check; behind the updates the strict pass may wait. -/
inductive Counted (cfg : PropertyConfig) (k : Nat) (f : InFlight X.withProperties) : Prop where
  | model {σ : Setting X} {m : Alignment} {d : Draft}
      {tasks : List (Operation × ModelHandler X.Handler)} (hcfg : σ.cfg = cfg)
      (hin : f.InModel σ m d tasks) (hbuilt : ∀ t ∈ tasks, t.2.IsBuiltIn)
      (hqueued : m.passQueued = false) (hchecks : m.checks = [])
      (hmodel : f.transaction.executed .model + tasks.length ≤ k)
      (hupdates : d.updates.length + tasks.length ≤ k)
      (hruntime : f.transaction.executed .runtime = 0)
      (hverify : f.transaction.executed .verify = 0) : Counted cfg k f
  | runtime {σ : Setting X} {m : Alignment} {us : List PendingUpdate} (hcfg : σ.cfg = cfg)
      (hat : f.At σ .runtime (us.map PendingUpdate.handler ++ m.passSteps) m)
      (hmodel : f.transaction.executed .model ≤ k)
      (hruntime : f.transaction.executed .runtime + us.length ≤ k)
      (hchecks : m.checks.length + us.length ≤ k)
      (hverify : f.transaction.executed .verify = 0) : Counted cfg k f
  | passed {σ : Setting X} {m : Alignment} (hcfg : σ.cfg = cfg) (hat : f.At σ .runtime [] m)
      (hmodel : f.transaction.executed .model ≤ k)
      (hruntime : f.transaction.executed .runtime ≤ k + 1) (hchecks : m.checks.length ≤ k)
      (hverify : f.transaction.executed .verify = 0) : Counted cfg k f
  | verify {σ : Setting X} {m : Alignment} (hcfg : σ.cfg = cfg) (hat : f.At σ .verify [] m)
      (hmodel : f.transaction.executed .model ≤ k)
      (hruntime : f.transaction.executed .runtime ≤ k + 1)
      (hchecks : f.transaction.executed .verify + m.checks.length ≤ k) : Counted cfg k f

theorem Counted.within (h : Counted cfg k f) : f.transaction.Within k := by
  intro stage
  cases h <;> cases stage <;> simp only [Stage.bound] <;> omega

/-- Behind the steps of RUNTIME, VERIFY begins with all checks still to come. -/
theorem At.counted_entered {σ : Setting X} {m : Alignment} {waiting : List (ModelHandler X.Handler)}
    {stage : Stage} (hat : f.At σ .runtime waiting m) (hpop : f.transaction.agenda.pop? = none)
    (hnext : (Stage.following f.transaction.agenda.current).head? = some stage)
    (hmodel : f.transaction.executed .model ≤ k)
    (hruntime : f.transaction.executed .runtime ≤ k + 1) (hchecks : m.checks.length ≤ k)
    (hverify : f.transaction.executed .verify = 0) : Counted σ.cfg k (f.entered stage) := by
  have hsame := f.executed_entered stage
  refine .verify rfl (hat.verify_of_enter hpop hnext) ?_ ?_ ?_
  · rwa [hsame]
  · rwa [hsame]
  · rwa [hsame, hverify, Nat.zero_add]

theorem Counted.move (hc : c.RunsModel cfg) (hf : Steady f.transaction) (h : Counted cfg k f)
    (hmove : Move c f f') : Counted cfg k f' := by
  cases h with
  | @model σ m d tasks hcfg hin hbuilt hqueued hchecks hmodel hupdates hruntime hverify =>
    subst hcfg
    cases hmove with
    | @enter stage hpop hnext =>
      -- what was drafted is what waits now
      have hat := hin.runtime_of_enter hqueued hnext
      have hsame := f.executed_entered stage
      have hm := hsame .model
      have hr := hsame .runtime
      have hv := hsame .verify
      have hnone : m.checks.length = 0 := congrArg List.length hchecks
      exact .runtime (show (σ.drafted d tasks.length).cfg = σ.cfg from rfl) hat (by omega)
        (by omega) (by omega) (by omega)
    | step hpop hexecute =>
      obtain ⟨hone, hothers⟩ := hf.executed_of_execute hin.at_model.current_eq hexecute
      have hr := hothers .runtime nofun
      have hv := hothers .verify nofun
      obtain ⟨task, rest, d', rfl, hdraft, hin'⟩ := hin.move hpop hc hbuilt hexecute
      -- a task makes way for one update at most
      have hdrafted := Draft.length_updates_step hdraft
      rw [List.length_cons] at hmodel hupdates
      exact .model rfl hin' (List.forall_mem_cons.1 hbuilt).2 hqueued hchecks (by omega)
        (by omega) (by omega) (by omega)
  | @runtime σ m us hcfg hat hmodel hruntime hchecks hverify =>
    subst hcfg
    cases hmove with
    | enter hpop hnext =>
      exact hat.counted_entered hpop hnext hmodel (by omega) (by omega) hverify
    | step hpop hexecute =>
      obtain ⟨hone, hothers⟩ := hf.executed_of_execute hat.current_eq hexecute
      have hm := hothers .model nofun
      have hv := hothers .verify nofun
      rcases hat.runtime_move hpop hc hexecute with ⟨u, rest, rfl, -, hat'⟩ | ⟨-, hat'⟩
      · -- an update makes way for one check at most
        have hchecked := Alignment.length_checks_update σ.cfg σ.booting m u
        rw [List.length_cons] at hruntime hchecks
        exact .runtime rfl hat' (by omega) (by omega) (by omega) (by omega)
      · have hchecked : (m.pass σ.cfg).2.checks.length = m.checks.length :=
          congrArg List.length (m.checks_pass σ.cfg)
        exact .passed rfl hat' (by omega) (by omega) (by omega) (by omega)
  | @passed σ m hcfg hat hmodel hruntime hchecks hverify =>
    subst hcfg
    cases hmove with
    | enter hpop hnext => exact hat.counted_entered hpop hnext hmodel hruntime hchecks hverify
    | step hpop hexecute =>
      rw [hat.pop_runtime_nil] at hpop
      cases hpop
  | @verify σ m hcfg hat hmodel hruntime hchecks =>
    subst hcfg
    cases hmove with
    | enter hpop hnext =>
      rw [hat.current_eq] at hnext
      cases hnext
    | step hpop hexecute =>
      obtain ⟨hone, hothers⟩ := hf.executed_of_execute hat.current_eq hexecute
      have hm := hothers .model nofun
      have hr := hothers .runtime nofun
      obtain ⟨name, names, hnames, hat'⟩ := hat.verify_move hpop hc hexecute
      rw [hnames, List.length_cons] at hchecks
      have hrest : ({ m with checks := names } : Alignment).checks.length = names.length := rfl
      exact .verify rfl hat' (by omega) (by omega) (by omega)

theorem Counted.underway (hc : c.RunsModel cfg) (hf₀ : Steady f₀.transaction)
    (h : Counted cfg k f₀) (hf : Underway c f₀ f) : Counted cfg k f := by
  induction hf with
  | refl => exact h
  | tail hg hmove ih => exact ih.move hc (hf₀.underway hg) hmove

/-- A stage in which a step waits has not used up its bound. -/
theorem Counted.lt_bound (h : Counted cfg k f) {stage : Stage}
    (hcurrent : f.transaction.agenda.current = some stage)
    (hpop : f.transaction.agenda.pop? ≠ none) :
    f.transaction.executed stage < stage.bound k := by
  cases h with
  | @model σ m d tasks hcfg hin hbuilt hqueued hchecks hmodel hupdates hruntime hverify =>
    cases hin.at_model.current_eq.symm.trans hcurrent
    cases tasks with
    | nil => exact absurd hin.pop_nil hpop
    | cons task rest =>
      rw [List.length_cons] at hmodel
      show _ < k
      omega
  | @runtime σ m us hcfg hat hmodel hruntime hchecks hverify =>
    cases hat.current_eq.symm.trans hcurrent
    show _ < k + 1
    omega
  | @passed σ m hcfg hat hmodel hruntime hchecks hverify =>
    exact absurd hat.pop_runtime_nil hpop
  | @verify σ m hcfg hat hmodel hruntime hchecks =>
    cases hat.current_eq.symm.trans hcurrent
    cases hnames : m.checks with
    | nil => exact absurd (hat.with_checks hnames).pop_verify_nil hpop
    | cons name names =>
      rw [hnames, List.length_cons] at hchecks
      show _ < k
      omega

/-- The step that fails the transaction is counted as well. -/
theorem Counted.within_of_failsTo (hf : Steady f.transaction) (h : Counted cfg k f)
    {cause : Fault} (hfails : FailsTo c f cause f') : f'.transaction.Within k := by
  obtain ⟨step, agenda, hpop, hexecute⟩ := hfails
  obtain ⟨stage, -, hcurrent, -, -⟩ := Agenda.pop?_eq_some hpop
  obtain ⟨hone, hothers⟩ := hf.executed_of_execute hcurrent hexecute
  intro other
  by_cases hother : stage = other
  · subst hother
    have hlt := h.lt_bound hcurrent (by rw [hpop]; exact Option.some_ne_none _)
    omega
  · rw [hothers other hother]
    exact h.within other

end

end InFlight

/-! ### Submissions -/

namespace Controller

open InFlight

variable {X : Signature} {c : Controller X.withProperties} {cfg : PropertyConfig}
  {sub : Submission} {s : ControllerState X.withProperties}
  {accepted : List (Operation × RegisteredOperation (ModelHandler X.Handler))}
  {f₀ f f' : InFlight X.withProperties}

/-- Nothing was executed when a transaction begins. -/
theorem Begins.executed_eq (h : Begins c sub s accepted f₀) (stage : Stage) :
    f₀.transaction.executed stage = 0 := by
  obtain ⟨lock, locked, -, rfl⟩ := h.locked
  unfold Transaction.executed Transaction.started
  rw [history_begin, List.filterMap_map]
  have hnone : (List.range accepted.length).filterMap
      (Event.started? ∘ fun i => .queued i none i .model .back) = [] :=
    List.filterMap_eq_nil_iff.2 fun i _ => rfl
  rw [hnone]
  rfl

/-- A transaction of built-in operations is counted in all states that it passes through after
    MODEL has begun. -/
theorem Begins.counted (hc : c.RunsModel cfg) (hops : ∀ op ∈ sub.operations, c.IsBuiltIn op)
    (h : Begins c sub s accepted f₀) (hf : Underway c f₀ f) :
    f = f₀ ∨ Counted cfg sub.operations.length f := by
  obtain ⟨hsteady, hcurrent⟩ := h.steady
  have hexecuted := h.executed_eq
  have hlength := (length_tasksOf accepted).trans h.length_eq
  have hbuilt := isBuiltIn_tasksOf (isBuiltIn_of_acceptAll hops h.accepted_eq)
  rcases Relation.ReflTransGen.cases_head hf with rfl | ⟨g, hmove, hg⟩
  · exact .inl rfl
  · refine .inr (Counted.underway hc (hsteady.move hmove) ?_ hg)
    obtain ⟨lock, locked, -, rfl⟩ := h.locked
    obtain rfl := hmove.eq_of_not_begun hcurrent
    refine .model (by rfl) (inModel_begin cfg _ _ accepted locked).2 hbuilt rfl rfl ?_ ?_ ?_ ?_
    · rw [executed_entered, hexecuted, hlength]
      exact Nat.le_of_eq (Nat.zero_add _)
    · rw [hlength]
      exact Nat.le_of_eq (Nat.zero_add _)
    · rw [executed_entered, hexecuted]
    · rw [executed_entered, hexecuted]

theorem Begins.within (hc : c.RunsModel cfg) (hops : ∀ op ∈ sub.operations, c.IsBuiltIn op)
    (h : Begins c sub s accepted f₀) (hf : Underway c f₀ f) :
    f.transaction.Within sub.operations.length := by
  rcases h.counted hc hops hf with rfl | hcounted
  · intro stage
    rw [h.executed_eq]
    exact Nat.zero_le _
  · exact hcounted.within

/-- The limit on steps does not interrupt a transaction with fewer operations. -/
theorem Begins.exists_ended (hc : c.RunsModel cfg) (hops : ∀ op ∈ sub.operations, c.IsBuiltIn op)
    (h : Begins c sub s accepted f₀) (hlimit : sub.operations.length < c.stepLimit) :
    ∃ ended, c.conclude f₀ = some ended := by
  obtain ⟨hsteady, hcurrent⟩ := h.steady
  cases hconclude : c.conclude f₀ with
  | some ended => exact ⟨ended, rfl⟩
  | none =>
    obtain ⟨g, stage, hg, hstage, hwaits, hreached⟩ :=
      conclude_interrupted hsteady hcurrent hconclude
    rcases h.counted hc hops hg with rfl | hcounted
    · rw [hcurrent] at hstage
      cases hstage
    · have hlt := hcounted.lt_bound hstage hwaits
      have hbound : stage.bound sub.operations.length ≤ sub.operations.length + 1 := by
        cases stage <;> simp only [Stage.bound] <;> omega
      omega

/-- Every transaction of built-in operations ends within a fixed number of steps, however it is
    submitted and whatever state it begins in. It comes to its end or to a step that fails it; up to
    there it executes no more steps of MODEL and of VERIFY than there are operations, and one more
    of RUNTIME at most. A limit on steps that exceeds the number of operations does not come to
    bear. Retrying parked values takes one round more than there are parked values at most. -/
theorem terminates (hc : c.RunsModel cfg) (hops : ∀ op ∈ sub.operations, c.IsBuiltIn op)
    (hbegins : Begins c sub s accepted f₀) :
    (∃ f, Underway c f₀ f ∧ (AtEnd f ∨ ∃ cause f', FailsTo c f cause f')) ∧
    (∀ {f}, Underway c f₀ f → f.transaction.Within sub.operations.length) ∧
    (∀ {f f' cause}, Underway c f₀ f → FailsTo c f cause f' →
      f'.transaction.Within sub.operations.length) ∧
    (sub.operations.length < c.stepLimit → ∃ outcome s', c.perform sub s = .ok (outcome, s')) ∧
    ∀ (p : ParkedValues) (live : LiveProperties),
      p.retryWithin cfg (p.size + 1) live = some (p.retry cfg live) := by
  obtain ⟨hsteady, hcurrent⟩ := hbegins.steady
  refine ⟨?_, hbegins.within hc hops, ?_, fun hlimit => ?_, fun p live =>
    ParkedValues.retryWithin_eq cfg (Nat.lt_succ_self _)⟩
  · refine exists_stop hsteady (n := 3 * sub.operations.length + 1) fun {f} hf => ?_
    have hwithin := hbegins.within hc hops hf
    have hm := hwithin .model
    have hr := hwithin .runtime
    have hv := hwithin .verify
    simp only [Stage.bound] at hm hr hv
    rw [Transaction.length_started]
    omega
  · intro f f' cause hf hfails
    rcases hbegins.counted hc hops hf with rfl | hcounted
    · -- before MODEL no step waits
      obtain ⟨step, agenda, hpop, -⟩ := hfails
      rw [Agenda.pop?_of_not_begun hcurrent] at hpop
      cases hpop
    · exact hcounted.within_of_failsTo (hsteady.underway hf) hfails
  · by_cases hempty : sub.operations = []
    · obtain ⟨response, s', h⟩ := perform_of_empty (c := c) (s := s) hempty
      exact ⟨_, s', h⟩
    · obtain ⟨ended, hended⟩ := hbegins.exists_ended hc hops hlimit
      obtain ⟨outcome, s', h, -⟩ := hbegins.perform hempty hended
      exact ⟨outcome, s', h⟩

/-- Two operations at boot, the first of which refers to the property of the second: with both
    updates and the strict pass, RUNTIME uses up its bound. -/
theorem terminates_boot_pair :
    ∃ accepted f₀ f, Begins (bare { updater? := some {} } 3) (.boot
        [Property.addRequest "p" (some "$\x7bq\x7d") none, Property.addRequest "q" (some "v") none])
        .bare accepted f₀ ∧
      Underway (bare { updater? := some {} } 3) f₀ f ∧ f.transaction.Within 2 ∧
      f.transaction.executed .runtime = 3 ∧
      ∃ outcome s', (bare { updater? := some {} } 3).perform (.boot
        [Property.addRequest "p" (some "$\x7bq\x7d") none, Property.addRequest "q" (some "v") none])
        .bare = .ok (outcome, s') := by
  let c : Controller Signature.bare.withProperties := bare { updater? := some {} } 3
  let sub : Submission := .boot
    [Property.addRequest "p" (some "$\x7bq\x7d") none, Property.addRequest "q" (some "v") none]
  have hrun : c.begins sub .bare (fun f₀ =>
      (after? c 7 f₀).any fun f => f.transaction.executed .runtime == 3) = true := by
    decide +kernel
  obtain ⟨accepted, f₀, hbegins, htest⟩ := exists_begins hrun
  obtain ⟨f, hafter, hcount⟩ := (Option.any_eq_true _ _).1 htest
  obtain ⟨-, hwithin, -, hanswer, -⟩ := terminates (runsModel_bare { updater? := some {} } 3)
    (fun op _ => isBuiltIn_bare { updater? := some {} } 3 op) hbegins
  have hf : Underway c f₀ f := underway_of_after hafter
  exact ⟨accepted, f₀, f, hbegins, hf, hwithin hf, eq_of_beq hcount, hanswer (by decide)⟩

end Controller

end ManagedModel
