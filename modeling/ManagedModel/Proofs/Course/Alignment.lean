import ManagedModel.Proofs.Course.Draft

/-! # What RUNTIME and VERIFY steps do

    The steps that bring the running process in line with the model, read as
    changes of an `Alignment`: the live properties, the parked values, the
    checks left for VERIFY and the ways back left for a rollback.

    * `Alignment.update` carries out one update of RUNTIME. It never fails.
    * `Alignment.settle` is what follows the updates: the strict pass over the
      parked values, if one is queued, and the checks of VERIFY.
    * `undoAll` is what the rollback handlers do to the live properties.

    `retry_keeps` and `applyNamed_keeps` are the ways to show that applying
    parked values keeps a property: it has to be kept when one of them is
    applied. -/

namespace ManagedModel

/-- A value is missing for one kind of reason only. -/
theorem kind_of_intendedValue_eq_error {live : LiveProperties} {model : Attributes} {fault : Fault}
    (h : intendedValue live model = .error fault) : fault.kind = .resolution := by
  unfold intendedValue Value.resolve at h
  split at h
  · cases h
  · unfold Expression.resolve at h
    split at h
    · cases h
    · cases h
      rfl
  · cases h

/-! ### Parked values by name -/

namespace ParkedValues

@[simp] theorem get?_park_self (p : ParkedValues) (name : String) (v : ParkedValue) :
    (p.park name v).get? name = some v :=
  SortedMap.get?_insert_self _ _ _

theorem get?_park_of_ne (p : ParkedValues) {name other : String} (h : other ≠ name)
    (v : ParkedValue) : (p.park name v).get? other = p.get? other :=
  SortedMap.get?_insert_of_ne _ h v

@[simp] theorem get?_forget_self (p : ParkedValues) (name : String) :
    (p.forget name).get? name = none :=
  SortedMap.get?_erase_self _ _

theorem get?_forget_of_ne (p : ParkedValues) {name other : String} (h : other ≠ name) :
    (p.forget name).get? other = p.get? other :=
  SortedMap.get?_erase_of_ne _ h

/-- The names of the values that resolve differ from each other. -/
theorem resolvable_pairwise (p : ParkedValues) (live : LiveProperties) :
    (p.resolvable live).Pairwise fun r r' => r'.1 ≠ r.1 := by
  refine List.Pairwise.filterMap _ ?_ p.values.ascending
  rintro ⟨name, v⟩ ⟨name', v'⟩ hlt r hr r' hr'
  have hne : name' ≠ name := (ne_of_compare_eq_lt hlt).symm
  dsimp only at hr hr'
  split at hr
  · cases hr
    split at hr'
    · cases hr'
      exact hne
    · cases hr'
  · cases hr

section Keeps

variable {cfg : PropertyConfig} {I : ParkedValues → LiveProperties → Prop}

/-- What holds whenever one more of the values that resolve against `live₀` is applied holds when
    all of them are. -/
theorem applyAll_keeps {live₀ : LiveProperties}
    (hI : ∀ {p : ParkedValues} {live : LiveProperties} {name : String} {v : ParkedValue}
      {value? : Option String}, I p live → p.get? name = some v →
        intendedValue live₀ v.model = .ok value? → I (p.forget name) (cfg.apply name value? live))
    {rs : List (String × Option String)} (hne : rs.Pairwise fun r r' => r'.1 ≠ r.1)
    {p : ParkedValues} {live : LiveProperties}
    (hrs : ∀ r ∈ rs, ∃ v, p.get? r.1 = some v ∧ intendedValue live₀ v.model = .ok r.2)
    (h : I p live) : I (applyAll cfg rs p live).1 (applyAll cfg rs p live).2 := by
  -- the names differ, so that the values that are still to be applied stay parked
  induction rs generalizing p live with
  | nil => exact h
  | cons r rs ih =>
    obtain ⟨hfirst, hrest⟩ := List.pairwise_cons.1 hne
    obtain ⟨v, hv, hresolved⟩ := hrs r List.mem_cons_self
    refine ih hrest ?_ (hI h hv hresolved)
    intro r' hr'
    obtain ⟨v', hv', hresolved'⟩ := hrs r' (List.mem_cons_of_mem _ hr')
    exact ⟨v', by rw [get?_forget_of_ne p (hfirst r' hr'), hv'], hresolved'⟩

/-- What every round keeps, `retry` keeps. -/
theorem retry_keeps_of_round
    (hI : ∀ {p : ParkedValues} {live : LiveProperties}, I p live →
      I (applyAll cfg (p.resolvable live) p live).1 (applyAll cfg (p.resolvable live) p live).2)
    {p : ParkedValues} {live : LiveProperties} (h : I p live) :
    I (p.retry cfg live).2.1 (p.retry cfg live).2.2 := by
  -- one case for the round that applies nothing, and one for a round and all that follow it
  fun_induction retry cfg p live with
  | case1 p live hnone => exact h
  | case2 p live r rs hsome _ next count p' live' hnext ih =>
    have hround := hI h
    rw [hsome] at hround
    rw [hnext] at ih
    exact ih hround

/-- What applying one parked value keeps, `retry` keeps. -/
theorem retry_keeps
    (hI : ∀ {live₀ : LiveProperties} {p : ParkedValues} {live : LiveProperties} {name : String}
      {v : ParkedValue} {value? : Option String}, I p live → p.get? name = some v →
        intendedValue live₀ v.model = .ok value? → I (p.forget name) (cfg.apply name value? live))
    {p : ParkedValues} {live : LiveProperties} (h : I p live) :
    I (p.retry cfg live).2.1 (p.retry cfg live).2.2 := by
  refine retry_keeps_of_round ?_ h
  intro p live h
  exact applyAll_keeps hI (p.resolvable_pairwise live) (fun _ => get?_of_mem_resolvable) h

/-- After `retry` no parked value resolves. -/
theorem resolvable_retry (cfg : PropertyConfig) (p : ParkedValues) (live : LiveProperties) :
    (p.retry cfg live).2.1.resolvable (p.retry cfg live).2.2 = [] := by
  fun_induction retry cfg p live with
  | case1 p live hnone => exact hnone
  | case2 p live r rs hsome _ next count p' live' hnext ih =>
    rw [hnext] at ih
    exact ih

theorem error_of_resolvable_eq_nil {p : ParkedValues} {live : LiveProperties}
    (h : p.resolvable live = []) {name : String} {v : ParkedValue} (hv : p.get? name = some v) :
    ∃ fault, intendedValue live v.model = .error fault := by
  cases hvalue : intendedValue live v.model with
  | error fault => exact ⟨fault, rfl⟩
  | ok x? =>
    have hmem : (name, x?) ∈ p.resolvable live := by
      refine List.mem_filterMap.2 ⟨(name, v), SortedMap.mem_entries_iff.2 hv, ?_⟩
      dsimp only
      rw [hvalue]
    rw [h] at hmem
    cases hmem

theorem passQueued_applyAll (cfg : PropertyConfig) (rs : List (String × Option String))
    (p : ParkedValues) (live : LiveProperties) :
    (applyAll cfg rs p live).1.passQueued = p.passQueued := by
  induction rs generalizing p live with
  | nil => rfl
  | cons r rs ih => exact ih _ _

theorem passQueued_retry (cfg : PropertyConfig) (p : ParkedValues) (live : LiveProperties) :
    (p.retry cfg live).2.1.passQueued = p.passQueued := by
  refine retry_keeps_of_round (I := fun p' _ => p'.passQueued = p.passQueued) ?_ rfl
  intro p' live' h
  rw [passQueued_applyAll, h]

/-- What applying one parked value keeps, the pass over named ones keeps. -/
theorem applyNamed_keeps
    (hI : ∀ {p : ParkedValues} {live : LiveProperties} {name : String} {v : ParkedValue}
      {value? : Option String}, I p live → p.get? name = some v →
        intendedValue live v.model = .ok value? → I (p.forget name) (cfg.apply name value? live))
    (names : List String) {p : ParkedValues} {live : LiveProperties} (h : I p live) :
    I (applyNamed cfg names p live).2.1 (applyNamed cfg names p live).2.2 := by
  -- the cases: no name is left, nothing is parked for it, its value does not resolve, or it does
  fun_induction applyNamed cfg names p live with
  | case1 p live => exact h
  | case2 p live name names hnone ih => exact ih h
  | case3 p live name names v hv fault hfault => exact h
  | case4 p live name names v hv value? hresolved ih => exact ih (hI h hv hresolved)

end Keeps

end ParkedValues

/-! ### Ways back -/

/-- What a step of RUNTIME leaves for a rollback. -/
inductive Undo where
  /-- Gives a live property the value it had. -/
  | restore (name : String) (prior? : Option String)
  /-- Withdraws the request for a reload. -/
  | withdrawReload

namespace Undo

/-- The rollback handler, which pays no attention to the operation. -/
def handler {X : Signature} (cfg : PropertyConfig) :
    Undo → Operation → RollbackProgram X.withProperties Unit
  | restore name prior?, _ =>
    .environment
      (fun e =>
        if e.live.get? name = prior? then e
        else { e with live := cfg.apply name prior? e.live })
      fun _ => .pure ()
  | withdrawReload, _ => .withdrawReload (.pure ())

/-- What the handler does to the live properties. -/
def run (cfg : PropertyConfig) (live : LiveProperties) : Undo → LiveProperties
  | restore name prior? => if live.get? name = prior? then live else cfg.apply name prior? live
  | withdrawReload => live

end Undo

/-- What the rollback handlers do to the live properties, newest first. -/
def undoAll (cfg : PropertyConfig) (undo : List Undo) (live : LiveProperties) : LiveProperties :=
  undo.foldl (Undo.run cfg) live

/-! ### The process during a transaction -/

/-- How far the running process has been brought in line with the model. -/
structure Alignment where
  live : LiveProperties
  /-- The parked values, if any value was ever parked. -/
  parked? : Option ParkedValues := none
  /-- The properties that VERIFY will check, in order. -/
  checks : List String := []
  /-- The ways back, newest first. -/
  undo : List Undo := []
  /-- Whether the transaction asks for a reload. -/
  raised : Bool := false

namespace Alignment

/-- What is parked for a property. -/
def parkedAt (m : Alignment) (name : String) : Option ParkedValue :=
  m.parked?.bind (·.get? name)

/-- Whether the strict pass over the parked values is queued. -/
def passQueued (m : Alignment) : Bool := m.parked?.any (·.passQueued)

/-- The handlers queued for RUNTIME behind the updates. -/
def passSteps {C : Type} (m : Alignment) : List (ModelHandler C) :=
  if m.passQueued then [.property .applyParked] else []

theorem passSteps_of_queued {C : Type} {m : Alignment} (h : m.passQueued = true) :
    m.passSteps = ([.property .applyParked] : List (ModelHandler C)) :=
  if_pos h

theorem passSteps_of_not_queued {C : Type} {m : Alignment} (h : m.passQueued = false) :
    m.passSteps = ([] : List (ModelHandler C)) :=
  if_neg (by rw [h]; exact Bool.false_ne_true)

/-- Registers the way back to the live value of a property, and drops its parked value. -/
def beginUpdate (m : Alignment) (name : String) : Alignment :=
  { m with
    parked? := m.parked?.map (·.forget name)
    undo := .restore name (m.live.get? name) :: m.undo }

/-- Changes a live property. -/
def setLive (cfg : PropertyConfig) (name : String) (value? : Option String) (m : Alignment) :
    Alignment :=
  { m with live := cfg.apply name value? m.live }

/-- Gives the parked values another chance. -/
def retry (cfg : PropertyConfig) (m : Alignment) : Alignment :=
  match m.parked? with
  | none => m
  | some p => { m with parked? := some (p.retry cfg m.live).2.1, live := (p.retry cfg m.live).2.2 }

/-- Parks a value and queues its check. -/
def defer (booting : Bool) (name : String) (model : Attributes) (fault : Fault)
    (m : Alignment) : Alignment :=
  let p := m.parked?.getD {}
  let queuePass := booting && !p.passQueued
  { m with
    parked? :=
      some { p.park name { model, fault } with passQueued := p.passQueued || queuePass }
    checks := m.checks ++ [name] }

/-- Carries out an update. -/
def update (cfg : PropertyConfig) (booting : Bool) (m : Alignment) (u : PendingUpdate) :
    Alignment :=
  match u.effect with
  | .apply =>
    match intendedValue m.live u.model with
    | .ok value? => ((m.beginUpdate u.name).setLive cfg u.name value?).retry cfg
    | .error fault => (m.beginUpdate u.name).defer booting u.name u.model fault
  | .reload => { m with raised := true, undo := .withdrawReload :: m.undo }
  | .none => m

/-- Carries out updates one after the other. -/
def updateAll (cfg : PropertyConfig) (booting : Bool) (us : List PendingUpdate) (m : Alignment) :
    Alignment :=
  us.foldl (update cfg booting) m

/-- Carries out the strict pass over the parked values, if one is queued. -/
def pass (cfg : PropertyConfig) (m : Alignment) : Except Fault Unit × Alignment :=
  match m.parked? with
  | none => (.ok (), m)
  | some p =>
    if p.passQueued then
      ((p.applyStrictly cfg m.live).1,
        { m with
          parked? := some (p.applyStrictly cfg m.live).2.1
          live := (p.applyStrictly cfg m.live).2.2 })
    else (.ok (), m)

/-- A check of VERIFY: the property has no parked value. -/
def check (m : Alignment) (name : String) : Except Fault Unit :=
  match m.parkedAt name with
  | some v => .error v.fault
  | none => .ok ()

/-- The checks of VERIFY, up to the first that fails. -/
def verify (m : Alignment) (names : List String) : Except Fault Unit :=
  names.foldlM (fun _ => m.check) ()

/-- What follows the updates. -/
def settle (cfg : PropertyConfig) (m : Alignment) : Except Fault Unit × Alignment :=
  match m.pass cfg with
  | (.ok (), m) => (m.verify m.checks, m)
  | (.error fault, m) => (.error fault, m)

/-! ### The strict pass is queued once -/

@[simp] theorem passQueued_beginUpdate (m : Alignment) (name : String) :
    (m.beginUpdate name).passQueued = m.passQueued := by
  unfold beginUpdate passQueued
  cases m.parked? <;> rfl

@[simp] theorem passQueued_retry (cfg : PropertyConfig) (m : Alignment) :
    (m.retry cfg).passQueued = m.passQueued := by
  unfold retry
  split
  · rfl
  · rename_i p hp
    show (p.retry cfg m.live).2.1.passQueued = m.parked?.any (·.passQueued)
    rw [ParkedValues.passQueued_retry, hp]
    rfl

theorem passQueued_defer (booting : Bool) (name : String) (model : Attributes) (fault : Fault)
    (m : Alignment) : (m.defer booting name model fault).passQueued = (m.passQueued || booting) := by
  have h : (m.parked?.getD {}).passQueued = m.passQueued := by
    unfold passQueued
    cases m.parked? <;> rfl
  show ((m.parked?.getD {}).passQueued || booting && !(m.parked?.getD {}).passQueued) = _
  rw [h]
  cases m.passQueued <;> cases booting <;> rfl

/-! ### Checks -/

@[simp] theorem checks_retry (cfg : PropertyConfig) (m : Alignment) :
    (m.retry cfg).checks = m.checks := by
  unfold retry
  split <;> rfl

theorem length_checks_update (cfg : PropertyConfig) (booting : Bool) (m : Alignment)
    (u : PendingUpdate) : (m.update cfg booting u).checks.length ≤ m.checks.length + 1 := by
  unfold update
  cases u.effect with
  | apply =>
    cases intendedValue m.live u.model with
    | ok value? =>
      show (((m.beginUpdate u.name).setLive cfg u.name value?).retry cfg).checks.length ≤ _
      rw [checks_retry]
      exact Nat.le_succ _
    | error fault =>
      show (m.checks ++ [u.name]).length ≤ _
      rw [List.length_append]
      exact Nat.le_refl _
  | reload => exact Nat.le_succ _
  | none => exact Nat.le_succ _

/-- Every update leaves one check at most. -/
theorem length_checks_updateAll (cfg : PropertyConfig) (booting : Bool) (us : List PendingUpdate)
    (m : Alignment) : (m.updateAll cfg booting us).checks.length ≤ m.checks.length + us.length := by
  induction us generalizing m with
  | nil => exact Nat.le_refl _
  | cons u us ih =>
    have hone := length_checks_update cfg booting m u
    have hrest := ih (m.update cfg booting u)
    show ((m.update cfg booting u).updateAll cfg booting us).checks.length ≤ _
    rw [List.length_cons]
    omega

@[simp] theorem checks_pass (cfg : PropertyConfig) (m : Alignment) :
    (m.pass cfg).2.checks = m.checks := by
  unfold pass
  split
  · rfl
  · split <;> rfl

/-! ### One property

    What happens to one property depends on what is parked for it and on its
    live value. A property `J` of the two is kept by all that happens to other
    properties, if it is kept when the parked value is applied. -/

section Name

variable {cfg : PropertyConfig} {booting : Bool} {name : String} {m : Alignment}
  {u : PendingUpdate} {J : Option ParkedValue → Option String → Prop}

theorem parkedAt_beginUpdate_self (m : Alignment) (name : String) :
    (m.beginUpdate name).parkedAt name = none := by
  unfold beginUpdate parkedAt
  cases m.parked? with
  | none => rfl
  | some p => exact p.get?_forget_self name

theorem parkedAt_beginUpdate_of_ne (m : Alignment) {name other : String} (h : other ≠ name) :
    (m.beginUpdate name).parkedAt other = m.parkedAt other := by
  unfold beginUpdate parkedAt
  cases m.parked? with
  | none => rfl
  | some p => exact p.get?_forget_of_ne h

theorem parkedAt_defer_self (booting : Bool) (name : String) (model : Attributes) (fault : Fault)
    (m : Alignment) : (m.defer booting name model fault).parkedAt name = some { model, fault } :=
  (m.parked?.getD {}).get?_park_self name _

theorem parkedAt_defer_of_ne (booting : Bool) {name other : String} (h : other ≠ name)
    (model : Attributes) (fault : Fault) (m : Alignment) :
    (m.defer booting name model fault).parkedAt other = m.parkedAt other := by
  have hpark := (m.parked?.getD {}).get?_park_of_ne h { model, fault }
  show ((m.parked?.getD {}).park name { model, fault }).get? other = _
  rw [hpark]
  unfold parkedAt
  cases m.parked? <;> rfl

/-- `J` is kept when the parked value of the property is applied. -/
def KeptWhenApplied (J : Option ParkedValue → Option String → Prop) : Prop :=
  ∀ ⦃live₀ : LiveProperties⦄ ⦃v : ParkedValue⦄ ⦃x? value? : Option String⦄,
    J (some v) x? → intendedValue live₀ v.model = .ok value? → J none value?

/-- Applying one parked value keeps `J` if it does so for the value of the property itself. -/
theorem keeps_at_step (hJ : KeptWhenApplied J)
    {live₀ live : LiveProperties} {p : ParkedValues} {other : String} {v : ParkedValue}
    {value? : Option String} (h : J (p.get? name) (live.get? name)) (hv : p.get? other = some v)
    (hresolved : intendedValue live₀ v.model = .ok value?) :
    J ((p.forget other).get? name) ((cfg.apply other value? live).get? name) := by
  -- only the value of the property itself has to do with `J`
  by_cases hname : name = other
  · subst hname
    rw [p.get?_forget_self, cfg.get?_apply_self]
    rw [hv] at h
    exact hJ h hresolved
  · rw [p.get?_forget_of_ne hname, cfg.get?_apply_of_ne hname]
    exact h

theorem retry_keeps_at (hJ : KeptWhenApplied J)
    (h : J (m.parkedAt name) (m.live.get? name)) :
    J ((m.retry cfg).parkedAt name) ((m.retry cfg).live.get? name) := by
  unfold parkedAt at h ⊢
  unfold retry
  cases hp : m.parked? with
  | none =>
    rw [hp] at h
    dsimp only
    rw [hp]
    exact h
  | some p =>
    rw [hp] at h
    exact ParkedValues.retry_keeps (I := fun p live => J (p.get? name) (live.get? name))
      (keeps_at_step hJ) h

theorem pass_keeps_at (hJ : KeptWhenApplied J)
    (h : J (m.parkedAt name) (m.live.get? name)) :
    J ((m.pass cfg).2.parkedAt name) ((m.pass cfg).2.live.get? name) := by
  unfold parkedAt at h ⊢
  unfold pass
  cases hp : m.parked? with
  | none =>
    rw [hp] at h
    dsimp only
    rw [hp]
    exact h
  | some p =>
    rw [hp] at h
    dsimp only
    by_cases hq : p.passQueued
    · rw [if_pos hq]
      exact ParkedValues.applyNamed_keeps (I := fun p live => J (p.get? name) (live.get? name))
        (keeps_at_step hJ) p.values.keys h
    · rw [if_neg hq]
      dsimp only
      rw [hp]
      exact h

/-- An update that does not reach the process at once has nothing to do with what is parked. -/
theorem parkedAt_update_of_ne_apply (heffect : u.effect ≠ .apply) :
    (m.update cfg booting u).parkedAt name = m.parkedAt name := by
  unfold update
  split
  · rename_i happly
    exact absurd happly heffect
  · rfl
  · rfl

/-- An update of another property. -/
theorem update_keeps_at_of_ne (hJ : KeptWhenApplied J)
    (hne : name ≠ u.name) (h : J (m.parkedAt name) (m.live.get? name)) :
    J ((m.update cfg booting u).parkedAt name) ((m.update cfg booting u).live.get? name) := by
  -- to begin the update of another property drops nothing of this one
  have hbegun : J ((m.beginUpdate u.name).parkedAt name) ((m.beginUpdate u.name).live.get? name) := by
    rw [m.parkedAt_beginUpdate_of_ne hne]
    exact h
  unfold update
  cases u.effect with
  | apply =>
    cases intendedValue m.live u.model with
    | ok value? =>
      refine retry_keeps_at hJ ?_
      show J ((m.beginUpdate u.name).parkedAt name) ((cfg.apply u.name value? m.live).get? name)
      rw [cfg.get?_apply_of_ne hne]
      exact hbegun
    | error fault =>
      show J (((m.beginUpdate u.name).defer booting u.name u.model fault).parkedAt name) _
      rw [parkedAt_defer_of_ne booting hne]
      exact hbegun
  | reload => exact h
  | none => exact h

/-- An update of the property itself that reaches the process at once: it replaces what was
    parked, and parks the value if it does not resolve. -/
theorem update_keeps_at_self (hJ : KeptWhenApplied J)
    (heffect : u.effect = .apply)
    (hset : ∀ {value? : Option String}, intendedValue m.live u.model = .ok value? → J none value?)
    (hpark : ∀ {fault : Fault}, intendedValue m.live u.model = .error fault →
      J (some { model := u.model, fault }) (m.live.get? u.name)) :
    J ((m.update cfg booting u).parkedAt u.name) ((m.update cfg booting u).live.get? u.name) := by
  unfold update
  rw [heffect]
  cases hvalue : intendedValue m.live u.model with
  | ok value? =>
    refine retry_keeps_at hJ ?_
    show J ((m.beginUpdate u.name).parkedAt u.name) ((cfg.apply u.name value? m.live).get? u.name)
    rw [parkedAt_beginUpdate_self, cfg.get?_apply_self]
    exact hset hvalue
  | error fault =>
    show J (((m.beginUpdate u.name).defer booting u.name u.model fault).parkedAt u.name) _
    rw [parkedAt_defer_self]
    exact hpark hvalue

end Name

/-! ### Settling

    VERIFY checks every property that has a parked value, so a transaction that
    settles leaves none behind. -/

section Settling

variable {cfg : PropertyConfig} {booting : Bool} {m m' : Alignment} {u : PendingUpdate}

theorem check_eq_ok {name : String} : m.check name = .ok () ↔ m.parkedAt name = none := by
  unfold check
  cases m.parkedAt name <;> simp

theorem verify_eq_ok {names : List String} :
    m.verify names = .ok () ↔ ∀ name ∈ names, m.parkedAt name = none := by
  induction names with
  | nil => simp [verify, pure, Except.pure]
  | cons name names ih =>
    have hcons : m.verify (name :: names) = (m.check name >>= fun _ => m.verify names) := rfl
    rw [hcons, bind_eq_ok, List.forall_mem_cons, ← ih, ← check_eq_ok]
    exact ⟨fun ⟨u, hu, h⟩ => ⟨hu, h⟩, fun ⟨hu, h⟩ => ⟨(), hu, h⟩⟩

/-- The checks of VERIFY fail with what was parked for the first property that is parked still. -/
theorem verify_eq_error {names : List String} {fault : Fault} :
    m.verify names = .error fault ↔
      ∃ before name after v, names = before ++ name :: after ∧
        (∀ other ∈ before, m.parkedAt other = none) ∧ m.parkedAt name = some v ∧
        v.fault = fault := by
  constructor
  · intro h
    induction names with
    | nil => cases h
    | cons name names ih =>
      have hcons : (m.check name >>= fun _ => m.verify names) = .error fault := h
      unfold check at hcons
      cases hparked : m.parkedAt name with
      | some v =>
        rw [hparked] at hcons
        cases hcons
        exact ⟨[], name, names, v, rfl, fun _ hnone => (nomatch hnone), hparked, rfl⟩
      | none =>
        rw [hparked] at hcons
        obtain ⟨before, other, after, v, rfl, hbefore, hv, hfault⟩ := ih hcons
        exact ⟨name :: before, other, after, v, rfl,
          List.forall_mem_cons.2 ⟨hparked, hbefore⟩, hv, hfault⟩
  · rintro ⟨before, name, after, v, rfl, hbefore, hv, rfl⟩
    have hfirst : m.verify before = .ok () := verify_eq_ok.2 hbefore
    unfold verify at hfirst ⊢
    rw [List.foldlM_append, hfirst]
    show (m.check name >>= fun _ => m.verify after) = .error v.fault
    unfold check
    rw [hv]
    rfl

/-- Every property with a parked value will be checked. -/
def Checked (m : Alignment) : Prop := ∀ name, m.parkedAt name ≠ none → name ∈ m.checks

/-- Applying parked values parks none. -/
theorem keptWhenApplied_parked (P : Prop) : KeptWhenApplied fun v? _ => v? ≠ none → P := by
  intro live₀ v x? value? _ _ h
  exact absurd rfl h

theorem Checked.beginUpdate (h : m.Checked) (name : String) : (m.beginUpdate name).Checked := by
  intro other hother
  by_cases hname : other = name
  · rw [hname, parkedAt_beginUpdate_self] at hother
    exact absurd rfl hother
  · rw [m.parkedAt_beginUpdate_of_ne hname] at hother
    exact h other hother

theorem Checked.retry (h : m.Checked) : (m.retry cfg).Checked := by
  intro name
  rw [checks_retry]
  exact retry_keeps_at (J := fun v? _ => v? ≠ none → name ∈ m.checks)
    (keptWhenApplied_parked _) (h name)

theorem Checked.defer (h : m.Checked) (name : String) (model : Attributes) (fault : Fault) :
    (m.defer booting name model fault).Checked := by
  intro other hother
  show other ∈ m.checks ++ [name]
  by_cases hname : other = name
  · exact List.mem_append_right _ (List.mem_singleton.2 hname)
  · rw [parkedAt_defer_of_ne booting hname] at hother
    exact List.mem_append_left _ (h other hother)

theorem Checked.update (h : m.Checked) (u : PendingUpdate) : (m.update cfg booting u).Checked := by
  unfold Alignment.update
  cases u.effect with
  | apply =>
    cases intendedValue m.live u.model with
    | ok value? =>
      have hset : ((m.beginUpdate u.name).setLive cfg u.name value?).Checked :=
        h.beginUpdate u.name
      exact hset.retry
    | error fault => exact (h.beginUpdate u.name).defer u.name u.model fault
  | reload => exact h
  | none => exact h

theorem Checked.updateAll (h : m.Checked) (us : List PendingUpdate) :
    (m.updateAll cfg booting us).Checked := by
  induction us generalizing m with
  | nil => exact h
  | cons u us ih => exact ih (h.update u)

theorem Checked.pass (h : m.Checked) : (m.pass cfg).2.Checked := by
  intro name
  rw [checks_pass]
  exact pass_keeps_at (J := fun v? _ => v? ≠ none → name ∈ m.checks)
    (keptWhenApplied_parked _) (h name)

theorem settle_snd (cfg : PropertyConfig) (m : Alignment) : (m.settle cfg).2 = (m.pass cfg).2 := by
  unfold settle
  split
  · rename_i m' h
    rw [h]
  · rename_i fault m' h
    rw [h]

/-- Where a transaction settles, nothing is parked any more. -/
theorem parkedAt_of_settle_ok (hm : m.Checked) (h : m.settle cfg = (.ok (), m')) (name : String) :
    m'.parkedAt name = none := by
  have hpass : (m.pass cfg).2 = m' ∧ m'.verify m'.checks = .ok () := by
    unfold settle at h
    split at h
    · rename_i m₁ hpass
      obtain ⟨hverify, rfl⟩ := Prod.mk.inj h
      exact ⟨by rw [hpass], hverify⟩
    · cases h
  have hchecked : m'.Checked := hpass.1 ▸ hm.pass
  cases hparked : m'.parkedAt name with
  | none => rfl
  | some v =>
    have hmem := hchecked name (by rw [hparked]; exact Option.some_ne_none v)
    rw [← hparked, verify_eq_ok.1 hpass.2 name hmem]

/-- No parked value resolves. -/
def Stuck (m : Alignment) : Prop :=
  ∀ ⦃name v⦄, m.parkedAt name = some v → ∃ fault, intendedValue m.live v.model = .error fault

/-- `retry` leaves none behind that resolves. -/
theorem stuck_retry (cfg : PropertyConfig) (m : Alignment) : (m.retry cfg).Stuck := by
  intro name v hv
  unfold retry parkedAt at *
  cases hp : m.parked? with
  | none =>
    rw [hp] at hv
    dsimp only at hv
    rw [hp] at hv
    cases hv
  | some p =>
    rw [hp] at hv
    exact ParkedValues.error_of_resolvable_eq_nil (p.resolvable_retry cfg m.live) hv

/-- A value that does not resolve is parked with those that do not. -/
theorem Stuck.park (h : m.Stuck) {name : String} {model : Attributes} {fault : Fault}
    (hvalue : intendedValue m.live model = .error fault) :
    ((m.beginUpdate name).defer booting name model fault).Stuck := by
  intro other v hv
  by_cases hname : other = name
  · rw [hname, parkedAt_defer_self] at hv
    cases hv
    exact ⟨fault, hvalue⟩
  · rw [parkedAt_defer_of_ne booting hname, m.parkedAt_beginUpdate_of_ne hname] at hv
    exact h hv

theorem Stuck.update (h : m.Stuck) (u : PendingUpdate) : (m.update cfg booting u).Stuck := by
  unfold Alignment.update
  cases u.effect with
  | apply =>
    cases hvalue : intendedValue m.live u.model with
    | ok value? => exact stuck_retry cfg _
    | error fault => exact h.park hvalue
  | reload => exact h
  | none => exact h

theorem Stuck.updateAll (h : m.Stuck) (us : List PendingUpdate) :
    (m.updateAll cfg booting us).Stuck := by
  induction us generalizing m with
  | nil => exact h
  | cons u us ih => exact ih (h.update u)

/-- The pass over values that do not resolve applies none. -/
theorem applyNamed_of_unresolvable (cfg : PropertyConfig) {p : ParkedValues}
    {live : LiveProperties}
    (h : ∀ ⦃name v⦄, p.get? name = some v → ∃ fault, intendedValue live v.model = .error fault)
    (names : List String) : (p.applyNamed cfg names live).2 = (p, live) := by
  induction names with
  | nil => rfl
  | cons name names ih =>
    unfold ParkedValues.applyNamed
    cases hv : p.get? name with
    | none => exact ih
    | some v =>
      obtain ⟨fault, hfault⟩ := h hv
      dsimp only
      rw [hfault]

/-- The pass over values that do not resolve fails just if one of them is to be applied. -/
theorem applyNamed_eq_ok (cfg : PropertyConfig) {p : ParkedValues} {live : LiveProperties}
    (h : ∀ ⦃name v⦄, p.get? name = some v → ∃ fault, intendedValue live v.model = .error fault)
    {names : List String} :
    (p.applyNamed cfg names live).1 = .ok () ↔ ∀ name ∈ names, p.get? name = none := by
  induction names with
  | nil => exact ⟨fun _ _ hname => (nomatch hname), fun _ => rfl⟩
  | cons name names ih =>
    rw [List.forall_mem_cons, ParkedValues.applyNamed]
    cases hv : p.get? name with
    | none => exact ih.trans ⟨fun hnone => ⟨rfl, hnone⟩, fun hnone => hnone.2⟩
    | some v =>
      obtain ⟨fault, hfault⟩ := h hv
      dsimp only
      rw [hfault]
      exact ⟨fun hok => (nomatch hok), fun hnone => (nomatch hnone.1)⟩

/-- What is parked does not resolve. -/
theorem Stuck.error_of_parked (h : m.Stuck) {p : ParkedValues} (hp : m.parked? = some p) :
    ∀ ⦃name v⦄, p.get? name = some v → ∃ fault, intendedValue m.live v.model = .error fault := by
  intro name v hv
  have hparked : m.parkedAt name = some v := by
    unfold parkedAt
    rw [hp]
    exact hv
  exact h hparked

/-- The strict pass leaves a process alone in which no parked value resolves. -/
theorem Stuck.pass_snd (h : m.Stuck) : (m.pass cfg).2 = m := by
  unfold pass
  cases hp : m.parked? with
  | none => rfl
  | some p =>
    dsimp only
    split
    · have hsame := applyNamed_of_unresolvable cfg (h.error_of_parked hp) p.values.keys
      unfold ParkedValues.applyStrictly
      rw [hsame, ← hp]
    · rfl

/-- Where no parked value resolves, the strict pass fails just if there is one. -/
theorem Stuck.pass_eq_ok_iff (h : m.Stuck) :
    (m.pass cfg).1 = .ok () ↔ (m.passQueued = true → ∀ name, m.parkedAt name = none) := by
  unfold pass passQueued parkedAt
  cases hp : m.parked? with
  | none => exact ⟨fun _ _ _ => rfl, fun _ => rfl⟩
  | some p =>
    dsimp only
    split
    · rename_i hqueued
      refine (applyNamed_eq_ok cfg (h.error_of_parked hp)).trans ⟨fun hnone _ name => ?_, fun hnone =>
        fun name _ => hnone hqueued name⟩
      by_cases hname : name ∈ p.values.keys
      · exact hnone name hname
      · rw [SortedMap.mem_keys_iff, Bool.not_eq_true, Option.isSome_eq_false_iff] at hname
        exact Option.isNone_iff_eq_none.1 hname
    · rename_i hqueued
      exact ⟨fun _ hq => absurd hq hqueued, fun _ => rfl⟩

/-- Where no parked value resolves, a transaction settles just if nothing is parked. -/
theorem Stuck.settle_eq_ok_iff (h : m.Stuck) (hm : m.Checked) :
    m.settle cfg = (.ok (), m) ↔ ∀ name, m.parkedAt name = none := by
  refine ⟨parkedAt_of_settle_ok hm, fun hnone => ?_⟩
  have hboth : m.pass cfg = (.ok (), m) := Prod.ext (h.pass_eq_ok_iff.2 fun _ => hnone) h.pass_snd
  unfold settle
  rw [hboth]
  dsimp only
  rw [verify_eq_ok.2 fun name _ => hnone name]

end Settling

end Alignment

end ManagedModel
