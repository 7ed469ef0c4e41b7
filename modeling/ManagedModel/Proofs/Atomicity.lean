import ManagedModel.Proofs.Registration

/-! # Atomicity

    A submission that fails leaves no trace.

    * For whatever handlers, as long as they act on their transaction alone, the
      committed model, the request for a reload and the held ranges are as
      before (`unchanged_of_error`).
    * For the handlers of resource operations and of system properties the live
      properties are as before, too (`live_unchanged_of_error`).

    The second part rests on the ways back that RUNTIME registers. A property
    either has one, and then the oldest one leads back to the value at the
    beginning, or it was neither changed nor parked (`Restorable`). -/

namespace ManagedModel

/-! ### Going back -/

/-- The value that the ways back of a property lead to: that of the oldest one, which is gone
    last. -/
def restored? (name : String) : List Undo → Option (Option String)
  | [] => none
  | .restore other prior? :: us =>
    restored? name us <|> if other = name then some prior? else none
  | .withdrawReload :: us => restored? name us

theorem restored?_restore (name other : String) (prior? : Option String) (us : List Undo) :
    restored? name (.restore other prior? :: us) =
      (restored? name us <|> if other = name then some prior? else none) := rfl

theorem get?_undo_self (cfg : PropertyConfig) (name : String) (prior? : Option String)
    (live : LiveProperties) : ((Undo.restore name prior?).run cfg live).get? name = prior? := by
  show (if live.get? name = prior? then live else cfg.apply name prior? live).get? name = prior?
  by_cases h : live.get? name = prior?
  · rw [if_pos h, h]
  · rw [if_neg h, cfg.get?_apply_self]

theorem get?_undo_of_ne (cfg : PropertyConfig) {name other : String} (h : other ≠ name)
    (prior? : Option String) (live : LiveProperties) :
    ((Undo.restore name prior?).run cfg live).get? other = live.get? other := by
  show (if live.get? name = prior? then live else cfg.apply name prior? live).get? other = _
  split
  · rfl
  · rw [cfg.get?_apply_of_ne h]

theorem get?_undoAll (cfg : PropertyConfig) (name : String) (us : List Undo)
    (live : LiveProperties) :
    (undoAll cfg us live).get? name = (restored? name us).getD (live.get? name) := by
  -- the newest way back is gone first, so an older one of the same property has the last word
  induction us generalizing live with
  | nil => rfl
  | cons u us ih =>
    show (undoAll cfg us (u.run cfg live)).get? name = _
    rw [ih]
    cases u with
    | restore other prior? =>
      rw [restored?_restore]
      cases restored? name us with
      | some prior => rfl
      | none =>
        by_cases h : other = name
        · subst h
          rw [if_pos rfl, get?_undo_self]
          rfl
        · rw [if_neg h, get?_undo_of_ne cfg fun e => h e.symm]
          rfl
    | withdrawReload => rfl

/-! ### What can be restored -/

namespace Alignment

variable {cfg : PropertyConfig} {booting : Bool} {live₀ : LiveProperties} {name : String}
  {m : Alignment}

/-- The property is not parked and has the given live value. -/
def Untouched (x? : Option String) (v? : Option ParkedValue) (y? : Option String) : Prop :=
  v? = none ∧ y? = x?

/-- The ways back lead to the value that the property had, or there is none and the property was
    neither changed nor parked. -/
def Restorable (live₀ : LiveProperties) (name : String) (m : Alignment) : Prop :=
  restored? name m.undo = some (live₀.get? name) ∨
    restored? name m.undo = none ∧ Untouched (live₀.get? name) (m.parkedAt name) (m.live.get? name)

/-- A property that is not parked is not touched by applying parked values. -/
theorem keptWhenApplied_untouched (x? : Option String) : KeptWhenApplied (Untouched x?) := by
  intro live v y? value? h
  cases h.1

@[simp] theorem undo_retry (cfg : PropertyConfig) (m : Alignment) :
    (m.retry cfg).undo = m.undo := by
  unfold retry
  split <;> rfl

@[simp] theorem undo_pass (cfg : PropertyConfig) (m : Alignment) :
    (m.pass cfg).2.undo = m.undo := by
  unfold pass
  split
  · rfl
  · split <;> rfl

theorem undo_update (cfg : PropertyConfig) (booting : Bool) (m : Alignment) (u : PendingUpdate) :
    (m.update cfg booting u).undo =
      match u.effect with
      | .apply => .restore u.name (m.live.get? u.name) :: m.undo
      | .reload => .withdrawReload :: m.undo
      | .none => m.undo := by
  unfold update
  cases u.effect with
  | apply =>
    dsimp only
    split
    · rw [undo_retry]
      rfl
    · rfl
  | reload => rfl
  | none => rfl

/-- A change that leaves the ways back alone, and the property itself if it has none. -/
theorem Restorable.of_undo_eq {m' : Alignment} (h : Restorable live₀ name m)
    (hundo : restored? name m'.undo = restored? name m.undo)
    (hkept : Untouched (live₀.get? name) (m.parkedAt name) (m.live.get? name) →
      Untouched (live₀.get? name) (m'.parkedAt name) (m'.live.get? name)) :
    Restorable live₀ name m' := by
  rcases h with hcovered | ⟨hnone, huntouched⟩
  · left
    rw [hundo, hcovered]
  · right
    refine ⟨?_, hkept huntouched⟩
    rw [hundo, hnone]

/-- An update that does not reach the process at once changes no property. -/
theorem Restorable.update_of_ne_apply (h : Restorable live₀ name m) {u : PendingUpdate}
    (hu : u.effect ≠ .apply) : Restorable live₀ name (m.update cfg booting u) := by
  unfold Alignment.update
  cases heffect : u.effect with
  | apply => exact absurd heffect hu
  | reload => exact h.of_undo_eq rfl id
  | none => exact h

/-- Every update registers the way back before it changes a property. -/
theorem Restorable.update (h : Restorable live₀ name m) (u : PendingUpdate) :
    Restorable live₀ name (m.update cfg booting u) := by
  by_cases hu : u.effect = .apply
  · have hundo := undo_update cfg booting m u
    rw [hu] at hundo
    by_cases hne : name = u.name
    · left
      rw [hundo, hne, restored?_restore]
      -- an older way back counts; without one the value is still that at the beginning
      rcases h with hcovered | ⟨hnone, -, hlive⟩
      · rw [← hne, hcovered]
        rfl
      · rw [← hne, hnone, if_pos rfl, hlive]
        rfl
    -- the retry after the update may apply parked values of other properties, but each of these
    -- has its way back since it was parked
    · refine h.of_undo_eq ?_ ?_
      · rw [hundo, restored?_restore, if_neg fun e => hne e.symm]
        cases restored? name m.undo <;> rfl
      · exact update_keeps_at_of_ne (keptWhenApplied_untouched (live₀.get? name)) hne
  · exact h.update_of_ne_apply hu

theorem Restorable.updateAll (h : Restorable live₀ name m) (us : List PendingUpdate) :
    Restorable live₀ name (m.updateAll cfg booting us) := by
  induction us generalizing m with
  | nil => exact h
  | cons u us ih => exact ih (h.update u)

theorem Restorable.pass (h : Restorable live₀ name m) : Restorable live₀ name (m.pass cfg).2 := by
  refine h.of_undo_eq ?_ ?_
  · rw [undo_pass]
  · exact pass_keeps_at (keptWhenApplied_untouched (live₀.get? name))

/-- Going all the ways back restores every property. -/
theorem values_undoAll (cfg : PropertyConfig) (booting : Bool) (live₀ : LiveProperties)
    (us : List PendingUpdate) :
    (undoAll cfg ((({ live := live₀ } : Alignment).updateAll cfg booting us).settle cfg).2.undo
      ((({ live := live₀ } : Alignment).updateAll cfg booting us).settle cfg).2.live).values =
        live₀.values := by
  -- property by property: the first way back of each leads to the beginning
  apply SortedMap.ext_get?
  intro name
  have hbegin : Restorable live₀ name { live := live₀ } := .inr ⟨rfl, rfl, rfl⟩
  have hend : Restorable live₀ name
      ((({ live := live₀ } : Alignment).updateAll cfg booting us).pass cfg).2 :=
    (hbegin.updateAll us).pass
  rw [settle_snd]
  show (undoAll cfg _ _).get? name = live₀.get? name
  rw [get?_undoAll]
  rcases hend with hcovered | ⟨hnone, -, hlive⟩
  · rw [hcovered]
    rfl
  · rw [hnone]
    exact hlive

end Alignment

/-! ### Failed submissions -/

namespace Controller

/-- The shared state is as before: the model and its version, the reload flag and the held
    ranges. -/
structure SameShared {S : Signature} (s s' : ControllerState S) : Prop where
  tree_eq : s'.store.tree = s.store.tree
  version_eq : s'.store.version = s.store.version
  reloadRequired_eq : s'.reload.isRequired = s.reload.isRequired
  held_eq : s'.locks.held = s.locks.held

/-- Leaving boot mode shows in nothing else. -/
theorem SameShared.after {S : Signature} {s s' : ControllerState S} (h : SameShared s s')
    (sub : Submission) : SameShared s (sub.after s') := by
  cases sub with
  | execute op => exact h
  | executeAll ops => exact h
  | boot ops => exact ⟨h.tree_eq, h.version_eq, h.reloadRequired_eq, h.held_eq⟩

/-- Whatever handlers do to their transaction, others see nothing of it where it fails. -/
theorem unchanged_of_error {S : Signature} {c : Controller S}
    (hc : ∀ h op, (c.handle h op).Uninterrupted) {s s' : ControllerState S} (hs : s.Tidy)
    {sub : Submission} {failure : Failure} (h : c.perform sub s = .ok (.error failure, s')) :
    SameShared s s' := by
  obtain ⟨r, s₁, hsubmit, houtcome, rfl⟩ := perform_eq_ok.1 h
  refine SameShared.after ?_ sub
  rcases submit_cases hsubmit with ⟨-, rfl, -⟩ | ⟨cause, -, -, rfl⟩ |
    ⟨⟨accepted, lock, locked, ended, hacc, hlock, hended, rfl, rfl⟩⟩
  -- no operations: no failure
  · cases houtcome
  -- refused by the check at the beginning
  · exact ⟨rfl, rfl, rfl, rfl⟩
  -- failed in some stage, and unwound
  · have hlocked := locked_eq hlock
    have hshared := leavesShared_conclude (requesters_of_lock? hs hlock) hc (begin_isolated _ _)
      hended
    cases hend : ended.outcome with
    | ok results =>
      rw [hend] at houtcome
      cases houtcome
    | error failure' =>
      have hstore := hshared.store_eq hend
      have hreload := hshared.reload_eq hend
      have hheld := (held_unlock (tidy_withNextId hs) hlock hshared.locks_eq).1
      refine ⟨?_, ?_, ?_, hheld⟩
      · rw [store_unlock, hstore, hlocked]
        rfl
      · rw [store_unlock, hstore, hlocked]
        rfl
      · rw [reload_unlock, hreload, hlocked]
        rfl

section

variable {X : Signature} {c : Controller X.withProperties} {cfg : PropertyConfig}
  {s s' : ControllerState X.withProperties}

/-- Where a transaction of built-in operations fails, its course ends where it began. -/
theorem course_of_error {booting : Bool}
    {accepted : List (Operation × RegisteredOperation (ModelHandler X.Handler))}
    {failure : Failure} (h : (c.course cfg booting accepted s).1 = .error failure) :
    (c.course cfg booting accepted s).2.store = s.store ∧
      (c.course cfg booting accepted s).2.reload = s.reload ∧
      (c.course cfg booting accepted s).2.environment.live.values = s.environment.live.values := by
  cases hd : (draftOf accepted s).run c.registry.resource? (c.effect cfg booting)
      (tasksOf accepted) with
  | error cause =>
    rw [course_of_draft_error hd]
    exact ⟨rfl, rfl, rfl⟩
  | ok d =>
    rcases hsettle : (({ live := s.environment.live } : Alignment).updateAll cfg booting
      d.updates).settle cfg with ⟨outcome, m⟩
    cases outcome with
    | error cause =>
      rw [course_of_settle_error hd hsettle]
      have hvalues := Alignment.values_undoAll cfg booting s.environment.live d.updates
      rw [hsettle] at hvalues
      exact ⟨rfl, rfl, hvalues⟩
    | ok u =>
      rw [course_of_settle_ok hd hsettle] at h
      cases h

/-- Where built-in operations fail, nothing of them is to be seen, not even in the process. -/
theorem live_unchanged_of_error (hc : c.RunsModel cfg) (hs : s.Tidy) {sub : Submission}
    (hsub : ∀ op ∈ sub.operations, c.IsBuiltIn op) {failure : Failure}
    (h : c.perform sub s = .ok (.error failure, s')) :
    SameShared s s' ∧ s'.environment.live.values = s.environment.live.values := by
  obtain ⟨r, s₁, hsubmit, houtcome, rfl⟩ := perform_eq_ok.1 h
  suffices hs₁ : SameShared s s₁ ∧ s₁.environment.live.values = s.environment.live.values by
    refine ⟨hs₁.1.after sub, ?_⟩
    rw [Submission.environment_after]
    exact hs₁.2
  rcases settles_of_submit hc hs hsub hsubmit with ⟨-, rfl, -⟩ | ⟨cause, -, -, rfl⟩ |
    ⟨accepted, -, -, hsettles⟩
  · cases houtcome
  · exact ⟨⟨rfl, rfl, rfl, rfl⟩, rfl⟩
  · cases hcourse : (c.course cfg (sub.inBootMode s.booting) accepted s).1 with
    | ok results =>
      rw [hsettles.result_eq, hcourse] at houtcome
      cases houtcome
    | error failure' =>
      obtain ⟨hstore, hreload, hlive⟩ := course_of_error hcourse
      refine ⟨⟨?_, ?_, ?_, hsettles.held_eq⟩, ?_⟩
      · rw [hsettles.store_eq, hstore]
      · rw [hsettles.store_eq, hstore]
      · rw [hsettles.reload_eq, hreload]
      · rw [hsettles.environment_eq, hlive]

end

/-- A failed submission leaves no trace. Handlers that act on their transaction alone leave the
    model, its version, the reload flag and the held ranges as they were, and those of resource
    operations and system properties leave the live properties as they were, too. -/
theorem no_trace_of_failure :
    (∀ {S : Signature} {c : Controller S}, (∀ h op, (c.handle h op).Uninterrupted) →
      ∀ {s s' : ControllerState S}, s.Tidy → ∀ {sub : Submission} {failure : Failure},
        c.perform sub s = .ok (.error failure, s') → SameShared s s') ∧
    (∀ {X : Signature} {c : Controller X.withProperties} {cfg : PropertyConfig}, c.RunsModel cfg →
      ∀ {s s' : ControllerState X.withProperties}, s.Tidy → ∀ {sub : Submission},
        (∀ op ∈ sub.operations, c.IsBuiltIn op) → ∀ {failure : Failure},
          c.perform sub s = .ok (.error failure, s') →
            SameShared s s' ∧ s'.environment.live.values = s.environment.live.values) :=
  ⟨fun hc _ _ hs _ _ h => unchanged_of_error hc hs h,
    fun hc _ _ hs _ hsub _ h => live_unchanged_of_error hc hs hsub h⟩

/-- The controller of a handler that adds a resource and asks for a reload, and then fails. -/
def stumbling : Controller { Signature.bare with Handler := Unit } where
  registry := { globals := (∅ : SortedMap String _).insert "stumble" ⟨{ name := "stumble" }, ()⟩ }
  handle _ op :=
    (Program.createAt op.address).bind fun _ => .askReload (.fail (.validation (.custom "stumbled")))
  interlude := fun code => code.elim
  stepLimit := 5

theorem uninterrupted_stumbling (op : Operation) :
    (stumbling.handle () op).Uninterrupted := by
  intro r
  cases r <;> trivial

/-- A handler of its own that fails after it changed the model; and properties of which one is
    applied by a retry before another one turns out to have no value. -/
theorem no_trace_of_stumbling :
    (∃ failure s', stumbling.perform (.execute { name := "stumble", address := ⟨[⟨"a", "b"⟩]⟩ })
        { environment := () } = .ok (.error failure, s') ∧
      SameShared { environment := () } s') ∧
    ∃ failure s', (bare { updater? := some {} } 5).perform
        (.boot [Property.addRequest "p" (some "$\x7bq\x7d") none,
          Property.addRequest "q" (some "v") none, Property.addRequest "r" (some "$\x7bz\x7d") none])
        .bare = .ok (.error failure, s') ∧
      SameShared .bare s' ∧ s'.environment.live.values = ∅ := by
  constructor
  · have hrun : stumbling.answers (.execute { name := "stumble", address := ⟨[⟨"a", "b"⟩]⟩ })
        { environment := () } (fun outcome _ => !outcome.isOk) = true := by
      decide +kernel
    obtain ⟨outcome, s', h, hfailed⟩ := exists_of_answers hrun
    cases outcome with
    | ok response => cases hfailed
    | error failure =>
      refine ⟨failure, s', h, no_trace_of_failure.1 (fun _ => uninterrupted_stumbling) ?_ h⟩
      exact ⟨fun _ => rfl, fun _ h => (nomatch h)⟩
  · have hrun : (bare { updater? := some {} } 5).answers
        (.boot [Property.addRequest "p" (some "$\x7bq\x7d") none,
          Property.addRequest "q" (some "v") none, Property.addRequest "r" (some "$\x7bz\x7d") none])
        .bare (fun outcome _ => !outcome.isOk) = true := by
      decide +kernel
    obtain ⟨outcome, s', h, hfailed⟩ := exists_of_answers hrun
    cases outcome with
    | ok response => cases hfailed
    | error failure =>
      exact ⟨failure, s', h, no_trace_of_failure.2 (runsModel_bare _ _) ControllerState.tidy_bare
        (fun op _ => isBuiltIn_bare _ _ op) h⟩

end Controller

end ManagedModel
