import ManagedModel.Proofs.Course.Transaction

/-! # Submissions of built-in operations

    What a submission of built-in operations comes to, given the course of its
    transaction.

    * `Settles` relates the state before a submission to its result and to the
      state after it: the model, the live properties and the request for a
      reload are as the course tells, and the held ranges as before.
    * `settles_of_submit` says that every answer is of this kind.
    * `exists_submit` says that there is an answer where no range is held that
      is needed and the limit on steps exceeds the number of operations. -/

namespace ManagedModel

namespace Controller

variable {X : Signature} {c : Controller X.withProperties} {cfg : PropertyConfig} {booting : Bool}
  {accepted : List (Operation × RegisteredOperation (ModelHandler X.Handler))}
  {s s' : ControllerState X.withProperties}

/-- The operation is carried out by a built-in handler, if it is offered at all. -/
def IsBuiltIn (c : Controller X.withProperties) (op : Operation) : Prop :=
  ∀ entry, c.registry.operation? op.address op.name = some entry → entry.handler.IsBuiltIn

/-- The operation is carried out by a resource handler, and declared read-only just if it reads. -/
def IsGeneric (c : Controller X.withProperties) (op : Operation) : Prop :=
  ∀ entry, c.registry.operation? op.address op.name = some entry →
    ∃ h, entry.handler = .resource h ∧ (entry.schema.isReadOnly = true → h.IsRead)

theorem IsGeneric.isBuiltIn {op : Operation} (h : c.IsGeneric op) : c.IsBuiltIn op := by
  intro entry hentry
  obtain ⟨handler, heq, -⟩ := h entry hentry
  rw [heq]
  trivial

/-- The state and the result that the course of a transaction settles. -/
structure Settles (c : Controller X.withProperties) (cfg : PropertyConfig) (booting : Bool)
    (accepted : List (Operation × RegisteredOperation (ModelHandler X.Handler)))
    (s : ControllerState X.withProperties) (r : Except Failure (List Value × Nat))
    (s' : ControllerState X.withProperties) : Prop where
  result_eq : r = (c.course cfg booting accepted s).1.map fun results =>
    (results, s'.store.version)
  store_eq : s'.store = (c.course cfg booting accepted s).2.store
  reload_eq : s'.reload = (c.course cfg booting accepted s).2.reload
  environment_eq : s'.environment = (c.course cfg booting accepted s).2.environment
  booting_eq : s'.booting = s.booting
  held_eq : s'.locks.held = s.locks.held
  tidy : s'.Tidy

theorem Settles.course_eq {p : List Value × Nat} (h : Settles c cfg booting accepted s (.ok p) s') :
    (c.course cfg booting accepted s).1 = .ok p.1 := by
  have hresult := h.result_eq
  cases hcourse : (c.course cfg booting accepted s).1 with
  | error failure =>
    rw [hcourse] at hresult
    cases hresult
  | ok results =>
    rw [hcourse] at hresult
    cases hresult
    rfl

theorem Settles.course_eq_error {failure : Failure}
    (h : Settles c cfg booting accepted s (.error failure) s') :
    (c.course cfg booting accepted s).1 = .error failure := by
  have hresult := h.result_eq
  cases hcourse : (c.course cfg booting accepted s).1 with
  | error failure' =>
    rw [hcourse] at hresult
    cases hresult
    rfl
  | ok results =>
    rw [hcourse] at hresult
    cases hresult

/-! ### Settlement -/

/-- Neither the locks nor the next id have a part in the course. -/
theorem course_frame (c : Controller X.withProperties) (cfg : PropertyConfig) (booting : Bool)
    (accepted : List (Operation × RegisteredOperation (ModelHandler X.Handler)))
    (s : ControllerState X.withProperties) (nextId : Nat) (locks : HeldLocks) :
    c.course cfg booting accepted { s with nextId, locks } =
      ((c.course cfg booting accepted s).1,
        { (c.course cfg booting accepted s).2 with nextId, locks }) := by
  unfold course
  have hdraft : draftOf accepted { s with nextId, locks } = draftOf accepted s := rfl
  rw [hdraft]
  cases (draftOf accepted s).run c.registry.resource? (c.effect cfg booting)
    (tasksOf accepted) with
  | error cause => rfl
  | ok d =>
    dsimp only
    rcases (({ live := s.environment.live } : Alignment).updateAll cfg booting d.updates).settle
      cfg with ⟨outcome, m⟩
    cases outcome <;> rfl

/-- The course leaves alone what a transaction does not own. -/
theorem course_others (c : Controller X.withProperties) (cfg : PropertyConfig) (booting : Bool)
    (accepted : List (Operation × RegisteredOperation (ModelHandler X.Handler)))
    (s : ControllerState X.withProperties) :
    (c.course cfg booting accepted s).2.locks = s.locks ∧
      (c.course cfg booting accepted s).2.nextId = s.nextId ∧
      (c.course cfg booting accepted s).2.booting = s.booting ∧
      (c.course cfg booting accepted s).2.reload.requesters = s.reload.requesters := by
  unfold course
  cases (draftOf accepted s).run c.registry.resource? (c.effect cfg booting)
    (tasksOf accepted) with
  | error cause => exact ⟨rfl, rfl, rfl, rfl⟩
  | ok d =>
    dsimp only
    rcases (({ live := s.environment.live } : Alignment).updateAll cfg booting d.updates).settle
      cfg with ⟨outcome, m⟩
    cases outcome with
    | error cause => exact ⟨rfl, rfl, rfl, rfl⟩
    | ok u =>
      refine ⟨rfl, rfl, rfl, ?_⟩
      unfold published
      dsimp only
      split <;> rfl

theorem isBuiltIn_of_acceptAll {ops : List Operation} (hops : ∀ op ∈ ops, c.IsBuiltIn op)
    (hacc : c.acceptAll booting ops = .ok accepted) : ∀ a ∈ accepted, a.2.handler.IsBuiltIn := by
  intro a ha
  exact hops a.1 (mem_of_acceptAll hacc a ha) a.2 (operation?_of_acceptAll hacc a ha)

/-- The state after a transaction that took its course and gave its lock back. -/
theorem settles_of_state_eq (hs : s.Tidy) {lock : Option Lock}
    {locked t : ControllerState X.withProperties}
    (hlock : lock? (writeScope (S := X.withProperties) accepted) (withNextId s) = some (lock, locked))
    (ht : t = (c.course cfg booting accepted locked).2) :
    Settles c cfg booting accepted s
      ((c.course cfg booting accepted locked).1.map fun results => (results, t.store.version))
      (unlock lock t) := by
  have hlocked : locked = { s with nextId := s.nextId + 1, locks := locked.locks } :=
    locked_eq hlock
  -- the course ran in the locked state; it would have been the same without the lock
  have hframe := course_frame c cfg booting accepted s (s.nextId + 1) locked.locks
  rw [← hlocked] at hframe
  obtain ⟨-, -, hbooting, hrequesters⟩ := course_others c cfg booting accepted s
  have htlocks : t.locks = locked.locks := by rw [ht, hframe]
  refine ⟨?_, ?_, ?_, ?_, ?_, ?_, ?_⟩
  · rw [hframe, store_unlock]
  · rw [store_unlock, ht, hframe]
  · rw [reload_unlock, ht, hframe]
  · rw [environment_unlock, ht, hframe]
  · rw [booting_unlock, ht, hframe, hbooting]
  · exact (held_unlock (tidy_withNextId hs) hlock htlocks).1
  · refine tidy_unlock (tidy_withNextId hs) hlock htlocks ?_ ?_
    · rw [ht, hframe]
      rfl
    · rw [ht, hframe, hrequesters]
      rfl

/-- Every answer to built-in operations comes about in one of three ways. -/
theorem settles_of_submit (hc : c.RunsModel cfg) (hs : s.Tidy) {ops : List Operation}
    (hops : ∀ op ∈ ops, c.IsBuiltIn op) {r : Except Failure (List Value × Nat)}
    (h : c.submit booting ops s = .ok (r, s')) :
    (ops = [] ∧ r = .ok ([], s.store.version) ∧ s' = withNextId s) ∨
      (∃ cause, c.acceptAll booting ops = .error cause ∧ r = .error { cause } ∧
        s' = withNextId s) ∨
      ∃ accepted, c.acceptAll booting ops = .ok accepted ∧
        s.locks.conflicts (writeScope (S := X.withProperties) accepted) = false ∧
        Settles c cfg booting accepted s r s' := by
  rcases submit_cases h with hempty | hrefused |
    ⟨⟨accepted, lock, locked, ended, hacc, hlock, hended, rfl, rfl⟩⟩
  · exact .inl hempty
  · exact .inr (.inl hrefused)
  · have hfree : s.locks.conflicts (writeScope (S := X.withProperties) accepted) = false :=
      conflicts_of_lock? (s := withNextId s) hlock
    refine .inr (.inr ⟨accepted, hacc, hfree, ?_⟩)
    have hbuilt := isBuiltIn_of_acceptAll hops hacc
    have hid := requesters_of_lock? hs hlock
    rcases conclude_eq_course hc booting hbuilt hid with ⟨hnone, -⟩ | ⟨f, hsome, hf⟩
    · rw [hnone] at hended
      cases hended
    · rw [hsome] at hended
      cases hended
      exact settles_of_state_eq hs hlock hf

/-- Submissions of built-in operations keep the state tidy. -/
theorem tidy_of_isBuiltIn (hc : c.RunsModel cfg) (hs : s.Tidy) {sub : Submission}
    (hops : ∀ op ∈ sub.operations, c.IsBuiltIn op) {outcome : Outcome}
    (h : c.perform sub s = .ok (outcome, s')) : s'.Tidy := by
  obtain ⟨r, s₁, hsubmit, -, rfl⟩ := perform_eq_ok.1 h
  have hs₁ : s₁.Tidy := by
    rcases settles_of_submit hc hs hops hsubmit with ⟨-, -, rfl⟩ | ⟨-, -, -, rfl⟩ |
      ⟨accepted, -, -, hsettles⟩
    · exact tidy_withNextId hs
    · exact tidy_withNextId hs
    · exact hsettles.tidy
  exact hs₁.after sub

/-- The answer to operations whose lock is granted is the course of their transaction, where the
    limit on steps exceeds the number of operations. -/
theorem submit_eq_course (hc : c.RunsModel cfg) (hs : s.Tidy) {ops : List Operation}
    (hops : ∀ op ∈ ops, c.IsBuiltIn op) (hne : ops ≠ []) (hlimit : ops.length < c.stepLimit)
    (hacc : c.acceptAll booting ops = .ok accepted) {lock : Option Lock}
    {locked : ControllerState X.withProperties}
    (hlock : lock? (writeScope (S := X.withProperties) accepted) (withNextId s) =
      some (lock, locked)) :
    c.submit booting ops s =
      .ok ((c.course cfg booting accepted locked).1.map fun results =>
          (results, (c.course cfg booting accepted locked).2.store.version),
        unlock lock (c.course cfg booting accepted locked).2) := by
  have hlength : accepted.length = ops.length := by
    rw [← (acceptAll_eq_ok.1 hacc).1, List.length_map]
  rcases conclude_eq_course hc booting (isBuiltIn_of_acceptAll hops hacc)
    (requesters_of_lock? hs hlock) with ⟨-, hle⟩ | ⟨f, hsome, hf⟩
  -- the limit would have to be exceeded
  · omega
  · rw [submit_of_locked hne hacc hlock, hsome]
    dsimp only
    rw [hf]

/-- There is an answer where nothing is in the way. -/
theorem exists_submit (hc : c.RunsModel cfg) (hs : s.Tidy) {ops : List Operation}
    (hops : ∀ op ∈ ops, c.IsBuiltIn op) (hne : ops ≠ []) (hlimit : ops.length < c.stepLimit)
    (hacc : c.acceptAll booting ops = .ok accepted)
    (hfree : s.locks.conflicts (writeScope (S := X.withProperties) accepted) = false) :
    ∃ r s', c.submit booting ops s = .ok (r, s') ∧ Settles c cfg booting accepted s r s' := by
  obtain ⟨lock, locked, hlock⟩ := exists_lock (s := withNextId s) hfree
  exact ⟨_, _, submit_eq_course hc hs hops hne hlimit hacc hlock,
    settles_of_state_eq hs hlock rfl⟩

end Controller

end ManagedModel
