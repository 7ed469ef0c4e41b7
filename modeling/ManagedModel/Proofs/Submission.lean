import ManagedModel.Proofs.Isolation

/-! # Submissions

    The three ways to submit operations to a controller, as data, and what
    they have in common.

    * `submit_cases` tells the ways in which a submission comes to an answer.
    * `ControllerState.Tidy` says that the ids of transactions and the owners of
      locks that are still to be given out are not in use. States begin tidy
      and every submission keeps them so (`tidy_perform`).
    * A lock that is taken and given back leaves the held ranges as they were
      (`held_unlock`). -/

namespace ManagedModel

/-- A list of operations submitted to a controller, in one of three ways. -/
inductive Submission where
  | execute (op : Operation)
  | executeAll (ops : List Operation)
  | boot (ops : List Operation)

namespace Submission

/-- The operations submitted, in order. -/
def operations : Submission → List Operation
  | execute op => [op]
  | executeAll ops | boot ops => ops

/-- Whether the transaction runs in boot mode, given whether the controller does. -/
def inBootMode (booting : Bool) : Submission → Bool
  | execute _ | executeAll _ => booting
  | boot _ => true

/-- The controller's state after the transaction has ended. -/
def after {S : Signature} (s : ControllerState S) : Submission → ControllerState S
  | execute _ | executeAll _ => s
  | boot _ => Controller.leaveBoot s

theorem store_after {S : Signature} (sub : Submission) (s : ControllerState S) :
    (sub.after s).store = s.store := by
  cases sub <;> rfl

theorem environment_after {S : Signature} (sub : Submission) (s : ControllerState S) :
    (sub.after s).environment = s.environment := by
  cases sub <;> rfl

/-- The result in the answer, given those of the operations. -/
def result (results : List Value) : Submission → Value
  | execute _ => results.getLast?.getD .undefined
  | executeAll _ | boot _ => .list results

end Submission

/-- The signature of models without handlers of their own. -/
@[reducible] def Signature.bare : Signature where
  Handler := Empty
  Environment := Unit
  Interlude := Empty
  slots := { Code := Empty, Carrier := fun code => code.elim }

variable {S : Signature}

/-- Nothing on record bears an id or an owner that is still to be given out. Every state that a
    controller reaches is so. -/
structure ControllerState.Tidy (s : ControllerState S) : Prop where
  requesters_lt : ∀ {id : Nat}, s.nextId ≤ id → s.reload.requesters.get? id = none
  owners_lt : ∀ h ∈ s.locks.held, h.1 < s.locks.freshOwner

/-- Leaving boot mode keeps the state tidy. -/
theorem ControllerState.Tidy.after {s : ControllerState S} (h : s.Tidy) (sub : Submission) :
    (sub.after s).Tidy := by
  cases sub with
  | execute op => exact h
  | executeAll ops => exact h
  | boot ops => exact ⟨h.requesters_lt, h.owners_lt⟩

namespace Controller

variable {c : Controller S}

/-- Carries out a submission. -/
def perform (c : Controller S) (sub : Submission) (s : ControllerState S) :
    Except Stall (Outcome × ControllerState S) :=
  match sub with
  | .execute op => c.execute op s
  | .executeAll ops => c.executeAll ops s
  | .boot ops => c.boot ops s

/-- The answer to a submission, given how its transaction ended. -/
def answer (sub : Submission) (r : Except Failure (List Value × Nat) × ControllerState S) :
    Outcome × ControllerState S :=
  (r.1.map fun p => respond (sub.after r.2) (sub.result p.1) p.2, sub.after r.2)

theorem perform_eq (c : Controller S) (sub : Submission) (s : ControllerState S) :
    c.perform sub s =
      (c.submit (sub.inBootMode s.booting) sub.operations s).map (answer sub) := by
  cases sub with
  | execute op =>
    show c.execute op s = (c.submit s.booting [op] s).map _
    unfold execute
    cases c.submit s.booting [op] s <;> rfl
  | executeAll ops =>
    show c.executeAll ops s = (c.submit s.booting ops s).map _
    unfold executeAll
    cases c.submit s.booting ops s <;> rfl
  | boot ops =>
    show c.boot ops s = (c.submit true ops s).map _
    unfold boot
    cases c.submit true ops s <;> rfl

/-! ### Acceptance -/

theorem accept_eq_ok {booting : Bool} {op : Operation} {entry : RegisteredOperation S.Handler} :
    c.accept booting op = .ok entry ↔
      c.registry.operation? op.address op.name = some entry ∧
        (entry.schema.isBootOnly && !booting) = false ∧
        AttributeSchema.checkRequest entry.schema.parameters op.params = .ok () := by
  unfold accept
  cases hentry : c.registry.operation? op.address op.name with
  | none => simp
  | some e =>
    by_cases hboot : e.schema.isBootOnly && !booting
    · simp only [hboot, if_true, reduceCtorEq, Option.some.injEq, false_iff]
      rintro ⟨rfl, hfalse, -⟩
      rw [hboot] at hfalse
      cases hfalse
    · simp only [hboot, Option.some.injEq]
      cases hcheck : AttributeSchema.checkRequest e.schema.parameters op.params with
      | error fault =>
        refine ⟨fun h => (nomatch h), ?_⟩
        rintro ⟨rfl, -, hok⟩
        rw [hcheck] at hok
        cases hok
      | ok u =>
        constructor
        · intro h
          cases h
          exact ⟨rfl, Bool.eq_false_iff.2 hboot, hcheck⟩
        · rintro ⟨rfl, -, -⟩
          rfl

theorem acceptAll_cons {booting : Bool} {op : Operation} {ops : List Operation}
    {accepted : List (Operation × RegisteredOperation S.Handler)} :
    c.acceptAll booting (op :: ops) = .ok accepted ↔
      ∃ entry rest, c.accept booting op = .ok entry ∧ c.acceptAll booting ops = .ok rest ∧
        accepted = (op, entry) :: rest := by
  rw [acceptAll]
  cases c.accept booting op with
  | error fault => simp [bind, Except.bind]
  | ok entry =>
    cases c.acceptAll booting ops with
    | error fault => simp [bind, Except.bind]
    | ok rest =>
      simp only [bind, Except.bind, pure, Except.pure, Except.ok.injEq]
      exact ⟨fun h => ⟨entry, rest, rfl, rfl, h.symm⟩, fun ⟨_, _, he, hr, h⟩ => by rw [h, he, hr]⟩

/-- The operations accepted are those submitted, each with the entry that it was accepted by. -/
theorem acceptAll_eq_ok {booting : Bool} {ops : List Operation}
    {accepted : List (Operation × RegisteredOperation S.Handler)} :
    c.acceptAll booting ops = .ok accepted ↔
      accepted.map (·.1) = ops ∧ ∀ a ∈ accepted, c.accept booting a.1 = .ok a.2 := by
  induction ops generalizing accepted with
  | nil =>
    constructor
    · intro h
      cases h
      exact ⟨rfl, fun a ha => (nomatch ha)⟩
    · rintro ⟨hmap, -⟩
      rw [List.map_eq_nil_iff.1 hmap]
      rfl
  | cons op ops ih =>
    rw [acceptAll_cons]
    constructor
    · rintro ⟨entry, rest, hop, hrest, rfl⟩
      obtain ⟨hmap, hall⟩ := ih.1 hrest
      refine ⟨by rw [List.map_cons, hmap], ?_⟩
      intro a ha
      rcases List.mem_cons.1 ha with rfl | ha
      · exact hop
      · exact hall a ha
    · rintro ⟨hmap, hall⟩
      obtain ⟨⟨op', entry⟩, rest, rfl, rfl, hrest⟩ := List.map_eq_cons_iff.1 hmap
      refine ⟨entry, rest, hall _ List.mem_cons_self, ih.2 ⟨hrest, ?_⟩, rfl⟩
      intro a ha
      exact hall a (List.mem_cons_of_mem _ ha)

theorem operation?_of_acceptAll {booting : Bool} {ops : List Operation}
    {accepted : List (Operation × RegisteredOperation S.Handler)}
    (h : c.acceptAll booting ops = .ok accepted) :
    ∀ a ∈ accepted, c.registry.operation? a.1.address a.1.name = some a.2 := by
  intro a ha
  exact (accept_eq_ok.1 ((acceptAll_eq_ok.1 h).2 a ha)).1

/-- What is accepted was submitted. -/
theorem mem_of_acceptAll {booting : Bool} {ops : List Operation}
    {accepted : List (Operation × RegisteredOperation S.Handler)}
    (h : c.acceptAll booting ops = .ok accepted) : ∀ a ∈ accepted, a.1 ∈ ops := by
  intro a ha
  rw [← (acceptAll_eq_ok.1 h).1]
  exact List.mem_map_of_mem ha

/-- Operations that are accepted are accepted in every order. -/
theorem acceptAll_perm {booting : Bool} {ops ops' : List Operation} (hperm : ops.Perm ops')
    {accepted : List (Operation × RegisteredOperation S.Handler)}
    (h : c.acceptAll booting ops = .ok accepted) :
    ∃ accepted', c.acceptAll booting ops' = .ok accepted' ∧ accepted.Perm accepted' := by
  induction hperm generalizing accepted with
  | nil => exact ⟨accepted, h, .refl _⟩
  | cons op hperm ih =>
    obtain ⟨entry, rest, hentry, hrest, rfl⟩ := acceptAll_cons.1 h
    obtain ⟨rest', hrest', hperm'⟩ := ih hrest
    exact ⟨(op, entry) :: rest', acceptAll_cons.2 ⟨entry, rest', hentry, hrest', rfl⟩,
      hperm'.cons _⟩
  | swap op op' ops =>
    obtain ⟨entry', _, hentry', hmore, rfl⟩ := acceptAll_cons.1 h
    obtain ⟨entry, rest, hentry, hrest, rfl⟩ := acceptAll_cons.1 hmore
    refine ⟨(op, entry) :: (op', entry') :: rest, ?_, .swap _ _ rest⟩
    exact acceptAll_cons.2 ⟨entry, _, hentry, acceptAll_cons.2 ⟨entry', rest, hentry', hrest, rfl⟩,
      rfl⟩
  | trans hperm₁ hperm₂ ih₁ ih₂ =>
    obtain ⟨accepted₁, h₁, hperm₁'⟩ := ih₁ h
    obtain ⟨accepted₂, h₂, hperm₂'⟩ := ih₂ h₁
    exact ⟨accepted₂, h₂, hperm₁'.trans hperm₂'⟩

theorem acceptAll_error_of_perm {booting : Bool} {ops ops' : List Operation}
    (hperm : ops.Perm ops') {cause : Fault} (h : c.acceptAll booting ops = .error cause) :
    ∃ cause', c.acceptAll booting ops' = .error cause' := by
  cases h' : c.acceptAll booting ops' with
  | error cause' => exact ⟨cause', rfl⟩
  | ok accepted' =>
    obtain ⟨accepted, haccepted, -⟩ := acceptAll_perm hperm.symm h'
    rw [h] at haccepted
    cases haccepted

/-! ### How a submission comes to an answer -/

/-- The state in which a transaction begins: an id is spent. -/
def withNextId (s : ControllerState S) : ControllerState S := { s with nextId := s.nextId + 1 }

/-- The transaction of accepted operations ran, and its lock was given back. -/
structure Ran (c : Controller S) (booting : Bool) (ops : List Operation) (s : ControllerState S)
    (r : Except Failure (List Value × Nat)) (s' : ControllerState S) where
  accepted : List (Operation × RegisteredOperation S.Handler)
  lock : Option Lock
  locked : ControllerState S
  ended : Ended S
  accepted_eq : c.acceptAll booting ops = .ok accepted
  lock_eq : lock? (writeScope accepted) (withNextId s) = some (lock, locked)
  ended_eq : c.conclude (begin booting s.nextId accepted locked) = some ended
  result_eq : r = ended.outcome.map fun results => (results, ended.final.state.store.version)
  state_eq : s' = unlock lock ended.final.state

theorem submit_cases {booting : Bool} {ops : List Operation} {s s' : ControllerState S}
    {r : Except Failure (List Value × Nat)} (h : c.submit booting ops s = .ok (r, s')) :
    (ops = [] ∧ r = .ok ([], s.store.version) ∧ s' = withNextId s) ∨
      (∃ cause, c.acceptAll booting ops = .error cause ∧ r = .error { cause } ∧
        s' = withNextId s) ∨
      Nonempty (Ran c booting ops s r s') := by
  unfold submit at h
  dsimp only at h
  split at h
  · rename_i hempty
    cases h
    exact .inl ⟨List.isEmpty_iff.1 hempty, rfl, rfl⟩
  · split at h
    · rename_i cause hacc
      cases h
      exact .inr (.inl ⟨cause, hacc, rfl, rfl⟩)
    · rename_i accepted hacc
      split at h
      · cases h
      · rename_i lock locked hlock
        split at h
        · cases h
        · rename_i ended hended
          cases h
          exact .inr (.inr ⟨⟨accepted, lock, locked, ended, hacc, hlock, hended, rfl, rfl⟩⟩)

/-! ### Scopes -/

section Scope

variable {accepted : List (Operation × RegisteredOperation S.Handler)} {locks : HeldLocks}

theorem mem_writeScope {a : Address} :
    a ∈ writeScope accepted ↔
      ∃ x ∈ accepted, x.2.schema.isReadOnly = false ∧ x.1.address = a := by
  unfold writeScope Address.sorted
  rw [SortedSet.mem_toList_ofList, List.mem_map]
  constructor
  · rintro ⟨x, hx, rfl⟩
    obtain ⟨hmem, hwrites⟩ := List.mem_filter.1 hx
    exact ⟨x, hmem, by simpa using hwrites, rfl⟩
  · rintro ⟨x, hmem, hwrites, rfl⟩
    exact ⟨x, List.mem_filter.2 ⟨hmem, by simpa using hwrites⟩, rfl⟩

/-- An operation alone needs no more than a list does that it is part of. -/
theorem writeScope_singleton_subset {x : Operation × RegisteredOperation S.Handler}
    (hx : x ∈ accepted) : writeScope [x] ⊆ writeScope accepted := by
  intro a ha
  obtain ⟨y, hy, hwrites, rfl⟩ := mem_writeScope.1 ha
  rw [List.mem_singleton.1 hy] at hwrites ⊢
  exact mem_writeScope.2 ⟨x, hx, hwrites, rfl⟩

theorem conflicts_eq_false {scope : List Address} :
    locks.conflicts scope = false ↔ ∀ a ∈ scope, ∀ h ∈ locks.held, a.overlaps h.2 = false := by
  unfold HeldLocks.conflicts
  simp only [List.any_eq_false, Bool.not_eq_true]
  exact ⟨fun h a ha l hl => h l hl a ha, fun h l hl a ha => h a ha l hl⟩

/-- No range is in the way of operations that change nothing. -/
@[simp] theorem conflicts_nil (locks : HeldLocks) : locks.conflicts [] = false :=
  conflicts_eq_false.2 fun _ ha => nomatch ha

/-- Held ranges are in the way of a list just if they are in the way of one of its operations. -/
theorem conflicts_writeScope :
    locks.conflicts (writeScope accepted) = false ↔
      ∀ x ∈ accepted, locks.conflicts (writeScope [x]) = false := by
  constructor
  · intro h x hx
    rw [conflicts_eq_false] at h ⊢
    exact fun a ha => h a (writeScope_singleton_subset hx ha)
  · intro h
    rw [conflicts_eq_false]
    intro a ha
    obtain ⟨x, hx, hwrites, rfl⟩ := mem_writeScope.1 ha
    have halone := h x hx
    rw [conflicts_eq_false] at halone
    exact halone x.1.address (mem_writeScope.2 ⟨x, List.mem_singleton_self x, hwrites, rfl⟩)

/-- The order of the operations does not matter for what is locked. -/
theorem writeScope_perm {accepted' : List (Operation × RegisteredOperation S.Handler)}
    (hperm : accepted.Perm accepted') : writeScope accepted = writeScope accepted' := by
  unfold writeScope Address.sorted
  refine congrArg SortedSet.toList (SortedSet.ofList_eq_of_mem_iff ?_)
  exact fun _ => ((hperm.filter _).map _).mem_iff

theorem conflicts_congr {locks' : HeldLocks} (h : locks'.held = locks.held)
    (scope : List Address) : locks'.conflicts scope = locks.conflicts scope := by
  unfold HeldLocks.conflicts
  rw [h]

/-- A lock is granted where no range is held that is needed. -/
theorem conflicts_of_lock? {scope : List Address} {s locked : ControllerState S}
    {lock : Option Lock} (h : lock? scope s = some (lock, locked)) :
    s.locks.conflicts scope = false := by
  unfold lock? at h
  split at h
  · rename_i hempty
    rw [List.isEmpty_iff.1 hempty, conflicts_nil]
  · obtain ⟨p, hp, -⟩ := Option.map_eq_some_iff.1 h
    unfold HeldLocks.acquire? at hp
    split at hp
    · cases hp
    · rename_i hfree
      exact Bool.eq_false_iff.2 hfree

/-- Where no range is held that is needed, a lock is granted. -/
theorem exists_lock {scope : List Address} {s : ControllerState S}
    (hfree : s.locks.conflicts scope = false) :
    ∃ lock locked, lock? scope s = some (lock, locked) := by
  unfold lock?
  split
  · exact ⟨none, s, rfl⟩
  · unfold HeldLocks.acquire?
    rw [hfree]
    exact ⟨_, _, rfl⟩

end Scope

/-! ### How a transaction concludes -/

section Conclude

variable {f f₁ f₂ : InFlight S}

theorem conclude_of_none (h : f.run c = none) : c.conclude f = none := by
  unfold conclude
  rw [h]

theorem conclude_of_error {cause : Fault} (h : f.run c = some (.error cause, f₁)) :
    c.conclude f = some ⟨.error (f₁.abort cause).1, (f₁.abort cause).2⟩ := by
  unfold conclude
  rw [h]

theorem conclude_of_ok (h : f.run c = some (.ok (), f₁)) (hcommit : f₁.commit = (.ok (), f₂)) :
    c.conclude f = some ⟨.ok f₂.transaction.results, f₂⟩ := by
  unfold conclude
  rw [h]
  dsimp only
  rw [hcommit]

end Conclude

/-! ### Answers -/

/-- Operations that are not accepted are refused at once. -/
theorem submit_of_refused {booting : Bool} {ops : List Operation} {s : ControllerState S}
    {cause : Fault} (hne : ops ≠ []) (hacc : c.acceptAll booting ops = .error cause) :
    c.submit booting ops s = .ok (.error { cause }, withNextId s) := by
  unfold submit
  dsimp only
  rw [if_neg (by simpa using hne), hacc]
  rfl

/-- Operations have to wait for a range that is held. -/
theorem submit_of_conflicts {booting : Bool} {ops : List Operation} {s : ControllerState S}
    {accepted : List (Operation × RegisteredOperation S.Handler)} (hne : ops ≠ [])
    (hacc : c.acceptAll booting ops = .ok accepted)
    (hheld : s.locks.conflicts (writeScope accepted) = true) :
    c.submit booting ops s = .error .lockHeld := by
  have hlock : lock? (writeScope accepted) (withNextId s) = none := by
    unfold lock?
    split
    · rename_i hempty
      rw [List.isEmpty_iff.1 hempty, conflicts_nil] at hheld
      cases hheld
    · unfold HeldLocks.acquire?
      rw [show (withNextId s).locks = s.locks from rfl, hheld]
      rfl
  unfold submit
  dsimp only
  rw [if_neg (by simpa using hne), hacc]
  dsimp only
  rw [show ({ s with nextId := s.nextId + 1 } : ControllerState S) = withNextId s from rfl, hlock]

/-- The answer to operations that are accepted and whose lock is granted is how their transaction
    concludes. -/
theorem submit_of_locked {booting : Bool} {ops : List Operation} {s locked : ControllerState S}
    {accepted : List (Operation × RegisteredOperation S.Handler)} {lock : Option Lock}
    (hne : ops ≠ []) (hacc : c.acceptAll booting ops = .ok accepted)
    (hlock : lock? (writeScope accepted) (withNextId s) = some (lock, locked)) :
    c.submit booting ops s =
      match c.conclude (begin booting s.nextId accepted locked) with
      | none => .error .stepLimit
      | some ended =>
        .ok (ended.outcome.map fun results => (results, ended.final.state.store.version),
          unlock lock ended.final.state) := by
  unfold submit
  dsimp only
  rw [if_neg (by simpa using hne), hacc]
  dsimp only
  rewrite [show ({ s with nextId := s.nextId + 1 } : ControllerState S) = withNextId s from rfl,
    hlock]
  rfl

/-! ### Locks -/

/-- Taking a lock changes nothing but the locks. -/
theorem locked_eq {scope : List Address} {s s' : ControllerState S} {lock : Option Lock}
    (h : lock? scope s = some (lock, s')) : s' = { s with locks := s'.locks } := by
  unfold lock? at h
  split at h
  · cases h
    rfl
  · obtain ⟨p, -, hp⟩ := Option.map_eq_some_iff.1 h
    cases hp
    rfl

section Unlock

variable (lock : Option Lock) (t : ControllerState S)

@[simp] theorem store_unlock : (unlock lock t).store = t.store := by
  cases lock <;> rfl

@[simp] theorem reload_unlock : (unlock lock t).reload = t.reload := by
  cases lock <;> rfl

@[simp] theorem environment_unlock : (unlock lock t).environment = t.environment := by
  cases lock <;> rfl

@[simp] theorem booting_unlock : (unlock lock t).booting = t.booting := by
  cases lock <;> rfl

@[simp] theorem nextId_unlock : (unlock lock t).nextId = t.nextId := by
  cases lock <;> rfl

end Unlock

/-- A lock that is given back leaves the held ranges as they were before it was taken. -/
theorem held_unlock {scope : List Address} {s s' t : ControllerState S} {lock : Option Lock}
    (hs : s.Tidy) (h : lock? scope s = some (lock, s')) (ht : t.locks = s'.locks) :
    (unlock lock t).locks.held = s.locks.held ∧
      s.locks.freshOwner ≤ (unlock lock t).locks.freshOwner := by
  unfold lock? at h
  split at h
  · cases h
    show t.locks.held = s.locks.held ∧ s.locks.freshOwner ≤ t.locks.freshOwner
    rw [ht]
    exact ⟨rfl, Nat.le_refl _⟩
  · obtain ⟨p, hp, he⟩ := Option.map_eq_some_iff.1 h
    cases he
    unfold HeldLocks.acquire? at hp
    split at hp
    · cases hp
    · cases hp
      simp only [unlock, ht, HeldLocks.grant, HeldLocks.release]
      refine ⟨?_, Nat.le_succ _⟩
      rw [List.filter_append]
      -- the new owner holds nothing yet, so that giving back takes away just what was granted
      have hold : s.locks.held.filter (fun h => h.1 != s.locks.freshOwner) = s.locks.held := by
        apply List.filter_eq_self.2
        intro a ha
        have := hs.owners_lt a ha
        simp only [bne_iff_ne, ne_eq]
        omega
      have hnew : (scope.map fun a => (s.locks.freshOwner, a)).filter
          (fun h => h.1 != s.locks.freshOwner) = [] := by
        apply List.filter_eq_nil_iff.2
        intro a ha
        obtain ⟨b, -, rfl⟩ := List.mem_map.1 ha
        simp
      rw [hold, hnew, List.append_nil]

/-! ### Tidy states -/

/-- The id of a transaction that has taken its lock is not on record. -/
theorem requesters_of_lock? {scope : List Address} {s locked : ControllerState S}
    {lock : Option Lock} (hs : s.Tidy) (h : lock? scope (withNextId s) = some (lock, locked)) :
    locked.reload.requesters.get? s.nextId = none := by
  rw [locked_eq h]
  exact hs.requesters_lt (Nat.le_refl _)

theorem tidy_withNextId {s : ControllerState S} (h : s.Tidy) : (withNextId s).Tidy :=
  ⟨fun hid => h.requesters_lt (Nat.le_of_succ_le hid), h.owners_lt⟩

/-- The state after a transaction is tidy if it took nothing but its id and its lock. -/
theorem tidy_unlock {scope : List Address} {s s' t : ControllerState S} {lock : Option Lock}
    (hs : s.Tidy) (h : lock? scope s = some (lock, s')) (ht : t.locks = s'.locks)
    (hn : t.nextId = s.nextId) (hr : t.reload.requesters = s.reload.requesters) :
    (unlock lock t).Tidy := by
  obtain ⟨hheld, hfresh⟩ := held_unlock hs h ht
  refine ⟨?_, ?_⟩
  · intro id hid
    rw [nextId_unlock, hn] at hid
    rw [reload_unlock, hr]
    exact hs.requesters_lt hid
  · intro a ha
    rw [hheld] at ha
    exact Nat.lt_of_lt_of_le (hs.owners_lt a ha) hfresh

theorem perform_eq_ok {sub : Submission} {s s' : ControllerState S} {outcome : Outcome} :
    c.perform sub s = .ok (outcome, s') ↔
      ∃ r s₁, c.submit (sub.inBootMode s.booting) sub.operations s = .ok (r, s₁) ∧
        outcome = (answer sub (r, s₁)).1 ∧ s' = sub.after s₁ := by
  rw [perform_eq]
  constructor
  · intro h
    cases hs : c.submit (sub.inBootMode s.booting) sub.operations s with
    | error stall =>
      rw [hs] at h
      cases h
    | ok p =>
      rw [hs] at h
      cases h
      exact ⟨p.1, p.2, rfl, rfl, rfl⟩
  · rintro ⟨r, s₁, hs, rfl, rfl⟩
    rw [hs]
    rfl

/-- Whether there is an answer to a submission that passes a test. -/
def answers (c : Controller S) (sub : Submission) (s : ControllerState S)
    (test : Outcome → ControllerState S → Bool) : Bool :=
  match c.perform sub s with
  | .ok (outcome, s') => test outcome s'
  | .error _ => false

theorem exists_of_answers {sub : Submission} {s : ControllerState S}
    {test : Outcome → ControllerState S → Bool} (h : c.answers sub s test = true) :
    ∃ outcome s', c.perform sub s = .ok (outcome, s') ∧ test outcome s' = true := by
  unfold answers at h
  split at h
  · rename_i outcome s' hperform
    exact ⟨outcome, s', hperform, h⟩
  · cases h

/-- Every submission keeps the controller's state tidy. -/
theorem tidy_perform (hc : ∀ h op, (c.handle h op).Uninterrupted) {sub : Submission}
    {s s' : ControllerState S} {outcome : Outcome} (hs : s.Tidy)
    (h : c.perform sub s = .ok (outcome, s')) : s'.Tidy := by
  obtain ⟨r, s₁, hsubmit, -, rfl⟩ := perform_eq_ok.1 h
  refine ControllerState.Tidy.after ?_ sub
  rcases submit_cases hsubmit with ⟨-, -, rfl⟩ | ⟨-, -, -, rfl⟩ | ⟨⟨ran⟩⟩
  · exact tidy_withNextId hs
  · exact tidy_withNextId hs
  · have hlocked := locked_eq ran.lock_eq
    have hshared := leavesShared_conclude (requesters_of_lock? hs ran.lock_eq) hc
      (begin_isolated _ _) ran.ended_eq
    rw [ran.state_eq]
    refine tidy_unlock (tidy_withNextId hs) ran.lock_eq hshared.locks_eq ?_ ?_
    · rw [hshared.nextId_eq, hlocked]
    · rw [hshared.requesters_eq, hlocked]

end Controller

end ManagedModel
