import ManagedModel.Proofs.Conformity

/-! # Recovering from changes that fail

    A step handler may attempt a change of the model and go on when it fails.

    * A program fails cleanly if its failure leaves the transaction and its
      controller as they were; what follows then runs as if the program had not
      been called (`Program.FailsCleanly.run_recovering`).
    * A change of an attribute and a removal always fail cleanly. An addition
      does so just if it does not come to a resource whose attributes cannot be
      validated (`Resource.failsCleanly_create`): the resource is added before
      its attributes are looked at. -/

namespace ManagedModel

variable {S : Signature} {α β : Type} {c : Controller S} {f f' : InFlight S}

namespace Program

variable {p : Program S α} {g : α → Program S β}

/-- Where the program fails, the transaction and its controller are as they were. -/
def FailsCleanly (c : Controller S) (p : Program S α) (f : InFlight S) : Prop :=
  ∀ ⦃fault f'⦄, p.run c f = (.error fault, f') → f' = f

/-- The program does not fail. -/
def GoesThrough (c : Controller S) (p : Program S α) (f : InFlight S) : Prop :=
  ∃ a f', p.run c f = (.ok a, f')

theorem GoesThrough.bind {a : α} (h : p.run c f = (.ok a, f')) (hg : (g a).GoesThrough c f') :
    (p.bind g).GoesThrough c f := by
  obtain ⟨b, f₂, hrun⟩ := hg
  exact ⟨b, f₂, (run_bind_of_ok h).trans hrun⟩

theorem GoesThrough.pure (a : α) : (Program.pure a).GoesThrough c f := ⟨a, f, rfl⟩

namespace FailsCleanly

/-- A single change of the working copy. -/
theorem of_write {r : Except Fault (α × WorkingCopy)}
    (h : p.run c f = f.answerOr (f.transaction.write r)) : p.FailsCleanly c f := by
  intro fault f' hfails
  rw [h] at hfails
  rcases f.answerOr_write r with ⟨fault', hrefused⟩ | ⟨-, a, w, -, hgranted⟩
  · rw [hrefused] at hfails
    exact (Prod.mk.inj hfails).2.symm
  · rw [hgranted] at hfails
    cases hfails

/-- What is done first changes nothing. -/
theorem bind_of_run {r : Except Fault α} (h : p.run c f = (r, f))
    (hg : ∀ a, r = .ok a → (g a).FailsCleanly c f) : (p.bind g).FailsCleanly c f := by
  intro fault f' hfails
  cases r with
  | error fault' =>
    rw [run_bind_of_error h] at hfails
    exact (Prod.mk.inj hfails).2.symm
  | ok a =>
    rw [run_bind_of_ok h] at hfails
    exact hg a rfl hfails

/-- What follows goes through. -/
theorem bind_of_goesThrough (h : p.FailsCleanly c f)
    (hg : ∀ ⦃a f₁⦄, p.run c f = (.ok a, f₁) → (g a).GoesThrough c f₁) :
    (p.bind g).FailsCleanly c f := by
  intro fault f' hfails
  rw [run_bind] at hfails
  split at hfails
  · rename_i a f₁ hrun
    obtain ⟨b, f₂, hsecond⟩ := hg hrun
    rw [hsecond] at hfails
    cases hfails
  · rename_i fault' f₁ hrun
    cases hfails
    exact h hrun

/-- A handler that goes on after the failure does what it does then, and nothing else. -/
theorem run_recovering (h : p.FailsCleanly c f) {fault : Fault}
    (hfails : p.run c f = (.error fault, f')) (g : Except Fault α → Program S β) :
    (p.attempt.bind g).run c f = (g (.error fault)).run c f := by
  obtain rfl : f' = f := h hfails
  refine run_bind_of_ok ?_
  rw [run_attempt, hfails]

end FailsCleanly

theorem run_createAt_eq_ok {a : Address} :
    (createAt a).run c f = (.ok (), f') ↔
      f.transaction.stage = .model ∧
        ∃ w, f.transaction.working.create a = .ok w ∧ f' = f.withWorking w := by
  rw [run_createAt]
  constructor
  · intro h
    rcases f.answerOr_write ((f.transaction.working.create a).map fun w => ((), w)) with
      ⟨fault, hrefused⟩ | ⟨hstage, u, w, hw, hgranted⟩
    · rw [hrefused] at h
      cases h
    · obtain ⟨w', hcreate, hw'⟩ := map_eq_ok.1 hw
      cases hw'
      rw [hgranted] at h
      exact ⟨hstage, w, hcreate, (Prod.mk.inj h).2.symm⟩
  · rintro ⟨hstage, w, hcreate, rfl⟩
    rw [hcreate]
    exact InFlight.answerOr_write_ok hstage () w

theorem run_editAt_of_edit {a : Address} {change : Attributes → Attributes} {old : Attributes}
    {w : WorkingCopy} (hstage : f.transaction.stage = .model)
    (hedit : f.transaction.working.edit a change = .ok (old, w)) :
    (editAt a change).run c f = (.ok old, f.withWorking w) := by
  rw [run_editAt, hedit]
  exact InFlight.answerOr_write_ok hstage old w

end Program

namespace Resource

open Program (FailsCleanly)

/-! ### Changes of one kind each -/

theorem failsCleanly_write (op : Operation) : (write op).FailsCleanly c f := by
  -- all that can be wrong with the value is found before the resource is opened
  refine .bind_of_run (Program.run_ofExcept _ f) fun name _ => ?_
  refine .bind_of_run (run_attributeSchema op.address name f) fun d _ => ?_
  refine .bind_of_run (Program.run_ofExcept _ f) fun new _ => ?_
  exact .bind_of_goesThrough (.of_write (Program.run_editAt op.address _ f)) fun _ _ _ => .pure _

theorem failsCleanly_discard (op : Operation) : (discard op).FailsCleanly c f :=
  .of_write (Program.run_removeAt op.address f)

/-- Parameters that cannot be validated leave a resource without attributes behind. -/
theorem run_create_of_invalid {op : Operation} {schema : ResourceSchema} {w : WorkingCopy}
    {fault : Fault} (hstage : f.transaction.stage = .model)
    (hschema : c.registry.resource? op.address = some schema)
    (hcreate : f.transaction.working.create op.address = .ok w)
    (hinvalid : AttributeSchema.validateAll schema.attributes op.params = .error fault) :
    (create op).run c f = (.error fault, f.withWorking w) := by
  have hfound : (Program.schema op.address).run c f = (.ok schema, f) := by
    rw [run_schema]
    unfold schemaAt
    rw [hschema]
  have hadded : (Program.createAt op.address).run c f = (.ok (), f.withWorking w) :=
    Program.run_createAt_eq_ok.2 ⟨hstage, w, hcreate, rfl⟩
  unfold create
  simp only [Program.bind_eq_bind]
  rw [Program.run_bind_of_ok hfound, Program.run_bind_of_ok hadded]
  refine Program.run_bind_of_error ?_
  rw [Program.run_ofExcept, hinvalid]

/-- A resource that was just added can be given its attributes. -/
theorem goesThrough_editAt_of_create {a : Address} {w : WorkingCopy}
    (hstage : f.transaction.stage = .model) (hcreate : f.transaction.working.create a = .ok w)
    (change : Attributes → Attributes) :
    (Program.editAt a change).GoesThrough c (f.withWorking w) := by
  obtain ⟨hscope, t, ht, rfl⟩ := WorkingCopy.create_eq_ok.1 hcreate
  obtain ⟨-, rfl⟩ := Tree.create_eq_ok ht
  refine ⟨∅, _, Program.run_editAt_of_edit hstage (WorkingCopy.edit_eq_ok.2 ⟨hscope, ?_, rfl⟩)⟩
  exact f.transaction.working.tree.get?_put_self a ∅

/-- An addition fails cleanly just if the attributes of every resource that it adds can be
    validated. -/
theorem failsCleanly_create (op : Operation) :
    (create op).FailsCleanly c f ↔
      ∀ schema w, f.transaction.stage = .model → c.registry.resource? op.address = some schema →
        f.transaction.working.create op.address = .ok w →
          ∃ m, AttributeSchema.validateAll schema.attributes op.params = .ok m := by
  constructor
  · intro h schema w hstage hschema hcreate
    cases hvalid : AttributeSchema.validateAll schema.attributes op.params with
    | ok m => exact ⟨m, rfl⟩
    | error fault =>
      -- the resource would have been there before
      have hsame := h (run_create_of_invalid hstage hschema hcreate hvalid)
      have hw : w = f.transaction.working := congrArg (·.transaction.working) hsame
      obtain ⟨-, t, ht, hchanged⟩ := WorkingCopy.create_eq_ok.1 hcreate
      obtain ⟨hfree, rfl⟩ := Tree.create_eq_ok ht
      rw [← hw, hchanged] at hfree
      rw [WorkingCopy.changed, Tree.contains_put_self] at hfree
      cases hfree
  · intro hvalid
    refine .bind_of_run (run_schema op.address f) fun schema hschema => ?_
    have hgoverned : c.registry.resource? op.address = some schema := by
      unfold schemaAt at hschema
      split at hschema
      · cases hschema
        assumption
      · cases hschema
    refine .bind_of_goesThrough (.of_write (Program.run_createAt op.address f)) ?_
    -- once the resource is there, nothing fails any more
    rintro ⟨⟩ f₁ hadded
    obtain ⟨hstage, w, hcreate, rfl⟩ := Program.run_createAt_eq_ok.1 hadded
    obtain ⟨m, hm⟩ := hvalid schema w hstage hgoverned hcreate
    obtain ⟨old, f₂, hedit⟩ := goesThrough_editAt_of_create (c := c) hstage hcreate fun _ => m
    rw [hm]
    exact .bind rfl (.bind hedit (.pure m))

/-- A change of an attribute and a removal leave everything as it was where they fail. So does an
    addition, unless it adds a resource with attributes that cannot be validated: then the resource
    stays behind, without attributes. Where everything is as it was, a handler that goes on does
    what it would do without the change. -/
theorem failsCleanly_changes (c : Controller S) (op : Operation) (f : InFlight S) :
    (write op : Program S AttributeUpdate).FailsCleanly c f ∧
      (discard op : Program S Attributes).FailsCleanly c f ∧
      ((create op : Program S Attributes).FailsCleanly c f ↔
        ∀ schema w, f.transaction.stage = .model →
          c.registry.resource? op.address = some schema →
            f.transaction.working.create op.address = .ok w →
              ∃ m, AttributeSchema.validateAll schema.attributes op.params = .ok m) ∧
      (∀ schema w fault, f.transaction.stage = .model →
        c.registry.resource? op.address = some schema →
          f.transaction.working.create op.address = .ok w →
            AttributeSchema.validateAll schema.attributes op.params = .error fault →
              (create op).run c f = (.error fault, f.withWorking w)) ∧
      ∀ {α β : Type} {p : Program S α}, p.FailsCleanly c f →
        ∀ fault f', p.run c f = (.error fault, f') → ∀ g : Except Fault α → Program S β,
          (p.attempt.bind g).run c f = (g (.error fault)).run c f :=
  ⟨failsCleanly_write op, failsCleanly_discard op, failsCleanly_create op,
    fun _ _ _ hstage hschema hcreate hinvalid =>
      run_create_of_invalid hstage hschema hcreate hinvalid,
    fun h _ _ hfails g => h.run_recovering hfails g⟩

end Resource

namespace Controller

/-- The model with queues, whose operation of their own tries to add a queue that is too large and
    takes no notice of the failure. -/
def probing : Controller ({ Signature.bare with Handler := Unit } : Signature).withProperties :=
  { queueing with
    handle := ModelHandler.program {} fun _ op =>
      (Resource.create (op.withParam "size" (.int 10))).attempt.bind fun _ => .pure () }

/-- The addition fails and is not undone, and what it left of the queue is committed. -/
theorem probing_leaves_queue :
    (∃ (f : InFlight ({ Signature.bare with Handler := Unit } : Signature).withProperties)
        (op : Operation), f.transaction.stage = .model ∧
      ¬ (Resource.create op : Program _ Attributes).FailsCleanly probing f) ∧
    ∃ response s', probing.perform (.execute { name := "probe", address := ⟨[⟨"queue", "q"⟩]⟩ })
        { environment := { other := () } } = .ok (.ok response, s') ∧
      s'.store.tree.get? ⟨[⟨"queue", "q"⟩]⟩ = some ∅ ∧ s'.store.version = 1 := by
  constructor
  · let op : Operation := ({ name := "probe", address := ⟨[⟨"queue", "q"⟩]⟩ } : Operation).withParam
      "size" (.int 10)
    refine ⟨⟨.new 1 false (.ofTree .initial [op.address]) 1, { environment := { other := () } }⟩, op,
      rfl, fun h => ?_⟩
    obtain ⟨m, hm⟩ := (Resource.failsCleanly_create op).1 h _ _ rfl rfl rfl
    cases hm
  · have hrun : probing.answers (.execute { name := "probe", address := ⟨[⟨"queue", "q"⟩]⟩ })
        { environment := { other := () } } (fun outcome s' => outcome.isOk &&
          (s'.store.tree.get? ⟨[⟨"queue", "q"⟩]⟩ == some ∅ && s'.store.version == 1)) = true := by
      decide +kernel
    obtain ⟨outcome, s', h, htest⟩ := exists_of_answers hrun
    obtain ⟨hok, hstored⟩ := Bool.and_eq_true_iff.1 htest
    obtain ⟨hqueue, hversion⟩ := Bool.and_eq_true_iff.1 hstored
    cases outcome with
    | error failure => cases hok
    | ok response => exact ⟨response, s', h, eq_of_beq hqueue, eq_of_beq hversion⟩

end Controller

end ManagedModel
