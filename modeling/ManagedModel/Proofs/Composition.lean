import ManagedModel.Proofs.Registration
import ManagedModel.Proofs.Course.Footprint

/-! # Composition

    A list of operations carried out as one transaction, compared with the same
    operations carried out one after the other.

    * If every operation commits alone, the list commits and leaves the same
      model, live properties and reload flag; its result lists theirs.
    * The converse holds for lists of generic operations, which leave nothing
      for RUNTIME.

    The two executions are kept `Abreast` operation by operation: what one
    transaction has drafted and aligned so far is what the transactions before
    it have committed. Where every operation commits alone, no value is ever
    parked, so that aligning the process after all changes of the model gives
    what aligning it after each of them gives. -/

namespace ManagedModel

/-! ### Updates that resolve -/

namespace PendingUpdate

/-- The live properties after the update, if its value resolves. -/
def liveAfter (cfg : PropertyConfig) (u : PendingUpdate) (live : LiveProperties) :
    Except Fault LiveProperties :=
  match u.effect with
  | .apply => (intendedValue live u.model).map fun value? => cfg.apply u.name value? live
  | .reload | .none => .ok live

/-- Whether the update asks for a reload. -/
def asksReload (u : PendingUpdate) : Bool := u.effect = .reload

/-- The live properties after updates, if all their values resolve. -/
def liveAfterAll (cfg : PropertyConfig) (us : List PendingUpdate) (live : LiveProperties) :
    Except Fault LiveProperties :=
  us.foldlM (fun live u => u.liveAfter cfg live) live

end PendingUpdate

namespace Alignment

variable {cfg : PropertyConfig} {booting : Bool} {m m' : Alignment} {u : PendingUpdate}

/-- Nothing was ever parked. -/
structure IsClear (m : Alignment) : Prop where
  parked_eq : m.parked? = none
  checks_eq : m.checks = []

theorem IsClear.settle (h : m.IsClear) : m.settle cfg = (.ok (), m) := by
  have hpass : m.pass cfg = (.ok (), m) := by
    unfold pass
    rw [h.parked_eq]
  unfold Alignment.settle
  rw [hpass]
  dsimp only
  rw [h.checks_eq]
  rfl

/-- An update that resolves leaves nothing parked. -/
theorem IsClear.update (h : m.IsClear) (booting : Bool) {live : LiveProperties}
    (hlive : u.liveAfter cfg m.live = .ok live) :
    (m.update cfg booting u).IsClear ∧ (m.update cfg booting u).live = live ∧
      (m.update cfg booting u).raised = (m.raised || u.asksReload) := by
  unfold PendingUpdate.liveAfter at hlive
  unfold Alignment.update PendingUpdate.asksReload
  cases heffect : u.effect with
  | apply =>
    rw [heffect] at hlive
    dsimp only at hlive ⊢
    cases hvalue : intendedValue m.live u.model with
    | error fault =>
      rw [hvalue] at hlive
      cases hlive
    | ok value? =>
      rw [hvalue] at hlive
      cases hlive
      -- there is nothing to retry
      have hparked : (m.beginUpdate u.name).parked? = none := by
        unfold beginUpdate
        rw [h.parked_eq]
        rfl
      have hretry : ((m.beginUpdate u.name).setLive cfg u.name value?).retry cfg =
          (m.beginUpdate u.name).setLive cfg u.name value? := by
        unfold retry setLive
        dsimp only
        rw [hparked]
      dsimp only
      rw [hretry]
      exact ⟨⟨hparked, h.checks_eq⟩, rfl, (Bool.or_false _).symm⟩
  | reload =>
    rw [heffect] at hlive
    cases hlive
    exact ⟨⟨h.parked_eq, h.checks_eq⟩, rfl, (Bool.or_true _).symm⟩
  | none =>
    rw [heffect] at hlive
    cases hlive
    exact ⟨h, rfl, (Bool.or_false _).symm⟩

theorem IsClear.updateAll (h : m.IsClear) (booting : Bool) {us : List PendingUpdate}
    {live : LiveProperties}
    (hlive : PendingUpdate.liveAfterAll cfg us m.live = .ok live) :
    (m.updateAll cfg booting us).IsClear ∧ (m.updateAll cfg booting us).live = live ∧
      (m.updateAll cfg booting us).raised = (m.raised || us.any PendingUpdate.asksReload) := by
  induction us generalizing m with
  | nil =>
    cases hlive
    exact ⟨h, rfl, (Bool.or_false _).symm⟩
  | cons u us ih =>
    have hcons : (u.liveAfter cfg m.live >>= PendingUpdate.liveAfterAll cfg us) = .ok live := hlive
    -- induction on the updates: the first of them resolves, so it leaves nothing parked, and
    -- the others begin as it did
    obtain ⟨live₁, hone, hrest⟩ := bind_eq_ok.1 hcons
    obtain ⟨hclear, hlive₁, hraised⟩ := h.update booting hone
    rw [← hlive₁] at hrest
    obtain ⟨hclear', hlive', hraised'⟩ := ih hclear hrest
    refine ⟨hclear', hlive', ?_⟩
    show ((m.update cfg booting u).updateAll cfg booting us).raised = _
    rw [hraised', hraised, List.any_cons, Bool.or_assoc]

/-- A value that is parked with nothing to come stays so, and the transaction fails. -/
theorem IsClear.settle_update_error (h : m.IsClear) {fault : Fault}
    (hlive : u.liveAfter cfg m.live = .error fault) :
    (m.update cfg booting u).settle cfg ≠ (.ok (), m') := by
  have hparked : ∀ name, m.parkedAt name = none := by
    intro name
    unfold parkedAt
    rw [h.parked_eq]
    rfl
  unfold PendingUpdate.liveAfter at hlive
  unfold Alignment.update
  cases heffect : u.effect with
  | reload =>
    rw [heffect] at hlive
    cases hlive
  | none =>
    rw [heffect] at hlive
    cases hlive
  | apply =>
    rw [heffect] at hlive
    dsimp only at hlive ⊢
    cases hvalue : intendedValue m.live u.model with
    | ok value? =>
      rw [hvalue] at hlive
      cases hlive
    | error fault' =>
      dsimp only
      intro hsettle
      -- the value that was just parked is the only one, and nothing has changed since that it
      -- could be resolved with
      have hchecked : ((m.beginUpdate u.name).defer booting u.name u.model fault').Checked := by
        refine Checked.defer (Checked.beginUpdate ?_ u.name) u.name u.model fault'
        exact fun name hname => absurd (hparked name) hname
      have hstuck : ((m.beginUpdate u.name).defer booting u.name u.model fault').Stuck := by
        refine Stuck.park ?_ hvalue
        intro name v hv
        rw [hparked name] at hv
        cases hv
      -- the pass changes nothing, so the value is parked when it is checked
      have hsame : m' = (m.beginUpdate u.name).defer booting u.name u.model fault' := by
        have hsnd := settle_snd cfg ((m.beginUpdate u.name).defer booting u.name u.model fault')
        rw [hsettle, hstuck.pass_snd] at hsnd
        exact hsnd
      have hnone := parkedAt_of_settle_ok hchecked hsettle u.name
      rw [hsame, parkedAt_defer_self] at hnone
      cases hnone

/-- Where the update of one operation settles, it resolves. -/
theorem IsClear.resolves_of_settle (h : m.IsClear) {update? : Option PendingUpdate}
    (hsettle : (m.updateAll cfg booting update?.toList).settle cfg = (.ok (), m')) :
    ∃ live, PendingUpdate.liveAfterAll cfg update?.toList m.live = .ok live := by
  cases update? with
  | none => exact ⟨m.live, rfl⟩
  | some u =>
    cases hlive : u.liveAfter cfg m.live with
    | error fault => exact absurd hsettle (h.settle_update_error hlive)
    | ok live =>
      refine ⟨live, ?_⟩
      show (u.liveAfter cfg m.live >>= PendingUpdate.liveAfterAll cfg []) = .ok live
      rw [hlive]
      rfl

end Alignment

/-! ### One operation -/

namespace Controller

variable {X : Signature} {c : Controller X.withProperties} {cfg : PropertyConfig}
  {s t t' : ControllerState X.withProperties} {op : Operation}
  {entry : RegisteredOperation (ModelHandler X.Handler)} {o : Delivery} {w : WorkingCopy}
  {live : LiveProperties}

/-- The draft of an operation that is carried out alone. -/
def draftAlone (c : Controller X.withProperties) (cfg : PropertyConfig)
    (t : ControllerState X.withProperties) (op : Operation)
    (entry : RegisteredOperation (ModelHandler X.Handler)) : Except Fault (Delivery × WorkingCopy) :=
  entry.handler.draft c.registry.resource? (c.effect cfg t.booting) op
    (.ofTree t.store.tree (writeScope (S := X.withProperties) [(op, entry)]))

/-- The state after a transaction that committed the tree, applied the updates and came to the
    live properties given. -/
structure Follows (t : ControllerState X.withProperties) (tree : Tree) (us : List PendingUpdate)
    (live : LiveProperties) (t' : ControllerState X.withProperties) : Prop where
  tree_eq : t'.store.tree = tree
  live_eq : t'.environment.live = live
  reload_eq : t'.reload =
    if us.any PendingUpdate.asksReload then { t.reload with committed := true } else t.reload
  booting_eq : t'.booting = t.booting
  held_eq : t'.locks.held = t.locks.held
  tidy : t'.Tidy

theorem run_draftOf_singleton (c : Controller X.withProperties) (cfg : PropertyConfig)
    (t : ControllerState X.withProperties) (op : Operation)
    (entry : RegisteredOperation (ModelHandler X.Handler)) :
    (draftOf [(op, entry)] t).run c.registry.resource? (c.effect cfg t.booting)
        (tasksOf [(op, entry)]) =
      (c.draftAlone cfg t op entry).map fun p =>
        { working := p.2, results := [p.1.result?.getD .undefined]
          updates := p.1.update?.toList } := by
  have hdraft : entry.handler.draft c.registry.resource? (c.effect cfg t.booting) op
      (draftOf [(op, entry)] t).working = c.draftAlone cfg t op entry := rfl
  show Draft.run _ _ [(op, entry.handler)] _ = _
  rw [Draft.run_cons]
  unfold Draft.step
  dsimp only
  rw [hdraft]
  cases c.draftAlone cfg t op entry <;> rfl

/-- An operation whose draft goes through and whose update resolves commits alone. -/
theorem follows_of_settles {r : Except Failure (List Value × Nat)}
    (h : Settles c cfg t.booting [(op, entry)] t r t')
    (hdraft : c.draftAlone cfg t op entry = .ok (o, w))
    (hlive : PendingUpdate.liveAfterAll cfg o.update?.toList t.environment.live = .ok live) :
    r = .ok ([o.result?.getD .undefined], t'.store.version) ∧
      Follows t w.tree o.update?.toList live t' := by
  -- a transaction begins with nothing parked, and one update that resolves leaves it so
  have hclear : ({ live := t.environment.live } : Alignment).IsClear := ⟨rfl, rfl⟩
  obtain ⟨hclear', hlive', hraised⟩ := hclear.updateAll t.booting hlive
  have hrun := run_draftOf_singleton c cfg t op entry
  rw [hdraft] at hrun
  have hcourse := course_of_settle_ok hrun hclear'.settle
  refine ⟨?_, ?_, ?_, ?_, h.booting_eq, h.held_eq, h.tidy⟩
  · rw [h.result_eq, hcourse]
    rfl
  · rw [h.store_eq, hcourse]
    exact published_tree _ hrun
  · rw [h.environment_eq, hcourse]
    exact hlive'
  · rw [h.reload_eq, hcourse]
    show (if (Alignment.updateAll cfg t.booting o.update?.toList _).raised then _ else _) = _
    rw [hraised, Bool.false_or]

/-- The draft of an operation that commits alone goes through, and its update resolves. -/
theorem resolves_of_settles {p : List Value × Nat}
    (h : Settles c cfg t.booting [(op, entry)] t (.ok p) t') :
    ∃ o w live, c.draftAlone cfg t op entry = .ok (o, w) ∧
      PendingUpdate.liveAfterAll cfg o.update?.toList t.environment.live = .ok live := by
  have hresult := h.result_eq
  -- had the draft or the update failed, the course would have ended in a failure
  have hrun := run_draftOf_singleton c cfg t op entry
  cases hdraft : c.draftAlone cfg t op entry with
  | error cause =>
    rw [hdraft] at hrun
    rw [course_of_draft_error hrun] at hresult
    cases hresult
  | ok q =>
    obtain ⟨o, w⟩ := q
    rw [hdraft] at hrun
    rcases hsettle : (({ live := t.environment.live } : Alignment).updateAll cfg t.booting
      o.update?.toList).settle cfg with ⟨outcome, m⟩
    cases outcome with
    | error cause =>
      rw [course_of_settle_error hrun hsettle] at hresult
      cases hresult
    | ok u =>
      have hclear : ({ live := t.environment.live } : Alignment).IsClear := ⟨rfl, rfl⟩
      obtain ⟨live, hlive⟩ := hclear.resolves_of_settle hsettle
      exact ⟨o, w, live, rfl, hlive⟩

/-! ### Keeping abreast -/

/-- The process after the updates of a draft. -/
def aligned (cfg : PropertyConfig) (s : ControllerState X.withProperties) (d : Draft) : Alignment :=
  ({ live := s.environment.live } : Alignment).updateAll cfg s.booting d.updates

/-- What one transaction that began in `s` has come to is what the transactions from `s` to `t`
    have committed. -/
structure Abreast (cfg : PropertyConfig) (s : ControllerState X.withProperties) (d : Draft)
    (t : ControllerState X.withProperties) : Prop where
  tree_eq : t.store.tree = d.working.tree
  clear : (aligned cfg s d).IsClear
  live_eq : t.environment.live = (aligned cfg s d).live
  reload_eq : t.reload =
    if (aligned cfg s d).raised then { s.reload with committed := true } else s.reload
  booting_eq : t.booting = s.booting
  held_eq : t.locks.held = s.locks.held
  tidy : t.Tidy

theorem abreast_start (hs : s.Tidy)
    (accepted : List (Operation × RegisteredOperation (ModelHandler X.Handler))) :
    Abreast cfg s (draftOf accepted s) s :=
  ⟨rfl, ⟨rfl, rfl⟩, rfl, rfl, rfl, rfl, hs⟩

/-- Both executions advance by one operation. -/
theorem Abreast.advance {d d' : Draft} {us : List PendingUpdate} (h : Abreast cfg s d t)
    (hupdates : d'.updates = d.updates ++ us)
    (hlive : PendingUpdate.liveAfterAll cfg us t.environment.live = .ok live)
    (hfollows : Follows t d'.working.tree us live t') : Abreast cfg s d' t' := by
  -- the composite aligns the process with all updates at the end, the sequence with each in
  -- turn; both start from the same live properties
  have haligned : aligned cfg s d' = (aligned cfg s d).updateAll cfg s.booting us := by
    unfold aligned Alignment.updateAll
    rw [hupdates, List.foldl_append]
  rw [h.live_eq] at hlive
  obtain ⟨hclear, hlive', hraised⟩ := h.clear.updateAll s.booting hlive
  refine ⟨hfollows.tree_eq, ?_, ?_, ?_, ?_, ?_, hfollows.tidy⟩
  · rw [haligned]
    exact hclear
  · rw [haligned, hlive']
    exact hfollows.live_eq
  · rw [haligned, hraised, hfollows.reload_eq, h.reload_eq]
    -- a request for a reload stands once it was made
    cases (aligned cfg s d).raised <;> cases us.any PendingUpdate.asksReload <;> rfl
  · rw [hfollows.booting_eq, h.booting_eq]
  · rw [hfollows.held_eq, h.held_eq]

/-! ### Advancing -/

/-- What the answer to an operation carried out alone tells. -/
theorem settles_of_execute (hc : c.RunsModel cfg) (hop : c.IsBuiltIn op) (ht : t.Tidy)
    {response : Response} (h : c.execute op t = .ok (.ok response, t')) :
    ∃ entry p, c.accept t.booting op = .ok entry ∧
      t.locks.conflicts (writeScope (S := X.withProperties) [(op, entry)]) = false ∧
      Settles c cfg t.booting [(op, entry)] t (.ok p) t' ∧
      response.result = p.1.getLast?.getD .undefined := by
  have hperform : c.perform (.execute op) t = .ok (.ok response, t') := h
  obtain ⟨r, t₁, hsubmit, houtcome, rfl⟩ := perform_eq_ok.1 hperform
  cases r with
  | error failure => cases houtcome
  | ok p =>
    rcases settles_of_submit hc ht (List.forall_mem_singleton.2 hop) hsubmit with
      ⟨hempty, -⟩ | ⟨cause, -, hr, -⟩ | ⟨accepted, hacc, hfree, hsettles⟩
    · cases hempty
    · cases hr
    · obtain ⟨entry, rest, haccept, hnil, rfl⟩ := acceptAll_cons.1 hacc
      cases hnil
      cases houtcome
      exact ⟨entry, p, haccept, hfree, hsettles, rfl⟩

theorem liesIn_writeScope_singleton (hwrites : entry.schema.isReadOnly = false) :
    op.address.LiesIn (writeScope (S := X.withProperties) [(op, entry)]) := by
  refine List.any_eq_true.2 ⟨op.address, ?_, ?_⟩
  · exact mem_writeScope.2 ⟨(op, entry), List.mem_singleton_self _, hwrites, rfl⟩
  · exact List.isPrefixOf_iff_prefix.2 (List.prefix_refl _)

theorem liesIn_mono {a : Address} {scope scope' : List Address} (h : a.LiesIn scope)
    (hsub : scope ⊆ scope') : a.LiesIn scope' := by
  obtain ⟨top, htop, hunder⟩ := List.any_eq_true.1 h
  exact List.any_eq_true.2 ⟨top, hsub htop, hunder⟩

/-- An operation that commits alone is drafted by the one transaction, too. -/
theorem Abreast.draft {d : Draft} (h : Abreast cfg s d t)
    (hscope : writeScope (S := X.withProperties) [(op, entry)] ⊆ d.working.scope)
    {response : Response} {p : List Value × Nat}
    (hsettles : Settles c cfg t.booting [(op, entry)] t (.ok p) t')
    (hresult : response.result = p.1.getLast?.getD .undefined) :
    ∃ d', Draft.step c.registry.resource? (c.effect cfg s.booting) d (op, entry.handler) = .ok d' ∧
      d'.results = d.results ++ [response.result] ∧ Abreast cfg s d' t' := by
  obtain ⟨o, w, live, hdraft, hlive⟩ := resolves_of_settles hsettles
  obtain ⟨hp, hfollows⟩ := follows_of_settles hsettles hdraft hlive
  cases hp
  have halike : (WorkingCopy.ofTree t.store.tree (writeScope (S := X.withProperties)
      [(op, entry)])).Alike op.address.LiesIn d.working :=
    ⟨h.tree_eq.symm, fun hlies => liesIn_mono hlies hscope⟩
  obtain ⟨w', hdraft', halike'⟩ := ModelHandler.draft_respects entry.handler halike hdraft
  rw [h.booting_eq] at hdraft'
  refine ⟨_, Draft.step_eq_ok.2 ⟨o, w', hdraft', rfl⟩, ?_, ?_⟩
  · rw [hresult]
    rfl
  · rw [← halike'.tree_eq] at hfollows
    exact h.advance rfl hlive hfollows

/-- A generic operation that the one transaction drafts commits alone, too. -/
theorem Abreast.execute (hc : c.RunsModel cfg) (hlimit : 1 < c.stepLimit) {d d' : Draft}
    (h : Abreast cfg s d t)
    (haccept : c.accept s.booting op = .ok entry)
    (hfree : s.locks.conflicts (writeScope (S := X.withProperties) [(op, entry)]) = false)
    (hgeneric : c.IsGeneric op)
    (hstep : Draft.step c.registry.resource? (c.effect cfg s.booting) d (op, entry.handler) =
      .ok d') :
    ∃ response t', c.execute op t = .ok (.ok response, t') ∧
      d'.results = d.results ++ [response.result] ∧ Abreast cfg s d' t' := by
  obtain ⟨o, w, hdraft, rfl⟩ := Draft.step_eq_ok.1 hstep
  obtain ⟨handler, hhandler, hread⟩ := hgeneric entry (accept_eq_ok.1 haccept).1
  rw [← h.booting_eq] at haccept hdraft
  rw [← conflicts_congr h.held_eq] at hfree
  -- alone, the operation sees the same tree; a change is in its scope, and reading needs none
  have halone : ∃ w', c.draftAlone cfg t op entry = .ok (o, w') ∧ w'.tree = w.tree := by
    by_cases hreads : entry.schema.isReadOnly = true
    · have halike : d.working.Alike (fun _ => True)
          (.ofTree t.store.tree (writeScope (S := X.withProperties) [(op, entry)])) :=
        ⟨h.tree_eq, id⟩
      unfold draftAlone
      rw [hhandler] at hdraft ⊢
      obtain ⟨w', hdraft', halike'⟩ :=
        ModelHandler.draft_respects_of_isRead (hread hreads) halike hdraft
      exact ⟨w', hdraft', halike'.tree_eq⟩
    · have halike : d.working.Alike op.address.LiesIn
          (.ofTree t.store.tree (writeScope (S := X.withProperties) [(op, entry)])) :=
        ⟨h.tree_eq, fun _ => liesIn_writeScope_singleton (Bool.eq_false_iff.2 hreads)⟩
      obtain ⟨w', hdraft', halike'⟩ := ModelHandler.draft_respects entry.handler halike hdraft
      exact ⟨w', hdraft', halike'.tree_eq⟩
  obtain ⟨w', hdraft', htree⟩ := halone
  have hupdate : o.update? = none := by
    rw [hhandler] at hdraft
    exact ModelHandler.update?_of_resource hdraft
  have hlive : PendingUpdate.liveAfterAll cfg o.update?.toList t.environment.live =
      .ok t.environment.live := by
    rw [hupdate]
    rfl
  have hacc : c.acceptAll t.booting [op] = .ok [(op, entry)] :=
    acceptAll_cons.2 ⟨entry, [], haccept, rfl, rfl⟩
  obtain ⟨r, t', hsubmit, hsettles⟩ := exists_submit hc h.tidy
    (List.forall_mem_singleton.2 hgeneric.isBuiltIn) (List.cons_ne_nil op []) hlimit hacc hfree
  obtain ⟨rfl, hfollows⟩ := follows_of_settles hsettles hdraft' hlive
  have hperform : c.perform (.execute op) t = .ok (answer (.execute op)
      (.ok ([o.result?.getD .undefined], t'.store.version), t')) := by
    rw [perform_eq]
    show (c.submit t.booting [op] t).map _ = _
    rw [hsubmit]
    rfl
  refine ⟨_, t', hperform, rfl, ?_⟩
  rw [htree] at hfollows
  exact h.advance rfl hlive hfollows

/-! ### Whole lists -/

/-- Every operation commits when it is carried out alone, one after the other, with the results
    given. -/
inductive CommitsEach (c : Controller X.withProperties) :
    ControllerState X.withProperties → List Operation → List Value →
      ControllerState X.withProperties → Prop where
  | nil (s : ControllerState X.withProperties) : CommitsEach c s [] [] s
  | cons {s s₁ s₂ : ControllerState X.withProperties} {op : Operation} {ops : List Operation}
      {response : Response} {values : List Value} (first : c.execute op s = .ok (.ok response, s₁))
      (rest : CommitsEach c s₁ ops values s₂) :
      CommitsEach c s (op :: ops) (response.result :: values) s₂

/-- Operations that commit alone are accepted as a list, and no held range is in their way. -/
theorem CommitsEach.exists_accepted (hc : c.RunsModel cfg) {ops : List Operation}
    (hops : ∀ op ∈ ops, c.IsBuiltIn op) {values : List Value} (h : CommitsEach c t ops values t')
    (ht : t.Tidy) :
    ∃ accepted, c.acceptAll t.booting ops = .ok accepted ∧
      t.locks.conflicts (writeScope (S := X.withProperties) accepted) = false := by
  induction h with
  | nil s => exact ⟨[], rfl, conflicts_writeScope.2 fun x hx => (nomatch hx)⟩
  | cons first rest ih =>
    obtain ⟨hop, hothers⟩ := List.forall_mem_cons.1 hops
    -- the others are accepted in a later state, but what is accepted depends on the boot mode
    -- alone, and what is in the way on the held ranges; both are as before
    obtain ⟨entry, p, haccept, hfree, hsettles, -⟩ := settles_of_execute hc hop ht first
    obtain ⟨accepted, hacc, hrest⟩ := ih hothers hsettles.tidy
    rw [hsettles.booting_eq] at hacc
    rw [conflicts_congr hsettles.held_eq] at hrest
    refine ⟨_ :: accepted, acceptAll_cons.2 ⟨entry, accepted, haccept, hacc, rfl⟩, ?_⟩
    refine conflicts_writeScope.2 (List.forall_mem_cons.2 ⟨hfree, conflicts_writeScope.1 hrest⟩)

/-- Operations that commit alone are drafted by one transaction. -/
theorem CommitsEach.draft (hc : c.RunsModel cfg) {ops : List Operation}
    (hops : ∀ op ∈ ops, c.IsBuiltIn op) {values : List Value} (h : CommitsEach c t ops values t')
    {d : Draft} (hd : Abreast cfg s d t)
    {accepted : List (Operation × RegisteredOperation (ModelHandler X.Handler))}
    (hacc : c.acceptAll s.booting ops = .ok accepted)
    (hscope : ∀ x ∈ accepted, writeScope (S := X.withProperties) [x] ⊆ d.working.scope) :
    ∃ d', d.run c.registry.resource? (c.effect cfg s.booting) (tasksOf accepted) = .ok d' ∧
      d'.results = d.results ++ values ∧ Abreast cfg s d' t' := by
  induction h generalizing d accepted with
  | nil t =>
    cases hacc
    exact ⟨d, rfl, (List.append_nil _).symm, hd⟩
  | @cons t t₁ t₂ op ops response values first rest ih =>
    obtain ⟨entry, remaining, haccept, hremaining, rfl⟩ := acceptAll_cons.1 hacc
    obtain ⟨hop, hopsRest⟩ := List.forall_mem_cons.1 hops
    obtain ⟨hfirst, hothers⟩ := List.forall_mem_cons.1 hscope
    obtain ⟨entry', p, haccept', -, hsettles, hresult⟩ := settles_of_execute hc hop hd.tidy first
    rw [hd.booting_eq, haccept] at haccept'
    cases haccept'
    -- both executions take the first operation, and are abreast again in `t₁`
    obtain ⟨d₁, hstep, hresults, hd₁⟩ := hd.draft hfirst hsettles hresult
    rw [← Draft.step_scope hstep] at hothers
    obtain ⟨d', hrun, hresults', hd'⟩ := ih hopsRest hd₁ hremaining hothers
    refine ⟨d', ?_, ?_, hd'⟩
    · show Draft.run _ _ ((op, entry.handler) :: tasksOf remaining) d = _
      rw [Draft.run_cons, hstep]
      exact hrun
    · rw [hresults', hresults, List.append_assoc]
      rfl

/-- Generic operations that one transaction drafts commit alone. -/
theorem Abreast.executeEach (hc : c.RunsModel cfg) (hlimit : 1 < c.stepLimit)
    {ops : List Operation} (hgeneric : ∀ op ∈ ops, c.IsGeneric op)
    {accepted : List (Operation × RegisteredOperation (ModelHandler X.Handler))}
    (hacc : c.acceptAll s.booting ops = .ok accepted)
    (hfree : ∀ x ∈ accepted, s.locks.conflicts (writeScope (S := X.withProperties) [x]) = false)
    {d d' : Draft} (hd : Abreast cfg s d t)
    (hrun : d.run c.registry.resource? (c.effect cfg s.booting) (tasksOf accepted) = .ok d') :
    ∃ values t', CommitsEach c t ops values t' ∧ d'.results = d.results ++ values ∧
      Abreast cfg s d' t' := by
  induction ops generalizing t d accepted with
  | nil =>
    cases hacc
    cases hrun
    exact ⟨[], t, .nil t, (List.append_nil _).symm, hd⟩
  | cons op ops ih =>
    obtain ⟨entry, remaining, haccept, hremaining, rfl⟩ := acceptAll_cons.1 hacc
    obtain ⟨hfirst, hothers⟩ := List.forall_mem_cons.1 hfree
    obtain ⟨hgenericOp, hgenericOps⟩ := List.forall_mem_cons.1 hgeneric
    change Draft.run _ _ ((op, entry.handler) :: tasksOf remaining) d = _ at hrun
    rw [Draft.run_cons] at hrun
    split at hrun
    · rename_i d₁ hstep
      -- the sequence follows the draft, one operation at a time
      obtain ⟨response, t₁, hexecute, hresults, hd₁⟩ :=
        hd.execute hc hlimit haccept hfirst hgenericOp hstep
      obtain ⟨values, t', hrest, hresults', hd'⟩ := ih hgenericOps hremaining hothers hd₁ hrun
      refine ⟨response.result :: values, t', .cons hexecute hrest, ?_, hd'⟩
      rw [hresults', hresults, List.append_assoc]
      rfl
    · cases hrun

/-- The two states have the same model, the same live properties with the same record of their
    changes, and the same reload flag. -/
structure Agree (s t : ControllerState X.withProperties) : Prop where
  tree_eq : s.store.tree = t.store.tree
  live_eq : s.environment.live = t.environment.live
  reloadRequired_eq : s.reload.isRequired = t.reload.isRequired

/-- Where both executions are abreast to the end, they agree. -/
theorem Abreast.agree
    {accepted : List (Operation × RegisteredOperation (ModelHandler X.Handler))} {d : Draft}
    (h : Abreast cfg s d t)
    (hrun : (draftOf accepted s).run c.registry.resource? (c.effect cfg s.booting)
      (tasksOf accepted) = .ok d)
    {r : Except Failure (List Value × Nat)} {s' : ControllerState X.withProperties}
    (hsettles : Settles c cfg s.booting accepted s r s') :
    r = .ok (d.results, s'.store.version) ∧ Agree s' t := by
  have hcourse := course_of_settle_ok hrun h.clear.settle
  refine ⟨?_, ?_, ?_, ?_⟩
  · rw [hsettles.result_eq, hcourse]
    rfl
  · rw [hsettles.store_eq, hcourse, h.tree_eq]
    exact published_tree _ hrun
  · rw [hsettles.environment_eq, hcourse, h.live_eq]
    rfl
  · rw [hsettles.reload_eq, hcourse, h.reload_eq]
    rfl

theorem executeAll_of_commitsEach (hc : c.RunsModel cfg) (hs : s.Tidy) {ops : List Operation}
    (hops : ∀ op ∈ ops, c.IsBuiltIn op) (hlimit : ops.length < c.stepLimit) {values : List Value}
    (h : CommitsEach c s ops values t) :
    ∃ response s', c.executeAll ops s = .ok (.ok response, s') ∧
      response.result = .list values ∧ Agree s' t := by
  by_cases hne : ops = []
  · subst hne
    cases h
    exact ⟨_, _, rfl, rfl, rfl, rfl, rfl⟩
  · obtain ⟨accepted, hacc, hfree⟩ := h.exists_accepted hc hops hs
    obtain ⟨r, s', hsubmit, hsettles⟩ := exists_submit hc hs hops hne hlimit hacc hfree
    obtain ⟨d, hrun, hresults, hd⟩ := h.draft hc hops (abreast_start hs accepted) hacc
      fun x hx => writeScope_singleton_subset hx
    obtain ⟨rfl, hagree⟩ := hd.agree hrun hsettles
    have hperform : c.perform (.executeAll ops) s = .ok (answer (.executeAll ops)
        (.ok (d.results, s'.store.version), s')) := by
      rw [perform_eq]
      show (c.submit s.booting ops s).map _ = _
      rw [hsubmit]
      rfl
    refine ⟨_, s', hperform, ?_, hagree⟩
    show Value.list d.results = .list values
    rw [hresults]
    rfl

theorem commitsEach_of_executeAll (hc : c.RunsModel cfg) (hs : s.Tidy) {ops : List Operation}
    (hlimit : ops.length < c.stepLimit)
    (hgeneric : ∀ op ∈ ops, c.IsGeneric op) {response : Response}
    {s' : ControllerState X.withProperties} (h : c.executeAll ops s = .ok (.ok response, s')) :
    ∃ values t, CommitsEach c s ops values t ∧ response.result = .list values ∧ Agree s' t := by
  have hperform : c.perform (.executeAll ops) s = .ok (.ok response, s') := h
  obtain ⟨r, s₁, hsubmit, houtcome, rfl⟩ := perform_eq_ok.1 hperform
  cases r with
  | error failure => cases houtcome
  | ok p =>
    cases houtcome
    by_cases hne : ops = []
    · subst hne
      cases hsubmit
      exact ⟨[], s, .nil s, rfl, rfl, rfl, rfl⟩
    · have hpos : 0 < ops.length := List.length_pos_iff.2 hne
      rcases settles_of_submit hc hs (fun op hop => (hgeneric op hop).isBuiltIn) hsubmit with
        ⟨hempty, -⟩ | ⟨cause, -, hp, -⟩ | ⟨accepted, hacc, hfree, hsettles⟩
      · exact absurd hempty hne
      · cases hp
      · obtain ⟨d, m, hrun, -, -, -⟩ := course_eq_ok hsettles.course_eq
        obtain ⟨values, t, hcommits, hresults, hd⟩ := (abreast_start hs accepted).executeEach hc
          (by omega) hgeneric hacc (conflicts_writeScope.1 hfree) hrun
        obtain ⟨hp, hagree⟩ := hd.agree hrun hsettles
        cases hp
        refine ⟨values, t, hcommits, ?_, hagree⟩
        show Value.list d.results = .list values
        rw [hresults]
        rfl

/-- Operations that commit one after the other commit as one transaction, with the same results,
    the same model, the same live properties and the same reload flag. For generic operations the
    converse holds. -/
theorem transaction_refines_sequence (hc : c.RunsModel cfg) (hs : s.Tidy) {ops : List Operation}
    (hops : ∀ op ∈ ops, c.IsBuiltIn op) (hlimit : ops.length < c.stepLimit) :
    (∀ {values t}, CommitsEach c s ops values t →
      ∃ response s', c.executeAll ops s = .ok (.ok response, s') ∧
        response.result = .list values ∧ Agree s' t) ∧
    ((∀ op ∈ ops, c.IsGeneric op) → ∀ {response s'},
      c.executeAll ops s = .ok (.ok response, s') →
        ∃ values t, CommitsEach c s ops values t ∧ response.result = .list values ∧ Agree s' t) :=
  ⟨executeAll_of_commitsEach hc hs hops hlimit, commitsEach_of_executeAll hc hs hlimit⟩

/-- Two properties, of which one refers to the other; and two reads. -/
theorem transaction_refines_two :
    (∃ values t response s',
      CommitsEach (bare { updater? := some {} } 5) .bare
        [Property.addRequest "p" (some "v") none, Property.addRequest "q" (some "$\x7bp\x7d") none]
        values t ∧
      (bare { updater? := some {} } 5).executeAll
        [Property.addRequest "p" (some "v") none, Property.addRequest "q" (some "$\x7bp\x7d") none]
        .bare = .ok (.ok response, s') ∧
      response.result = .list values ∧ Agree s' t) ∧
    ∃ response s' values t,
      (bare {} 5).executeAll
        [{ name := "read-resource", address := .root }, { name := "read-resource", address := .root }]
        .bare = .ok (.ok response, s') ∧
      CommitsEach (bare {} 5) .bare
        [{ name := "read-resource", address := .root }, { name := "read-resource", address := .root }]
        values t ∧
      response.result = .list values ∧ Agree s' t := by
  constructor
  · have hrun : (bare { updater? := some {} } 5).answers
        (.execute (Property.addRequest "p" (some "v") none)) .bare (fun first s₁ => first.isOk &&
          (bare { updater? := some {} } 5).answers
            (.execute (Property.addRequest "q" (some "$\x7bp\x7d") none)) s₁
            fun second _ => second.isOk) = true := by
      decide +kernel
    obtain ⟨first, s₁, h₁, hrest⟩ := exists_of_answers hrun
    obtain ⟨hfirst, hrest⟩ := Bool.and_eq_true_iff.1 hrest
    obtain ⟨second, s₂, h₂, hsecond⟩ := exists_of_answers hrest
    cases first with
    | error failure => cases hfirst
    | ok response₁ =>
      cases second with
      | error failure => cases hsecond
      | ok response₂ =>
        have hcommits : CommitsEach (bare { updater? := some {} } 5) .bare
            [Property.addRequest "p" (some "v") none,
              Property.addRequest "q" (some "$\x7bp\x7d") none] _ s₂ :=
          .cons h₁ (.cons h₂ (.nil s₂))
        obtain ⟨response, s', h⟩ := (transaction_refines_sequence (runsModel_bare _ _)
          ControllerState.tidy_bare (fun op _ => isBuiltIn_bare _ _ op) (by decide)).1 hcommits
        exact ⟨_, s₂, response, s', hcommits, h⟩
  · have hrun : (bare {} 5).answers (.executeAll [{ name := "read-resource", address := .root },
        { name := "read-resource", address := .root }]) .bare (fun outcome _ => outcome.isOk) =
          true := by
      decide +kernel
    obtain ⟨outcome, s', h, hok⟩ := exists_of_answers hrun
    cases outcome with
    | error failure => cases hok
    | ok response =>
      have hgeneric : ∀ op ∈ [{ name := "read-resource", address := .root },
          ({ name := "read-resource", address := .root } : Operation)], (bare {} 5).IsGeneric op := by
        intro op hop
        have hroot : op.address = .root := by
          simp at hop
          rw [hop]
        refine (ModelSpec.isGeneric_bare {}).isGeneric (ModelSpec.registry_bare {}) ?_ ?_
        · intro t ht
          cases ht
        · intro n hn
          rw [hroot] at hn
          cases hn
      obtain ⟨values, t, hcommits⟩ := (transaction_refines_sequence (runsModel_bare _ _)
        ControllerState.tidy_bare (fun op _ => isBuiltIn_bare _ _ op) (by decide)).2 hgeneric h
      exact ⟨response, s', values, t, h, hcommits⟩

end Controller

end ManagedModel
