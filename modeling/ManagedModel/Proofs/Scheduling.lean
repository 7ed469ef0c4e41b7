import Mathlib.Data.List.Nodup
import ManagedModel.Proofs.Progress

/-! # Scheduling

    The order in which a transaction executes its steps, whatever these steps
    queue.

    * The steps executed so far and then those waiting, stage after stage, form
      a line (`Agenda.pending`). A step that is executed keeps its place in the
      line, and a step that is queued is put between two others; so the line
      grows, and no two steps ever change places.
    * `Lined` says what the journal and the line have to do with each other; it
      is kept by every event (`Lined.note`, `Lined.insert`).
    * `Ordered` is the invariant of a transaction, and `scheduling` reads the
      discipline off it, for every state that a transaction passes through. -/

namespace ManagedModel

variable {S : Signature} {c : Controller S}

namespace Event

/-- The step that was queued, by its ticket, and the stage. -/
def queued? : Event → Option (Nat × Stage)
  | queued ticket _ _ stage _ => some (ticket, stage)
  | _ => none

/-- The ticket that was given out, to a step that was queued or refused. -/
def ticket? : Event → Option Nat
  | queued ticket .. | refused ticket .. => some ticket
  | _ => none

end Event

/-- The discipline of a history of a transaction of so many operations. -/
structure Scheduled (operations : Nat) (h : List Event) : Prop where
  /-- The first steps of the operations are queued first, each at the back. -/
  opening : ((List.range operations).map fun i => Event.queued i none i .model .back) <+: h
  /-- No two steps have the same ticket. -/
  tickets : (h.filterMap Event.ticket?).Nodup
  /-- The stages of the steps executed do not go back. -/
  stages : (h.filterMap Event.started?).Pairwise fun x y => x.2 ≤ y.2
  /-- No step is executed twice. -/
  once : ((h.filterMap Event.started?).map Prod.fst).Nodup
  /-- A step is executed after it was queued, in the stage it was queued for. -/
  queued : ∀ {pre post : List Event} {ticket : Nat} {stage : Stage},
    h = pre ++ .started ticket stage :: post →
      ∃ parent? origin queueEnd, .queued ticket parent? origin stage queueEnd ∈ pre
  /-- Steps appended to the same stage are executed in the order they were queued. -/
  inOrder : ∀ {first second : Nat} {p p' : Option Nat} {o o' : Nat} {stage : Stage},
    List.Sublist [.queued first p o stage .back, .queued second p' o' stage .back] h →
      .started second stage ∈ h → List.Sublist [.started first stage, .started second stage] h
  /-- A step put first is executed before every step that waits in its stage by then. -/
  atFront : ∀ {pre post : List Event} {ticket other : Nat} {p p' : Option Nat} {o o' : Nat}
    {stage : Stage} {queueEnd : QueueEnd}, h = pre ++ .queued ticket p o stage .front :: post →
      .queued other p' o' stage queueEnd ∈ pre → .started other stage ∉ pre →
        .started other stage ∈ h → List.Sublist [.started ticket stage, .started other stage] h
  /-- A step that was refused is never executed. -/
  refused : ∀ {ticket : Nat} {parent? : Option Nat} {origin : Nat} {stage : Stage},
    .refused ticket parent? origin stage ∈ h → ∀ stage', .started ticket stage' ∉ h

/-! ### Histories -/

section

variable {h pre post : List Event} {e x a b : Event}

theorem eq_or_of_concat_eq (heq : h ++ [e] = pre ++ x :: post) :
    pre = h ∧ x = e ∧ post = [] ∨ ∃ post', post = post' ++ [e] ∧ h = pre ++ x :: post' := by
  rcases List.eq_nil_or_concat post with rfl | ⟨post', last, rfl⟩
  · obtain ⟨rfl, hlast⟩ := List.append_inj' heq rfl
    cases hlast
    exact .inl ⟨rfl, rfl, rfl⟩
  · rw [List.concat_eq_append, ← List.cons_append, ← List.append_assoc] at heq
    obtain ⟨hrest, hlast⟩ := List.append_inj' heq rfl
    cases hlast
    exact .inr ⟨post', List.concat_eq_append, hrest⟩

theorem sublist_or_of_concat (hsub : List.Sublist [a, b] (h ++ [e])) :
    List.Sublist [a, b] h ∨ a ∈ h ∧ b = e := by
  obtain ⟨l₁, l₂, heq, hl₁, hl₂⟩ := List.sublist_append_iff.1 hsub
  rcases List.sublist_cons_iff.1 hl₂ with hnil | ⟨r, rfl, hr⟩
  · rw [List.sublist_nil.1 hnil, List.append_nil] at heq
    exact .inl (heq ▸ hl₁)
  · rw [List.sublist_nil.1 hr] at heq
    obtain ⟨rfl, hlast⟩ := List.append_inj' (show [a] ++ [b] = l₁ ++ [e] from heq) rfl
    cases hlast
    exact .inr ⟨List.singleton_sublist.1 hl₁, rfl⟩

/-- An event that a projection passes over does not show in it. -/
theorem filterMap_concat_of_none {α : Type} {project : Event → Option α} (hnone : project e = none) :
    (h ++ [e]).filterMap project = h.filterMap project := by
  rw [List.filterMap_append, List.filterMap_cons_none hnone, List.filterMap_nil, List.append_nil]

/-- Two events that give out the same ticket are one. -/
theorem eq_of_ticket?_eq (hnodup : (h.filterMap Event.ticket?).Nodup) {ticket : Nat}
    (ha : a ∈ h) (hb : b ∈ h) (hta : a.ticket? = some ticket) (htb : b.ticket? = some ticket) :
    a = b := by
  induction h with
  | nil => cases ha
  | cons e h ih =>
    have hrest : (h.filterMap Event.ticket?).Nodup :=
      hnodup.sublist ((List.sublist_cons_self e h).filterMap _)
    -- an event that gives out the ticket at the head leaves none for the rest
    have hhead : ∀ {x}, x ∈ h → x.ticket? = some ticket → e.ticket? = some ticket → False := by
      intro x hx htx hte
      rw [List.filterMap_cons_some hte, List.nodup_cons] at hnodup
      exact hnodup.1 (List.mem_filterMap.2 ⟨x, hx, htx⟩)
    rcases List.mem_cons.1 ha with rfl | hah
    · rcases List.mem_cons.1 hb with rfl | hbh
      · rfl
      · exact absurd (hhead hbh htb hta) id
    · rcases List.mem_cons.1 hb with rfl | hbh
      · exact absurd (hhead hah hta htb) id
      · exact ih hrest hah hbh

theorem mem_started {ticket : Nat} {stage : Stage} :
    (ticket, stage) ∈ h.filterMap Event.started? ↔ .started ticket stage ∈ h := by
  rw [List.mem_filterMap]
  constructor
  · rintro ⟨e, he, hstarted⟩
    cases e <;> cases hstarted
    exact he
  · exact fun he => ⟨_, he, rfl⟩

theorem mem_queued {ticket : Nat} {stage : Stage} :
    (ticket, stage) ∈ h.filterMap Event.queued? ↔
      ∃ parent? origin queueEnd, .queued ticket parent? origin stage queueEnd ∈ h := by
  rw [List.mem_filterMap]
  constructor
  · rintro ⟨e, he, hqueued⟩
    cases e <;> cases hqueued
    exact ⟨_, _, _, he⟩
  · exact fun ⟨_, _, _, he⟩ => ⟨_, he, rfl⟩

/-- The order of the steps executed is the order of their events. -/
theorem sublist_of_started {x y : Nat × Stage}
    (hsub : List.Sublist [x, y] (h.filterMap Event.started?)) :
    List.Sublist [.started x.1 x.2, .started y.1 y.2] h := by
  have hevents : ((h.filterMap Event.started?).map fun z => Event.started z.1 z.2).Sublist h := by
    clear hsub
    induction h with
    | nil => exact .slnil
    | cons e h ih =>
      cases hstarted : e.started? with
      | none =>
        rw [List.filterMap_cons_none hstarted]
        exact ih.cons e
      | some z =>
        rw [List.filterMap_cons_some hstarted, List.map_cons]
        cases e <;> cases hstarted
        exact ih.cons_cons _
  exact (hsub.map fun z => Event.started z.1 z.2).trans hevents

theorem tickets_of_queued :
    ((h.filterMap Event.queued?).map Prod.fst).Sublist (h.filterMap Event.ticket?) := by
  induction h with
  | nil => exact .slnil
  | cons e h ih =>
    cases hqueued : e.queued? with
    | none =>
      rw [List.filterMap_cons_none hqueued]
      exact ih.trans ((List.sublist_cons_self e h).filterMap _)
    | some z =>
      have hticket : e.ticket? = some z.1 := by
        cases e <;> cases hqueued
        rfl
      rw [List.filterMap_cons_some hqueued, List.filterMap_cons_some hticket, List.map_cons]
      exact ih.cons_cons _

end

/-! ### Lines -/

/-- The steps of the history, in the order in which they were executed or wait. -/
structure Lined (h : List Event) (line : List (Nat × Stage)) : Prop where
  perm : line.Perm (h.filterMap Event.queued?)
  sorted : line.Pairwise fun x y => x.2 ≤ y.2
  queued : ∀ {pre post : List Event} {ticket : Nat} {stage : Stage},
    h = pre ++ .started ticket stage :: post →
      ∃ parent? origin queueEnd, .queued ticket parent? origin stage queueEnd ∈ pre
  inOrder : ∀ {first second : Nat} {p p' : Option Nat} {o o' : Nat} {stage : Stage},
    List.Sublist [.queued first p o stage .back, .queued second p' o' stage .back] h →
      List.Sublist [(first, stage), (second, stage)] line
  atFront : ∀ {pre post : List Event} {ticket other : Nat} {p p' : Option Nat} {o o' : Nat}
    {stage : Stage} {queueEnd : QueueEnd}, h = pre ++ .queued ticket p o stage .front :: post →
      .queued other p' o' stage queueEnd ∈ pre → .started other stage ∉ pre →
        List.Sublist [(ticket, stage), (other, stage)] line

namespace Lined

variable {h : List Event} {line l₁ l₂ : List (Nat × Stage)} {e : Event}

theorem mem_iff (hl : Lined h line) {ticket : Nat} {stage : Stage} :
    (ticket, stage) ∈ line ↔
      ∃ parent? origin queueEnd, .queued ticket parent? origin stage queueEnd ∈ h :=
  hl.perm.mem_iff.trans mem_queued

/-- An event that queues nothing leaves the line as it is. What is executed stands in the line. -/
theorem note (hl : Lined h line) (hqueued : e.queued? = none)
    (hstarted : ∀ {ticket stage}, e = .started ticket stage → (ticket, stage) ∈ line) :
    Lined (h ++ [e]) line where
  perm := by
    rw [filterMap_concat_of_none hqueued]
    exact hl.perm
  sorted := hl.sorted
  queued := by
    intro pre post ticket stage heq
    rcases eq_or_of_concat_eq heq with ⟨rfl, he, -⟩ | ⟨post', -, hh⟩
    · exact hl.mem_iff.1 (hstarted he.symm)
    · exact hl.queued hh
  inOrder := by
    intro first second p p' o o' stage hsub
    rcases sublist_or_of_concat hsub with hsub | ⟨-, rfl⟩
    · exact hl.inOrder hsub
    · cases hqueued
  atFront := by
    intro pre post ticket other p p' o o' stage queueEnd heq
    rcases eq_or_of_concat_eq heq with ⟨-, rfl, -⟩ | ⟨post', -, hh⟩
    · cases hqueued
    · exact hl.atFront hh

/-- A step is put between two others: at the back, after all of its stage, and at the front, after
    those of its stage that were executed. -/
theorem insert (hl : Lined h (l₁ ++ l₂)) (ticket : Nat) (parent? : Option Nat) (origin : Nat)
    {stage : Stage} (queueEnd : QueueEnd) (hbelow : ∀ x ∈ l₁, x.2 ≤ stage)
    (habove : ∀ x ∈ l₂, stage ≤ x.2)
    (hback : queueEnd = .back → ∀ x ∈ l₂, x.2 ≠ stage)
    (hfront : queueEnd = .front → ∀ x ∈ l₁, x.2 = stage → .started x.1 stage ∈ h) :
    Lined (h ++ [.queued ticket parent? origin stage queueEnd])
      (l₁ ++ (ticket, stage) :: l₂) where
  perm := by
    rw [List.filterMap_append]
    refine List.perm_middle.trans (((hl.perm.cons _).trans ?_))
    exact (List.perm_append_singleton _ _).symm
  sorted := by
    obtain ⟨h₁, h₂, h₁₂⟩ := List.pairwise_append.1 hl.sorted
    refine List.pairwise_append.2 ⟨h₁, List.pairwise_cons.2 ⟨habove, h₂⟩, fun x hx y hy => ?_⟩
    rcases List.mem_cons.1 hy with rfl | hy
    · exact hbelow x hx
    · exact h₁₂ x hx y hy
  queued := by
    intro pre post ticket stage heq
    rcases eq_or_of_concat_eq heq with ⟨-, he, -⟩ | ⟨post', -, hh⟩
    · cases he
    · exact hl.queued hh
  inOrder := by
    intro first second p p' o o' stage' hsub
    have hgrows : (l₁ ++ l₂).Sublist (l₁ ++ (ticket, stage) :: l₂) :=
      (List.Sublist.refl l₁).append (List.sublist_cons_self _ _)
    rcases sublist_or_of_concat hsub with hsub | ⟨hfirst, hsecond⟩
    · exact (hl.inOrder hsub).trans hgrows
    · cases hsecond
      -- the first one stands before the place of the second, as none of the stage stands after it
      have hmem : (first, stage) ∈ l₁ := by
        rcases List.mem_append.1 (hl.mem_iff.2 ⟨_, _, _, hfirst⟩) with hmem | hmem
        · exact hmem
        · exact absurd rfl (hback rfl _ hmem)
      have hpair : List.Sublist ([(first, stage)] ++ [(ticket, stage)])
          (l₁ ++ (ticket, stage) :: l₂) :=
        (List.singleton_sublist.2 hmem).append (List.singleton_sublist.2 List.mem_cons_self)
      exact hpair
  atFront := by
    intro pre post ticket' other p p' o o' stage' queueEnd' heq hother hwaits
    have hgrows : (l₁ ++ l₂).Sublist (l₁ ++ (ticket, stage) :: l₂) :=
      (List.Sublist.refl l₁).append (List.sublist_cons_self _ _)
    rcases eq_or_of_concat_eq heq with ⟨rfl, he, -⟩ | ⟨post', -, hh⟩
    · cases he
      -- the other one stands behind the place, as those of the stage before it were executed
      have hmem : (other, stage) ∈ l₂ := by
        rcases List.mem_append.1 (hl.mem_iff.2 ⟨_, _, _, hother⟩) with hmem | hmem
        · exact absurd (hfront rfl _ hmem rfl) hwaits
        · exact hmem
      have hpair : List.Sublist [(ticket, stage), (other, stage)] ((ticket, stage) :: l₂) :=
        (List.singleton_sublist.2 hmem).cons_cons _
      exact hpair.trans (List.sublist_append_right _ _)
    · exact (hl.atFront hh hother hwaits).trans hgrows

end Lined

/-! ### The steps waiting -/

namespace Stage

theorem le_refl (a : Stage) : a ≤ a := Nat.le_refl a.rank

theorem le_trans {a b d : Stage} (h₁ : a ≤ b) (h₂ : b ≤ d) : a ≤ d :=
  Nat.le_trans (show a.rank ≤ b.rank from h₁) h₂

end Stage

namespace Agenda

variable {q : Agenda (Step S)} {stage : Stage}

/-- The tickets of the steps in a queue, with the stage. -/
def tickets (stage : Stage) (steps : List (Step S)) : List (Nat × Stage) :=
  steps.map fun step => (step.ticket, stage)

/-- The steps that wait, stage after stage. -/
def pending (q : Agenda (Step S)) : List (Nat × Stage) :=
  Stage.all.flatMap fun stage => tickets stage (q.waiting stage)

theorem pending_eq (q : Agenda (Step S)) :
    q.pending = tickets .model (q.waiting .model) ++
      (tickets .runtime (q.waiting .runtime) ++ tickets .verify (q.waiting .verify)) := by
  unfold pending Stage.all
  simp only [List.flatMap_cons, List.flatMap_nil, List.append_nil]

theorem mem_tickets {x : Nat × Stage} {steps : List (Step S)} (hx : x ∈ tickets stage steps) :
    x.2 = stage ∧ steps ≠ [] := by
  obtain ⟨step, hstep, rfl⟩ := List.mem_map.1 hx
  exact ⟨rfl, List.ne_nil_of_mem hstep⟩

/-- The queue of a stage stands between those of the stages before it and after it. -/
theorem pending_split (q : Agenda (Step S)) (stage : Stage) :
    ∃ before after, (∀ x ∈ before, x.2 ≤ stage ∧ x.2 ≠ stage ∧ q.waiting x.2 ≠ []) ∧
      (∀ x ∈ after, stage ≤ x.2 ∧ x.2 ≠ stage) ∧
      ∀ steps, (q.set stage steps).pending = before ++ (tickets stage steps ++ after) := by
  cases stage with
  | model =>
    refine ⟨[], tickets .runtime q.runtime ++ tickets .verify q.verify, (fun x hx => nomatch hx), ?_,
      fun steps => pending_eq _⟩
    intro x hx
    rcases List.mem_append.1 hx with hx | hx
    · rw [(mem_tickets hx).1]
      decide
    · rw [(mem_tickets hx).1]
      decide
  | runtime =>
    refine ⟨tickets .model q.model, tickets .verify q.verify, ?_, ?_, fun steps => pending_eq _⟩
    · intro x hx
      rw [(mem_tickets hx).1]
      exact ⟨by decide, by decide, (mem_tickets hx).2⟩
    · intro x hx
      rw [(mem_tickets hx).1]
      decide
  | verify =>
    refine ⟨tickets .model q.model ++ tickets .runtime q.runtime, [], ?_,
      (fun x hx => nomatch hx), fun steps => ?_⟩
    · intro x hx
      rcases List.mem_append.1 hx with hx | hx
      · rw [(mem_tickets hx).1]
        exact ⟨by decide, by decide, (mem_tickets hx).2⟩
      · rw [(mem_tickets hx).1]
        exact ⟨by decide, by decide, (mem_tickets hx).2⟩
    · rw [List.append_nil, List.append_assoc]
      exact pending_eq _

theorem set_waiting (q : Agenda (Step S)) (stage : Stage) : q.set stage (q.waiting stage) = q := by
  cases stage <;> rfl

/-- A step that is queued is put behind the steps of its stage or ahead of them, and in any case
    between those of the stages before and after. -/
theorem pending_push (q : Agenda (Step S)) (stage : Stage) (step : Step S) (queueEnd : QueueEnd) :
    ∃ before after, q.pending = before ++ after ∧
      (q.set stage (match queueEnd with
        | .front => step :: q.waiting stage
        | .back => q.waiting stage ++ [step])).pending =
          before ++ (step.ticket, stage) :: after ∧
      (∀ x ∈ before, x.2 ≤ stage) ∧ (∀ x ∈ after, stage ≤ x.2) ∧
      (queueEnd = .back → ∀ x ∈ after, x.2 ≠ stage) ∧
      (queueEnd = .front → ∀ x ∈ before, x.2 ≠ stage) := by
  obtain ⟨before, after, hbefore, hafter, hpending⟩ := q.pending_split stage
  have hsame : q.pending = before ++ (tickets stage (q.waiting stage) ++ after) := by
    rw [← hpending, set_waiting]
  have hqueue : ∀ x ∈ tickets stage (q.waiting stage), x.2 = stage :=
    fun x hx => (mem_tickets hx).1
  rw [hpending]
  cases queueEnd with
  | front =>
    refine ⟨before, tickets stage (q.waiting stage) ++ after, hsame, rfl,
      fun x hx => (hbefore x hx).1, List.forall_mem_append.2 ⟨?_, fun x hx => (hafter x hx).1⟩,
      (fun h => nomatch h), fun _ x hx => (hbefore x hx).2.1⟩
    exact fun x hx => hqueue x hx ▸ Stage.le_refl _
  | back =>
    refine ⟨before ++ tickets stage (q.waiting stage), after, ?_, ?_,
      List.forall_mem_append.2 ⟨fun x hx => (hbefore x hx).1, ?_⟩, fun x hx => (hafter x hx).1,
      fun _ x hx => (hafter x hx).2, fun h => nomatch h⟩
    · rw [hsame, List.append_assoc]
    · show before ++ ((q.waiting stage ++ [step]).map _ ++ after) = _
      rw [List.map_append, List.append_assoc, List.append_assoc]
      rfl
    · exact fun x hx => hqueue x hx ▸ Stage.le_refl _

theorem accepts_eq_true (h : q.accepts stage = true) {current : Stage}
    (hcurrent : q.current = some current) : current ≤ stage := by
  unfold accepts at h
  rw [hcurrent] at h
  simpa using (Bool.and_eq_true_iff.1 h).2

end Agenda

/-! ### The invariant -/

/-- The history and the agenda of a transaction form one line. -/
structure Ordered (h : List Event) (q : Agenda (Step S)) (next : Nat) : Prop where
  lined : Lined h (h.filterMap Event.started? ++ q.pending)
  fresh : ∀ ticket ∈ h.filterMap Event.ticket?, ticket < next
  distinct : (h.filterMap Event.ticket?).Nodup
  /-- What was executed was so in a stage that has begun. -/
  begun : ∀ x ∈ h.filterMap Event.started?, ∃ current, q.current = some current ∧ x.2 ≤ current
  /-- Nothing waits for a stage that is over. -/
  behind : ∀ {current stage : Stage}, q.current = some current → stage ≤ current →
    stage ≠ current → q.waiting stage = []

namespace Ordered

variable {h : List Event} {q : Agenda (Step S)} {next : Nat} {e : Event} {stage : Stage}

/-- An event that is about no step leaves the line alone. -/
theorem note (ho : Ordered h q next) (hqueued : e.queued? = none) (hstarted : e.started? = none)
    (hticket : e.ticket? = none) : Ordered (h ++ [e]) q next := by
  have hs := filterMap_concat_of_none (h := h) hstarted
  have ht := filterMap_concat_of_none (h := h) hticket
  refine ⟨?_, ?_, ?_, ?_, ho.behind⟩
  · rw [hs]
    refine ho.lined.note hqueued ?_
    rintro ticket stage rfl
    cases hstarted
  · rw [ht]
    exact ho.fresh
  · rw [ht]
    exact ho.distinct
  · rw [hs]
    exact ho.begun

theorem notes {events : List Event} (ho : Ordered h q next)
    (hevents : ∀ e ∈ events, e.queued? = none ∧ e.started? = none ∧ e.ticket? = none) :
    Ordered (h ++ events) q next := by
  induction events generalizing h with
  | nil => rwa [List.append_nil]
  | cons e events ih =>
    obtain ⟨he, hrest⟩ := List.forall_mem_cons.1 hevents
    rw [List.append_cons]
    exact ih (ho.note he.1 he.2.1 he.2.2) hrest

theorem tickets_concat (ho : Ordered h q next) (hticket : e.ticket? = some next) :
    (∀ ticket ∈ (h ++ [e]).filterMap Event.ticket?, ticket < next + 1) ∧
      ((h ++ [e]).filterMap Event.ticket?).Nodup := by
  rw [List.filterMap_append, List.filterMap_cons_some hticket, List.filterMap_nil]
  constructor
  · intro ticket hmem
    rcases List.mem_append.1 hmem with hmem | hmem
    · exact Nat.lt_succ_of_lt (ho.fresh ticket hmem)
    · rw [List.mem_singleton.1 hmem]
      exact Nat.lt_succ_self next
  · refine List.nodup_append.2 ⟨ho.distinct, List.pairwise_singleton _ next, fun a ha b hb hab => ?_⟩
    rw [List.mem_singleton.1 hb] at hab
    exact absurd (ho.fresh a ha) (hab ▸ Nat.lt_irrefl next)

/-- A step that is refused takes a ticket and no place in the line. -/
theorem refused (ho : Ordered h q next) (parent? : Option Nat) (origin : Nat) (stage : Stage) :
    Ordered (h ++ [.refused next parent? origin stage]) q (next + 1) := by
  have hs : (h ++ [Event.refused next parent? origin stage]).filterMap Event.started? =
      h.filterMap Event.started? := filterMap_concat_of_none rfl
  obtain ⟨hfresh, hdistinct⟩ := ho.tickets_concat (e := .refused next parent? origin stage) rfl
  refine ⟨?_, hfresh, hdistinct, ?_, ho.behind⟩
  · rw [hs]
    exact ho.lined.note rfl (fun he => nomatch he)
  · rw [hs]
    exact ho.begun

/-- A step that is queued takes a place in the line. -/
theorem queued (ho : Ordered h q next) (haccepts : q.accepts stage = true) (parent? : Option Nat)
    (origin : Nat) (queueEnd : QueueEnd) {step : Step S} (hstep : step.ticket = next) :
    Ordered (h ++ [.queued next parent? origin stage queueEnd])
      (q.set stage (match queueEnd with
        | .front => step :: q.waiting stage
        | .back => q.waiting stage ++ [step])) (next + 1) := by
  have hs : (h ++ [Event.queued next parent? origin stage queueEnd]).filterMap Event.started? =
      h.filterMap Event.started? := filterMap_concat_of_none rfl
  obtain ⟨hfresh, hdistinct⟩ :=
    ho.tickets_concat (e := .queued next parent? origin stage queueEnd) rfl
  refine ⟨?_, hfresh, hdistinct, ?_, ?_⟩
  · rw [hs]
    obtain ⟨before, after, hsame, hpending, hbelow, habove, hback, hfront⟩ :=
      q.pending_push stage step queueEnd
    have hline := ho.lined
    rw [hsame, ← List.append_assoc] at hline
    rw [hpending, hstep, ← List.append_assoc]
    -- what was executed was so in this stage or before it
    refine hline.insert next parent? origin queueEnd (List.forall_mem_append.2 ⟨?_, hbelow⟩) habove
      hback ?_
    · intro x hx
      obtain ⟨current, hcurrent, hle⟩ := ho.begun x hx
      exact Stage.le_trans hle (Agenda.accepts_eq_true haccepts hcurrent)
    · intro hend x hx hstage
      rcases List.mem_append.1 hx with hx | hx
      · rw [← hstage]
        exact mem_started.1 hx
      · exact absurd hstage (hfront hend x hx)
  · rw [hs, Agenda.current_set]
    exact ho.begun
  · intro current stage' hcurrent hle hne
    rw [Agenda.current_set] at hcurrent
    have hother : stage' ≠ stage := by
      rintro rfl
      have hge := Agenda.accepts_eq_true haccepts hcurrent
      revert hle hne hge
      cases current <;> cases stage' <;> decide
    rw [q.waiting_set_of_ne hother]
    exact ho.behind hcurrent hle hne

/-- A step that is executed keeps its place in the line. -/
theorem started (ho : Ordered h q next) (hcurrent : q.current = some stage) {step : Step S}
    {rest : List (Step S)} (hwaiting : q.waiting stage = step :: rest) :
    Ordered (h ++ [.started step.ticket stage]) (q.set stage rest) next := by
  have hs : (h ++ [Event.started step.ticket stage]).filterMap Event.started? =
      h.filterMap Event.started? ++ [(step.ticket, stage)] :=
    List.filterMap_append
  have ht : (h ++ [Event.started step.ticket stage]).filterMap Event.ticket? =
      h.filterMap Event.ticket? := filterMap_concat_of_none rfl
  -- nothing waits for a stage before the current one, so the step stands right after what was
  -- executed
  have hline : h.filterMap Event.started? ++ q.pending =
      (h ++ [Event.started step.ticket stage]).filterMap Event.started? ++
        (q.set stage rest).pending := by
    obtain ⟨before, after, hbefore, -, hpending⟩ := q.pending_split stage
    have hnone : before = [] := by
      refine List.eq_nil_iff_forall_not_mem.2 fun x hx => ?_
      obtain ⟨hle, hne, hwaits⟩ := hbefore x hx
      exact hwaits (ho.behind hcurrent hle hne)
    have hsplit := hpending (q.waiting stage)
    rw [q.set_waiting, hwaiting, hnone] at hsplit
    rw [hsplit, hpending, hs, hnone, List.append_assoc]
    rfl
  refine ⟨?_, ?_, ?_, ?_, ?_⟩
  · rw [← hline]
    refine ho.lined.note rfl ?_
    rintro ticket stage' ⟨⟩
    rw [hline, hs]
    exact List.mem_append_left _ (List.mem_append_right _ List.mem_cons_self)
  · rw [ht]
    exact ho.fresh
  · rw [ht]
    exact ho.distinct
  · rw [hs, Agenda.current_set]
    intro x hx
    rcases List.mem_append.1 hx with hx | hx
    · exact ho.begun x hx
    · rw [List.mem_singleton.1 hx]
      exact ⟨stage, hcurrent, Stage.le_refl stage⟩
  · intro current stage' hcurrent' hle hne
    rw [Agenda.current_set, hcurrent] at hcurrent'
    cases hcurrent'
    rw [q.waiting_set_of_ne hne]
    exact ho.behind hcurrent hle hne

/-- The next stage begins when no step waits for the current one. -/
theorem entered (ho : Ordered h q next) (hpop : q.pop? = none)
    (hnext : (Stage.following q.current).head? = some stage) :
    Ordered (h ++ [.entered (.executing stage)]) (q.enter stage) next := by
  have hnote := ho.note (e := .entered (.executing stage)) rfl rfl rfl
  refine ⟨hnote.lined, hnote.fresh, hnote.distinct, ?_, ?_⟩
  · intro x hx
    obtain ⟨current, hcurrent, hle⟩ := hnote.begun x hx
    refine ⟨stage, rfl, ?_⟩
    rw [hcurrent] at hnext
    revert hnext hle
    cases current <;> cases stage <;> cases x.2 <;> decide
  · intro current stage' hcurrent hle hne
    cases hcurrent
    show q.waiting stage' = []
    -- a stage before the one that begins is the current one, or was over before
    cases hq : q.current with
    | none =>
      rw [hq] at hnext
      cases hnext
      refine absurd hle ?_
      revert hne
      cases stage' <;> decide
    | some current =>
      by_cases hsame : stage' = current
      · rw [hsame]
        exact Agenda.pop?_eq_none hpop hq
      · refine ho.behind hq ?_ hsame
        rw [hq] at hnext
        revert hnext hle hne hsame
        cases current <;> cases stage <;> cases stage' <;> decide

/-- The tickets of the steps executed and waiting are all different. -/
theorem nodup (ho : Ordered h q next) :
    ((h.filterMap Event.started? ++ q.pending).map Prod.fst).Nodup :=
  (ho.lined.perm.map Prod.fst).nodup_iff.2 (ho.distinct.sublist tickets_of_queued)

theorem sublist_of_sublist_append {α : Type} {a b : α} {l₁ l₂ : List α}
    (hsub : List.Sublist [a, b] (l₁ ++ l₂)) (hnodup : (l₁ ++ l₂).Nodup) (hb : b ∈ l₁) :
    List.Sublist [a, b] l₁ := by
  obtain ⟨m₁, m₂, heq, hm₁, hm₂⟩ := List.sublist_append_iff.1 hsub
  rcases List.eq_nil_or_concat m₂ with rfl | ⟨m, last, rfl⟩
  · rw [heq, List.append_nil]
    exact hm₁
  · -- the second of the two would stand in the second part as well
    rw [List.concat_eq_append, ← List.append_assoc] at heq
    obtain ⟨-, hlast⟩ := List.append_inj' (show [a] ++ [b] = _ from heq) rfl
    cases hlast
    have hmem : b ∈ l₂ := hm₂.subset (by simp)
    exact absurd rfl ((List.nodup_append.1 hnodup).2.2 b hb b hmem)

/-- The invariant gives the discipline. -/
theorem scheduled (ho : Ordered h q next) {operations : Nat}
    (hopening : ((List.range operations).map fun i => Event.queued i none i .model .back) <+: h) :
    Scheduled operations h where
  opening := hopening
  tickets := ho.distinct
  stages := (List.pairwise_append.1 ho.lined.sorted).1
  once := by
    have hnodup := ho.nodup
    rw [List.map_append] at hnodup
    exact (List.nodup_append.1 hnodup).1
  queued := ho.lined.queued
  inOrder := by
    intro first second p p' o o' stage hsub hsecond
    exact sublist_of_started (sublist_of_sublist_append (ho.lined.inOrder hsub)
      (.of_map _ ho.nodup) (mem_started.2 hsecond))
  atFront := by
    intro pre post ticket other p p' o o' stage queueEnd heq hother hwaits hexecuted
    exact sublist_of_started (sublist_of_sublist_append (ho.lined.atFront heq hother hwaits)
      (.of_map _ ho.nodup) (mem_started.2 hexecuted))
  refused := by
    intro ticket parent? origin stage hrefused stage' hstarted
    obtain ⟨p, o, queueEnd, hqueued⟩ :=
      ho.lined.mem_iff.1 (List.mem_append_left q.pending (mem_started.2 hstarted))
    cases eq_of_ticket?_eq ho.distinct hrefused hqueued rfl rfl

end Ordered

/-! ### Transactions -/

namespace InFlight

/-- The transaction is ordered. -/
def InOrder (f : InFlight S) : Prop :=
  Ordered f.transaction.history f.transaction.agenda f.transaction.nextTicket

variable {f f' : InFlight S} {step : Step S} {agenda : Agenda (Step S)}

/-- Whatever a handler calls for, the transaction stays ordered. -/
theorem inOrder_keptByCalls {t : Transaction S} (step : Step S)
    (ht : t.rollback.phase = .collecting) :
    KeptByCalls fun f : InFlight S => Running step t f.transaction ∧ f.InOrder where
  queue {f} request h := by
    refine ⟨(running_keptByCalls step ht).queue request h.1, ?_⟩
    show Ordered (f.transaction.queue request).2.history (f.transaction.queue request).2.agenda
      (f.transaction.queue request).2.nextTicket
    rcases Transaction.queue_cases h.1.executing_eq request with ⟨haccepts, hq⟩ | ⟨-, hq⟩
    · rw [hq, Transaction.history_queued]
      exact h.2.queued haccepts _ _ _ rfl
    · rw [hq, Transaction.history_refused]
      exact h.2.refused _ _ _
  onRollback {f} handler h := by
    refine ⟨(running_keptByCalls step ht).onRollback handler h.1, ?_⟩
    show Ordered (f.transaction.onRollback handler).2.history
      (f.transaction.onRollback handler).2.agenda (f.transaction.onRollback handler).2.nextTicket
    rw [Transaction.onRollback_of_collecting h.1.executing_eq (h.1.phase_eq.trans ht),
      Transaction.history_record]
    exact h.2.note rfl rfl rfl
  markRollbackOnly h := ⟨(running_keptByCalls step ht).markRollbackOnly h.1, h.2⟩
  askReload h := ⟨(running_keptByCalls step ht).askReload h.1, h.2⟩
  withdrawReload h := ⟨(running_keptByCalls step ht).withdrawReload h.1, h.2⟩
  attach change h := ⟨(running_keptByCalls step ht).attach change h.1, h.2⟩
  write w hstage h := ⟨(running_keptByCalls step ht).write w hstage h.1, h.2⟩
  setResult {f} value h := by
    refine ⟨(running_keptByCalls step ht).setResult value h.1, ?_⟩
    show Ordered (f.transaction.setResult value).history (f.transaction.setResult value).agenda
      (f.transaction.setResult value).nextTicket
    rw [Transaction.setResult_of_executing h.1.executing_eq, Transaction.history_record]
    exact h.2.note rfl rfl rfl
  environment change h := h

/-- A step leaves the transaction ordered, whether it fails or not. -/
theorem InOrder.execute (ho : f.InOrder) (hf : Steady f.transaction) {r : Except Fault Unit}
    (hpop : f.transaction.agenda.pop? = some (step, agenda))
    (hexecute : execute c step (f.onTransaction fun t => { t with agenda }) = (r, f')) :
    f'.InOrder := by
  obtain ⟨stage, rest, hcurrent, hwaiting, rfl⟩ := Agenda.pop?_eq_some hpop
  have htaken : (f.taken step (f.transaction.agenda.set stage rest)).InOrder := by
    show Ordered (f.taken step (f.transaction.agenda.set stage rest)).transaction.history
      (f.transaction.agenda.set stage rest) f.transaction.nextTicket
    rw [history_taken, hf.stage_eq hcurrent]
    exact Ordered.started ho hcurrent hwaiting
  obtain ⟨outcome, g, hrun, -, -, rfl⟩ := hf.of_execute hexecute
  have hcalls := (inOrder_keptByCalls step
    (t := (f.taken step (f.transaction.agenda.set stage rest)).transaction) hf.collecting).run_or
      (c := c) (p := c.handle step.handler step.operation) (.inr fun _ _ h => h)
      ⟨hf.running_taken, htaken⟩
  rw [hrun] at hcalls
  show Ordered (g.ended step outcome).transaction.history g.transaction.agenda
    g.transaction.nextTicket
  rw [history_ended]
  exact hcalls.2.note rfl rfl rfl

theorem InOrder.move (ho : f.InOrder) (hf : Steady f.transaction) (hmove : Move c f f') :
    f'.InOrder := by
  cases hmove with
  | @enter stage hpop hnext =>
    show Ordered (f.entered stage).transaction.history (f.transaction.agenda.enter stage)
      f.transaction.nextTicket
    rw [history_entered]
    exact Ordered.entered ho hpop hnext
  | step hpop hexecute => exact ho.execute hf hpop hexecute

theorem InOrder.underway (ho : f.InOrder) (hf : Steady f.transaction) (h : Underway c f f') :
    f'.InOrder := by
  induction h with
  | refl => exact ho
  | tail hg hmove ih => exact ih.move (hf.underway hg) hmove

/-- What an abort adds to the history is about no step. -/
theorem InOrder.abort {cause : Fault} (ho : f.InOrder) (hf : Steady f.transaction)
    (h : FailsTo c f cause f') :
    Ordered (f'.abort cause).2.transaction.history f'.transaction.agenda
      f'.transaction.nextTicket := by
  obtain ⟨-, -, events, hevents, hhistory⟩ := h.abort_history hf
  obtain ⟨step, agenda, hpop, hexecute⟩ := h
  have hsettled : Ordered (f'.transaction.history ++ [.entered .rollingBack]) f'.transaction.agenda
      f'.transaction.nextTicket := (ho.execute hf hpop hexecute).note rfl rfl rfl
  have hcompensated := hsettled.notes fun e he => by
    have hcompensation := hevents e he
    cases e <;> first | exact absurd hcompensation id | exact ⟨rfl, rfl, rfl⟩
  rw [hhistory, List.append_cons f'.transaction.history]
  exact hcompensated.note rfl rfl rfl

/-- Nothing waits at the end, so that every step that was queued was executed. -/
theorem InOrder.started_of_atEnd (ho : f.InOrder) (hend : AtEnd f) {ticket : Nat}
    {parent? : Option Nat} {origin : Nat} {stage : Stage} {queueEnd : QueueEnd}
    (hqueued : .queued ticket parent? origin stage queueEnd ∈ f.transaction.history) :
    .started ticket stage ∈ f.transaction.history := by
  have hcurrent := hend.current_eq
  have hpending : f.transaction.agenda.pending = [] := by
    have hmodel : f.transaction.agenda.waiting .model = [] :=
      ho.behind hcurrent (by decide) (by decide)
    have hruntime : f.transaction.agenda.waiting .runtime = [] :=
      ho.behind hcurrent (by decide) (by decide)
    rw [Agenda.pending_eq, hmodel, hruntime, Agenda.pop?_eq_none hend.empty hcurrent]
    rfl
  have hline := ho.lined.mem_iff.2 ⟨_, _, _, hqueued⟩
  rw [hpending, List.append_nil] at hline
  exact mem_started.1 hline

end InFlight

namespace Controller

open InFlight

variable {accepted : List (Operation × RegisteredOperation S.Handler)}

/-- The first steps of the operations stand in line. -/
theorem inOrder_begin (booting : Bool) (id : Nat)
    (accepted : List (Operation × RegisteredOperation S.Handler)) (s : ControllerState S) :
    (begin booting id accepted s).InOrder := by
  have hkept : ((begin booting id accepted s).transaction.agenda.closed = false ∧
      (begin booting id accepted s).transaction.agenda.current = none) ∧
      (begin booting id accepted s).InOrder := by
    refine queueFirstSteps_keeps (I := fun t : Transaction S =>
      (t.agenda.closed = false ∧ t.agenda.current = none) ∧
        Ordered t.history t.agenda t.nextTicket) ?_ ?_ 0 ?_
    · exact fun h => accepts_of_not_begun h.1.1 h.1.2 .model
    · rintro t origin op handler ⟨⟨hopen, hcurrent⟩, ho⟩
      refine ⟨⟨hopen, hcurrent⟩, ?_⟩
      rw [Transaction.history_queued]
      exact ho.queued (accepts_of_not_begun hopen hcurrent .model) none origin .back rfl
    · refine ⟨⟨rfl, rfl⟩, ⟨⟨.nil, .nil, ?_, ?_, ?_⟩, ?_, .nil, ?_, ?_⟩⟩
      · intro pre post ticket stage heq
        exact absurd (show pre ++ _ :: post = [] from heq.symm) (by simp)
      · intro first second p p' o o' stage hsub
        cases hsub
      · intro pre post ticket other p p' o o' stage queueEnd heq
        exact absurd (show pre ++ _ :: post = [] from heq.symm) (by simp)
      · exact fun ticket h => nomatch h
      · exact fun x h => nomatch h
      · exact fun h => nomatch h
  exact hkept.2

/-- The history of a transaction that came to its end. -/
theorem scheduled_of_conclude {booting : Bool} {id : Nat} {s : ControllerState S}
    {ended : Ended S} (h : c.conclude (begin booting id accepted s) = some ended) :
    Scheduled accepted.length ended.final.transaction.history ∧
      ∀ {results : List Value}, ended.outcome = .ok results →
        ∀ {ticket : Nat} {parent? : Option Nat} {origin : Nat} {stage : Stage}
          {queueEnd : QueueEnd},
          .queued ticket parent? origin stage queueEnd ∈ ended.final.transaction.history →
            .started ticket stage ∈ ended.final.transaction.history := by
  obtain ⟨hsteady, hcurrent⟩ := steady_begin booting id accepted s
  have hopening := (history_begin booting id accepted s).symm
  have hconcludes := concludes (c := c) hsteady hcurrent
  rw [h] at hconcludes
  cases hconcludes with
  | @committed f hf hend =>
    have hfsteady := hsteady.underway hf
    have ho := (inOrder_begin booting id accepted s).underway hsteady hf
    obtain ⟨-, -, -, hhistory⟩ := hfsteady.commit_eq hend
    have hcommitted : Ordered (f.transaction.history ++ [.entered .committed])
      f.transaction.agenda f.transaction.nextTicket := ho.note rfl rfl rfl
    rw [hhistory]
    refine ⟨hcommitted.scheduled ?_, ?_⟩
    · rw [hopening]
      exact (hsteady.prefix_of_underway hf).trans (List.prefix_append _ _)
    · intro results _ ticket parent? origin stage queueEnd hqueued
      rcases List.mem_append.1 hqueued with hqueued | hqueued
      · exact List.mem_append_left _ (ho.started_of_atEnd hend hqueued)
      · cases List.mem_singleton.1 hqueued
  | @aborted f f' cause hf hfails =>
    have hfsteady := hsteady.underway hf
    have ho := (inOrder_begin booting id accepted s).underway hsteady hf
    refine ⟨(ho.abort hfsteady hfails).scheduled ?_, fun hok => nomatch hok⟩
    obtain ⟨-, -, events, -, hhistory⟩ := hfails.abort_history hfsteady
    obtain ⟨step, agenda, -, hexecute⟩ := hfails
    rw [hopening, hhistory, List.append_assoc]
    exact ((hsteady.prefix_of_underway hf).trans (hfsteady.prefix_of_execute hexecute)).trans
      (List.prefix_append _ _)

/-- The scheduling discipline. Whatever steps the handlers queue, in whatever stage and for
    whatever stage, at whatever end: the history of a transaction is scheduled at every point
    between its steps and at its end, and a transaction that commits has executed every step that
    was queued. -/
theorem scheduling {booting : Bool} {ops : List Operation} {s locked : ControllerState S}
    {lock : Option Lock} (hne : ops ≠ []) (hacc : c.acceptAll booting ops = .ok accepted)
    (hlock : lock? (writeScope accepted) (withNextId s) = some (lock, locked)) :
    (∀ {f : InFlight S}, Underway c (begin booting s.nextId accepted locked) f →
      Scheduled ops.length f.transaction.history) ∧
    ∀ {r : Except Failure (List Value × Nat)} {s' : ControllerState S},
      c.submit booting ops s = .ok (r, s') →
        ∃ ended, c.conclude (begin booting s.nextId accepted locked) = some ended ∧
          r = (ended.outcome.map fun results =>
            (results, ended.final.state.store.version)) ∧
          Scheduled ops.length ended.final.transaction.history ∧
          ∀ {p : List Value × Nat}, r = .ok p →
            ∀ {ticket : Nat} {parent? : Option Nat} {origin : Nat} {stage : Stage}
              {queueEnd : QueueEnd},
              .queued ticket parent? origin stage queueEnd ∈ ended.final.transaction.history →
                .started ticket stage ∈ ended.final.transaction.history := by
  have hlength : ops.length = accepted.length := by
    rw [← (acceptAll_eq_ok.1 hacc).1, List.length_map]
  obtain ⟨hsteady, -⟩ := steady_begin booting s.nextId accepted locked
  rw [hlength]
  constructor
  · intro f hf
    refine ((inOrder_begin booting s.nextId accepted locked).underway hsteady hf).scheduled ?_
    rw [← history_begin booting s.nextId accepted locked]
    exact hsteady.prefix_of_underway hf
  · intro r s' hsubmit
    rw [submit_of_locked hne hacc hlock] at hsubmit
    split at hsubmit
    · cases hsubmit
    · rename_i ended hended
      cases hsubmit
      obtain ⟨hscheduled, hall⟩ := scheduled_of_conclude hended
      refine ⟨ended, hended, rfl, hscheduled, fun hok => ?_⟩
      cases hresults : ended.outcome with
      | ok results => exact hall hresults
      | error failure =>
        rw [hresults] at hok
        cases hok

/-- The controller of a handler that queues three steps, the second one ahead of the first. -/
def relay : Controller { Signature.bare with Handler := Bool } where
  registry := { globals := (∅ : SortedMap String _).insert "relay" ⟨{ name := "relay" }, true⟩ }
  handle passesOn _ :=
    if passesOn then
      (Program.addStep { stage := .runtime, handler := false }).bind fun _ =>
        (Program.addStep { stage := .runtime, handler := false, queueEnd := .front }).bind fun _ =>
          Program.addStep { stage := .verify, handler := false }
    else .pure ()
  interlude := fun code => code.elim
  stepLimit := 5

/-- Two operations of three steps more each. Those put first run in the reverse order, the others
    in the order in which they were queued. -/
theorem scheduling_relay :
    ∃ r s', ∃ ended : Ended { Signature.bare with Handler := Bool },
      relay.submit false [{ name := "relay", address := .root },
        { name := "relay", address := .root }] { environment := () } = .ok (r, s') ∧ r.isOk ∧
      r = (ended.outcome.map fun results => (results, ended.final.state.store.version)) ∧
      Scheduled 2 ended.final.transaction.history ∧
      ended.final.transaction.started = [(0, .model), (1, .model), (6, .runtime), (3, .runtime),
        (2, .runtime), (5, .runtime), (4, .verify), (7, .verify)] := by
  let ops : List Operation :=
    [{ name := "relay", address := .root }, { name := "relay", address := .root }]
  let s : ControllerState { Signature.bare with Handler := Bool } := { environment := () }
  have hrun : (match relay.submit false ops s with
      | .ok (r, _) => r.isOk
      | .error _ => false) = true := by decide +kernel
  have hstarted : (match relay.acceptAll false ops with
      | .ok accepted =>
        (match lock? (writeScope accepted) (withNextId s) with
         | some (_, locked) => (relay.conclude (begin false s.nextId accepted locked)).map
            (·.final.transaction.started)
         | none => none)
      | .error _ => none) = some [(0, .model), (1, .model), (6, .runtime), (3, .runtime),
        (2, .runtime), (5, .runtime), (4, .verify), (7, .verify)] := by decide +kernel
  cases hacc : relay.acceptAll false ops with
  | error cause =>
    rw [hacc] at hstarted
    cases hstarted
  | ok accepted =>
    rw [hacc] at hstarted
    dsimp only at hstarted
    cases hlock : lock? (writeScope accepted) (withNextId s) with
    | none =>
      rw [hlock] at hstarted
      cases hstarted
    | some granted =>
      rw [hlock] at hstarted
      cases hsubmit : relay.submit false ops s with
      | error stall =>
        rw [hsubmit] at hrun
        cases hrun
      | ok p =>
        rw [hsubmit] at hrun
        obtain ⟨ended, hended, hr, hscheduled, -⟩ :=
          (scheduling (List.cons_ne_nil _ _) hacc hlock).2 hsubmit
        dsimp only at hstarted
        rw [hended] at hstarted
        exact ⟨p.1, p.2, ended, rfl, hrun, hr, hscheduled, Option.some.inj hstarted⟩

end Controller

end ManagedModel
