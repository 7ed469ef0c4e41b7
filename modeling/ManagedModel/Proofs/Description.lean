import ManagedModel.Proofs.Coherence
import ManagedModel.Proofs.Composition
import ManagedModel.Proofs.Conformity
import ManagedModel.Proofs.Serializability

/-! # Reading a subtree

    A recursive read describes a resource and everything below it as one object.
    The attributes of a resource, with the defaults filled in, share the keys of
    that object with the groups of its children.

    * `Value.follow` follows the elements of a path through such an object.
    * A child is found under its element just if there is room for its group:
      an attribute with the key of the group that is no object keeps the
      children out (`Tree.child?_describe`). By induction on the path, a
      resource further down is found just if the way down to it is clear
      (`Tree.follow_describe`).
    * An attribute has its value in the description, unless it is an object
      that children are put into (`Tree.get?_describe_of_own`).
    * What is committed is always a hierarchy (`Controller.Run.hierarchical`),
      so that a resource is read by way of those above it. -/

namespace ManagedModel

/-! ### Following a path -/

namespace Value

/-- The field of an object. -/
def field? (v : Value) (key : String) : Option Value := v.asObject.bind (Entries.get? key)

/-- What a path leads to: an element leads to the field with its value, in the field with its key. -/
def follow : Value → List AddressElement → Option Value
  | v, [] => some v
  | v, e :: path => ((v.field? e.key).bind (·.field? e.value)).bind fun w => w.follow path

end Value

namespace Tree

variable {t : Tree} {own : Address → Attributes} {fields : Attributes} {a b : Address}
  {e e' : AddressElement} {d v : Value} {key : String}

/-! ### Putting in one child -/

/-- What stands under an element of a path. -/
def child? (fields : Attributes) (e : AddressElement) : Option Value :=
  (fields.get? e.key).bind (·.field? e.value)

/-- If there is something under the key it is an object, which children can be put into. -/
def LeavesRoom (fields : Attributes) (key : String) : Prop :=
  ∀ v, fields.get? key = some v → ∃ group, v = .object group

theorem leavesRoom_of_get?_eq_none (h : fields.get? key = none) : LeavesRoom fields key := by
  intro v hv
  rw [h] at hv
  cases hv

theorem child?_of_not_leavesRoom (h : ¬ LeavesRoom fields e.key) : child? fields e = none := by
  unfold child?
  cases hv : fields.get? e.key with
  | none => rfl
  | some v =>
    cases v with
    | object group =>
      refine absurd (fun w hw => ?_) h
      rw [hv] at hw
      exact ⟨group, (Option.some.inj hw).symm⟩
    | undefined | bool _ | int _ | string _ | expression _ | list _ => rfl

/-- A child is left out where there is no room for it. Where there is, it becomes an entry of its
    group, and the group keeps the entries that it had. -/
theorem addChild_cases (fields : Attributes) (d : Value) (hlast : b.last? = some e) :
    ¬ LeavesRoom fields e.key ∧ addChild fields b d = fields ∨
      LeavesRoom fields e.key ∧ ∃ group,
        addChild fields b d = fields.insert e.key (.object group) ∧
          Entries.get? e.value group = some d ∧
            ∀ value, value ≠ e.value → Entries.get? value group = child? fields ⟨e.key, value⟩ := by
  unfold addChild child? LeavesRoom
  rw [hlast]
  dsimp only
  cases fields.get? e.key with
  | none =>
    refine .inr ⟨nofun, _, rfl, Entries.get?_insert_self e.value d [], fun value hne => ?_⟩
    exact Entries.get?_insert_of_ne (SortedMap.compare_ne_eq hne) d []
  | some w =>
    cases w with
    | object group =>
      refine .inr ⟨fun w hw => ⟨group, (Option.some.inj hw).symm⟩, _, rfl,
        Entries.get?_insert_self e.value d group, fun value hne => ?_⟩
      exact Entries.get?_insert_of_ne (SortedMap.compare_ne_eq hne) d group
    | undefined | bool _ | int _ | string _ | expression _ | list _ =>
      refine .inl ⟨fun h => ?_, rfl⟩
      obtain ⟨group, hgroup⟩ := h _ rfl
      cases hgroup

theorem addChild_of_last?_eq_none (h : b.last? = none) : addChild fields b d = fields := by
  unfold addChild
  rw [h]

/-- A child changes nothing under other keys than that of its group. -/
theorem get?_addChild_of_ne (h : ∀ e, b.last? = some e → e.key ≠ key) :
    (addChild fields b d).get? key = fields.get? key := by
  cases hlast : b.last? with
  | none => rw [addChild_of_last?_eq_none hlast]
  | some e =>
    rcases addChild_cases fields d hlast with ⟨-, hsame⟩ | ⟨-, group, hinsert, -, -⟩
    · rw [hsame]
    · rw [hinsert, SortedMap.get?_insert_of_ne _ fun hkey => h e hlast hkey.symm]

theorem leavesRoom_addChild : LeavesRoom (addChild fields b d) key ↔ LeavesRoom fields key := by
  cases hlast : b.last? with
  | none => rw [addChild_of_last?_eq_none hlast]
  | some e =>
    rcases addChild_cases fields d hlast with ⟨-, hsame⟩ | ⟨hroom, group, hinsert, -, -⟩
    · rw [hsame]
    · by_cases hkey : key = e.key
      · subst hkey
        refine ⟨fun _ => hroom, fun _ w hw => ?_⟩
        rw [hinsert, SortedMap.get?_insert_self] at hw
        exact ⟨group, (Option.some.inj hw).symm⟩
      · unfold LeavesRoom
        rw [hinsert, SortedMap.get?_insert_of_ne _ hkey]

/-- What keeps the children out stays. -/
theorem get?_addChild_of_not_leavesRoom (h : ¬ LeavesRoom fields key) :
    (addChild fields b d).get? key = fields.get? key := by
  by_cases hkey : ∃ e, b.last? = some e ∧ e.key = key
  · obtain ⟨e, hlast, rfl⟩ := hkey
    rcases addChild_cases fields d hlast with ⟨-, hsame⟩ | ⟨hroom, -⟩
    · rw [hsame]
    · exact absurd hroom h
  · exact get?_addChild_of_ne fun e hlast hsame => hkey ⟨e, hlast, hsame⟩

theorem child?_addChild_self (hlast : b.last? = some e) (hroom : LeavesRoom fields e.key) :
    child? (addChild fields b d) e = some d := by
  rcases addChild_cases fields d hlast with ⟨hnot, -⟩ | ⟨-, group, hinsert, hself, -⟩
  · exact absurd hroom hnot
  · unfold child?
    rw [hinsert, SortedMap.get?_insert_self]
    exact hself

theorem child?_addChild_of_ne (hne : b.last? ≠ some e) :
    child? (addChild fields b d) e = child? fields e := by
  cases hlast : b.last? with
  | none => rw [addChild_of_last?_eq_none hlast]
  | some e' =>
    rcases addChild_cases fields d hlast with ⟨-, hsame⟩ | ⟨-, group, hinsert, -, hothers⟩
    · rw [hsame]
    · by_cases hkey : e.key = e'.key
      · -- another entry of the same group
        have hvalue : e.value ≠ e'.value := by
          intro hvalue
          refine hne (hlast.trans (congrArg some ?_))
          obtain ⟨k, w⟩ := e
          obtain ⟨k', w'⟩ := e'
          rw [AddressElement.mk.injEq]
          exact ⟨hkey.symm, hvalue.symm⟩
        have hentry : child? (addChild fields b d) e = Entries.get? e.value group := by
          unfold child?
          rw [hinsert, hkey, SortedMap.get?_insert_self]
          rfl
        rw [hentry, hothers e.value hvalue, ← hkey]
      · unfold child?
        rw [hinsert, SortedMap.get?_insert_of_ne _ hkey]

/-! ### Putting in all children -/

/-- A description with children put in one after the other. -/
def addChildren (describe : Address → Value) (bs : List Address) (fields : Attributes) :
    Attributes :=
  bs.foldl (fun fields b => addChild fields b (describe b)) fields

section

variable {describe : Address → Value} {bs : List Address}

theorem get?_addChildren_of_ne (h : ∀ b ∈ bs, ∀ e, b.last? = some e → e.key ≠ key) :
    (addChildren describe bs fields).get? key = fields.get? key := by
  induction bs generalizing fields with
  | nil => rfl
  | cons b bs ih =>
    obtain ⟨hfirst, hrest⟩ := List.forall_mem_cons.1 h
    show (addChildren describe bs (addChild fields b (describe b))).get? key = _
    rw [ih hrest, get?_addChild_of_ne hfirst]

theorem leavesRoom_addChildren :
    LeavesRoom (addChildren describe bs fields) key ↔ LeavesRoom fields key := by
  induction bs generalizing fields with
  | nil => exact Iff.rfl
  | cons b bs ih => exact ih.trans leavesRoom_addChild

theorem get?_addChildren_of_not_leavesRoom (h : ¬ LeavesRoom fields key) :
    (addChildren describe bs fields).get? key = fields.get? key := by
  induction bs generalizing fields with
  | nil => rfl
  | cons b bs ih =>
    show (addChildren describe bs (addChild fields b (describe b))).get? key = _
    rw [ih fun hroom => h (leavesRoom_addChild.1 hroom), get?_addChild_of_not_leavesRoom h]

theorem child?_addChildren_of_forall_ne (h : ∀ b ∈ bs, b.last? ≠ some e) :
    child? (addChildren describe bs fields) e = child? fields e := by
  induction bs generalizing fields with
  | nil => rfl
  | cons b bs ih =>
    obtain ⟨hfirst, hrest⟩ := List.forall_mem_cons.1 h
    exact (ih hrest).trans (child?_addChild_of_ne hfirst)

/-- Where there is room for its group, the only child with an element is found under it. -/
theorem child?_addChildren_of_mem (hmem : b ∈ bs) (hlast : b.last? = some e)
    (honly : ∀ b' ∈ bs, b'.last? = some e → b' = b) (hroom : LeavesRoom fields e.key) :
    child? (addChildren describe bs fields) e = some (describe b) := by
  induction bs generalizing fields with
  | nil => cases hmem
  | cons first bs ih =>
    obtain ⟨-, honlyLater⟩ := List.forall_mem_cons.1 honly
    by_cases hlater : b ∈ bs
    · exact ih hlater honlyLater (leavesRoom_addChild.2 hroom)
    · obtain rfl : b = first := (List.mem_cons.1 hmem).resolve_right hlater
      -- none of those that follow has the element
      have hothers : ∀ b' ∈ bs, b'.last? ≠ some e := by
        intro b' hb' hlast'
        rw [honlyLater b' hb' hlast'] at hb'
        exact hlater hb'
      exact (child?_addChildren_of_forall_ne hothers).trans (child?_addChild_self hlast hroom)

end

/-! ### The description of a resource -/

theorem describe_eq (t : Tree) (own : Address → Attributes) (a : Address) :
    t.describe own a =
      addChildren (fun b => .ofAttributes (t.describe own b)) (t.children a) (own a) := by
  rw [describe]
  exact List.foldl_attach (f := fun fields b => addChild fields b (.ofAttributes (t.describe own b)))

@[simp] theorem last?_child (a : Address) (e : AddressElement) : (a.child e).last? = some e :=
  List.getLast?_concat

/-- A child is found under its element in the description of its parent, just if there is room for
    its group. -/
theorem child?_describe (hthere : t.contains (a.child e) = true) :
    child? (t.describe own a) e = some v ↔
      LeavesRoom (own a) e.key ∧ v = .ofAttributes (t.describe own (a.child e)) := by
  rw [describe_eq]
  by_cases hroom : LeavesRoom (own a) e.key
  · -- the children of one resource are told apart by their last elements
    have honly : ∀ b ∈ t.children a, b.last? = some e → b = a.child e := by
      intro b hb hlast
      obtain ⟨e', rfl, -⟩ := eq_child_of_mem_children hb
      rw [last?_child] at hlast
      rw [Option.some.inj hlast]
    rw [child?_addChildren_of_mem (child_mem_children hthere) (last?_child a e) honly hroom]
    exact ⟨fun h => ⟨hroom, (Option.some.inj h).symm⟩, fun h => congrArg some h.2.symm⟩
  · rw [child?_of_not_leavesRoom fun h => hroom (leavesRoom_addChildren.1 h)]
    exact ⟨nofun, fun h => absurd h.1 hroom⟩

/-- An attribute keeps its value, unless it is an object with the key of a child. -/
theorem get?_describe_of_own (hv : (own a).get? key = some v)
    (h : (∀ group, v ≠ .object group) ∨ ∀ e, t.contains (a.child e) = true → e.key ≠ key) :
    (t.describe own a).get? key = some v := by
  rw [describe_eq]
  rcases h with hliteral | hnone
  · rw [get?_addChildren_of_not_leavesRoom, hv]
    intro hroom
    obtain ⟨group, hgroup⟩ := hroom v hv
    exact hliteral group hgroup
  · rw [get?_addChildren_of_ne, hv]
    intro b hb e hlast
    obtain ⟨e', rfl, hthere⟩ := eq_child_of_mem_children hb
    rw [last?_child] at hlast
    cases hlast
    exact hnone e hthere

/-! ### The way down -/

/-- All the way down a path there is room for the children. -/
def Clear (own : Address → Attributes) : Address → List AddressElement → Prop
  | _, [] => True
  | a, e :: path => LeavesRoom (own a) e.key ∧ Clear own (a.child e) path

/-- The description of a resource further down is found just if the way down is clear. -/
theorem follow_describe (ht : t.Hierarchical) {path : List AddressElement}
    (hthere : t.contains ⟨a.elements ++ path⟩ = true) :
    (Value.ofAttributes (t.describe own a)).follow path = some v ↔
      Clear own a path ∧ v = .ofAttributes (t.describe own ⟨a.elements ++ path⟩) := by
  -- along the path, from resources ever deeper
  induction path generalizing a with
  | nil =>
    rw [List.append_nil]
    exact ⟨fun h => ⟨trivial, (Option.some.inj h).symm⟩, fun h => congrArg some h.2.symm⟩
  | cons e path ih =>
    have happend : (⟨a.elements ++ e :: path⟩ : Address) = ⟨(a.child e).elements ++ path⟩ :=
      congrArg Address.mk (List.append_cons a.elements e path)
    rw [happend] at hthere ⊢
    have hchild : t.contains (a.child e) = true := ht.contains_of_append hthere
    show (child? (t.describe own a) e).bind (fun w => w.follow path) = some v ↔ _
    rw [Option.bind_eq_some_iff]
    constructor
    · rintro ⟨w, hw, hfollow⟩
      obtain ⟨hroom, rfl⟩ := (child?_describe hchild).1 hw
      obtain ⟨hclear, hv⟩ := (ih hthere).1 hfollow
      exact ⟨⟨hroom, hclear⟩, hv⟩
    · rintro ⟨⟨hroom, hclear⟩, hv⟩
      exact ⟨_, (child?_describe hchild).2 ⟨hroom, rfl⟩, (ih hthere).2 ⟨hclear, hv⟩⟩

end Tree

/-! ### Stored attributes -/

namespace Resource

/-- One default is filled in where nothing is stored. -/
theorem get?_withDefaults_singleton_self {d : AttributeSchema} {m : Attributes} :
    (withDefaults [d] m).get? d.name = (m.get? d.name <|> d.default?) := by
  simp only [withDefaults]
  cases hdefault : d.default? with
  | none =>
    cases m.get? d.name <;> rfl
  | some v =>
    dsimp only
    cases hstored : m.get? d.name with
    | none =>
      rw [SortedMap.contains_eq_isSome, hstored]
      exact SortedMap.get?_insert_self m d.name v
    | some stored =>
      rw [SortedMap.contains_eq_isSome, hstored]
      exact hstored

theorem get?_withDefaults_singleton_of_ne {d : AttributeSchema} {m : Attributes} {name : String}
    (h : name ≠ d.name) : (withDefaults [d] m).get? name = m.get? name := by
  simp only [withDefaults]
  cases d.default? with
  | none => rfl
  | some v =>
    dsimp only
    split
    · rfl
    · exact SortedMap.get?_insert_of_ne m h v

/-- Filling in defaults changes no attribute that is there. -/
theorem get?_withDefaults {defs : List AttributeSchema} {m : Attributes} {name : String} {v : Value}
    (h : m.get? name = some v) : (withDefaults defs m).get? name = some v := by
  induction defs generalizing m with
  | nil => exact h
  | cons d defs ih =>
    have hfirst : (withDefaults [d] m).get? name = some v := by
      by_cases hname : name = d.name
      · subst hname
        rw [get?_withDefaults_singleton_self, h]
        rfl
      · rw [get?_withDefaults_singleton_of_ne hname, h]
    exact ih hfirst

theorem get?_describeOwnIn {schema? : Address → Option ResourceSchema} {t : Tree}
    {includeDefaults : Bool} {a : Address} {m : Attributes} {name : String} {v : Value}
    (hm : t.get? a = some m) (h : m.get? name = some v) :
    (describeOwnIn schema? t includeDefaults a).get? name = some v := by
  unfold describeOwnIn
  rw [hm]
  dsimp only [Option.getD_some]
  cases schema? a with
  | none => exact h
  | some schema =>
    dsimp only
    split
    · exact get?_withDefaults h
    · exact h

end Resource

/-! ### Committed trees -/

theorem ModelCall.runAll_of_attemptAll {calls : List ModelCall} {w w' : WorkingCopy}
    (h : attemptAll calls w = .ok w') : (runAll calls w).2 = w' := by
  induction calls generalizing w with
  | nil =>
    cases h
    rfl
  | cons call calls ih =>
    obtain ⟨w₁, hfirst, hrest⟩ := bind_eq_ok.1 (show (_ >>= attemptAll calls) = _ from h)
    obtain ⟨⟨attributes, w₂⟩, hattempt, rfl⟩ := map_eq_ok.1 hfirst
    have hrun : (call.run w).2 = w₂ := by
      unfold run
      rw [hattempt]
    show (runAll calls (call.run w).2).2 = w'
    rw [hrun]
    exact ih hrest

namespace Controller

section

variable {S : Signature} {c : Controller S} {s s' : ControllerState S}

/-- A submission leaves the committed tree a hierarchy, whether it commits or fails. -/
theorem hierarchical_of_perform (hc : ∀ h op, (c.handle h op).Uninterrupted) {sub : Submission}
    {outcome : Outcome} (h : c.perform sub s = .ok (outcome, s'))
    (hs : s.store.tree.Hierarchical) : s'.store.tree.Hierarchical := by
  rcases perform_cases h with ⟨-, rfl⟩ | ⟨accepted, f₀, ended, hbegins, hended, hreports⟩
  · rw [sub.store_after]
    exact hs
  · obtain ⟨log, -, ⟨-, hstore⟩ | ⟨f, -, -, hconfined, hpublished⟩⟩ :=
      hbegins.store_cases hc hended hreports
    · rw [hstore]
      exact hs
    · -- what is published comes of the calls that were granted, each of which keeps a hierarchy
      rw [hpublished, hconfined.tree_publish, ← ModelCall.runAll_of_attemptAll hconfined]
      exact ModelCall.runAll_keeps ModelCall.hierarchical_run hs _

end

variable {X : Signature} {c : Controller X.withProperties} {cfg : PropertyConfig}
  {s t : ControllerState X.withProperties}

/-- Every tree that is ever committed is a hierarchy. -/
theorem Run.hierarchical (hc : ∀ h op, (c.handle h op).Uninterrupted)
    {log : List (Submission × Outcome)} (h : Run c s log t) (hs : s.store.tree.Hierarchical) :
    t.store.tree.Hierarchical := by
  induction h with
  | start => exact hs
  | next before answer ih => exact hierarchical_of_perform hc answer ih

/-! ### Reading -/

/-- A read of a resource that is there is answered with its description. -/
theorem exists_perform_readResource (hc : c.RunsModel cfg) (hs : s.Tidy) {op : Operation}
    {entry : RegisteredOperation (ModelHandler X.Handler)}
    (haccept : c.accept s.booting op = .ok entry)
    (hhandler : entry.handler = .resource .readResource) (hreadOnly : entry.schema.isReadOnly = true)
    (hlimit : 1 < c.stepLimit) {v : Value}
    (hread : Resource.readAllIn c.registry.resource? op s.store.tree = .ok v) :
    ∃ response s', c.perform (.execute op) s = .ok (.ok response, s') ∧ response.result = v := by
  have hacc : c.acceptAll s.booting [op] = .ok [(op, entry)] :=
    acceptAll_cons.2 ⟨entry, [], haccept, rfl, rfl⟩
  have hbuilt : c.IsBuiltIn op := by
    intro entry' hentry'
    rw [(accept_eq_ok.1 haccept).1] at hentry'
    cases hentry'
    rw [hhandler]
    trivial
  -- a read takes no lock
  have hfree : s.locks.conflicts (writeScope (S := X.withProperties) [(op, entry)]) = false := by
    refine conflicts_eq_false.2 fun a ha => ?_
    obtain ⟨x, hx, hwrites, -⟩ := mem_writeScope.1 ha
    rw [List.mem_singleton.1 hx, hreadOnly] at hwrites
    cases hwrites
  -- its one step sets the result, and leaves the working copy as it was opened
  have hdraft : (draftOf [(op, entry)] s).run c.registry.resource? (c.effect cfg s.booting)
      (tasksOf [(op, entry)]) = .ok { draftOf [(op, entry)] s with results := [v] } := by
    show Draft.run _ _ [(op, entry.handler)] _ = _
    rw [Draft.run_cons, hhandler, Draft.step_eq_ok.2 ⟨{ result? := some v }, _, ?_, rfl⟩]
    · rfl
    · show Drafting.bind (Drafting.reading (Resource.readAllIn c.registry.resource? op)) _
        (draftOf [(op, entry)] s).working = .ok (_, (draftOf [(op, entry)] s).working)
      refine Drafting.bind_eq_ok.2 ⟨v, _, ?_, rfl⟩
      unfold Drafting.reading
      rw [show (draftOf [(op, entry)] s).working.tree = s.store.tree from rfl, hread]
      rfl
  have hclear : ({ live := s.environment.live } : Alignment).IsClear := ⟨rfl, rfl⟩
  obtain ⟨r, s', hsubmit, hsettles⟩ := exists_submit hc hs (List.forall_mem_singleton.2 hbuilt)
    (List.cons_ne_nil op []) hlimit hacc hfree
  have hresult := hsettles.result_eq
  rw [course_of_settle_ok hdraft hclear.settle] at hresult
  rw [perform_eq]
  show ∃ response s', (c.submit s.booting [op] s).map _ = _ ∧ _
  rw [hsubmit, hresult]
  exact ⟨_, _, rfl, rfl⟩

/-- What a read makes of each resource alone. -/
def described (c : Controller X.withProperties) (op : Operation)
    (s : ControllerState X.withProperties) : Address → Attributes :=
  Resource.describeOwnIn c.registry.resource? s.store.tree
    (Resource.flag op Resource.includeDefaultsParameter true)

/-- A recursive read of a resource that is there is answered with an object, in which every resource
    below it is found to which the way down is clear, and no other. What is found holds every stored
    attribute with its value, except for objects with the key of a child. -/
theorem readResource_shows (hc : c.RunsModel cfg) (hs : s.Tidy) (htree : s.store.tree.Hierarchical)
    {op : Operation} {entry : RegisteredOperation (ModelHandler X.Handler)}
    (haccept : c.accept s.booting op = .ok entry)
    (hhandler : entry.handler = .resource .readResource) (hreadOnly : entry.schema.isReadOnly = true)
    (hrecursive : Resource.flag op Resource.recursiveParameter false = true)
    (hthere : s.store.tree.contains op.address = true) (hlimit : 1 < c.stepLimit) :
    ∃ response s' fields, c.perform (.execute op) s = .ok (.ok response, s') ∧
      response.result = .object fields ∧
      ∀ (path : List AddressElement) (stored : Attributes),
        s.store.tree.get? ⟨op.address.elements ++ path⟩ = some stored →
          (Tree.Clear (c.described op s) op.address path →
            ∃ found, response.result.follow path = some (.object found) ∧
              ∀ name v, stored.get? name = some v →
                ((∀ group, v ≠ .object group) ∨
                  ∀ e, s.store.tree.contains ⟨op.address.elements ++ path ++ [e]⟩ = true →
                    e.key ≠ name) →
                Entries.get? name found = some v) ∧
          (¬ Tree.Clear (c.described op s) op.address path →
            response.result.follow path = none) := by
  have hread : Resource.readAllIn c.registry.resource? op s.store.tree =
      .ok (.ofAttributes (s.store.tree.describe (c.described op s) op.address)) := by
    obtain ⟨m, hm⟩ := Option.isSome_iff_exists.1 ((Tree.contains_eq _ _).symm.trans hthere)
    unfold Resource.readAllIn
    rw [Tree.require_eq_ok.2 hm, hrecursive]
    rfl
  obtain ⟨response, s', h, hresult⟩ :=
    exists_perform_readResource hc hs haccept hhandler hreadOnly hlimit hread
  refine ⟨response, s', _, h, hresult, fun path stored hstored => ?_⟩
  have hfound : s.store.tree.contains ⟨op.address.elements ++ path⟩ = true := by
    rw [Tree.contains_eq, hstored]
    rfl
  rw [hresult]
  constructor
  · intro hclear
    refine ⟨_, (Tree.follow_describe htree hfound).2 ⟨hclear, rfl⟩, fun name v hv hkept => ?_⟩
    -- neither a default nor the group of a child takes its place
    exact Tree.get?_describe_of_own (Resource.get?_describeOwnIn hstored hv) hkept
  · intro hnot
    refine Option.eq_none_iff_forall_ne_some.2 fun v hv => ?_
    exact hnot ((Tree.follow_describe htree hfound).1 hv).1

end Controller

/-- Servers with connectors. A server has an attribute of its own by the name of its connectors, and
    one by the name of its options, which is an object. -/
def ModelSpec.servers : ModelSpec Empty where
  offersProperties := false
  resources :=
    [{ pattern := ⟨[.wildcard "server"]⟩
       attributes := [(AttributeSchema.new "connector" .string).withDefault (.string "none"),
        .new "options" .object] },
      { pattern := ⟨[.wildcard "server", .wildcard "connector"]⟩
        attributes := [.new "port" .int] },
      { pattern := ⟨[.wildcard "server", .wildcard "options"]⟩
        attributes := [.new "port" .int] }]

namespace Controller

/-- The controller of the model with servers. -/
def serving : Controller Signature.bare.withProperties :=
  { bare {} 10 with registry := ModelSpec.servers.registry.toOption.getD {} }

/-- A server with a connector, which has a socket, and with options. -/
def webServer : List (Address × Attributes) :=
  [(⟨[⟨"server", "web"⟩]⟩, .ofList [("options", .object [])]),
    (⟨[⟨"server", "web"⟩, ⟨"connector", "http"⟩]⟩, .ofList [("port", .int 80)]),
    (⟨[⟨"server", "web"⟩, ⟨"connector", "http"⟩, ⟨"socket", "main"⟩]⟩, .ofList [("on", .bool true)]),
    (⟨[⟨"server", "web"⟩, ⟨"options", "tls"⟩]⟩, .ofList [("port", .int 443)])]

/-- The state in which a tree is committed. -/
def committing (tree : Tree) : ControllerState Signature.bare.withProperties :=
  { store := { tree }, environment := { other := () } }

/-- The request to read the server with everything below it. -/
def readServer (includeDefaults : Bool) : Operation :=
  (({ name := "read-resource", address := ⟨[⟨"server", "web"⟩]⟩ } : Operation).withParam
    "recursive" (.bool true)).withParam "include-defaults" (.bool includeDefaults)

/-- The request to add another connector to the server. -/
def addConnector : Operation :=
  ({ name := "add", address := ⟨[⟨"server", "web"⟩, ⟨"connector", "ajp"⟩]⟩ } : Operation).withParam
    "port" (.int 8009)

/-- Without the defaults the way to the socket is clear, also after another connector was added. -/
theorem readResource_shows_socket :
    ∃ tree, Tree.ofSeed webServer = .ok tree ∧
      ∃ added s, Run serving (committing tree) [(.execute addConnector, .ok added)] s ∧
        ∃ response s' found, serving.perform (.execute (readServer false)) s =
            .ok (.ok response, s') ∧
          response.result.follow [⟨"connector", "http"⟩, ⟨"socket", "main"⟩] =
            some (.object found) ∧
          Entries.get? "on" found = some (.bool true) := by
  have hrun : (Tree.ofSeed webServer).toOption.any (fun tree =>
      serving.answers (.execute addConnector) (committing tree) fun outcome s =>
        outcome.isOk && (!s.booting &&
          (s.store.tree.contains ⟨[⟨"server", "web"⟩]⟩ &&
            (s.store.tree.get? ⟨[⟨"server", "web"⟩, ⟨"connector", "http"⟩, ⟨"socket", "main"⟩]⟩ ==
                some (.ofList [("on", .bool true)]) &&
              (((serving.described (readServer false) s
                  ⟨[⟨"server", "web"⟩]⟩).get? "connector").isNone &&
                ((serving.described (readServer false) s
                  ⟨[⟨"server", "web"⟩, ⟨"connector", "http"⟩]⟩).get? "socket").isNone))))) =
      true := by
    decide +kernel
  cases htree : Tree.ofSeed webServer with
  | error fault =>
    rw [htree] at hrun
    cases hrun
  | ok tree =>
    rw [htree] at hrun
    obtain ⟨outcome, s, hadd, htest⟩ := exists_of_answers hrun
    cases outcome with
    | error failure => cases htest
    | ok added =>
      simp only [Bool.and_eq_true, Bool.not_eq_true', beq_iff_eq,
        Option.isNone_iff_eq_none] at htest
      obtain ⟨-, hbooting, hthere, hsocket, hserver, hconnector⟩ := htest
      have hreached : Run serving (committing tree) [(.execute addConnector, .ok added)] s :=
        Run.start.next hadd
      -- a state that was reached is tidy, and its tree a hierarchy
      have hc : serving.RunsModel {} := ⟨fun _ _ => rfl, fun _ _ => rfl⟩
      have huninterrupted := uninterrupted hc fun code => code.elim
      have hbegin : (committing tree).Tidy := ⟨fun _ => rfl, fun _ h => (nomatch h)⟩
      have hs : s.Tidy := tidy_perform huninterrupted hbegin hadd
      have hhierarchical : s.store.tree.Hierarchical :=
        hreached.hierarchical huninterrupted (Tree.hierarchical_of_ofSeed htree)
      have haccept : serving.accept s.booting (readServer false) =
          .ok ⟨Resource.readResourceSchema, .resource .readResource⟩ := by
        rw [hbooting]
        rfl
      obtain ⟨response, s', fields, h, -, hshows⟩ :=
        readResource_shows hc hs hhierarchical haccept rfl rfl rfl hthere (by decide)
      obtain ⟨found, hfollow, hkept⟩ :=
        (hshows [⟨"connector", "http"⟩, ⟨"socket", "main"⟩] _ hsocket).1
          ⟨Tree.leavesRoom_of_get?_eq_none hserver, Tree.leavesRoom_of_get?_eq_none hconnector,
            trivial⟩
      exact ⟨tree, rfl, added, s, hreached, response, s', found, h, hfollow,
        hkept "on" _ rfl (.inl nofun)⟩

/-- With the defaults, the text filled in for the server keeps its connector out. And the options that
    are stored for the server are not those that are read. -/
theorem readResource_hides_connector :
    ∃ tree, Tree.ofSeed webServer = .ok tree ∧
      tree.get? ⟨[⟨"server", "web"⟩, ⟨"connector", "http"⟩]⟩ = some (.ofList [("port", .int 80)]) ∧
      tree.get? ⟨[⟨"server", "web"⟩]⟩ = some (.ofList [("options", .object [])]) ∧
      ∃ response s', serving.perform (.execute (readServer true)) (committing tree) =
          .ok (.ok response, s') ∧
        response.result.follow [⟨"connector", "http"⟩] = none ∧
        response.result.field? "options" ≠ some (.object []) := by
  have hrun : (Tree.ofSeed webServer).toOption.any (fun tree =>
      tree.get? ⟨[⟨"server", "web"⟩, ⟨"connector", "http"⟩]⟩ == some (.ofList [("port", .int 80)]) &&
        (tree.get? ⟨[⟨"server", "web"⟩]⟩ == some (.ofList [("options", .object [])]) &&
          serving.answers (.execute (readServer true)) (committing tree) fun outcome _ =>
            outcome.toOption.any fun response =>
              (response.result.follow [⟨"connector", "http"⟩]).isNone &&
                response.result.field? "options" != some (.object []))) = true := by
    decide +kernel
  cases htree : Tree.ofSeed webServer with
  | error fault =>
    rw [htree] at hrun
    cases hrun
  | ok tree =>
    rw [htree] at hrun
    simp only [Except.toOption, Option.any_some, Bool.and_eq_true, beq_iff_eq] at hrun
    obtain ⟨hconnector, hserver, hrun⟩ := hrun
    obtain ⟨outcome, s', h, htest⟩ := exists_of_answers hrun
    cases outcome with
    | error failure => cases htest
    | ok response =>
      obtain ⟨hnone, hoptions⟩ := Bool.and_eq_true_iff.1 htest
      exact ⟨tree, rfl, hconnector, hserver, response, s', h, Option.isNone_iff_eq_none.1 hnone,
        bne_iff_ne.1 hoptions⟩

end Controller

end ManagedModel
