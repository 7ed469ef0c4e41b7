import ManagedModel.Proofs.Hierarchy

/-! # The structure of a tree under calls

    A tree is changed in place by calls that add, change and remove resources,
    and that may fail.

    * `ModelCall.inPlace` is a call as a program on a tree: it makes its checks
      one by one and then changes the tree, and a fault leaves behind whatever
      was changed before it. It comes to what the operations on trees come to,
      and where it fails it has changed nothing (`ModelCall.runInPlace_eq`).
    * So every tree that calls lead to is a hierarchy
      (`Tree.hierarchical_ofCalls`). In a hierarchy a leaf has nothing below it
      at any depth, which is what makes a look at the children enough for a
      removal (`Tree.Hierarchical.remove_goes_iff`).
    * The children of an address are read off where its subtree stands in the
      order of addresses, and are all resources whose parent it is
      (`Tree.mem_children_iff_parent`). -/

namespace ManagedModel

/-! ### Calls in place -/

namespace ModelCall

/-- The call by the operations on trees, with the attributes of the resource that is given out. -/
def onTree : ModelCall → Tree → Except Fault (Attributes × Tree)
  | create a, t => (t.create a).map fun t => (∅, t)
  | edit a change, t => do return (← t.require a, ← t.edit a change)
  | remove a, t => t.remove a

/-- Goes on just if the tree, as it is by then, passes a check. -/
def demand (fault : Fault) (passes : Tree → Bool) : ExceptT Fault (StateM Tree) Unit := do
  if !passes (← get) then throw fault

/-- Goes on with the attributes of a resource that has to be there. -/
def opened (a : Address) : ExceptT Fault (StateM Tree) Attributes := do
  match (← get).get? a with
  | none => throw (.resourceNotFound a)
  | some attributes => return attributes

/-- The call as a program on a tree, with its checks one by one. A fault keeps what was changed so
    far. -/
def inPlace : ModelCall → ExceptT Fault (StateM Tree) Attributes
  | create a => do
    demand (.duplicateResource a) fun t => !t.contains a
    match a.parent? with
    | some parent => demand (.resourceNotFound parent) (·.contains parent)
    | none => pure ()
    modify (·.put a ∅)
    return ∅
  | edit a change => do
    let old ← opened a
    modify (·.put a (change old))
    return old
  | remove a => do
    demand (.validation .rootRemoval) fun _ => !a.isRoot
    let attributes ← opened a
    demand (.validation (.hasChildren a)) fun t => (t.children a).isEmpty
    modify (·.discard a)
    return attributes

/-- Makes the call in place; gives its answer and the tree that is left. -/
def runInPlace (call : ModelCall) (t : Tree) : Except Fault Attributes × Tree :=
  call.inPlace.run.run t

section

variable {fault : Fault} {passes : Tree → Bool} {a : Address} {t : Tree}

theorem run_demand_bind (k : Unit → ExceptT Fault (StateM Tree) Attributes) :
    ((demand fault passes >>= k).run.run t : Except Fault Attributes × Tree) =
      if passes t = true then (k ()).run.run t else (.error fault, t) := by
  show ((if !passes t then throw fault else pure () : ExceptT Fault (StateM Tree) Unit) >>=
    k).run.run t = _
  cases passes t with
  | false => rfl
  | true => rfl

theorem run_opened_bind (k : Attributes → ExceptT Fault (StateM Tree) Attributes) :
    ((opened a >>= k).run.run t : Except Fault Attributes × Tree) =
      match t.get? a with
      | some attributes => (k attributes).run.run t
      | none => (.error (.resourceNotFound a), t) := by
  show (((match t.get? a with
    | none => throw (.resourceNotFound a)
    | some attributes => pure attributes) : ExceptT Fault (StateM Tree) Attributes) >>=
      k).run.run t = _
  cases t.get? a with
  | none => rfl
  | some attributes => rfl

end

/-- A call in place has the answer and the effect of the operation on the tree, and no effect where
    that fails. -/
theorem runInPlace_eq (call : ModelCall) (t : Tree) :
    call.runInPlace t =
      match call.onTree t with
      | .ok (attributes, t') => (.ok attributes, t')
      | .error fault => (.error fault, t) := by
  unfold runInPlace
  -- one case for each way through the checks
  cases call with
  | create a =>
    simp only [onTree, inPlace, Tree.create]
    rw [run_demand_bind]
    cases hthere : t.contains a with
    | true => rfl
    | false =>
      cases hparent : a.parent? with
      | none => rfl
      | some parent =>
        simp only [Bool.not_false, if_true, Bool.false_eq_true, if_false]
        rw [run_demand_bind]
        cases hp : t.contains parent with
        | true => rfl
        | false => rfl
  | edit a change =>
    simp only [onTree, inPlace, Tree.edit, Tree.require]
    rw [run_opened_bind]
    cases t.get? a with
    | none => rfl
    | some old => rfl
  | remove a =>
    simp only [onTree, inPlace, Tree.remove]
    rw [run_demand_bind]
    cases hroot : a.isRoot with
    | true => rfl
    | false =>
      simp only [Bool.not_false, if_true, Bool.false_eq_true, if_false]
      rw [run_opened_bind]
      cases hget : t.get? a with
      | none => rfl
      | some attributes =>
        dsimp only
        rw [run_demand_bind]
        cases hleaf : (t.children a).isEmpty with
        | true => rfl
        | false => rfl

/-- A call either changes the tree as the operation on trees does, or fails and leaves it. -/
theorem runInPlace_cases (call : ModelCall) (t : Tree) :
    (∃ attributes t', call.onTree t = .ok (attributes, t') ∧
        call.runInPlace t = (.ok attributes, t')) ∨
      ∃ fault, call.onTree t = .error fault ∧ call.runInPlace t = (.error fault, t) := by
  have h := call.runInPlace_eq t
  cases hcall : call.onTree t with
  | ok r =>
    rw [hcall] at h
    exact .inl ⟨r.1, r.2, rfl, h⟩
  | error fault =>
    rw [hcall] at h
    exact .inr ⟨fault, rfl, h⟩

/-- A call goes through in place where the operation on trees does. -/
theorem runInPlace_goes_iff {call : ModelCall} {t : Tree} :
    (∃ attributes, (call.runInPlace t).1 = .ok attributes) ↔
      ∃ attributes t', call.onTree t = .ok (attributes, t') := by
  rcases call.runInPlace_cases t with ⟨attributes, t', hcall, hrun⟩ | ⟨fault, hcall, hrun⟩
  · rw [hrun, hcall]
    exact ⟨fun _ => ⟨attributes, t', rfl⟩, fun _ => ⟨attributes, rfl⟩⟩
  · rw [hrun, hcall]
    exact ⟨nofun, nofun⟩

end ModelCall

/-! ### The trees that calls lead to -/

namespace Tree

variable {t t' : Tree} {a : Address}

theorem Hierarchical.onTree (ht : t.Hierarchical) {call : ModelCall} {attributes : Attributes}
    (h : call.onTree t = .ok (attributes, t')) : t'.Hierarchical := by
  cases call with
  | create a =>
    obtain ⟨t₁, hcreate, heq⟩ := map_eq_ok.1 h
    cases heq
    exact ht.create hcreate
  | edit a change =>
    obtain ⟨old, hold, h⟩ := bind_eq_ok.1 h
    obtain ⟨t₁, hedit, heq⟩ := bind_eq_ok.1 h
    cases heq
    exact ht.edit hedit
  | remove a => exact ht.remove h

/-- A call leaves a hierarchy behind, whether it goes through or fails. -/
theorem Hierarchical.runInPlace (ht : t.Hierarchical) (call : ModelCall) :
    (call.runInPlace t).2.Hierarchical := by
  rcases call.runInPlace_cases t with ⟨attributes, t', hcall, hrun⟩ | ⟨fault, -, hrun⟩
  · rw [hrun]
    exact ht.onTree hcall
  · rw [hrun]
    exact ht

/-- The tree that calls lead to from the initial one, each made in place. -/
def ofCalls (calls : List ModelCall) : Tree :=
  calls.foldl (fun t call => (call.runInPlace t).2) initial

theorem hierarchical_ofCalls (calls : List ModelCall) : (ofCalls calls).Hierarchical := by
  -- from the back: the last call finds the tree that the others lead to
  induction calls using List.reverseRecOn with
  | nil => exact hierarchical_initial
  | append_singleton calls call ih =>
    unfold ofCalls
    rw [List.foldl_append]
    exact ih.runInPlace call

/-! ### What a look at the children tells -/

theorem mem_children_iff_parent {b : Address} :
    b ∈ t.children a ↔ t.contains b = true ∧ b.parent? = some a := by
  rw [mem_children_iff, Address.parent?_eq_some_iff]

theorem children_ascending (t : Tree) (a : Address) :
    (t.children a).Pairwise fun b c => compare b c = .lt := by
  have hsub : (t.children a).Sublist t.nodes.keys :=
    List.filter_sublist.trans ((List.takeWhile_sublist _).trans (List.dropWhile_sublist _))
  exact (SortedMap.keys_ascending t.nodes).sublist hsub

theorem nodup_children (t : Tree) (a : Address) : (t.children a).Nodup :=
  nodup_of_ascending (t.children_ascending a)

/-- In a hierarchy a resource without children has nothing below it. -/
theorem Hierarchical.children_eq_nil_iff (ht : t.Hierarchical) :
    t.children a = [] ↔ ∀ b, t.contains b = true → b.isUnder a = true → b = a := by
  constructor
  · intro hleaf b hthere hunder
    obtain ⟨path, hpath⟩ := Address.isUnder_iff.1 hunder
    cases path with
    | nil =>
      rw [List.append_nil] at hpath
      exact congrArg Address.mk hpath.symm
    | cons e path =>
      -- the first element of the way down leads to a child, which is there since `b` is
      have hb : b = ⟨(a.child e).elements ++ path⟩ :=
        congrArg Address.mk (hpath.symm.trans (List.append_cons a.elements e path))
      rw [hb] at hthere
      have hmem := child_mem_children (ht.contains_of_append hthere)
      rw [hleaf] at hmem
      cases hmem
  · intro honly
    rw [List.eq_nil_iff_forall_not_mem]
    intro b hb
    obtain ⟨hthere, hunder, hlength⟩ := mem_children_iff.1 hb
    rw [honly b hthere hunder] at hlength
    omega

theorem isRoot_iff : a.isRoot = true ↔ a = .root := by
  obtain ⟨elements⟩ := a
  unfold Address.isRoot Address.root
  rw [List.isEmpty_iff, Address.mk.injEq]

/-- What is removed is a resource other than the root that has nothing below it. -/
theorem Hierarchical.remove_goes_iff (ht : t.Hierarchical) :
    (∃ attributes t', t.remove a = .ok (attributes, t')) ↔
      a ≠ .root ∧ t.contains a = true ∧
        ∀ b, t.contains b = true → b.isUnder a = true → b = a := by
  rw [← ht.children_eq_nil_iff, Ne, ← isRoot_iff, contains_eq]
  unfold Tree.remove
  by_cases hroot : a.isRoot = true
  · simp [hroot]
  · cases hget : t.get? a with
    | none => simp [hroot]
    | some attributes =>
      by_cases hleaf : t.children a = []
      · simp [hroot, hleaf]
      · simp [hroot, hleaf]

/-- Every tree that calls lead to, going through or failing, is a hierarchy. A look at the children
    of an address finds all resources whose parent it is, each once and in ascending order. A
    removal goes through for all resources that have nothing below them at any depth, but for the
    root. A call that fails leaves the tree as it was. -/
theorem structure_of_calls (calls : List ModelCall) :
    let t := ofCalls calls
    (t.contains .root = true ∧
      ∀ a p, t.contains a = true → a.parent? = some p → t.contains p = true) ∧
    (∀ a,
      (∀ b, b ∈ t.children a ↔ t.contains b = true ∧ b.parent? = some a) ∧
      (t.children a).Nodup ∧
      (t.children a).Pairwise fun b c => compare b c = .lt) ∧
    (∀ a,
      (∃ attributes, ((ModelCall.remove a).runInPlace t).1 = .ok attributes) ↔
        a ≠ .root ∧ t.contains a = true ∧
          ∀ b, t.contains b = true → b.isUnder a = true → b = a) ∧
    ∀ (call : ModelCall) fault,
      (call.runInPlace t).1 = .error fault → (call.runInPlace t).2 = t := by
  intro t
  have ht : t.Hierarchical := hierarchical_ofCalls calls
  refine ⟨⟨ht.root, fun a p => ht.parent⟩, fun a => ?_, fun a => ?_, fun call fault hfail => ?_⟩
  · exact ⟨fun b => mem_children_iff_parent, t.nodup_children a, t.children_ascending a⟩
  · rw [ModelCall.runInPlace_goes_iff]
    exact ht.remove_goes_iff
  · rcases call.runInPlace_cases t with ⟨attributes, t', -, hrun⟩ | ⟨fault', -, hrun⟩
    · rw [hrun] at hfail
      cases hfail
    · rw [hrun]

end Tree

end ManagedModel
