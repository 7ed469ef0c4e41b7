import Mathlib.Data.List.Forall2
import ManagedModel.Proofs.FaultKinds
import ManagedModel.Proofs.Lookup

/-! # Registries that calls lead to

    A registry is built by calls, any of which may fail.

    * `RegistryCall.inPlace` is a call as a program on the registry that is
      being built: it makes its checks one by one and changes the registry
      last. It does what the addition to the registry does, and where it fails
      it has changed nothing (`RegistryCall.runInPlace_eq`).
    * A call goes through just if nothing is in its way
      (`RegistryCall.make_eq_ok`).
    * `Registry.LaidOut` says what a registry has of the calls that went
      through. Each of them keeps it (`Registry.LaidOut.added`), so that it holds
      of every registry that calls lead to (`Registry.LaidOut.runAll`).
    * The match patterns of such a registry can be read, so that validation
      never fails for a reason of its own
      (`Registry.LaidOut.readable_of_declares`). -/

namespace ManagedModel

/-- A call that adds to a registry. -/
inductive RegistryCall (H : Type) where
  | global (schema : OperationSchema) (handler : H)
  | resource (pattern : Address) (attributes : List AttributeSchema)
      (operations : List (OperationSchema × H))

namespace RegistryCall

variable {H : Type}

/-! ### Calls in place -/

/-- The addition to a registry that the call asks for. -/
def make (r : Registry H) : RegistryCall H → Except RegistryFault (Registry H)
  | global schema handler => r.addGlobal schema handler
  | resource pattern attributes operations => r.addResource pattern attributes operations

/-- Goes on just if the registry, as it is by then, passes a check. -/
def demand (fault : RegistryFault) (passes : Registry H → Bool) :
    ExceptT RegistryFault (StateM (Registry H)) Unit := do
  if !passes (← get) then throw fault

/-- The call as a program on a registry, with its checks one by one. A fault keeps what was changed
    so far. -/
def inPlace : RegistryCall H → ExceptT RegistryFault (StateM (Registry H)) Unit
  | global schema handler => do
    demand (.duplicateOperation none schema.name) fun r => !r.globals.contains schema.name
    MonadExcept.ofExcept (Registry.checkPatterns schema.parameters)
    modify fun r => { r with globals := r.globals.insert schema.name ⟨schema, handler⟩ }
  | resource pattern attributes operations => do
    demand (.duplicateResource pattern) fun r => !r.resources.any (·.schema.pattern = pattern)
    if let some name := Registry.repeated? [] (attributes.map (·.name)) then
      throw (.duplicateAttribute pattern name)
    MonadExcept.ofExcept (Registry.checkPatterns attributes)
    let operations ← MonadExcept.ofExcept (Registry.addOperations (some pattern) ∅ operations)
    modify fun r => { r with resources := r.resources ++ [⟨{ pattern, attributes }, operations⟩] }

/-- Makes the call in place; gives its answer and the registry that is left. -/
def runInPlace (call : RegistryCall H) (r : Registry H) : Except RegistryFault Unit × Registry H :=
  call.inPlace.run.run r

section

variable {α : Type} {fault : RegistryFault} {passes : Registry H → Bool} {r : Registry H}

theorem run_demand_bind (k : Unit → ExceptT RegistryFault (StateM (Registry H)) Unit) :
    ((demand fault passes >>= k).run.run r : Except RegistryFault Unit × Registry H) =
      if passes r = true then (k ()).run.run r else (.error fault, r) := by
  show ((if !passes r then throw fault else pure () :
    ExceptT RegistryFault (StateM (Registry H)) Unit) >>= k).run.run r = _
  cases passes r with
  | false => rfl
  | true => rfl

theorem run_ofExcept_bind (checked : Except RegistryFault α)
    (k : α → ExceptT RegistryFault (StateM (Registry H)) Unit) :
    ((MonadExcept.ofExcept checked >>= k).run.run r : Except RegistryFault Unit × Registry H) =
      match checked with
      | .ok a => (k a).run.run r
      | .error fault => (.error fault, r) := by
  cases checked with
  | error fault => rfl
  | ok a => rfl

end

/-- A call in place has the effect of the addition, and no effect where that fails. -/
theorem runInPlace_eq (call : RegistryCall H) (r : Registry H) :
    call.runInPlace r =
      match call.make r with
      | .ok r' => (.ok (), r')
      | .error fault => (.error fault, r) := by
  unfold runInPlace
  -- one case for each way through the checks
  cases call with
  | global schema handler =>
    simp only [inPlace, make, Registry.addGlobal, Registry.addOperations]
    rw [run_demand_bind]
    cases hthere : r.globals.contains schema.name with
    | true => rfl
    | false =>
      simp only [Bool.not_false, if_true, Bool.false_eq_true, if_false]
      rw [run_ofExcept_bind]
      cases Registry.checkPatterns schema.parameters with
      | error fault => rfl
      | ok u => rfl
  | resource pattern attributes operations =>
    simp only [inPlace, make, Registry.addResource]
    rw [run_demand_bind]
    cases hthere : r.resources.any (·.schema.pattern = pattern) with
    | true => rfl
    | false =>
      simp only [Bool.not_false, if_true, Bool.false_eq_true, if_false]
      cases Registry.repeated? [] (attributes.map (·.name)) with
      | some name => rfl
      | none =>
        simp only
        rw [run_ofExcept_bind]
        cases Registry.checkPatterns attributes with
        | error fault => rfl
        | ok u =>
          dsimp only
          rw [run_ofExcept_bind]
          cases Registry.addOperations (some pattern) ∅ operations with
          | error fault => rfl
          | ok table => rfl

end RegistryCall

/-! ### What is in the way of a call -/

namespace Registry

variable {H : Type} {r r' : Registry H}

theorem repeated?_eq_none {seen names : List String} :
    repeated? seen names = none ↔ names.Nodup ∧ ∀ name ∈ names, name ∉ seen := by
  refine ⟨nodup_of_repeated?, ?_⟩
  induction names generalizing seen with
  | nil => exact fun _ => rfl
  | cons first names ih =>
    rintro ⟨hnodup, hfresh⟩
    obtain ⟨hfirst, hnames⟩ := List.nodup_cons.1 hnodup
    obtain ⟨hunseen, hothers⟩ := List.forall_mem_cons.1 hfresh
    unfold repeated?
    rw [if_neg (by simpa using hunseen)]
    refine ih ⟨hnames, fun name hname => ?_⟩
    rintro (_ | ⟨-, hseen⟩)
    · exact hfirst hname
    · exact hothers name hname hseen

theorem checkPatterns_eq_ok {defs : List AttributeSchema} :
    checkPatterns defs = .ok () ↔ ∀ d ∈ defs, d.Readable := by
  refine ⟨readable_of_checkPatterns, ?_⟩
  induction defs with
  | nil => exact fun _ => rfl
  | cons d defs ih =>
    intro hreadable
    obtain ⟨hfirst, hrest⟩ := List.forall_mem_cons.1 hreadable
    unfold checkPatterns
    cases hsource : d.pattern? with
    | none => exact ih hrest
    | some source =>
      obtain ⟨isMatch, hcompile⟩ := hfirst source hsource
      dsimp only
      rw [hcompile]
      exact ih hrest

/-- Operations can be added if their names are new and distinct and their patterns can be read. -/
structure Addable (table : SortedMap String (RegisteredOperation H))
    (ops : List (OperationSchema × H)) : Prop where
  nodup : (ops.map (·.1.name)).Nodup
  fresh : ∀ op ∈ ops, table.get? op.1.name = none
  readable : ∀ op ∈ ops, ∀ d ∈ op.1.parameters, d.Readable

/-- The table with further operations. -/
def tabulate (table : SortedMap String (RegisteredOperation H)) (ops : List (OperationSchema × H)) :
    SortedMap String (RegisteredOperation H) :=
  ops.foldl (fun table op => table.insert op.1.name ⟨op.1, op.2⟩) table

theorem addable_cons {table : SortedMap String (RegisteredOperation H)} {op : OperationSchema × H}
    {ops : List (OperationSchema × H)} :
    Addable table (op :: ops) ↔ table.get? op.1.name = none ∧
      (∀ d ∈ op.1.parameters, d.Readable) ∧ Addable (table.insert op.1.name ⟨op.1, op.2⟩) ops := by
  constructor
  · rintro ⟨hnodup, hfresh, hreadable⟩
    obtain ⟨hfirst, hnames⟩ := List.nodup_cons.1 hnodup
    obtain ⟨hnew, hothers⟩ := List.forall_mem_cons.1 hfresh
    obtain ⟨hown, hrest⟩ := List.forall_mem_cons.1 hreadable
    refine ⟨hnew, hown, hnames, fun other hother => ?_, hrest⟩
    have hne : other.1.name ≠ op.1.name := fun hsame =>
      hfirst (List.mem_map.2 ⟨other, hother, hsame⟩)
    rw [SortedMap.get?_insert_of_ne _ hne]
    exact hothers other hother
  · rintro ⟨hnew, hown, hnames, hfresh, hrest⟩
    -- a name that is still new when the first operation was added is another one
    have hne : ∀ other ∈ ops, other.1.name ≠ op.1.name := by
      intro other hother hsame
      have hnone := hfresh other hother
      rw [hsame, SortedMap.get?_insert_self] at hnone
      cases hnone
    refine ⟨List.nodup_cons.2 ⟨?_, hnames⟩, List.forall_mem_cons.2 ⟨hnew, ?_⟩,
      List.forall_mem_cons.2 ⟨hown, hrest⟩⟩
    · intro hmem
      obtain ⟨other, hother, hsame⟩ := List.mem_map.1 hmem
      exact hne other hother hsame
    · intro other hother
      rw [← hfresh other hother, SortedMap.get?_insert_of_ne _ (hne other hother)]

theorem addOperations_eq_ok_iff {pattern? : Option Address}
    {table table' : SortedMap String (RegisteredOperation H)} {ops : List (OperationSchema × H)} :
    addOperations pattern? table ops = .ok table' ↔
      Addable table ops ∧ table' = tabulate table ops := by
  induction ops generalizing table with
  | nil =>
    constructor
    · intro h
      cases h
      exact ⟨⟨List.nodup_nil, List.forall_mem_nil _, List.forall_mem_nil _⟩, rfl⟩
    · rintro ⟨-, rfl⟩
      rfl
  | cons op ops ih =>
    rw [addable_cons]
    unfold addOperations
    cases hthere : table.get? op.1.name with
    | some entry =>
      rw [if_pos (by rw [SortedMap.contains_eq_isSome, hthere]; rfl)]
      constructor
      · intro h
        cases h
      · rintro ⟨⟨hnone, -⟩, -⟩
        cases hnone
    | none =>
      rw [if_neg (by rw [SortedMap.contains_eq_isSome, hthere]; exact Bool.false_ne_true),
        bind_eq_ok]
      constructor
      · rintro ⟨u, hpatterns, hrest⟩
        obtain ⟨haddable, htable⟩ := ih.1 hrest
        exact ⟨⟨rfl, checkPatterns_eq_ok.1 hpatterns, haddable⟩, htable⟩
      · rintro ⟨⟨-, hreadable, haddable⟩, htable⟩
        exact ⟨(), checkPatterns_eq_ok.2 hreadable, ih.2 ⟨haddable, htable⟩⟩

end Registry

namespace RegistryCall

variable {H : Type} {r r' : Registry H}

/-- Nothing is in the way of the call. -/
def Acceptable (r : Registry H) : RegistryCall H → Prop
  | global schema _ => r.globals.get? schema.name = none ∧ ∀ d ∈ schema.parameters, d.Readable
  | resource pattern attributes operations =>
    (∀ t ∈ r.resources, t.schema.pattern ≠ pattern) ∧ (attributes.map (·.name)).Nodup ∧
      (∀ d ∈ attributes, d.Readable) ∧ Registry.Addable ∅ operations

/-- The registry with what the call adds. -/
def added (r : Registry H) : RegistryCall H → Registry H
  | global schema handler => { r with globals := r.globals.insert schema.name ⟨schema, handler⟩ }
  | resource pattern attributes operations =>
    { r with resources := r.resources ++
        [⟨{ pattern, attributes }, Registry.tabulate ∅ operations⟩] }

theorem make_eq_ok {call : RegistryCall H} :
    call.make r = .ok r' ↔ call.Acceptable r ∧ r' = call.added r := by
  cases call with
  | global schema handler =>
    show (Registry.addOperations none r.globals [(schema, handler)] >>= fun globals =>
      pure { r with globals }) = _ ↔ _
    rw [bind_eq_ok]
    constructor
    · rintro ⟨globals, hadd, h⟩
      cases h
      obtain ⟨haddable, rfl⟩ := Registry.addOperations_eq_ok_iff.1 hadd
      obtain ⟨hnew, hreadable, -⟩ := Registry.addable_cons.1 haddable
      exact ⟨⟨hnew, hreadable⟩, rfl⟩
    · rintro ⟨⟨hnew, hreadable⟩, rfl⟩
      have hnone : Registry.Addable (r.globals.insert schema.name ⟨schema, handler⟩) [] :=
        ⟨List.nodup_nil, List.forall_mem_nil _, List.forall_mem_nil _⟩
      have haddable : Registry.Addable r.globals [(schema, handler)] :=
        Registry.addable_cons.2 ⟨hnew, hreadable, hnone⟩
      exact ⟨_, Registry.addOperations_eq_ok_iff.2 ⟨haddable, rfl⟩, rfl⟩
  | resource pattern attributes operations =>
    constructor
    · intro h
      have hfresh : ∀ t ∈ r.resources, t.schema.pattern ≠ pattern :=
        fun t ht => Registry.pattern_ne_of_addResource h ht
      obtain ⟨hnames, hpatterns, table, hadd, rfl⟩ := Registry.addResource_eq_ok h
      obtain ⟨haddable, rfl⟩ := Registry.addOperations_eq_ok_iff.1 hadd
      exact ⟨⟨hfresh, (Registry.repeated?_eq_none.1 hnames).1,
        Registry.checkPatterns_eq_ok.1 hpatterns, haddable⟩, rfl⟩
    · rintro ⟨⟨hfresh, hnodup, hreadable, haddable⟩, rfl⟩
      have hnew : r.resources.any (·.schema.pattern = pattern) = false := by
        simpa using hfresh
      have hnames : Registry.repeated? [] (attributes.map (·.name)) = none :=
        Registry.repeated?_eq_none.2 ⟨hnodup, fun _ _ => List.not_mem_nil⟩
      have hpatterns := Registry.checkPatterns_eq_ok.2 hreadable
      have hadd : Registry.addOperations (some pattern) ∅ operations =
          .ok (Registry.tabulate ∅ operations) := Registry.addOperations_eq_ok_iff.2 ⟨haddable, rfl⟩
      show r.addResource pattern attributes operations = _
      unfold Registry.addResource
      rw [hnew, hnames, hpatterns, hadd]
      rfl

/-- A call goes through in place if nothing is in its way; otherwise it leaves the registry as it
    was. -/
theorem runInPlace_cases (call : RegistryCall H) (r : Registry H) :
    (call.Acceptable r ∧ call.make r = .ok (call.added r) ∧
        call.runInPlace r = (.ok (), call.added r)) ∨
      ¬ call.Acceptable r ∧ ∃ fault, call.runInPlace r = (.error fault, r) := by
  have h := call.runInPlace_eq r
  cases hcall : call.make r with
  | ok r' =>
    rw [hcall] at h
    obtain ⟨hacceptable, rfl⟩ := make_eq_ok.1 hcall
    exact .inl ⟨hacceptable, rfl, h⟩
  | error fault =>
    rw [hcall] at h
    refine .inr ⟨fun hacceptable => ?_, fault, h⟩
    rw [make_eq_ok.2 ⟨hacceptable, rfl⟩] at hcall
    cases hcall

end RegistryCall

/-! ### Registries that calls lead to -/

namespace Registry

variable {H : Type} {r : Registry H} {calls done : List (RegistryCall H)} {call : RegistryCall H}

/-- The registry after further calls, each made in place. -/
def runAll (r : Registry H) (calls : List (RegistryCall H)) : Registry H :=
  calls.foldl (fun r call => (call.runInPlace r).2) r

/-- The calls that go through, in order. -/
def successes (r : Registry H) : List (RegistryCall H) → List (RegistryCall H)
  | [] => []
  | call :: calls =>
    match call.runInPlace r with
    | (.ok _, r') => call :: successes r' calls
    | (.error _, r') => successes r' calls

/-- A call is made before the others, and counts if it goes through. -/
theorem runAll_cons_cases (r : Registry H) (call : RegistryCall H) (calls : List (RegistryCall H)) :
    (call.Acceptable r ∧ call.make r = .ok (call.added r) ∧
        r.runAll (call :: calls) = (call.added r).runAll calls ∧
        r.successes (call :: calls) = call :: (call.added r).successes calls) ∨
      r.runAll (call :: calls) = r.runAll calls ∧
        r.successes (call :: calls) = r.successes calls := by
  have hall : r.runAll (call :: calls) = ((call.runInPlace r).2).runAll calls := rfl
  rcases call.runInPlace_cases r with ⟨hacceptable, hmake, hrun⟩ | ⟨-, fault, hrun⟩
  · refine .inl ⟨hacceptable, hmake, ?_, ?_⟩
    · rw [hall, hrun]
    · rw [successes, hrun]
  · refine .inr ⟨?_, ?_⟩
    · rw [hall, hrun]
    · rw [successes, hrun]

/-- The calls that go through go through alone, and lead to the same registry. -/
theorem foldlM_successes (r : Registry H) (calls : List (RegistryCall H)) :
    (r.successes calls).foldlM (fun r call => call.make r) r = .ok (r.runAll calls) := by
  induction calls generalizing r with
  | nil => rfl
  | cons call calls ih =>
    rcases r.runAll_cons_cases call calls with ⟨-, hmake, hall, hdone⟩ | ⟨hall, hdone⟩
    · rw [hdone, hall, List.foldlM_cons, hmake]
      exact ih (call.added r)
    · rw [hdone, hall]
      exact ih r

/-- The operations have names of their own and patterns that can be read, and the table has each
    under its name and no others. -/
structure Tabulates (table : SortedMap String (RegisteredOperation H))
    (ops : List (OperationSchema × H)) : Prop where
  nodup : (ops.map (·.1.name)).Nodup
  readable : ∀ op ∈ ops, ∀ d ∈ op.1.parameters, d.Readable
  get?_eq_some_iff : ∀ {name : String} {entry : RegisteredOperation H},
    table.get? name = some entry ↔ (entry.schema, entry.handler) ∈ ops ∧ entry.schema.name = name

theorem tabulates_empty : Tabulates (∅ : SortedMap String (RegisteredOperation H)) [] := by
  refine ⟨List.nodup_nil, List.forall_mem_nil _, ?_⟩
  intro name entry
  exact iff_of_false nofun fun h => List.not_mem_nil h.1

theorem Tabulates.insert {table : SortedMap String (RegisteredOperation H)}
    {ops : List (OperationSchema × H)} (h : Tabulates table ops) (op : OperationSchema × H)
    (hnew : table.get? op.1.name = none) (hreadable : ∀ d ∈ op.1.parameters, d.Readable) :
    Tabulates (table.insert op.1.name ⟨op.1, op.2⟩) (ops ++ [op]) := by
  have hfresh : ∀ other ∈ ops, other.1.name ≠ op.1.name := by
    intro other hother hsame
    have hold : table.get? other.1.name = some ⟨other.1, other.2⟩ :=
      h.get?_eq_some_iff.2 ⟨hother, rfl⟩
    rw [← hsame, hold] at hnew
    cases hnew
  constructor
  · rw [List.map_append, List.nodup_append]
    refine ⟨h.nodup, List.nodup_singleton _, ?_⟩
    intro name hname _ hlast
    obtain ⟨other, hother, rfl⟩ := List.mem_map.1 hname
    rw [List.mem_singleton.1 hlast]
    exact hfresh other hother
  · exact List.forall_mem_append.2 ⟨h.readable, List.forall_mem_singleton.2 hreadable⟩
  · intro name entry
    rw [List.mem_append, List.mem_singleton]
    by_cases hname : name = op.1.name
    · rw [hname, SortedMap.get?_insert_self]
      constructor
      · intro hentry
        cases hentry
        exact ⟨.inr rfl, rfl⟩
      · rintro ⟨hold | hlast, hsame⟩
        · exact absurd hsame (hfresh _ hold)
        · rw [← hlast]
    · rw [SortedMap.get?_insert_of_ne _ hname, h.get?_eq_some_iff]
      constructor
      · exact fun ⟨hold, hsame⟩ => ⟨.inl hold, hsame⟩
      · rintro ⟨hold | hlast, hsame⟩
        · exact ⟨hold, hsame⟩
        · rw [← hlast] at hname
          exact absurd hsame.symm hname

theorem Tabulates.readable_of_get? {table : SortedMap String (RegisteredOperation H)}
    {ops : List (OperationSchema × H)} (h : Tabulates table ops) {name : String}
    {entry : RegisteredOperation H} (hentry : table.get? name = some entry) :
    ∀ d ∈ entry.schema.parameters, d.Readable :=
  h.readable _ (h.get?_eq_some_iff.1 hentry).1

theorem Tabulates.tabulate {table : SortedMap String (RegisteredOperation H)}
    {ops further : List (OperationSchema × H)} (h : Tabulates table ops)
    (haddable : Addable table further) :
    Tabulates (Registry.tabulate table further) (ops ++ further) := by
  induction further generalizing table ops with
  | nil =>
    rw [List.append_nil]
    exact h
  | cons op further ih =>
    obtain ⟨hnew, hreadable, hrest⟩ := addable_cons.1 haddable
    rw [List.append_cons]
    exact ih (h.insert op hnew hreadable) hrest

/-- The resource type was made by a call with this pattern, these attributes and operations. -/
structure MadeOf (t : ResourceType H)
    (p : Address × List AttributeSchema × List (OperationSchema × H)) : Prop where
  pattern_eq : t.schema.pattern = p.1
  attributes_eq : t.schema.attributes = p.2.1
  nodup : (p.2.1.map (·.name)).Nodup
  readable : ∀ d ∈ p.2.1, d.Readable
  operations : Tabulates t.operations p.2.2

end Registry

/-- What a call adds of resource types. -/
def RegistryCall.resource? {H : Type} :
    RegistryCall H → Option (Address × List AttributeSchema × List (OperationSchema × H))
  | global _ _ => none
  | resource pattern attributes operations => some (pattern, attributes, operations)

/-- What a call adds of operations for every address. -/
def RegistryCall.global? {H : Type} : RegistryCall H → Option (OperationSchema × H)
  | global schema handler => some (schema, handler)
  | resource _ _ _ => none

namespace Registry

variable {H : Type} {r : Registry H} {calls done : List (RegistryCall H)} {call : RegistryCall H}

/-- The registry has the resource types of the calls, with patterns of their own, in order, and the
    operations of the calls for every address. -/
structure LaidOut (r : Registry H) (calls : List (RegistryCall H)) : Prop where
  patterns : (r.resources.map (·.schema.pattern)).Nodup
  resources : List.Forall₂ MadeOf r.resources (calls.filterMap RegistryCall.resource?)
  globals : Tabulates r.globals (calls.filterMap RegistryCall.global?)

theorem laidOut_empty : LaidOut ({} : Registry H) [] :=
  ⟨List.nodup_nil, .nil, tabulates_empty⟩

/-- A call that goes through keeps the registry laid out. -/
theorem LaidOut.added (h : r.LaidOut done) (hacceptable : call.Acceptable r) :
    (call.added r).LaidOut (done ++ [call]) := by
  cases call with
  | global schema handler =>
    obtain ⟨hnew, hreadable⟩ := hacceptable
    refine ⟨h.patterns, ?_, ?_⟩
    · rw [List.filterMap_append]
      show List.Forall₂ MadeOf r.resources (_ ++ [])
      rw [List.append_nil]
      exact h.resources
    · rw [List.filterMap_append]
      exact h.globals.insert (schema, handler) hnew hreadable
  | resource pattern attributes operations =>
    obtain ⟨hfresh, hnodup, hreadable, haddable⟩ := hacceptable
    refine ⟨?_, ?_, ?_⟩
    · unfold RegistryCall.added
      rw [List.map_append, List.nodup_append]
      refine ⟨h.patterns, List.nodup_singleton _, ?_⟩
      intro other hother _ hlast
      obtain ⟨t, ht, rfl⟩ := List.mem_map.1 hother
      rw [List.mem_singleton.1 hlast]
      exact hfresh t ht
    · rw [List.filterMap_append]
      refine List.rel_append h.resources (.cons ?_ .nil)
      exact ⟨rfl, rfl, hnodup, hreadable, tabulates_empty.tabulate haddable⟩
    · rw [List.filterMap_append]
      show Tabulates r.globals (_ ++ [])
      rw [List.append_nil]
      exact h.globals

/-- Calls keep the registry laid out, and those that fail leave nothing in it. -/
theorem LaidOut.runAll (h : r.LaidOut done) (calls : List (RegistryCall H)) :
    (r.runAll calls).LaidOut (done ++ r.successes calls) := by
  induction calls generalizing r done with
  | nil =>
    rw [successes, List.append_nil]
    exact h
  | cons call calls ih =>
    rcases r.runAll_cons_cases call calls with ⟨hacceptable, -, hall, hdone⟩ | ⟨hall, hdone⟩
    · rw [hdone, hall, List.append_cons]
      exact ih (h.added hacceptable)
    · rw [hdone, hall]
      exact ih h

/-- The schema is one of an attribute or of an operation's parameter. -/
def Declares (r : Registry H) (d : AttributeSchema) : Prop :=
  (∃ t ∈ r.resources, d ∈ t.schema.attributes ∨
    ∃ name entry, t.operations.get? name = some entry ∧ d ∈ entry.schema.parameters) ∨
  ∃ name entry, r.globals.get? name = some entry ∧ d ∈ entry.schema.parameters

theorem declares_of_resource? {a : Address} {schema : ResourceSchema}
    (h : r.resource? a = some schema) : ∀ d ∈ schema.attributes, r.Declares d := by
  intro d hd
  obtain ⟨t, ht, rfl⟩ := Option.map_eq_some_iff.1 h
  exact .inl ⟨t, (resourceType?_mem ht).1, .inl hd⟩

theorem declares_of_operation? {a : Address} {name : String} {entry : RegisteredOperation H}
    (h : r.operation? a name = some entry) : ∀ d ∈ entry.schema.parameters, r.Declares d := by
  intro d hd
  rcases operation?_eq_some h with ⟨t, ht, hown⟩ | hglobal
  · exact .inl ⟨t, (resourceType?_mem ht).1, .inr ⟨name, entry, hown, hd⟩⟩
  · exact .inr ⟨name, entry, hglobal, hd⟩

/-- The match pattern of every schema in the registry was read when it was added. -/
theorem LaidOut.readable_of_declares (h : r.LaidOut calls) {d : AttributeSchema}
    (hd : r.Declares d) : d.Readable := by
  rcases hd with ⟨t, ht, hd⟩ | ⟨name, entry, hentry, hd⟩
  · obtain ⟨i, hlt, rfl⟩ := List.mem_iff_getElem.1 ht
    have hmade := h.resources.get hlt (h.resources.length_eq ▸ hlt)
    rcases hd with hd | ⟨name, entry, hentry, hd⟩
    · refine hmade.readable d ?_
      rw [← hmade.attributes_eq]
      exact hd
    · exact hmade.operations.readable_of_get? hentry d hd
  · exact h.globals.readable_of_get? hentry d hd

/-- Whatever calls are made to build a registry, some of which fail: it is the one that those which
    went through lead to alone, and each of these goes through then, too. It has their resource
    types and operations, no two of which share a pattern or, within one type or among those for
    every address, a name, and no two attributes of one type do. A further call goes through just if
    nothing is in its way, and leaves the registry as it was if something is. The match patterns can
    be read, so that no value whatever fails validation for a fault of the library's own. -/
theorem runAll_orderly (calls : List (RegistryCall H)) :
    let r := runAll ({} : Registry H) calls
    let done := successes {} calls
    done.foldlM (fun r call => call.make r) {} = .ok r ∧
    r.LaidOut done ∧
    (∀ call : RegistryCall H, ((call.runInPlace r).1 = .ok () ↔ call.Acceptable r) ∧
      ∀ {fault}, (call.runInPlace r).1 = .error fault → (call.runInPlace r).2 = r) ∧
    (∀ {a schema}, r.resource? a = some schema → ∀ d ∈ schema.attributes, r.Declares d) ∧
    (∀ {a name entry}, r.operation? a name = some entry →
      ∀ d ∈ entry.schema.parameters, r.Declares d) ∧
    ∀ {d}, r.Declares d → d.Readable ∧
      ∀ {v? fault}, d.validate v? = .error fault → fault.kind ≠ .internal := by
  intro r done
  have hlaidOut : r.LaidOut done := laidOut_empty.runAll calls
  refine ⟨foldlM_successes {} calls, hlaidOut, ?_, declares_of_resource?, declares_of_operation?,
    ?_⟩
  · intro call
    rcases call.runInPlace_cases r with ⟨hacceptable, -, hrun⟩ | ⟨hnot, fault, hrun⟩
    · rw [hrun]
      exact ⟨iff_of_true rfl hacceptable, nofun⟩
    · rw [hrun]
      exact ⟨iff_of_false nofun hnot, fun _ => rfl⟩
  · intro d hd
    have hreadable := hlaidOut.readable_of_declares hd
    refine ⟨hreadable, ?_⟩
    intro v? fault h hinternal
    have hrequest : fault.IsOfRequest := AttributeSchema.validate_failsByRequest hreadable v? h
    unfold Fault.IsOfRequest at hrequest
    rw [hinternal] at hrequest
    revert hrequest
    decide

/-- Two names given twice, a pattern used twice and one that cannot be read: four of six calls
    fail, and each of them might be made again without the mistake. -/
example :
    let queue : Address := ⟨[.wildcard "queue"]⟩
    let size := AttributeSchema.new "size" .int
    let calls : List (RegistryCall Unit) :=
      [.global { name := "list" } (), .global { name := "list" } (),
        .resource queue [size, size] [], .resource queue [size.withPattern "("] [],
        .resource queue [size] [({ name := "probe" }, ())], .resource queue [] []]
    (runAll {} calls).resources.map (·.schema.pattern) = [queue] ∧
      (successes {} calls).length = 2 := by
  decide +kernel

end Registry

end ManagedModel
