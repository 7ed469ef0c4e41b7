import Mathlib.Data.List.Forall2
import ManagedModel.Proofs.Conformity

/-! # Looking up registrations

    Of the resource types whose patterns an address falls under, one with the
    fewest wildcards answers for it.

    * A pattern may fall under another one like an address. Then it has fewer
      wildcards or is the same (`Address.eq_of_isMatchedBy`).
    * So no type with the fewest wildcards has one below it: whatever the order
      in which the types were added, the one that answers is most specific
      among those that could (`Registry.lookup_mostSpecific`). -/

namespace ManagedModel

/-! ### The order of patterns -/

namespace AddressElement

variable {e p q : AddressElement}

theorem isMatchedBy_iff :
    e.isMatchedBy p = true ↔ p.key = e.key ∧ (p.isWildcard = true ∨ p.value = e.value) := by
  simp [isMatchedBy]

theorem isMatchedBy_refl (e : AddressElement) : e.isMatchedBy e = true :=
  isMatchedBy_iff.2 ⟨rfl, .inr rfl⟩

/-- What falls under an element without a wildcard is that element. -/
theorem eq_of_isMatchedBy (h : e.isMatchedBy p = true) (hp : p.isWildcard = false) : e = p := by
  obtain ⟨hkey, hvalue⟩ := isMatchedBy_iff.1 h
  rw [hp] at hvalue
  have hsame : p.value = e.value := hvalue.resolve_left nofun
  obtain ⟨key, value⟩ := e
  obtain ⟨key', value'⟩ := p
  rw [mk.injEq]
  exact ⟨hkey.symm, hsame.symm⟩

/-- What falls under an element has a wildcard only where the element has one. -/
theorem isWildcard_of_isMatchedBy (h : e.isMatchedBy p = true) (he : e.isWildcard = true) :
    p.isWildcard = true := by
  by_contra hp
  have heq : e = p := eq_of_isMatchedBy h (Bool.eq_false_iff.2 hp)
  rw [heq] at he
  exact hp he

end AddressElement

namespace Address

variable {a p q : Address}

/-- An address falls under a pattern element by element. -/
theorem isMatchedBy_iff :
    a.isMatchedBy p = true ↔
      List.Forall₂ (fun pe e => AddressElement.isMatchedBy e pe = true) p.elements a.elements := by
  rw [isMatchedBy, Bool.and_eq_true, beq_iff_eq, List.all_eq_true, List.forall₂_iff_zip]
  refine and_congr eq_comm ?_
  exact ⟨fun h pe e hmem => h (pe, e) hmem, fun h pe hmem => h hmem⟩

theorem isMatchedBy_refl (a : Address) : a.isMatchedBy a = true :=
  isMatchedBy_iff.2 (List.forall₂_same.2 fun e _ => e.isMatchedBy_refl)

/-- Of two lists of elements, one falling under the other, the lower one has fewer wildcards or is
    the same. -/
theorem countP_isWildcard_of_forall₂ {ps es : List AddressElement}
    (h : List.Forall₂ (fun pe e => AddressElement.isMatchedBy e pe = true) ps es) :
    es.countP AddressElement.isWildcard < ps.countP AddressElement.isWildcard ∨ es = ps := by
  induction h with
  | nil => exact .inr rfl
  | @cons p e ps es hhead _ ih =>
    simp only [List.countP_cons]
    by_cases he : e.isWildcard = true
    · have hp : p.isWildcard = true := AddressElement.isWildcard_of_isMatchedBy hhead he
      rw [if_pos he, if_pos hp]
      rcases ih with hlt | rfl
      · exact .inl (Nat.succ_lt_succ hlt)
      · -- both leave their value open, and their keys agree
        have hkey : p.key = e.key := (AddressElement.isMatchedBy_iff.1 hhead).1
        have hvalue : p.value = e.value := (beq_iff_eq.1 hp).trans (beq_iff_eq.1 he).symm
        obtain ⟨key, value⟩ := e
        obtain ⟨key', value'⟩ := p
        obtain rfl : key' = key := hkey
        obtain rfl : value' = value := hvalue
        exact .inr rfl
    · rw [if_neg he]
      by_cases hp : p.isWildcard = true
      · -- a wildcard that is given up counts, whatever comes behind it
        rw [if_pos hp]
        have hle : es.countP AddressElement.isWildcard ≤ ps.countP AddressElement.isWildcard := by
          rcases ih with hlt | rfl
          · exact Nat.le_of_lt hlt
          · exact Nat.le_refl _
        exact .inl (by omega)
      · rw [if_neg hp]
        have heq : e = p := AddressElement.eq_of_isMatchedBy hhead (Bool.eq_false_iff.2 hp)
        rcases ih with hlt | rfl
        · exact .inl hlt
        · exact .inr (by rw [heq])

/-- A pattern that falls under another one and has no fewer wildcards is that pattern. -/
theorem eq_of_isMatchedBy (h : q.isMatchedBy p = true)
    (hcount : p.wildcardCount ≤ q.wildcardCount) : q = p := by
  rcases countP_isWildcard_of_forall₂ (isMatchedBy_iff.1 h) with hlt | heq
  · exact absurd hlt (Nat.not_lt.2 hcount)
  · obtain ⟨es⟩ := q
    obtain ⟨ps⟩ := p
    exact congrArg mk heq

end Address

/-! ### The type that answers -/

namespace Registry

variable {H : Type}

theorem mostSpecific?_eq_none_iff {ts : List (ResourceType H)} :
    mostSpecific? ts = none ↔ ts = [] := by
  constructor
  · intro h
    cases ts with
    | nil => rfl
    | cons t ts =>
      unfold mostSpecific? at h
      split at h
      · cases h
      · split at h <;> cases h
  · rintro rfl
    rfl

/-- No other type has fewer wildcards. -/
theorem wildcardCount_le_of_mostSpecific? {ts : List (ResourceType H)} {t u : ResourceType H}
    (h : mostSpecific? ts = some t) (hu : u ∈ ts) :
    t.schema.pattern.wildcardCount ≤ u.schema.pattern.wildcardCount := by
  induction ts generalizing t with
  | nil => cases hu
  | cons first rest ih =>
    unfold mostSpecific? at h
    split at h
    · rename_i hrest
      cases h
      rw [mostSpecific?_eq_none_iff.1 hrest] at hu
      obtain rfl := List.mem_singleton.1 hu
      exact Nat.le_refl _
    · rename_i best hbest
      split at h
      · rename_i hlt
        cases h
        rcases List.mem_cons.1 hu with rfl | hu
        · exact Nat.le_of_lt hlt
        · exact ih hbest hu
      · rename_i hge
        cases h
        rcases List.mem_cons.1 hu with rfl | hu
        · exact Nat.le_refl _
        · exact Nat.le_trans (Nat.not_lt.1 hge) (ih hbest hu)

section

variable {r r' : Registry H} {a : Address} {t u : ResourceType H}

/-- An address has no type just if it falls under no pattern. -/
theorem resourceType?_eq_none_iff :
    r.resourceType? a = none ↔ ∀ u ∈ r.resources, a.isMatchedBy u.schema.pattern = false := by
  unfold resourceType?
  rw [mostSpecific?_eq_none_iff, List.filter_eq_nil_iff]
  exact forall₂_congr fun u _ => Bool.not_eq_true _ |>.to_iff

theorem wildcardCount_le_of_resourceType? (h : r.resourceType? a = some t) (hu : u ∈ r.resources)
    (hmatched : a.isMatchedBy u.schema.pattern = true) :
    t.schema.pattern.wildcardCount ≤ u.schema.pattern.wildcardCount :=
  wildcardCount_le_of_mostSpecific? h (List.mem_filter.2 ⟨hu, hmatched⟩)

/-- A pattern is added only once. -/
theorem pattern_ne_of_addResource {pattern : Address} {attributes : List AttributeSchema}
    {ops : List (OperationSchema × H)} (h : r.addResource pattern attributes ops = .ok r')
    (ht : t ∈ r.resources) : t.schema.pattern ≠ pattern := by
  intro hsame
  have hdup : r.resources.any (·.schema.pattern = pattern) = true :=
    List.any_eq_true.2 ⟨t, ht, decide_eq_true hsame⟩
  unfold addResource at h
  rw [if_pos hdup] at h
  cases h

/-- A resource type is known by its pattern. -/
theorem Built.eq_of_pattern_eq (h : r.Built) (ht : t ∈ r.resources) (hu : u ∈ r.resources)
    (hsame : t.schema.pattern = u.schema.pattern) : t = u := by
  induction h with
  | empty => cases ht
  | addGlobal before hadd ih =>
    rw [(addGlobal_eq_ok hadd).1] at ht hu
    exact ih ht hu
  | @addResource r r' pattern attributes ops before hadd ih =>
    have hfresh : ∀ v ∈ r.resources, v.schema.pattern ≠ pattern :=
      fun v hv => pattern_ne_of_addResource hadd hv
    obtain ⟨-, -, operations, -, rfl⟩ := addResource_eq_ok hadd
    rcases List.mem_append.1 ht with ht | ht
    · rcases List.mem_append.1 hu with hu | hu
      · exact ih ht hu
      · rw [List.mem_singleton.1 hu] at hsame
        exact absurd hsame (hfresh t ht)
    · rcases List.mem_append.1 hu with hu | hu
      · rw [List.mem_singleton.1 ht] at hsame
        exact absurd hsame.symm (hfresh u hu)
      · rw [List.mem_singleton.1 ht, List.mem_singleton.1 hu]

/-- Of the types that could answer, none has a pattern below that of the one that does. -/
theorem Built.eq_of_isMatchedBy (hr : r.Built) (h : r.resourceType? a = some t)
    (hu : u ∈ r.resources) (hmatched : a.isMatchedBy u.schema.pattern = true)
    (hbelow : u.schema.pattern.isMatchedBy t.schema.pattern = true) : u = t := by
  have hcount := wildcardCount_le_of_resourceType? h hu hmatched
  have hpattern : u.schema.pattern = t.schema.pattern := Address.eq_of_isMatchedBy hbelow hcount
  exact hr.eq_of_pattern_eq hu (resourceType?_mem h).1 hpattern

/-- An address that is itself a pattern, with or without wildcards, has the type with that
    pattern. -/
theorem Built.resourceType?_of_pattern_eq (hr : r.Built) (ht : t ∈ r.resources)
    (hpattern : t.schema.pattern = a) : r.resourceType? a = some t := by
  have hself : a.isMatchedBy t.schema.pattern = true := hpattern ▸ a.isMatchedBy_refl
  cases hchosen : r.resourceType? a with
  | none =>
    rw [resourceType?_eq_none_iff.1 hchosen t ht] at hself
    cases hself
  | some chosen =>
    obtain ⟨hmem, hmatched⟩ := resourceType?_mem hchosen
    have hcount : chosen.schema.pattern.wildcardCount ≤ a.wildcardCount :=
      hpattern ▸ wildcardCount_le_of_resourceType? hchosen ht hself
    have hsame : a = chosen.schema.pattern := Address.eq_of_isMatchedBy hmatched hcount
    rw [hr.eq_of_pattern_eq hmem ht (hsame.symm.trans hpattern.symm)]

/-! ### Operations -/

theorem operationNames_ascending (r : Registry H) (a : Address) :
    (r.operationNames a).Pairwise fun name other => compare name other = .lt :=
  SortedMap.keys_ascending _

/-- An operation of the type comes before a global one. -/
theorem operation?_of_own {name : String} {entry : RegisteredOperation H}
    (h : r.resourceType? a = some t) (hown : t.operations.get? name = some entry) :
    r.operation? a name = some entry := by
  unfold operation?
  rw [h, Option.bind_some, hown]
  rfl

theorem operation?_of_not_own {name : String}
    (h : ∀ t, r.resourceType? a = some t → t.operations.get? name = none) :
    r.operation? a name = r.globals.get? name := by
  unfold operation?
  cases ht : r.resourceType? a with
  | none => rfl
  | some t =>
    rw [Option.bind_some, h t ht]
    rfl

/-- The names listed are those of the operations that are found. -/
theorem mem_operationNames_iff {name : String} :
    name ∈ r.operationNames a ↔ (r.operation? a name).isSome = true := by
  unfold operationNames
  rw [SortedSet.mem_toList_ofList, List.mem_append, SortedMap.mem_keys_iff]
  cases ht : r.resourceType? a with
  | none =>
    rw [operation?_of_not_own fun t h => by rw [ht] at h; cases h]
    simp
  | some t =>
    show _ ∨ name ∈ t.operations.keys ↔ _
    rw [SortedMap.mem_keys_iff]
    cases hown : t.operations.get? name with
    | some entry =>
      rw [operation?_of_own ht hown]
      simp
    | none =>
      rw [operation?_of_not_own fun t' h => by rw [ht] at h; cases h; exact hown]
      simp

/-- What is looked up at an address belongs to one resource type whose pattern the address falls
    under, if there is such a type. No other type that could answer has a pattern that falls under
    that of the one that does, so that an address that was added as a pattern, without wildcards or
    with some, has the type of its own. The operations found are those listed, in order; those of
    the type come before the global ones. -/
theorem lookup_mostSpecific (hr : r.Built) (a : Address) :
    r.resource? a = (r.resourceType? a).map (·.schema) ∧
      (r.resource? a = none ↔ ∀ u ∈ r.resources, a.isMatchedBy u.schema.pattern = false) ∧
      (∀ t, r.resourceType? a = some t →
        t ∈ r.resources ∧ a.isMatchedBy t.schema.pattern = true ∧
          ∀ u ∈ r.resources, u ≠ t → a.isMatchedBy u.schema.pattern = true →
            u.schema.pattern.isMatchedBy t.schema.pattern = false) ∧
      (∀ t ∈ r.resources, t.schema.pattern = a → r.resourceType? a = some t) ∧
      ((r.operationNames a).Pairwise fun name other => compare name other = .lt) ∧
      (∀ name, name ∈ r.operationNames a ↔ (r.operation? a name).isSome = true) ∧
      (∀ t name entry, r.resourceType? a = some t → t.operations.get? name = some entry →
        r.operation? a name = some entry) ∧
      ∀ name, (∀ t, r.resourceType? a = some t → t.operations.get? name = none) →
        r.operation? a name = r.globals.get? name := by
  refine ⟨rfl, ?_, ?_, fun t ht hpattern => hr.resourceType?_of_pattern_eq ht hpattern,
    operationNames_ascending r a, fun _ => mem_operationNames_iff,
    fun _ _ _ h hown => operation?_of_own h hown, fun _ h => operation?_of_not_own h⟩
  · rw [← resourceType?_eq_none_iff]
    exact Option.map_eq_none_iff
  · intro t h
    obtain ⟨hmem, hmatched⟩ := resourceType?_mem h
    refine ⟨hmem, hmatched, fun u hu hne hother => Bool.eq_false_iff.2 fun hbelow => ?_⟩
    exact hne (hr.eq_of_isMatchedBy h hu hother hbelow)

end

/-- Connectors of servers in general, those called http, and those of the server web. None of the
    last two patterns falls under the other, and both fall under the first. -/
def overlapping : Except RegistryFault (Registry String) := do
  let r ← ({} : Registry String).addGlobal { name := "probe" } "probe"
  let r ← r.addResource ⟨[.wildcard "server", .wildcard "connector"]⟩ []
    [({ name := "add" }, "add")]
  let r ← r.addResource ⟨[.wildcard "server", ⟨"connector", "http"⟩]⟩ []
    [({ name := "add" }, "add-http"), ({ name := "probe" }, "probe-http")]
  r.addResource ⟨[⟨"server", "web"⟩, .wildcard "connector"]⟩ [] []

theorem built_overlapping {r : Registry String} (h : overlapping = .ok r) : r.Built := by
  obtain ⟨r₁, h₁, h⟩ := bind_eq_ok.1 h
  obtain ⟨r₂, h₂, h⟩ := bind_eq_ok.1 h
  obtain ⟨r₃, h₃, h₄⟩ := bind_eq_ok.1 h
  have hr₃ : r₃.Built := ((Built.empty.addGlobal h₁).addResource h₂).addResource h₃
  exact hr₃.addResource h₄

/-- The connector http of the server web. -/
def webHttp : Address := ⟨[⟨"server", "web"⟩, ⟨"connector", "http"⟩]⟩

/-- It falls under all three patterns. Of the two with one wildcard the one that was added first
    answers, and nothing below it could. -/
theorem lookup_mostSpecific_overlapping :
    ∃ r t, overlapping = .ok r ∧ r.Built ∧ r.resourceType? webHttp = some t ∧
      t.schema.pattern = ⟨[.wildcard "server", ⟨"connector", "http"⟩]⟩ ∧
      (∀ u ∈ r.resources, u ≠ t → webHttp.isMatchedBy u.schema.pattern = true →
        u.schema.pattern.isMatchedBy t.schema.pattern = false) ∧
      "probe" ∈ r.operationNames webHttp ∧
      (r.operation? webHttp "probe").map (·.handler) = some "probe-http" := by
  have hrun : overlapping.toOption.any (fun r => (r.resourceType? webHttp).any fun t =>
      t.schema.pattern == ⟨[.wildcard "server", ⟨"connector", "http"⟩]⟩ &&
        (r.operation? webHttp "probe").map (·.handler) == some "probe-http") = true := by
    decide +kernel
  cases hr : overlapping with
  | error fault =>
    rw [hr] at hrun
    cases hrun
  | ok r =>
    rw [hr] at hrun
    have htype : (r.resourceType? webHttp).any _ = true := hrun
    obtain ⟨t, ht, htest⟩ := (Option.any_eq_true _ _).1 htype
    obtain ⟨hpattern, hprobe⟩ := Bool.and_eq_true_iff.1 htest
    have hbuilt := built_overlapping hr
    obtain ⟨-, -, hchosen, -, -, hnames, -⟩ := lookup_mostSpecific hbuilt webHttp
    have hlisted : "probe" ∈ r.operationNames webHttp := by
      rw [hnames, ← Option.isSome_map (f := (·.handler)), eq_of_beq hprobe]
      rfl
    exact ⟨r, t, rfl, hbuilt, ht, eq_of_beq hpattern, (hchosen t ht).2.2, hlisted,
      eq_of_beq hprobe⟩

end Registry

end ManagedModel
