import ManagedModel.Expression
import ManagedModel.Property.Live

/-! # Parked values

    A property whose value cannot be resolved yet is parked, together with the
    fault that resolving it gave.

    * `retry` applies, round by round, every parked value that resolves against
      the live properties at the start of the round, until a round applies
      none. A round that applies something leaves fewer values parked, so the
      rounds end.
    * `applyStrictly` applies the parked values in name order and stops at the
      first that does not resolve. -/

namespace ManagedModel

/-- A value that could not be resolved. -/
structure ParkedValue where
  /-- The attributes of the property's resource at that time. -/
  model : Attributes
  /-- Why the value could not be resolved. -/
  fault : Fault
deriving DecidableEq

/-- The attribute of a property's resource that holds its value. -/
def propertyValueAttribute : String := "value"

/-- The live value that the attributes of a property's resource stand for. -/
def intendedValue (live : LiveProperties) (model : Attributes) : Except Fault (Option String) :=
  ((model.get? propertyValueAttribute).getD .undefined).resolve live.get?

/-- The parked values of a transaction. -/
structure ParkedValues where
  /-- The values by the name of their property. -/
  values : SortedMap String ParkedValue := ∅
  /-- Whether a strict pass over them is queued already. -/
  passQueued : Bool := false
deriving DecidableEq

namespace ParkedValues

/-- The parked value of a property. -/
def get? (p : ParkedValues) (name : String) : Option ParkedValue := p.values.get? name

/-- The number of parked values. -/
def size (p : ParkedValues) : Nat := p.values.size

/-- Parks a value, in place of one parked for the property before. -/
def park (p : ParkedValues) (name : String) (v : ParkedValue) : ParkedValues :=
  { p with values := p.values.insert name v }

/-- Drops the parked value of a property. -/
def forget (p : ParkedValues) (name : String) : ParkedValues :=
  { p with values := p.values.erase name }

/-- The properties whose parked values resolve, in name order, with what they resolve to. -/
def resolvable (p : ParkedValues) (live : LiveProperties) : List (String × Option String) :=
  p.values.entries.filterMap fun (name, v) =>
    match intendedValue live v.model with
    | .ok value? => some (name, value?)
    | .error _ => none

/-- Applies values and drops them from the parked ones. -/
def applyAll (cfg : PropertyConfig) :
    List (String × Option String) → ParkedValues → LiveProperties → ParkedValues × LiveProperties
  | [], p, live => (p, live)
  | (name, value?) :: rest, p, live =>
    applyAll cfg rest (p.forget name) (cfg.apply name value? live)

theorem get?_of_mem_resolvable {p : ParkedValues} {live : LiveProperties} {name : String}
    {value? : Option String} (h : (name, value?) ∈ p.resolvable live) :
    ∃ v, p.get? name = some v ∧ intendedValue live v.model = .ok value? := by
  obtain ⟨⟨name', v⟩, hm, hv⟩ := List.mem_filterMap.1 h
  simp only at hv
  split at hv
  · rename_i w hw
    cases hv
    exact ⟨v, SortedMap.mem_entries_iff.1 hm, hw⟩
  · cases hv

theorem size_forget_le (p : ParkedValues) (name : String) : (p.forget name).size ≤ p.size :=
  (Entries.erase_sublist name p.values.entries).length_le

theorem size_applyAll_le (cfg : PropertyConfig) :
    ∀ (rs : List (String × Option String)) (p : ParkedValues) (live : LiveProperties),
      (applyAll cfg rs p live).1.size ≤ p.size
  | [], _, _ => Nat.le_refl _
  | (name, value?) :: rest, p, live =>
    Nat.le_trans (size_applyAll_le cfg rest (p.forget name) (cfg.apply name value? live))
      (size_forget_le p name)

theorem size_applyAll_lt (cfg : PropertyConfig) {p : ParkedValues} {live : LiveProperties}
    {r : String × Option String} {rs : List (String × Option String)}
    (h : p.resolvable live = r :: rs) : (applyAll cfg (r :: rs) p live).1.size < p.size := by
  obtain ⟨name, value?⟩ := r
  obtain ⟨v, hv, -⟩ := get?_of_mem_resolvable (h ▸ List.mem_cons_self : (name, value?) ∈ _)
  have hs : (p.values.erase name).size + 1 = p.values.size :=
    SortedMap.size_erase (by rw [ParkedValues.get?] at hv; rw [hv]; rfl)
  have := size_applyAll_le cfg rs (p.forget name) (cfg.apply name value? live)
  simp only [applyAll]
  simp only [size, forget] at *
  omega

/-- Applies parked values round by round until none resolves; gives how many were applied. -/
def retry (cfg : PropertyConfig) (p : ParkedValues) (live : LiveProperties) :
    Nat × ParkedValues × LiveProperties :=
  match h : p.resolvable live with
  | [] => (0, p, live)
  | r :: rs =>
    have := size_applyAll_lt cfg h
    let next := applyAll cfg (r :: rs) p live
    let (count, p', live') := retry cfg next.1 next.2
    (rs.length + 1 + count, p', live')
termination_by p.size

/-- Applies the parked values of the named properties one after the other, up to the first that
    does not resolve. -/
def applyNamed (cfg : PropertyConfig) :
    List String → ParkedValues → LiveProperties →
      Except Fault Unit × ParkedValues × LiveProperties
  | [], p, live => (.ok (), p, live)
  | name :: names, p, live =>
    match p.get? name with
    | none => applyNamed cfg names p live
    | some v =>
      match intendedValue live v.model with
      | .error fault => (.error fault, p, live)
      | .ok value? => applyNamed cfg names (p.forget name) (cfg.apply name value? live)

/-- Applies the parked values in name order, up to the first that does not resolve. -/
def applyStrictly (cfg : PropertyConfig) (p : ParkedValues) (live : LiveProperties) :
    Except Fault Unit × ParkedValues × LiveProperties :=
  applyNamed cfg p.values.keys p live

end ParkedValues

end ManagedModel
