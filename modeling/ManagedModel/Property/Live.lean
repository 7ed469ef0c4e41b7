import ManagedModel.SortedMap.Lemmas
import ManagedModel.Value.Text

/-! # Live properties

    The properties of the running process. Every change of a property is
    recorded twice: as a call that the store received, and, where an updater is
    configured, as a notification to it.

    The updater decides which properties may change while the process runs: all
    but the protected ones, and every one while booting. Without an updater
    nothing may change. -/

namespace ManagedModel

/-- A change that the store of live properties received. -/
inductive PropertyChange where
  | set (name value : String)
  | clear (name : String)
deriving DecidableEq

namespace PropertyChange

/-- The property changed. -/
def name : PropertyChange → String
  | set name _ | clear name => name

/-- The change that gives a property a value, or takes it away. -/
def of (name : String) : Option String → PropertyChange
  | some value => set name value
  | none => clear name

end PropertyChange

/-- The live properties and the record of their changes. -/
structure LiveProperties where
  values : SortedMap String String := ∅
  /-- The changes received, in order. -/
  calls : List PropertyChange := []
  /-- The notifications to the updater, in order. -/
  updates : List (String × Option String) := []
deriving DecidableEq

namespace LiveProperties

/-- The value of a property. -/
def get? (live : LiveProperties) (name : String) : Option String := live.values.get? name

/-- Gives a property a value, or takes it away. -/
def change (live : LiveProperties) (name : String) (value? : Option String) : LiveProperties :=
  { live with
    values :=
      match value? with
      | some value => live.values.insert name value
      | none => live.values.erase name
    calls := live.calls ++ [.of name value?] }

/-- The changes of one property. -/
def changesOf (live : LiveProperties) (name : String) : List PropertyChange :=
  live.calls.filter fun call => call.name == name

theorem get?_change_self (live : LiveProperties) (name : String) (value? : Option String) :
    (live.change name value?).get? name = value? := by
  cases value? <;> simp [change, get?]

theorem get?_change_of_ne (live : LiveProperties) {name other : String} (h : other ≠ name)
    (value? : Option String) : (live.change name value?).get? other = live.get? other := by
  cases value? with
  | none => exact SortedMap.get?_erase_of_ne _ h
  | some value => exact SortedMap.get?_insert_of_ne _ h value

end LiveProperties

/-- The policy on changes of live properties. -/
structure PropertyUpdater where
  protectedNames : List String := []
deriving DecidableEq

namespace PropertyUpdater

/-- Whether a property keeps its value while the process runs. -/
def isProtected (u : PropertyUpdater) (name : String) : Bool := u.protectedNames.contains name

/-- Whether a property may change. -/
def allows (u : PropertyUpdater) (name : String) (booting : Bool) : Bool :=
  booting || !u.isProtected name

end PropertyUpdater

/-- How system properties behave in a process. -/
structure PropertyConfig where
  /-- Whether properties have the attribute `boot-time`. -/
  useBootTime : Bool := false
  /-- The policy on changes; without one, properties live in the model only. -/
  updater? : Option PropertyUpdater := none
deriving DecidableEq

namespace PropertyConfig

/-- Whether a property may change in the running process. -/
def allows (cfg : PropertyConfig) (name : String) (booting : Bool) : Bool :=
  cfg.updater?.any (·.allows name booting)

/-- Changes a live property and notifies the updater. -/
def apply (cfg : PropertyConfig) (name : String) (value? : Option String)
    (live : LiveProperties) : LiveProperties :=
  let live := live.change name value?
  if cfg.updater?.isSome then { live with updates := live.updates ++ [(name, value?)] } else live

theorem get?_apply_self (cfg : PropertyConfig) (name : String) (value? : Option String)
    (live : LiveProperties) : (cfg.apply name value? live).get? name = value? := by
  have := live.get?_change_self name value?
  unfold apply
  split <;> exact this

theorem get?_apply_of_ne (cfg : PropertyConfig) {name other : String} (h : other ≠ name)
    (value? : Option String) (live : LiveProperties) :
    (cfg.apply name value? live).get? other = live.get? other := by
  have := live.get?_change_of_ne h value?
  unfold apply
  split <;> exact this

end PropertyConfig

end ManagedModel
