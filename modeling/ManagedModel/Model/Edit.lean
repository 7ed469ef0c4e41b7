import ManagedModel.Value

/-! # Edits

    A batch of changes to the attributes of a resource, applied in a fixed
    order: the replacement of all attributes if there is one, then the
    attributes to set in name order, then the attributes to unset. -/

namespace ManagedModel

/-- A batch of changes to the attributes of a resource. -/
structure Edit where
  replacement? : Option Attributes := none
  set : Attributes := ∅
  unset : List String := []

namespace Edit

/-- Sets attributes one by one; gives what each had before. -/
def setAll : List (String × Value) → Attributes → List (Option Value) × Attributes
  | [], m => ([], m)
  | (name, v) :: rest, m =>
    let (old, m') := setAll rest (m.insert name v)
    (m.get? name :: old, m')

/-- Unsets attributes one by one; gives what each had before. -/
def unsetAll : List String → Attributes → List (Option Value) × Attributes
  | [], m => ([], m)
  | name :: rest, m =>
    let (old, m') := unsetAll rest (m.erase name)
    (m.get? name :: old, m')

/-- Applies the changes; gives what each attribute set and then unset had before. -/
def run (e : Edit) (m : Attributes) : List (Option Value) × Attributes :=
  let m := e.replacement?.getD m
  let (old, m) := setAll e.set.entries m
  let (old', m) := unsetAll e.unset m
  (old ++ old', m)

/-- The attributes after the changes. -/
def apply (e : Edit) (m : Attributes) : Attributes := (e.run m).2

/-- What the attributes set and then unset had before. -/
def previous (e : Edit) (m : Attributes) : List (Option Value) := (e.run m).1

end Edit

end ManagedModel
