import ManagedModel.Model.Tree

/-! # Working copies

    A transaction changes a copy of the model. The copy may be changed inside
    its scope only, that is in the subtrees of the scope's addresses, and it
    records the addresses at which it was changed. A change that fails leaves
    the copy and the record as they were. -/

namespace ManagedModel

/-- A copy of the model that a transaction changes. -/
structure WorkingCopy where
  tree : Tree
  /-- The tops of the subtrees that may be changed. -/
  scope : List Address
  /-- The addresses at which a change went through. -/
  touched : SortedSet Address
deriving DecidableEq

namespace WorkingCopy

/-- A fresh copy of a tree. -/
def ofTree (base : Tree) (scope : List Address) : WorkingCopy := ⟨base, scope, ∅⟩

/-- Whether an address may be changed. -/
def inScope (w : WorkingCopy) (a : Address) : Bool := w.scope.any fun top => a.isUnder top

/-- Whether anything was changed. -/
def isDirty (w : WorkingCopy) : Bool := !w.touched.isEmpty

/-- The address may be changed. -/
def requireScope (w : WorkingCopy) (a : Address) : Except Fault Unit :=
  if w.inScope a then .ok () else .error (.internal (.notLocked a))

/-- The copy with another tree, changed at `a`. -/
def changed (w : WorkingCopy) (a : Address) (tree : Tree) : WorkingCopy :=
  { w with tree, touched := SortedSet.add w.touched a }

/-- Adds a resource without attributes. -/
def create (w : WorkingCopy) (a : Address) : Except Fault WorkingCopy := do
  w.requireScope a
  return w.changed a (← w.tree.create a)

/-- Changes the attributes of a resource; gives those it had. Opening a resource for a change
    counts as one. -/
def edit (w : WorkingCopy) (a : Address) (f : Attributes → Attributes) :
    Except Fault (Attributes × WorkingCopy) := do
  w.requireScope a
  let old ← w.tree.require a
  return (old, w.changed a (← w.tree.edit a f))

/-- Removes a resource without children; gives its attributes. -/
def remove (w : WorkingCopy) (a : Address) : Except Fault (Attributes × WorkingCopy) := do
  w.requireScope a
  let (attributes, tree) ← w.tree.remove a
  return (attributes, w.changed a tree)

end WorkingCopy

end ManagedModel
