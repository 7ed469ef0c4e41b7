import ManagedModel.Model.WorkingCopy

/-! # The committed model

    The committed model and its version. Publishing a working copy carries
    over the addresses it touched, each with the resource it has there or
    without one, and leaves all others as they are committed by then. -/

namespace ManagedModel

/-- The committed model. -/
structure CommittedModel where
  tree : Tree := Tree.initial
  /-- The number of publications that changed something. -/
  version : Nat := 0
deriving DecidableEq

namespace CommittedModel

/-- Carries over what a tree has at an address. -/
def carry (source : Tree) (target : Tree) (a : Address) : Tree :=
  match source.get? a with
  | some attributes => target.put a attributes
  | none => target.discard a

/-- Commits the changes of a working copy. -/
def publish (s : CommittedModel) (w : WorkingCopy) : CommittedModel :=
  if w.isDirty then
    { tree := (SortedSet.toList w.touched).foldl (carry w.tree) s.tree
      version := s.version + 1 }
  else s

end CommittedModel

end ManagedModel
