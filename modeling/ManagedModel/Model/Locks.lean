import ManagedModel.Address

/-! # Address locks

    A lock covers the subtrees of a list of addresses. It is granted when none
    of these subtrees shares a resource with one that is held, and it is held
    until its owner releases it. -/

namespace ManagedModel

/-- A lock that was granted. -/
structure Lock where
  owner : Nat
  /-- The tops of the subtrees covered, as they were asked for. -/
  addresses : List Address
deriving DecidableEq

/-- The subtrees that are held, each with its owner. -/
structure HeldLocks where
  held : List (Nat × Address) := []
  /-- The owner of the lock granted next. -/
  freshOwner : Nat := 0
deriving DecidableEq

namespace HeldLocks

/-- Whether one of the addresses overlaps a subtree that is held. -/
def conflicts (t : HeldLocks) (wanted : List Address) : Bool :=
  t.held.any fun h => wanted.any fun w => w.overlaps h.2

/-- Grants a lock without looking for conflicts. -/
def grant (t : HeldLocks) (wanted : List Address) : Lock × HeldLocks :=
  (⟨t.freshOwner, wanted⟩,
    { held := t.held ++ wanted.map fun a => (t.freshOwner, a), freshOwner := t.freshOwner + 1 })

/-- Grants a lock unless there is a conflict. -/
def acquire? (t : HeldLocks) (wanted : List Address) : Option (Lock × HeldLocks) :=
  if t.conflicts wanted then none else some (t.grant wanted)

/-- Gives back everything an owner holds. -/
def release (t : HeldLocks) (owner : Nat) : HeldLocks :=
  { t with held := t.held.filter fun h => h.1 != owner }

/-- The number of subtrees held. -/
def size (t : HeldLocks) : Nat := t.held.length

end HeldLocks

end ManagedModel
