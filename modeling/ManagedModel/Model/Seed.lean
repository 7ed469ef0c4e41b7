import ManagedModel.Model.Tree

/-! # Seeding a tree

    A tree can be built from a list of resources. An entry for the root gives
    the root its attributes; every other entry adds a resource, so parents come
    first and no address comes twice. -/

namespace ManagedModel

namespace Tree

/-- The tree with one more entry of a seed. -/
def plant (t : Tree) (a : Address) (attributes : Attributes) : Except Fault Tree := do
  let t ← if a.isRoot then pure t else t.create a
  t.edit a fun _ => attributes

/-- The tree with further entries of a seed. -/
def plantAll (t : Tree) : List (Address × Attributes) → Except Fault Tree
  | [] => .ok t
  | (a, attributes) :: rest => do plantAll (← t.plant a attributes) rest

/-- The tree of a seed. -/
def ofSeed (entries : List (Address × Attributes)) : Except Fault Tree := initial.plantAll entries

end Tree

end ManagedModel
