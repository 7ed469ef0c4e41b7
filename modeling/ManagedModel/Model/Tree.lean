import ManagedModel.Fault
import ManagedModel.SortedMap.Lemmas

/-! # The resource tree

    The model is a tree of resources. It is kept as a map from addresses to
    the attributes stored there; the tree structure is that of the addresses.

    * The tree starts out with the root alone, and the root stays.
    * `create` needs the parent, `remove` needs that there are no children.
    * `get?` is the view of a tree, with equations for `put` and `discard`.
    * `children` reads the entries below an address where they stand together
      in the order of addresses. -/

namespace ManagedModel

/-- A tree of resources, each with the attributes stored for it. -/
structure Tree where
  nodes : SortedMap Address Attributes
deriving DecidableEq

namespace Tree

/-- The tree that has the root alone. -/
def initial : Tree := ⟨(∅ : SortedMap Address Attributes).insert .root ∅⟩

instance : Inhabited Tree := ⟨initial⟩

/-- The attributes of the resource at an address. -/
def get? (t : Tree) (a : Address) : Option Attributes := t.nodes.get? a

/-- Whether there is a resource at an address. -/
def contains (t : Tree) (a : Address) : Bool := t.nodes.contains a

/-- The attributes of a resource that has to be there. -/
def require (t : Tree) (a : Address) : Except Fault Attributes :=
  match t.get? a with
  | some attributes => .ok attributes
  | none => .error (.resourceNotFound a)

/-- Puts a resource at an address. -/
def put (t : Tree) (a : Address) (attributes : Attributes) : Tree := ⟨t.nodes.insert a attributes⟩

/-- Drops the resource at an address. -/
def discard (t : Tree) (a : Address) : Tree := ⟨t.nodes.erase a⟩

@[simp] theorem get?_put_self (t : Tree) (a : Address) (attributes : Attributes) :
    (t.put a attributes).get? a = some attributes :=
  SortedMap.get?_insert_self _ _ _

theorem get?_put_of_ne (t : Tree) {a b : Address} (h : b ≠ a) (attributes : Attributes) :
    (t.put a attributes).get? b = t.get? b :=
  SortedMap.get?_insert_of_ne _ h _

@[simp] theorem get?_discard_self (t : Tree) (a : Address) : (t.discard a).get? a = none :=
  SortedMap.get?_erase_self _ _

theorem get?_discard_of_ne (t : Tree) {a b : Address} (h : b ≠ a) :
    (t.discard a).get? b = t.get? b :=
  SortedMap.get?_erase_of_ne _ h

/-- The number of resources. -/
def size (t : Tree) : Nat := t.nodes.size

/-- Whether there is nothing but the root. -/
def isEmpty (t : Tree) : Bool := t.size ≤ 1

/-- The addresses one element below `a`, ascending. -/
def children (t : Tree) (a : Address) : List Address :=
  ((t.nodes.keys.dropWhile fun b => compare b a == .lt).takeWhile (·.isUnder a)).filter
    fun b => b.length == a.length + 1

/-- Adds a resource without attributes below one that is there. -/
def create (t : Tree) (a : Address) : Except Fault Tree :=
  if t.contains a then .error (.duplicateResource a)
  else
    match a.parent? with
    | some parent =>
      if t.contains parent then .ok (t.put a ∅) else .error (.resourceNotFound parent)
    | none => .ok (t.put a ∅)

/-- Changes the attributes of a resource. -/
def edit (t : Tree) (a : Address) (f : Attributes → Attributes) : Except Fault Tree := do
  return t.put a (f (← t.require a))

/-- Removes a resource without children. -/
def remove (t : Tree) (a : Address) : Except Fault (Attributes × Tree) :=
  if a.isRoot then .error (.validation .rootRemoval)
  else
    match t.get? a with
    | none => .error (.resourceNotFound a)
    | some attributes =>
      if (t.children a).isEmpty then .ok (attributes, t.discard a)
      else .error (.validation (.hasChildren a))

end Tree

end ManagedModel
