import ManagedModel.SortedMap

/-! # Addresses

    A resource sits at an address: a path of key/value elements from the root.

    * Addresses are ordered element by element, key before value, so a prefix
      comes before its extensions and the extensions of one address stand
      together.
    * A pattern is an address whose elements may leave the value open; it is
      matched by addresses of its own length.
    * Two addresses overlap when one is a prefix of the other: the subtrees
      below them then share a resource, and otherwise they do not. -/

namespace ManagedModel

/-- One step of a path. -/
structure AddressElement where
  key : String
  value : String
deriving DecidableEq

namespace AddressElement

/-- The value that stands for every value. -/
def wildcardValue : String := "*"

/-- The element that leaves its value open. -/
def wildcard (key : String) : AddressElement := ⟨key, wildcardValue⟩

/-- Whether the element leaves its value open. -/
def isWildcard (e : AddressElement) : Bool := e.value == wildcardValue

/-- Whether `e` falls under the pattern element `p`. -/
def isMatchedBy (e p : AddressElement) : Bool :=
  p.key == e.key && (p.isWildcard || p.value == e.value)

/-- The element as it is written in an address. -/
def text (e : AddressElement) : String := e.key ++ "=" ++ e.value

/-- Elements are ordered by key, then by value. -/
instance : Ord AddressElement where
  compare a b := (compare a.key b.key).then (compare a.value b.value)

instance : Std.TransOrd AddressElement :=
  inferInstanceAs
    (Std.TransCmp (compareLex (compareOn AddressElement.key) (compareOn AddressElement.value)))

instance : Std.LawfulEqOrd AddressElement where
  eq_of_compare {a b} h := by
    obtain ⟨hk, hv⟩ := Ordering.then_eq_eq.1 h
    obtain ⟨k, v⟩ := a
    obtain ⟨l, w⟩ := b
    rw [AddressElement.mk.injEq]
    exact ⟨Std.LawfulEqCmp.eq_of_compare hk, Std.LawfulEqCmp.eq_of_compare hv⟩

end AddressElement

/-- The place of a resource. -/
structure Address where
  elements : List AddressElement
deriving DecidableEq

namespace Address

/-- Addresses are ordered lexicographically. -/
instance : Ord Address where
  compare a b := compare a.elements b.elements

instance : Std.TransOrd Address :=
  inferInstanceAs (Std.TransCmp (compareOn Address.elements))

instance : Std.LawfulEqOrd Address where
  eq_of_compare {a b} h := by
    obtain ⟨es⟩ := a
    obtain ⟨fs⟩ := b
    rw [Address.mk.injEq]
    exact Std.LawfulEqCmp.eq_of_compare h

/-- The top of the model. -/
def root : Address := ⟨[]⟩

instance : Inhabited Address := ⟨root⟩

/-- Whether the address is the top of the model. -/
def isRoot (a : Address) : Bool := a.elements.isEmpty

/-- The number of elements. -/
def length (a : Address) : Nat := a.elements.length

/-- The address one element further down. -/
def child (a : Address) (e : AddressElement) : Address := ⟨a.elements ++ [e]⟩

/-- The address with the path of `b` put below `a`. -/
def append (a b : Address) : Address := ⟨a.elements ++ b.elements⟩

instance : Append Address := ⟨append⟩

/-- The last element. -/
def last? (a : Address) : Option AddressElement := a.elements.getLast?

/-- The address one element further up; the root has none. -/
def parent? (a : Address) : Option Address :=
  if a.isRoot then none else some ⟨a.elements.dropLast⟩

/-- Whether `a` lies in the subtree of `top`. -/
def isUnder (a top : Address) : Bool := top.elements.isPrefixOf a.elements

/-- Whether the subtrees of the two addresses share a resource. -/
def overlaps (a b : Address) : Bool := a.isUnder b || b.isUnder a

/-- Whether `a` falls under `pattern`: the same length, and every element matched. -/
def isMatchedBy (a pattern : Address) : Bool :=
  a.length == pattern.length &&
    (pattern.elements.zip a.elements).all fun pe => pe.2.isMatchedBy pe.1

/-- The number of elements that leave their value open. -/
def wildcardCount (a : Address) : Nat := a.elements.countP AddressElement.isWildcard

/-- The address as it is written. -/
def text (a : Address) : String :=
  if a.isRoot then "/" else String.join (a.elements.map fun e => "/" ++ e.text)

/-- The addresses in order, each once. -/
def sorted (addresses : List Address) : List Address :=
  (SortedSet.ofList addresses).toList

end Address

end ManagedModel
