/-! # Attachments

    The steps of a transaction share values through attachments. A slot is
    named by a key, and the key carries the type of the values that go there:
    keys that agree in name and differ in type name different slots.

    The table itself is untyped: it holds values together with a code of their
    type, and reading a slot compares the code with the one of the key. What
    was stored under a key is of the type of the key, so the comparison never
    fails; the operations still say what happens if it did. `get?` is the view
    of the table, with one equation for each way of filling or emptying a slot. -/

namespace ManagedModel

/-- The types that attachments can have: codes, and the type that each code stands for. -/
structure SlotTypes where
  Code : Type
  Carrier : Code → Type
  [decEqCode : DecidableEq Code]

attribute [instance] SlotTypes.decEqCode

/-- A name for a slot of a given type. -/
structure SlotKey (T : SlotTypes) where
  name : String
  type : T.Code
deriving DecidableEq

/-- A value together with the code of its type. -/
structure TaggedValue (T : SlotTypes) where
  type : T.Code
  value : T.Carrier type

namespace TaggedValue

variable {T : SlotTypes}

/-- The value, if it has the type asked for. -/
def cast? (d : TaggedValue T) (type : T.Code) : Option (T.Carrier type) :=
  if h : d.type = type then some (h ▸ d.value) else none

end TaggedValue

/-- The attachments of a transaction. -/
structure Attachments (T : SlotTypes) where
  slots : List (SlotKey T × TaggedValue T) := []

namespace Attachments

variable {T : SlotTypes}

/-- What a slot holds. -/
def find? (a : Attachments T) (key : SlotKey T) : Option (TaggedValue T) :=
  (a.slots.find? fun s => s.1 = key).map (·.2)

/-- Empties a slot. -/
def clear (a : Attachments T) (key : SlotKey T) : Attachments T :=
  ⟨a.slots.filter fun s => s.1 ≠ key⟩

/-- Fills a slot. -/
def fill (a : Attachments T) (key : SlotKey T) (value : T.Carrier key.type) : Attachments T :=
  ⟨(key, ⟨key.type, value⟩) :: (a.clear key).slots⟩

/-- The value of a slot. -/
def get? (a : Attachments T) (key : SlotKey T) : Option (T.Carrier key.type) :=
  (a.find? key).bind (·.cast? key.type)

/-- Whether a slot is filled. -/
def contains (a : Attachments T) (key : SlotKey T) : Bool := (a.find? key).isSome

theorem find?_clear_self (a : Attachments T) (key : SlotKey T) :
    (a.clear key).find? key = none := by
  have h : (a.clear key).slots.find? (fun s => s.1 = key) = none :=
    List.find?_eq_none.2 fun s hs => by simpa [clear] using (List.mem_filter.1 hs).2
  simp [find?, h]

theorem find?_clear_of_ne (a : Attachments T) {key other : SlotKey T} (h : other ≠ key) :
    (a.clear key).find? other = a.find? other := by
  simp only [find?, clear, List.find?_filter]
  congr 2
  funext s
  by_cases hs : s.1 = other <;> simp [hs, h]

theorem find?_fill_of_ne (a : Attachments T) {key other : SlotKey T} (h : other ≠ key)
    (value : T.Carrier key.type) : (a.fill key value).find? other = a.find? other := by
  have hne : ¬key = other := fun e => h e.symm
  rw [← find?_clear_of_ne a h]
  simp only [find?, fill, List.find?_cons, decide_eq_false hne]

@[simp] theorem get?_fill_self (a : Attachments T) (key : SlotKey T)
    (value : T.Carrier key.type) : (a.fill key value).get? key = some value := by
  simp [get?, find?, fill, TaggedValue.cast?]

theorem get?_fill_of_ne (a : Attachments T) {key other : SlotKey T} (h : other ≠ key)
    (value : T.Carrier key.type) : (a.fill key value).get? other = a.get? other := by
  rw [get?, find?_fill_of_ne a h, get?]

@[simp] theorem get?_clear_self (a : Attachments T) (key : SlotKey T) :
    (a.clear key).get? key = none := by
  rw [get?, find?_clear_self]
  rfl

theorem get?_clear_of_ne (a : Attachments T) {key other : SlotKey T} (h : other ≠ key) :
    (a.clear key).get? other = a.get? other := by
  rw [get?, find?_clear_of_ne a h, get?]

/-- Stores a value; gives the one before. -/
def put (a : Attachments T) (key : SlotKey T) (value : T.Carrier key.type) :
    Option (T.Carrier key.type) × Attachments T :=
  (a.get? key, a.fill key value)

/-- Stores a value in an empty slot; gives the value of a filled one, which stays. -/
def putIfEmpty (a : Attachments T) (key : SlotKey T) (value : T.Carrier key.type) :
    Option (T.Carrier key.type) × Attachments T :=
  if a.contains key then (a.get? key, a) else (none, a.fill key value)

/-- Changes the value of a slot, if it has one; gives the one before. -/
def modify (a : Attachments T) (key : SlotKey T) (f : T.Carrier key.type → T.Carrier key.type) :
    Option (T.Carrier key.type) × Attachments T :=
  match a.get? key with
  | some value => (some value, a.fill key (f value))
  | none => (none, a)

/-- The value of a slot, after storing one in an empty slot. There is none only where a slot
    holds a value of another type than its key says. -/
def getOrInsert (a : Attachments T) (key : SlotKey T) (value : T.Carrier key.type) :
    Option (T.Carrier key.type) × Attachments T :=
  if a.contains key then (a.get? key, a) else (some value, a.fill key value)

/-- Empties a slot; gives its value. -/
def remove (a : Attachments T) (key : SlotKey T) : Option (T.Carrier key.type) × Attachments T :=
  (a.get? key, a.clear key)

/-- The number of slots filled. -/
def size (a : Attachments T) : Nat := a.slots.length

/-- Whether no slot is filled. -/
def isEmpty (a : Attachments T) : Bool := a.slots.isEmpty

/-- The names of the slots filled. -/
def names (a : Attachments T) : List String := a.slots.map (·.1.name)

end Attachments

end ManagedModel
