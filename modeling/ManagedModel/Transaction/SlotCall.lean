import ManagedModel.Transaction.Attachments
import ManagedModel.Value

/-! # Calls on a slot

    The operations on one slot of a transaction's attachments, as data. -/

namespace ManagedModel

/-- An operation on a slot with values of the given type. -/
inductive SlotCall (α : Type) where
  | put (value : α)
  | putIfEmpty (value : α)
  | get
  | modify (value : α)
  | getOrInsert (value : α)
  | remove

namespace SlotCall

variable {T : SlotTypes}

/-- Carries out an operation on a slot. -/
def run {key : SlotKey T} (call : SlotCall (T.Carrier key.type)) (a : Attachments T) :
    Option (T.Carrier key.type) × Attachments T :=
  match call with
  | put value => a.put key value
  | putIfEmpty value => a.putIfEmpty key value
  | get => (a.get? key, a)
  | modify value => a.modify key fun _ => value
  | getOrInsert value => a.getOrInsert key value
  | remove => a.remove key

end SlotCall

/-! ### Slots of plain data -/

/-- The types of slots for plain data. -/
inductive PlainType where
  | int
  | text
  | texts
deriving DecidableEq

namespace PlainType

/-- The values of a type. -/
@[reducible] def Carrier : PlainType → Type
  | int => Int64
  | text => String
  | texts => List String

/-- A value of such a type as a dynamic value. -/
def toValue : (type : PlainType) → type.Carrier → Value
  | int, n => .int n
  | text, s => .string s
  | texts, ss => .list (ss.map .string)

end PlainType

/-- Slots for plain data. -/
@[reducible] def SlotTypes.plain : SlotTypes where
  Code := PlainType
  Carrier := PlainType.Carrier

end ManagedModel
