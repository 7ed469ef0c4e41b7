import ManagedModel.SortedMap

/-! # Values

    What an attribute, a parameter or a result can hold. A value is dynamic:
    its shape is known only at run time and is checked against an attribute
    schema where that matters.

    * `undefined` is a value of its own; it is not the absence of an entry.
    * `expression` holds text that still has to be resolved against the live
      properties; `string` holds text as it is.
    * `object` holds its fields in ascending key order. -/

namespace ManagedModel

/-- The types that an attribute can be declared with. -/
inductive ValueType where
  | bool
  | int
  | string
  | list
  | object
deriving DecidableEq

namespace ValueType

/-- The name of a type in messages. -/
def name : ValueType → String
  | bool => "Bool"
  | int => "Int"
  | string => "String"
  | list => "List"
  | object => "Object"

end ValueType

/-- A dynamic value. -/
inductive Value where
  | undefined
  | bool (b : Bool)
  | int (n : Int64)
  | string (text : String)
  | expression (text : String)
  | list (items : List Value)
  | object (fields : List (String × Value))

/-- A named set of values: the attributes of a resource, or the parameters of an operation. -/
abbrev Attributes := SortedMap String Value

namespace Value

instance : Inhabited Value := ⟨undefined⟩

/-! ### Decidable equality -/

mutual

/-- Decides whether two values are equal. -/
def decEq : (v w : Value) → Decidable (v = w)
  | undefined, w =>
    match w with
    | undefined => isTrue rfl
    | bool _ | int _ | string _ | expression _ | list _ | object _ => isFalse (by simp)
  | bool a, w =>
    match w with
    | bool b => if h : a = b then isTrue (by rw [h]) else isFalse (by simp [h])
    | undefined | int _ | string _ | expression _ | list _ | object _ => isFalse (by simp)
  | int a, w =>
    match w with
    | int b => if h : a = b then isTrue (by rw [h]) else isFalse (by simp [h])
    | undefined | bool _ | string _ | expression _ | list _ | object _ => isFalse (by simp)
  | string a, w =>
    match w with
    | string b => if h : a = b then isTrue (by rw [h]) else isFalse (by simp [h])
    | undefined | bool _ | int _ | expression _ | list _ | object _ => isFalse (by simp)
  | expression a, w =>
    match w with
    | expression b => if h : a = b then isTrue (by rw [h]) else isFalse (by simp [h])
    | undefined | bool _ | int _ | string _ | list _ | object _ => isFalse (by simp)
  | list a, w =>
    match w with
    | list b =>
      match decEqItems a b with
      | isTrue h => isTrue (by rw [h])
      | isFalse h => isFalse (by simp [h])
    | undefined | bool _ | int _ | string _ | expression _ | object _ => isFalse (by simp)
  | object a, w =>
    match w with
    | object b =>
      match decEqFields a b with
      | isTrue h => isTrue (by rw [h])
      | isFalse h => isFalse (by simp [h])
    | undefined | bool _ | int _ | string _ | expression _ | list _ => isFalse (by simp)

/-- Decides whether two lists of values are equal. -/
def decEqItems : (vs ws : List Value) → Decidable (vs = ws)
  | [], [] => isTrue rfl
  | [], _ :: _ => isFalse (by simp)
  | _ :: _, [] => isFalse (by simp)
  | v :: vs, w :: ws =>
    match decEq v w with
    | isFalse h => isFalse (by simp [h])
    | isTrue h =>
      match decEqItems vs ws with
      | isTrue hs => isTrue (by rw [h, hs])
      | isFalse hs => isFalse (by simp [hs])

/-- Decides whether two lists of fields are equal. -/
def decEqFields : (fs gs : List (String × Value)) → Decidable (fs = gs)
  | [], [] => isTrue rfl
  | [], _ :: _ => isFalse (by simp)
  | _ :: _, [] => isFalse (by simp)
  | (k, v) :: fs, (l, w) :: gs =>
    if hk : k = l then
      match decEq v w with
      | isFalse h => isFalse (by simp [h])
      | isTrue h =>
        match decEqFields fs gs with
        | isTrue hs => isTrue (by rw [hk, h, hs])
        | isFalse hs => isFalse (by simp [hs])
    else isFalse (by simp [hk])

end

instance : DecidableEq Value := decEq

/-! ### Reading a value -/

/-- Every value but `undefined` is defined. -/
def isDefined : Value → Bool
  | undefined => false
  | _ => true

/-- Whether the value still has to be resolved. -/
def isExpression : Value → Bool
  | expression _ => true
  | _ => false

/-- The boolean that the value is. -/
def asBool : Value → Option Bool
  | bool b => some b
  | _ => none

/-- The number that the value is. -/
def asInt : Value → Option Int64
  | int n => some n
  | _ => none

/-- The literal text that the value is. -/
def asString : Value → Option String
  | string s => some s
  | _ => none

/-- The unresolved text that the value is. -/
def asExpression : Value → Option String
  | expression e => some e
  | _ => none

/-- The items of a list. -/
def asList : Value → Option (List Value)
  | list items => some items
  | _ => none

/-- The fields of an object. -/
def asObject : Value → Option (List (String × Value))
  | object fields => some fields
  | _ => none

/-- The type a value has. An expression stands for text; `undefined` has no type. -/
def type? : Value → Option ValueType
  | undefined => none
  | bool _ => some .bool
  | int _ => some .int
  | string _ | expression _ => some .string
  | list _ => some .list
  | object _ => some .object

/-- The name of a value's shape in messages. -/
def shapeName : Value → String
  | undefined => "Undefined"
  | bool _ => "Bool"
  | int _ => "Int"
  | string _ => "String"
  | expression _ => "Expression"
  | list _ => "List"
  | object _ => "Object"

/-! ### Building a value -/

/-- The object with the given attributes as its fields. -/
def ofAttributes (attributes : Attributes) : Value := object attributes.entries

/-- A value that may be missing; what is missing is undefined. -/
def ofOption {α : Type} (f : α → Value) : Option α → Value
  | some a => f a
  | none => undefined

end Value

end ManagedModel
