import ManagedModel.Value

/-! # The text of a value

    How values appear in messages and in the display of operations. Text is
    put between quotes as it is; nothing is escaped, so the text of a value
    cannot in general be read back. -/

namespace ManagedModel

namespace Value

/-- The number in plain decimal digits. -/
def intText (n : Int64) : String := toString n.toInt

/-- The text put between double quotes. -/
def quoted (s : String) : String := "\"" ++ s ++ "\""

mutual

/-- The text of a value in messages. -/
def text : Value → String
  | undefined => "undefined"
  | bool b => if b then "true" else "false"
  | int n => intText n
  | string s => quoted s
  | expression e => "expression " ++ quoted e
  | list items => "[" ++ ", ".intercalate (itemTexts items) ++ "]"
  | object fields => "\x7b" ++ ", ".intercalate (fieldTexts fields) ++ "\x7d"

/-- The texts of a list's items. -/
def itemTexts : List Value → List String
  | [] => []
  | v :: vs => v.text :: itemTexts vs

/-- The texts of an object's fields, each key with its value. -/
def fieldTexts : List (String × Value) → List String
  | [] => []
  | (k, v) :: fs => (quoted k ++ " => " ++ v.text) :: fieldTexts fs

end

/-- The bare text of a scalar. Lists, objects and `undefined` have none. -/
def plainText : Value → Option String
  | bool b => some (if b then "true" else "false")
  | int n => some (intText n)
  | string s | expression s => some s
  | undefined | list _ | object _ => none

end Value

end ManagedModel
