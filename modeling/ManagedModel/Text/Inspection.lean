import ManagedModel.Fault
import ManagedModel.Property.Live
import ManagedModel.Text.Unprintable

/-! # Inspection texts

    Texts that show the structure of a datum to a developer: every value with
    its shape, and text between quotes with everything escaped that could be
    mistaken or not be seen. -/

namespace ManagedModel

namespace Text

/-- The lowercase hexadecimal digits of a number. -/
def hex (n : Nat) : String := String.ofList (Nat.toDigits 16 n)

/-- A character between quotes: quotes, backslashes and common controls get a backslash,
    other characters that cannot be seen are shown by their number. -/
def inspectChar (c : Char) : String :=
  match c with
  | '\x00' => "\\0"
  | '\t' => "\\t"
  | '\r' => "\\r"
  | '\n' => "\\n"
  | '"' => "\\\""
  | '\\' => "\\\\"
  | c => if isUnprintable c then "\\u\x7b" ++ hex c.toNat ++ "\x7d" else c.toString

/-- A text between quotes. -/
def inspect (s : String) : String := "\"" ++ String.join (s.toList.map inspectChar) ++ "\""

/-- A truth value. -/
def inspectBool (b : Bool) : String := if b then "true" else "false"

/-- An optional datum. -/
def inspectOption {α : Type} (f : α → String) : Option α → String
  | some a => "Some(" ++ f a ++ ")"
  | none => "None"

/-- A list of data. -/
def inspectList {α : Type} (f : α → String) (as : List α) : String :=
  "[" ++ ", ".intercalate (as.map f) ++ "]"

/-- A set of texts. -/
def inspectSet (as : List String) : String :=
  "\x7b" ++ ", ".intercalate (as.map inspect) ++ "\x7d"

end Text

namespace Value

mutual

/-- A value with its shape. -/
def inspect : Value → String
  | undefined => "Undefined"
  | bool b => if b then "Bool(true)" else "Bool(false)"
  | int n => "Int(" ++ intText n ++ ")"
  | string s => "String(" ++ Text.inspect s ++ ")"
  | expression e => "Expression(" ++ Text.inspect e ++ ")"
  | list items => "List([" ++ ", ".intercalate (inspectItems items) ++ "])"
  | object fields => "Object(\x7b" ++ ", ".intercalate (inspectFields fields) ++ "\x7d)"

/-- The items of a list. -/
def inspectItems : List Value → List String
  | [] => []
  | v :: vs => v.inspect :: inspectItems vs

/-- The fields of an object. -/
def inspectFields : List (String × Value) → List String
  | [] => []
  | (k, v) :: fs => (Text.inspect k ++ ": " ++ v.inspect) :: inspectFields fs

end

end Value

namespace FaultKind

/-- The class of a fault. -/
def inspect : FaultKind → String
  | validation => "Validation"
  | resolution => "Resolution"
  | duplicateResource => "DuplicateResource"
  | resourceNotFound => "ResourceNotFound"
  | internal => "Internal"
  | failed => "Failed"

end FaultKind

namespace PropertyChange

/-- A change of a live property. -/
def inspect : PropertyChange → String
  | set name value =>
    "Set \x7b name: " ++ Text.inspect name ++ ", value: " ++ Text.inspect value ++ " \x7d"
  | clear name => "Clear \x7b name: " ++ Text.inspect name ++ " \x7d"

end PropertyChange

namespace PropertyConfig

/-- How system properties behave. -/
def inspect (cfg : PropertyConfig) : String :=
  "SystemPropertyConfig \x7b use_boottime: " ++ Text.inspectBool cfg.useBootTime ++
    ", has_updater: " ++ Text.inspectBool cfg.updater?.isSome ++ " \x7d"

/-- What changes of live properties go through. -/
def inspectApplier (cfg : PropertyConfig) : String :=
  "PropertyApplier \x7b has_updater: " ++ Text.inspectBool cfg.updater?.isSome ++ " \x7d"

end PropertyConfig

end ManagedModel
