import ManagedModel.Fault
import ManagedModel.Text.Blank
import ManagedModel.Text.Phrase

/-! # Expressions

    Text with references to live properties. A reference is written
    `${name}`; it may list several names, of which the first that is set
    counts, and it may give a default after a colon. `$${` stands for the
    two characters that open a reference.

    * `placeholder` is the form of what is replaced: a reference, or the
      escaped opening of one.
    * `resolve` finds the placeholders of a text and puts values in their
      places. The text between them stands for itself and may not open
      another reference. Values are put in as they are; they are not read
      again. -/

namespace ManagedModel

namespace Expression

/-- Whether the text has the two characters that open a reference. -/
def opensReference : List Char → Bool
  | [] => false
  | '$' :: '{' :: _ => true
  | _ :: cs => opensReference cs

/-- The parts of a text between the separators. -/
def splitOn (separator : Char) : List Char → List (List Char)
  | [] => [[]]
  | c :: cs =>
    if c = separator then [] :: splitOn separator cs
    else
      match splitOn separator cs with
      | [] => [[c]]
      | part :: parts => (c :: part) :: parts

/-! ### Finding placeholders -/

/-- What closes a reference: its default as the second part, if it has one, and a brace. -/
def closing : Phrase :=
  .concat (.optional (.concat (.text [':']) (.part 2 (.run ['}'])))) (.text ['}'])

/-- A reference, with its names as the first part. -/
def reference : Phrase :=
  .concat (.text ['$', '{']) (.concat (.part 1 (.run ['}', ':'])) closing)

/-- The two characters that open a reference, escaped. -/
def escapedOpening : List Char := ['$', '$', '{']

/-- What is replaced in an expression. -/
def placeholder : Phrase := .either (.text escapedOpening) reference

theorem minLength_placeholder_pos : 0 < placeholder.minLength := by decide

/-! ### Resolving -/

/-- The value of a reference. Every name must be non-empty, even one that is not needed. -/
def resolveReference (lookup : String → Option String) (names : List (List Char))
    (default? : Option (List Char)) : Except ResolutionFault (List Char) :=
  if names.any List.isEmpty then .error .emptyName
  else
    match names.findSome? fun name => lookup (String.ofList name) with
    | some value => .ok value.toList
    | none =>
      match default? with
      | some dflt => .ok dflt
      | none => .error (.noSuchProperty (names.map String.ofList))

/-- The text that stands in the place of a placeholder. -/
def resolvePlaceholder (lookup : String → Option String) (r : Phrase.Reading) :
    Except ResolutionFault (List Char) :=
  if r.whole = escapedOpening then .ok ['$', '{']
  else
    let names := (splitOn ',' ((r.part? 1).getD [])).map Text.trim
    resolveReference lookup names (r.part? 2)

/-- The text between two placeholders; it may not open a reference. -/
def literalText (cs : List Char) : Except ResolutionFault (List Char) :=
  if opensReference cs then .error .unterminated else .ok cs

/-- The text of the placeholders found, of what stands before each of them, and of what stands
    behind the last. -/
def resolveFound (lookup : String → Option String) :
    List (List Char × Phrase.Reading) → List Char → Except ResolutionFault (List Char)
  | [], last => literalText last
  | (before, r) :: found, last => do
    let text ← literalText before
    let value ← resolvePlaceholder lookup r
    let texts ← resolveFound lookup found last
    return text ++ value ++ texts

/-- The text of a list of characters, with every placeholder replaced. -/
def resolveText (lookup : String → Option String) (cs : List Char) :
    Except ResolutionFault (List Char) :=
  let (found, last) := placeholder.findAll minLength_placeholder_pos cs
  resolveFound lookup found last

/-- The text of an expression, with every reference replaced by its value. -/
def resolve (lookup : String → Option String) (text : String) : Except Fault String :=
  match resolveText lookup text.toList with
  | .ok cs => .ok (String.ofList cs)
  | .error cause => .error (.resolution text cause)

end Expression

/-- The text that a stored value stands for; what is undefined stands for none. -/
def Value.resolve (lookup : String → Option String) : Value → Except Fault (Option String)
  | .undefined => .ok none
  | .expression text => (Expression.resolve lookup text).map some
  | v => .ok v.plainText

end ManagedModel
