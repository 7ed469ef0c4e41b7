import ManagedModel.Pattern.Marked

/-! # Searching for a pattern

    A text is read once, character by character, while a marked pattern keeps
    where the matches under way have come. A match may begin at every place, so
    at every place the pattern is also entered anew.

    * `Marked.allowsEmpty` and `Marked.ends`: a match can begin and end, or one
      under way can end, at a place.
    * `Marked.advance` moves the marks over a character.
    * `Pattern.isFoundIn` asks for a match anywhere in a text. -/

namespace ManagedModel

/-- A place in a text: the characters on either side of it. -/
structure TextPlace where
  before : Option Char
  after : Option Char

namespace Pattern

namespace Marked

/-- Whether the pattern allows the empty text at a place. -/
def allowsEmpty (x : TextPlace) : Marked → Bool
  | empty => true
  | look l => l.holds x.before x.after
  | set _ _ => false
  | concatNode .conditional _ p q => p.allowsEmpty x && q.allowsEmpty x
  | concatNode e _ _ _ => e = .always
  | alternateNode .conditional _ p q => p.allowsEmpty x || q.allowsEmpty x
  | alternateNode e _ _ _ => e = .always
  | loop p => p.allowsEmpty x
  | upToNode _ _ _ => true

/-- Whether a match under way can end at a place. -/
def ends (x : TextPlace) : Marked → Bool
  | empty => false
  | look _ => false
  | set _ mark => mark
  | concatNode _ busy p q => busy && (q.ends x || (p.ends x && q.allowsEmpty x))
  | alternateNode _ busy p q => busy && (p.ends x || q.ends x)
  | loop p => p.ends x
  | upToNode busy p rest => busy && (p.ends x || rest.ends x)

/-- The marks behind the character `c`, which follows the place `x`, when the pattern is entered
    at that place or not. A part up to a count is entered at its first repetition only: to enter
    it at a later one, past empty ones, would allow nothing more. -/
def advance (x : TextPlace) (c : Char) : (enter : Bool) → Marked → Marked
  | _, empty => empty
  | _, look l => look l
  | enter, set s _ => set s (enter && s.mem c)
  | enter, concatNode e busy p q =>
    if enter || busy then
      concat (p.advance x c enter) (q.advance x c ((enter && p.allowsEmpty x) || p.ends x))
    else concatNode e busy p q
  | enter, alternateNode e busy p q =>
    if enter || busy then alternate (p.advance x c enter) (q.advance x c enter)
    else alternateNode e busy p q
  | enter, loop p => loop (p.advance x c (enter || p.ends x))
  | enter, upToNode busy p rest =>
    if enter || busy then upToNext (p.advance x c enter) (rest.advance x c (p.ends x))
    else upToNode busy p rest

/-- Whether a match ends in the text, which follows the character `before`. -/
def isCompletedIn : (before : Option Char) → List Char → Marked → Bool
  | before, [], p => p.allowsEmpty ⟨before, none⟩ || p.ends ⟨before, none⟩
  | before, c :: cs, p =>
    let x : TextPlace := ⟨before, some c⟩
    p.allowsEmpty x || p.ends x || isCompletedIn (some c) cs (p.advance x c true)

end Marked

/-- Whether some part of the text matches. -/
def isFoundIn (p : Pattern) (text : String) : Bool :=
  (Marked.ofPattern p).isCompletedIn none text.toList

end Pattern

end ManagedModel
