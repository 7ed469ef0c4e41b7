import ManagedModel.Pattern.CharSet

/-! # Match patterns

    A pattern describes texts that an attribute may hold. It is searched for
    anywhere in a text, so a pattern that should cover the whole text has to
    say so with anchors.

    This module holds the structure of patterns, over the sets of characters of
    `ManagedModel.Pattern.CharSet`. Reading the written form is in
    `ManagedModel.Pattern.Reader`, searching in `ManagedModel.Pattern.Search`. -/

namespace ManagedModel

/-! ### Conditions on a place -/

/-- A condition on the place between two characters. -/
inductive Look where
  /-- The text begins here. -/
  | start
  /-- The text ends here. -/
  | finish
  /-- A line begins here; lines end with a line feed. -/
  | lineStart
  /-- A line ends here; lines end with a line feed. -/
  | lineFinish
  /-- A line begins here; carriage return and line feed end a line, alone or as a pair. -/
  | lineStartAny
  /-- A line ends here; carriage return and line feed end a line, alone or as a pair. -/
  | lineFinishAny
  /-- A word begins or ends here. -/
  | wordBoundary
  /-- No word begins or ends here. -/
  | noWordBoundary
  /-- A word begins here. -/
  | wordStart
  /-- A word ends here. -/
  | wordFinish
  /-- No word character stands before. -/
  | wordStartHalf
  /-- No word character stands after. -/
  | wordFinishHalf

namespace Look

/-- Whether a character is part of a word; there is none beyond the ends of a text. -/
def isWord : Option Char → Bool
  | some c => CharSet.word.mem c
  | none => false

/-- Whether the condition holds between the characters `before` and `after`. -/
def holds (before after : Option Char) : Look → Bool
  | start => before.isNone
  | finish => after.isNone
  | lineStart => before.isNone || before == some '\n'
  | lineFinish => after.isNone || after == some '\n'
  | lineStartAny =>
    before.isNone || before == some '\n' || (before == some '\r' && after != some '\n')
  | lineFinishAny =>
    after.isNone || after == some '\r' || (after == some '\n' && before != some '\r')
  | wordBoundary => isWord before != isWord after
  | noWordBoundary => isWord before == isWord after
  | wordStart => !isWord before && isWord after
  | wordFinish => isWord before && !isWord after
  | wordStartHalf => !isWord before
  | wordFinishHalf => !isWord after

end Look

/-! ### Patterns -/

/-- The structure of a match pattern. -/
inductive Pattern where
  /-- The empty text. -/
  | empty
  /-- One character of the set. -/
  | set (s : CharSet)
  /-- The empty text, at a place where the condition holds. -/
  | look (l : Look)
  /-- One pattern after the other. -/
  | concat (p q : Pattern)
  /-- Either pattern. -/
  | alternate (p q : Pattern)
  /-- The pattern at least `min` times, and at most `max` times where that is given. -/
  | «repeat» (p : Pattern) (min : Nat) (max : Option Nat)

namespace Pattern

/-- One pattern after the other, for a list. -/
def concats : List Pattern → Pattern
  | [] => empty
  | [p] => p
  | p :: ps => concat p (concats ps)

/-- Any of the patterns, for a list; the last one stands alone. -/
def alternates : List Pattern → Pattern
  | [] => empty
  | [p] => p
  | p :: ps => alternate p (alternates ps)

end Pattern

end ManagedModel
