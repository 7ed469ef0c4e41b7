/-! # Sets of characters

    A set of characters is an ascending list of ranges of code points. Ranges
    that overlap or touch are merged, so every set has one list only, with a gap
    between any two of its ranges.

    * `CodeRange.otherCase?` and `CharSet.foldCase` say what ignoring case means
      for a set: each merged range gets the other case of its small letters, or
      if it has none, of its capital letters. Only ASCII letters have a case. -/

namespace ManagedModel

/-! ### Ranges of code points -/

/-- The code points from `first` to `last`, both included. -/
structure CodeRange where
  first : Nat
  last : Nat
deriving DecidableEq

namespace CodeRange

/-- Whether a character lies in the range. -/
def contains (r : CodeRange) (c : Char) : Bool := r.first ≤ c.toNat && c.toNat ≤ r.last

/-- The least range that has both. -/
def hull (r s : CodeRange) : CodeRange := ⟨min r.first s.first, max r.last s.last⟩

/-- The part that two ranges share. -/
def meet? (r s : CodeRange) : Option CodeRange :=
  let first := max r.first s.first
  let last := min r.last s.last
  if first ≤ last then some ⟨first, last⟩ else none

/-- The ASCII capital letters. -/
def capitals : CodeRange := ⟨'A'.toNat, 'Z'.toNat⟩

/-- The ASCII small letters. -/
def smalls : CodeRange := ⟨'a'.toNat, 'z'.toNat⟩

/-- The distance from a capital letter to its small letter. -/
def caseDistance : Nat := 'a'.toNat - 'A'.toNat

/-- The capital letters for the small letters of a range; for a range without any, the small
    letters for its capital letters. -/
def otherCase? (r : CodeRange) : Option CodeRange :=
  match r.meet? smalls with
  | some m => some ⟨m.first - caseDistance, m.last - caseDistance⟩
  | none => (r.meet? capitals).map fun m => ⟨m.first + caseDistance, m.last + caseDistance⟩

end CodeRange

/-! ### Sets -/

/-- A set of characters. -/
structure CharSet where
  /-- The ranges, ascending, with a gap between any two. -/
  ranges : List CodeRange
deriving DecidableEq

namespace CharSet

/-- Whether a character belongs to the set. -/
def mem (s : CharSet) (c : Char) : Bool := s.ranges.any (·.contains c)

/-- Adds a range to a list of ranges, merged with those it overlaps or touches. -/
def addRange (r : CodeRange) : List CodeRange → List CodeRange
  | [] => [r]
  | q :: qs =>
    if r.last + 1 < q.first then r :: q :: qs
    else if q.last + 1 < r.first then q :: addRange r qs
    else addRange (r.hull q) qs

/-- No character. -/
def empty : CharSet := ⟨[]⟩

/-- The characters from `first` to `last`, both included. -/
def range (first last : Char) : CharSet := ⟨[⟨first.toNat, last.toNat⟩]⟩

/-- The set of one character. -/
def single (c : Char) : CharSet := range c c

/-- The characters of either set. -/
def union (s t : CharSet) : CharSet := ⟨s.ranges.foldr addRange t.ranges⟩

/-- The union of a list of sets. -/
def unions (sets : List CharSet) : CharSet := sets.foldr union empty

/-- The greatest code point. -/
def lastCode : Nat := 0x10FFFF

/-- The ranges between those of a list, from the code point `start` on. -/
def gaps (start : Nat) : List CodeRange → List CodeRange
  | [] => if start ≤ lastCode then [⟨start, lastCode⟩] else []
  | q :: qs =>
    if start < q.first then ⟨start, q.first - 1⟩ :: gaps (q.last + 1) qs
    else gaps (q.last + 1) qs

/-- The characters outside the set. -/
def complement (s : CharSet) : CharSet := ⟨gaps 0 s.ranges⟩

/-- The set with the other case of its ranges. -/
def foldCase (s : CharSet) : CharSet :=
  ⟨(s.ranges.filterMap CodeRange.otherCase?).foldr addRange s.ranges⟩

/-- Every character. -/
def any : CharSet := empty.complement

/-- The ASCII digits. -/
def digit : CharSet := range '0' '9'

/-- The blanks: tab, line feed, vertical tab, form feed, carriage return and space. -/
def space : CharSet := union (range '\t' '\x0d') (single ' ')

/-- The characters of words: ASCII letters and digits, and the underscore. -/
def word : CharSet := unions [range '0' '9', range 'A' 'Z', single '_', range 'a' 'z']

end CharSet

end ManagedModel
