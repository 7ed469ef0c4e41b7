/-! # Tables of characters

    A table lists the characters of a class as ranges of code points. -/

namespace ManagedModel

namespace Text

/-- Whether a character lies in one of the ranges, both ends included. -/
def inRanges (ranges : List (Nat × Nat)) (c : Char) : Bool :=
  ranges.any fun r => r.1 ≤ c.toNat && c.toNat ≤ r.2

end Text

end ManagedModel
