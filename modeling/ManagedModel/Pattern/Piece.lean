import ManagedModel.Pattern

/-! # Pieces of a pattern

    A piece is a pattern as far as it has been read, with the measures that are
    limited: how deeply its parts are nested, and how many bytes the machine
    takes that follows it. Such a machine has states of a fixed size; a state
    for a set also holds the set's ranges, and a fork the ways out of it.
    A repetition with counts has its part written out as often as it counts.

    * `nothing`, `char`, `ofSet` and `ofLook` are the pieces without parts;
      `sequence`, `choice`, `group` and `repeated` put pieces together.
    * `machineBytes` is the size of the machine for a whole pattern. -/

namespace ManagedModel

namespace Pattern

/-- What has been read of a pattern. -/
structure Piece where
  pattern : Pattern
  /-- How deeply repetitions, alternatives, sequences and capturing groups are nested. -/
  height : Nat := 0
  /-- Whether the parts allow the empty text; conditions on a place do not count. -/
  allowsEmpty : Bool := false
  /-- The size of the states. -/
  bytes : Nat
  /-- The greatest number of a capturing group in it; they are numbered from one. -/
  lastGroup : Nat := 0
  /-- The size of the names of groups. -/
  nameBytes : Nat := 0

namespace Piece

/-! ### Sizes -/

/-- The size of a state. -/
def stateBytes : Nat := 32

/-- The size of a range of characters. -/
def rangeBytes : Nat := 8

/-- The size of a way out of a fork. -/
def exitBytes : Nat := 4

/-- The size of a fork. -/
def forkBytes (exits : Nat) : Nat := stateBytes + exits * exitBytes

/-- What is kept about a capturing group. -/
def groupBytes : Nat := 16

/-- What is kept about a name beside its text. -/
def nameOverhead : Nat := 4

/-! ### Pieces without parts -/

/-- The empty text. -/
def nothing : Piece := { pattern := .empty, allowsEmpty := true, bytes := stateBytes }

/-- One character. -/
def char (c : Char) : Piece := { pattern := .set (.single c), bytes := stateBytes }

/-- One character of a set. -/
def ofSet (s : CharSet) : Piece :=
  { pattern := .set s, bytes := stateBytes + s.ranges.length * rangeBytes }

/-- A condition on a place. -/
def ofLook (l : Look) : Piece := { pattern := .look l, allowsEmpty := true, bytes := stateBytes }

/-! ### Putting pieces together -/

/-- The greatest of a measure over a list. -/
def greatest (measure : Piece → Nat) (ps : List Piece) : Nat := (ps.map measure).foldl Nat.max 0

/-- The sum of a measure over a list. -/
def total (measure : Piece → Nat) (ps : List Piece) : Nat := (ps.map measure).foldl Nat.add 0

/-- Pieces one after the other. -/
def sequence : List Piece → Piece
  | [] => nothing
  | [p] => p
  | ps =>
    { pattern := concats (ps.map pattern)
      height := greatest height ps + 1
      allowsEmpty := ps.all allowsEmpty
      bytes := total bytes ps
      lastGroup := greatest lastGroup ps
      nameBytes := total nameBytes ps }

/-- Pieces to choose from: a fork to all of them, and a state where they meet. -/
def choice : List Piece → Piece
  | [p] => p
  | ps =>
    { pattern := alternates (ps.map pattern)
      height := greatest height ps + 1
      allowsEmpty := ps.any allowsEmpty
      bytes := total bytes ps + forkBytes ps.length + stateBytes
      lastGroup := greatest lastGroup ps
      nameBytes := total nameBytes ps }

/-- A capturing group: a state before it and one after it. -/
def group (number : Nat) (name? : Option String) (p : Piece) : Piece :=
  { p with
    height := p.height + 1
    bytes := p.bytes + 2 * stateBytes
    lastGroup := Nat.max number p.lastGroup
    nameBytes := p.nameBytes + (name?.map fun s => s.utf8ByteSize + nameOverhead).getD 0 }

/-- The size of a repetition of a part. -/
def repeatedBytes (p : Piece) (min : Nat) : (max? : Option Nat) → Nat
  | none =>
    if min = 0 then
      if p.allowsEmpty then p.bytes + 2 * forkBytes 2 + stateBytes else p.bytes + forkBytes 2
    else min * p.bytes + forkBytes 2
  | some max =>
    if min = max then min * p.bytes
    else if min = 0 ∧ max = 1 then p.bytes + forkBytes 2 + stateBytes
    else
      (if min = 0 then stateBytes else min * p.bytes) + stateBytes +
        (max - min) * (p.bytes + forkBytes 2)

/-- A repetition. -/
def repeated (p : Piece) (min : Nat) (max? : Option Nat) : Piece :=
  if max? = some 0 then nothing
  else if min = 1 ∧ max? = some 1 then p
  else
    { p with
      pattern := «repeat» p.pattern min max?
      height := p.height + 1
      allowsEmpty := min = 0 || p.allowsEmpty
      bytes := p.repeatedBytes min max? }

/-! ### Limits -/

/-- The size of the machine for a whole pattern, which counts as a group itself. -/
def machineBytes (p : Piece) : Nat :=
  p.bytes + 3 * stateBytes + (p.lastGroup + 1) * groupBytes + p.nameBytes

/-- The greatest size that is accepted: ten mebibytes. -/
def machineLimit : Nat := 10 * 1024 * 1024

end Piece

end Pattern

end ManagedModel
