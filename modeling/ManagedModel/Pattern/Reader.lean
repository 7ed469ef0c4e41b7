import ManagedModel.Pattern.Piece
import ManagedModel.Text.Alphabetic
import ManagedModel.Text.Blank

/-! # Reading patterns

    The written form of a match pattern:

    * `.`, `^`, `$`, alternatives with `|`, groups, and repetitions with `?`,
      `*`, `+` and counts in braces;
    * character classes in brackets, with ranges, complements and the named
      ASCII classes;
    * `\d`, `\s`, `\w` and their complements over ASCII, `\b` and its
      relatives, and escapes for single characters;
    * the flags `i`, `m`, `s`, `x`, `R` and `U`, for the rest of a group or
      for a group of their own.

    Look-around, back references and classes of Unicode properties are refused.
    `Pattern.read` gives the pattern or the first fault. The readers take the
    rest of the written form and return what they leave of it; the recursion
    of a reader is bounded by the length of what it is given. -/

namespace ManagedModel

/-- Why a written pattern is not well formed. -/
inductive PatternFault where
  | nestedTooDeeply
  | tooLarge
  | unclosedGroup
  | unopenedGroup
  | lookAround
  | emptyFlags
  | unknownFlag
  | repeatedFlag
  | danglingNegation
  | unclosedFlags
  | badGroupName
  | repeatedGroupName
  | nothingToRepeat
  | badCount
  | countsOutOfOrder
  | badHexadecimal
  | backReference
  | propertyClass
  | unknownEscape
  | unclosedClass
  | badClassItem
  | rangeOutOfOrder
  | nestedClass
  | classOperation
  | badWordBoundary
deriving DecidableEq

namespace PatternFault

/-- The wording of a fault. -/
def message : PatternFault → String
  | nestedTooDeeply => "groups or repetitions are nested too deeply"
  | tooLarge => "the pattern is too large"
  | unclosedGroup => "a group is not closed"
  | unopenedGroup => "a group is closed that was not opened"
  | lookAround => "look-around is not available"
  | emptyFlags => "a flag group is empty"
  | unknownFlag => "unknown flag"
  | repeatedFlag => "a flag or its negation is repeated"
  | danglingNegation => "a flag negation stands last"
  | unclosedFlags => "a flag group is not closed"
  | badGroupName => "bad group name"
  | repeatedGroupName => "a group name is repeated"
  | nothingToRepeat => "there is nothing to repeat"
  | badCount => "bad repetition count"
  | countsOutOfOrder => "repetition counts are out of order"
  | badHexadecimal => "bad hexadecimal escape"
  | backReference => "back references are not available"
  | propertyClass => "classes of character properties are not available"
  | unknownEscape => "unknown escape"
  | unclosedClass => "a character class is not closed"
  | badClassItem => "bad item in a character class"
  | rangeOutOfOrder => "a character range is out of order"
  | nestedClass => "character classes cannot be nested"
  | classOperation => "set operations on character classes are not available"
  | badWordBoundary => "bad word boundary"

end PatternFault

namespace Pattern

/-! ### Flags and blanks -/

/-- The flags in force at a place of the written form. -/
structure Flags where
  /-- `i`: letters stand for both cases. -/
  ignoreCase : Bool := false
  /-- `m`: anchors hold at line ends. -/
  multiLine : Bool := false
  /-- `s`: the dot covers line feeds. -/
  dotAll : Bool := false
  /-- `x`: blanks and comments in the written form do not count. -/
  verbose : Bool := false
  /-- `R`: carriage returns end lines too. -/
  anyLineEnd : Bool := false

/-- Drops leading blanks and comments. -/
def dropBlanks : (inComment : Bool) → List Char → List Char
  | _, [] => []
  | true, c :: cs => dropBlanks (c != '\n') cs
  | false, c :: cs =>
    if Text.isBlank c then dropBlanks false cs
    else if c == '#' then dropBlanks true cs
    else c :: cs

/-- Drops what does not count under the flags. -/
def Flags.skip (f : Flags) (cs : List Char) : List Char :=
  if f.verbose then dropBlanks false cs else cs

/-! ### Escapes -/

/-- What an escape stands for. -/
inductive Escaped where
  | char (c : Char)
  | set (s : CharSet)
  | look (l : Look)

/-- A literal character; under `i` a letter stands for the set of both cases. -/
def literal (f : Flags) (c : Char) : Escaped :=
  if f.ignoreCase && c.isAlpha then .set (.foldCase (.single c)) else .char c

/-- The piece of an escape. -/
def Escaped.piece : Escaped → Piece
  | char c => .char c
  | set s => .ofSet s
  | look l => .ofLook l

/-- The value of a hexadecimal digit. -/
def hexDigit? (c : Char) : Option Nat :=
  if '0' ≤ c && c ≤ '9' then some (c.toNat - '0'.toNat)
  else if 'a' ≤ c && c ≤ 'f' then some (c.toNat - 'a'.toNat + 10)
  else if 'A' ≤ c && c ≤ 'F' then some (c.toNat - 'A'.toNat + 10)
  else none

/-- The character with a number. -/
def charOfNat? (n : Nat) : Option Char :=
  if h : n.isValidChar then some ⟨n.toUInt32, by
    have : n < 4294967296 := by
      have := h
      simp only [Nat.isValidChar] at this
      omega
    simpa [UInt32.isValidChar, Nat.mod_eq_of_lt this] using h⟩
  else none

/-- Reads exactly `count` hexadecimal digits. -/
def readHexDigits (f : Flags) :
    (count : Nat) → (value : Nat) → List Char → Except PatternFault (Nat × List Char)
  | 0, value, cs => .ok (value, cs)
  | count + 1, value, c :: cs =>
    match hexDigit? c with
    | some d => readHexDigits f count (value * 16 + d) (f.skip cs)
    | none => .error .badHexadecimal
  | _ + 1, _, [] => .error .badHexadecimal

/-- Reads hexadecimal digits up to a closing brace; at least one is needed. -/
def readHexBraced (f : Flags) :
    (fuel : Nat) → (value : Option Nat) → List Char → Except PatternFault (Nat × List Char)
  | 0, _, _ => .error .badHexadecimal
  | fuel + 1, value, cs =>
    match f.skip cs with
    | [] => .error .badHexadecimal
    | '}' :: rest =>
      match value with
      | some n => .ok (n, f.skip rest)
      | none => .error .badHexadecimal
    | c :: rest =>
      match hexDigit? c with
      | some d => readHexBraced f fuel (some (value.getD 0 * 16 + d)) rest
      | none => .error .badHexadecimal

/-- Reads the character after `\x`, `\u` or `\U`. -/
def readHex (f : Flags) (count : Nat) (cs : List Char) :
    Except PatternFault (Escaped × List Char) := do
  let (n, rest) ←
    match f.skip cs with
    | '{' :: cs => readHexBraced f (cs.length + 1) none cs
    | cs => readHexDigits f count 0 cs
  match charOfNat? n with
  | some c => return (literal f c, rest)
  | none => throw .badHexadecimal

/-- Reads the name of a word boundary. -/
def readBoundaryName (f : Flags) : (fuel : Nat) → List Char → List Char × List Char
  | 0, cs => ([], cs)
  | _ + 1, [] => ([], [])
  | fuel + 1, c :: cs =>
    if c.isAlpha || c == '-' then
      let (name, rest) := readBoundaryName f fuel (f.skip cs)
      (c :: name, rest)
    else ([], c :: cs)

/-- Reads what may follow `\b`: the name of a boundary in braces. Braces around anything else
    are left, to be read as a count. -/
def readBoundary (f : Flags) (cs : List Char) : Except PatternFault (Escaped × List Char) :=
  match cs with
  | '{' :: rest =>
    match f.skip rest with
    | [] => .error .badWordBoundary
    | c :: body =>
      if c.isAlpha || c == '-' then
        match readBoundaryName f (body.length + 2) (c :: body) with
        | (name, '}' :: rest) =>
          match String.ofList name with
          | "start" => .ok (.look .wordStart, rest)
          | "end" => .ok (.look .wordFinish, rest)
          | "start-half" => .ok (.look .wordStartHalf, rest)
          | "end-half" => .ok (.look .wordFinishHalf, rest)
          | _ => .error .badWordBoundary
        | _ => .error .badWordBoundary
      else .ok (.look .wordBoundary, cs)
  | _ => .ok (.look .wordBoundary, cs)

/-- ASCII signs other than angle brackets stand for themselves after a backslash. -/
def isEscapableSign (c : Char) : Bool :=
  c.toNat < 128 && !c.isAlphanum && c != '<' && c != '>'

/-- Reads what follows a backslash. -/
def readEscape (f : Flags) : List Char → Except PatternFault (Escaped × List Char)
  | [] => .error .unknownEscape
  | c :: cs =>
    match c with
    | 'x' => readHex f 2 cs
    | 'u' => readHex f 4 cs
    | 'U' => readHex f 8 cs
    | 'd' => .ok (.set .digit, cs)
    | 's' => .ok (.set .space, cs)
    | 'w' => .ok (.set .word, cs)
    | 'D' => .ok (.set (.complement .digit), cs)
    | 'S' => .ok (.set (.complement .space), cs)
    | 'W' => .ok (.set (.complement .word), cs)
    | 'p' | 'P' => .error .propertyClass
    | 'a' => .ok (literal f '\x07', cs)
    | 'f' => .ok (literal f '\x0c', cs)
    | 't' => .ok (literal f '\t', cs)
    | 'n' => .ok (literal f '\n', cs)
    | 'r' => .ok (literal f '\r', cs)
    | 'v' => .ok (literal f '\x0b', cs)
    | 'A' => .ok (.look .start, cs)
    | 'z' => .ok (.look .finish, cs)
    | 'b' => readBoundary f cs
    | 'B' => .ok (.look .noWordBoundary, cs)
    | '<' => .ok (.look .wordStart, cs)
    | '>' => .ok (.look .wordFinish, cs)
    | c =>
      if isEscapableSign c then .ok (literal f c, cs)
      else if c.isDigit then .error .backReference
      else .error .unknownEscape

/-! ### Character classes -/

/-- The named ASCII classes. -/
def namedClass? : String → Option CharSet
  | "alnum" => some (.unions [.range '0' '9', .range 'A' 'Z', .range 'a' 'z'])
  | "alpha" => some (.union (.range 'A' 'Z') (.range 'a' 'z'))
  | "ascii" => some (.range '\x00' '\x7f')
  | "blank" => some (.union (.single '\t') (.single ' '))
  | "cntrl" => some (.union (.range '\x00' '\x1f') (.single '\x7f'))
  | "digit" => some .digit
  | "graph" => some (.range '!' '~')
  | "lower" => some (.range 'a' 'z')
  | "print" => some (.range ' ' '~')
  | "punct" =>
    some (.unions [.range '!' '/', .range ':' '@', .range '[' '`', .range '\x7b' '~'])
  | "space" => some .space
  | "upper" => some (.range 'A' 'Z')
  | "word" => some .word
  | "xdigit" => some (.unions [.range '0' '9', .range 'A' 'F', .range 'a' 'f'])
  | _ => none

/-- Reads a named class; the form begins after its opening bracket. -/
def readNamedClass? (cs : List Char) : Option (CharSet × List Char) :=
  match cs with
  | ':' :: cs =>
    let (negated, cs) :=
      match cs with
      | '^' :: cs => (true, cs)
      | cs => (false, cs)
    match cs.dropWhile (· != ':') with
    | ':' :: ']' :: rest =>
      (namedClass? (String.ofList (cs.takeWhile (· != ':')))).map fun s =>
        (if negated then .complement s else s, rest)
    | _ => none
  | _ => none

/-- Reads one item of a class. -/
def readClassItem (f : Flags) : List Char → Except PatternFault (Escaped × List Char)
  | [] => .error .unclosedClass
  | '\\' :: cs => readEscape f cs
  | c :: cs => .ok (.char c, cs)

/-- The set of an item that stands alone. -/
def itemSet : Escaped → Except PatternFault CharSet
  | .char c => .ok (.single c)
  | .set s => .ok s
  | .look _ => .error .badClassItem

/-- The character behind a dash of a class, which says whether the dash makes a range. Among
    blanks that do not count, only the sign of a first comment is passed over, not its text. -/
def behindDash? (f : Flags) (cs : List Char) : Option Char :=
  if f.verbose then
    let dropSpace (cs : List Char) := cs.dropWhile Text.isBlank
    match dropSpace cs with
    | '#' :: cs => (dropSpace cs).head?
    | cs => cs.head?
  else cs.head?

/-- Reads an item of a class or a range between two of them. -/
def readClassRange (f : Flags) (cs : List Char) : Except PatternFault (CharSet × List Char) := do
  let (item, cs) ← readClassItem f cs
  match f.skip cs with
  | [] => throw .unclosedClass
  | '-' :: rest =>
    if (behindDash? f rest).any fun c => c == ']' || c == '-' then
      return (← itemSet item, '-' :: rest)
    match f.skip rest with
    | [] => throw .unclosedClass
    | next => do
      let (item', rest) ← readClassItem f next
      match item, item' with
      | .char first, .char last =>
        if last < first then throw .rangeOutOfOrder
        return (.range first last, rest)
      | _, _ => throw .badClassItem
  | cs => return (← itemSet item, cs)

/-- Reads the items of a class up to its closing bracket. -/
def readClassItems (f : Flags) :
    (fuel : Nat) → List CharSet → List Char → Except PatternFault (List CharSet × List Char)
  | 0, _, _ => .error .unclosedClass
  | fuel + 1, sets, cs =>
    match f.skip cs with
    | [] => .error .unclosedClass
    | '[' :: rest =>
      match readNamedClass? rest with
      | some (s, rest) => readClassItems f fuel (s :: sets) rest
      | none => .error .nestedClass
    | ']' :: rest => .ok (sets, rest)
    | '&' :: '&' :: _ => .error .classOperation
    | '-' :: '-' :: _ => .error .classOperation
    | '~' :: '~' :: _ => .error .classOperation
    | cs => do
      let (s, rest) ← readClassRange f cs
      readClassItems f fuel (s :: sets) rest

/-- Drops the dashes that open a class. -/
def readDashes (f : Flags) : (fuel : Nat) → List CharSet → List Char → List CharSet × List Char
  | fuel + 1, sets, '-' :: cs => readDashes f fuel (.single '-' :: sets) (f.skip cs)
  | _, sets, cs => (sets, cs)

/-- Reads a class; the form begins after its opening bracket. A bracket that would close an
    empty class belongs to it. -/
def readClass (f : Flags) (cs : List Char) : Except PatternFault (CharSet × List Char) := do
  let cs := f.skip cs
  let (negated, cs) :=
    match cs with
    | '^' :: cs => (true, f.skip cs)
    | cs => (false, cs)
  let (sets, cs) := readDashes f cs.length [] cs
  let (sets, cs) :=
    match sets, cs with
    | [], ']' :: cs => ([CharSet.single ']'], f.skip cs)
    | sets, cs => (sets, cs)
  let (sets, rest) ← readClassItems f (cs.length + 1) sets cs
  let s := CharSet.unions sets
  let s := if f.ignoreCase then s.foldCase else s
  return (if negated then s.complement else s, rest)

/-! ### Counts -/

/-- Reads the digits of a number. -/
def readDigits (f : Flags) : (fuel : Nat) → Option Nat → List Char → Option Nat × List Char
  | fuel + 1, value, c :: cs =>
    if c.isDigit then
      readDigits f fuel (some (value.getD 0 * 10 + (c.toNat - '0'.toNat))) (f.skip cs)
    else (value, c :: cs)
  | _, value, cs => (value, cs)

/-- Reads a number of 32 bits, with blanks around it. -/
def readCount (f : Flags) (cs : List Char) : Except PatternFault (Nat × List Char) :=
  let cs := cs.dropWhile Text.isBlank
  match readDigits f cs.length none cs with
  | (some n, rest) =>
    if n < 4294967296 then .ok (n, f.skip (rest.dropWhile Text.isBlank)) else .error .badCount
  | (none, _) => .error .badCount

/-- Reads the counts of a repetition; the form begins after the opening brace. -/
def readCounts (f : Flags) (cs : List Char) :
    Except PatternFault ((Nat × Option Nat) × List Char) := do
  let (min, cs) ← readCount f (f.skip cs)
  let (max, cs) ←
    match cs with
    | ',' :: cs =>
      match f.skip cs with
      | '}' :: cs => pure (none, '}' :: cs)
      | cs => do
        let (max, cs) ← readCount f cs
        pure (some max, cs)
    | cs => pure (some min, cs)
  match cs with
  | '}' :: cs =>
    let cs := f.skip cs
    let rest :=
      match cs with
      | '?' :: cs => cs
      | cs => cs
    match max with
    | some max => if max < min then throw .countsOutOfOrder else return ((min, some max), rest)
    | none => return ((min, none), rest)
  | _ => throw .badCount

/-! ### Groups -/

/-- Sets a flag. The flag `u` is accepted without effect; `U` only changes which match is
    preferred. -/
def Flags.set? (f : Flags) (flag : Char) (on : Bool) : Option Flags :=
  match flag with
  | 'i' => some { f with ignoreCase := on }
  | 'm' => some { f with multiLine := on }
  | 's' => some { f with dotAll := on }
  | 'x' => some { f with verbose := on }
  | 'R' => some { f with anyLineEnd := on }
  | 'U' | 'u' => some f
  | _ => none

/-- Reads flags up to the sign that ends them, a colon or a closing parenthesis. -/
def readFlags : (negated afterDash : Bool) → (seen : List Char) → Flags → List Char →
    Except PatternFault (Flags × List Char)
  | _, _, _, _, [] => .error .unclosedFlags
  | negated, afterDash, seen, f, c :: cs =>
    if c == ':' || c == ')' then
      if afterDash then .error .danglingNegation else .ok (f, c :: cs)
    else if c == '-' then
      if negated then .error .repeatedFlag else readFlags true true seen f cs
    else
      match f.set? c (!negated) with
      | none => .error .unknownFlag
      | some f =>
        if seen.contains c then .error .repeatedFlag
        else readFlags negated false (c :: seen) f cs

/-- Whether a group may have this name. -/
def isGroupName : List Char → Bool
  | [] => false
  | c :: cs =>
    (c == '_' || Text.isAlphabetic c) &&
      cs.all fun c => c == '_' || c == '.' || c == '[' || c == ']' || Text.isAlphanumeric c

/-- Reads a group name up to its closing angle bracket; `groups` has the names in use. -/
def readGroupName (groups : List (Option String)) (cs : List Char) :
    Except PatternFault (String × List Char) :=
  let name := cs.takeWhile (· != '>')
  match cs.dropWhile (· != '>') with
  | '>' :: rest =>
    if !isGroupName name then .error .badGroupName
    else if groups.contains (some (String.ofList name)) then .error .repeatedGroupName
    else .ok (String.ofList name, rest)
  | _ => .error .badGroupName

/-! ### Whole patterns -/

/-- How deeply groups and parts may be nested. -/
def nestingLimit : Nat := 50

/-- The piece of a dot. -/
def dot (f : Flags) : Piece :=
  .ofSet (
    if f.dotAll then .any
    else if f.anyLineEnd then .complement (.union (.single '\n') (.single '\r'))
    else .complement (.single '\n'))

/-- The piece of `^`. -/
def lineStart (f : Flags) : Piece :=
  .ofLook (if f.multiLine then (if f.anyLineEnd then .lineStartAny else .lineStart) else .start)

/-- The piece of `$`. -/
def lineFinish (f : Flags) : Piece :=
  .ofLook (
    if f.multiLine then (if f.anyLineEnd then .lineFinishAny else .lineFinish) else .finish)

/-- What a reader of alternatives has gathered: the alternatives that are complete and the
    pieces of the one being read, both latest first. It also holds the capturing groups that have
    been opened so far, latest first, each with its name if it has one. -/
structure Gathered where
  alternatives : List Piece := []
  pieces : List Piece := []
  groups : List (Option String) := []

namespace Gathered

/-- Adds a piece. -/
def push (g : Gathered) (p : Piece) : Gathered := { g with pieces := p :: g.pieces }

/-- Ends an alternative. -/
def split (g : Gathered) : Gathered :=
  { g with alternatives := .sequence g.pieces.reverse :: g.alternatives, pieces := [] }

/-- The piece of everything gathered. -/
def finish (g : Gathered) : Piece := .choice g.split.alternatives.reverse

/-- Repeats the latest piece. -/
def repeatLast (g : Gathered) (min : Nat) (max : Option Nat) : Except PatternFault Gathered :=
  match g.pieces with
  | [] => .error .nothingToRepeat
  | p :: ps => .ok { g with pieces := p.repeated min max :: ps }

end Gathered

/-- Drops the mark that asks for the shortest match; it does not change which texts match. -/
def dropLazyMark : List Char → List Char
  | '?' :: cs => cs
  | cs => cs

/-- Reads alternatives up to the end of the form or to a closing parenthesis, which is left. -/
def readAlternatives : (fuel depth : Nat) → Flags → Gathered → List Char →
    Except PatternFault (Gathered × List Char)
  | 0, _, _, _, _ => .error .nestedTooDeeply
  | fuel + 1, depth, f, g, cs =>
    match f.skip cs with
    | [] => .ok (g, [])
    | ')' :: cs => if depth ≤ 1 then .error .unopenedGroup else .ok (g, ')' :: cs)
    | '|' :: cs => readAlternatives fuel depth f g.split cs
    | '(' :: cs => do
      -- a group of its own begins with nothing gathered, but knows the capturing groups
      let inner (f : Flags) (groups : List (Option String)) (cs : List Char) :
          Except PatternFault (Gathered × List Char) :=
        if nestingLimit < depth then .error .nestedTooDeeply
        else readAlternatives fuel (depth + 1) f { groups } cs
      let close (f : Flags) (g : Gathered) (cs : List Char) :=
        match cs with
        | ')' :: cs => readAlternatives fuel depth f g cs
        | _ => .error .unclosedGroup
      let capture (name? : Option String) (cs : List Char) := do
        let groups := name? :: g.groups
        let (sub, cs) ← inner f groups cs
        close f { g.push (sub.finish.group groups.length name?) with groups := sub.groups } cs
      match f.skip cs with
      | '?' :: '=' :: _ | '?' :: '!' :: _ | '?' :: '<' :: '=' :: _ | '?' :: '<' :: '!' :: _ =>
        .error .lookAround
      | '?' :: 'P' :: '<' :: cs | '?' :: '<' :: cs => do
        let (name, cs) ← readGroupName g.groups cs
        capture (some name) cs
      | '?' :: cs => do
        if cs.isEmpty then throw .unclosedGroup
        let (f', rest) ← readFlags false false [] f cs
        match rest with
        | ':' :: rest => do
          let (sub, cs) ← inner f' g.groups rest
          close f { g.push sub.finish with groups := sub.groups } cs
        | rest => if rest.length = cs.length then throw .emptyFlags else close f' g rest
      | cs => capture none cs
    | '[' :: cs => do
      let (s, cs) ← readClass f cs
      readAlternatives fuel depth f (g.push (.ofSet s)) cs
    | '?' :: cs => do readAlternatives fuel depth f (← g.repeatLast 0 (some 1)) (dropLazyMark cs)
    | '*' :: cs => do readAlternatives fuel depth f (← g.repeatLast 0 none) (dropLazyMark cs)
    | '+' :: cs => do readAlternatives fuel depth f (← g.repeatLast 1 none) (dropLazyMark cs)
    | '{' :: cs => do
      if g.pieces.isEmpty then throw .nothingToRepeat
      let ((min, max), cs) ← readCounts f cs
      readAlternatives fuel depth f (← g.repeatLast min max) cs
    | '\\' :: cs => do
      let (e, cs) ← readEscape f cs
      readAlternatives fuel depth f (g.push e.piece) cs
    | '.' :: cs => readAlternatives fuel depth f (g.push (dot f)) cs
    | '^' :: cs => readAlternatives fuel depth f (g.push (lineStart f)) cs
    | '$' :: cs => readAlternatives fuel depth f (g.push (lineFinish f)) cs
    | c :: cs => readAlternatives fuel depth f (g.push (literal f c).piece) cs

/-- Reads the written form of a pattern. -/
def read (text : String) : Except PatternFault Pattern := do
  let cs := text.toList
  let (g, _) ← readAlternatives (cs.length + 1) 1 {} {} cs
  let piece := g.finish
  if nestingLimit < piece.height then throw .nestedTooDeeply
  if Piece.machineLimit < piece.machineBytes then throw .tooLarge
  return piece.pattern

end Pattern

end ManagedModel
