/-! # Phrases

    A phrase is a form of text to look for, with the parts of it that are kept.

    * A text may begin with a phrase in several ways. `Phrase.readings` lists
      them in order of preference; the first one counts.
    * `Phrase.find?` gives the leftmost place where a phrase stands, and
      `Phrase.findAll` all places from left to right. A search goes on behind
      the text that was read before, so no character is read twice.
    * `Phrase.whole_append_rest`: a reading takes the text apart into what is
      read and what stands behind it.
    * `Phrase.minLength_le_length_whole`: it takes at least the least number
      of characters of the phrase. -/

namespace ManagedModel

/-- A form of text to look for. -/
inductive Phrase where
  /-- The given characters. -/
  | text (cs : List Char)
  /-- Any number of characters other than the given ones, rather more than fewer. -/
  | run (stops : List Char)
  /-- One phrase after the other. -/
  | concat (p q : Phrase)
  /-- The first phrase, or else the second. -/
  | either (p q : Phrase)
  /-- The phrase, of which the text is kept under the number. -/
  | part (number : Nat) (p : Phrase)

namespace Phrase

/-- The phrase, or else nothing. -/
def optional (p : Phrase) : Phrase := either p (text [])

/-- The least number of characters that the phrase takes. -/
def minLength : Phrase → Nat
  | text cs => cs.length
  | run _ => 0
  | concat p q => p.minLength + q.minLength
  | either p q => min p.minLength q.minLength
  | part _ p => p.minLength

/-! ### Reading at one place -/

/-- A way to read a phrase at the beginning of a text. -/
structure Reading where
  /-- The text of the phrase. -/
  whole : List Char
  /-- The parts that are kept, with their numbers. -/
  parts : List (Nat × List Char)
  /-- The text behind the phrase. -/
  rest : List Char

namespace Reading

/-- The part kept under a number, if the reading has it. -/
def part? (r : Reading) (number : Nat) : Option (List Char) := r.parts.lookup number

/-- The reading with its text kept under a number. -/
def keep (number : Nat) (r : Reading) : Reading :=
  { r with parts := (number, r.whole) :: r.parts }

/-- The reading with one more character in front. -/
def cons (c : Char) (r : Reading) : Reading := { r with whole := c :: r.whole }

/-- A reading followed by a reading of the text behind it. -/
def andThen (r s : Reading) : Reading := ⟨r.whole ++ s.whole, r.parts ++ s.parts, s.rest⟩

end Reading

/-- The ways to take characters other than the given ones from a text, the longest first. -/
def runs (stops : List Char) : List Char → List Reading
  | [] => [⟨[], [], []⟩]
  | c :: cs =>
    if c ∈ stops then [⟨[], [], c :: cs⟩]
    else (runs stops cs).map (Reading.cons c) ++ [⟨[], [], c :: cs⟩]

/-- The ways to read the phrase at the beginning of a text, in order of preference. -/
def readings : Phrase → List Char → List Reading
  | text ws, cs => if ws.isPrefixOf cs then [⟨ws, [], cs.drop ws.length⟩] else []
  | run stops, cs => runs stops cs
  | concat p q, cs => (p.readings cs).flatMap fun r => (q.readings r.rest).map r.andThen
  | either p q, cs => p.readings cs ++ q.readings cs
  | part number p, cs => (p.readings cs).map (·.keep number)

theorem whole_append_rest_of_mem_runs {stops cs : List Char} {r : Reading}
    (h : r ∈ runs stops cs) : r.whole ++ r.rest = cs := by
  induction cs generalizing r with
  | nil =>
    obtain rfl : r = ⟨[], [], []⟩ := List.mem_singleton.1 h
    rfl
  | cons c cs ih =>
    rw [runs] at h
    split at h
    · obtain rfl : r = ⟨[], [], c :: cs⟩ := List.mem_singleton.1 h
      rfl
    · rcases List.mem_append.1 h with hmore | hnone
      · obtain ⟨r', hr', rfl⟩ := List.mem_map.1 hmore
        exact congrArg (c :: ·) (ih hr')
      · obtain rfl : r = ⟨[], [], c :: cs⟩ := List.mem_singleton.1 hnone
        rfl

theorem whole_append_rest {p : Phrase} {cs : List Char} {r : Reading} (h : r ∈ p.readings cs) :
    r.whole ++ r.rest = cs := by
  induction p generalizing cs r with
  | text ws =>
    rw [readings] at h
    split at h
    · next hbegins =>
      obtain rfl : r = ⟨ws, [], cs.drop ws.length⟩ := List.mem_singleton.1 h
      exact List.prefix_iff_eq_append.1 (List.isPrefixOf_iff_prefix.1 hbegins)
    · cases h
  | run stops => exact whole_append_rest_of_mem_runs h
  | concat p q ihp ihq =>
    obtain ⟨first, hfirst, h⟩ := List.mem_flatMap.1 h
    obtain ⟨second, hsecond, rfl⟩ := List.mem_map.1 h
    calc (first.andThen second).whole ++ (first.andThen second).rest
        = first.whole ++ (second.whole ++ second.rest) := List.append_assoc ..
      _ = first.whole ++ first.rest := by rw [ihq hsecond]
      _ = cs := ihp hfirst
  | either p q ihp ihq =>
    rcases List.mem_append.1 h with h | h
    · exact ihp h
    · exact ihq h
  | part number p ih =>
    obtain ⟨r', hr', rfl⟩ := List.mem_map.1 h
    exact ih (r := r') hr'

theorem minLength_le_length_whole {p : Phrase} {cs : List Char} {r : Reading}
    (h : r ∈ p.readings cs) : p.minLength ≤ r.whole.length := by
  induction p generalizing cs r with
  | text ws =>
    rw [readings] at h
    split at h
    · obtain rfl : r = ⟨ws, [], cs.drop ws.length⟩ := List.mem_singleton.1 h
      exact Nat.le_refl _
    · cases h
  | run stops => exact Nat.zero_le _
  | concat p q ihp ihq =>
    obtain ⟨first, hfirst, h⟩ := List.mem_flatMap.1 h
    obtain ⟨second, hsecond, rfl⟩ := List.mem_map.1 h
    have hadd := Nat.add_le_add (ihp hfirst) (ihq hsecond)
    rw [← List.length_append] at hadd
    exact hadd
  | either p q ihp ihq =>
    rcases List.mem_append.1 h with h | h
    · exact Nat.le_trans (Nat.min_le_left ..) (ihp h)
    · exact Nat.le_trans (Nat.min_le_right ..) (ihq h)
  | part number p ih =>
    obtain ⟨r', hr', rfl⟩ := List.mem_map.1 h
    exact ih (r := r') hr'

/-! ### Searching -/

/-- The leftmost place where the phrase stands: the text before it, and how it is read there. -/
def find? (p : Phrase) : List Char → Option (List Char × Reading)
  | [] => (p.readings []).head?.map fun r => ([], r)
  | c :: cs =>
    match p.readings (c :: cs) with
    | r :: _ => some ([], r)
    | [] => (find? p cs).map fun (before, r) => (c :: before, r)

theorem find?_of_readings {p : Phrase} {cs : List Char} {r : Reading} {rs : List Reading}
    (h : p.readings cs = r :: rs) : p.find? cs = some ([], r) := by
  cases cs with
  | nil => rw [find?, h]; rfl
  | cons c cs => rw [find?, h]

theorem find?_cons {p : Phrase} {c : Char} {cs : List Char} (h : p.readings (c :: cs) = []) :
    p.find? (c :: cs) = (p.find? cs).map fun (before, r) => (c :: before, r) := by
  rw [find?, h]

theorem exists_of_find? {p : Phrase} {cs before : List Char} {r : Reading}
    (h : p.find? cs = some (before, r)) : ∃ place, cs = before ++ place ∧ r ∈ p.readings place := by
  induction cs generalizing before with
  | nil =>
    obtain ⟨r', hr', he⟩ := Option.map_eq_some_iff.1 h
    cases he
    exact ⟨[], rfl, List.mem_of_head? hr'⟩
  | cons c cs ih =>
    rw [find?] at h
    split at h
    · next r' rs hreadings =>
      cases h
      exact ⟨c :: cs, rfl, hreadings ▸ List.mem_cons_self⟩
    · obtain ⟨⟨before', r'⟩, h', he⟩ := Option.map_eq_some_iff.1 h
      cases he
      obtain ⟨place, rfl, hr⟩ := ih h'
      exact ⟨place, rfl, hr⟩

/-- What stands behind the place is shorter than the text by the length of the phrase. -/
theorem length_rest_lt_of_find? {p : Phrase} (hp : 0 < p.minLength) {cs before : List Char}
    {r : Reading} (h : p.find? cs = some (before, r)) : r.rest.length < cs.length := by
  obtain ⟨place, rfl, hr⟩ := exists_of_find? h
  have hwhole := minLength_le_length_whole hr
  rw [← whole_append_rest hr, List.length_append, List.length_append]
  omega

/-- All places where the phrase stands, each with the text since the one before, and the text
    behind the last of them. The phrase must take a character at least, or the search would stay
    at its place. -/
def findAll (p : Phrase) (hp : 0 < p.minLength) (cs : List Char) :
    List (List Char × Reading) × List Char :=
  match h : p.find? cs with
  | none => ([], cs)
  | some (before, r) =>
    have := length_rest_lt_of_find? hp h
    let (found, last) := findAll p hp r.rest
    ((before, r) :: found, last)
termination_by cs.length

theorem findAll_of_find?_eq_none {p : Phrase} (hp : 0 < p.minLength) {cs : List Char}
    (h : p.find? cs = none) : p.findAll hp cs = ([], cs) := by
  rw [findAll]
  split
  · rfl
  · next hsome =>
    rw [h] at hsome
    cases hsome

theorem findAll_of_find?_eq_some {p : Phrase} (hp : 0 < p.minLength) {cs before : List Char}
    {r : Reading} (h : p.find? cs = some (before, r)) :
    p.findAll hp cs = ((before, r) :: (p.findAll hp r.rest).1, (p.findAll hp r.rest).2) := by
  rw [findAll]
  split
  · next hnone =>
    rw [h] at hnone
    cases hnone
  · next hsome =>
    rw [h] at hsome
    cases hsome
    rfl

end Phrase

end ManagedModel
