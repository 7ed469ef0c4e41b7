import ManagedModel.Expression

/-! # The language of expressions

    An expression is resolved by finding its placeholders and then checking the
    text between them. Its language is told without a search: read from left to
    right, a text comes apart into characters and references, and each of them
    has a text or a complaint of its own.

    * `segments` reads a text from left to right; it never fails.
    * `readings_reference` says how a reference is read where one is opened:
      up to the first closing brace, with names up to the first colon in
      between, and in one way only.
    * `resolveText_eq`: both ways come to the same. Where no brace closes a
      reference, the search goes on behind its opening; the opening is then
      left in the text before the next placeholder, which is refused.
    * `resolve_by_segments`: an expression resolves if and only if all its
      segments are sound, to what they stand for, and otherwise the complaint
      is that of the first one that is not. -/

namespace ManagedModel

namespace Expression

/-! ### Reading from left to right -/

/-- A part of an expression. -/
inductive Segment where
  /-- A character that stands for itself. -/
  | literal (c : Char)
  /-- A reference to the first of the names that is set, or else to the default. -/
  | reference (names : List (List Char)) (default? : Option (List Char))
  /-- A reference that is opened and not closed. -/
  | unterminated
deriving DecidableEq

/-- The text before the first mark and the text after it, if there is one. -/
def cut? (mark : Char) : List Char → Option (List Char × List Char)
  | [] => none
  | c :: cs =>
    if c = mark then some ([], cs)
    else (cut? mark cs).map fun (front, back) => (c :: front, back)

theorem append_of_cut? {mark : Char} {cs front back : List Char}
    (h : cut? mark cs = some (front, back)) : cs = front ++ mark :: back ∧ mark ∉ front := by
  induction cs generalizing front with
  | nil => cases h
  | cons c cs ih =>
    unfold cut? at h
    split at h
    · next hc =>
      cases h
      exact ⟨by rw [hc]; rfl, List.not_mem_nil⟩
    · next hc =>
      obtain ⟨⟨front', back'⟩, h', he⟩ := Option.map_eq_some_iff.1 h
      cases he
      obtain ⟨rfl, hfront⟩ := ih h'
      exact ⟨rfl, List.not_mem_cons_of_ne_of_not_mem (Ne.symm hc) hfront⟩

theorem not_mem_of_cut? {mark : Char} {cs : List Char} (h : cut? mark cs = none) : mark ∉ cs := by
  induction cs with
  | nil => exact List.not_mem_nil
  | cons c cs ih =>
    unfold cut? at h
    split at h
    · cases h
    · next hc =>
      exact List.not_mem_cons_of_ne_of_not_mem (Ne.symm hc) (ih (Option.map_eq_none_iff.1 h))

theorem length_of_cut? {mark : Char} {cs front back : List Char}
    (h : cut? mark cs = some (front, back)) : back.length < cs.length := by
  rw [(append_of_cut? h).1, List.length_append, List.length_cons]
  omega

/-- The reference with the given text between its braces: names up to the first colon, and a
    default after it. -/
def Segment.ofBody (body : List Char) : Segment :=
  match cut? ':' body with
  | some (names, dflt) => .reference ((splitOn ',' names).map Text.trim) (some dflt)
  | none => .reference ((splitOn ',' body).map Text.trim) none

/-- The parts of an expression, from left to right. -/
def segments : List Char → List Segment
  | [] => []
  | '$' :: '$' :: '{' :: cs => .literal '$' :: .literal '{' :: segments cs
  | '$' :: '{' :: cs =>
    match h : cut? '}' cs with
    | some (body, rest) =>
      have := length_of_cut? h
      .ofBody body :: segments rest
    | none => [.unterminated]
  | c :: cs => .literal c :: segments cs
termination_by cs => cs.length

/-- The text of a segment. -/
def resolveSegment (lookup : String → Option String) : Segment → Except ResolutionFault (List Char)
  | .literal c => .ok [c]
  | .reference names default? => resolveReference lookup names default?
  | .unterminated => .error .unterminated

/-- The text of a list of segments, or the fault of the first segment that has none. -/
def resolveSegments (lookup : String → Option String) :
    List Segment → Except ResolutionFault (List Char)
  | [] => .ok []
  | s :: rest => do
    let text ← resolveSegment lookup s
    let texts ← resolveSegments lookup rest
    return text ++ texts

theorem resolveSegments_literal_cons (lookup : String → Option String) (c : Char)
    (ss : List Segment) :
    resolveSegments lookup (.literal c :: ss) = (resolveSegments lookup ss).map (c :: ·) := by
  rw [resolveSegments]
  cases resolveSegments lookup ss with
  | error cause => rfl
  | ok texts => rfl

/-! ### Readings of phrases -/

open Phrase (Reading runs readings)

/-- A single character is read where it stands. -/
theorem readings_text_singleton (w c : Char) (cs : List Char) :
    (Phrase.text [w]).readings (c :: cs) = if w = c then [⟨[w], [], cs⟩] else [] := by
  simp [readings]

theorem readings_concat_text (ws : List Char) (q : Phrase) (cs : List Char) :
    (Phrase.concat (.text ws) q).readings (ws ++ cs) =
      (q.readings cs).map (Reading.andThen ⟨ws, [], cs⟩) := by
  simp [readings]

theorem readings_concat_text_of_not {ws : List Char} (q : Phrase) {cs : List Char}
    (h : ¬ ws <+: cs) : (Phrase.concat (.text ws) q).readings cs = [] := by
  simp [readings, h]

theorem andThen_andThen (r s : Reading) : (r.andThen s).andThen = r.andThen ∘ s.andThen := by
  funext t
  simp only [Reading.andThen, Function.comp_apply, List.append_assoc]

theorem readings_concat_assoc (p q s : Phrase) (cs : List Char) :
    (Phrase.concat (.concat p q) s).readings cs = (Phrase.concat p (.concat q s)).readings cs := by
  simp only [readings, List.flatMap_assoc, List.flatMap_map, List.map_flatMap, andThen_andThen,
    List.map_map]
  rfl

/-- What may be left out is preferred to leaving it out. -/
theorem readings_concat_optional (p q : Phrase) (cs : List Char) :
    (Phrase.concat (.optional p) q).readings cs =
      (Phrase.concat p q).readings cs ++ q.readings cs := by
  have hnothing : Reading.andThen ⟨[], [], cs⟩ = id := rfl
  simp [readings, Phrase.optional, hnothing]

/-- If nothing can follow where another character might have been taken, only the longest run
    counts. -/
theorem flatMap_runs {stops front back : List Char} {f : Reading → List Reading}
    (hfront : ∀ c ∈ front, c ∉ stops) (hback : ∀ c ∈ back.head?, c ∈ stops)
    (hf : ∀ whole parts, ∀ c ∉ stops, ∀ cs, f ⟨whole, parts, c :: cs⟩ = []) :
    (runs stops (front ++ back)).flatMap f = f ⟨front, [], back⟩ := by
  induction front generalizing f with
  | nil =>
    cases back with
    | nil => exact List.flatMap_singleton ..
    | cons c back =>
      rw [List.nil_append, runs, if_pos (hback c rfl)]
      exact List.flatMap_singleton ..
  | cons c front ih =>
    obtain ⟨hc, hfront⟩ := List.forall_mem_cons.1 hfront
    have hlonger := ih (f := fun r => f (r.cons c)) hfront fun whole parts => hf (c :: whole) parts
    rw [List.cons_append, runs, if_neg hc, List.flatMap_append, List.flatMap_map, hlonger,
      List.flatMap_singleton, hf _ _ c hc, List.append_nil]
    rfl

theorem readings_concat_run {stops front back : List Char} {q : Phrase} (number : Nat)
    (hfront : ∀ c ∈ front, c ∉ stops) (hback : ∀ c ∈ back.head?, c ∈ stops)
    (hq : ∀ c ∉ stops, ∀ cs, q.readings (c :: cs) = []) :
    (Phrase.concat (.part number (.run stops)) q).readings (front ++ back) =
      (q.readings back).map (Reading.andThen ⟨front, [(number, front)], back⟩) := by
  rw [readings, readings, readings, List.flatMap_map]
  refine flatMap_runs (f := fun r => (q.readings r.rest).map (r.keep number).andThen)
    hfront hback ?_
  intro whole parts c hc cs
  rw [hq c hc, List.map_nil]

/-! ### Readings of a reference -/

theorem readings_closing_of_ne {c : Char} (h : c ≠ ':') (cs : List Char) :
    closing.readings (c :: cs) = (Phrase.text ['}']).readings (c :: cs) := by
  have hcolon : ¬ [':'] <+: c :: cs := by simpa using Ne.symm h
  rw [closing, readings_concat_optional, readings_concat_assoc,
    readings_concat_text_of_not _ hcolon, List.nil_append]

theorem readings_closing_of_brace (rest : List Char) :
    closing.readings ('}' :: rest) = [⟨['}'], [], rest⟩] := by
  rw [readings_closing_of_ne (by decide), readings_text_singleton, if_pos rfl]

theorem readings_closing_of_colon {dflt : List Char} (h : '}' ∉ dflt) (rest : List Char) :
    closing.readings (':' :: (dflt ++ '}' :: rest)) =
      [⟨':' :: (dflt ++ ['}']), [(2, dflt)], rest⟩] := by
  have hdflt : ∀ c ∈ dflt, c ∉ ['}'] := by
    intro c hc hbrace
    exact h (List.mem_singleton.1 hbrace ▸ hc)
  have hother : ∀ c ∉ ['}'], ∀ cs, (Phrase.text ['}']).readings (c :: cs) = [] := by
    intro c hc cs
    have hne : '}' ≠ c := fun he => hc (List.mem_singleton.2 he.symm)
    rw [readings_text_singleton, if_neg hne]
  rw [closing, readings_concat_optional, readings_concat_assoc, readings_text_singleton,
    if_neg (by decide), List.append_nil]
  have hcolon := readings_concat_text [':'] (.concat (.part 2 (.run ['}'])) (.text ['}']))
    (dflt ++ '}' :: rest)
  rw [readings_concat_run 2 hdflt (by simp) hother, readings_text_singleton, if_pos rfl] at hcolon
  exact hcolon

theorem readings_closing_of_other {c : Char} (h : c ∉ ['}', ':']) (cs : List Char) :
    closing.readings (c :: cs) = [] := by
  obtain ⟨hbrace, hcolon⟩ : c ≠ '}' ∧ c ≠ ':' := by simpa using h
  rw [readings_closing_of_ne hcolon, readings_text_singleton, if_neg (Ne.symm hbrace)]

/-- What every text of the second phrase has, every text has that both are read in. -/
theorem mem_of_mem_readings_concat {c : Char} (p : Phrase) {q : Phrase}
    (hq : ∀ cs, ∀ r ∈ q.readings cs, c ∈ cs) :
    ∀ cs, ∀ r ∈ (Phrase.concat p q).readings cs, c ∈ cs := by
  intro cs r hr
  obtain ⟨first, hfirst, hr⟩ := List.mem_flatMap.1 hr
  obtain ⟨second, hsecond, -⟩ := List.mem_map.1 hr
  rw [← Phrase.whole_append_rest hfirst]
  exact List.mem_append_right _ (hq _ _ hsecond)

/-- No reference is read where no brace closes it. -/
theorem readings_reference_of_not_mem {cs : List Char} (h : '}' ∉ cs) :
    reference.readings cs = [] := by
  have hbrace : ∀ cs, ∀ r ∈ (Phrase.text ['}']).readings cs, '}' ∈ cs := by
    intro cs r hr
    cases cs with
    | nil => simp [readings] at hr
    | cons c cs =>
      rw [readings_text_singleton] at hr
      split at hr
      · next hc => exact hc ▸ List.mem_cons_self
      · cases hr
  have hreference : ∀ cs, ∀ r ∈ reference.readings cs, '}' ∈ cs :=
    mem_of_mem_readings_concat _ (mem_of_mem_readings_concat _
      (mem_of_mem_readings_concat _ hbrace))
  exact List.eq_nil_iff_forall_not_mem.2 fun r hr => h (hreference cs r hr)

/-- The names of a reference go up to the first colon or brace. -/
theorem readings_reference_append {names back : List Char} (hbrace : '}' ∉ names)
    (hcolon : ':' ∉ names) (hback : ∀ c ∈ back.head?, c ∈ ['}', ':']) :
    reference.readings ('$' :: '{' :: (names ++ back)) =
      (closing.readings back).map
        (Reading.andThen ⟨'$' :: '{' :: names, [(1, names)], back⟩) := by
  have hnames : ∀ c ∈ names, c ∉ ['}', ':'] := by
    intro c hc hstop
    rcases List.mem_cons.1 hstop with rfl | hstop
    · exact hbrace hc
    · exact hcolon (List.mem_singleton.1 hstop ▸ hc)
  have hopening := readings_concat_text ['$', '{'] (.concat (.part 1 (.run ['}', ':'])) closing)
    (names ++ back)
  rw [readings_concat_run 1 hnames hback fun c hc cs => readings_closing_of_other hc cs,
    List.map_map, ← andThen_andThen] at hopening
  exact hopening

/-- The reading of a reference with the given text between its braces. -/
def readingOfBody (body rest : List Char) : Reading where
  whole := '$' :: '{' :: (body ++ ['}'])
  parts :=
    match cut? ':' body with
    | some (names, dflt) => [(1, names), (2, dflt)]
    | none => [(1, body)]
  rest := rest

/-- Where a reference is opened, it ends at the first brace; its names end at the first colon. -/
theorem readings_reference {cs body rest : List Char} (h : cut? '}' cs = some (body, rest)) :
    reference.readings ('$' :: '{' :: cs) = [readingOfBody body rest] := by
  obtain ⟨rfl, hbrace⟩ := append_of_cut? h
  unfold readingOfBody
  cases hcut : cut? ':' body with
  | none =>
    rw [readings_reference_append hbrace (not_mem_of_cut? hcut) (by simp),
      readings_closing_of_brace]
    rfl
  | some halves =>
    obtain ⟨names, dflt⟩ := halves
    obtain ⟨rfl, hcolon⟩ := append_of_cut? hcut
    obtain ⟨hnames, hback⟩ := not_or.1 (mt List.mem_append.2 hbrace)
    have hdflt : '}' ∉ dflt := fun hmem => hback (List.mem_cons_of_mem _ hmem)
    rw [List.append_assoc, readings_reference_append hnames hcolon (by simp), List.cons_append,
      readings_closing_of_colon hdflt]
    simp [Reading.andThen]

/-! ### Readings of a placeholder -/

theorem readings_placeholder_of_escaped (cs : List Char) :
    placeholder.readings ('$' :: '$' :: '{' :: cs) = [⟨escapedOpening, [], cs⟩] := by
  have hreference : reference.readings ('$' :: '$' :: '{' :: cs) = [] :=
    readings_concat_text_of_not _ (by simp)
  simp [placeholder, readings, escapedOpening, hreference]

theorem readings_placeholder_of_opening (cs : List Char) :
    placeholder.readings ('$' :: '{' :: cs) = reference.readings ('$' :: '{' :: cs) := by
  simp [placeholder, readings, escapedOpening]

/-- A placeholder begins with the opening of a reference, or with an escaped one. -/
theorem readings_placeholder_of_not {cs : List Char} (hescaped : ¬ escapedOpening <+: cs)
    (hopening : ¬ ['$', '{'] <+: cs) : placeholder.readings cs = [] := by
  have hreference : reference.readings cs = [] := readings_concat_text_of_not _ hopening
  simp [placeholder, readings, hescaped, hreference]

/-! ### One place after the other -/

/-- Where nothing else is found, the text is literal. -/
theorem resolveText_of_find?_eq_none (lookup : String → Option String) {cs : List Char}
    (h : placeholder.find? cs = none) : resolveText lookup cs = literalText cs := by
  rw [resolveText, Phrase.findAll_of_find?_eq_none _ h]
  rfl

/-- What is found first is resolved first, and then the text behind it. -/
theorem resolveText_of_find?_eq_some (lookup : String → Option String) {cs before : List Char}
    {r : Reading} (h : placeholder.find? cs = some (before, r)) :
    resolveText lookup cs = (do
      let text ← literalText before
      let value ← resolvePlaceholder lookup r
      let texts ← resolveText lookup r.rest
      return text ++ value ++ texts) := by
  rw [resolveText, Phrase.findAll_of_find?_eq_some _ h]
  rfl

/-- A placeholder at the beginning of a text is replaced. -/
theorem resolveText_of_readings (lookup : String → Option String) {cs : List Char} {r : Reading}
    {rs : List Reading} (h : placeholder.readings cs = r :: rs) :
    resolveText lookup cs = (do
      let value ← resolvePlaceholder lookup r
      let texts ← resolveText lookup r.rest
      return value ++ texts) :=
  resolveText_of_find?_eq_some lookup (Phrase.find?_of_readings h)

theorem not_opening_cons {c : Char} {cs : List Char}
    (h : ∀ rest, c = '$' → cs = '{' :: rest → False) : ¬ ['$', '{'] <+: c :: cs := by
  rintro ⟨rest, he⟩
  cases he
  exact h rest rfl rfl

theorem opensReference_cons {c : Char} {cs : List Char} (h : ¬ ['$', '{'] <+: c :: cs) :
    opensReference (c :: cs) = opensReference cs := by
  rw [opensReference]
  rintro rest rfl rfl
  exact h ⟨rest, rfl⟩

theorem literalText_cons {c : Char} {cs : List Char} (h : ¬ ['$', '{'] <+: c :: cs) :
    literalText (c :: cs) = (literalText cs).map (c :: ·) := by
  unfold literalText
  rw [opensReference_cons h]
  split <;> rfl

/-- A character that opens nothing stands for itself. -/
theorem resolveText_cons (lookup : String → Option String) {c : Char} {cs : List Char}
    (hreadings : placeholder.readings (c :: cs) = []) (hopening : ¬ ['$', '{'] <+: c :: cs) :
    resolveText lookup (c :: cs) = (resolveText lookup cs).map (c :: ·) := by
  have hfind := Phrase.find?_cons hreadings
  cases h : placeholder.find? cs with
  | none =>
    rw [h] at hfind
    rw [resolveText_of_find?_eq_none lookup hfind, resolveText_of_find?_eq_none lookup h,
      literalText_cons hopening]
  | some found =>
    obtain ⟨before, r⟩ := found
    rw [h] at hfind
    obtain ⟨place, rfl, -⟩ := Phrase.exists_of_find? h
    -- the text before the next placeholder opens a reference only if the whole text does
    have hbefore : ¬ ['$', '{'] <+: c :: before :=
      fun hopens => hopening (hopens.trans (List.prefix_append (c :: before) place))
    rw [resolveText_of_find?_eq_some lookup hfind, resolveText_of_find?_eq_some lookup h,
      literalText_cons hbefore]
    cases literalText before with
    | error cause => rfl
    | ok text =>
      cases resolvePlaceholder lookup r with
      | error cause => rfl
      | ok value =>
        cases resolveText lookup r.rest with
        | error cause => rfl
        | ok texts => rfl

/-- Where a reference is opened and not closed, its opening is left in the text before the next
    placeholder. -/
theorem resolveText_of_not_mem (lookup : String → Option String) {cs : List Char}
    (h : '}' ∉ cs) : resolveText lookup ('$' :: '{' :: cs) = .error .unterminated := by
  have hrefused : ∀ text, literalText ('$' :: '{' :: text) = .error .unterminated :=
    fun text => if_pos rfl
  have hdollar : placeholder.readings ('$' :: '{' :: cs) = [] := by
    rw [readings_placeholder_of_opening]
    exact readings_reference_of_not_mem (by simpa using h)
  have hbrace : placeholder.readings ('{' :: cs) = [] :=
    readings_placeholder_of_not (by simp [escapedOpening]) (by simp)
  have hfind := Phrase.find?_cons hdollar
  rw [Phrase.find?_cons hbrace] at hfind
  cases hnext : placeholder.find? cs with
  | none =>
    rw [hnext] at hfind
    rw [resolveText_of_find?_eq_none lookup hfind]
    exact hrefused cs
  | some found =>
    obtain ⟨before, r⟩ := found
    rw [hnext] at hfind
    rw [resolveText_of_find?_eq_some lookup hfind, hrefused before]
    rfl

/-! ### Both ways come to the same -/

theorem resolvePlaceholder_readingOfBody (lookup : String → Option String)
    (body rest : List Char) :
    resolvePlaceholder lookup (readingOfBody body rest) =
      resolveSegment lookup (.ofBody body) := by
  have hwhole : (readingOfBody body rest).whole ≠ escapedOpening := by
    simp [readingOfBody, escapedOpening]
  rw [resolvePlaceholder, if_neg hwhole, Segment.ofBody]
  cases hcut : cut? ':' body with
  | none =>
    simp only [readingOfBody, hcut]
    rfl
  | some halves =>
    simp only [readingOfBody, hcut]
    rfl

/-- Finding placeholders and reading from left to right come to the same. -/
theorem resolveText_eq (lookup : String → Option String) (cs : List Char) :
    resolveText lookup cs = resolveSegments lookup (segments cs) := by
  induction cs using segments.induct with
  | case1 =>
    rw [segments]
    exact resolveText_of_find?_eq_none lookup (by decide)
  | case2 cs ih =>
    rw [resolveText_of_readings lookup (readings_placeholder_of_escaped cs), segments, ih,
      resolveSegments_literal_cons, resolveSegments_literal_cons, resolvePlaceholder, if_pos rfl]
    cases resolveSegments lookup (segments cs) with
    | error cause => rfl
    | ok texts => rfl
  | case3 cs body rest h hlt ih =>
    have hreading := (readings_placeholder_of_opening cs).trans (readings_reference h)
    rw [resolveText_of_readings lookup hreading, resolvePlaceholder_readingOfBody, segments]
    split
    · next hcut =>
      rw [h] at hcut
      cases hcut
      rw [resolveSegments, ← ih]
      rfl
    · next hcut =>
      rw [h] at hcut
      cases hcut
  | case4 cs h =>
    rw [resolveText_of_not_mem lookup (not_mem_of_cut? h), segments]
    split
    · next hcut =>
      rw [h] at hcut
      cases hcut
    · rfl
  | case5 c cs hescaped hopening ih =>
    have hnot : ¬ ['$', '{'] <+: c :: cs := not_opening_cons hopening
    have hnot' : ¬ escapedOpening <+: c :: cs := by
      rintro ⟨rest, he⟩
      cases he
      exact hescaped _ rfl rfl
    rw [resolveText_cons lookup (readings_placeholder_of_not hnot' hnot) hnot, ih, segments,
      resolveSegments_literal_cons]
    · exact hescaped
    · exact hopening

theorem resolve_eq (lookup : String → Option String) (text : String) :
    resolve lookup text =
      match resolveSegments lookup (segments text.toList) with
      | .ok cs => .ok (String.ofList cs)
      | .error cause => .error (.resolution text cause) := by
  cases h : resolveSegments lookup (segments text.toList) with
  | ok cs => simp only [resolve, resolveText_eq, h]
  | error cause => simp only [resolve, resolveText_eq, h]

/-! ### What segments stand for -/

namespace Segment

variable (lookup : String → Option String)

/-- Whether a segment has a text: a reference is closed, none of its names is empty, and some name
    is set or a default is given. -/
def Sound : Segment → Prop
  | literal _ => True
  | reference names default? =>
    [] ∉ names ∧ ((∃ name ∈ names, lookup (String.ofList name) ≠ none) ∨ default? ≠ none)
  | unterminated => False

/-- What a sound segment stands for: the character, the value of the first name that is set, or
    else the default. -/
def text : Segment → List Char
  | literal c => [c]
  | reference names default? =>
    match names.findSome? fun name => lookup (String.ofList name) with
    | some value => value.toList
    | none => default?.getD []
  | unterminated => []

/-- What is wrong with a segment that is not sound. -/
def complaint : Segment → String
  | literal _ => ""
  | reference names _ =>
    if [] ∈ names then "empty property name"
    else "no such property: " ++ ",".intercalate (names.map String.ofList)
  | unterminated => "unterminated expression"

end Segment

variable (lookup : String → Option String)

theorem any_isEmpty_iff (names : List (List Char)) :
    names.any List.isEmpty = true ↔ [] ∈ names := by
  simp

theorem resolveSegment_of_sound {s : Segment} (h : s.Sound lookup) :
    resolveSegment lookup s = .ok (s.text lookup) := by
  cases s with
  | literal c => rfl
  | unterminated => exact h.elim
  | reference names default? =>
    obtain ⟨hnames, hvalue⟩ := h
    rw [resolveSegment]
    unfold resolveReference
    rw [if_neg (mt (any_isEmpty_iff names).1 hnames), Segment.text]
    cases hset : names.findSome? fun name => lookup (String.ofList name) with
    | some value => rfl
    | none =>
      rcases hvalue with ⟨name, hname, hvalue⟩ | hdefault
      · exact absurd (List.findSome?_eq_none_iff.1 hset name hname) hvalue
      · obtain ⟨dflt, rfl⟩ := Option.ne_none_iff_exists'.1 hdefault
        rfl

theorem resolveSegment_of_not_sound {s : Segment} (h : ¬ s.Sound lookup) :
    ∃ cause, resolveSegment lookup s = .error cause ∧ cause.message = s.complaint := by
  cases s with
  | literal c => exact absurd trivial h
  | unterminated => exact ⟨.unterminated, rfl, rfl⟩
  | reference names default? =>
    rw [resolveSegment, Segment.complaint]
    unfold resolveReference
    by_cases hempty : [] ∈ names
    · rw [if_pos ((any_isEmpty_iff names).2 hempty), if_pos hempty]
      exact ⟨.emptyName, rfl, rfl⟩
    · have hnone := not_or.1 fun hvalue => h ⟨hempty, hvalue⟩
      have hset : (names.findSome? fun name => lookup (String.ofList name)) = none :=
        List.findSome?_eq_none_iff.2 fun name hname =>
          Classical.byContradiction fun hvalue => hnone.1 ⟨name, hname, hvalue⟩
      obtain rfl : default? = none := Classical.byContradiction hnone.2
      rw [if_neg (mt (any_isEmpty_iff names).1 hempty), if_neg hempty, hset]
      exact ⟨.noSuchProperty (names.map String.ofList), rfl, rfl⟩

/-- The segments of a list have texts up to the first one that is not sound. -/
theorem resolveSegments_cases (ss : List Segment) :
    ((∀ s ∈ ss, s.Sound lookup) ∧
      resolveSegments lookup ss = .ok (ss.flatMap (Segment.text lookup))) ∨
    ∃ before s after cause, ss = before ++ s :: after ∧ (∀ t ∈ before, t.Sound lookup) ∧
      ¬ s.Sound lookup ∧ resolveSegments lookup ss = .error cause ∧
      cause.message = s.complaint := by
  induction ss with
  | nil => exact .inl ⟨fun s hs => absurd hs List.not_mem_nil, rfl⟩
  | cons s ss ih =>
    by_cases hs : s.Sound lookup
    · have htext := resolveSegment_of_sound lookup hs
      rcases ih with ⟨hsound, htexts⟩ | ⟨before, t, after, cause, rfl, hbefore, ht, hcause, hmessage⟩
      · refine .inl ⟨List.forall_mem_cons.2 ⟨hs, hsound⟩, ?_⟩
        rw [resolveSegments, htext, htexts]
        rfl
      · refine .inr ⟨s :: before, t, after, cause, rfl,
          List.forall_mem_cons.2 ⟨hs, hbefore⟩, ht, ?_, hmessage⟩
        rw [resolveSegments, htext, hcause]
        rfl
    · obtain ⟨cause, hcause, hmessage⟩ := resolveSegment_of_not_sound lookup hs
      refine .inr ⟨[], s, ss, cause, rfl, fun t ht => absurd ht List.not_mem_nil, hs, ?_, hmessage⟩
      rw [resolveSegments, hcause]
      rfl

/-- An expression resolves if and only if all its segments are sound, and then to what they stand
    for, one after the other. Otherwise the fault has the whole expression, with the complaint of
    the first segment that is not sound. -/
theorem resolve_by_segments (e : String) :
    ((∃ out, resolve lookup e = .ok out) ↔ ∀ s ∈ segments e.toList, s.Sound lookup) ∧
    (∀ out, resolve lookup e = .ok out →
      out = String.ofList ((segments e.toList).flatMap (Segment.text lookup))) ∧
    (∀ fault, resolve lookup e = .error fault →
      ∃ before s after cause, segments e.toList = before ++ s :: after ∧
        (∀ t ∈ before, t.Sound lookup) ∧ ¬ s.Sound lookup ∧
        fault = .resolution e cause ∧ cause.message = s.complaint) := by
  rw [resolve_eq]
  rcases resolveSegments_cases lookup (segments e.toList) with
    ⟨hsound, htext⟩ | ⟨before, s, after, cause, hsegments, hbefore, hs, hcause, hmessage⟩
  · rw [htext]
    refine ⟨⟨fun _ => hsound, fun _ => ⟨_, rfl⟩⟩, ?_, ?_⟩
    · rintro out hout
      exact (Except.ok.inj hout).symm
    · rintro fault hfault
      cases hfault
  · rw [hcause]
    refine ⟨⟨?_, ?_⟩, ?_, ?_⟩
    · rintro ⟨out, hout⟩
      cases hout
    · intro hsound
      exact absurd (hsound s (hsegments ▸ List.mem_append_right _ List.mem_cons_self)) hs
    · rintro out hout
      cases hout
    · intro fault hfault
      exact ⟨before, s, after, cause, hsegments, hbefore, hs, (Except.error.inj hfault).symm,
        hmessage⟩

end Expression

end ManagedModel
