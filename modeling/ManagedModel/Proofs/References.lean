import ManagedModel.Proofs.Course.Resolution

/-! # What references bring into a text

    The text of an expression is made up of its characters and of what its
    references stand for.

    * A reference looks up the names between its braces and nothing else, so
      that look-ups which agree on the `referencedNames` give the same text, or
      the same fault (`resolve_congr`).
    * With more properties set, what resolves still resolves
      (`exists_resolve_of_mono`). The text may change, as an earlier name may be
      set now, or a name in place of a default; it stays where every reference is
      plain (`resolve_mono`).
    * Characters that are left as they are open no reference, and where no value
      has a dollar sign, values do not either. What is left are defaults: they
      are put in as they are, and may open references by themselves or with the
      brace behind them (`opening_infix_textOf_iff`). -/

namespace ManagedModel

namespace Expression

variable {lookup lookup' : String → Option String}

/-! ### What segments come to -/

/-- What segments stand for, one after the other. -/
def textOf (lookup : String → Option String) (ss : List Segment) : List Char :=
  ss.flatMap (Segment.text lookup)

theorem textOf_cons (s : Segment) (ss : List Segment) :
    textOf lookup (s :: ss) = s.text lookup ++ textOf lookup ss :=
  List.flatMap_cons

/-- An expression resolves just if all its segments are sound, and to what they stand for. -/
theorem resolve_eq_ok {e out : String} :
    resolve lookup e = .ok out ↔
      (∀ s ∈ segments e.toList, s.Sound lookup) ∧
        out = String.ofList (textOf lookup (segments e.toList)) := by
  rw [resolve_eq]
  rcases resolveSegments_cases lookup (segments e.toList) with
    ⟨hsound, htext⟩ | ⟨before, s, after, cause, hsegments, -, hs, hcause, -⟩
  · rw [htext]
    constructor
    · intro h
      exact ⟨hsound, (Except.ok.inj h).symm⟩
    · rintro ⟨-, rfl⟩
      rfl
  · rw [hcause]
    constructor
    · intro h
      cases h
    · rintro ⟨hsound, -⟩
      have hmem : s ∈ segments e.toList := hsegments ▸ List.mem_append_right _ List.mem_cons_self
      exact absurd (hsound s hmem) hs

/-! ### The names that are looked up -/

/-- The names that a segment looks up. -/
def Segment.names : Segment → List String
  | .literal _ | .unterminated => []
  | .reference names _ => names.map String.ofList

/-- The names in the references of an expression. -/
def referencedNames (e : String) : List String := (segments e.toList).flatMap Segment.names

theorem resolveSegment_congr {s : Segment} (h : ∀ name ∈ s.names, lookup name = lookup' name) :
    resolveSegment lookup s = resolveSegment lookup' s := by
  cases s with
  | literal c => rfl
  | unterminated => rfl
  | reference names default? =>
    have hfound : (names.findSome? fun name => lookup (String.ofList name)) =
        names.findSome? fun name => lookup' (String.ofList name) := by
      have hsame := List.forall_mem_map.1 h
      clear h
      induction names with
      | nil => rfl
      | cons name names ih =>
        obtain ⟨hfirst, hrest⟩ := List.forall_mem_cons.1 hsame
        rw [List.findSome?_cons, List.findSome?_cons, hfirst, ih hrest]
    show resolveReference lookup names default? = resolveReference lookup' names default?
    unfold resolveReference
    rw [hfound]

theorem resolveSegments_congr {ss : List Segment}
    (h : ∀ s ∈ ss, ∀ name ∈ s.names, lookup name = lookup' name) :
    resolveSegments lookup ss = resolveSegments lookup' ss := by
  induction ss with
  | nil => rfl
  | cons s ss ih =>
    obtain ⟨hfirst, hrest⟩ := List.forall_mem_cons.1 h
    rw [resolveSegments, resolveSegments, resolveSegment_congr hfirst, ih hrest]

/-- Look-ups that agree on the names in the references are as good as each other. -/
theorem resolve_congr {e : String} (h : ∀ name ∈ referencedNames e, lookup name = lookup' name) :
    resolve lookup e = resolve lookup' e := by
  have hsegments : ∀ s ∈ segments e.toList, ∀ name ∈ s.names, lookup name = lookup' name :=
    fun s hs name hname => h name (List.mem_flatMap.2 ⟨s, hs, hname⟩)
  rw [resolve_eq, resolve_eq, resolveSegments_congr hsegments]

/-! ### More properties -/

/-- A look-up that finds more leaves sound segments sound. -/
theorem Segment.Sound.mono {s : Segment} (h : s.Sound lookup)
    (hmono : ∀ {name x}, lookup name = some x → lookup' name = some x) : s.Sound lookup' := by
  cases s with
  | literal c => trivial
  | unterminated => exact h
  | reference names default? =>
    obtain ⟨hnames, ⟨name, hname, hset⟩ | hdefault⟩ := h
    · obtain ⟨x, hx⟩ := Option.ne_none_iff_exists'.1 hset
      have hset' : lookup' (String.ofList name) ≠ none := by
        rw [hmono hx]
        exact Option.some_ne_none x
      exact ⟨hnames, .inl ⟨name, hname, hset'⟩⟩
    · exact ⟨hnames, .inr hdefault⟩

/-- What resolves does so still with more properties. -/
theorem exists_resolve_of_mono {e out : String} (h : resolve lookup e = .ok out)
    (hmono : ∀ {name x}, lookup name = some x → lookup' name = some x) :
    ∃ out', resolve lookup' e = .ok out' := by
  obtain ⟨hsound, -⟩ := resolve_eq_ok.1 h
  exact ⟨_, resolve_eq_ok.2 ⟨fun s hs => (hsound s hs).mono hmono, rfl⟩⟩

end Expression

namespace LiveProperties

variable {live : LiveProperties}

/-- The live properties when further ones were set, one after the other. -/
def setAll (live : LiveProperties) (further : List (String × String)) : LiveProperties :=
  further.foldl (fun live p => live.change p.1 (some p.2)) live

theorem get?_setAll_of_forall_ne {further : List (String × String)} {name : String}
    (h : ∀ p ∈ further, name ≠ p.1) : (live.setAll further).get? name = live.get? name := by
  induction further generalizing live with
  | nil => rfl
  | cons p further ih =>
    obtain ⟨hfirst, hrest⟩ := List.forall_mem_cons.1 h
    calc (live.setAll (p :: further)).get? name
        = ((live.change p.1 (some p.2)).setAll further).get? name := rfl
      _ = (live.change p.1 (some p.2)).get? name := ih hrest
      _ = live.get? name := live.get?_change_of_ne hfirst (some p.2)

/-- Properties that had no value are not in the way of those that had one. -/
theorem below_setAll {further : List (String × String)}
    (h : ∀ p ∈ further, live.get? p.1 = none) : live.Below (live.setAll further) := by
  intro name x hx
  have hothers : ∀ p ∈ further, name ≠ p.1 := by
    rintro p hp rfl
    rw [h p hp] at hx
    cases hx
  rw [get?_setAll_of_forall_ne hothers]
  exact hx

end LiveProperties

namespace Expression

/-- Resolving an expression depends on the names in its references alone, and with more properties
    set it resolves still: to the same text if its references are plain. So setting further
    properties, that had no value, never keeps an expression from resolving. -/
theorem resolve_by_names (e : String) :
    (∀ lookup lookup' : String → Option String,
      (∀ name ∈ referencedNames e, lookup name = lookup' name) →
        resolve lookup e = resolve lookup' e) ∧
    (∀ lookup lookup' : String → Option String,
      (∀ name x, lookup name = some x → lookup' name = some x) →
        ∀ out, resolve lookup e = .ok out →
          (∃ out', resolve lookup' e = .ok out') ∧
            (IsPlain e → resolve lookup' e = .ok out)) ∧
    ∀ (live : LiveProperties) (further : List (String × String)),
      (∀ p ∈ further, live.get? p.1 = none) →
        ∀ out, resolve live.get? e = .ok out →
          ∃ out', resolve (live.setAll further).get? e = .ok out' := by
  refine ⟨fun _ _ h => resolve_congr h, ?_, ?_⟩
  · intro lookup lookup' hmono out h
    exact ⟨exists_resolve_of_mono h fun hx => hmono _ _ hx,
      fun hplain => resolve_mono hplain (fun hx => hmono _ _ hx) h⟩
  · intro live further hunset out h
    have hbelow := LiveProperties.below_setAll hunset
    exact exists_resolve_of_mono h fun hx => hbelow hx

/-- A text that was computed. -/
theorem eq_ok_of_toOption {r : Except Fault String} {out : String} (h : r.toOption = some out) :
    r = .ok out := by
  cases r with
  | error fault => cases h
  | ok out' => exact congrArg Except.ok (Option.some.inj h)

/-- Two names with a default, and a name behind them. -/
def underHome : String := "$\x7bhome,base:/opt\x7d/$\x7bname\x7d"

/-- The default gives way when the second name is set, and the property that is not referred to
    makes no difference. -/
theorem resolve_by_names_underHome :
    let live : LiveProperties := { values := .ofList [("name", "keel")] }
    let further := [("base", "/srv"), ("other", "x")]
    referencedNames underHome = ["home", "base", "name"] ∧
      (∀ p ∈ further, live.get? p.1 = none) ∧ resolve live.get? underHome = .ok "/opt/keel" ∧
      (∃ out, resolve (live.setAll further).get? underHome = .ok out) ∧
      resolve (live.setAll further).get? underHome = .ok "/srv/keel" := by
  intro live further
  have hnames : referencedNames underHome = ["home", "base", "name"] := by decide +kernel
  have hbefore : resolve live.get? underHome = .ok "/opt/keel" :=
    eq_ok_of_toOption (by decide +kernel)
  have hunset : ∀ p ∈ further, live.get? p.1 = none := by decide
  obtain ⟨hagree, -, hfurther⟩ := resolve_by_names underHome
  refine ⟨hnames, hunset, hbefore, hfurther live further hunset _ hbefore, ?_⟩
  have hsame : resolve (live.setAll further).get? underHome =
      resolve (live.setAll [("base", "/srv")]).get? underHome := by
    refine hagree _ _ ?_
    rw [hnames]
    decide
  rw [hsame]
  exact eq_ok_of_toOption (by decide +kernel)

/-! ### Openings -/

/-- The two characters that open a reference. -/
def opening : List Char := ['$', '{']

/-- An opening in two texts, one behind the other, is in one of them or where they meet. -/
theorem opening_infix_append_iff {cs ds : List Char} :
    opening <:+: cs ++ ds ↔
      opening <:+: cs ∨ opening <:+: ds ∨ (['$'] <:+ cs ∧ ['{'] <+: ds) := by
  rw [List.infix_append_iff]
  constructor
  · rintro (h | h | ⟨front, back, hsplit, hfront, hback⟩)
    · exact .inl h
    · exact .inr (.inl h)
    · -- the opening is cut before, in or behind its middle
      rcases List.append_eq_cons_iff.1 hsplit.symm with ⟨rfl, rfl⟩ | ⟨front', rfl, hbrace⟩
      · exact .inr (.inl hback.isInfix)
      · rcases List.append_eq_cons_iff.1 hbrace.symm with ⟨rfl, rfl⟩ | ⟨front'', rfl, hnil⟩
        · exact .inr (.inr ⟨hfront, hback⟩)
        · obtain ⟨rfl, rfl⟩ := List.append_eq_nil_iff.1 hnil.symm
          exact .inl hfront.isInfix
  · rintro (h | h | ⟨hfront, hback⟩)
    · exact .inl h
    · exact .inr (.inl h)
    · exact .inr (.inr ⟨['$'], ['{'], rfl, hfront, hback⟩)

theorem not_opening_infix_of_not_mem {cs : List Char} (h : '$' ∉ cs) : ¬ opening <:+: cs :=
  fun hopen => h (hopen.subset List.mem_cons_self)

/-- A character that begins no placeholder is a segment of its own. -/
theorem segments_cons {c : Char} {cs : List Char} (hescaped : ¬ escapedOpening <+: c :: cs)
    (hopening : ¬ opening <+: c :: cs) : segments (c :: cs) = .literal c :: segments cs := by
  rw [segments]
  · rintro rest rfl rfl
    exact hescaped ⟨rest, rfl⟩
  · rintro rest rfl rfl
    exact hopening ⟨rest, rfl⟩

/-- An opening and the brace that closes it are around a reference. -/
theorem segments_opening_of_cut? {cs body rest : List Char}
    (h : cut? '}' cs = some (body, rest)) :
    segments ('$' :: '{' :: cs) = .ofBody body :: segments rest := by
  rw [segments]
  split
  · next hcut =>
    rw [h] at hcut
    cases hcut
    rfl
  · next hcut =>
    rw [h] at hcut
    cases hcut

/-- An opening that nothing closes takes up the rest of the text. -/
theorem segments_opening_of_cut?_eq_none {cs : List Char} (h : cut? '}' cs = none) :
    segments ('$' :: '{' :: cs) = [.unterminated] := by
  rw [segments]
  split
  · next hcut =>
    rw [h] at hcut
    cases hcut
  · rfl

theorem Segment.exists_ofBody_eq (body : List Char) :
    ∃ names default?, Segment.ofBody body = .reference names default? := by
  unfold Segment.ofBody
  split
  · exact ⟨_, _, rfl⟩
  · exact ⟨_, _, rfl⟩

/-- Behind a dollar sign that opens nothing, no text begins with a brace. -/
theorem not_brace_prefix_textOf {cs : List Char} (hescaped : ¬ escapedOpening <:+: '$' :: cs)
    (hopening : ¬ opening <+: '$' :: cs) : ¬ ['{'] <+: textOf lookup (segments cs) := by
  cases cs with
  | nil =>
    rw [segments]
    rintro ⟨rest, he⟩
    cases he
  | cons c cs =>
    have hbrace : c ≠ '{' := by
      rintro rfl
      exact hopening ⟨cs, rfl⟩
    -- a reference behind the dollar sign would make it an escaped opening
    have hopening' : ¬ opening <+: c :: cs := by
      rintro ⟨rest, he⟩
      exact hescaped ⟨[], rest, by rw [← he]; rfl⟩
    have hescaped' : ¬ escapedOpening <+: c :: cs :=
      fun h => hescaped (h.isInfix.trans (List.suffix_cons '$' (c :: cs)).isInfix)
    rw [segments_cons hescaped' hopening', textOf_cons]
    rintro ⟨rest, he⟩
    exact hbrace (List.cons.inj he).1.symm

/-! ### Defaults that open references -/

/-- A reference stands for its default, and the default opens a reference: it has the two
    characters, or it has the first of them at its end and the second stands behind it. -/
def Segment.FallsOpen (lookup : String → Option String) (s : Segment) (behind : List Char) : Prop :=
  ∃ names dflt, s = .reference names (some dflt) ∧
    (∀ name ∈ names, lookup (String.ofList name) = none) ∧
      (opening <:+: dflt ∨ (['$'] <:+ dflt ∧ ['{'] <+: behind))

/-- Where values have no dollar signs, an opening that begins in a reference is one of its
    default. -/
theorem Segment.fallsOpen_reference_iff
    (hvalues : ∀ name x, lookup name = some x → '$' ∉ x.toList) {names : List (List Char)}
    {default? : Option (List Char)} {behind : List Char} :
    (Segment.reference names default?).FallsOpen lookup behind ↔
      opening <:+: (Segment.reference names default?).text lookup ∨
        (['$'] <:+ (Segment.reference names default?).text lookup ∧ ['{'] <+: behind) := by
  have hnone : ∀ {cs : List Char}, '$' ∉ cs →
      ¬ (opening <:+: cs ∨ (['$'] <:+ cs ∧ ['{'] <+: behind)) := by
    rintro cs hcs (hopen | ⟨hsuffix, -⟩)
    · exact not_opening_infix_of_not_mem hcs hopen
    · exact hcs (hsuffix.subset (List.mem_singleton_self '$'))
  cases hset : names.findSome? fun name => lookup (String.ofList name) with
  | some x =>
    obtain ⟨name, hname, hx⟩ := List.exists_of_findSome?_eq_some hset
    have htext : (Segment.reference names default?).text lookup = x.toList := by
      rw [Segment.text, hset]
    rw [htext]
    refine ⟨?_, fun h => absurd h (hnone (hvalues _ x hx))⟩
    rintro ⟨names', dflt, heq, hunset, -⟩
    obtain ⟨rfl, -⟩ := Segment.reference.inj heq
    rw [hunset name hname] at hx
    cases hx
  | none =>
    have htext : (Segment.reference names default?).text lookup = default?.getD [] := by
      rw [Segment.text, hset]
    rw [htext]
    constructor
    · rintro ⟨names', dflt, heq, -, hopens⟩
      obtain ⟨-, rfl⟩ := Segment.reference.inj heq
      exact hopens
    · intro hopens
      cases default? with
      | none => exact absurd hopens (hnone List.not_mem_nil)
      | some dflt => exact ⟨names, dflt, rfl, List.findSome?_eq_none_iff.1 hset, hopens⟩

/-- Some segment of the list falls open in front of those behind it. -/
def SomeFallsOpen (lookup : String → Option String) (ss : List Segment) : Prop :=
  ∃ s after, s :: after <:+ ss ∧ s.FallsOpen lookup (textOf lookup after)

theorem someFallsOpen_cons {s : Segment} {ss : List Segment} :
    SomeFallsOpen lookup (s :: ss) ↔
      s.FallsOpen lookup (textOf lookup ss) ∨ SomeFallsOpen lookup ss := by
  constructor
  · rintro ⟨t, after, hsuffix, ht⟩
    rcases List.suffix_cons_iff.1 hsuffix with heq | hsuffix
    · obtain ⟨rfl, rfl⟩ := List.cons.inj heq
      exact .inl ht
    · exact .inr ⟨t, after, hsuffix, ht⟩
  · rintro (h | ⟨t, after, hsuffix, ht⟩)
    · exact ⟨s, ss, List.suffix_rfl, h⟩
    · exact ⟨t, after, hsuffix.trans (List.suffix_cons s ss), ht⟩

theorem not_someFallsOpen_nil : ¬ SomeFallsOpen lookup [] := by
  rintro ⟨s, after, hsuffix, -⟩
  cases List.suffix_nil.1 hsuffix

/-- Where nothing is escaped and values have no dollar signs, a text has the openings that defaults
    bring into it, and no others. -/
theorem opening_infix_textOf_iff (hvalues : ∀ name x, lookup name = some x → '$' ∉ x.toList)
    {cs : List Char} (hescaped : ¬ escapedOpening <:+: cs) :
    opening <:+: textOf lookup (segments cs) ↔ SomeFallsOpen lookup (segments cs) := by
  induction cs using segments.induct with
  | case1 =>
    rw [segments]
    exact iff_of_false (not_opening_infix_of_not_mem List.not_mem_nil) not_someFallsOpen_nil
  | case2 cs ih => exact absurd ⟨[], cs, rfl⟩ hescaped
  | case3 cs body rest h hlt ih =>
    have hrest : ¬ escapedOpening <:+: rest := by
      intro hopen
      rw [(append_of_cut? h).1] at hescaped
      exact hescaped (hopen.trans ⟨'$' :: '{' :: (body ++ ['}']), [], by simp⟩)
    obtain ⟨names, default?, hbody⟩ := Segment.exists_ofBody_eq body
    rw [segments_opening_of_cut? h, textOf_cons, hbody, opening_infix_append_iff, someFallsOpen_cons,
      Segment.fallsOpen_reference_iff hvalues, ih hrest]
    exact (or_assoc.trans (or_congr_right or_comm)).symm
  | case4 cs h =>
    rw [segments_opening_of_cut?_eq_none h]
    refine iff_of_false (not_opening_infix_of_not_mem List.not_mem_nil) ?_
    rw [someFallsOpen_cons]
    rintro (⟨names, dflt, heq, -⟩ | hnone)
    · cases heq
    · exact not_someFallsOpen_nil hnone
  | case5 c cs hnotEscaped hnotOpening ih =>
    have hopening : ¬ opening <+: c :: cs := not_opening_cons hnotOpening
    have hrest : ¬ escapedOpening <:+: cs :=
      fun h => hescaped (h.trans (List.suffix_cons c cs).isInfix)
    have hseam : ¬ (['$'] <:+ [c] ∧ ['{'] <+: textOf lookup (segments cs)) := by
      rintro ⟨hdollar, hbrace⟩
      obtain rfl : '$' = c := List.mem_singleton.1 (hdollar.subset (List.mem_singleton_self '$'))
      exact not_brace_prefix_textOf hescaped hopening hbrace
    have hliteral : ¬ (Segment.literal c).FallsOpen lookup (textOf lookup (segments cs)) := by
      rintro ⟨names, dflt, heq, -⟩
      cases heq
    have hsingle : ¬ opening <:+: [c] := fun h => by simpa [opening] using h.length_le
    rw [segments_cons (fun h => hescaped h.isInfix) hopening, textOf_cons, someFallsOpen_cons,
      ← ih hrest]
    show opening <:+: [c] ++ _ ↔ _
    rw [opening_infix_append_iff]
    simp only [hsingle, hseam, hliteral, false_or, or_false]

/-- Where no default has a dollar sign, nothing falls open. -/
theorem not_someFallsOpen {ss : List Segment}
    (hdefaults : ∀ names dflt, Segment.reference names (some dflt) ∈ ss → '$' ∉ dflt) :
    ¬ SomeFallsOpen lookup ss := by
  rintro ⟨s, after, hsuffix, names, dflt, rfl, -, hopens⟩
  have hdollar : '$' ∉ dflt := hdefaults names dflt (hsuffix.subset List.mem_cons_self)
  rcases hopens with hopen | ⟨hend, -⟩
  · exact not_opening_infix_of_not_mem hdollar hopen
  · exact hdollar (hend.subset (List.mem_singleton_self '$'))

/-- Where nothing is escaped and no value has a dollar sign, what an expression resolves to has an
    opening just if a default brings it there, and none at all if no default has a dollar sign. -/
theorem openings_from_defaults {lookup : String → Option String} {e out : String}
    (hescaped : ¬ escapedOpening <:+: e.toList)
    (hvalues : ∀ name x, lookup name = some x → '$' ∉ x.toList)
    (hok : resolve lookup e = .ok out) :
    (opening <:+: out.toList ↔ SomeFallsOpen lookup (segments e.toList)) ∧
      ((∀ names dflt, Segment.reference names (some dflt) ∈ segments e.toList → '$' ∉ dflt) →
        ¬ opening <:+: out.toList) := by
  have hiff : opening <:+: out.toList ↔ SomeFallsOpen lookup (segments e.toList) := by
    obtain ⟨-, rfl⟩ := resolve_eq_ok.1 hok
    rw [String.toList_ofList]
    exact opening_infix_textOf_iff hvalues hescaped
  exact ⟨hiff, fun hdefaults h => not_someFallsOpen hdefaults (hiff.1 h)⟩

/-- A reference whose value has a brace, behind a dollar sign that is no part of a placeholder. -/
def costOfBox : String := "$ $\x7bbox:\x7bnone\x7d"

theorem openings_from_defaults_costOfBox :
    let lookup : String → Option String :=
      fun name => if name = "box" then some "\x7b7\x7d" else none
    resolve lookup costOfBox = .ok "$ \x7b7\x7d" ∧ ¬ opening <:+: "$ \x7b7\x7d".toList := by
  intro lookup
  have hok : resolve lookup costOfBox = .ok "$ \x7b7\x7d" :=
    eq_ok_of_toOption (by decide +kernel)
  have hvalues : ∀ name x, lookup name = some x → '$' ∉ x.toList := by
    intro name x h
    obtain ⟨-, hx⟩ := Option.ite_none_right_eq_some.1 h
    rw [← Option.some.inj hx]
    decide
  have hsegments : segments costOfBox.toList =
      [.literal '$', .literal ' ', .reference ["box".toList] (some "\x7bnone".toList)] := by
    decide +kernel
  refine ⟨hok, (openings_from_defaults (by decide +kernel) hvalues hok).2 ?_⟩
  rw [hsegments]
  intro names dflt hmem
  obtain ⟨-, rfl⟩ : names = ["box".toList] ∧ dflt = "\x7bnone".toList := by simpa using hmem
  decide

/-- Defaults leave openings behind where nothing is escaped and no property is set at all: within
    a default, and where one meets the text behind it. -/
theorem openings_within_and_behind_defaults :
    let lookup : String → Option String := fun _ => none
    let within := "$\x7ba:$\x7bb\x7d\x7d"
    let behind := "$\x7ba:$\x7d\x7b"
    (∀ e ∈ [within, behind], ¬ escapedOpening <:+: e.toList) ∧
      (∀ name x, lookup name = some x → '$' ∉ x.toList) ∧
      resolve lookup within = .ok "$\x7bb\x7d" ∧ opening <:+: "$\x7bb\x7d".toList ∧
      resolve lookup behind = .ok "$\x7b" ∧ opening <:+: "$\x7b".toList := by
  intro lookup within behind
  refine ⟨by decide +kernel, ?_, eq_ok_of_toOption (by decide +kernel), by decide +kernel,
    eq_ok_of_toOption (by decide +kernel), by decide +kernel⟩
  intro name x h
  cases h

end Expression

end ManagedModel
